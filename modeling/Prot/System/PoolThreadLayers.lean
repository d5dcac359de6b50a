import Prot.Lock.EventInvariant
import Prot.System.PoolThread
import Prot.System.Thread

/-! `pthread.cc` over the events and the `Thread` it is built from: one owner,
and the workers it starts one after another. A step is one of `pthread.cc`, one
inside an operation of an event, or one inside the `Thread`. -/

namespace Prot.System.PoolThread.Layers

open Concurrency Time Lock

inductive Party where
  | owner
  | worker (k : ℕ)
  deriving DecidableEq, Repr

inductive Side where
  | sigIn
  | sigOut
  deriving DecidableEq, Repr

/-- What the owner does with its `PoolThread`. -/
inductive Call (Arg : Type) where
  | run (args : Arg)
  | wait (t : TimeUnit)
  | status
  | kill
  deriving DecidableEq, Repr

/-- Where the owner stands in `pthread.cc`; a place that begins with `in` is
inside the call that the place before it makes. -/
inductive Owner (Arg : Type) where
  | idle
  | runTestStarting (args : Arg)
  | runWriteStarting (args : Arg)
  | runThread (args : Arg)
  | inThreadRun (args : Arg)
  | runTestActiving (args : Arg)
  | runResetOut (args : Arg)
  | inResetOut (args : Arg)
  | runWriteArgs (args : Arg)
  | runReadFlag
  | runWriteFlag (flag : Flag)
  | runSetIn
  | inSetIn
  | runGetId
  | inGetId
  | runReturn (tid : UInt32)
  | waitOut (t : TimeUnit)
  | inWaitOut
  | waitReturn (rv : Bool)
  | statusThread
  | inStatus
  | statusFlag
  | statusReturn (state : ThreadState)
  | killThread
  | inKill
  | killWriteFlag
  | killSetOut
  | inKillSetOut
  | killReturn (rv : Bool)
  deriving DecidableEq, Repr

/-- Where a worker stands in `_Prot_WrapPoolThread_Proc_`. -/
inductive Worker where
  | test
  | waitIn
  | inWaitIn
  | readFunc
  | callFunc
  | running
  | resetIn
  | inResetIn
  | readFlag
  | writeFlag (flag : Flag)
  | setOut
  | inSetOut
  | testHasExit
  | delete
  | returned
  deriving DecidableEq, Repr

/-- `PoolThreadData`, the `Thread` underneath, and where everybody stands.
`kills` counts the calls of `Kill` that returned `True`. -/
structure State (Arg : Type) where
  thread : Thread.State Unit Unit
  sig : Side → Event.State Party
  func : Bool
  args : Arg
  flag : Flag
  deleted : ℕ
  owner : Owner Arg
  worker : ℕ → Worker
  kills : ℕ

/-- One choice of the environment: the owner calls an operation; the owner or a
worker executes its next step in `pthread.cc`; somebody moves on inside an
event, or inside the `Thread`; or a cancellation is acted on inside
`pthread_cond_wait` of `sig_in`. -/
inductive Action (Arg : Type) where
  | call (call : Call Arg)
  | owner
  | worker (k : ℕ)
  | event (side : Side) (action : Event.Action Party)
  | thread (action : Thread.Action Unit Unit)
  | cancelWait (k : ℕ)
  deriving DecidableEq, Repr

variable {Arg : Type}

def construct (func : Bool) (args : Arg) (clockSet : Bool) (tidMax : UInt32) : State Arg where
  thread := Thread.construct true () clockSet tidMax
  sig := fun
    | .sigIn => Event.fresh true false
    | .sigOut => Event.fresh true true
  func := func
  args := args
  flag := ⟨false, false, false, false⟩
  deleted := 0
  owner := .idle
  worker := fun _ => .test
  kills := 0

def Call.entry : Call Arg → Owner Arg
  | .run args => .runTestStarting args
  | .wait t => .waitOut t
  | .status => .statusThread
  | .kill => .killThread

/-- The event the owner is inside of. -/
def Owner.side : Owner Arg → Option Side
  | .inResetOut _ | .inWaitOut | .inKillSetOut => some .sigOut
  | .inSetIn => some .sigIn
  | _ => none

def Worker.side : Worker → Option Side
  | .inWaitIn | .inResetIn => some .sigIn
  | .inSetOut => some .sigOut
  | _ => none

def Owner.inThread : Owner Arg → Bool
  | .inThreadRun _ | .inGetId | .inStatus | .inKill => true
  | _ => false

/-- Where the owner goes on after an operation of an event, by its last step. -/
def Owner.afterEvent (o : Owner Arg) (last : Event.Pc) : Owner Arg :=
  match o, last with
  | .inResetOut a, _ => .runWriteArgs a
  | .inSetIn, _ => .runGetId
  | .inWaitOut, .waitReturn rv => .waitReturn rv
  | .inKillSetOut, _ => .killReturn true
  | o, _ => o

def Worker.afterEvent : Worker → Worker
  | .inWaitIn => .readFunc
  | .inResetIn => .readFlag
  | .inSetOut => .test
  | w => w

def Owner.afterThread (o : Owner Arg) (last : Thread.Pc Unit) : Owner Arg :=
  match o, last with
  | .inThreadRun a, .runReturn tid => if tid ≠ 0 then .runResetOut a else .runReturn 0
  | .inGetId, .getIdReturn tid => .runReturn tid
  | .inStatus, .statusReturn running => if running then .statusFlag else .statusReturn .offline
  | .inKill, .killReturn rv => if rv then .killWriteFlag else .killReturn false
  | o, _ => o

def inFunc {Arg : Type} : Thread.Place Arg → Bool
  | .running _ => true
  | _ => false

/-- A worker has left its function, by its end or by a cancellation. -/
def terminated {Arg : Type} : Thread.Place Arg → Bool
  | .exitLock | .exitMark | .exitTest | .exitBroadcast _ | .exitUnlock _ | .exitFree | .ended => true
  | _ => false

def State.enter (s : State Arg) (side : Side) (party : Party) (call : Event.Call) :
    Option (Side → Event.State Party) :=
  (Event.step (s.sig side) (.call party call)).map fun e => Function.update s.sig side e

def State.enterThread (s : State Arg) (call : Thread.Call Unit) (owner : Owner Arg) :
    Option (State Arg) :=
  (Thread.step s.thread (.call () call)).map fun t => { s with thread := t, owner := owner }

def State.ownerNext (s : State Arg) : Option (State Arg) :=
  match s.owner with
  | .runTestStarting a =>
    some { s with owner := if s.flag.starting then .runTestActiving a else .runWriteStarting a }
  | .runWriteStarting a =>
    some { s with flag := ⟨true, false, false, false⟩, owner := .runThread a }
  | .runThread a => s.enterThread (.run ()) (.inThreadRun a)
  | .runTestActiving a =>
    some { s with owner := if s.flag.activing then .runReturn 0 else .runResetOut a }
  | .runResetOut a => (s.enter .sigOut .owner .reset).map fun sig =>
      { s with sig := sig, owner := .inResetOut a }
  | .runWriteArgs a => some { s with args := a, owner := .runReadFlag }
  | .runReadFlag => some { s with owner := .runWriteFlag { s.flag with activing := true } }
  | .runWriteFlag flag => some { s with flag := flag, owner := .runSetIn }
  | .runSetIn => (s.enter .sigIn .owner .set).map fun sig => { s with sig := sig, owner := .inSetIn }
  | .runGetId => s.enterThread .getId .inGetId
  | .waitOut t => (s.enter .sigOut .owner (.wait t)).map fun sig =>
      { s with sig := sig, owner := .inWaitOut }
  | .statusThread => s.enterThread .status .inStatus
  | .statusFlag =>
    some { s with owner := .statusReturn (if s.flag.activing then .running else .holding) }
  | .killThread => s.enterThread .kill .inKill
  | .killWriteFlag => some { s with flag := ⟨false, true, false, false⟩, owner := .killSetOut }
  | .killSetOut => (s.enter .sigOut .owner .set).map fun sig =>
      { s with sig := sig, owner := .inKillSetOut }
  | .killReturn rv => some { s with kills := if rv then s.kills + 1 else s.kills, owner := .idle }
  | .runReturn _ | .waitReturn _ | .statusReturn _ => some { s with owner := .idle }
  | _ => none

def State.moveTo (s : State Arg) (k : ℕ) (worker : Worker) : State Arg :=
  { s with worker := Function.update s.worker k worker }

def State.workerNext (s : State Arg) (k : ℕ) : Option (State Arg) :=
  match s.worker k with
  | .test => some (s.moveTo k (if s.flag.detached then .testHasExit else .waitIn))
  | .waitIn => (s.enter .sigIn (.worker k) (.wait .infinite)).map fun sig =>
      { s with sig := sig }.moveTo k .inWaitIn
  | .readFunc => some (s.moveTo k (if s.func then .callFunc else .testHasExit))
  | .callFunc => some (s.moveTo k .running)
  | .running => some (s.moveTo k .resetIn)
  | .resetIn => (s.enter .sigIn (.worker k) .reset).map fun sig =>
      { s with sig := sig }.moveTo k .inResetIn
  | .readFlag => some (s.moveTo k (.writeFlag { s.flag with activing := false }))
  | .writeFlag flag => some ({ s with flag := flag }.moveTo k .setOut)
  | .setOut => (s.enter .sigOut (.worker k) .set).map fun sig =>
      { s with sig := sig }.moveTo k .inSetOut
  | .testHasExit => some (s.moveTo k (if s.flag.hasExit then .returned else .delete))
  | .delete => some ({ s with deleted := s.deleted + 1 }.moveTo k .returned)
  | .inWaitIn | .inResetIn | .inSetOut | .returned => none

def begins : Event.Action Party → Bool
  | .call _ _ => true
  | _ => false

/-- The owner moves on inside an event; the operation ends with its return. -/
def State.ownerEvent (s : State Arg) (side : Side) (action : Event.Action Party) :
    Option (State Arg) :=
  if s.owner.side = some side then
    (Event.step (s.sig side) action).map fun e =>
      { s with
        sig := Function.update s.sig side e
        owner := if e.pc .owner = .idle then s.owner.afterEvent ((s.sig side).pc .owner)
          else s.owner }
  else none

def State.workerEvent (s : State Arg) (k : ℕ) (side : Side) (action : Event.Action Party) :
    Option (State Arg) :=
  if (s.worker k).side = some side ∧ inFunc (s.thread.place k) then
    (Event.step (s.sig side) action).map fun e =>
      { s with sig := Function.update s.sig side e }.moveTo k
        (if e.pc (.worker k) = Event.Pc.idle then (s.worker k).afterEvent else s.worker k)
  else none

def State.eventNext (s : State Arg) (side : Side) (action : Event.Action Party) :
    Option (State Arg) :=
  if begins action then none
  else match action.thread with
    | .owner => s.ownerEvent side action
    | .worker k => s.workerEvent k side action

/-- In `pthread_cond_wait` of `sig_in`. -/
def State.condWaits (s : State Arg) (k : ℕ) : Bool := ((s.sig .sigIn).pc (.worker k)).waits

/-- Which steps inside the `Thread` the layer above leaves free: a call begins
in `pthread.cc`, the owner moves on while it is inside, a worker's function ends
where its loop has ended, and a cancellation is acted on anywhere but inside
`pthread_cond_wait`. -/
def State.permits (s : State Arg) : Thread.Action Unit Unit → Bool
  | .call _ _ => false
  | .run _ | .createFails _ _ | .fail _ | .expire _ | .wake _ | .state _ _ => s.owner.inThread
  | .thread k => !inFunc (s.thread.place k) || s.worker k = .returned
  | .cancel k => !(inFunc (s.thread.place k) && s.condWaits k)
  | .getId _ | .elsewhere => true

def State.threadNext (s : State Arg) (action : Thread.Action Unit Unit) : Option (State Arg) :=
  if s.permits action then
    (Thread.step s.thread action).map fun t =>
      { s with
        thread := t
        owner := if s.owner.inThread ∧ t.pc () = .idle then s.owner.afterThread (s.thread.pc ())
          else s.owner }
  else none

/-- A cancellation is acted on inside `pthread_cond_wait`: the worker leaves
the wait, takes the mutex again, and exits. -/
def State.cancelWait (s : State Arg) (k : ℕ) : Option (State Arg) :=
  if inFunc (s.thread.place k) ∧ s.condWaits k then
    (Event.step (s.sig .sigIn) (.wake (.worker k))).bind fun left =>
      (Event.step left (.run (.worker k))).bind fun relocked =>
        (Thread.step s.thread (.cancel k)).map fun t =>
          { s with thread := t, sig := Function.update s.sig .sigIn relocked }
  else none

def step (s : State Arg) : Action Arg → Option (State Arg)
  | .call call => match s.owner with
    | .idle => some { s with owner := call.entry }
    | _ => none
  | .owner => s.ownerNext
  | .worker k => if inFunc (s.thread.place k) then s.workerNext k else none
  | .event side action => s.eventNext side action
  | .thread action => s.threadNext action
  | .cancelWait k => s.cancelWait k

end Prot.System.PoolThread.Layers
