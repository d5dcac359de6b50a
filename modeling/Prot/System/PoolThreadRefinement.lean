import Prot.Concurrency.Refinement
import Prot.Lock.EventAtomic
import Prot.System.PoolThreadCancel
import Prot.System.PoolThreadInvariant

/-! `pthread.cc` over the real events and the real `Thread` against `pthread.cc` over
atomic ones: what a state of the first stands for in the second. -/

namespace Prot.System.PoolThread

open Concurrency Time Lock

/-- What the owner and the jobs see of a `PoolThread`. -/
inductive Shown (Arg : Type) where
  | called (call : Call Arg)
  | ran (accepted : Bool)
  | waited (rv : Bool)
  | told (state : ThreadState)
  | began (args : Arg)
  | ended
  deriving DecidableEq, Repr

variable {Arg : Type}

def observe (s : State Arg) : Action Arg → Option (Shown Arg)
  | .call call => some (.called call)
  | .owner => match s.owner with
    | .runReturn _ tid => some (.ran tid)
    | .waitReturn rv => some (.waited rv)
    | .statusReturn state => some (.told state)
    | _ => none
  | .worker => match s.worker with
    | .callFunc => some (.began s.args)
    | .running => some .ended
    | _ => none
  | .createFails _ | .expire => none

def Action.spares : Action Arg → Bool
  | .call .destroy => false
  | _ => true

namespace Layers

def Call.plain : Call Arg → Option (PoolThread.Call Arg)
  | .run args => some (.run args)
  | .wait t => some (.wait t)
  | .status => some .status
  | .kill => none

def observe (s : State Arg) : Action Arg → Option (Shown Arg)
  | .call call => call.plain.map .called
  | .owner => match s.owner with
    | .runReturn tid => some (.ran (decide (tid ≠ 0)))
    | .waitReturn rv => some (.waited rv)
    | .statusReturn state => some (.told state)
    | _ => none
  | .worker k => match s.worker k with
    | .callFunc => some (.began s.args)
    | .running => some .ended
    | _ => none
  | .event _ _ | .thread _ | .cancelWait _ => none

/-- No `Kill`, no failing call on the clock or a condition variable, and no id 0. -/
def Usual (s : State Arg) : Action Arg → Prop
  | .call .kill => False
  | .event _ inner => inner.fails = false
  | .thread (.run _) => s.thread.pc () ≠ .runCreate 0
  | _ => True

/-- The places of `pthread.cc` outside the events and the `Thread`, but for the
return of `Run`. -/
def Owner.outside (args : Arg) : Owner Arg → Option (PoolThread.Owner Arg)
  | .idle => some .idle
  | .runTestStarting a => some (.runTestStarting a)
  | .runWriteStarting a => some (.runWriteStarting a)
  | .runThread a => some (.runCreate a)
  | .runTestActiving a => some (.runTestActiving a)
  | .runResetOut a => some (.runResetOut a)
  | .runWriteArgs a => some (.runWriteArgs a)
  | .runReadFlag => some (.runReadFlag args)
  | .runWriteFlag flag => some (.runWriteFlag args flag)
  | .runSetIn => some (.runSetIn args)
  | .runGetId => some (.runGetId args)
  | .waitOut t => some (.waitOut t)
  | .waitReturn rv => some (.waitReturn rv)
  | .statusThread => some .statusThread
  | .statusFlag => some .statusFlag
  | .statusReturn state => some (.statusReturn state)
  | _ => none

def Worker.outside : Worker → Option PoolThread.Worker
  | .test => some .test
  | .waitIn => some .waitIn
  | .readFunc => some .readFunc
  | .callFunc => some .callFunc
  | .running => some .running
  | .resetIn => some .resetIn
  | .readFlag => some .readFlag
  | .writeFlag flag => some (.writeFlag flag)
  | .setOut => some .setOut
  | .testHasExit => some .testHasExit
  | .delete => some .delete
  | .returned => some .returned
  | .inWaitIn | .inResetIn | .inSetOut => none

/-- Inside `Thread::Run`, before `pthread_create`. -/
def early : Thread.Pc Unit → Bool
  | .runTestFunc _ | .runTestTid _ | .runWriteArgs _ | .runNextTid | .runCreate _ => true
  | _ => false

/-- `Wait(t)` of an event has not got its answer, or has read one it may give. -/
def Awaits (t : TimeUnit) : Event.Pc → Prop
  | .waitLock t' | .waitBranch t' => t' = t
  | .waitTest timed | .waitBlocked timed => timed = !t.infinitely
  | .waitExpired | .waitRead => t.infinitely = false
  | .waitTake rv => rv = false → t.infinitely = false
  | _ => False

def ran (a : Arg) (id : UInt32) : PoolThread.Owner Arg :=
  if id ≠ 0 then .runResetOut a else .runReturn a false

/-- What the place of the owner, with its places in `sig_in`, `sig_out` and the
`Thread`, stands for; `tid` and `thread` are the fields of `THREAD_DATA`. -/
inductive OwnerAt (args : Arg) (tid : UInt32) (thread : ℕ) :
    Owner Arg → Event.Pc → Event.Pc → Thread.Pc Unit → PoolThread.Owner Arg → Prop where
  | outside {o : Owner Arg} {o' : PoolThread.Owner Arg} (same : o.outside args = some o') :
      OwnerAt args tid thread o .idle .idle .idle o'
  | returning {a : Arg} {id : UInt32} (accepted : id ≠ 0 → a = args) :
      OwnerAt args tid thread (.runReturn id) .idle .idle .idle (.runReturn a (decide (id ≠ 0)))
  | creating {a : Arg} {pc : Thread.Pc Unit} (before : early pc = true) :
      OwnerAt args tid thread (.inThreadRun a) .idle .idle pc (.runCreate a)
  | writing {a : Arg} {id : UInt32} :
      OwnerAt args tid thread (.inThreadRun a) .idle .idle (.runWriteTid id) (ran a id)
  | written {a : Arg} : OwnerAt args tid thread (.inThreadRun a) .idle .idle .runReadTid (ran a tid)
  | started {a : Arg} {id : UInt32} :
      OwnerAt args tid thread (.inThreadRun a) .idle .idle (.runReturn id) (ran a id)
  | resetting {a : Arg} {pc : Event.Pc} (pending : pc.status = .called .reset) :
      OwnerAt args tid thread (.inResetOut a) .idle pc .idle (.runResetOut a)
  | reset {a : Arg} {pc : Event.Pc} (acted : pc.status = .acted .done) :
      OwnerAt args tid thread (.inResetOut a) .idle pc .idle (.runWriteArgs a)
  | setting {pc : Event.Pc} (pending : pc.status = .called .set) :
      OwnerAt args tid thread .inSetIn pc .idle .idle (.runSetIn args)
  | set {pc : Event.Pc} (acted : pc.status = .acted .done) :
      OwnerAt args tid thread .inSetIn pc .idle .idle (.runGetId args)
  | asking : OwnerAt args tid thread .inGetId .idle .idle .getIdRead (.runGetId args)
  | asked {id : UInt32} : OwnerAt args tid thread .inGetId .idle .idle (.getIdReturn id)
      (.runReturn args (decide (id ≠ 0)))
  | waiting {t : TimeUnit} {pc : Event.Pc} (pending : Awaits t pc) :
      OwnerAt args tid thread .inWaitOut .idle pc .idle (.waitOut t)
  | waited {rv : Bool} {pc : Event.Pc} (acted : pc.status = .acted (.answer rv)) :
      OwnerAt args tid thread .inWaitOut .idle pc .idle (.waitReturn rv)
  | looking : OwnerAt args tid thread .inStatus .idle .idle .statusThread .statusThread
  | reading (some : thread ≠ 0) :
      OwnerAt args tid thread .inStatus .idle .idle .statusFlag .statusThread
  | offline : OwnerAt args tid thread .inStatus .idle .idle (.statusReturn false)
      (.statusReturn .offline)
  | online : OwnerAt args tid thread .inStatus .idle .idle (.statusReturn true) .statusFlag

/-- What the place of the worker, with its places in the `Thread`, `sig_in` and
`sig_out`, stands for; `hasExit` is `TDFLAG_HAS_EXIT`. -/
inductive WorkerAt : Bool → Thread.Place Unit → Worker → Event.Pc → Event.Pc →
    PoolThread.Worker → Prop where
  | unborn : WorkerAt false .unborn .test .idle .idle .absent
  | entering {place : Thread.Place Unit}
      (before : place = .setSpecific ∨ place = .setCancelType ∨ place = .readFunc ∨ place = .readArgs) :
      WorkerAt false place .test .idle .idle .test
  | outside {w : Worker} {w' : PoolThread.Worker} (same : w.outside = some w') :
      WorkerAt false (.running ()) w .idle .idle w'
  | waiting {pc : Event.Pc} (pending : Awaits .infinite pc) :
      WorkerAt false (.running ()) .inWaitIn pc .idle .waitIn
  | waited {pc : Event.Pc} (acted : pc.status = .acted (.answer true)) :
      WorkerAt false (.running ()) .inWaitIn pc .idle .readFunc
  | resetting {pc : Event.Pc} (pending : pc.status = .called .reset) :
      WorkerAt false (.running ()) .inResetIn pc .idle .resetIn
  | reset {pc : Event.Pc} (acted : pc.status = .acted .done) :
      WorkerAt false (.running ()) .inResetIn pc .idle .readFlag
  | setting {pc : Event.Pc} (pending : pc.status = .called .set) :
      WorkerAt false (.running ()) .inSetOut .idle pc .setOut
  | set {pc : Event.Pc} (acted : pc.status = .acted .done) :
      WorkerAt false (.running ()) .inSetOut .idle pc .test
  | exiting {place : Thread.Place Unit} (before : place = .exitLock ∨ place = .exitMark) :
      WorkerAt false place .returned .idle .idle .returned
  | exited {place : Thread.Place Unit} (after : place = .exitTest ∨
        (∃ b, place = .exitBroadcast b ∨ place = .exitUnlock b) ∨ place = .exitFree ∨ place = .ended) :
      WorkerAt true place .returned .idle .idle .exited

def announced (t : Thread.State Unit Unit) : UInt32 :=
  match t.pc () with
  | .runWriteTid tid => tid
  | _ => t.data.tid

/-- Nothing has been started through the `Thread`. -/
structure Unstarted (t : Thread.State Unit Unit) : Prop where
  born : t.born = 0
  tid : t.data.tid = 0
  quiet : ∀ id, t.pc () ≠ .runWriteTid id

structure Single (t : Thread.State Unit Unit) : Prop where
  born : t.born ≤ 1
  unborn : ∀ k, t.born ≤ k → t.place k = .unborn
  calm : ∀ k, t.cancelled k = false

/-- The state of the machine over atomic events and an atomic `Thread` that a state
stands for. -/
structure Represents (s : State Arg) (t : PoolThread.State Arg) : Prop where
  func : t.func = s.func
  args : t.args = s.args
  flag : t.flag = s.flag
  sigIn : t.sigIn = (s.sig .sigIn).state
  sigOut : t.sigOut = (s.sig .sigOut).state
  deleted : t.deleted = s.deleted
  tid : t.tid = decide (announced s.thread ≠ 0)
  online : t.online = s.thread.data.online
  owner : OwnerAt s.args s.thread.data.tid s.thread.data.thread s.owner
    ((s.sig .sigIn).pc .owner) ((s.sig .sigOut).pc .owner) (s.thread.pc ()) t.owner
  worker : WorkerAt s.thread.data.flag.hasExit (s.thread.place 0) (s.worker 0)
    ((s.sig .sigIn).pc (.worker 0)) ((s.sig .sigOut).pc (.worker 0)) t.worker
  manual : ∀ side, (s.sig side).manual = true
  settled : ∀ side, Event.Settled (s.sig side)
  single : Single s.thread
  starting : t.flag.starting = false → Unstarted s.thread
  creating : ∀ a, t.owner = .runCreate a → Unstarted s.thread

variable {s s' : State Arg} {t : PoolThread.State Arg} {action : Action Arg} {k : ℕ}
variable {args : Arg} {tid : UInt32} {thread : ℕ} {o : PoolThread.Owner Arg} {w : PoolThread.Worker}
variable {pin pout : Event.Pc} {tp : Thread.Pc Unit} {hasExit : Bool} {place : Thread.Place Unit}

theorem construct_represents (func : Bool) (args : Arg) (clockSet : Bool) (tidMax : UInt32) :
    Represents (construct func args clockSet tidMax) (PoolThread.init func args) where
  func := rfl
  args := rfl
  flag := rfl
  sigIn := rfl
  sigOut := rfl
  deleted := rfl
  tid := rfl
  online := rfl
  owner := .outside rfl
  worker := .unborn
  manual := by rintro (_ | _) <;> rfl
  settled := by rintro (_ | _) <;> exact Event.fresh_settled ..
  single := ⟨Nat.zero_le _, fun _ _ => rfl, fun _ => rfl⟩
  starting := fun _ => ⟨rfl, rfl, fun _ there => by cases there⟩
  creating := fun _ there => by cases there

section Events

variable {e e' : Event.State Party} {inner : Event.Action Party} {party : Party} {side : Side}
variable {v v' fails : Bool} {blocked after : List Party} {here next : Event.Pc}

private theorem infinitely_of_empty {t : TimeUnit} (empty : t.empty = true) :
    t.infinitely = false := by
  have none : t.utc = 0 := by simpa [TimeUnit.empty] using empty
  rw [TimeUnit.infinitely, none]
  rfl

private theorem awaits_effect {t : TimeUnit}
    (effect : Event.Effect true party false v blocked here v' after next)
    (awaits : Awaits t here) : v' = v ∧ (Awaits t next ∨
      ∃ rv, here = .waitTake rv ∧ next = .waitUnlock rv ∧ (rv = false → t.infinitely = false)) := by
  cases effect with
  | silent edge =>
    refine ⟨rfl, .inl ?_⟩
    cases edge with
    | waitLocked => exact awaits
    | @branch t' =>
      have same : t' = t := awaits
      subst same
      rw [Event.waitPath]
      split
      · rename_i empty
        exact infinitely_of_empty empty
      · rfl
    | expired => exact awaits
    | _ => cases awaits
  | pass =>
    rename_i timed
    have same : timed = !t.infinitely := awaits
    cases timed with
    | true =>
      have finite : t.infinitely = false := by simpa using same.symm
      exact ⟨rfl, .inl finite⟩
    | false => exact ⟨rfl, .inl fun never => by cases never⟩
  | block | retest | wake => exact ⟨rfl, .inl awaits⟩
  | expire =>
    have timed : true = !t.infinitely := awaits
    have finite : t.infinitely = false := by simpa using timed.symm
    exact ⟨rfl, .inl finite⟩
  | read => exact ⟨rfl, .inl fun _ => awaits⟩
  | @take _ _ rv => exact ⟨by simp, .inr ⟨rv, rfl, rfl, awaits⟩⟩
  | _ => cases awaits

/-- What a step inside an event does to it, and how far it brings its party. -/
structure Inside (e e' : Event.State Party) (party : Party) (p : Event.Pc) : Prop where
  moved : e'.pc = Function.update e.pc party p
  manual : e'.manual = true
  settled : Event.Settled e'
  acts : Local (Event.Acts true) party e.state (e.pc party).status ((e.pc party).returns party)
    p.status e'.state
  awaits : ∀ t, Awaits t (e.pc party) → e'.state = e.state ∧ (Awaits t p ∨
    ∃ rv, p.status = .acted (.answer rv) ∧ e.state = rv ∧ (rv = false → t.infinitely = false))

theorem event_inside (manual : e.manual = true) (settled : Event.Settled e)
    (succeeds : inner.fails = false) (ongoing : begins inner = false)
    (taken : Event.step e inner = some e') : ∃ p, Inside e e' inner.thread p := by
  have busy : e.pc inner.thread ≠ .idle := by
    intro idle
    obtain ⟨call, same, _⟩ := Event.call_of_idle taken idle
    rw [same] at ongoing
    cases ongoing
  obtain ⟨kept, p, moved, effect⟩ := Event.step_effect taken
  rw [succeeds, manual] at effect
  refine ⟨p, moved, kept.trans manual, Event.step_settled settled succeeds taken,
    effect.own busy (settled.sound _) (settled.read _), fun t awaits => ?_⟩
  obtain ⟨same, goes⟩ := awaits_effect effect awaits
  refine ⟨same, goes.imp_right ?_⟩
  rintro ⟨rv, here, rfl, answers⟩
  exact ⟨rv, rfl, settled.read _ rv (by rw [here]; rfl), answers⟩

/-- The place of a party that does not move. -/
theorem sig_pc {sig : Side → Event.State Party} {other : Party} {p : Event.Pc}
    (moved : e'.pc = Function.update (sig side).pc party p) (apart : other ≠ party) (side' : Side) :
    (Function.update sig side e' side').pc other = (sig side').pc other := by
  by_cases same : side' = side
  · subst same
    rw [Function.update_self, moved, Function.update_of_ne apart]
  · rw [Function.update_of_ne same]

theorem sig_all {sig : Side → Event.State Party} (property : Event.State Party → Prop)
    (all : ∀ side, property (sig side)) (mine : property e') (side' : Side) :
    property (Function.update sig side e' side') := by
  by_cases same : side' = side
  · subst same
    rwa [Function.update_self]
  · rw [Function.update_of_ne same]
    exact all side'

end Events

/-- The owner has moved on in one of the events. -/
theorem Represents.of_owner (rep : Represents s t) {side : Side} {e : Event.State Party} {p : Event.Pc}
    {sigIn sigOut : Bool} {owner : Owner Arg} (moved : e.pc = Function.update (s.sig side).pc .owner p)
    (manual : e.manual = true) (settled : Event.Settled e)
    (sigIn_eq : sigIn = (Function.update s.sig side e .sigIn).state)
    (sigOut_eq : sigOut = (Function.update s.sig side e .sigOut).state)
    (at_ : OwnerAt s.args s.thread.data.tid s.thread.data.thread owner
      ((Function.update s.sig side e .sigIn).pc .owner)
      ((Function.update s.sig side e .sigOut).pc .owner) (s.thread.pc ()) o)
    (elsewhere : ∀ a, o ≠ .runCreate a) :
    Represents { s with sig := Function.update s.sig side e, owner := owner }
      { t with sigIn := sigIn, sigOut := sigOut, owner := o } := by
  have worker : WorkerAt s.thread.data.flag.hasExit (s.thread.place 0) (s.worker 0)
      ((Function.update s.sig side e .sigIn).pc (.worker 0))
      ((Function.update s.sig side e .sigOut).pc (.worker 0)) t.worker := by
    rw [sig_pc moved (by rintro ⟨⟩), sig_pc moved (by rintro ⟨⟩)]
    exact rep.worker
  exact { rep with
    sigIn := sigIn_eq, sigOut := sigOut_eq, owner := at_, worker := worker
    manual := sig_all (·.manual = true) rep.manual manual
    settled := sig_all Event.Settled rep.settled settled
    creating := fun a here => absurd here (elsewhere a) }

/-- A worker has. -/
theorem Represents.of_worker (rep : Represents s t) {side : Side} {e : Event.State Party} {p : Event.Pc}
    {sigIn sigOut : Bool} {worker : Worker}
    (moved : e.pc = Function.update (s.sig side).pc (.worker 0) p)
    (manual : e.manual = true) (settled : Event.Settled e)
    (sigIn_eq : sigIn = (Function.update s.sig side e .sigIn).state)
    (sigOut_eq : sigOut = (Function.update s.sig side e .sigOut).state)
    (at_ : WorkerAt s.thread.data.flag.hasExit (s.thread.place 0) worker
      ((Function.update s.sig side e .sigIn).pc (.worker 0))
      ((Function.update s.sig side e .sigOut).pc (.worker 0)) w) :
    Represents ({ s with sig := Function.update s.sig side e }.moveTo 0 worker)
      { t with sigIn := sigIn, sigOut := sigOut, worker := w } := by
  have owner : OwnerAt s.args s.thread.data.tid s.thread.data.thread s.owner
      ((Function.update s.sig side e .sigIn).pc .owner)
      ((Function.update s.sig side e .sigOut).pc .owner) (s.thread.pc ()) t.owner := by
    rw [sig_pc moved (by rintro ⟨⟩), sig_pc moved (by rintro ⟨⟩)]
    exact rep.owner
  have there : WorkerAt s.thread.data.flag.hasExit (s.thread.place 0)
      (Function.update s.worker 0 worker 0)
      ((Function.update s.sig side e .sigIn).pc (.worker 0))
      ((Function.update s.sig side e .sigOut).pc (.worker 0)) w := by
    rwa [Function.update_self]
  exact { rep with
    sigIn := sigIn_eq, sigOut := sigOut_eq, owner := owner, worker := there
    manual := sig_all (·.manual = true) rep.manual manual
    settled := sig_all Event.Settled rep.settled settled }

end Layers

end Prot.System.PoolThread
