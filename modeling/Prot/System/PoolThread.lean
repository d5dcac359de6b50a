import Prot.Concurrency.Machine
import Prot.Time.TimeUnit

/-! `pthread.cc`: one owner of a `PoolThread` and the worker thread it starts.
A step is one read or write of a field of `PoolThreadData`, one call on an
event, or one call on the `Thread` underneath. -/

namespace Prot.System.PoolThread

open Concurrency Time

/-- The bits of `PoolThreadData::flag`. -/
structure Flag where
  starting : Bool
  hasExit : Bool
  detached : Bool
  activing : Bool
  deriving DecidableEq, Repr

/-- `PoolThread::ThreadState`. -/
inductive ThreadState where
  | offline
  | running
  | holding
  deriving DecidableEq, Repr

/-- What the owner does with its `PoolThread`; `destroy` is the destructor. -/
inductive Call (Arg : Type) where
  | run (args : Arg)
  | wait (t : TimeUnit)
  | status
  | destroy
  deriving DecidableEq, Repr

/-- Where the owner stands, named after the step it executes next. -/
inductive Owner (Arg : Type) where
  | idle
  | runTestStarting (args : Arg)
  | runWriteStarting (args : Arg)
  | runCreate (args : Arg)
  | runTestActiving (args : Arg)
  | runResetOut (args : Arg)
  | runWriteArgs (args : Arg)
  | runReadFlag (args : Arg)
  | runWriteFlag (args : Arg) (flag : Flag)
  | runSetIn (args : Arg)
  | runGetId (args : Arg)
  | runReturn (args : Arg) (tid : Bool)
  | waitOut (t : TimeUnit)
  | waitReturn (rv : Bool)
  | statusThread
  | statusFlag
  | statusReturn (state : ThreadState)
  | destroyStatus
  | destroyDelete
  | destroyReadFlag
  | destroyWriteFlag (flag : Flag)
  | destroyFunc
  | destroySetIn
  | gone
  deriving DecidableEq, Repr

/-- Where the worker stands in `_Prot_WrapPoolThread_Proc_`. -/
inductive Worker where
  | absent
  | test
  | waitIn
  | readFunc
  | callFunc
  | running
  | resetIn
  | readFlag
  | writeFlag (flag : Flag)
  | setOut
  | testHasExit
  | delete
  | returned
  | exited
  deriving DecidableEq, Repr

/-- `PoolThreadData` and the `Thread` underneath. `func` says whether the
function pointer is not `Null`, `tid` whether `Thread::GetID()` is not 0,
`online` what `Thread::Status()` answers. `accepted` are the arguments of the
`Run` calls that returned non-zero, `called` those the worker has passed to
`func`, `finished` the calls of `func` that have returned. -/
structure State (Arg : Type) where
  func : Bool
  args : Arg
  flag : Flag
  sigIn : Bool
  sigOut : Bool
  tid : Bool
  online : Bool
  deleted : ℕ
  owner : Owner Arg
  worker : Worker
  accepted : List Arg
  called : List Arg
  finished : ℕ

/-- One choice of the environment: the owner calls an operation, executes its
next step, sees `Thread::Run` fail, or gives up in `sig_out.Wait`; or the
worker executes its next step. -/
inductive Action (Arg : Type) where
  | call (call : Call Arg)
  | owner
  | createFails (online : Bool)
  | expire
  | worker
  deriving DecidableEq, Repr

variable {Arg : Type}

/-- The constructor; it leaves `args` as the memory was. -/
def init (func : Bool) (args : Arg) : State Arg where
  func := func
  args := args
  flag := ⟨false, false, false, false⟩
  sigIn := false
  sigOut := true
  tid := false
  online := false
  deleted := 0
  owner := .idle
  worker := .absent
  accepted := []
  called := []
  finished := 0

def Call.entry : Call Arg → Owner Arg
  | .run args => .runTestStarting args
  | .wait t => .waitOut t
  | .status => .statusThread
  | .destroy => .destroyStatus

def State.ownerNext (s : State Arg) : Option (State Arg) :=
  match s.owner with
  | .idle | .gone => none
  | .runTestStarting a =>
    some { s with owner := if s.flag.starting then .runTestActiving a else .runWriteStarting a }
  | .runWriteStarting a =>
    some { s with flag := ⟨true, false, false, false⟩, owner := .runCreate a }
  | .runCreate a =>
    some { s with tid := true, online := true, worker := .test, owner := .runResetOut a }
  | .runTestActiving a =>
    some { s with owner := if s.flag.activing then .runReturn a false else .runResetOut a }
  | .runResetOut a => some { s with sigOut := false, owner := .runWriteArgs a }
  | .runWriteArgs a => some { s with args := a, owner := .runReadFlag a }
  | .runReadFlag a => some { s with owner := .runWriteFlag a { s.flag with activing := true } }
  | .runWriteFlag a flag => some { s with flag := flag, owner := .runSetIn a }
  | .runSetIn a => some { s with sigIn := true, owner := .runGetId a }
  | .runGetId a => some { s with owner := .runReturn a s.tid }
  | .runReturn a tid =>
    some { s with accepted := if tid then s.accepted ++ [a] else s.accepted, owner := .idle }
  | .waitOut _ => if s.sigOut then some { s with owner := .waitReturn true } else none
  | .waitReturn _ | .statusReturn _ => some { s with owner := .idle }
  | .statusThread =>
    some { s with owner := if s.online then .statusFlag else .statusReturn .offline }
  | .statusFlag =>
    some { s with owner := .statusReturn (if s.flag.activing then .running else .holding) }
  | .destroyStatus =>
    some { s with owner := if s.online then .destroyReadFlag else .destroyDelete }
  | .destroyDelete => some { s with deleted := s.deleted + 1, owner := .gone }
  | .destroyReadFlag =>
    some { s with owner := .destroyWriteFlag { s.flag with detached := true } }
  | .destroyWriteFlag flag => some { s with flag := flag, owner := .destroyFunc }
  | .destroyFunc => some { s with func := false, owner := .destroySetIn }
  | .destroySetIn => some { s with sigIn := true, owner := .gone }

/-- The worker's next step, where it is enabled. `exited` is reached when the
system thread has set `TDFLAG_HAS_EXIT`. -/
def State.workerNext (s : State Arg) : Option (State Arg) :=
  match s.worker with
  | .absent | .exited => none
  | .test => some { s with worker := if s.flag.detached then .testHasExit else .waitIn }
  | .waitIn => if s.sigIn then some { s with worker := .readFunc } else none
  | .readFunc => some { s with worker := if s.func then .callFunc else .testHasExit }
  | .callFunc => some { s with called := s.called ++ [s.args], worker := .running }
  | .running => some { s with finished := s.finished + 1, worker := .resetIn }
  | .resetIn => some { s with sigIn := false, worker := .readFlag }
  | .readFlag => some { s with worker := .writeFlag { s.flag with activing := false } }
  | .writeFlag flag => some { s with flag := flag, worker := .setOut }
  | .setOut => some { s with sigOut := true, worker := .test }
  | .testHasExit => some { s with worker := if s.flag.hasExit then .returned else .delete }
  | .delete => some { s with deleted := s.deleted + 1, worker := .returned }
  | .returned => some { s with online := false, worker := .exited }

/-- One step of the whole system. After a failed `Thread::Run` the thread
field, and so `Thread::Status()`, is arbitrary. -/
def step (s : State Arg) : Action Arg → Option (State Arg)
  | .call call => match s.owner with
    | .idle => some { s with owner := call.entry }
    | _ => none
  | .owner => s.ownerNext
  | .createFails online => match s.owner with
    | .runCreate a => some { s with online := online, owner := .runReturn a false }
    | _ => none
  | .expire => match s.owner with
    | .waitOut t => if s.sigOut = false ∧ t.infinitely = false
      then some { s with owner := .waitReturn false } else none
    | _ => none
  | .worker => s.workerNext

end Prot.System.PoolThread
