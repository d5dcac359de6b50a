import Prot.Concurrency.Machine
import Prot.Concurrency.Mutex
import Prot.Time.TimeUnit

/-! `thread_posix.cpp`: the callers of one `Thread` object and the threads
started through it. A step is one read or write of a field of `THREAD_DATA`,
one call on `mutex` or `exited`, or one other call of the system. -/

namespace Prot.System.Thread

open Concurrency Time

/-- The bits of `THREAD_DATA::flag` that are used. -/
structure Flag where
  hasExit : Bool
  detached : Bool
  tickLock : Bool
  deriving DecidableEq, Repr

/-- `THREAD_DATA`. `func` says whether the function pointer is not null. Of the
handles in `thread`, 0 is none and `k + 1` the one of the `k`-th started
thread. `exited` are the callers blocked on the condition variable. -/
structure Data (Caller Arg : Type) where
  func : Bool
  args : Arg
  tid : UInt32
  thread : ℕ
  mutex : Mutex (Caller ⊕ ℕ)
  exited : List Caller
  flag : Flag

/-- What is done with a `Thread`; `destroy` is the destructor. -/
inductive Call (Arg : Type) where
  | run (args : Arg)
  | wait (t : TimeUnit)
  | kill
  | status
  | getId
  | destroy
  deriving DecidableEq, Repr

/-- The `ret` of `Thread::Wait`: 0, `ETIMEDOUT`, or anything else. -/
inductive Ret where
  | ok
  | timedOut
  | other
  deriving DecidableEq, Repr

/-- On whose behalf a caller is in `pthread_cond_wait` or `_timedwait`. -/
inductive Waiter where
  | wait (timed : Bool)
  | kill
  deriving DecidableEq, Repr

/-- Where a caller stands, named after the step it executes next. -/
inductive Pc (Arg : Type) where
  | idle
  | runTestFunc (args : Arg)
  | runTestTid (args : Arg)
  | runTestExit (args : Arg)
  | runClearTid (args : Arg)
  | runClearThread (args : Arg)
  | runClearFlag (args : Arg)
  | runWriteArgs (args : Arg)
  | runNextTid
  | runCreate (tid : UInt32)
  | runWriteTid (tid : UInt32)
  | runReadTid
  | runReturn (tid : UInt32)
  | waitLock (t : TimeUnit)
  | waitTest (t : TimeUnit)
  | waitClock (t : TimeUnit)
  | waitJudge (ret : Ret)
  | waitState
  | waitUnlock (rv : Bool)
  | waitReturn (rv : Bool)
  | killLock
  | killTest
  | killCancel
  | killUnlock (rv : Bool)
  | killReturn (rv : Bool)
  | condWait (waiter : Waiter)
  | blocked (waiter : Waiter)
  | relock
  | statusThread
  | statusFlag
  | statusReturn (running : Bool)
  | getIdRead
  | getIdReturn (tid : UInt32)
  | destroyLock
  | destroyMark
  | destroyTest
  | destroyUnlock (shouldFree : Bool)
  | destroyFree
  | gone
  deriving DecidableEq, Repr

/-- Where a started thread stands: in `_Prot_WrapThreadProc_Posix_`, in `func`,
or in `tls_keydest_callback_func`, whose places begin with `exit`. -/
inductive Place (Arg : Type) where
  | unborn
  | setSpecific
  | setCancelType
  | readFunc
  | readArgs
  | running (args : Arg)
  | exitLock
  | exitMark
  | exitTest
  | exitBroadcast (shouldFree : Bool)
  | exitUnlock (shouldFree : Bool)
  | exitFree
  | ended
  deriving DecidableEq, Repr

/-- `tidMax` is the process's `tid_max`, `born` the number of threads started
through the object so far, `cancelled` whether a cancellation is pending for
each of them, `freed` how often `_FreeThreadData` was called. -/
structure State (Caller Arg : Type) where
  data : Data Caller Arg
  tidMax : UInt32
  pc : Caller → Pc Arg
  born : ℕ
  place : ℕ → Place Arg
  cancelled : ℕ → Bool
  freed : ℕ

/-- One choice of the environment: a caller calls an operation, executes its
next step, sees `pthread_create` fail and leave a value in `thread`, fails in a
call on the clock or the condition variable, reaches its deadline, wakes
spuriously, or is told by `pthread_kill` whether the thread is there; a started
thread executes its next step, follows its cancellation, or asks for its id; or
another `Thread` of the process takes an id. -/
inductive Action (Caller Arg : Type) where
  | call (caller : Caller) (call : Call Arg)
  | run (caller : Caller)
  | createFails (caller : Caller) (left : ℕ)
  | fail (caller : Caller)
  | expire (caller : Caller)
  | wake (caller : Caller)
  | state (caller : Caller) (offline : Bool)
  | thread (k : ℕ)
  | cancel (k : ℕ)
  | getId (k : ℕ)
  | elsewhere
  deriving DecidableEq, Repr

variable {Caller Arg : Type} [DecidableEq Caller]

def construct (func : Bool) (args : Arg) (clockSet : Bool) (tidMax : UInt32) : State Caller Arg where
  data := ⟨func, args, 0, 0, none, [], ⟨false, false, clockSet⟩⟩
  tidMax := tidMax
  pc := fun _ => .idle
  born := 0
  place := fun _ => .unborn
  cancelled := fun _ => false
  freed := 0

def State.goto (s : State Caller Arg) (caller : Caller) (pc : Pc Arg) : State Caller Arg :=
  { s with pc := Function.update s.pc caller pc }

def State.write (s : State Caller Arg) (caller : Caller) (data : Data Caller Arg) (pc : Pc Arg) :
    State Caller Arg :=
  { s with data := data }.goto caller pc

def State.lock (s : State Caller Arg) (caller : Caller) (pc : Pc Arg) : Option (State Caller Arg) :=
  (Mutex.lock (.inl caller) s.data.mutex).map fun mutex =>
    s.write caller { s.data with mutex := mutex } pc

def State.unlock (s : State Caller Arg) (caller : Caller) (pc : Pc Arg) : State Caller Arg :=
  s.write caller { s.data with mutex := none } pc

def Call.entry : Call Arg → Pc Arg
  | .run args => .runTestFunc args
  | .wait t => .waitLock t
  | .kill => .killLock
  | .status => .statusThread
  | .getId => .getIdRead
  | .destroy => .destroyLock

/-- The path of `Wait` for a thread that has not exited. -/
def waitPath (t : TimeUnit) : Pc Arg :=
  if t.infinitely then .condWait (.wait false)
  else if t.empty then .waitJudge .other
  else .waitClock t

/-- `thread && !(flag & TDFLAG_HAS_EXIT)`. -/
def Data.online (d : Data Caller Arg) : Bool := d.thread ≠ 0 && !d.flag.hasExit

/-- What follows the call on the condition variable when it has returned 0:
`Wait` looks at the return value, `Kill` does not. -/
def Waiter.after : Waiter → Pc Arg
  | .wait _ => .waitJudge .ok
  | .kill => .killUnlock true

/-- The step a caller executes next, where it is enabled; `pthread_create`
succeeds in it. -/
def State.next (s : State Caller Arg) (caller : Caller) : Option (State Caller Arg) :=
  match s.pc caller with
  | .idle | .gone => none
  | .runTestFunc a => some (s.goto caller (if s.data.func then .runTestTid a else .runReturn 0))
  | .runTestTid a =>
    some (s.goto caller (if s.data.tid ≠ 0 then .runTestExit a else .runWriteArgs a))
  | .runTestExit a =>
    some (s.goto caller (if s.data.flag.hasExit then .runClearTid a else .runReturn 0))
  | .runClearTid a => some (s.write caller { s.data with tid := 0 } (.runClearThread a))
  | .runClearThread a => some (s.write caller { s.data with thread := 0 } (.runClearFlag a))
  | .runClearFlag a => some (s.write caller
      { s.data with flag := ⟨false, false, s.data.flag.tickLock⟩ } (.runWriteArgs a))
  | .runWriteArgs a => some (s.write caller { s.data with args := a } .runNextTid)
  | .runNextTid => some ({ s with tidMax := s.tidMax + 3 }.goto caller (.runCreate s.tidMax))
  | .runCreate tid => some ({ s with
      born := s.born + 1, place := Function.update s.place s.born .setSpecific }.write caller
        { s.data with thread := s.born + 1 } (.runWriteTid tid))
  | .runWriteTid tid => some (s.write caller { s.data with tid := tid } .runReadTid)
  | .runReadTid => some (s.goto caller (.runReturn s.data.tid))
  | .waitLock t => s.lock caller (.waitTest t)
  | .waitTest t => some (s.goto caller (if s.data.online then waitPath t else .waitUnlock true))
  | .waitClock _ => some (s.goto caller (.condWait (.wait true)))
  | .waitJudge .ok => some (s.goto caller (.waitUnlock true))
  | .waitJudge .timedOut => some (s.goto caller (.waitUnlock false))
  | .waitJudge .other => some (s.goto caller .waitState)
  | .waitState => none
  | .waitUnlock rv => some (s.unlock caller (.waitReturn rv))
  | .killLock => s.lock caller .killTest
  | .killTest => some (s.goto caller (if s.data.online then .killCancel else .killUnlock false))
  | .killCancel => some ({ s with
      cancelled := fun k => s.cancelled k || k + 1 = s.data.thread }.goto caller (.condWait .kill))
  | .killUnlock rv => some (s.unlock caller (.killReturn rv))
  | .condWait waiter =>
    some ({ s with data.exited := caller :: s.data.exited }.unlock caller (.blocked waiter))
  | .blocked waiter => if caller ∈ s.data.exited then none else s.lock caller waiter.after
  | .relock => s.lock caller (.waitJudge .timedOut)
  | .statusThread =>
    some (s.goto caller (if s.data.thread ≠ 0 then .statusFlag else .statusReturn false))
  | .statusFlag => some (s.goto caller (.statusReturn !s.data.flag.hasExit))
  | .getIdRead => some (s.goto caller (.getIdReturn s.data.tid))
  | .runReturn _ | .waitReturn _ | .killReturn _ | .statusReturn _ | .getIdReturn _ =>
    some (s.goto caller .idle)
  | .destroyLock => s.lock caller .destroyMark
  | .destroyMark => some (s.write caller
      { s.data with flag := { s.data.flag with detached := true } } .destroyTest)
  | .destroyTest => some (s.goto caller (.destroyUnlock s.data.flag.hasExit))
  | .destroyUnlock shouldFree =>
    some (s.unlock caller (if shouldFree then .destroyFree else .gone))
  | .destroyFree => some ({ s with freed := s.freed + 1 }.goto caller .gone)

def State.move (s : State Caller Arg) (k : ℕ) (data : Data Caller Arg) (place : Place Arg) :
    State Caller Arg :=
  { s with data := data, place := Function.update s.place k place }

/-- The step a started thread executes next, where it is enabled; `func` may
return in any of them. -/
def State.threadNext (s : State Caller Arg) (k : ℕ) : Option (State Caller Arg) :=
  match s.place k with
  | .unborn | .ended => none
  | .setSpecific => some (s.move k s.data .setCancelType)
  | .setCancelType => some (s.move k s.data .readFunc)
  | .readFunc => some (s.move k s.data .readArgs)
  | .readArgs => some (s.move k s.data (.running s.data.args))
  | .running _ => some (s.move k s.data .exitLock)
  | .exitLock => (Mutex.lock (.inr k) s.data.mutex).map fun mutex =>
      s.move k { s.data with mutex := mutex } .exitMark
  | .exitMark => some (s.move k
      { s.data with flag := { s.data.flag with hasExit := true } } .exitTest)
  | .exitTest => some (s.move k s.data (.exitBroadcast s.data.flag.detached))
  | .exitBroadcast shouldFree =>
    some (s.move k { s.data with exited := [] } (.exitUnlock shouldFree))
  | .exitUnlock shouldFree => some (s.move k
      { s.data with mutex := none } (if shouldFree then .exitFree else .ended))
  | .exitFree => some ({ s with freed := s.freed + 1 }.move k s.data .ended)

/-- Asynchronous cancellation is on and the exit has not begun. -/
def Place.cancellable : Place Arg → Bool
  | .readFunc | .readArgs | .running _ => true
  | _ => false

def State.there (s : State Caller Arg) (handle : ℕ) : Bool :=
  match handle with
  | 0 => false
  | k + 1 => match s.place k with
    | .unborn | .ended => false
    | _ => true

/-- One step of the whole system. `pthread_kill` answers that a thread is there
if it is; of other handles it may say either. -/
def step (s : State Caller Arg) : Action Caller Arg → Option (State Caller Arg)
  | .call caller call => match s.pc caller with
    | .idle => some (s.goto caller call.entry)
    | _ => none
  | .run caller => s.next caller
  | .createFails caller left => match s.pc caller with
    | .runCreate _ => some (s.write caller { s.data with thread := left } .runReadTid)
    | _ => none
  | .fail caller => match s.pc caller with
    | .waitClock _ => some (s.goto caller (.waitJudge .ok))
    | .condWait (.wait true) => some (s.goto caller (.waitJudge .other))
    | _ => none
  | .expire caller => match s.pc caller with
    | .blocked (.wait true) => some (s.write caller
        { s.data with exited := s.data.exited.filter (· ≠ caller) } .relock)
    | _ => none
  | .wake caller => match s.pc caller with
    | .blocked waiter => some (s.write caller
        { s.data with exited := s.data.exited.filter (· ≠ caller) } (.blocked waiter))
    | _ => none
  | .state caller offline => match s.pc caller with
    | .waitState => if offline ∧ s.there s.data.thread then none
      else some (s.goto caller (.waitUnlock offline))
    | _ => none
  | .thread k => s.threadNext k
  | .cancel k => if s.cancelled k ∧ (s.place k).cancellable then some (s.move k s.data .exitLock)
    else none
  | .getId k => match s.place k with
    | .running _ => some s
    | _ => none
  | .elsewhere => some { s with tidMax := s.tidMax + 3 }

end Prot.System.Thread
