import Prot.Concurrency.Machine
import Prot.Concurrency.Mutex
import Prot.Concurrency.Threads
import Prot.Time.TimeUnit

/-! `condvar.cc`: any number of threads inside `Wait`, `WakeOne` and `WakeAll`
of one `ConditionVariable`. A step is one call on a mutex, on `mrend` or on
`semap`, or one access to `wait_count` or `wait_flags`. -/

namespace Prot.Lock.ConditionVariable

open Concurrency Time

def maximumCount : ℤ := 2109876543

/-- The calls a thread makes on the condition variable. -/
inductive Call where
  | wait (t : TimeUnit)
  | wakeOne
  | wakeAll
  deriving DecidableEq, Repr

/-- Where a thread stands, named after the step it executes next. -/
inductive Pc where
  | idle
  | waitGetMtxi (t : TimeUnit)
  | waitGetMtxd (t : TimeUnit)
  | waitIncr (t : TimeUnit)
  | waitFreeMtxd (t : TimeUnit)
  | waitFreeMtxi (t : TimeUnit)
  | waitFreeLock (t : TimeUnit)
  | waitSemap (t : TimeUnit)
  | leaveGetMtxd (rv : Bool)
  | leaveDecr (rv : Bool)
  | leaveTestCount (rv : Bool)
  | leaveTestFlags (rv : Bool)
  | leaveFreeMtxd (rv rn : Bool)
  | leaveSet (rv : Bool)
  | leaveGetLock (rv : Bool)
  | leaveReturn (rv : Bool)
  | oneGetMtxi
  | oneTest
  | onePost
  | oneFreeMtxi (n : ℤ)
  | allGetMtxi
  | allGetMtxd
  | allRead
  | allRaise (n : ℤ)
  | allPost (n : ℤ)
  | allFreeMtxd (n : ℤ)
  | allRend (n : ℤ)
  | allReset (n : ℤ)
  | allClear (n : ℤ)
  | allSkip
  | allFreeMtxi (n : ℤ)
  deriving DecidableEq, Repr

/-- `CONDITION_VARIABLE_DATA` and the threads. `lock` says whether the pointer
to the external lock is not `Null`; `waitFlags` is the bit `CVFLAG_WAKE_ALL`.
`waitCount` has no bound, so there are to be fewer than 2 ^ 31 threads. -/
structure State (Thread : Type) where
  lock : Bool
  semap : ℤ
  mtxi : RecursiveMutex Thread
  mtxd : RecursiveMutex Thread
  mrend : Bool
  waitCount : ℤ
  waitFlags : Bool
  pc : Thread → Pc

/-- One choice of the environment: a thread calls an operation, a thread
executes its next step, or a thread's `semap.Wait` gives up. -/
inductive Action (Thread : Type) where
  | call (thread : Thread) (call : Call)
  | run (thread : Thread)
  | expire (thread : Thread)
  deriving DecidableEq, Repr

def Action.thread {Thread : Type} : Action Thread → Thread
  | .call thread _ | .run thread | .expire thread => thread

variable {Thread : Type} [DecidableEq Thread]

/-- The constructor of `CONDITION_VARIABLE_DATA`, before any call. -/
def init (lock : Bool) : State Thread where
  lock := lock
  semap := 0
  mtxi := none
  mtxd := none
  mrend := false
  waitCount := 0
  waitFlags := false
  pc := fun _ => .idle

def State.goto (s : State Thread) (thread : Thread) (pc : Pc) : State Thread :=
  { s with pc := Function.update s.pc thread pc }

def State.getMtxi (s : State Thread) (thread : Thread) (pc : Pc) : Option (State Thread) :=
  (RecursiveMutex.lock thread s.mtxi).map fun mtxi => { s with mtxi := mtxi }.goto thread pc

def State.freeMtxi (s : State Thread) (thread : Thread) (pc : Pc) : State Thread :=
  { s with mtxi := RecursiveMutex.unlock thread s.mtxi }.goto thread pc

def State.getMtxd (s : State Thread) (thread : Thread) (pc : Pc) : Option (State Thread) :=
  (RecursiveMutex.lock thread s.mtxd).map fun mtxd => { s with mtxd := mtxd }.goto thread pc

def State.freeMtxd (s : State Thread) (thread : Thread) (pc : Pc) : State Thread :=
  { s with mtxd := RecursiveMutex.unlock thread s.mtxd }.goto thread pc

/-- `Semaphore::Post` on `semap`: refused without effect when the count would
pass the maximum. -/
def post (semap n : ℤ) : ℤ :=
  if n ≤ 0 ∨ semap + n > maximumCount then semap else semap + n

def Call.entry : Call → Pc
  | .wait t => .waitGetMtxi t
  | .wakeOne => .oneGetMtxi
  | .wakeAll => .allGetMtxi

/-- The step a thread executes next, where it is enabled. The external lock
may hold a thread up at `leaveGetLock` for as long as it likes. -/
def State.next (s : State Thread) (thread : Thread) : Option (State Thread) :=
  match s.pc thread with
  | .idle => none
  | .waitGetMtxi t => s.getMtxi thread (.waitGetMtxd t)
  | .waitGetMtxd t => s.getMtxd thread (.waitIncr t)
  | .waitIncr t => some ({ s with waitCount := s.waitCount + 1 }.goto thread (.waitFreeMtxd t))
  | .waitFreeMtxd t => some (s.freeMtxd thread (.waitFreeMtxi t))
  | .waitFreeMtxi t => some (s.freeMtxi thread (if s.lock then .waitFreeLock t else .waitSemap t))
  | .waitFreeLock t => some (s.goto thread (.waitSemap t))
  | .waitSemap _ =>
    if 0 < s.semap then some ({ s with semap := s.semap - 1 }.goto thread (.leaveGetMtxd true))
    else none
  | .leaveGetMtxd rv => s.getMtxd thread (.leaveDecr rv)
  | .leaveDecr rv =>
    some ({ s with waitCount := s.waitCount - 1 }.goto thread (.leaveTestCount rv))
  | .leaveTestCount rv =>
    some (s.goto thread (if s.waitCount = 0 then .leaveTestFlags rv else .leaveFreeMtxd rv false))
  | .leaveTestFlags rv => some (s.goto thread (.leaveFreeMtxd rv s.waitFlags))
  | .leaveFreeMtxd rv rn => some (s.freeMtxd thread
      (if rn then .leaveSet rv else if s.lock then .leaveGetLock rv else .leaveReturn rv))
  | .leaveSet rv => some ({ s with mrend := true }.goto thread
      (if s.lock then .leaveGetLock rv else .leaveReturn rv))
  | .leaveGetLock rv => some (s.goto thread (.leaveReturn rv))
  | .leaveReturn _ => some (s.goto thread .idle)
  | .oneGetMtxi => s.getMtxi thread .oneTest
  | .oneTest => some (s.goto thread (if s.waitCount ≠ 0 then .onePost else .oneFreeMtxi 0))
  | .onePost => some ({ s with semap := post s.semap 1 }.goto thread (.oneFreeMtxi 1))
  | .oneFreeMtxi _ => some (s.freeMtxi thread .idle)
  | .allGetMtxi => s.getMtxi thread .allGetMtxd
  | .allGetMtxd => s.getMtxd thread .allRead
  | .allRead =>
    some (s.goto thread (if s.waitCount ≠ 0 then .allRaise s.waitCount else .allSkip))
  | .allRaise n => some ({ s with waitFlags := true }.goto thread (.allPost n))
  | .allPost n => some ({ s with semap := post s.semap n }.goto thread (.allFreeMtxd n))
  | .allFreeMtxd n => some (s.freeMtxd thread (.allRend n))
  | .allRend n => if s.mrend then some (s.goto thread (.allReset n)) else none
  | .allReset n => some ({ s with mrend := false }.goto thread (.allClear n))
  | .allClear n => some ({ s with waitFlags := false }.goto thread (.allFreeMtxi n))
  | .allSkip => some (s.freeMtxd thread (.allFreeMtxi 0))
  | .allFreeMtxi _ => some (s.freeMtxi thread .idle)

/-- One step of the whole system. A finite `semap.Wait` may give up at any
moment at which it finds no token. -/
def step (s : State Thread) : Action Thread → Option (State Thread)
  | .call thread call => if s.pc thread = .idle then some (s.goto thread call.entry) else none
  | .run thread => s.next thread
  | .expire thread => match s.pc thread with
    | .waitSemap t =>
      if s.semap ≤ 0 ∧ t.infinitely = false then some (s.goto thread (.leaveGetMtxd false)) else none
    | _ => none

end Prot.Lock.ConditionVariable
