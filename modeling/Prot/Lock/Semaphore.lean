import Prot.Concurrency.Machine
import Prot.Concurrency.Mutex
import Prot.Time.TimeUnit
import Mathlib.Data.Int.Notation

/-! `semaphore.cc`, the POSIX branch: any number of threads inside `Wait`,
`Post`, `SetMax` and `Current` of one semaphore. A step is one call on
`l_mtx` or `l_cond`, one unlocked read or write, or one access to the counter
under the lock. -/

namespace Prot.Lock.Semaphore

open Concurrency Time

def maximumCount : Int32 := 2109876543

/-- The calls a thread makes on the semaphore; `TryGet` is `Wait` of zero time. -/
inductive Call where
  | wait (t : TimeUnit)
  | post (i_num : Int32)
  | setMax (i_max : Int32)
  | current
  deriving DecidableEq, Repr

/-- Where a thread stands, named after the step it executes next. `left` says
how many more seconds a `Wait` without a clock will poll, `timed` whether it
has a deadline. A `Post` that has passed the locked test keeps the values of
`current` and `maximum` it saw there. -/
inductive Pc where
  | idle
  | waitClock (t : TimeUnit)
  | tryLock (left : Option ℤ)
  | tryTest (left : Option ℤ)
  | tryUnlock (left : Option ℤ) (got : Bool)
  | pollLoop (left : ℤ)
  | waitLock (timed : Bool)
  | waitTest (timed : Bool)
  | waitBlocked (timed : Bool)
  | waitRelock
  | waitUnlock (rv : Bool)
  | waitReturn (rv : Bool)
  | postReadCurrent (n : Int32)
  | postReadMaximum (n c : Int32)
  | postLock (n : Int32)
  | postTest (n : Int32)
  | postAdd (n c m : Int32)
  | postNotify (n c m : Int32)
  | postUndo (n c m : Int32)
  | postUnlock (n : Int32) (passed : Option (Int32 × Int32))
  | postReturn (n : Int32) (passed : Option (Int32 × Int32))
  | setMaxWrite (i_max : Int32)
  | setMaxReturn (rv : Bool)
  | currentRead
  | currentReturn (c : Int32)
  deriving DecidableEq, Repr

/-- `SEMAPHORE_DATA` and the threads. `cond` are the threads blocked on
`l_cond`, `posted` the sum of the numbers posted by calls that returned
`True`, `waited` the number of `Wait` calls that returned `True`. -/
structure State (Thread : Type) where
  current : Int32
  maximum : Int32
  mtx : Mutex Thread
  cond : List Thread
  pc : Thread → Pc
  posted : ℤ
  waited : ℤ

/-- One choice of the environment: a thread calls an operation, executes its
next step, has its notification of `l_cond` unblock some threads, fails in a
call on the clock or on `l_cond`, reaches its deadline, or wakes spuriously. -/
inductive Action (Thread : Type) where
  | call (thread : Thread) (call : Call)
  | run (thread : Thread)
  | notify (thread : Thread) (woken : List Thread)
  | fail (thread : Thread)
  | expire (thread : Thread)
  | wake (thread : Thread)
  deriving DecidableEq, Repr

def Action.thread {Thread : Type} : Action Thread → Thread
  | .call thread _ | .run thread | .notify thread _ | .fail thread | .expire thread
  | .wake thread => thread

variable {Thread : Type} [DecidableEq Thread]

/-- `SEMAPHORE_DATA` as a successful constructor leaves it. -/
def fresh (i_set i_max : Int32) : State Thread where
  current := i_set
  maximum := i_max
  mtx := none
  cond := []
  pc := fun _ => .idle
  posted := 0
  waited := 0

/-- The constructor; `none` where it leaves the semaphore invalid. -/
def construct (i_set i_max : Int32) : Option (State Thread) :=
  if i_set ≤ i_max ∧ 0 ≤ i_set ∧ 0 < i_max ∧ i_max ≤ maximumCount then some (fresh i_set i_max)
  else none

def State.goto (s : State Thread) (thread : Thread) (pc : Pc) : State Thread :=
  { s with pc := Function.update s.pc thread pc }

def State.lock (s : State Thread) (thread : Thread) (pc : Pc) : Option (State Thread) :=
  (Mutex.lock thread s.mtx).map fun mtx => { s with mtx := mtx }.goto thread pc

def State.unlock (s : State Thread) (thread : Thread) (pc : Pc) : State Thread :=
  { s with mtx := none }.goto thread pc

def Call.entry : Call → Pc
  | .wait t => .waitClock t
  | .post n => .postReadCurrent n
  | .setMax i => .setMaxWrite i
  | .current => .currentRead

/-- The path of `Wait` once the clock has answered. -/
def waitPath (t : TimeUnit) (clock : Bool) : Pc :=
  if t.empty then .tryLock none
  else if t.infinitely then .waitLock false
  else if clock then .waitLock true
  else .pollLoop t.inSeconds.toInt

/-- What follows one attempt of `_TryWaitSemaphore`: the zero-time path
returns, the polling path sleeps and goes on. -/
def afterTry (left : Option ℤ) (got : Bool) : Pc :=
  match left with
  | none => .waitReturn got
  | some left => if got then .waitReturn true else .pollLoop (left - 1)

def State.next (s : State Thread) (thread : Thread) : Option (State Thread) :=
  match s.pc thread with
  | .idle => none
  | .waitClock t => some (s.goto thread (waitPath t true))
  | .tryLock left => s.lock thread (.tryTest left)
  | .tryTest left =>
    if s.current ≠ 0 then some ({ s with current := s.current - 1 }.goto thread (.tryUnlock left true))
    else some (s.goto thread (.tryUnlock left false))
  | .tryUnlock left got => some (s.unlock thread (afterTry left got))
  | .pollLoop left =>
    some (s.goto thread (if 0 < left then .tryLock (some left) else .waitReturn false))
  | .waitLock timed => s.lock thread (.waitTest timed)
  | .waitTest timed =>
    if s.current ≠ 0 then some ({ s with current := s.current - 1 }.goto thread (.waitUnlock true))
    else some ({ s with cond := thread :: s.cond }.unlock thread (.waitBlocked timed))
  | .waitBlocked timed => if thread ∈ s.cond then none else s.lock thread (.waitTest timed)
  | .waitRelock => s.lock thread (.waitUnlock false)
  | .waitUnlock rv => some (s.unlock thread (.waitReturn rv))
  | .waitReturn rv => some ({ s with waited := if rv then s.waited + 1 else s.waited }.goto thread .idle)
  | .postReadCurrent n =>
    some (s.goto thread (if n ≤ 0 then .postReturn n none else .postReadMaximum n s.current))
  | .postReadMaximum n c =>
    some (s.goto thread (if s.maximum < c + n then .postReturn n none else .postLock n))
  | .postLock n => s.lock thread (.postTest n)
  | .postTest n => some (s.goto thread
      (if s.current + n ≤ s.maximum then .postAdd n s.current s.maximum else .postUnlock n none))
  | .postAdd n c m => some ({ s with current := s.current + n }.goto thread (.postNotify n c m))
  | .postNotify _ _ _ => none
  | .postUndo n _ _ => some ({ s with current := s.current - n }.goto thread (.postUnlock n none))
  | .postUnlock n passed => some (s.unlock thread (.postReturn n passed))
  | .postReturn n passed => some
      ({ s with posted := if passed.isSome then s.posted + n.toInt else s.posted }.goto thread .idle)
  | .setMaxWrite i =>
    if 0 < i ∧ i ≤ maximumCount then some ({ s with maximum := i }.goto thread (.setMaxReturn true))
    else some (s.goto thread (.setMaxReturn false))
  | .setMaxReturn _ => some (s.goto thread .idle)
  | .currentRead => some (s.goto thread (.currentReturn s.current))
  | .currentReturn _ => some (s.goto thread .idle)

/-- `pthread_cond_signal`, for `i_num = 1`, unblocks at least one blocked
thread if there is one; `pthread_cond_broadcast` unblocks them all. -/
def unblocks (n : Int32) (cond woken : List Thread) : Bool :=
  if n = 1 then cond.isEmpty || cond.any (· ∈ woken) else cond.all (· ∈ woken)

def step (s : State Thread) : Action Thread → Option (State Thread)
  | .call thread call => if s.pc thread = .idle then some (s.goto thread call.entry) else none
  | .run thread => s.next thread
  | .notify thread woken => match s.pc thread with
    | .postNotify n c m => if unblocks n s.cond woken then
        some ({ s with cond := s.cond.filter (· ∉ woken) }.goto thread (.postUnlock n (some (c, m))))
      else none
    | _ => none
  | .fail thread => match s.pc thread with
    | .waitClock t => some (s.goto thread (waitPath t false))
    | .waitBlocked _ => some ({ s with cond := s.cond.filter (· ≠ thread) }.goto thread .waitRelock)
    | .postNotify n c m => some (s.goto thread (.postUndo n c m))
    | _ => none
  | .expire thread => match s.pc thread with
    | .waitBlocked true =>
      some ({ s with cond := s.cond.filter (· ≠ thread) }.goto thread .waitRelock)
    | _ => none
  | .wake thread => match s.pc thread with
    | .waitBlocked timed =>
      some ({ s with cond := s.cond.filter (· ≠ thread) }.goto thread (.waitBlocked timed))
    | _ => none

end Prot.Lock.Semaphore
