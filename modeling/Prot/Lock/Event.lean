import Prot.Concurrency.Machine
import Prot.Concurrency.Mutex
import Prot.Concurrency.Waiting
import Prot.Time.TimeUnit

/-! `event.cc`, the POSIX branch: any number of threads inside `Set`, `Reset`
and `Wait` of one event. A step is one call on `mutex`, `cond` or the clock, or
one access to `state` under the lock. A call on the mutex or a notification
that fails breaks into the debugger and is left out. -/

namespace Prot.Lock.Event

open Concurrency Time

/-- The calls a thread makes on the event; `TryGet` is `Wait` of zero time. -/
inductive Call where
  | set
  | reset
  | wait (t : TimeUnit)
  deriving DecidableEq, Repr

/-- Where a thread stands, named after the step it executes next. `timed` says
whether a `Wait` has a deadline; `waitTake` holds its `stat_ok`. -/
inductive Pc where
  | idle
  | setLock
  | setWrite
  | setNotify
  | setUnlock
  | setReturn
  | resetLock
  | resetWrite
  | resetUnlock
  | resetReturn
  | waitLock (t : TimeUnit)
  | waitBranch (t : TimeUnit)
  | waitTest (timed : Bool)
  | waitBlocked (timed : Bool)
  | waitExpired
  | waitFailed
  | waitRead
  | waitTake (stat_ok : Bool)
  | waitUnlock (rv : Bool)
  | waitReturn (rv : Bool)
  deriving DecidableEq, Repr

/-- `EVENT_DATA` and the threads: `manual` is `EDFLAG_MANURESET`, `cond` are the
threads blocked on `cond`. -/
structure State (Thread : Type) where
  manual : Bool
  state : Bool
  mutex : Mutex Thread
  cond : List Thread
  pc : Thread → Pc

/-- One choice of the environment: a thread calls an operation, executes its
next step, has its notification unblock some threads, fails in a call on the
clock or on `cond`, reaches its deadline, or wakes spuriously. -/
inductive Action (Thread : Type) where
  | call (thread : Thread) (call : Call)
  | run (thread : Thread)
  | notify (thread : Thread) (woken : List Thread)
  | fail (thread : Thread)
  | expire (thread : Thread)
  | wake (thread : Thread)
  deriving DecidableEq, Repr

def Action.thread {Thread : Type} : Action Thread → Thread
  | .call thread _ | .run thread | .notify thread _ | .fail thread | .expire thread
  | .wake thread => thread

variable {Thread : Type} [DecidableEq Thread]

/-- `EVENT_DATA` as a successful constructor leaves it. -/
def fresh (manual init_state : Bool) : State Thread where
  manual := manual
  state := init_state
  mutex := none
  cond := []
  pc := fun _ => .idle

def State.goto (s : State Thread) (thread : Thread) (pc : Pc) : State Thread :=
  { s with pc := Function.update s.pc thread pc }

def State.lock (s : State Thread) (thread : Thread) (pc : Pc) : Option (State Thread) :=
  (Mutex.lock thread s.mutex).map fun mutex => { s with mutex := mutex }.goto thread pc

def State.unlock (s : State Thread) (thread : Thread) (pc : Pc) : State Thread :=
  { s with mutex := none }.goto thread pc

def State.leave (s : State Thread) (thread : Thread) (pc : Pc) : State Thread :=
  { s with cond := s.cond.filter (· ≠ thread) }.goto thread pc

def Call.entry : Call → Pc
  | .set => .setLock
  | .reset => .resetLock
  | .wait t => .waitLock t

/-- The path of `Wait` where the clock, if it is asked, answers. -/
def waitPath (t : TimeUnit) : Pc :=
  if t.empty then .waitRead else .waitTest (!t.infinitely)

def State.next (s : State Thread) (thread : Thread) : Option (State Thread) :=
  match s.pc thread with
  | .idle => none
  | .setLock => s.lock thread .setWrite
  | .setWrite => some ({ s with state := true }.goto thread .setNotify)
  | .setNotify => none
  | .setUnlock => some (s.unlock thread .setReturn)
  | .setReturn => some (s.goto thread .idle)
  | .resetLock => s.lock thread .resetWrite
  | .resetWrite => some ({ s with state := false }.goto thread .resetUnlock)
  | .resetUnlock => some (s.unlock thread .resetReturn)
  | .resetReturn => some (s.goto thread .idle)
  | .waitLock t => s.lock thread (.waitBranch t)
  | .waitBranch t => some (s.goto thread (waitPath t))
  | .waitTest timed =>
    if s.state then some (s.goto thread (if timed then .waitRead else .waitTake true))
    else some ({ s with cond := thread :: s.cond }.unlock thread (.waitBlocked timed))
  | .waitBlocked timed => if thread ∈ s.cond then none else s.lock thread (.waitTest timed)
  | .waitExpired => s.lock thread .waitRead
  | .waitFailed => s.lock thread (.waitUnlock false)
  | .waitRead => some (s.goto thread (.waitTake s.state))
  | .waitTake stat_ok =>
    some ({ s with state := if stat_ok && !s.manual then false else s.state }.goto thread
      (.waitUnlock stat_ok))
  | .waitUnlock rv => some (s.unlock thread (.waitReturn rv))
  | .waitReturn _ => some (s.goto thread .idle)

def step (s : State Thread) : Action Thread → Option (State Thread)
  | .call thread call => if s.pc thread = .idle then some (s.goto thread call.entry) else none
  | .run thread => s.next thread
  | .notify thread woken => match s.pc thread with
    | .setNotify => if notifies s.manual s.cond woken then
        some ({ s with cond := s.cond.filter (· ∉ woken) }.goto thread .setUnlock)
      else none
    | _ => none
  | .fail thread => match s.pc thread with
    | .waitBranch t => if t.empty || t.infinitely then none else some (s.goto thread (.waitTake false))
    | .waitBlocked _ => some (s.leave thread .waitFailed)
    | _ => none
  | .expire thread => match s.pc thread with
    | .waitBlocked true => some (s.leave thread .waitExpired)
    | _ => none
  | .wake thread => match s.pc thread with
    | .waitBlocked timed => some (s.leave thread (.waitBlocked timed))
    | _ => none

end Prot.Lock.Event
