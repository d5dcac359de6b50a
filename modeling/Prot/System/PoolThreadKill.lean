import Prot.System.PoolThread

/-! `pthread.cc` with `PoolThread::Kill`: the owner may cancel the worker, which
then dies between two of its steps, and run the object again with a new one. -/

namespace Prot.System.PoolThread

open Concurrency Time

/-- Where the owner stands in `Kill`, named after the step it executes next;
the first two are the `Thread::Kill` underneath. -/
inductive Kill where
  | none
  | cancel
  | await
  | writeFlag
  | setOut
  | return (rv : Bool)
  deriving DecidableEq, Repr

/-- The pool thread with what `Kill` adds to it. `cancelled` says that the
worker has a cancellation pending, `returned` for each call of `func` whether it
has returned, and `kills` how many `Run` calls had been accepted, and calls of
`func` made, at each `Kill` that returned `True`. `ready` is the discipline of
the owner: no `Run` yet, or a `Wait` has returned `True` since the last one. -/
structure Killable (Arg : Type) where
  pool : State Arg
  kill : Kill
  cancelled : Bool
  ready : Bool
  returned : List Bool
  kills : List (ℕ × ℕ)

/-- One choice of the environment: a step of the pool thread, the call of
`Kill`, the owner's next step in it, or the death of the cancelled worker. -/
inductive KillAction (Arg : Type) where
  | pool (action : Action Arg)
  | kill
  | killNext
  | die
  deriving DecidableEq, Repr

namespace Killable

variable {Arg : Type}

def init (args : Arg) : Killable Arg where
  pool := PoolThread.init true args
  kill := .none
  cancelled := false
  ready := true
  returned := []
  kills := []

/-- What a step of the pool thread does to the owner's discipline. -/
def readyAfter (c : Killable Arg) (action : Action Arg) : Bool :=
  match action, c.pool.owner with
  | .call (.run _), _ => false
  | .owner, .waitReturn true => true
  | _, _ => c.ready

/-- What a step of the pool thread does to the calls of `func`. -/
def returnedAfter (c : Killable Arg) (action : Action Arg) : List Bool :=
  match action, c.pool.worker with
  | .worker, .callFunc => c.returned ++ [false]
  | .worker, .running => c.returned.dropLast ++ [true]
  | _, _ => c.returned

/-- The owner's next step in `Kill`. `Thread::Kill` waits for the exit of the
thread without testing for it, so its wait may end at any time. -/
def killNext (c : Killable Arg) : Option (Killable Arg) :=
  match c.kill with
  | .none => none
  | .cancel => some (if c.pool.online then { c with cancelled := true, kill := .await }
      else { c with kill := .return false })
  | .await => some { c with kill := .writeFlag }
  | .writeFlag => some { c with
      pool := { c.pool with flag := ⟨false, true, false, false⟩ }, kill := .setOut }
  | .setOut => some { c with pool := { c.pool with sigOut := true }, kill := .return true }
  | .return rv => some { c with
      kill := .none
      kills := if rv then c.kills ++ [(c.pool.accepted.length, c.pool.called.length)] else c.kills }

/-- The owner does nothing else while it is in `Kill`, and `Thread::Run` starts
no thread while another one is there. -/
def permits (c : Killable Arg) : Action Arg → Bool
  | .worker => true
  | .owner => match c.kill, c.pool.owner with
    | .none, .runCreate _ => !c.pool.online
    | .none, _ => true
    | _, _ => false
  | _ => c.kill = .none

def step (c : Killable Arg) : KillAction Arg → Option (Killable Arg)
  | .pool action =>
    if c.permits action then
      (PoolThread.step c.pool action).map fun pool =>
        { c with pool := pool, ready := c.readyAfter action, returned := c.returnedAfter action }
    else none
  | .kill => match c.kill, c.pool.owner with
    | .none, .idle => some { c with kill := .cancel }
    | _, _ => none
  | .killNext => c.killNext
  | .die =>
    if c.cancelled then
      some { c with pool := { c.pool with worker := .exited, online := false }, cancelled := false }
    else none

end Killable

end Prot.System.PoolThread
