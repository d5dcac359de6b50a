import Prot.Concurrency.Machine
import Prot.Concurrency.Threads

/-! `lock.hh`: threads that use a lock only through `ILock`, and call `Free`
once for each successful `Get` or `TryGet`. The lock may be any machine; what
its steps must keep for the threads to lose no permit is stated once. -/

namespace Prot.Lock

open Concurrency

/-- A lock behind `ILock`. `inner` are the steps inside its operations that
threads take without a pthread error, `acquired` names the thread whose `Get`
or `TryGet` returns `True` in a step. `held` counts the permits that have been
taken by a `Get` still to return, or are still to be given back by a `Free`. -/
structure ILock (Thread : Type) where
  State : Type
  Action : Type
  step : State → Action → Option State
  get : Thread → Action
  tryGet : Thread → Action
  free : Thread → Action
  inner : State → Action → Bool
  acquired : State → Action → Option Thread
  available : State → ℤ
  held : State → ℤ

namespace ILock

variable {Thread : Type}

/-- The lock and the successful acquisitions of each thread not yet freed. -/
structure Client (lock : ILock Thread) where
  inside : lock.State
  owned : Thread → ℕ

/-- What the threads do with a lock. `owner` is the thread whose acquisition a
`Free` gives back. -/
inductive Use (lock : ILock Thread) where
  | get (thread : Thread)
  | tryGet (thread : Thread)
  | free (thread owner : Thread)
  | inner (action : lock.Action)

variable [DecidableEq Thread] {lock : ILock Thread}

/-- A successful acquisition that has been returned. -/
def credit (owned : Thread → ℕ) : Option Thread → Thread → ℕ
  | none => owned
  | some thread => Function.update owned thread (owned thread + 1)

/-- One step of the threads that share a lock. -/
def Client.step (c : Client lock) : Use lock → Option (Client lock)
  | .get thread => (lock.step c.inside (lock.get thread)).map fun inside => ⟨inside, c.owned⟩
  | .tryGet thread => (lock.step c.inside (lock.tryGet thread)).map fun inside => ⟨inside, c.owned⟩
  | .free thread owner =>
    if 0 < c.owned owner then
      (lock.step c.inside (lock.free thread)).map fun inside =>
        ⟨inside, Function.update c.owned owner (c.owned owner - 1)⟩
    else none
  | .inner action =>
    if lock.inner c.inside action then
      (lock.step c.inside action).map fun inside =>
        ⟨inside, credit c.owned (lock.acquired c.inside action)⟩
    else none

def Client.start (inside : lock.State) : Client lock := ⟨inside, fun _ => 0⟩

/-- The acquisitions between their taking effect and that of their `Free`. -/
def Client.holding [Fintype Thread] (c : Client lock) : ℤ :=
  lock.held c.inside + total id c.owned

/-- What the steps of a lock do to the permits, for a total of `k`. -/
structure Conserves (lock : ILock Thread) (k : ℤ) (invariant : lock.State → Prop) : Prop where
  nonneg : ∀ s, invariant s → 0 ≤ lock.available s
  get : ∀ s thread s', invariant s →
    lock.step s (lock.get thread) = some s' ∨ lock.step s (lock.tryGet thread) = some s' →
    invariant s' ∧ lock.available s' + lock.held s' = lock.available s + lock.held s
  free : ∀ s thread s', invariant s → lock.step s (lock.free thread) = some s' →
    invariant s' ∧ lock.available s' + lock.held s' = lock.available s + lock.held s + 1
  inner : ∀ s action s', invariant s → lock.available s + lock.held s ≤ k →
    lock.inner s action = true → lock.step s action = some s' →
    invariant s' ∧ lock.available s' + lock.held s' +
      (if (lock.acquired s action).isSome then 1 else 0) = lock.available s + lock.held s

variable [Fintype Thread] {k : ℤ} {invariant : lock.State → Prop} {c c' : Client lock}

private theorem total_credit (owned : Thread → ℕ) (returned : Option Thread) :
    (total id (credit owned returned) : ℤ) = total id owned + if returned.isSome then 1 else 0 := by
  cases returned with
  | none => simp [credit]
  | some thread =>
    have moved := total_update id owned thread (owned thread + 1)
    simp only [id, credit, Option.isSome_some, if_true] at moved ⊢
    omega

/-- No step of the threads gains or loses a permit. -/
theorem step_conserves (law : lock.Conserves k invariant) {use : Use lock}
    (inv : invariant c.inside) (all : lock.available c.inside + c.holding = k)
    (taken : c.step use = some c') :
    invariant c'.inside ∧ lock.available c'.inside + c'.holding = k := by
  unfold Client.holding at all ⊢
  cases use with
  | get thread =>
    obtain ⟨inside, moved, rfl⟩ := Option.map_eq_some_iff.mp taken
    obtain ⟨kept, same⟩ := law.get _ thread _ inv (.inl moved)
    exact ⟨kept, by simp only; omega⟩
  | tryGet thread =>
    obtain ⟨inside, moved, rfl⟩ := Option.map_eq_some_iff.mp taken
    obtain ⟨kept, same⟩ := law.get _ thread _ inv (.inr moved)
    exact ⟨kept, by simp only; omega⟩
  | free thread owner =>
    simp only [Client.step] at taken
    split at taken
    · rename_i owns
      obtain ⟨inside, moved, rfl⟩ := Option.map_eq_some_iff.mp taken
      obtain ⟨kept, same⟩ := law.free _ thread _ inv moved
      have less := total_update id c.owned owner (c.owned owner - 1)
      simp only [id] at less
      exact ⟨kept, by simp only; omega⟩
    · cases taken
  | inner action =>
    simp only [Client.step] at taken
    split at taken
    · rename_i allowed
      obtain ⟨inside, moved, rfl⟩ := Option.map_eq_some_iff.mp taken
      obtain ⟨kept, same⟩ := law.inner _ action _ inv (by omega) allowed moved
      have more := total_credit c.owned (lock.acquired c.inside action)
      exact ⟨kept, by simp only; omega⟩
    · cases taken

/-- A lock that conserves its permits keeps all `k` of them in every run. -/
theorem exec_conserves (law : lock.Conserves k invariant) {start : lock.State}
    (inv : invariant start) (all : lock.available start + lock.held start = k)
    {uses : List (Use lock)} (ran : exec Client.step (Client.start start) uses = some c) :
    c.holding + lock.available c.inside = k ∧ c.holding ≤ k := by
  have reached : invariant c.inside ∧ lock.available c.inside + c.holding = k := by
    refine exec_invariant
      (fun c : Client lock => invariant c.inside ∧ lock.available c.inside + c.holding = k)
      (fun c use c' before taken => step_conserves law before.1 before.2 taken) ⟨inv, ?_⟩ ran
    simpa [Client.holding, Client.start, total] using all
  have nonneg := law.nonneg _ reached.1
  exact ⟨by omega, by omega⟩

end ILock

end Prot.Lock
