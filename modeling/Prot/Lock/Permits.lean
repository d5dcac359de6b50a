import Prot.Lock.SpinLock
import Prot.Lock.EventLock
import Prot.Lock.SemaphoreLock

/-! The locks used through `ILock` exclude alike: whatever their mechanism, the
permits that threads hold and those that are available add up. -/

namespace Prot.Lock

open Concurrency ILock

variable {Thread : Type} [DecidableEq Thread] [Fintype Thread]

omit [DecidableEq Thread] in
theorem SpinLock.fresh_held : headcount Pc.held (fresh : State Thread).pc = 0 :=
  headcount_eq_zero_iff.mpr fun _ => rfl

omit [DecidableEq Thread] in
theorem Event.fresh_held (manual v : Bool) :
    headcount Pc.held (fresh manual v : State Thread).pc = 0 :=
  headcount_eq_zero_iff.mpr fun _ => rfl

omit [DecidableEq Thread] [Fintype Thread] in
theorem Event.fresh_shared (v : Bool) : Shared (fresh false v : State Thread) :=
  ⟨rfl, fresh_settled false v, fun _ => rfl⟩

omit [DecidableEq Thread] in
theorem Semaphore.construct_shared {i_set i_max : Int32} {k : ℤ} {s : State Thread}
    (made : construct i_set i_max = some s) : Shared k i_max s ∧ headcount Pc.held s.pc = 0 ∧
      s.current = i_set := by
  have run := construct_runInvariant made
  obtain ⟨_, rfl⟩ := construct_eq_some made
  exact ⟨⟨run, fun _ => trivial⟩, headcount_eq_zero_iff.mpr fun _ => rfl, rfl⟩

/-- A spin lock, an auto-reset event that starts set and a semaphore of `k`
units lose no permit and give out none twice. -/
theorem permits_conserved :
    (∀ (uses : List (Use (SpinLock.lock Thread))) c,
      exec Client.step (Client.start SpinLock.fresh) uses = some c →
      c.holding + SpinLock.permits c.inside.syo = 1 ∧ c.holding ≤ 1) ∧
    (∀ (uses : List (Use (Event.lock Thread))) c,
      exec Client.step (Client.start (Event.fresh false true)) uses = some c →
      c.holding + c.inside.state.toNat = 1 ∧ c.holding ≤ 1) ∧
    ∀ (k m : Int32) (s : Semaphore.State Thread), Semaphore.construct k m = some s →
      ∀ (uses : List (Use (Semaphore.lock Thread))) c,
      exec Client.step (Client.start s) uses = some c →
      c.holding + c.inside.current.toInt = k.toInt ∧ c.holding ≤ k.toInt := by
  refine ⟨fun uses c ran => ?_, fun uses c ran => ?_, fun k m s made uses c ran => ?_⟩
  · refine exec_conserves (SpinLock.conserves Thread) trivial ?_ ran
    have none : (headcount SpinLock.Pc.held (SpinLock.fresh : SpinLock.State Thread).pc : ℤ) = 0 :=
      congrArg Nat.cast SpinLock.fresh_held
    exact congrArg (1 + ·) none
  · refine exec_conserves (Event.conserves Thread) (Event.fresh_shared true) ?_ ran
    have none : (headcount Event.Pc.held (Event.fresh false true : Event.State Thread).pc : ℤ) = 0 :=
      congrArg Nat.cast (Event.fresh_held false true)
    exact congrArg (1 + ·) none
  · obtain ⟨⟨ordered, _, _, below⟩, _⟩ := Semaphore.construct_eq_some made
    obtain ⟨shared, none, same⟩ := Semaphore.construct_shared made
    have law := Semaphore.conserves Thread below (Int32.le_iff_toInt_le.mp ordered)
    refine exec_conserves law shared ?_ ran
    change s.current.toInt + (headcount Semaphore.Pc.held s.pc : ℤ) = k.toInt
    rw [none, same]
    exact add_zero _

/-- Two threads take the two units of a semaphore and one gives its unit back. -/
def semaphoreUses : List (Use (Semaphore.lock (Fin 2))) :=
  .get 0 :: List.replicate 5 (.inner (.run 0)) ++
    .tryGet 1 :: List.replicate 4 (.inner (.run 1)) ++
    .free 0 0 :: List.replicate 3 (.inner (.run 0))

theorem permits_semaphoreUses : ∃ c, exec Client.step (Client.start (Semaphore.fresh 2 2))
    semaphoreUses = some c ∧ c.holding + c.inside.current.toInt = 2 := by
  obtain ⟨c, ran⟩ := Option.isSome_iff_exists.mp
    (show (exec Client.step (Client.start (Semaphore.fresh 2 2)) semaphoreUses).isSome = true by
      decide)
  exact ⟨c, ran, ((permits_conserved.2.2 2 2 _ rfl) _ c ran).1⟩

end Prot.Lock
