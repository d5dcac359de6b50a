import Mathlib.Algebra.BigOperators.Pi
import Mathlib.Algebra.BigOperators.Ring.Finset
import Mathlib.Algebra.Order.BigOperators.Group.Finset

/-! Counting the threads of a finite family by the place where each of them
stands, and summing what each of them contributes. -/

namespace Prot.Concurrency

universe u v
variable {Thread : Type u} [Fintype Thread] {Place : Type v}

/-- The sum of every thread's contribution. -/
def contributed (value : Place → ℤ) (place : Thread → Place) : ℤ :=
  ∑ thread, value (place thread)

/-- The number of threads standing at a place with the given property. -/
def headcount (test : Place → Bool) (place : Thread → Place) : ℕ :=
  ∑ thread, (test (place thread)).toNat

/-- The sum of every thread's contribution, where none is negative. -/
def total (value : Place → ℕ) (place : Thread → Place) : ℕ :=
  ∑ thread, value (place thread)

variable {value : Place → ℤ} {test other : Place → Bool} {place : Thread → Place}
variable {thread : Thread} {next : Place}

theorem contributed_eq_zero (idle : ∀ thread, value (place thread) = 0) :
    contributed value place = 0 :=
  Finset.sum_eq_zero fun thread _ => idle thread

theorem contributed_le_contributed {more : Place → ℤ}
    (below : ∀ thread, value (place thread) ≤ more (place thread)) :
    contributed value place ≤ contributed more place :=
  Finset.sum_le_sum fun thread _ => below thread

/-- No thread contributes more than all of them. -/
theorem le_contributed (nonneg : ∀ thread, 0 ≤ value (place thread)) (thread : Thread) :
    value (place thread) ≤ contributed value place :=
  Finset.single_le_sum (fun t _ => nonneg t) (Finset.mem_univ thread)

private theorem total_eq_contributed (value : Place → ℕ) (place : Thread → Place) :
    (total value place : ℤ) = contributed (fun p => (value p : ℤ)) place := by
  simp [total, contributed]

theorem headcount_eq_zero_iff :
    headcount test place = 0 ↔ ∀ thread, test (place thread) = false := by
  simp [headcount, Finset.sum_eq_zero_iff, Bool.toNat_eq_zero]

theorem headcount_pos_iff : 0 < headcount test place ↔ ∃ thread, test (place thread) = true := by
  rw [Nat.pos_iff_ne_zero, ne_eq, headcount_eq_zero_iff]
  simp

/-- If as many threads as there are stand at places of a kind, all of them do. -/
theorem all_of_card_le_headcount (full : Fintype.card Thread ≤ headcount test place)
    (thread : Thread) : test (place thread) = true := by
  by_contra outside
  have fewer : headcount test place < ∑ _ : Thread, 1 := by
    refine Finset.sum_lt_sum (fun t _ => Bool.toNat_le _) ⟨thread, Finset.mem_univ _, ?_⟩
    rw [Bool.not_eq_true] at outside
    rw [outside]
    exact Nat.one_pos
  simp only [Finset.sum_const, Finset.card_univ, smul_eq_mul, mul_one] at fewer
  omega

/-- Counting the threads of a list that holds all those of a kind. -/
theorem headcount_eq_length {threads : List Thread} (nodup : threads.Nodup)
    (covers : ∀ thread, test (place thread) = true → thread ∈ threads) :
    headcount test place = (threads.filter fun thread => test (place thread)).length := by
  classical
  have counted : headcount test place =
      (Finset.univ.filter fun thread => test (place thread) = true).card := by
    rw [Finset.card_filter, headcount]
    refine Finset.sum_congr rfl fun thread _ => ?_
    cases test (place thread) <;> rfl
  have same : (Finset.univ.filter fun thread => test (place thread) = true) =
      (threads.filter fun thread => test (place thread)).toFinset := by
    ext thread
    simp only [Finset.mem_filter, Finset.mem_univ, true_and, List.mem_toFinset, List.mem_filter]
    exact ⟨fun holds => ⟨covers thread holds, holds⟩, And.right⟩
  rw [counted, same, List.toFinset_card_of_nodup (nodup.filter _)]

/-- Disjoint kinds of place that cover a third one are counted separately. -/
theorem headcount_add {both : Place → Bool}
    (split : ∀ p, (both p).toNat = (test p).toNat + (other p).toNat) :
    headcount both place = headcount test place + headcount other place := by
  rw [headcount, headcount, headcount, ← Finset.sum_add_distrib]
  exact Finset.sum_congr rfl fun thread _ => split (place thread)

variable [DecidableEq Thread]

theorem contributed_update (value : Place → ℤ) (place : Thread → Place) (thread : Thread)
    (next : Place) : contributed value (Function.update place thread next) =
      contributed value place - value (place thread) + value next := by
  have split (place : Thread → Place) : contributed value place =
      value (place thread) + ∑ t ∈ Finset.univ.erase thread, value (place t) :=
    (Finset.add_sum_erase _ _ (Finset.mem_univ thread)).symm
  have rest : ∑ t ∈ Finset.univ.erase thread, value (Function.update place thread next t) =
      ∑ t ∈ Finset.univ.erase thread, value (place t) := by
    refine Finset.sum_congr rfl fun t member => ?_
    rw [Function.update_of_ne (Finset.ne_of_mem_erase member)]
  rw [split (Function.update place thread next), split place, rest, Function.update_self]
  omega

/-- Moving one thread changes a total by what it leaves and what it joins. -/
theorem total_update (value : Place → ℕ) (place : Thread → Place) (thread : Thread)
    (next : Place) : total value (Function.update place thread next) + value (place thread) =
      total value place + value next := by
  have moved := contributed_update (fun p => (value p : ℤ)) place thread next
  simp only [← total_eq_contributed] at moved
  omega

theorem headcount_update (test : Place → Bool) (place : Thread → Place) (thread : Thread)
    (next : Place) : headcount test (Function.update place thread next) +
      (test (place thread)).toNat = headcount test place + (test next).toNat :=
  total_update (fun p => (test p).toNat) place thread next

/-- A thread that moves takes its own part of a count along. -/
theorem headcount_move (test : Place → Bool) (place : Thread → Place) (thread : Thread)
    (next : Place) : (headcount test (Function.update place thread next) : ℤ) =
      headcount test place + (test next).toNat - (test (place thread)).toNat := by
  have moved := headcount_update test place thread next
  omega

theorem headcount_update_same (same : test next = test (place thread)) :
    headcount test (Function.update place thread next) = headcount test place := by
  have moved := headcount_update test place thread next
  rw [same] at moved
  omega

/-- A kind of place where only one thread can stand is counted by that thread. -/
theorem headcount_of_unique (unique : ∀ t, test (place t) = true → t = thread) :
    headcount test place = (test (place thread)).toNat := by
  rw [headcount, ← Finset.add_sum_erase _ _ (Finset.mem_univ thread)]
  have rest : ∑ t ∈ Finset.univ.erase thread, (test (place t)).toNat = 0 := by
    refine Finset.sum_eq_zero fun t member => ?_
    cases here : test (place t) with
    | false => rfl
    | true => exact absurd (unique t here) (Finset.ne_of_mem_erase member)
  rw [rest, Nat.add_zero]

end Prot.Concurrency
