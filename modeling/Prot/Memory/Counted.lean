import Prot.Memory.Heap
import Prot.Concurrency.Threads

/-! Reference counting: every live object knows how many holders point to it,
and an object is deleted when its last holder lets go. -/

namespace Prot.Memory

open Concurrency

universe u v
variable {α : Type u} {Holder : Type v} [Fintype Holder]

/-- How many holders point to an object. -/
def holders (holds : Holder → Option ℕ) (a : ℕ) : ℕ :=
  headcount (fun held => decide (held = some a)) holds

/-- The counts of the live objects are exact, the live objects are those that
are held, and what has been allocated and is not alive was deleted once. -/
structure Counted (count : α → ℕ) (heap : Heap α) (holds : Holder → Option ℕ) : Prop where
  counted : ∀ a x, heap.object a = some x → count x = holders holds a
  held : ∀ a x, heap.object a = some x → ∃ holder, holds holder = some a
  alive : ∀ holder a, holds holder = some a → ∃ x, heap.object a = some x
  allocated : ∀ a x, heap.object a = some x → a < heap.next
  once : ∀ a, heap.deletions a = if a < heap.next ∧ heap.object a = none then 1 else 0

variable {count : α → ℕ} {heap : Heap α} {holds : Holder → Option ℕ}
variable {holder other : Holder} {a c : ℕ} {x y : α}

theorem holders_pos_iff : 0 < holders holds a ↔ ∃ holder, holds holder = some a := by
  simp [holders, headcount_pos_iff]

namespace Counted

theorem empty : Counted count Heap.empty (fun _ : Holder => none) where
  counted := nofun
  held := nofun
  alive := nofun
  allocated := nofun
  once := by simp [Heap.empty]

theorem pos (counted : Counted count heap holds) (live : heap.object a = some x) : 0 < count x := by
  rw [counted.counted a x live]
  exact holders_pos_iff.mpr (counted.held a x live)

theorem ne_next (counted : Counted count heap holds) (held : holds holder = some a) :
    a ≠ heap.next := by
  obtain ⟨x, live⟩ := counted.alive holder a held
  exact Nat.ne_of_lt (counted.allocated a x live)

private theorem allocated_set (counted : Counted count heap holds) (live : heap.object a = some x)
    (c : ℕ) (z : α) (found : (heap.set a y).object c = some z) : c < heap.next := by
  by_cases same : c = a
  · subst same
    exact counted.allocated c x live
  · rw [Heap.object_set_of_ne same] at found
    exact counted.allocated c z found

private theorem once_set (counted : Counted count heap holds) (live : heap.object a = some x)
    (c : ℕ) :
    heap.deletions c = if c < heap.next ∧ (heap.set a y).object c = none then 1 else 0 := by
  have once := counted.once c
  by_cases same : c = a
  · subst same
    simpa [live] using once
  · rw [Heap.object_set_of_ne same]
    exact once

variable [DecidableEq Holder]

omit [Fintype Holder] in
private theorem update_held (free : holds holder = none) (points : holds other = some c) :
    Function.update holds holder (some a) other = some c := by
  rw [Function.update_of_ne, points]
  rintro rfl
  cases free.symm.trans points

theorem holders_update (holds : Holder → Option ℕ) (holder : Holder) (moved : Option ℕ) (c : ℕ) :
    holders (Function.update holds holder moved) c + (decide (holds holder = some c)).toNat =
      holders holds c + (decide (moved = some c)).toNat :=
  headcount_update _ holds holder moved

/-- A new holder of an object that is alive. -/
theorem share (counted : Counted count heap holds) (free : holds holder = none)
    (live : heap.object a = some x) (more : count y = count x + 1) :
    Counted count (heap.set a y) (Function.update holds holder (some a)) := by
  refine ⟨fun c z found => ?_, fun c z found => ?_, fun h c points => ?_,
    counted.allocated_set live, counted.once_set live⟩
  · have moved := holders_update holds holder (some a) c
    by_cases same : c = a
    · subst same
      obtain rfl : y = z := by simpa using found
      have exact_ := counted.counted c x live
      simp [free] at moved
      omega
    · rw [Heap.object_set_of_ne same] at found
      have exact_ := counted.counted c z found
      simp [free, Ne.symm same] at moved
      omega
  · by_cases same : c = a
    · subst same
      exact ⟨holder, Function.update_self ..⟩
    · rw [Heap.object_set_of_ne same] at found
      obtain ⟨other, points⟩ := counted.held c z found
      exact ⟨other, update_held free points⟩
  · by_cases same : c = a
    · subst same
      exact ⟨y, Heap.object_set_self⟩
    · rw [Heap.object_set_of_ne same]
      by_cases moved : h = holder
      · subst moved
        rw [Function.update_self] at points
        exact absurd (Option.some.inj points).symm same
      · rw [Function.update_of_ne moved] at points
        exact counted.alive h c points

/-- A holder of an object of its own. -/
theorem create (counted : Counted count heap holds) (free : holds holder = none)
    (one : count x = 1) :
    Counted count (heap.new x) (Function.update holds holder (some heap.next)) := by
  have unheld : ∀ h, holds h ≠ some heap.next := fun h points => counted.ne_next points rfl
  refine ⟨fun c z found => ?_, fun c z found => ?_, fun h c points => ?_, fun c z found => ?_,
    fun c => ?_⟩
  · have moved := holders_update holds holder (some heap.next) c
    by_cases same : c = heap.next
    · subst same
      obtain rfl : x = z := by simpa using found
      have nobody : holders holds heap.next = 0 := by
        by_contra someone
        obtain ⟨h, points⟩ := holders_pos_iff.mp (Nat.pos_of_ne_zero someone)
        exact unheld h points
      simp [free, nobody] at moved
      omega
    · rw [Heap.object_new_of_ne same] at found
      have exact_ := counted.counted c z found
      simp [free, Ne.symm same] at moved
      omega
  · by_cases same : c = heap.next
    · subst same
      exact ⟨holder, Function.update_self ..⟩
    · rw [Heap.object_new_of_ne same] at found
      obtain ⟨other, points⟩ := counted.held c z found
      exact ⟨other, update_held free points⟩
  · by_cases moved : h = holder
    · subst moved
      rw [Function.update_self] at points
      cases points
      exact ⟨x, Heap.object_new_self⟩
    · rw [Function.update_of_ne moved] at points
      rw [Heap.object_new_of_ne (counted.ne_next points)]
      exact counted.alive h c points
  · by_cases same : c = heap.next
    · subst same
      exact Nat.lt_succ_self _
    · rw [Heap.object_new_of_ne same] at found
      exact Nat.lt_succ_of_lt (counted.allocated c z found)
  · have never := counted.once c
    by_cases same : c = heap.next
    · subst same
      simp at never
      simp [never]
    · rw [Heap.object_new_of_ne same, Heap.deletions_new, Heap.next_new, never]
      simp only [show c < heap.next + 1 ↔ c < heap.next by omega]

/-- A holder lets go of an object that others still hold. -/
theorem drop (counted : Counted count heap holds) (points : holds holder = some a)
    (live : heap.object a = some x) (less : count x = count y + 1) (left : 0 < count y) :
    Counted count (heap.set a y) (Function.update holds holder none) := by
  refine ⟨fun c z found => ?_, fun c z found => ?_, fun h c points' => ?_,
    counted.allocated_set live, counted.once_set live⟩
  · have moved := holders_update holds holder none c
    by_cases same : c = a
    · subst same
      obtain rfl : y = z := by simpa using found
      have exact_ := counted.counted c x live
      simp [points] at moved
      omega
    · rw [Heap.object_set_of_ne same] at found
      have exact_ := counted.counted c z found
      simp [points, Ne.symm same] at moved
      omega
  · have moved := holders_update holds holder none c
    refine holders_pos_iff.mp ?_
    by_cases same : c = a
    · subst same
      have exact_ := counted.counted c x live
      simp [points] at moved
      omega
    · rw [Heap.object_set_of_ne same] at found
      have exact_ := counted.counted c z found
      have pos := counted.pos found
      simp [points, Ne.symm same] at moved
      omega
  · by_cases moved : h = holder
    · subst moved
      rw [Function.update_self] at points'
      cases points'
    · rw [Function.update_of_ne moved] at points'
      by_cases same : c = a
      · subst same
        exact ⟨y, Heap.object_set_self⟩
      · rw [Heap.object_set_of_ne same]
        exact counted.alive h c points'

/-- The last holder of an object lets go of it, and the object is deleted. -/
theorem dropLast (counted : Counted count heap holds) (points : holds holder = some a)
    (live : heap.object a = some x) (last : count x = 1) :
    Counted count (heap.remove a) (Function.update holds holder none) := by
  have nobody : ∀ h, Function.update holds holder none h ≠ some a := by
    intro h still
    have moved := holders_update holds holder none a
    have exact_ := counted.counted a x live
    have pos := holders_pos_iff.mpr ⟨h, still⟩
    simp [points] at moved
    omega
  have kept : ∀ c z, (heap.remove a).object c = some z → c ≠ a ∧ heap.object c = some z := by
    intro c z found
    by_cases same : c = a
    · subst same
      simp at found
    · rw [Heap.object_remove_of_ne same] at found
      exact ⟨same, found⟩
  refine ⟨fun c z found => ?_, fun c z found => ?_, fun h c points' => ?_,
    fun c z found => counted.allocated c z (kept c z found).2, fun c => ?_⟩
  · obtain ⟨same, before⟩ := kept c z found
    have moved := holders_update holds holder none c
    have exact_ := counted.counted c z before
    simp [points, Ne.symm same] at moved
    omega
  · obtain ⟨same, before⟩ := kept c z found
    have moved := holders_update holds holder none c
    have exact_ := counted.counted c z before
    have pos := counted.pos before
    simp [points, Ne.symm same] at moved
    exact holders_pos_iff.mp (by omega)
  · by_cases mine : h = holder
    · subst mine
      rw [Function.update_self] at points'
      cases points'
    · have other : c ≠ a := fun same => nobody h (same ▸ points')
      rw [Function.update_of_ne mine] at points'
      rw [Heap.object_remove_of_ne other]
      exact counted.alive h c points'
  · have once := counted.once c
    by_cases same : c = a
    · subst same
      simp [live] at once
      simp [Heap.remove, once, counted.allocated c x live]
    · have untouched : (heap.remove a).deletions c = heap.deletions c := by simp [Heap.remove, same]
      rw [Heap.object_remove_of_ne same, untouched]
      exact once

end Counted

end Prot.Memory
