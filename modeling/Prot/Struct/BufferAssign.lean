import Prot.Struct.BufferCopy

/-! `operator=` of the terminated buffers. It takes over the sizes, the length and
the tag of the other buffer, and none of its elements. -/

namespace Prot.Struct

open Memory Base

namespace Storage

variable {a : Allocator} {i : Instance} {heap heap' : Blocks} {b b' other : Storage}

/-- What a buffer is to be after the assignment of another. -/
structure Assigned (i : Instance) (heap heap' : Blocks) (b other b' : Storage) : Prop where
  len : b'.len = other.len
  tag : b'.tag = other.tag
  yMax : b'.yMax = other.yMax
  elements : ∀ idx < other.len.toNat, ∃ bytes,
    load i heap other idx = .ok bytes ∧ load i heap' b' idx = .ok bytes
  terminator : load i heap' b' b'.yMax.toNat = .ok (List.replicate i.size.toNat 0)
  separate : ∀ p, b'.buf = some p → other.buf ≠ some p
  unchanged : ∀ p, other.buf = some p → heap'.object p = heap.object p
  zRef : b'.zRef = b.zRef

def AssignRight (a : Allocator) (i : Instance) (heap : Blocks) (b other : Storage) : Prop :=
  ∃ heap' b', assign a i heap b other = .ok (heap', b') ∧ Assigned i heap heap' b other b'

/-- The buffer has the elements of the other one already, where `Resize` keeps them. -/
def Agrees (i : Instance) (heap : Blocks) (b other : Storage) : Prop :=
  ∀ k < other.len.toNat * i.size.toNat, k < survives i b (contents heap b) other.yMax ∧
    (contents heap b)[k]? = (contents heap other)[k]?

/-- What `operator=` does: it resizes, and sets three fields. -/
theorem assign_resized (a : Allocator) (fills : i.fills = true) (fits : Fits i 0)
    (represented : Represented i heap b) (represented' : Represented i heap other) :
    ∃ heap' b', assign a i heap b other =
        .ok (heap', { b' with zRef := 0, len := other.len, tag := other.tag }) ∧
      Resized a i heap heap' b b' (contents heap b) other.yMax := by
  obtain ⟨heap', b', done, resized⟩ := resizeFilled_resized a represented represented.holds
    (represented'.available fits)
  refine ⟨heap', b', ?_, resized⟩
  simp only [assign, resize, if_pos fills, done, ok_bind, pure_eq]

theorem Resized.apart {old : List UInt8} {n : UInt64}
    (resized : Resized a i heap heap' b b' old n) (represented : Represented i heap other)
    (separate : ∀ p, b.buf = some p → other.buf ≠ some p) {p : ℕ} (others : other.buf = some p) :
    b'.buf ≠ some p ∧ heap'.object p = heap.object p := by
  obtain ⟨q, block, stored⟩ : ∃ q block, Stored i heap other q block :=
    represented.resolve_left fun destroyed => by rw [destroyed.buf] at others; cases others
  have below : p < heap.next := by
    cases others.symm.trans stored.buf
    exact stored.below
  refine ⟨fun shared => ?_, resized.frame.other p below fun own => separate p own others⟩
  rcases resized.own p shared with own | new
  · exact separate p own others
  · exact absurd below (Nat.not_lt.mpr new)

/-- After an assignment only the elements and the terminator are in question. -/
theorem Resized.assigned_iff (resized : Resized a i heap heap' b b' (contents heap b) other.yMax)
    (represented : Represented i heap other) (separate : ∀ p, b.buf = some p → other.buf ≠ some p)
    (within : other.len ≤ other.yMax) {p : ℕ} {block : List UInt8}
    (stored : Stored i heap' b' p block) :
    Assigned i heap heap' b other { b' with zRef := 0, len := other.len, tag := other.tag } ↔
      b.zRef = 0 ∧
        ∀ k < other.len.toNat * i.size.toNat, block[k]? = (contents heap other)[k]? := by
  have inside : other.len.toNat ≤ other.yMax.toNat := UInt64.le_iff_toNat_le.mp within
  have settled := stored.set_user other.len other.tag 0
  have elements := settled.same_elements represented (m := other.len.toNat)
    (by rw [resized.yMax]; exact inside) inside
  constructor
  · intro assigned
    exact ⟨assigned.zRef.symm, elements.mp assigned.elements⟩
  · rintro ⟨count, same⟩
    refine ⟨rfl, rfl, resized.yMax, elements.mpr same, ?_, ?_, ?_, count.symm⟩
    · rw [settled.load_element (Nat.le_refl _)]
      exact congrArg _ settled.zero
    · intro q own others
      exact (resized.apart represented separate others).1 own
    · intro q others
      exact (resized.apart represented separate others).2

theorem Represented.destroyed (represented : Represented i heap b) (none_ : b.buf = none) :
    Destroyed b :=
  represented.resolve_right fun ⟨_, _, stored⟩ => by cases none_.symm.trans stored.buf

private theorem assign_nothing (fills : i.fills = true) (destroyed : Destroyed b)
    (zero : other.yMax = 0) :
    assign a i heap b other =
      .ok (heap, { b with zRef := 0, len := other.len, tag := other.tag }) := by
  simp only [assign, resize, if_pos fills, resizeFilled, zero, destroyed.zMax, destroyed.yMax,
    if_pos (UInt64.le_refl 0), if_true, pure_eq, ok_bind]

end Storage

end Prot.Struct
