import Prot.Memory.Blocks

/-! `allocate.hh` and `memops.hh` on blocks of bytes. -/

namespace Prot.Base

open Memory

/-- `Memory::Alloc(nbytes)`. -/
def alloc (a : Allocator) (heap : Blocks) (nbytes : UInt64) : Blocks × Option ℕ :=
  if nbytes ≠ 0 then a.malloc heap nbytes.toNat else (heap, none)

/-- `Memory::Reloc(ptr, nbytes, nb_cpy)`. -/
def reloc (a : Allocator) (heap : Blocks) (ptr : Option ℕ) (nbytes nbCpy : UInt64) :
    Except Fault (Blocks × Option ℕ) :=
  if nbCpy + 1000 < nbytes then do
    let (heap, ptr) ← a.realloc heap nbCpy.toNat ptr
    a.realloc heap nbytes.toNat ptr
  else a.realloc heap nbytes.toNat ptr

/-- `Memory::Copy(dest, from, nbytes)`; no bytes are copied from anywhere to
anywhere. -/
def copy (heap : Blocks) (dest from_ : Option ℕ) (nbytes : UInt64) : Except Fault Blocks :=
  if nbytes = 0 then return heap
  else match from_ with
    | none => .error .null
    | some f => do
      let source ← heap.get f
      if nbytes.toNat ≤ source.length then overwrite heap dest 0 (source.take nbytes.toNat)
      else .error .outOfBounds

/-- `Memory::Fill(&ptr[start], nbytes, chr)`. -/
def fill (heap : Blocks) (ptr : Option ℕ) (start nbytes : ℕ) (chr : UInt8) : Except Fault Blocks :=
  overwrite heap ptr start (List.replicate nbytes chr)

variable {a : Allocator} {heap heap' : Blocks} {ptr : Option ℕ} {old : List UInt8}
variable {nbytes nbCpy : UInt64}

/-- `Alloc` of some bytes is never answered by a null pointer. -/
theorem alloc_eq (some_ : nbytes ≠ 0) :
    alloc a heap nbytes = (heap.new (a.fresh heap.next nbytes.toNat), some heap.next) := by
  have positive : nbytes.toNat ≠ 0 := fun zero => some_ (UInt64.toNat_inj.mp zero)
  rw [alloc, if_pos some_, Allocator.malloc, if_neg fun none => positive none.1]

/-- `Copy` between two live blocks. -/
theorem copy_eq {dest from_ : ℕ} {target source : List UInt8} (some_ : nbytes ≠ 0)
    (liveFrom : heap.object from_ = some source) (liveDest : heap.object dest = some target)
    (inSource : nbytes.toNat ≤ source.length) (inTarget : nbytes.toNat ≤ target.length) :
    copy heap (some dest) (some from_) nbytes =
      .ok (heap.set dest (written target 0 (source.take nbytes.toNat))) := by
  simp only [copy, if_neg some_, Heap.get_eq liveFrom, ok_bind, if_pos inSource]
  refine Heap.overwrite_eq liveDest ?_
  rw [List.length_take_of_le inSource]
  omega

/-- What `Reloc` lets `realloc` move: in two steps only the bytes to copy. -/
def retained (old : List UInt8) (nbytes nbCpy : UInt64) : List UInt8 :=
  if nbCpy + 1000 < nbytes then old.take nbCpy.toNat else old

private theorem getElem?_retained {k : ℕ} (there : k < (retained old nbytes nbCpy).length) :
    (retained old nbytes nbCpy)[k]? = old[k]? := by
  unfold retained at there ⊢
  split
  · rename_i twice
    rw [if_pos twice, List.length_take] at there
    rw [List.getElem?_take, if_pos (by omega)]
  · rfl

theorem le_length_retained (nbytes : UInt64) (inside : nbCpy.toNat ≤ old.length) :
    nbCpy.toNat ≤ (retained old nbytes nbCpy).length := by
  unfold retained
  split
  · exact Nat.le_of_eq (by rw [List.length_take, Nat.min_eq_left inside])
  · exact inside

/-- The block that `Reloc` returns. -/
structure Relocated (a : Allocator) (heap heap' : Blocks) (ptr : Option ℕ) (p : ℕ)
    (old : List UInt8) (nbytes nbCpy : UInt64) : Prop where
  object : heap'.object p = some (a.resized p (retained old nbytes nbCpy) nbytes.toNat)
  frame : Heap.Frame heap heap' ptr
  new : heap.next ≤ p
  below : p < heap'.next

/-- Each byte of it: an old one, or what the allocator left there. -/
theorem Relocated.getElem? {p k : ℕ} {block : List UInt8}
    (relocated : Relocated a heap heap' ptr p old nbytes nbCpy)
    (live : heap'.object p = some block) (inside : k < nbytes.toNat) :
    block[k]? = if k < (retained old nbytes nbCpy).length then old[k]? else some (a.junk p k) := by
  cases relocated.object.symm.trans live
  rw [Allocator.getElem?_resized inside]
  split
  · rename_i there
    exact getElem?_retained there
  · rfl

theorem reloc_relocated (holds : heap.Holds ptr old) (inside : nbCpy.toNat ≤ old.length)
    (some_ : nbytes ≠ 0) :
    ∃ heap' p, reloc a heap ptr nbytes nbCpy = .ok (heap', some p) ∧
      Relocated a heap heap' ptr p old nbytes nbCpy := by
  have positive : nbytes.toNat ≠ 0 := fun zero => some_ (UInt64.toNat_inj.mp zero)
  unfold reloc
  by_cases twice : nbCpy + 1000 < nbytes
  · obtain ⟨middle, ptr', shrunk, first⟩ := Heap.realloc_realloced a holds nbCpy.toNat
    have cut := first.holds
    rw [Allocator.resized_of_le inside] at cut
    obtain ⟨last, ptr'', grown, second⟩ := Heap.realloc_realloced a cut nbytes.toNat
    obtain rfl : ptr'' = some middle.next := second.new.resolve_right fun none => positive none.2
    refine ⟨last, middle.next, ?_, ?_, ?_, first.frame.next, second.below _ rfl⟩
    · rw [if_pos twice, shrunk, ok_bind]
      exact grown
    · rw [retained, if_pos twice]
      exact second.holds
    · refine first.frame.trans second.frame fun b same => ?_
      rcases first.new with new | ⟨none, _⟩
      · cases new.symm.trans same
        exact .inr (Nat.le_refl _)
      · cases none.symm.trans same
  · obtain ⟨last, ptr', moved, only⟩ := Heap.realloc_realloced a holds nbytes.toNat
    obtain rfl : ptr' = some heap.next := only.new.resolve_right fun none => positive none.2
    refine ⟨last, heap.next, ?_, ?_, only.frame, Nat.le_refl _, only.below _ rfl⟩
    · rw [if_neg twice, moved]
    · rw [retained, if_neg twice]
      exact only.holds

end Prot.Base
