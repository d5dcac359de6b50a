import Prot.Struct.BufferResize

/-! The copy constructor of the terminated buffers. It copies `len` bytes, where
`len` counts elements. -/

namespace Prot.Struct

open Memory Base

namespace Storage

variable {a : Allocator} {i : Instance} {heap heap' : Blocks} {b other : Storage}
variable {p : ℕ} {block : List UInt8}

/-- What a copy is to be. -/
structure Copied (i : Instance) (heap heap' : Blocks) (other b : Storage) : Prop where
  yMax : b.yMax = other.yMax
  len : b.len = other.len
  tag : b.tag = other.tag
  zRef : b.zRef = 0
  stored : ∃ p block, Stored i heap' b p block ∧ other.buf ≠ some p
  elements : ∀ idx < other.len.toNat, ∃ bytes,
    load i heap other idx = .ok bytes ∧ load i heap' b idx = .ok bytes

def CopyRight (a : Allocator) (i : Instance) (heap : Blocks) (before other : Storage) : Prop :=
  ∃ heap' b, ofOther a i heap before other = .ok (heap', b) ∧ Copied i heap heap' other b

structure CopyMade (a : Allocator) (i : Instance) (heap heap' : Blocks) (other b : Storage)
    (p : ℕ) (block : List UInt8) : Prop where
  stored : Stored i heap' b p block
  fields : b.yMax = other.yMax ∧ b.len = other.len ∧ b.tag = other.tag ∧ b.zRef = 0
  new : p = heap.next
  bytes : ∀ k < other.yMax.toNat * i.size.toNat, block[k]? =
    if k < other.len.toNat then (contents heap other)[k]? else some (a.junk p k)

theorem Represented.available (represented : Represented i heap b) (fits : Fits i 0) :
    Available i b.yMax := by
  rcases represented with destroyed | ⟨p, block, stored⟩
  · rw [destroyed.yMax]
    exact fits.available
  · have inside := stored.inside
    have aligned := stored.aligned
    have bound : (b.yMax ||| 3).toNat + 1 ≤ b.zMax.toNat + 1 := by
      rw [Bits.toNat_or_three]
      omega
    refine Nat.lt_of_le_of_lt (Nat.mul_le_mul_right _ bound) ?_
    rw [← stored.length]
    exact stored.small

theorem ofOther_made (a : Allocator) (fills : i.fills = true) (fits : Fits i 0) (before : Storage)
    (represented : Represented i heap other) (within : other.len ≤ other.yMax) :
    ∃ heap' b p block, ofOther a i heap before other = .ok (heap', b) ∧
      CopyMade a i heap heap' other b p block := by
  obtain ⟨middle, b, p, block, made, done⟩ :=
    init_made a fills heap before (represented.available fits)
  have stored := done.stored.set_user other.len other.tag b.zRef
  simp only [ofOther, made, ok_bind]
  by_cases none_ : other.len = 0
  · refine ⟨middle, _, p, block, ?_, stored, ⟨done.yMax, rfl, rfl, done.user.2.2⟩, done.new, ?_⟩
    · simp only [copy, if_pos none_, pure_eq, ok_bind]
    · intro k below
      rw [done.bytes k below, if_neg (by simp [none_])]
  · have within' : other.len.toNat ≤ other.yMax.toNat := UInt64.le_iff_toNat_le.mp within
    have positive : 0 < other.len.toNat :=
      Nat.pos_of_ne_zero fun zero => none_ (UInt64.toNat_inj.mp zero)
    obtain ⟨q, source, from_⟩ := represented.stored_of_lt (Nat.lt_of_lt_of_le positive within')
    have there : middle.object q = some source := by
      rw [done.frame.other q from_.below (by rintro ⟨⟩), from_.live]
    have wide : other.yMax.toNat ≤ other.yMax.toNat * i.size.toNat :=
      Nat.le_mul_of_pos_right _ i.positive
    have inSource := from_.elements_inside
    have inTarget := stored.elements_inside
    simp only [done.yMax] at inTarget
    have taken : (source.take other.len.toNat).length = other.len.toNat :=
      List.length_take_of_le (by omega)
    have fill : 0 + (source.take other.len.toNat).length ≤ block.length := by omega
    have elements : 0 + (source.take other.len.toNat).length ≤ b.yMax.toNat * i.size.toNat := by
      rw [done.yMax]
      omega
    refine ⟨_, _, p, _, ?_, stored.overwrite elements, ⟨done.yMax, rfl, rfl, done.user.2.2⟩,
      done.new, ?_⟩
    · simp only [done.stored.buf, from_.buf,
        copy_eq none_ there stored.live (by omega) (by omega), ok_bind, pure_eq]
    · intro k below
      rw [getElem?_written fill, contents_eq from_.buf from_.live, taken]
      by_cases copied : k < other.len.toNat
      · rw [if_pos (by omega), if_pos copied, Nat.sub_zero, List.getElem?_take_of_lt copied]
      · rw [if_neg (by omega), if_neg copied, done.bytes k below]

theorem Stored.same_elements {m : ℕ} (stored : Stored i heap' b p block)
    (represented : Represented i heap other) (inside : m ≤ b.yMax.toNat)
    (inOther : m ≤ other.yMax.toNat) :
    (∀ idx < m, ∃ bytes, load i heap other idx = .ok bytes ∧ load i heap' b idx = .ok bytes) ↔
      ∀ k < m * i.size.toNat, block[k]? = (contents heap other)[k]? := by
  have loads : ∀ idx < m, load i heap' b idx = .ok (element i block idx) ∧
      load i heap other idx = .ok (element i (contents heap other) idx) := by
    intro idx below
    obtain ⟨q, source, from_⟩ := represented.stored_of_lt (Nat.lt_of_lt_of_le below inOther)
    rw [contents_eq from_.buf from_.live]
    exact ⟨stored.load_element (by omega), from_.load_element (by omega)⟩
  constructor
  · intro same k below
    refine bytes_congr (fun idx below => ?_) below
    obtain ⟨bytes, first, second⟩ := same idx below
    rw [(loads idx below).2] at first
    rw [(loads idx below).1] at second
    exact Except.ok.inj (second.trans first.symm)
  · intro same idx below
    refine ⟨_, (loads idx below).2, ?_⟩
    rw [(loads idx below).1, element_congr same below]

def unlike (bytes : List UInt8) : Allocator := ⟨fun _ k => bytes[k]?.getD 0 + 1, false, false⟩

theorem unlike_ne {bytes : List UInt8} {k : ℕ} : some ((unlike bytes).junk p k) ≠ bytes[k]? := by
  cases there : bytes[k]? with
  | none => simp
  | some byte => simp [unlike, there]

/-- A copy is right if what `malloc` left behind the bytes that were copied is
what the source has there. -/
theorem CopyMade.copied_iff (made : CopyMade a i heap heap' other b p block)
    (represented : Represented i heap other) (within : other.len ≤ other.yMax) :
    Copied i heap heap' other b ↔ ∀ k < other.len.toNat * i.size.toNat, other.len.toNat ≤ k →
      some (a.junk p k) = (contents heap other)[k]? := by
  have inside : other.len.toNat ≤ other.yMax.toNat := UInt64.le_iff_toNat_le.mp within
  have below : other.len.toNat * i.size.toNat ≤ other.yMax.toNat * i.size.toNat :=
    Nat.mul_le_mul_right _ inside
  have elements := made.stored.same_elements represented (made.fields.1 ▸ inside) inside
  constructor
  · intro copied k lower upper
    rw [← elements.mp copied.elements k lower, made.bytes k (by omega), if_neg (by omega)]
  · intro same
    refine ⟨made.fields.1, made.fields.2.1, made.fields.2.2.1, made.fields.2.2.2,
      ⟨p, block, made.stored, ?_⟩, elements.mpr fun k lower => ?_⟩
    · rcases represented with destroyed | ⟨q, source, from_⟩
      · rw [destroyed.buf]
        nofun
      · rw [from_.buf, made.new]
        exact fun same => absurd from_.below (by rw [Option.some.inj same]; exact Nat.lt_irrefl _)
    · rw [made.bytes k (by omega)]
      split
      · rfl
      · exact same k lower (by omega)

/-- A copy has the elements of its source, whatever `malloc` leaves in a block,
if they are bytes, or there are none. -/
theorem copy_right_iff (i : Instance) (fills : i.fills = true) (fits : Fits i 0) (heap : Blocks)
    (before other : Storage) (represented : Represented i heap other)
    (within : other.len ≤ other.yMax) :
    (∀ a, CopyRight a i heap before other) ↔ i.size = 1 ∨ other.len = 0 := by
  constructor
  · intro right
    by_contra wide
    obtain ⟨several, some_⟩ := not_or.mp wide
    have two : 2 ≤ i.size.toNat := by
      have one : i.size.toNat ≠ 1 := fun one => several (UInt64.toNat_inj.mp one)
      have := i.positive
      omega
    have positive : 0 < other.len.toNat :=
      Nat.pos_of_ne_zero fun zero => some_ (UInt64.toNat_inj.mp zero)
    have more := Nat.mul_le_mul_left other.len.toNat two
    obtain ⟨heap', b, copied, right⟩ := right (unlike (contents heap other))
    obtain ⟨heap'', b', p, block, same, made⟩ :=
      ofOther_made (unlike (contents heap other)) fills fits before represented within
    cases copied.symm.trans same
    exact unlike_ne ((made.copied_iff represented within).mp right other.len.toNat (by omega)
      (Nat.le_refl _))
  · intro narrow a
    obtain ⟨heap', b, p, block, same, made⟩ := ofOther_made a fills fits before represented within
    refine ⟨heap', b, same, (made.copied_iff represented within).mpr fun k lower upper => ?_⟩
    rcases narrow with one | none_
    · rw [one, UInt64.toNat_one, Nat.mul_one] at lower
      omega
    · rw [none_, UInt64.toNat_zero, Nat.zero_mul] at lower
      omega

theorem copy_right_bytes : CopyRight ⟨fun _ _ => 255, false, false⟩ .buffer
    (Heap.empty.new [65, 66, 0, 0]) ⟨none, 7, 7, 7, 7, 7⟩ ⟨some 0, 2, 5, 2, 3, 1⟩ :=
  (copy_right_iff .buffer (by decide) (by decide) _ _ _
    (.inr ⟨0, _, ⟨rfl, rfl, by decide, rfl, by decide, by decide, by decide, by decide⟩, by decide⟩)
    (by decide)).mpr (.inl rfl) _

/-- Of the two elements of a `WCharBuffer` the second is not copied. -/
theorem wide_copy_short :
    Represented .wCharBuffer (Heap.empty.new [65, 0, 66, 0, 0, 0, 0, 0]) ⟨some 0, 2, 0, 2, 3, 0⟩ ∧
      ¬CopyRight ⟨fun _ _ => 255, false, false⟩ .wCharBuffer
        (Heap.empty.new [65, 0, 66, 0, 0, 0, 0, 0]) ⟨none, 0, 0, 0, 0, 0⟩
        ⟨some 0, 2, 0, 2, 3, 0⟩ := by
  have represented : Represented .wCharBuffer (Heap.empty.new [65, 0, 66, 0, 0, 0, 0, 0])
      ⟨some 0, 2, 0, 2, 3, 0⟩ :=
    .inr ⟨0, _, ⟨rfl, rfl, by decide, rfl, by decide, by decide, by decide, by decide⟩, by decide⟩
  refine ⟨represented, ?_⟩
  rintro ⟨heap', b, copied, right⟩
  obtain ⟨heap'', b', p, block, same, made⟩ := ofOther_made ⟨fun _ _ => 255, false, false⟩
    (by decide) (by decide) ⟨none, 0, 0, 0, 0, 0⟩ represented (by decide)
  cases copied.symm.trans same
  have second := (made.copied_iff represented (by decide)).mp right 2 (by decide) (by decide)
  change some (255 : UInt8) = some 66 at second
  exact absurd second (by decide)

end Storage

end Prot.Struct
