import Prot.Struct.BufferResize

/-! The buffers without a terminator. They free their storage at size 0 and ask
for it again from a null pointer; but their constructor does not set the pointer
when it needs no storage. -/

namespace Prot.Struct

open Memory Base

namespace Storage

variable {a : Allocator} {i : Instance} {heap heap' : Blocks} {b b' : Storage}
variable {block old : List UInt8} {n cpy : UInt64}

/-- A size for which the storage can be asked for. -/
def PlainFits (i : Instance) (n : UInt64) : Prop :=
  (n.toNat + 3) / 4 * 4 * i.size.toNat < 2 ^ 63

/-- The representation: the pointer is null or points to a live block, and what
it holds is the storage of `z_max` elements. -/
structure Plain (i : Instance) (heap : Blocks) (b : Storage) (block : List UInt8) : Prop where
  holds : heap.Holds b.buf block
  length : block.length = b.zMax.toNat * i.size.toNat
  small : block.length < 2 ^ 63
  inside : b.yMax.toNat ≤ b.zMax.toNat
  aligned : b.zMax.toNat % 4 = 0

private theorem Plain.zMax_of_null (plain : Plain i heap b block) (null : b.buf = none) :
    b.zMax = 0 := by
  have nothing := plain.holds
  rw [null] at nothing
  have none_ : b.zMax.toNat * i.size.toNat = 0 := by
    rw [← plain.length, show block = [] from nothing, List.length_nil]
  rcases Nat.mul_eq_zero.mp none_ with zero | zero
  · exact UInt64.toNat_inj.mp zero
  · exact absurd zero (Nat.ne_of_gt i.positive)

structure PlainResized (i : Instance) (heap' : Blocks) (b b' : Storage) (old : List UInt8)
    (n : UInt64) (block : List UInt8) : Prop where
  plain : Plain i heap' b' block
  yMax : b'.yMax = n
  bytes : ∀ k < min b.yMax.toNat n.toNat * i.size.toNat, block[k]? = old[k]?

theorem Plain.elements_inside (plain : Plain i heap b block) :
    b.yMax.toNat * i.size.toNat ≤ block.length := by
  rw [plain.length]
  exact Nat.mul_le_mul_right _ plain.inside

section Resize

theorem Plain.keep (plain : Plain i heap b old) (inside : n.toNat ≤ b.zMax.toNat) :
    PlainResized i heap b { b with yMax := n } old n old :=
  ⟨⟨plain.holds, plain.length, plain.small, inside, plain.aligned⟩, rfl, fun _ _ => rfl⟩

theorem toNat_alignUp (fits : PlainFits i n) :
    (Bits.alignUp n 4).toNat = (n.toNat + 3) / 4 * 4 := by
  refine Bits.toNat_alignUp_four n ?_
  have wide : (n.toNat + 3) / 4 * 4 ≤ (n.toNat + 3) / 4 * 4 * i.size.toNat :=
    Nat.le_mul_of_pos_right _ i.positive
  have fits : (n.toNat + 3) / 4 * 4 * i.size.toNat < 2 ^ 63 := fits
  omega

theorem toNat_plain_bytes (fits : PlainFits i n) :
    (Bits.alignUp n 4 * i.size).toNat = (n.toNat + 3) / 4 * 4 * i.size.toNat := by
  have fits' : (n.toNat + 3) / 4 * 4 * i.size.toNat < 2 ^ 63 := fits
  rw [toNat_scaled (by rw [toNat_alignUp fits]; omega), toNat_alignUp fits]

private theorem plain_bytes_ne_zero (fits : PlainFits i n) (some_ : n ≠ 0) :
    Bits.alignUp n 4 * i.size ≠ 0 := by
  have bytes := toNat_plain_bytes fits
  have positive : 0 < n.toNat := Nat.pos_of_ne_zero fun zero => some_ (UInt64.toNat_inj.mp zero)
  intro none_
  rw [none_] at bytes
  exact absurd bytes.symm (Nat.ne_of_gt (Nat.mul_pos (by omega) i.positive))

/-- `Resize` into another block of which the first elements are copied. -/
theorem Plain.move (a : Allocator) (plain : Plain i heap b old) (fits : PlainFits i n)
    (some_ : n ≠ 0) (inside : cpy.toNat ≤ b.zMax.toNat)
    (enough : min b.yMax.toNat n.toNat ≤ cpy.toNat) :
    ∃ heap' p block,
      reloc a heap b.buf (Bits.alignUp n 4 * i.size) (cpy * i.size) = .ok (heap', some p) ∧
      PlainResized i heap' b { b with buf := some p, zMax := Bits.alignUp n 4, yMax := n } old n
        block := by
  have aligned := toNat_alignUp fits
  have bytes := toNat_plain_bytes fits
  have copied : cpy.toNat * i.size.toNat ≤ old.length := by
    rw [plain.length]
    exact Nat.mul_le_mul_right _ inside
  have copy : (cpy * i.size).toNat = cpy.toNat * i.size.toNat :=
    toNat_scaled (by have := plain.small; omega)
  obtain ⟨heap', p, moved, relocated⟩ :=
    reloc_relocated (a := a) plain.holds (Nat.le_trans (Nat.le_of_eq copy) copied)
      (plain_bytes_ne_zero fits some_)
  refine ⟨heap', p, _, moved, ⟨relocated.object, ?_, ?_, ?_, ?_⟩, rfl, fun k below => ?_⟩
  · rw [Allocator.length_resized, bytes, aligned]
  · rw [Allocator.length_resized, bytes]
    exact fits
  · simp only [aligned]
    omega
  · simp only [aligned]
    omega
  · have kept := le_length_retained (Bits.alignUp n 4 * i.size)
      (Nat.le_trans (Nat.le_of_eq copy) copied)
    have first := Nat.mul_le_mul_right i.size.toNat enough
    have second := Nat.mul_le_mul_right i.size.toNat (Nat.min_le_right b.yMax.toNat n.toNat)
    have third := Nat.mul_le_mul_right i.size.toNat (show n.toNat ≤ (n.toNat + 3) / 4 * 4 by omega)
    rw [relocated.getElem? relocated.object (by omega), if_pos (by omega)]

theorem Plain.release (plain : Plain i heap b old) :
    ∃ heap', Storage.free heap { b with zMax := 0, yMax := 0 } =
        .ok (heap', { b with buf := none, zMax := 0, yMax := 0 }) ∧
      PlainResized i heap' b { b with buf := none, zMax := 0, yMax := 0 } old 0 [] := by
  obtain ⟨heap', freed, _⟩ := Heap.free_ok plain.holds
  refine ⟨heap', by simp only [Storage.free, freed, ok_bind, pure_eq], ⟨rfl, ?_, ?_, ?_, ?_⟩, rfl, ?_⟩
  · simp
  · simp
  · exact Nat.le_refl _
  · rfl
  · intro k below
    simp at below

/-- `Resize` on every path. -/
theorem Plain.resizePlain (a : Allocator) (plain : Plain i heap b old) (fits : PlainFits i n) :
    ∃ heap' b' block, Storage.resizePlain a i heap b n = .ok (heap', b') ∧
      PlainResized i heap' b b' old n block := by
  unfold Storage.resizePlain
  by_cases inside : n ≤ b.zMax
  · have within : n.toNat ≤ b.zMax.toNat := UInt64.le_iff_toNat_le.mp inside
    by_cases same : n = b.yMax
    · refine ⟨heap, b, old, by rw [if_pos inside, if_pos same]; rfl, plain, same.symm, fun _ _ => rfl⟩
    by_cases less : n + n < b.zMax
    · by_cases zero : n = 0
      · subst zero
        by_cases wide : 8 < b.zMax
        · obtain ⟨heap', freed, resized⟩ := plain.release
          refine ⟨heap', _, [], ?_, resized⟩
          simp only [if_pos inside, if_neg same, if_pos less, if_pos wide, if_true, freed]
        · refine ⟨heap, _, old, ?_, plain.keep within⟩
          simp only [if_pos inside, if_neg same, if_pos less, if_neg wide, if_true, pure_eq]
      · obtain ⟨heap', p, block, moved, resized⟩ :=
          plain.move a fits zero within (Nat.min_le_right ..)
        refine ⟨heap', _, block, ?_, resized⟩
        simp only [if_pos inside, if_neg same, if_pos less, if_neg zero, reAlloc, moved, ok_bind,
          pure_eq]
    · refine ⟨heap, _, old, ?_, plain.keep within⟩
      simp only [if_pos inside, if_neg same, if_neg less, pure_eq]
  · have some_ : n ≠ 0 := fun zero => inside (by rw [zero]; exact UInt64.zero_le)
    obtain ⟨heap', p, block, moved, resized⟩ :=
      plain.move a fits some_ plain.inside (Nat.min_le_left ..)
    refine ⟨heap', _, block, ?_, resized⟩
    simp only [if_neg inside, reAlloc, moved, ok_bind, pure_eq]

/-- A buffer with elements has a block. -/
theorem Plain.buf_of_lt (plain : Plain i heap b block) {idx : ℕ} (below : idx < b.yMax.toNat) :
    ∃ p, b.buf = some p ∧ heap.object p = some block := by
  cases buf : b.buf with
  | none =>
    have bound := plain.inside
    rw [plain.zMax_of_null buf, UInt64.toNat_zero] at bound
    exact absurd below (by omega)
  | some p =>
    have holds := plain.holds
    rw [buf] at holds
    exact ⟨p, rfl, holds⟩

theorem Plain.load_element (plain : Plain i heap b block) {idx : ℕ} (below : idx < b.yMax.toNat) :
    load i heap b idx = .ok (element i block idx) := by
  obtain ⟨p, buf, live⟩ := plain.buf_of_lt below
  exact load_eq buf live (Nat.le_trans (Nat.mul_le_mul_right _ below) plain.elements_inside)

/-- The elements below both sizes are kept. -/
theorem PlainResized.kept (resized : PlainResized i heap' b b' old n block)
    (plain : Plain i heap b old) {idx : ℕ} (both : idx < min b.yMax.toNat n.toNat) :
    ∃ bytes, load i heap b idx = .ok bytes ∧ load i heap' b' idx = .ok bytes := by
  obtain ⟨first, second⟩ := Nat.lt_min.mp both
  refine ⟨_, plain.load_element first, ?_⟩
  rw [resized.plain.load_element (resized.yMax ▸ second), element_congr resized.bytes both]

end Resize

section Runs

/-- `_Init` for no elements leaves the pointer as it finds it. -/
theorem init_plain_zero (a : Allocator) (flag : i.fills = false) (heap : Blocks) (before : Storage) :
    init a i heap before 0 = .ok (heap, ⟨before.buf, 0, 0, 0, 0, 0⟩) := by
  simp [init, flag, pure_eq, show Bits.alignUp 0 4 = 0 from rfl]

/-- `_Init` for some elements, whatever the fields held before. -/
theorem init_plain (a : Allocator) (flag : i.fills = false) (heap : Blocks) (before : Storage)
    (fits : PlainFits i n) (some_ : n ≠ 0 ∨ heap.Holds before.buf []) :
    ∃ heap' b block, init a i heap before n = .ok (heap', b) ∧ Plain i heap' b block := by
  have aligned := toNat_alignUp fits
  have bytes := toNat_plain_bytes fits
  by_cases zero : n = 0
  · subst zero
    refine ⟨heap, _, [], init_plain_zero a flag heap before,
      ⟨some_.resolve_left (absurd rfl), ?_, ?_, ?_, ?_⟩⟩ <;> simp
  · have asked := plain_bytes_ne_zero fits zero
    have bound : Bits.alignUp n 4 ≠ 0 := fun none_ => asked (by rw [none_, UInt64.zero_mul])
    let block := a.fresh heap.next (Bits.alignUp n 4 * i.size).toNat
    refine ⟨heap.new block, ⟨some heap.next, 0, 0, n, Bits.alignUp n 4, 0⟩, block, ?_,
      ⟨Heap.object_new_self, ?_, ?_, ?_, ?_⟩⟩
    · simp only [init, flag, alloc, if_pos bound, alloc_eq asked, pure_eq]
      rfl
    · rw [Allocator.length_fresh, bytes, aligned]
    · rw [Allocator.length_fresh, bytes]
      exact fits
    · simp only [aligned]
      omega
    · simp only [aligned]
      omega

/-- A write to the elements. -/
theorem Plain.overwrite {p start : ℕ} {bytes : List UInt8} (plain : Plain i heap b block)
    (buf : b.buf = some p) (within : start + bytes.length ≤ b.yMax.toNat * i.size.toNat) :
    Plain i (heap.set p (written block start bytes)) b (written block start bytes) := by
  have length : (written block start bytes).length = block.length :=
    length_written (Nat.le_trans within plain.elements_inside)
  refine ⟨?_, ?_, ?_, plain.inside, plain.aligned⟩
  · rw [buf]
    exact Heap.object_set_self
  · rw [length, plain.length]
  · rw [length]
    exact plain.small

/-- The sizes that are asked for. -/
def Op.PlainFits : Op i → Prop
  | .resize n => Storage.PlainFits i n
  | _ => True

theorem step_plain (a : Allocator) (flag : i.fills = false) {s : Blocks × Storage} {op : Op i}
    (plain : ∃ block, Plain i s.1 s.2 block) (fits : op.PlainFits) :
    ∃ s', step a i s op = .ok s' ∧ ∃ block, Plain i s'.1 s'.2 block := by
  obtain ⟨block, plain⟩ := plain
  cases op with
  | resize n =>
    obtain ⟨heap', b', block', done, resized⟩ := plain.resizePlain a fits
    exact ⟨_, by rw [step, resize, if_neg (by rw [flag]; rintro ⟨⟩), done], block', resized.plain⟩
  | destroy =>
    obtain ⟨heap', destroyed, _⟩ := destroy_eq plain.holds
    exact ⟨_, destroyed, [], rfl, by simp, by simp, Nat.le_refl _, rfl⟩
  | store idx x =>
    by_cases below : idx < s.2.yMax
    · obtain ⟨p, buf, live⟩ := plain.buf_of_lt (UInt64.lt_iff_toNat_lt.mp below)
      obtain ⟨done, within⟩ := store_eq (x := x) below buf live plain.elements_inside
      exact ⟨(_, s.2), by rw [step, done]; rfl, _, plain.overwrite buf within⟩
    · exact ⟨s, by rw [step, store_skipped below]; rfl, block, plain⟩

/-- The class keeps its representation: every run of permitted sizes ends
without a fault, with the storage there, and every further size keeps what is
below it. -/
def KeepsPlain (a : Allocator) (i : Instance) (heap : Blocks) (before : Storage) (size : UInt64) :
    Prop :=
  ∀ ops : List (Op i), (∀ op ∈ ops, op.PlainFits) →
    ∃ first heap' b, init a i heap before size = .ok first ∧
      run a i first ops = .ok (heap', b) ∧
      (∃ block, Plain i heap' b block) ∧
      ∀ n, PlainFits i n → ∃ heap'' b', resize a i heap' b n = .ok (heap'', b') ∧ b'.yMax = n ∧
        ∀ idx < min b.yMax.toNat n.toNat,
          ∃ bytes, load i heap' b idx = .ok bytes ∧ load i heap'' b' idx = .ok bytes

/-- The representation is kept in every run if the constructor allocates, or finds
a pointer where it is that `Reloc` and `Free` can take. -/
theorem keeps_plain_iff (a : Allocator) (i : Instance) (flag : i.fills = false) (heap : Blocks)
    (before : Storage) (size : UInt64) (fits : PlainFits i size) :
    KeepsPlain a i heap before size ↔ size ≠ 0 ∨ heap.Holds before.buf [] := by
  constructor
  · intro keeps
    by_cases zero : size = 0
    · right
      obtain ⟨first, heap', b, made, ran, ⟨block, plain⟩, _⟩ := keeps [] (by rintro _ ⟨⟩)
      subst zero
      have same : (heap, (⟨before.buf, 0, 0, 0, 0, 0⟩ : Storage)) = (heap', b) := by
        rw [init_plain_zero a flag] at made
        exact (Except.ok.inj made).trans (Except.ok.inj ran)
      cases same
      have nothing : block = [] := List.eq_nil_of_length_eq_zero (by simp [plain.length])
      exact nothing ▸ plain.holds
    · exact .inl zero
  · intro start ops all
    obtain ⟨heap₁, b₁, block, made, initial⟩ := init_plain a flag heap before fits start
    obtain ⟨⟨heap', b⟩, ran, last, plain⟩ := run_keeps
      (P := fun s => ∃ block, Plain i s.1 s.2 block)
      (fun s op held permitted => step_plain a flag held permitted) ops all (s := (heap₁, b₁))
      ⟨block, initial⟩
    refine ⟨_, heap', b, made, ran, ⟨last, plain⟩, fun n fits => ?_⟩
    obtain ⟨heap'', b', block', done, resized⟩ := plain.resizePlain a fits
    exact ⟨heap'', b', by rw [resize, if_neg (by rw [flag]; rintro ⟨⟩), done], resized.yMax,
      fun idx both => resized.kept plain both⟩

/-- A buffer that is made with a size keeps it, whatever stood in its pointer. -/
theorem keeps_plain_sized : KeepsPlain ⟨fun _ _ => 255, true, true⟩ ⟨1, 0, by decide⟩ .empty
    ⟨some 7, 7, 7, 7, 7, 7⟩ 5 :=
  (keeps_plain_iff _ ⟨1, 0, by decide⟩ (by decide) _ _ 5 (by unfold PlainFits; decide)).mpr
    (.inl (by decide))

/-- A buffer that is made without one passes on what stood there: to `Reloc` at
its first size, to `Free` at its end. -/
theorem plain_pointer_unset :
    init ⟨fun _ _ => 255, true, true⟩ ⟨1, 0, by decide⟩ .empty ⟨some 7, 7, 7, 7, 7, 7⟩ 0 =
        .ok (.empty, ⟨some 7, 0, 0, 0, 0, 0⟩) ∧
      run ⟨fun _ _ => 255, true, true⟩ ⟨1, 0, by decide⟩ (.empty, ⟨some 7, 0, 0, 0, 0, 0⟩)
        [.resize 1] = .error .dangling ∧
      run ⟨fun _ _ => 255, true, true⟩ ⟨1, 0, by decide⟩ (.empty, ⟨some 7, 0, 0, 0, 0, 0⟩)
        [.destroy] = .error .dangling ∧
      ¬KeepsPlain ⟨fun _ _ => 255, true, true⟩ ⟨1, 0, by decide⟩ .empty
        ⟨some 7, 7, 7, 7, 7, 7⟩ 0 := by
  refine ⟨rfl, rfl, rfl, fun keeps => ?_⟩
  obtain ⟨first, heap', b, made, ran, _⟩ := keeps [.destroy] (by
    intro op member
    cases List.mem_singleton.mp member
    trivial)
  cases Except.ok.inj made
  cases ran

end Runs

end Storage

end Prot.Struct
