import Prot.Struct.BufferStorage

/-! `Resize` and `Destroy` of the terminated buffers: what every sequence of
sizes leaves of the storage. -/

namespace Prot.Struct

open Memory Base

namespace Storage

variable {a : Allocator} {i : Instance} {heap heap' heap'' : Blocks} {b b' : Storage}
variable {p : ℕ} {ptr : Option ℕ} {old block block' : List UInt8} {n cpy : UInt64}

/-- A size for which the storage can be asked for. -/
def Fits (i : Instance) (n : UInt64) : Prop := (n.toNat + 4) * i.size.toNat < 2 ^ 63

/-- A size for which the storage is small enough. -/
def Available (i : Instance) (n : UInt64) : Prop :=
  ((n ||| 3).toNat + 1) * i.size.toNat < 2 ^ 63

/-- A block with room for the elements and for the one behind them. -/
structure Room (i : Instance) (heap : Blocks) (b : Storage) (p : ℕ) (block : List UInt8) : Prop where
  buf : b.buf = some p
  live : heap.object p = some block
  below : p < heap.next
  length : block.length = (b.zMax.toNat + 1) * i.size.toNat
  small : block.length < 2 ^ 63
  inside : b.yMax.toNat ≤ b.zMax.toNat
  slack : b.zMax.toNat ≤ max (2 * b.yMax.toNat) 15
  aligned : b.zMax.toNat % 4 = 3

/-- And a zero stands there. -/
structure Stored (i : Instance) (heap : Blocks) (b : Storage) (p : ℕ) (block : List UInt8) : Prop
    extends Room i heap b p block where
  zero : element i block b.yMax.toNat = List.replicate i.size.toNat 0

structure Destroyed (b : Storage) : Prop where
  buf : b.buf = none
  yMax : b.yMax = 0
  zMax : b.zMax = 0

/-- The representation of a terminated buffer. -/
def Represented (i : Instance) (heap : Blocks) (b : Storage) : Prop :=
  Destroyed b ∨ ∃ p block, Stored i heap b p block

/-- How many bytes of the old block are seen below the new size. -/
def survives (i : Instance) (b : Storage) (old : List UInt8) (n : UInt64) : ℕ :=
  if n ≤ b.zMax then n.toNat * i.size.toNat
  else (retained old (((n ||| 3) + 1) * i.size) (b.yMax * i.size)).length

structure Resized (a : Allocator) (i : Instance) (heap heap' : Blocks) (b b' : Storage)
    (old : List UInt8) (n : UInt64) : Prop where
  represented : Represented i heap' b'
  yMax : b'.yMax = n
  frame : Heap.Frame heap heap' b.buf
  own : ∀ p, b'.buf = some p → b.buf = some p ∨ heap.next ≤ p
  storage : b.buf ≠ none → b'.buf ≠ none
  user : b'.len = b.len ∧ b'.tag = b.tag ∧ b'.zRef = b.zRef
  bytes : ∀ p block, b'.buf = some p → heap'.object p = some block →
    ∀ k < n.toNat * i.size.toNat, block[k]? =
      if k < survives i b old n then old[k]? else some (a.junk p k)

section Arithmetic

theorem Fits.available (fits : Fits i n) : Available i n := by
  have bound : (n ||| 3).toNat + 1 ≤ n.toNat + 4 := by
    rw [Bits.toNat_or_three]
    omega
  exact Nat.lt_of_le_of_lt (Nat.mul_le_mul_right _ bound) fits

private theorem Available.lt (available : Available i n) : n.toNat < 2 ^ 63 := by
  have wide : (n ||| 3).toNat + 1 < 2 ^ 63 :=
    Nat.lt_of_le_of_lt (Nat.le_mul_of_pos_right _ i.positive) available
  rw [Bits.toNat_or_three] at wide
  omega

theorem toNat_capacity {z : UInt64} (fits : (z.toNat + 1) * i.size.toNat < 2 ^ 63) :
    ((z + 1) * i.size).toNat = (z.toNat + 1) * i.size.toNat := by
  have wide : z.toNat + 1 < 2 ^ 63 :=
    Nat.lt_of_le_of_lt (Nat.le_mul_of_pos_right _ i.positive) fits
  have next : (z + 1).toNat = z.toNat + 1 := by
    rw [UInt64.toNat_add, UInt64.toNat_one]
    omega
  rw [← next] at fits ⊢
  exact toNat_scaled (by omega)

private theorem capacity_ne_zero {z : UInt64} (fits : (z.toNat + 1) * i.size.toNat < 2 ^ 63) :
    (z + 1) * i.size ≠ 0 := by
  have size := toNat_capacity fits
  intro none
  rw [none] at size
  exact absurd size.symm (Nat.ne_of_gt (Nat.mul_pos (Nat.succ_pos z.toNat) i.positive))

end Arithmetic

theorem Room.yMax_inside (room : Room i heap b p block) :
    (b.yMax.toNat + 1) * i.size.toNat ≤ block.length := by
  rw [room.length]
  exact Nat.mul_le_mul_right _ (Nat.succ_le_succ room.inside)

theorem Room.elements_inside (room : Room i heap b p block) :
    b.yMax.toNat * i.size.toNat ≤ block.length :=
  Nat.le_trans (Nat.mul_le_mul_right _ (Nat.le_succ _)) room.yMax_inside

theorem Room.toNat_elements (room : Room i heap b p block) :
    (b.yMax * i.size).toNat = b.yMax.toNat * i.size.toNat :=
  toNat_scaled (by have := room.elements_inside; have := room.small; omega)

theorem Stored.holds (stored : Stored i heap b p block) : heap.Holds b.buf block := by
  rw [stored.buf]
  exact stored.live

/-- A write into the block leaves it the block of the buffer. -/
theorem Room.overwrite {start : ℕ} {bytes : List UInt8} (room : Room i heap b p block)
    (inside : start + bytes.length ≤ block.length) :
    Room i (heap.set p (written block start bytes)) b p (written block start bytes) := by
  have kept := length_written inside
  refine ⟨room.buf, Heap.object_set_self, room.below, ?_, ?_, room.inside, room.slack,
    room.aligned⟩
  · rw [kept, room.length]
  · rw [kept]
    exact room.small

/-- `_Zend` puts the zero behind the elements and keeps them. -/
theorem Room.zend (room : Room i heap b p block) :
    ∃ heap' block', zend i heap b b.yMax = .ok heap' ∧ Stored i heap' b p block' ∧
      Heap.Frame heap heap' (some p) ∧
      ∀ k < b.yMax.toNat * i.size.toNat, block'[k]? = block[k]? := by
  have fill : b.yMax.toNat * i.size.toNat + (List.replicate i.size.toNat (0 : UInt8)).length ≤
      block.length := by
    have := room.yMax_inside
    rw [Nat.add_mul, Nat.one_mul] at this
    simpa using this
  refine ⟨_, _, ?_, ⟨room.overwrite fill, ?_⟩, Heap.frame_set, ?_⟩
  · rw [Storage.zend, room.buf]
    exact Heap.overwrite_eq room.live fill
  · have slice := slice_written fill
    rwa [List.length_replicate] at slice
  · intro k below
    rw [getElem?_written fill, if_neg (by omega)]

private theorem Room.of_relocated {cpy : UInt64} (buf : b.buf = some p)
    (relocated : Relocated a heap heap' ptr p old ((b.zMax + 1) * i.size) cpy)
    (fits : (b.zMax.toNat + 1) * i.size.toNat < 2 ^ 63) (inside : b.yMax.toNat ≤ b.zMax.toNat)
    (slack : b.zMax.toNat ≤ max (2 * b.yMax.toNat) 15) (aligned : b.zMax.toNat % 4 = 3) :
    ∃ block, Room i heap' b p block := by
  have size := toNat_capacity fits
  refine ⟨_, buf, relocated.object, relocated.below, ?_, ?_, inside, slack, aligned⟩
  · rw [Allocator.length_resized, size]
  · rw [Allocator.length_resized, size]
    exact fits

theorem Room.resized (room : Room i heap' b' p block) (yMax : b'.yMax = n)
    (frame : Heap.Frame heap heap' b.buf) (own : b.buf = some p ∨ heap.next ≤ p)
    (user : b'.len = b.len ∧ b'.tag = b.tag ∧ b'.zRef = b.zRef)
    (bytes : ∀ k < n.toNat * i.size.toNat, block[k]? =
      if k < survives i b old n then old[k]? else some (a.junk p k)) :
    ∃ heap'', Storage.zend i heap' b' n = .ok heap'' ∧ Resized a i heap heap'' b b' old n := by
  obtain ⟨heap'', block', zended, stored, only, kept⟩ := room.zend
  rw [yMax] at zended kept
  refine ⟨heap'', zended, .inr ⟨p, block', stored⟩, yMax, ?_, ?_, fun _ => ?_, user, ?_⟩
  · refine frame.trans only fun q same => ?_
    cases same
    exact own
  · intro q same
    cases room.buf.symm.trans same
    exact own
  · rw [room.buf]
    nofun
  · intro q last same live k below
    cases room.buf.symm.trans same
    cases stored.live.symm.trans live
    rw [kept k below, bytes k below]

private theorem bytes_of_relocated {new cpy : UInt64}
    (relocated : Relocated a heap heap' ptr p old new cpy)
    (live : heap'.object p = some block) (within : n.toNat * i.size.toNat ≤ new.toNat)
    (count : ∀ k < n.toNat * i.size.toNat, k < (retained old new cpy).length ↔ k < survives i b old n) :
    ∀ k < n.toNat * i.size.toNat, block[k]? =
      if k < survives i b old n then old[k]? else some (a.junk p k) := by
  intro k below
  rw [relocated.getElem? live (by omega)]
  simp only [count k below]

section Resize

/-- `Resize` within the storage: the block stays where it is. -/
theorem Stored.keep (stored : Stored i heap b p old) (inside : n.toNat ≤ b.zMax.toNat)
    (slack : b.zMax.toNat ≤ max (2 * n.toNat) 15) :
    ∃ heap', Storage.zend i heap { b with yMax := n } n = .ok heap' ∧
      Resized a i heap heap' b { b with yMax := n } old n := by
  have room : Room i heap { b with yMax := n } p old :=
    ⟨stored.buf, stored.live, stored.below, stored.length, stored.small, inside, slack,
      stored.aligned⟩
  refine room.resized rfl .refl (.inl stored.buf) ⟨rfl, rfl, rfl⟩ fun k below => ?_
  rw [survives, if_pos (UInt64.le_iff_toNat_le.mpr inside), if_pos below]

/-- `Resize` into another block. -/
theorem reAlloc_resized (a : Allocator) (n z cpy : UInt64) (holds : heap.Holds b.buf old)
    (copied : (cpy * i.size).toNat ≤ old.length) (fits : (z.toNat + 1) * i.size.toNat < 2 ^ 63)
    (inside : n.toNat ≤ z.toNat) (slack : z.toNat ≤ max (2 * n.toNat) 15) (aligned : z.toNat % 4 = 3)
    (count : ∀ k < n.toNat * i.size.toNat,
      k < (retained old ((z + 1) * i.size) (cpy * i.size)).length ↔ k < survives i b old n) :
    ∃ heap' p heap'', reloc a heap b.buf ((z + 1) * i.size) (cpy * i.size) = .ok (heap', some p) ∧
      Storage.zend i heap' { b with buf := some p, zMax := z, yMax := n } n = .ok heap'' ∧
      Resized a i heap heap'' b { b with buf := some p, zMax := z, yMax := n } old n := by
  have size := toNat_capacity fits
  have enough : n.toNat * i.size.toNat ≤ (z.toNat + 1) * i.size.toNat :=
    Nat.mul_le_mul_right _ (by omega)
  obtain ⟨heap', p, moved, relocated⟩ :=
    reloc_relocated (a := a) holds copied (capacity_ne_zero fits)
  obtain ⟨block, room⟩ := Room.of_relocated (b := { b with buf := some p, zMax := z, yMax := n })
    rfl relocated fits inside slack aligned
  have bytes := bytes_of_relocated (b := b) (n := n) relocated room.live (by omega) count
  obtain ⟨heap'', zended, resized⟩ := room.resized (b := b) rfl relocated.frame
    (.inr relocated.new) ⟨rfl, rfl, rfl⟩ bytes
  exact ⟨heap', p, heap'', moved, zended, resized⟩

private theorem Stored.retained_small (stored : Stored i heap b p old) (below : n ≤ b.zMax)
    (new : UInt64) :
    (n * i.size).toNat ≤ old.length ∧
      n.toNat * i.size.toNat ≤ (retained old new (n * i.size)).length := by
  have within : n.toNat * i.size.toNat ≤ old.length := by
    rw [stored.length]
    exact Nat.mul_le_mul_right _ (Nat.le_succ_of_le (UInt64.le_iff_toNat_le.mp below))
  have size : (n * i.size).toNat = n.toNat * i.size.toNat :=
    toNat_scaled (by have := stored.small; omega)
  have kept := le_length_retained new (Nat.le_trans (Nat.le_of_eq size) within)
  omega

private theorem resized_same (represented : Represented i heap b) (holds : heap.Holds b.buf old)
    (inside : n ≤ b.zMax) (same : n = b.yMax) : Resized a i heap heap b b old n := by
  refine ⟨represented, same.symm, .refl, fun _ buf => .inl buf, id, ⟨rfl, rfl, rfl⟩, ?_⟩
  intro p block buf live k below
  cases holds_unique buf holds live
  rw [survives, if_pos inside, if_pos below]

/-- A buffer that is asked for another size below its bound has storage. -/
theorem Represented.stored (represented : Represented i heap b) (inside : n ≤ b.zMax)
    (other : n ≠ b.yMax) (holds : heap.Holds b.buf old) : ∃ p, Stored i heap b p old := by
  rcases represented with destroyed | ⟨p, block, stored⟩
  · refine absurd (UInt64.le_antisymm ?_ UInt64.zero_le) (destroyed.yMax ▸ other)
    rwa [destroyed.zMax] at inside
  · cases holds_unique stored.buf holds stored.live
    exact ⟨p, stored⟩

private theorem Stored.resized_inside (a : Allocator) (stored : Stored i heap b p old)
    (inside : n ≤ b.zMax)
    (other : n ≠ b.yMax) (available : Available i n) :
    ∃ heap' b', resizeFilled a i heap b n = .ok (heap', b') ∧ Resized a i heap heap' b b' old n := by
  have within : n.toNat ≤ b.zMax.toNat := UInt64.le_iff_toNat_le.mp inside
  have double : (n + n).toNat = 2 * n.toNat := by
    have := available.lt
    rw [UInt64.toNat_add]
    omega
  simp only [resizeFilled, if_pos inside, if_neg other]
  by_cases less : n + n < b.zMax
  · have half : 2 * n.toNat < b.zMax.toNat := double ▸ UInt64.lt_iff_toNat_lt.mp less
    simp only [if_pos less]
    by_cases zero : n = 0
    · subst zero
      simp only [if_pos trivial]
      by_cases wide : 15 < b.zMax
      · obtain ⟨heap', q, heap'', moved, zended, resized⟩ := reAlloc_resized a 0 3 0 stored.holds
          (by simp) available (by decide) (by decide) (by decide) (by simp)
        have four : (3 : UInt64) + 1 = 4 := by decide
        rw [four] at moved
        refine ⟨heap'', _, ?_, resized⟩
        simp only [if_pos wide, reAlloc, pure_eq, ok_bind, moved, zended]
      · have low : b.zMax.toNat ≤ 15 := by
          have := UInt64.lt_iff_toNat_lt.not.mp wide
          exact Nat.not_lt.mp this
        obtain ⟨heap', zended, resized⟩ := stored.keep (a := a) (n := 0) within (by omega)
        refine ⟨heap', _, ?_, resized⟩
        simp only [if_neg wide, pure_eq, ok_bind, zended]
    · obtain ⟨copied, kept⟩ := stored.retained_small inside (((n ||| 3) + 1) * i.size)
      have bound := Bits.toNat_or_three n
      obtain ⟨heap', q, heap'', moved, zended, resized⟩ := reAlloc_resized a n (n ||| 3) n
        stored.holds copied available (by omega) (by omega) (by omega) fun k below => by
          rw [survives, if_pos inside]
          exact iff_of_true (Nat.lt_of_lt_of_le below kept) below
      refine ⟨heap'', _, ?_, resized⟩
      simp only [if_neg zero, reAlloc, pure_eq, ok_bind, moved, zended]
  · obtain ⟨heap', zended, resized⟩ := stored.keep (a := a) within (by
      have := UInt64.lt_iff_toNat_lt.not.mp less
      omega)
    refine ⟨heap', _, ?_, resized⟩
    simp only [if_neg less, pure_eq, ok_bind, zended]

theorem Represented.yMax_inside (represented : Represented i heap b)
    (holds : heap.Holds b.buf old) : (b.yMax * i.size).toNat ≤ old.length := by
  rcases represented with destroyed | ⟨p, block, stored⟩
  · rw [destroyed.yMax, UInt64.zero_mul]
    exact Nat.zero_le _
  · cases holds_unique stored.buf holds stored.live
    rw [stored.toNat_elements]
    exact stored.elements_inside

private theorem resized_beyond (a : Allocator) (represented : Represented i heap b)
    (holds : heap.Holds b.buf old) (beyond : ¬n ≤ b.zMax) (available : Available i n) :
    ∃ heap' b', resizeFilled a i heap b n = .ok (heap', b') ∧ Resized a i heap heap' b b' old n := by
  have bound := Bits.toNat_or_three n
  obtain ⟨heap', q, heap'', moved, zended, resized⟩ := reAlloc_resized a n (n ||| 3) b.yMax
    holds (represented.yMax_inside holds) available (by omega) (by omega)
    (by omega) fun k _ => by rw [survives, if_neg beyond]
  refine ⟨heap'', _, ?_, resized⟩
  simp only [resizeFilled, if_neg beyond, reAlloc, pure_eq, ok_bind, moved, zended]

/-- `Resize` on every path. -/
theorem resizeFilled_resized (a : Allocator) (represented : Represented i heap b)
    (holds : heap.Holds b.buf old) (available : Available i n) :
    ∃ heap' b', resizeFilled a i heap b n = .ok (heap', b') ∧ Resized a i heap heap' b b' old n := by
  by_cases inside : n ≤ b.zMax
  · by_cases same : n = b.yMax
    · refine ⟨heap, b, by rw [resizeFilled, if_pos inside, if_pos same]; rfl,
        resized_same represented holds inside same⟩
    · obtain ⟨p, stored⟩ := represented.stored inside same holds
      exact stored.resized_inside a inside same available
  · exact resized_beyond a represented holds inside available

end Resize

section Runs

/-- What the constructors leave: storage of the allocator's bytes, and the zero. -/
structure Made (a : Allocator) (i : Instance) (heap heap' : Blocks) (b : Storage) (n : UInt64)
    (p : ℕ) (block : List UInt8) : Prop where
  stored : Stored i heap' b p block
  yMax : b.yMax = n
  zMax : b.zMax = n ||| 3
  user : b.len = 0 ∧ b.tag = 0 ∧ b.zRef = 0
  frame : Heap.Frame heap heap' none
  new : p = heap.next
  bytes : ∀ k < n.toNat * i.size.toNat, block[k]? = some (a.junk p k)

/-- `_Init`, whatever the fields held before. -/
theorem init_made (a : Allocator) (fills : i.fills = true) (heap : Blocks) (before : Storage)
    (available : Available i n) :
    ∃ heap' b p block, init a i heap before n = .ok (heap', b) ∧ Made a i heap heap' b n p block := by
  have size := toNat_capacity available
  have bound := Bits.toNat_or_three n
  let bytes := a.fresh heap.next (((n ||| 3) + 1) * i.size).toNat
  let b : Storage := ⟨some heap.next, 0, 0, n, n ||| 3, 0⟩
  have room : Room i (heap.new bytes) b heap.next bytes := by
    refine ⟨rfl, Heap.object_new_self, Nat.lt_succ_self _, ?_, ?_, ?_, ?_, ?_⟩
    · rw [Allocator.length_fresh, size]
    · rw [Allocator.length_fresh, size]
      exact available
    · change n.toNat ≤ (n ||| 3).toNat
      omega
    · change (n ||| 3).toNat ≤ max (2 * n.toNat) 15
      omega
    · change (n ||| 3).toNat % 4 = 3
      omega
  obtain ⟨heap', block, zended, stored, frame, kept⟩ := room.zend
  refine ⟨heap', b, heap.next, block, ?_, stored, rfl, rfl, ⟨rfl, rfl, rfl⟩, ?_, rfl,
    fun k below => ?_⟩
  · have same : zend i (heap.new bytes) { b with yMax := before.yMax } n = .ok heap' := zended
    simp only [init, fills, if_true, alloc, alloc_eq (capacity_ne_zero available)]
    exact congrArg (· >>= _) same
  · refine Heap.Frame.trans Heap.frame_new frame fun q same => ?_
    cases same
    exact .inr (Nat.le_refl _)
  · have enough := Nat.mul_le_mul_right i.size.toNat (Nat.le_succ_of_le room.inside)
    rw [kept k below, Allocator.getElem?_fresh]
    rw [size]
    exact Nat.lt_of_lt_of_le below enough

/-- The storage of a buffer does not depend on what its user has set. -/
theorem Stored.set_user {p : ℕ} {block : List UInt8} (stored : Stored i heap b p block)
    (len tag zRef : UInt64) : Stored i heap { b with len, tag, zRef } p block :=
  ⟨⟨stored.buf, stored.live, stored.below, stored.length, stored.small, stored.inside, stored.slack,
    stored.aligned⟩, stored.zero⟩

/-- A write to the elements keeps the zero behind them. -/
theorem Stored.overwrite {start : ℕ} {bytes : List UInt8} (stored : Stored i heap b p block)
    (within : start + bytes.length ≤ b.yMax.toNat * i.size.toNat) :
    Stored i (heap.set p (written block start bytes)) b p (written block start bytes) := by
  have inside := stored.elements_inside
  refine ⟨stored.toRoom.overwrite (by omega), ?_⟩
  rw [element, drop_written (by omega) within]
  exact stored.zero

def Op.Fits : Op i → Prop
  | .resize n => Storage.Fits i n
  | _ => True

instance : Decidable (Fits i n) := inferInstanceAs (Decidable (_ < _))

instance : DecidablePred (Op.Fits (i := i))
  | .resize n => inferInstanceAs (Decidable (Storage.Fits i n))
  | .destroy => .isTrue trivial
  | .store _ _ => .isTrue trivial

theorem Represented.holds (represented : Represented i heap b) :
    heap.Holds b.buf (contents heap b) := by
  rcases represented with destroyed | ⟨p, block, stored⟩
  · rw [contents, destroyed.buf]
    rfl
  · rw [contents_eq stored.buf stored.live]
    exact stored.holds

theorem step_represented (a : Allocator) (fills : i.fills = true) {s : Blocks × Storage} {op : Op i}
    (represented : Represented i s.1 s.2) (fits : op.Fits) :
    ∃ s', step a i s op = .ok s' ∧ Represented i s'.1 s'.2 := by
  have holds := represented.holds
  cases op with
  | resize n =>
    obtain ⟨heap', b', done, resized⟩ := resizeFilled_resized a represented holds fits.available
    exact ⟨_, by rw [step, resize, if_pos fills, done], resized.represented⟩
  | destroy =>
    obtain ⟨heap', destroyed, _⟩ := destroy_eq holds
    exact ⟨_, destroyed, .inl ⟨rfl, rfl, rfl⟩⟩
  | store idx x =>
    by_cases below : idx < s.2.yMax
    · rcases represented with destroyed | ⟨p, block, stored⟩
      · rw [destroyed.yMax] at below
        exact absurd below UInt64.not_lt_zero
      · obtain ⟨done, within⟩ := store_eq (x := x) below stored.buf stored.live stored.elements_inside
        exact ⟨(_, s.2), by rw [step, done]; rfl, .inr ⟨p, _, stored.overwrite within⟩⟩
    · exact ⟨s, by rw [step, store_skipped below]; rfl, represented⟩

/-- Destroyed, and asked for nothing since. -/
def Emptied (ops : List (Op i)) : Prop :=
  ∃ before after, ops = before ++ .destroy :: after ∧ ∀ n, .resize n ∈ after → n = 0

private theorem emptied_cons {op : Op i} {ops : List (Op i)} :
    Emptied (op :: ops) ↔ Emptied ops ∨ op = .destroy ∧ ∀ n, .resize n ∈ ops → n = 0 := by
  constructor
  · rintro ⟨before, after, same, asked⟩
    cases before with
    | nil =>
      obtain ⟨rfl, rfl⟩ := List.cons.inj same
      exact .inr ⟨rfl, asked⟩
    | cons first before => exact .inl ⟨before, after, (List.cons.inj same).2, asked⟩
  · rintro (⟨before, after, rfl, asked⟩ | ⟨rfl, asked⟩)
    · exact ⟨op :: before, after, rfl, asked⟩
    · exact ⟨[], ops, rfl, asked⟩

private theorem Stored.not_destroyed (stored : Stored i heap b p block) : ¬Destroyed b := by
  intro destroyed
  cases destroyed.buf.symm.trans stored.buf

/-- Only `Destroy` takes the storage away, and only `Resize` gives it back. -/
theorem step_destroyed (fills : i.fills = true) {s s' : Blocks × Storage} {op : Op i}
    (represented : Represented i s.1 s.2) (fits : op.Fits) (stepped : step a i s op = .ok s') :
    Destroyed s'.2 ↔ op = .destroy ∨ Destroyed s.2 ∧ ∀ n, op = .resize n → n = 0 := by
  have holds := represented.holds
  cases op with
  | resize n =>
    obtain ⟨heap', b', done, resized⟩ := resizeFilled_resized a represented holds fits.available
    rw [step, resize, if_pos fills, done] at stepped
    cases stepped
    constructor
    · intro destroyed
      refine .inr ⟨?_, fun m same => ?_⟩
      · rcases represented with before | ⟨p, block, stored⟩
        · exact before
        · exact absurd destroyed.buf (resized.storage (by rw [stored.buf]; nofun))
      · cases same
        exact resized.yMax.symm.trans destroyed.yMax
    · rintro (same | ⟨destroyed, asked⟩)
      · cases same
      · cases asked n rfl
        rw [resizeFilled, if_pos (destroyed.zMax ▸ UInt64.le_refl 0), if_pos destroyed.yMax.symm] at done
        cases done
        exact destroyed
  | destroy =>
    obtain ⟨heap', destroyed, _⟩ := destroy_eq holds
    cases destroyed.symm.trans stepped
    exact ⟨fun _ => .inl rfl, fun _ => ⟨rfl, rfl, rfl⟩⟩
  | store idx x =>
    have same : s'.2 = s.2 := by
      rw [step] at stepped
      cases stored : store i s.1 s.2 idx x with
      | error fault =>
        rw [stored] at stepped
        cases stepped
      | ok heap =>
        rw [stored] at stepped
        cases stepped
        rfl
    rw [same]
    exact ⟨fun destroyed => .inr ⟨destroyed, nofun⟩, fun either => (either.resolve_left nofun).1⟩

/-- A run from a represented buffer: no fault, and storage unless it was destroyed. -/
theorem run_destroyed (a : Allocator) (fills : i.fills = true) (ops : List (Op i))
    (all : ∀ op ∈ ops, op.Fits) {s : Blocks × Storage} (represented : Represented i s.1 s.2) :
    ∃ s', run a i s ops = .ok s' ∧ Represented i s'.1 s'.2 ∧
      (Destroyed s'.2 ↔ Emptied ops ∨ Destroyed s.2 ∧ ∀ n, .resize n ∈ ops → n = 0) := by
  induction ops generalizing s with
  | nil =>
    refine ⟨s, rfl, represented, ?_⟩
    constructor
    · exact fun destroyed => .inr ⟨destroyed, nofun⟩
    · rintro (⟨before, after, same, _⟩ | ⟨destroyed, _⟩)
      · cases before <;> cases same
      · exact destroyed
  | cons op ops ih =>
    obtain ⟨middle, stepped, held⟩ := step_represented a fills represented (all op List.mem_cons_self)
    have first := step_destroyed fills represented (all op List.mem_cons_self) stepped
    obtain ⟨last, ran, ended, rest⟩ := ih (fun op later => all op (List.mem_cons_of_mem _ later)) held
    refine ⟨last, by rw [run, stepped, ok_bind, ran], ended, ?_⟩
    rw [rest, first, emptied_cons]
    have asked : (∀ n, .resize n ∈ op :: ops → n = 0) ↔
        (∀ n, op = .resize n → n = 0) ∧ ∀ n, .resize n ∈ ops → n = 0 := by
      simp only [List.mem_cons, or_imp, forall_and, eq_comm]
    rw [asked]
    tauto

private theorem Stored.le_survives (stored : Stored i heap b p old) :
    min b.yMax.toNat n.toNat * i.size.toNat ≤ survives i b old n := by
  have inside := stored.elements_inside
  have size := stored.toNat_elements
  unfold survives
  split
  · exact Nat.mul_le_mul_right _ (Nat.min_le_right ..)
  · have kept := le_length_retained (((n ||| 3) + 1) * i.size)
      (show (b.yMax * i.size).toNat ≤ old.length by omega)
    rw [size] at kept
    exact Nat.le_trans (Nat.mul_le_mul_right _ (Nat.min_le_left ..)) kept

/-- A buffer with elements has storage. -/
theorem Represented.stored_of_lt (represented : Represented i heap b) {idx : ℕ}
    (below : idx < b.yMax.toNat) : ∃ p block, Stored i heap b p block := by
  rcases represented with destroyed | stored
  · rw [destroyed.yMax] at below
    exact absurd below (Nat.not_lt_zero _)
  · exact stored

/-- The elements and the one behind them lie in the block. -/
theorem Stored.load_element (stored : Stored i heap b p block) {idx : ℕ} (inside : idx ≤ b.yMax.toNat) :
    load i heap b idx = .ok (element i block idx) :=
  load_eq stored.buf stored.live
    (Nat.le_trans (Nat.mul_le_mul_right _ (Nat.succ_le_succ inside)) stored.yMax_inside)

/-- The elements below both sizes are kept. -/
theorem Resized.kept (resized : Resized a i heap heap' b b' old n)
    (represented : Represented i heap b) (holds : heap.Holds b.buf old) {idx : ℕ}
    (both : idx < min b.yMax.toNat n.toNat) :
    ∃ bytes, load i heap b idx = .ok bytes ∧ load i heap' b' idx = .ok bytes := by
  obtain ⟨first, second⟩ := Nat.lt_min.mp both
  obtain ⟨p, block, stored⟩ := represented.stored_of_lt first
  cases holds_unique stored.buf holds stored.live
  obtain ⟨p', block', stored'⟩ := resized.represented.stored_of_lt (resized.yMax ▸ second)
  refine ⟨element i old idx, stored.load_element (Nat.le_of_lt first), ?_⟩
  rw [stored'.load_element (Nat.le_of_lt (resized.yMax ▸ second))]
  refine congrArg _ (element_congr (fun k below => ?_) both)
  have survived := Nat.lt_of_lt_of_le below (stored.le_survives (n := n))
  rw [resized.bytes p' block' stored'.buf stored'.live k
    (Nat.lt_of_lt_of_le below (Nat.mul_le_mul_right _ (Nat.min_le_right ..))), if_pos survived]

/-- Every run from a constructor ends without a fault in a buffer that is
represented, with storage unless it has been destroyed and given no size since; and
every further size keeps what is below it. -/
theorem run_represented (a : Allocator) (i : Instance) (fills : i.fills = true) (heap : Blocks)
    (before : Storage) (size : UInt64) (fits : Fits i size) (ops : List (Op i))
    (all : ∀ op ∈ ops, op.Fits) :
    ∃ first heap' b, init a i heap before size = .ok first ∧
      run a i first ops = .ok (heap', b) ∧
      Represented i heap' b ∧ (Destroyed b ↔ Emptied ops) ∧
      (b.buf ≠ none → ∀ idx ≤ b.yMax.toNat, ∃ bytes, load i heap' b idx = .ok bytes) ∧
      ∀ n, Fits i n → ∃ heap'' b', resize a i heap' b n = .ok (heap'', b') ∧ b'.yMax = n ∧
        ∀ idx < min b.yMax.toNat n.toNat,
          ∃ bytes, load i heap' b idx = .ok bytes ∧ load i heap'' b' idx = .ok bytes := by
  obtain ⟨heap₁, b₁, p, block, made, initial⟩ := init_made a fills heap before fits.available
  obtain ⟨⟨heap', b⟩, ran, represented, destroyed⟩ := run_destroyed a fills ops all
    (s := (heap₁, b₁)) (.inr ⟨p, block, initial.stored⟩)
  have only : Destroyed b ↔ Emptied ops :=
    destroyed.trans (or_iff_left fun first => initial.stored.not_destroyed first.1)
  refine ⟨_, heap', b, made, ran, represented, only, ?_, ?_⟩
  · intro live idx inside
    rcases represented with destroyed | ⟨p, block, stored⟩
    · exact absurd destroyed.buf live
    · exact ⟨_, stored.load_element inside⟩
  · intro n fits
    have holds := represented.holds
    obtain ⟨heap'', b', done, resized⟩ := resizeFilled_resized a represented holds fits.available
    exact ⟨heap'', b', by rw [resize, if_pos fills, done], resized.yMax,
      fun idx both => resized.kept represented holds both⟩

/-- Growth, a write, a smaller size, the end, and a fresh start of a `WCharBuffer`. -/
theorem run_represented_wide :
    ∃ first heap' b, init ⟨fun _ _ => 255, true, true⟩ .wCharBuffer .empty ⟨none, 7, 7, 7, 7, 7⟩ 10 =
        .ok first ∧
      run ⟨fun _ _ => 255, true, true⟩ .wCharBuffer first
        [.resize 600, .store 1 fun _ => 65, .resize 2, .destroy, .resize 5] = .ok (heap', b) ∧
      Represented .wCharBuffer heap' b ∧ (Destroyed b ↔ Emptied
        [.resize 600, .store 1 fun _ => 65, .resize 2, .destroy, .resize (i := .wCharBuffer) 5]) ∧
      (b.buf ≠ none → ∀ idx ≤ b.yMax.toNat, ∃ bytes, load .wCharBuffer heap' b idx = .ok bytes) ∧
      ∀ n, Fits .wCharBuffer n → ∃ heap'' b',
        resize ⟨fun _ _ => 255, true, true⟩ .wCharBuffer heap' b n = .ok (heap'', b') ∧
        b'.yMax = n ∧ ∀ idx < min b.yMax.toNat n.toNat, ∃ bytes,
          load .wCharBuffer heap' b idx = .ok bytes ∧ load .wCharBuffer heap'' b' idx = .ok bytes :=
  run_represented _ _ (by decide) _ _ _ (by decide) _ (by decide)

end Runs

end Storage

end Prot.Struct
