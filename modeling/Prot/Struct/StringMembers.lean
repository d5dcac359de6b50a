import Prot.Struct.String
import Prot.Memory.Counted

/-! What each member of `String` does to the heap, once and for all: a
constructor makes a buffer of its own with one reference, or joins one. -/

namespace Prot.Struct.String

open Memory

variable {heap : Buffers} {pb a size : ℕ} {b x : Buffer}

/-- A buffer as `new Buffer(size)` leaves it. -/
def blank (size : ℕ) : Buffer := ⟨some (PtBuf.fresh size), 0, 0, size, size ||| 3, 0⟩

def dropped (heap : Buffers) (pb : ℕ) (b : Buffer) : Buffers :=
  if b.zRef = 1 then heap.remove pb else heap.set pb { b with zRef := b.zRef - 1 }

theorem newBuffer_eq (sized : PtBuf.Sized size) :
    newBuffer heap size = .ok (heap.new (blank size), heap.next) := by
  unfold newBuffer
  rw [PtBuf.init_eq sized]
  rfl

theorem newBuffer_unsized (large : ¬PtBuf.Sized size) : newBuffer heap size = .error .null := by
  unfold newBuffer
  rw [PtBuf.init_unsized large]
  rfl

theorem addRef_eq (live : heap.object pb = some b) :
    addRef heap pb = .ok (heap.set pb { b with zRef := b.zRef + 1 }) := by
  unfold addRef
  rw [Heap.get_eq live]
  exact Heap.put_eq live

theorem ofString_eq (live : heap.object pb = some b) :
    ofString heap pb = .ok (heap.set pb { b with zRef := b.zRef + 1 }, pb) := by
  simp only [ofString, addRef_eq live, ok_bind, pure_eq]

private theorem decRef_eq (live : heap.object pb = some b) :
    decRef heap pb = .ok (heap.set pb { b with zRef := b.zRef - 1 }, b.zRef - 1) := by
  simp only [decRef, Heap.get_eq live, Heap.put_eq live, ok_bind, pure_eq]

theorem release_eq (live : heap.object pb = some b) (counted : 0 < b.zRef) :
    release heap pb = .ok (dropped heap pb b) := by
  simp only [release, decRef_eq live, ok_bind, dropped]
  by_cases last : b.zRef = 1
  · rw [if_pos (by omega), if_pos last, Heap.delete_eq Heap.object_set_self, Heap.remove_set]
  · rw [if_neg (by omega), if_neg last]
    rfl

/-- A well formed buffer whose characters a buffer of its own could hold. -/
structure Fit (b : Buffer) : Prop extends PtBuf.Formed b where
  sized : PtBuf.Sized b.len

/-- A constructor has allocated a buffer, which only this `String` points to. -/
def Made (heap : Buffers) (made : Except Fault (Buffers × ℕ)) (value : List (Option UInt8)) :
    Prop :=
  ∃ b : Buffer, made = .ok (heap.new b, heap.next) ∧ b.zRef = 1 ∧ Fit b ∧ b.value = value

theorem ofBuffer_new : ofBuffer (heap.new b) heap.next =
    .ok (heap.new { b with zRef := b.zRef + 1 }, heap.next) := by
  simp only [ofBuffer, addRef_eq Heap.object_new_self, Heap.set_new, ok_bind, pure_eq]

/-- A buffer with `s` in it, as a constructor leaves it. -/
def filled (s : List (Option UInt8)) (rest : List (Option UInt8)) (size : ℕ) : Buffer :=
  ⟨some (s ++ rest), s.length, 0, size, size ||| 3, 1⟩

private theorem filled_formed {s rest : List (Option UInt8)} {size : ℕ} (fits : s.length ≤ size)
    (full : s.length + rest.length = (size ||| 3) + 1) : (filled s rest size).Formed :=
  ⟨⟨_, rfl, by simpa [filled] using full⟩, fits, PtBuf.le_bound⟩

private theorem value_filled (s rest : List (Option UInt8)) (size : ℕ) :
    (filled s rest size).value = s :=
  PtBuf.value_of_copy

theorem length_rest {s : List (Option UInt8)} (fits : s.length ≤ size) :
    s.length + ((PtBuf.fresh size : List (Option UInt8)).drop s.length).length =
      (size ||| 3) + 1 := by
  have bound : size ≤ size ||| 3 := PtBuf.le_bound
  simp
  omega

def owned (size : ℕ) : Buffer := { blank size with zRef := 1 }

private theorem addRef_blank :
    addRef (heap.new (blank size)) heap.next = .ok (heap.new (owned size)) := by
  rw [addRef_eq Heap.object_new_self, Heap.set_new]
  rfl

theorem sized_zero : PtBuf.Sized 0 := by decide

private theorem made_owned (size : ℕ) : Made heap (.ok (heap.new (owned size), heap.next)) [] :=
  ⟨_, rfl, rfl, ⟨⟨⟨_, rfl, by simp [owned, blank]⟩, Nat.zero_le _, PtBuf.le_bound⟩, sized_zero⟩, rfl⟩

private theorem made_filled {s : List (Option UInt8)} (sized : PtBuf.Sized s.length) :
    Made heap (.ok (heap.new (filled s ((PtBuf.fresh s.length).drop s.length) s.length), heap.next))
      s :=
  ⟨_, rfl, rfl, ⟨filled_formed (Nat.le_refl _) (length_rest (Nat.le_refl _)), sized⟩, value_filled ..⟩

/-- `Memory::Copy` into a new buffer. -/
theorem copy_owned {s : List (Option UInt8)} (fits : s.length ≤ size) :
    (owned size).copy s =
      .ok { owned size with buf := some (s ++ (PtBuf.fresh size).drop s.length) } := by
  have bound : size ≤ size ||| 3 := PtBuf.le_bound
  exact PtBuf.copy_eq rfl (by simp; omega)

theorem empty_made : Made heap (empty heap) [] := by
  simp only [empty, newBuffer_eq (sized_zero), addRef_blank, ok_bind,
    pure_eq]
  exact made_owned 0

/-- What the constructors that copy `l` characters do. -/
theorem copying_made {s : List (Option UInt8)} {l : ℕ} (length : s.length = l)
    (sized : PtBuf.Sized l) :
    Made heap (do
      let (heap, pb) ← newBuffer heap l
      let heap ← addRef heap pb
      if l ≠ 0 then
        let b ← heap.get pb
        let b ← b.copy s
        let heap ← heap.put pb { b with len := l }
        return (heap, pb)
      else return (heap, pb)) s := by
  subst length
  simp only [newBuffer_eq sized, addRef_blank, ok_bind, pure_eq]
  by_cases some_ : s.length ≠ 0
  · simp only [if_pos some_, Heap.get_eq Heap.object_new_self, copy_owned (Nat.le_refl _),
      Heap.put_eq Heap.object_new_self, Heap.set_new, ok_bind]
    exact made_filled sized
  · rw [if_neg some_]
    obtain rfl : s = [] := by simpa using some_
    exact made_owned 0

theorem ofBytes_made {s : List UInt8} (sized : PtBuf.Sized s.length) :
    Made heap (ofBytes heap s) (s.map some) :=
  copying_made (List.length_map ..) sized

theorem ofText_made {s : List UInt8} (sized : PtBuf.Sized (s.takeWhile (· ≠ 0)).length) :
    Made heap (ofText heap s) ((s.takeWhile (· ≠ 0)).map some) :=
  ofBytes_made sized

theorem fill_made (c : UInt8) {l : ℕ} (sized : PtBuf.Sized l) :
    Made heap (fill heap c l) (List.replicate l (some c)) :=
  copying_made List.length_replicate sized

theorem ofBytes_unsized {s : List UInt8} (large : ¬PtBuf.Sized s.length) :
    ofBytes heap s = .error .null := by
  simp only [ofBytes, newBuffer_unsized large, error_bind]

theorem fill_unsized {c : UInt8} {l : ℕ} (large : ¬PtBuf.Sized l) : fill heap c l = .error .null := by
  simp only [fill, newBuffer_unsized large, error_bind]

/-- A buffer with the characters of `FromInt` in their order, and a zero. -/
def lettered (text : List UInt8) : Buffer :=
  ⟨some ((text.map some ++ (PtBuf.fresh text.length).drop text.length).set text.length (some 0)),
    text.length, 0, text.length, text.length ||| 3, 1⟩

theorem value_lettered (text : List UInt8) : (lettered text).value = text.map some := by
  simp [lettered, PtBuf.value]

theorem lettered_formed (text : List UInt8) : (lettered text).Formed := by
  have bound : text.length ≤ text.length ||| 3 := PtBuf.le_bound
  exact ⟨⟨_, rfl, by simp [lettered]; omega⟩, Nat.le_refl _, bound⟩

/-- `FromInt` copies out what it has written, from its end. -/
theorem fromInt_eq {num : Int64} {rdx : UInt8} {text : List UInt8} (radix : 1 < rdx ∧ rdx < 37)
    (wrote : scratch num rdx = .ok text.reverse) (some_ : 0 < text.length)
    (sized : PtBuf.Sized text.length) :
    fromInt heap num rdx = .ok (heap.new (lettered text), heap.next) := by
  have bound : text.length ≤ text.length ||| 3 := PtBuf.le_bound
  have copied := PtBuf.copy_eq (b := { blank text.length with len := text.length })
    (s := text.map some) rfl (by simp; omega)
  simp only [fromInt, if_pos radix, wrote, List.length_reverse, List.reverse_reverse,
    newBuffer_eq sized, ok_bind, if_pos (Nat.ne_of_gt some_), Heap.get_eq Heap.object_new_self, copied]
  rw [PtBuf.store_eq rfl (by simp; omega), ok_bind, Heap.put_eq Heap.object_new_self, ok_bind,
    Heap.set_new, ofBuffer_new, List.length_map]
  rfl

/-- `SubStr` shares the buffer if it is asked for all of it. -/
theorem subStr_whole (start count : ℕ) (live : heap.object pb = some b)
    (whole : start = 0 ∧ count = b.len) :
    subStr heap pb start count = .ok (heap.set pb { b with zRef := b.zRef + 1 }, pb) := by
  simp only [subStr, Heap.get_eq live, ok_bind, if_pos whole, ofString, addRef_eq live, pure_eq]

/-- A new buffer with `count` characters of a block from `start` on; its `len`
stays 0. -/
def sliced (block : List (Option UInt8)) (start count : ℕ) : Buffer :=
  { owned count with buf := some ((block.drop start).take count ++ (PtBuf.fresh count).drop count) }

private theorem length_slice {block : List (Option UInt8)} {start count : ℕ}
    (inside : count = 0 ∨ start + count ≤ block.length) : ((block.drop start).take count).length = count := by
  simp
  omega

/-- Otherwise it copies to a new buffer, if what it reads lies in the block. -/
theorem subStr_part {start count : ℕ} {block : List (Option UInt8)}
    (live : heap.object pb = some b) (there : b.buf = some block) (older : pb ≠ heap.next)
    (part : ¬ (start = 0 ∧ count = b.len)) (sized : PtBuf.Sized count)
    (inside : count = 0 ∨ start + count ≤ block.length) :
    subStr heap pb start count = .ok (heap.new (sliced block start count), heap.next) := by
  have still : (heap.new (owned count)).object pb = some b := by
    rw [Heap.object_new_of_ne older, live]
  have counted : ({ blank count with zRef := (blank count).zRef + 1 } : Buffer) = owned count := rfl
  have length := length_slice inside
  simp only [subStr, Heap.get_eq live, ok_bind, if_neg part, newBuffer_eq sized, ofBuffer_new, counted,
    Heap.get_eq still, PtBuf.loads_eq there inside, Heap.get_eq Heap.object_new_self,
    copy_owned (Nat.le_of_eq length), Heap.put_eq Heap.object_new_self, Heap.set_new, pure_eq]
  rw [length]
  rfl

theorem subStr_unsized {start count : ℕ} (live : heap.object pb = some b)
    (part : ¬ (start = 0 ∧ count = b.len)) (large : ¬PtBuf.Sized count) :
    subStr heap pb start count = .error .null := by
  simp only [subStr, Heap.get_eq live, ok_bind, if_neg part, newBuffer_unsized large, error_bind]

/-- What lies behind the block is not there to be read. -/
theorem subStr_outside {start count : ℕ} {block : List (Option UInt8)}
    (live : heap.object pb = some b) (there : b.buf = some block) (older : pb ≠ heap.next)
    (part : ¬ (start = 0 ∧ count = b.len)) (sized : PtBuf.Sized count)
    (outside : ¬(count = 0 ∨ start + count ≤ block.length)) :
    subStr heap pb start count = .error .outOfBounds := by
  have still : (heap.new (owned count)).object pb = some b := by
    rw [Heap.object_new_of_ne older, live]
  have counted : ({ blank count with zRef := (blank count).zRef + 1 } : Buffer) = owned count := rfl
  simp only [subStr, Heap.get_eq live, ok_bind, if_neg part, newBuffer_eq sized, ofBuffer_new, counted,
    Heap.get_eq still, PtBuf.loads_outside there outside, error_bind]

/-- What a call for a part has returned, if it has. -/
theorem subStr_returned {start count : ℕ} {block : List (Option UInt8)} {result : Buffers × ℕ}
    (live : heap.object pb = some b) (there : b.buf = some block) (older : pb ≠ heap.next)
    (part : ¬ (start = 0 ∧ count = b.len)) (returned : subStr heap pb start count = .ok result) :
    result = (heap.new (sliced block start count), heap.next) := by
  by_cases sized : PtBuf.Sized count
  · by_cases inside : count = 0 ∨ start + count ≤ block.length
    · cases (subStr_part live there older part sized inside).symm.trans returned
      rfl
    · cases (subStr_outside live there older part sized inside).symm.trans returned
  · cases (subStr_unsized live part sized).symm.trans returned

private theorem sliced_formed {block : List (Option UInt8)} {start count : ℕ}
    (inside : count = 0 ∨ start + count ≤ block.length) : (sliced block start count).Formed := by
  refine ⟨⟨_, rfl, ?_⟩, Nat.zero_le _, PtBuf.le_bound⟩
  have length := length_slice inside
  have full := length_rest (s := (block.drop start).take count) (Nat.le_of_eq length)
  rw [length] at full
  rw [List.length_append, length, full]
  rfl

theorem subStr_made {start count : ℕ} (live : heap.object pb = some b) (fit : Fit b)
    (older : pb ≠ heap.next) (part : ¬ (start = 0 ∧ count = b.len)) (sized : PtBuf.Sized count)
    (inside : count = 0 ∨ start + count ≤ b.zMax + 1) : Made heap (subStr heap pb start count) [] := by
  obtain ⟨block, there, length⟩ := fit.block
  rw [← length] at inside
  exact ⟨sliced block start count, subStr_part live there older part sized inside, rfl,
    ⟨sliced_formed inside, sized_zero⟩, rfl⟩

private theorem set_mapped {α : Type} (f : α → α) {s c : List α} {i : ℕ} (read : i < s.length)
    (room : i < c.length) :
    ((s.take i).map f ++ c.drop i).set i (f s[i]) = (s.take (i + 1)).map f ++ c.drop (i + 1) := by
  have length : ((s.take i).map f).length = i := by
    rw [List.length_map, List.length_take, Nat.min_eq_left (by omega)]
  rw [List.set_append_right _ _ (by omega), length, Nat.sub_self, List.drop_eq_getElem_cons room,
    List.set_cons_zero, ← List.take_append_getElem read, List.map_append, List.append_assoc]
  rfl

private theorem upperLoop_new {block c : List (Option UInt8)} {d : Buffer} (older : pb ≠ heap.next)
    (live : heap.object pb = some b) (source : b.buf = some block) (target : d.buf = some c)
    (i : ℕ) (read : i ≤ block.length) (room : i ≤ c.length) :
    upperLoop (heap.new d) pb heap.next i =
      .ok (heap.new { d with
        buf := some ((block.take i).map (Option.map upperChar) ++ c.drop i) }) := by
  induction i with
  | zero =>
    obtain ⟨buf, len, tag, yMax, zMax, zRef⟩ := d
    cases target
    rfl
  | succ i ih =>
    have still (x : Buffer) : (heap.new x).object pb = some b := by
      rw [Heap.object_new_of_ne older, live]
    have at_ : block[i]? = some block[i] := List.getElem?_eq_getElem (by omega)
    have next := set_mapped (Option.map upperChar) (show i < block.length by omega)
      (show i < c.length by omega)
    simp only [upperLoop, ih (by omega) (by omega), ok_bind, Heap.get_eq (still _),
      PtBuf.load_eq source at_, Heap.get_eq Heap.object_new_self]
    rw [PtBuf.store_eq rfl (by simp; omega), ok_bind, Heap.put_eq Heap.object_new_self,
      Heap.set_new, next]

/-- `Upper` on a shared buffer: its own buffer, and one reference less to the
old one. -/
theorem upper_shared (live : heap.object pb = some b) (fit : Fit b) (older : pb ≠ heap.next)
    (shared : 2 ≤ b.zRef) :
    ∃ d : Buffer, upper heap pb = .ok ((heap.set pb { b with zRef := b.zRef - 1 }).new d, heap.next) ∧
      d.zRef = 1 ∧ Fit d ∧ d.value = b.value.map (Option.map upperChar) := by
  obtain ⟨⟨⟨block, there, size⟩, len, within⟩, sized⟩ := fit
  have bound : b.len ≤ b.len ||| 3 := PtBuf.le_bound
  have looped := upperLoop_new older live there (d := blank b.len) rfl b.len (by omega)
    (by simp; omega)
  have still (x : Buffer) : (heap.new x).object pb = some b := by
    rw [Heap.object_new_of_ne older, live]
  have newer : heap.next ≠ pb := older.symm
  have own (x : Buffer) : ((heap.set pb { b with zRef := b.zRef - 1 }).new x).object heap.next =
      some x := Heap.object_new_self
  have own_set (x y : Buffer) : ((heap.set pb { b with zRef := b.zRef - 1 }).new x).set heap.next y =
      (heap.set pb { b with zRef := b.zRef - 1 }).new y := Heap.set_new
  have dropped_ (x : Buffer) : dropped (heap.new x) pb b =
      (heap.set pb { b with zRef := b.zRef - 1 }).new x := by
    rw [dropped, if_neg (by omega), Heap.new_set_comm older]
  refine ⟨⟨some ((block.take b.len).map (Option.map upperChar) ++
    (PtBuf.fresh b.len).drop b.len), b.len, 0, b.len, b.len ||| 3, 1⟩, ?_, rfl,
    ⟨⟨⟨_, rfl, ?_⟩, Nat.le_refl _, bound⟩, sized⟩, ?_⟩
  · simp only [upper, Heap.get_eq live, ok_bind, trySepNewSizeEmpty, if_neg (Nat.not_lt.mpr shared),
      newBuffer_eq sized, looped, Heap.get_eq Heap.object_new_self, Heap.put_eq Heap.object_new_self,
      Heap.set_new, trySepRefDecAndPtrSet, release_eq (still _) (by omega : 0 < b.zRef), dropped_,
      addRef_eq (own _), own_set, pure_eq]
    rfl
  · simp
    omega
  · simp only [PtBuf.value, there, Option.getD_some]
    exact List.take_left' (by simp; omega)

private theorem store_zRef {d : Buffer} {i : ℕ} {c : Option UInt8} (stored : b.store i c = .ok d) :
    d.zRef = b.zRef := by
  unfold PtBuf.store at stored
  split at stored
  · cases stored
  · split at stored <;> cases stored
    rfl

private theorem upperLoop_inPlace (live : heap.object pb = some b) (i : ℕ) {after : Buffers}
    (looped : upperLoop heap pb pb i = .ok after) :
    ∃ d, after.object pb = some d ∧ d.zRef = b.zRef := by
  induction i generalizing after with
  | zero =>
    cases looped
    exact ⟨b, live, rfl⟩
  | succ i ih =>
    cases before : upperLoop heap pb pb i with
    | error fault => simp [upperLoop, before, error_bind] at looped
    | ok middle =>
      obtain ⟨d, alive, same⟩ := ih before
      simp only [upperLoop, before, ok_bind, Heap.get_eq alive] at looped
      cases read : d.load i with
      | error fault => simp [read, error_bind] at looped
      | ok c =>
        simp only [read, ok_bind] at looped
        cases stored : d.store i (c.map upperChar) with
        | error fault => simp [stored, error_bind] at looped
        | ok e =>
          simp only [stored, ok_bind, Heap.put_eq alive] at looped
          cases looped
          exact ⟨e, Heap.object_set_self, (store_zRef stored).trans same⟩

/-- `Upper` on a buffer that nobody shares deletes it and then takes a
reference to it. -/
theorem upper_unshared (live : heap.object pb = some b) (alone : b.zRef = 1) :
    ∃ fault, upper heap pb = .error fault := by
  simp only [upper, Heap.get_eq live, ok_bind, trySepNewSizeEmpty,
    if_pos (show b.zRef < 2 by omega), pure_eq]
  cases looped : upperLoop heap pb pb b.len with
  | error fault => exact ⟨fault, rfl⟩
  | ok after =>
    obtain ⟨d, alive, same⟩ := upperLoop_inPlace live b.len looped
    have last : ({ d with len := b.len } : Buffer).zRef = 1 := same.trans alone
    have released : release (after.set pb { d with len := b.len }) pb = .ok (after.remove pb) := by
      rw [release_eq Heap.object_set_self (last ▸ Nat.one_pos), dropped, if_pos last,
        Heap.remove_set]
    have dangling : addRef (after.remove pb) pb = .error .dangling := by
      unfold addRef
      rw [Heap.get_dangling Heap.object_remove_self]
      rfl
    simp only [ok_bind, Heap.get_eq alive, Heap.put_eq alive, trySepRefDecAndPtrSet, released,
      dangling]
    exact ⟨.dangling, rfl⟩

end Prot.Struct.String
