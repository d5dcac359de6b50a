import Prot.Struct.StringMembers

/-! `SubStr` and the slices. The buffer it makes for a part of a string holds the
characters, but says that it has none. -/

namespace Prot.Struct.String

open Memory

variable {heap heap' : Buffers} {pb start count k : ℕ} {b : Buffer}

/-- What `SubStr(start, count)` is to return: a string of these characters with a
zero behind them; of the source only the references have changed. -/
structure Slice (heap' : Buffers) (pb s : ℕ) (b : Buffer) (start count : ℕ) : Prop where
  slice : ∃ d, heap'.object s = some d ∧ d.len = count ∧
    d.value = (b.value.drop start).take count ∧ d.load d.len = .ok (some 0)
  source : ∃ zRef, heap'.object pb = some { b with zRef }

/-- `SubStr(start, count)` returns the slice. -/
def SubStrRight (heap : Buffers) (pb : ℕ) (b : Buffer) (start count : ℕ) : Prop :=
  ∃ heap' s, subStr heap pb start count = .ok (heap', s) ∧ Slice heap' pb s b start count

/-- `SubStr(0, k)` and `SubStr(k, Length() - k)` are the two parts of the string. -/
def JoinRight (heap : Buffers) (pb : ℕ) (b : Buffer) (k : ℕ) : Prop :=
  ∃ heap' s heap'' s' d d', subStr heap pb 0 k = .ok (heap', s) ∧
    subStr heap' pb k (b.len - k) = .ok (heap'', s') ∧
    heap''.object s = some d ∧ heap''.object s' = some d' ∧
    d.len + d'.len = b.len ∧ d.value ++ d'.value = b.value

private theorem subStr_right_whole (live : heap.object pb = some b) :
    SubStrRight heap pb b 0 b.len ↔ b.load b.len = .ok (some 0) := by
  have shared := subStr_whole 0 b.len live ⟨rfl, rfl⟩
  constructor
  · rintro ⟨heap', s, returned, right⟩
    cases shared.symm.trans returned
    obtain ⟨d, there, _, _, terminated⟩ := right.slice
    rw [Heap.object_set_self] at there
    cases there
    exact terminated
  · intro terminated
    refine ⟨_, _, shared, ⟨_, Heap.object_set_self, rfl, ?_, terminated⟩,
      ⟨_, Heap.object_set_self⟩⟩
    rw [List.drop_zero, PtBuf.value, PtBuf.value, List.take_take, Nat.min_self]

/-- A part is right if it is empty. -/
theorem subStr_right_part (live : heap.object pb = some b) (formed : b.Formed)
    (older : pb < heap.next) (part : ¬(start = 0 ∧ count = b.len)) :
    SubStrRight heap pb b start count ↔ count = 0 := by
  obtain ⟨block, there, _⟩ := formed.block
  constructor
  · rintro ⟨heap', s, returned, right⟩
    cases subStr_returned live there (Nat.ne_of_lt older) part returned
    obtain ⟨d, there, length, _⟩ := right.slice
    rw [Heap.object_new_self] at there
    cases there
    exact length.symm
  · rintro rfl
    have copied := subStr_part live there (Nat.ne_of_lt older) part sized_zero (.inl rfl)
    refine ⟨_, _, copied, ⟨_, Heap.object_new_self, rfl, ?_, rfl⟩, ⟨b.zRef, ?_⟩⟩
    · rw [List.take_zero]
      rfl
    · rw [Heap.object_new_of_ne (Nat.ne_of_lt older), live]

/-- Two parts that are not empty have no characters together. -/
theorem join_wrong (live : heap.object pb = some b) (formed : b.Formed) (older : pb < heap.next)
    (inner : 0 < k ∧ k < b.len) : ¬JoinRight heap pb b k := by
  rintro ⟨heap', s, heap'', s', d, d', first, second, there, there', lengths, _⟩
  obtain ⟨block, storage, _⟩ := formed.block
  cases subStr_returned live storage (Nat.ne_of_lt older) (by omega) first
  have still : (heap.new (sliced block 0 k)).object pb = some b := by
    rw [Heap.object_new_of_ne (Nat.ne_of_lt older), live]
  cases subStr_returned still storage (Nat.ne_of_lt (Nat.lt_succ_of_lt older)) (by omega) second
  rw [Heap.object_new_self] at there'
  rw [Heap.object_new_of_ne (Nat.ne_of_lt (Nat.lt_succ_self heap.next)), Heap.object_new_self]
    at there
  cases there
  cases there'
  have none_ : 0 + 0 = b.len := lengths
  omega

/-- Nothing and the whole string are the two parts of it. -/
theorem join_first (live : heap.object pb = some b) (formed : b.Formed) (older : pb < heap.next) :
    JoinRight heap pb b 0 := by
  by_cases none_ : b.len = 0
  · have whole := subStr_whole 0 0 live ⟨rfl, none_.symm⟩
    have held : (heap.set pb { b with zRef := b.zRef + 1 }).object pb =
        some { b with zRef := b.zRef + 1 } := Heap.object_set_self
    have again := subStr_whole 0 (b.len - 0) held ⟨rfl, rfl⟩
    refine ⟨_, _, _, _, _, _, whole, again, Heap.object_set_self, Heap.object_set_self, ?_, ?_⟩
    · simp only [none_]
    · simp [PtBuf.value, none_]
  · obtain ⟨block, storage, _⟩ := formed.block
    have copied : subStr heap pb 0 0 = .ok (heap.new (sliced block 0 0), heap.next) :=
      subStr_part live storage (Nat.ne_of_lt older) (fun whole => none_ whole.2.symm) sized_zero
        (.inl rfl)
    have still : (heap.new (sliced block 0 0)).object pb = some b := by
      rw [Heap.object_new_of_ne (Nat.ne_of_lt older), live]
    have whole := subStr_whole 0 (b.len - 0) still ⟨rfl, rfl⟩
    refine ⟨_, _, _, _, sliced block 0 0, _, copied, whole, ?_, Heap.object_set_self, ?_, ?_⟩
    · rw [Heap.object_set_of_ne (Nat.ne_of_gt older), Heap.object_new_self]
    · exact Nat.zero_add _
    · simp [PtBuf.value, sliced, owned, blank]

private theorem join_last (live : heap.object pb = some b) (formed : b.Formed)
    (older : pb < heap.next) :
    JoinRight heap pb b b.len := by
  by_cases none_ : b.len = 0
  · rw [none_]
    exact join_first live formed older
  · obtain ⟨block, storage, _⟩ := formed.block
    have whole := subStr_whole 0 b.len live ⟨rfl, rfl⟩
    have held : (heap.set pb { b with zRef := b.zRef + 1 }).object pb =
        some { b with zRef := b.zRef + 1 } := Heap.object_set_self
    have copied : subStr (heap.set pb { b with zRef := b.zRef + 1 }) pb b.len (b.len - b.len) =
        .ok ((heap.set pb { b with zRef := b.zRef + 1 }).new (sliced block b.len (b.len - b.len)),
          heap.next) := by
      rw [Nat.sub_self]
      exact subStr_part held storage (Nat.ne_of_lt older) (fun empty => none_ empty.1) sized_zero
        (.inl rfl)
    refine ⟨_, _, _, _, { b with zRef := b.zRef + 1 }, _, whole, copied, ?_, Heap.object_new_self,
      ?_, ?_⟩
    · rw [Heap.object_new_of_ne (show pb ≠ (heap.set pb _).next from Nat.ne_of_lt older),
        Heap.object_set_self]
    · exact Nat.add_zero _
    · simp [PtBuf.value, sliced, owned, blank]

/-- `SubStr` is right for the whole of a terminated string and for nothing of a
string that has characters; and two parts make the string if one of them is it. -/
theorem subStr_right_iff (heap : Buffers) (pb : ℕ) (b : Buffer) (live : heap.object pb = some b)
    (formed : b.Formed) (older : pb < heap.next) :
    (∀ start count, start ≤ b.len → count ≤ b.len - start →
      (SubStrRight heap pb b start count ↔
        (start = 0 ∧ count = b.len ∧ b.load b.len = .ok (some 0)) ∨ (count = 0 ∧ b.len ≠ 0))) ∧
      ∀ k ≤ b.len, JoinRight heap pb b k ↔ k = 0 ∨ k = b.len := by
  constructor
  · intro start count inside within
    by_cases whole : start = 0 ∧ count = b.len
    · obtain ⟨rfl, rfl⟩ := whole
      rw [subStr_right_whole live]
      constructor
      · exact fun terminated => .inl ⟨rfl, rfl, terminated⟩
      · rintro (⟨_, _, terminated⟩ | ⟨none_, some_⟩)
        · exact terminated
        · exact absurd none_ some_
    · rw [subStr_right_part live formed older whole]
      constructor
      · exact fun none_ => .inr ⟨none_, fun empty => whole (by omega)⟩
      · rintro (⟨first, all, _⟩ | ⟨none_, _⟩)
        · exact absurd ⟨first, all⟩ whole
        · exact none_
  · intro k within
    constructor
    · intro right
      by_contra inner
      exact join_wrong live formed older (by omega) right
    · rintro (rfl | rfl)
      · exact join_first live formed older
      · exact join_last live formed older

def hello : Buffer := ⟨some ([104, 101, 108, 108, 111, 0, 0, 0].map some), 5, 0, 5, 7, 1⟩

theorem subStr_right_hello : SubStrRight (Heap.empty.new hello) 0 hello 0 5 :=
  ((subStr_right_iff (Heap.empty.new hello) 0 hello rfl ⟨⟨_, rfl, rfl⟩, by decide, by decide⟩
    (by decide)).1 0 5 (by decide) (by decide)).mpr (.inl ⟨rfl, rfl, rfl⟩)

/-- "ell" is not what `SubStr(1, 3)` returns, nor are "h" and "ello" the two parts. -/
theorem subStr_hello_wrong : ¬SubStrRight (Heap.empty.new hello) 0 hello 1 3 ∧
    ¬JoinRight (Heap.empty.new hello) 0 hello 1 := by
  have formed : hello.Formed := ⟨⟨_, rfl, rfl⟩, by decide, by decide⟩
  constructor
  · rw [subStr_right_part rfl formed (by decide) (by decide)]
    decide
  · exact join_wrong rfl formed (by decide) (by decide)

end Prot.Struct.String
