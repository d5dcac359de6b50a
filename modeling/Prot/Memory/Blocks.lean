import Prot.Memory.Heap
import Mathlib.Data.List.Basic

/-! Blocks of bytes: `malloc`, `realloc` and `free`. An allocation never fails;
what a new block holds is left to the allocator. -/

namespace Prot.Memory

/-- The blocks behind the pointers that have been handed out; `none` is the null
pointer. -/
abbrev Blocks := Heap (List UInt8)

/-- What the language leaves to the allocator: the bytes of a new block, and
whether a request for no bytes is answered by a null pointer. -/
structure Allocator where
  junk : ℕ → ℕ → UInt8
  mallocNull : Bool
  reallocNull : Bool

namespace Allocator

variable (alloc : Allocator)

/-- The first `n` bytes of the block at `a`, before anything is written to it. -/
def fresh (a n : ℕ) : List UInt8 := (List.range n).map (alloc.junk a)

/-- The block at `a`, to which a block of other size has been moved. -/
def resized (a : ℕ) (block : List UInt8) (n : ℕ) : List UInt8 :=
  block.take n ++ (alloc.fresh a n).drop block.length

def malloc (heap : Blocks) (n : ℕ) : Blocks × Option ℕ :=
  if n = 0 ∧ alloc.mallocNull then (heap, none)
  else (heap.new (alloc.fresh heap.next n), some heap.next)

def realloc (heap : Blocks) (n : ℕ) : Option ℕ → Except Fault (Blocks × Option ℕ)
  | none => return alloc.malloc heap n
  | some a => do
    let block ← heap.get a
    let heap ← heap.delete a
    if n = 0 ∧ alloc.reallocNull then return (heap, none)
    else return (heap.new (alloc.resized heap.next block n), some heap.next)

variable {alloc} {a n : ℕ} {block : List UInt8}

@[simp] theorem length_fresh : (alloc.fresh a n).length = n := by
  simp [fresh]

theorem getElem?_fresh {k : ℕ} (inside : k < n) : (alloc.fresh a n)[k]? = some (alloc.junk a k) := by
  rw [fresh, List.getElem?_map, List.getElem?_range inside, Option.map_some]

@[simp] theorem resized_nil : alloc.resized a [] n = alloc.fresh a n := by
  simp [resized]

@[simp] theorem length_resized : (alloc.resized a block n).length = n := by
  simp [resized]
  omega

/-- Behind the bytes that were moved the allocator's own are seen. -/
theorem getElem?_resized {k : ℕ} (inside : k < n) : (alloc.resized a block n)[k]? =
    if k < block.length then block[k]? else some (alloc.junk a k) := by
  rw [resized]
  by_cases moved : k < block.length
  · rw [List.getElem?_append_left (by simp; omega), List.getElem?_take, if_pos inside, if_pos moved]
  · have short : (block.take n).length = block.length := by simp; omega
    rw [List.getElem?_append_right (by omega), short, List.getElem?_drop,
      Nat.add_sub_cancel' (Nat.not_lt.mp moved), if_neg moved, getElem?_fresh inside]

/-- A block that shrinks gets no new bytes. -/
theorem resized_of_le (shrinks : n ≤ block.length) : alloc.resized a block n = block.take n := by
  rw [resized, List.drop_eq_nil_of_le (by simpa using shrinks), List.append_nil]

end Allocator

def free (heap : Blocks) : Option ℕ → Except Fault Blocks
  | none => return heap
  | some a => heap.delete a

/-- A block with some bytes written from `start` on. -/
def written (block : List UInt8) (start : ℕ) (bytes : List UInt8) : List UInt8 :=
  block.take start ++ bytes ++ block.drop (start + bytes.length)

/-- Write bytes into the block behind a pointer. -/
def overwrite (heap : Blocks) (ptr : Option ℕ) (start : ℕ) (bytes : List UInt8) :
    Except Fault Blocks :=
  match ptr with
  | none => .error .null
  | some a => do
    let block ← heap.get a
    if start + bytes.length ≤ block.length then heap.put a (written block start bytes)
    else .error .outOfBounds

section Written

variable {block bytes : List UInt8} {start n m : ℕ}

theorem length_written (inside : start + bytes.length ≤ block.length) :
    (written block start bytes).length = block.length := by
  simp only [written, List.length_append, List.length_take, List.length_drop]
  omega

/-- The bytes of it: the written ones and, around them, those that stood there. -/
theorem getElem?_written {k : ℕ} (inside : start + bytes.length ≤ block.length) :
    (written block start bytes)[k]? =
      if start ≤ k ∧ k < start + bytes.length then bytes[k - start]? else block[k]? := by
  have long : (block.take start).length = start := List.length_take_of_le (by omega)
  rw [written, List.append_assoc]
  by_cases before : k < start
  · rw [List.getElem?_append_left (by omega), List.getElem?_take_of_lt before, if_neg (by omega)]
  · rw [List.getElem?_append_right (by omega), long]
    by_cases there : k < start + bytes.length
    · rw [List.getElem?_append_left (by omega), if_pos ⟨by omega, there⟩]
    · rw [List.getElem?_append_right (by omega), List.getElem?_drop, if_neg (by omega)]
      congr 1
      omega

/-- What stands behind the written bytes is kept. -/
theorem drop_written (inside : start + bytes.length ≤ block.length)
    (behind : start + bytes.length ≤ m) :
    (written block start bytes).drop m = block.drop m := by
  have long : (block.take start ++ bytes).length = start + bytes.length := by
    rw [List.length_append, List.length_take_of_le (by omega)]
  rw [written, List.drop_append, List.drop_eq_nil_of_le (by omega), List.nil_append, List.drop_drop]
  congr 1
  omega

theorem slice_written (inside : start + bytes.length ≤ block.length) :
    ((written block start bytes).drop start).take bytes.length = bytes := by
  have long : (block.take start).length = start := List.length_take_of_le (by omega)
  rw [written, List.append_assoc, List.drop_left' long]
  exact List.take_left' rfl

end Written

namespace Heap

variable {heap heap' heap'' : Blocks} {ptr ptr' : Option ℕ} {old block : List UInt8} {a n : ℕ}
variable {alloc : Allocator}

/-- The pointer is null and there is nothing behind it, or it points to a live
block of these bytes. -/
def Holds (heap : Blocks) (ptr : Option ℕ) (block : List UInt8) : Prop :=
  match ptr with
  | none => block = []
  | some a => heap.object a = some block

/-- Only what is behind this pointer has changed, and what is new. -/
structure Frame (heap heap' : Blocks) (ptr : Option ℕ) : Prop where
  next : heap.next ≤ heap'.next
  other : ∀ a, a < heap.next → ptr ≠ some a → heap'.object a = heap.object a

theorem Frame.refl : Frame heap heap ptr := ⟨Nat.le_refl _, fun _ _ _ => rfl⟩

/-- A block of one's own is moved on. -/
theorem Frame.trans (first : Frame heap heap' ptr) (second : Frame heap' heap'' ptr')
    (own : ∀ a, ptr' = some a → ptr = some a ∨ heap.next ≤ a) : Frame heap heap'' ptr where
  next := Nat.le_trans first.next second.next
  other a old away := by
    rw [second.other a (Nat.lt_of_lt_of_le old first.next), first.other a old away]
    intro same
    rcases own a same with same | new
    · exact away same
    · omega

theorem frame_new : Frame heap (heap.new block) ptr where
  next := Nat.le_succ _
  other _ old _ := object_new_of_ne (Nat.ne_of_lt old)

theorem frame_remove : Frame heap (heap.remove a) (some a) where
  next := Nat.le_refl _
  other _ _ away := object_remove_of_ne fun same => away (congrArg some same.symm)

theorem frame_set : Frame heap (heap.set a block) (some a) where
  next := Nat.le_refl _
  other _ _ away := object_set_of_ne fun same => away (congrArg some same.symm)

/-- What `realloc` returns. -/
structure Realloced (alloc : Allocator) (heap heap' : Blocks) (ptr ptr' : Option ℕ)
    (old : List UInt8) (n : ℕ) : Prop where
  holds : heap'.Holds ptr' (alloc.resized heap.next old n)
  new : ptr' = some heap.next ∨ ptr' = none ∧ n = 0
  frame : Frame heap heap' ptr
  below : ∀ a, ptr' = some a → a < heap'.next

private theorem malloc_realloced :
    Realloced alloc heap (alloc.malloc heap n).1 none (alloc.malloc heap n).2 [] n := by
  unfold Allocator.malloc
  split
  · rename_i none_
    refine ⟨?_, .inr ⟨rfl, none_.1⟩, .refl, nofun⟩
    rw [Holds, none_.1]
    rfl
  · refine ⟨?_, .inl rfl, frame_new, ?_⟩
    · rw [Holds, Allocator.resized_nil, object_new_self]
    · intro a same
      cases same
      exact Nat.lt_succ_self _

/-- `realloc` succeeds on a null pointer and on a live block. -/
theorem realloc_realloced (alloc : Allocator) (holds : heap.Holds ptr old) (n : ℕ) :
    ∃ heap' ptr', alloc.realloc heap n ptr = .ok (heap', ptr') ∧
      Realloced alloc heap heap' ptr ptr' old n := by
  cases ptr with
  | none =>
    obtain rfl : old = [] := holds
    exact ⟨_, _, rfl, malloc_realloced⟩
  | some a =>
    have live : heap.object a = some old := holds
    simp only [Allocator.realloc, get_eq live, delete_eq live, ok_bind, pure_eq]
    by_cases none_ : n = 0 ∧ alloc.reallocNull
    · refine ⟨heap.remove a, none, if_pos none_, ?_, .inr ⟨rfl, none_.1⟩, frame_remove, nofun⟩
      rw [Holds, none_.1]
      exact List.eq_nil_of_length_eq_zero Allocator.length_resized
    · refine ⟨_, some heap.next, if_neg none_, ?_, .inl rfl, ?_, ?_⟩
      · exact object_new_self
      · exact frame_remove.trans (frame_new : Frame _ _ none) nofun
      · intro b same
        cases same
        exact Nat.lt_succ_self _

theorem overwrite_eq {bytes : List UInt8} {start : ℕ} (live : heap.object a = some block)
    (inside : start + bytes.length ≤ block.length) :
    overwrite heap (some a) start bytes = .ok (heap.set a (written block start bytes)) := by
  simp only [overwrite, get_eq live, ok_bind, if_pos inside, put_eq live]

theorem free_ok (holds : heap.Holds ptr old) :
    ∃ heap', free heap ptr = .ok heap' ∧ Frame heap heap' ptr := by
  cases ptr with
  | none => exact ⟨heap, rfl, .refl⟩
  | some a => exact ⟨heap.remove a, delete_eq holds, frame_remove⟩

end Heap

end Prot.Memory
