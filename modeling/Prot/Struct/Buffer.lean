import Prot.Memory.Heap
import Mathlib.Data.Nat.Bitwise
import Mathlib.Data.List.Basic

/-! `buffer.hh`: a block of elements with its sizes and its reference count.
Allocation succeeds, so every size is a number of elements that exist. -/

namespace Prot.Struct

open Memory

universe u

/-- `_PtBuf<_ELE, _FLAG>` with bit 0 of `_FLAG` set. `buf` is `none` where the
pointer is null; an element that nothing has been written to is `none`. -/
structure PtBuf (α : Type u) where
  buf : Option (List (Option α))
  len : ℕ
  tag : ℕ
  yMax : ℕ
  zMax : ℕ
  zRef : ℕ
  deriving DecidableEq, Repr

namespace PtBuf

variable {α : Type u} {b : PtBuf α} {block : List (Option α)} {i cnt : ℕ} {x : Option α}

def store (b : PtBuf α) (i : ℕ) (x : Option α) : Except Fault (PtBuf α) :=
  match b.buf with
  | none => .error .null
  | some block =>
    if i < block.length then .ok { b with buf := some (block.set i x) } else .error .outOfBounds

/-- `buf[i]`; where nothing has been written, the value is indeterminate. -/
def load (b : PtBuf α) (i : ℕ) : Except Fault (Option α) :=
  match b.buf with
  | none => .error .null
  | some block =>
    match block[i]? with
    | some x => .ok x
    | none => .error .outOfBounds

/-- The elements that `Memory::Copy` reads from `&buf[start]`; no elements are read from
anywhere. -/
def loads (b : PtBuf α) (start count : ℕ) : Except Fault (List (Option α)) :=
  match b.buf with
  | none => .error .null
  | some block =>
    if count = 0 ∨ start + count ≤ block.length then .ok ((block.drop start).take count)
    else .error .outOfBounds

def copy (b : PtBuf α) (s : List (Option α)) : Except Fault (PtBuf α) :=
  match b.buf with
  | none => .error .null
  | some block =>
    if s.length ≤ block.length then .ok { b with buf := some (s ++ block.drop s.length) }
    else .error .outOfBounds

/-- `_Alloc(z_max + 1)`; where the sum wraps to 0, `Memory::Alloc` returns null. -/
def alloc (zMax : ℕ) : Option (List (Option α)) :=
  if zMax + 1 < 2 ^ 64 then some (List.replicate (zMax + 1) none) else none

/-- `_Init(_Cnt)`. -/
def init [Zero α] (cnt : ℕ) : Except Fault (PtBuf α) := do
  let zMax := cnt ||| 3
  let b : PtBuf α := ⟨alloc zMax, 0, 0, 0, zMax, 0⟩
  let b ← b.store cnt (some 0)
  return { b with yMax := cnt }

def value (b : PtBuf α) : List (Option α) := (b.buf.getD []).take b.len

/-- The block is there, with room for `zMax` elements and a terminator. -/
structure Formed (b : PtBuf α) : Prop where
  block : ∃ block, b.buf = some block ∧ block.length = b.zMax + 1
  len : b.len ≤ b.yMax
  size : b.yMax ≤ b.zMax

theorem store_eq (there : b.buf = some block) (inside : i < block.length) :
    b.store i x = .ok { b with buf := some (block.set i x) } := by
  unfold store
  rw [there]
  exact if_pos inside

theorem load_eq (there : b.buf = some block) (at_ : block[i]? = some x) : b.load i = .ok x := by
  simp only [load, there, at_]

theorem loads_eq {start count : ℕ} (there : b.buf = some block)
    (inside : count = 0 ∨ start + count ≤ block.length) :
    b.loads start count = .ok ((block.drop start).take count) := by
  unfold loads
  rw [there]
  exact if_pos inside

theorem loads_outside {start count : ℕ} (there : b.buf = some block)
    (outside : ¬(count = 0 ∨ start + count ≤ block.length)) :
    b.loads start count = .error .outOfBounds := by
  unfold loads
  rw [there]
  exact if_neg outside

theorem copy_eq {s : List (Option α)} (there : b.buf = some block)
    (fits : s.length ≤ block.length) :
    b.copy s = .ok { b with buf := some (s ++ block.drop s.length) } := by
  unfold copy
  rw [there]
  exact if_pos fits

def fresh [Zero α] (cnt : ℕ) : List (Option α) :=
  (List.replicate ((cnt ||| 3) + 1) none).set cnt (some 0)

@[simp] theorem length_fresh [Zero α] : (fresh cnt : List (Option α)).length = (cnt ||| 3) + 1 := by
  simp [fresh]

theorem le_bound : cnt ≤ cnt ||| 3 := Nat.left_le_or

/-- A size whose `z_max + 1` does not wrap: all but the last four of `Size`. -/
def Sized (cnt : ℕ) : Prop := (cnt ||| 3) + 1 < 2 ^ 64

instance (cnt : ℕ) : Decidable (Sized cnt) := inferInstanceAs (Decidable (_ < _))

theorem sized_of_lt (below : cnt < 2 ^ 63) : Sized cnt := by
  have half : cnt ||| 3 < 2 ^ 63 := Nat.or_lt_two_pow below (by decide)
  unfold Sized
  omega

theorem init_eq [Zero α] (sized : Sized cnt) :
    (init cnt : Except Fault (PtBuf α)) = .ok ⟨some (fresh cnt), 0, 0, cnt, cnt ||| 3, 0⟩ := by
  have inside : cnt < (List.replicate ((cnt ||| 3) + 1) (none : Option α)).length := by
    rw [List.length_replicate]
    exact Nat.lt_succ_of_le le_bound
  have room : (cnt ||| 3) + 1 < 2 ^ 64 := sized
  simp only [init, alloc]
  rw [if_pos room, store_eq rfl inside]
  rfl

theorem init_unsized [Zero α] (large : ¬Sized cnt) :
    (init cnt : Except Fault (PtBuf α)) = .error .null := by
  have wraps : ¬(cnt ||| 3) + 1 < 2 ^ 64 := large
  simp only [init, alloc]
  rw [if_neg wraps]
  rfl

/-- A buffer whose first elements have been written, and `len` set to match. -/
theorem value_of_copy {s rest : List (Option α)} {tag yMax zMax zRef : ℕ} :
    (⟨some (s ++ rest), s.length, tag, yMax, zMax, zRef⟩ : PtBuf α).value = s := by
  simp [value]

end PtBuf

end Prot.Struct
