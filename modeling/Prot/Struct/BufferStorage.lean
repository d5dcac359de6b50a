import Prot.Base.Allocate
import Prot.Base.Bitops

/-! `buffer.hh` down to the bytes: every instance of the template `_PtBuf`, with
its storage on the heap of `malloc` and 64-bit sizes. -/

namespace Prot.Struct

open Memory Base

/-- `_ELE` and `_FLAG`: the size of an element and the bits of the flag. Bit 1
says how a zero is written, not what is written. -/
structure Instance where
  size : UInt64
  flag : Int32
  positive : 0 < size.toNat

/-- Bit 0 of `_FLAG`: fill the last element. -/
def Instance.fills (i : Instance) : Bool := i.flag &&& 1 ≠ 0

/-- `typedef _PtBuf<Char, 1> Buffer`. -/
def Instance.buffer : Instance := ⟨1, 1, by decide⟩

/-- `typedef _PtBuf<WChar, 1> WCharBuffer`. -/
def Instance.wCharBuffer : Instance := ⟨2, 1, by decide⟩

/-- The fields of a `_PtBuf`. -/
structure Storage where
  buf : Option ℕ
  len : UInt64
  tag : UInt64
  yMax : UInt64
  zMax : UInt64
  zRef : UInt64
  deriving DecidableEq, Repr

namespace Storage

def free (heap : Blocks) (b : Storage) : Except Fault (Blocks × Storage) := do
  let heap ← Memory.free heap b.buf
  return (heap, { b with buf := none })

def alloc (a : Allocator) (i : Instance) (heap : Blocks) (b : Storage) (cnt : UInt64) :
    Blocks × Storage :=
  let (heap, buf) := Base.alloc a heap (cnt * i.size)
  (heap, { b with buf := buf })

def reAlloc (a : Allocator) (i : Instance) (heap : Blocks) (b : Storage) (new cpy : UInt64) :
    Except Fault (Blocks × Storage) := do
  let (heap, buf) ← reloc a heap b.buf (new * i.size) (cpy * i.size)
  return (heap, { b with buf := buf })

def zend (i : Instance) (heap : Blocks) (b : Storage) (idx : UInt64) : Except Fault Blocks :=
  fill heap b.buf (idx.toNat * i.size.toNat) i.size.toNat 0

/-- `_Init(_Cnt)` on an object whose fields hold whatever they held before. -/
def init (a : Allocator) (i : Instance) (heap : Blocks) (b : Storage) (cnt : UInt64) :
    Except Fault (Blocks × Storage) := do
  let b := { b with len := 0, zRef := 0, tag := 0 }
  if i.fills then
    let b := { b with zMax := cnt ||| 3 }
    let (heap, b) := alloc a i heap b (b.zMax + 1)
    let heap ← zend i heap b cnt
    return (heap, { b with yMax := cnt })
  else
    let b := { b with zMax := Bits.alignUp cnt 4 }
    let (heap, b) := if b.zMax ≠ 0 then alloc a i heap b b.zMax else (heap, b)
    return (heap, { b with yMax := cnt })

/-- `Resize(new_size)` with bit 0 of `_FLAG` set. -/
def resizeFilled (a : Allocator) (i : Instance) (heap : Blocks) (b : Storage) (newSize : UInt64) :
    Except Fault (Blocks × Storage) :=
  if newSize ≤ b.zMax then
    if newSize = b.yMax then return (heap, b)
    else do
      let b := { b with yMax := newSize }
      let (heap, b) ←
        if newSize + newSize < b.zMax then
          if newSize = 0 then
            if 15 < b.zMax then reAlloc a i heap { b with zMax := 3 } 4 0
            else pure (heap, b)
          else
            let b := { b with zMax := newSize ||| 3 }
            reAlloc a i heap b (b.zMax + 1) newSize
        else pure (heap, b)
      let heap ← zend i heap b newSize
      return (heap, b)
  else do
    let b := { b with zMax := newSize ||| 3 }
    let (heap, b) ← reAlloc a i heap b (b.zMax + 1) b.yMax
    let b := { b with yMax := newSize }
    let heap ← zend i heap b newSize
    return (heap, b)

/-- `Resize(new_size)` with bit 0 of `_FLAG` clear. -/
def resizePlain (a : Allocator) (i : Instance) (heap : Blocks) (b : Storage) (newSize : UInt64) :
    Except Fault (Blocks × Storage) :=
  if newSize ≤ b.zMax then
    if newSize = b.yMax then return (heap, b)
    else
      let b := { b with yMax := newSize }
      if newSize + newSize < b.zMax then
        if newSize = 0 then
          if 8 < b.zMax then free heap { b with zMax := 0 }
          else return (heap, b)
        else
          let b := { b with zMax := Bits.alignUp newSize 4 }
          reAlloc a i heap b b.zMax newSize
      else return (heap, b)
  else do
    let b := { b with zMax := Bits.alignUp newSize 4 }
    let (heap, b) ← reAlloc a i heap b b.zMax b.yMax
    return (heap, { b with yMax := newSize })

def resize (a : Allocator) (i : Instance) (heap : Blocks) (b : Storage) (newSize : UInt64) :
    Except Fault (Blocks × Storage) :=
  if i.fills then resizeFilled a i heap b newSize else resizePlain a i heap b newSize

def destroy (heap : Blocks) (b : Storage) : Except Fault (Blocks × Storage) :=
  let b := { b with zMax := 0, yMax := 0 }
  if b.buf.isSome then free heap b else return (heap, b)

/-- `_PtBuf(const _PtBuf& other)`. -/
def ofOther (a : Allocator) (i : Instance) (heap : Blocks) (before other : Storage) :
    Except Fault (Blocks × Storage) := do
  let (heap, b) ← init a i heap before other.yMax
  let b := { b with len := other.len, tag := other.tag }
  let heap ← copy heap b.buf other.buf b.len
  return (heap, b)

/-- `operator=(const _PtBuf& other)` for another object. -/
def assign (a : Allocator) (i : Instance) (heap : Blocks) (b other : Storage) :
    Except Fault (Blocks × Storage) := do
  let (heap, b) ← resize a i heap b other.yMax
  return (heap, { b with zRef := 0, len := other.len, tag := other.tag })

/-- `if (idx < Buf_Size()) buf[idx] = x;` for the bytes of an element. -/
def store (i : Instance) (heap : Blocks) (b : Storage) (idx : UInt64) (x : Fin i.size.toNat → UInt8) :
    Except Fault Blocks :=
  if idx < b.yMax then overwrite heap b.buf (idx.toNat * i.size.toNat) (List.ofFn x) else return heap

/-- The bytes of the element at `idx` of a block. -/
def element (i : Instance) (block : List UInt8) (idx : ℕ) : List UInt8 :=
  (block.drop (idx * i.size.toNat)).take i.size.toNat

/-- `buf[idx]`. -/
def load (i : Instance) (heap : Blocks) (b : Storage) (idx : ℕ) : Except Fault (List UInt8) :=
  match b.buf with
  | none => .error .null
  | some p => do
    let block ← heap.get p
    if (idx + 1) * i.size.toNat ≤ block.length then return element i block idx
    else .error .outOfBounds

inductive Op (i : Instance) where
  | resize (n : UInt64)
  | destroy
  | store (idx : UInt64) (x : Fin i.size.toNat → UInt8)

def step (a : Allocator) (i : Instance) (s : Blocks × Storage) :
    Op i → Except Fault (Blocks × Storage)
  | .resize n => resize a i s.1 s.2 n
  | .destroy => destroy s.1 s.2
  | .store idx x => do
    let heap ← store i s.1 s.2 idx x
    return (heap, s.2)

def run (a : Allocator) (i : Instance) (s : Blocks × Storage) :
    List (Op i) → Except Fault (Blocks × Storage)
  | [] => return s
  | op :: ops => do
    let s ← step a i s op
    run a i s ops

variable {a : Allocator} {i : Instance} {heap heap' : Blocks} {b : Storage}
variable {p idx m : ℕ} {block block' old : List UInt8} {n : UInt64}

/-- What every permitted step keeps, every run of them keeps; and the run ends
without a fault. -/
theorem run_keeps {P : Blocks × Storage → Prop} {permitted : Op i → Prop}
    (keeps : ∀ s op, P s → permitted op → ∃ s', step a i s op = .ok s' ∧ P s')
    (ops : List (Op i)) (all : ∀ op ∈ ops, permitted op) {s : Blocks × Storage} (start : P s) :
    ∃ s', run a i s ops = .ok s' ∧ P s' := by
  induction ops generalizing s with
  | nil => exact ⟨s, rfl, start⟩
  | cons op ops ih =>
    obtain ⟨middle, stepped, kept⟩ := keeps s op start (all op List.mem_cons_self)
    obtain ⟨last, ran, held⟩ := ih (fun op later => all op (List.mem_cons_of_mem _ later)) kept
    exact ⟨last, by rw [run, stepped, ok_bind, ran], held⟩

theorem toNat_scaled (fits : n.toNat * i.size.toNat < 2 ^ 64) :
    (n * i.size).toNat = n.toNat * i.size.toNat := by
  rw [UInt64.toNat_mul, Nat.mod_eq_of_lt fits]

theorem getElem?_element {k : ℕ} (below : k < i.size.toNat) :
    (element i block idx)[k]? = block[idx * i.size.toNat + k]? := by
  rw [element, List.getElem?_take_of_lt below, List.getElem?_drop]

/-- Two blocks that agree on the bytes below have the same elements there. -/
theorem element_congr (same : ∀ k < m * i.size.toNat, block'[k]? = block[k]?) (below : idx < m) :
    element i block' idx = element i block idx := by
  refine List.ext_getElem? fun k => ?_
  have enough : (idx + 1) * i.size.toNat ≤ m * i.size.toNat := Nat.mul_le_mul_right _ below
  rw [Nat.add_mul, Nat.one_mul] at enough
  by_cases inside : k < i.size.toNat
  · rw [getElem?_element inside, getElem?_element inside, same _ (by omega)]
  · rw [element, element, List.getElem?_take, List.getElem?_take, if_neg inside, if_neg inside]

/-- And two blocks with the same elements agree on their bytes. -/
theorem bytes_congr (same : ∀ idx < m, element i block' idx = element i block idx) {k : ℕ}
    (below : k < m * i.size.toNat) : block'[k]? = block[k]? := by
  have inside : k % i.size.toNat < i.size.toNat := Nat.mod_lt _ i.positive
  have split : k / i.size.toNat * i.size.toNat + k % i.size.toNat = k := Nat.div_add_mod' ..
  have bytes := congrArg (·[k % i.size.toNat]?) (same (k / i.size.toNat) (Nat.div_lt_of_lt_mul (by
    rwa [Nat.mul_comm])))
  simpa only [getElem?_element inside, split] using bytes

theorem load_eq (buf : b.buf = some p) (live : heap.object p = some block)
    (inside : (idx + 1) * i.size.toNat ≤ block.length) :
    load i heap b idx = .ok (element i block idx) := by
  simp only [load, buf, Heap.get_eq live, ok_bind, if_pos inside, pure_eq]

/-- The bytes behind the pointer. -/
def contents (heap : Blocks) (b : Storage) : List UInt8 :=
  match b.buf with
  | none => []
  | some p => (heap.object p).getD []

theorem contents_eq (buf : b.buf = some p) (live : heap.object p = some block) :
    contents heap b = block := by
  simp only [contents, buf, live, Option.getD_some]

/-- A buffer's own block is what it holds. -/
theorem holds_unique (buf : b.buf = some p) (holds : heap.Holds b.buf old)
    (live : heap.object p = some block) : block = old := by
  rw [buf] at holds
  exact Option.some.inj (live.symm.trans holds)

/-- A write that is not made behind the elements. -/
theorem store_skipped {x : Fin i.size.toNat → UInt8} {idx : UInt64} (outside : ¬idx < b.yMax) :
    store i heap b idx x = .ok heap := if_neg outside

/-- The write to an element changes its block and nothing else. -/
theorem store_eq {x : Fin i.size.toNat → UInt8} {idx : UInt64} (below : idx < b.yMax)
    (buf : b.buf = some p) (live : heap.object p = some block)
    (inside : b.yMax.toNat * i.size.toNat ≤ block.length) :
    store i heap b idx x =
        .ok (heap.set p (written block (idx.toNat * i.size.toNat) (List.ofFn x))) ∧
      idx.toNat * i.size.toNat + (List.ofFn x).length ≤ b.yMax.toNat * i.size.toNat := by
  have enough : (idx.toNat + 1) * i.size.toNat ≤ b.yMax.toNat * i.size.toNat :=
    Nat.mul_le_mul_right _ (UInt64.lt_iff_toNat_lt.mp below)
  rw [Nat.add_mul, Nat.one_mul] at enough
  have within : idx.toNat * i.size.toNat + (List.ofFn x).length ≤ b.yMax.toNat * i.size.toNat := by
    rwa [List.length_ofFn]
  refine ⟨?_, within⟩
  rw [store, if_pos below, buf]
  exact Heap.overwrite_eq live (Nat.le_trans within inside)

/-- `Destroy` on a null pointer and on a live block. -/
theorem destroy_eq (holds : heap.Holds b.buf old) : ∃ heap',
    destroy heap b = .ok (heap', { b with zMax := 0, yMax := 0, buf := none }) ∧
      Heap.Frame heap heap' b.buf := by
  obtain ⟨heap', freed, frame⟩ := Heap.free_ok holds
  cases buf : b.buf with
  | none => exact ⟨heap, by simp [destroy, buf, pure_eq], .refl⟩
  | some p =>
    refine ⟨heap', ?_, buf ▸ frame⟩
    simp only [destroy, Storage.free, buf, Option.isSome_some, if_pos]
    rw [buf] at freed
    rw [freed]
    rfl

end Storage

end Prot.Struct
