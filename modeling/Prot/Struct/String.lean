import Prot.Struct.Buffer
import Mathlib.Data.UInt

/-! `string.hh`: each member of `String` as a function of the buffers on the
heap and of `_pb`. A returned pair is the heap and the `_pb` afterwards. -/

namespace Prot.Struct

open Memory

abbrev Buffer := PtBuf UInt8

abbrev Buffers := Heap Buffer

namespace String

def newBuffer (heap : Buffers) (size : ℕ) : Except Fault (Buffers × ℕ) := do
  let b ← PtBuf.init size
  return (heap.new b, heap.next)

def addRef (heap : Buffers) (pb : ℕ) : Except Fault Buffers := do
  let b ← heap.get pb
  heap.put pb { b with zRef := b.zRef + 1 }

def decRef (heap : Buffers) (pb : ℕ) : Except Fault (Buffers × ℕ) := do
  let b ← heap.get pb
  let heap ← heap.put pb { b with zRef := b.zRef - 1 }
  return (heap, b.zRef - 1)

/-- `if (!_pb->DecRef()) delete _pb;` -/
def release (heap : Buffers) (pb : ℕ) : Except Fault Buffers := do
  let (heap, ref) ← decRef heap pb
  if ref = 0 then heap.delete pb else return heap

def destroy (heap : Buffers) (pb : ℕ) : Except Fault Buffers :=
  release heap pb

def empty (heap : Buffers) : Except Fault (Buffers × ℕ) := do
  let (heap, pb) ← newBuffer heap 0
  let heap ← addRef heap pb
  return (heap, pb)

/-- `String(const Byte* s, Size l)` for the `l` bytes of `s`. -/
def ofBytes (heap : Buffers) (s : List UInt8) : Except Fault (Buffers × ℕ) := do
  let (heap, pb) ← newBuffer heap s.length
  let heap ← addRef heap pb
  if s.length ≠ 0 then
    let b ← heap.get pb
    let b ← b.copy (s.map some)
    let heap ← heap.put pb { b with len := s.length }
    return (heap, pb)
  else return (heap, pb)

/-- `String(const Char* s)`; `strlen` stops at the first zero. -/
def ofText (heap : Buffers) (s : List UInt8) : Except Fault (Buffers × ℕ) :=
  ofBytes heap (s.takeWhile (· ≠ 0))

def fill (heap : Buffers) (c : UInt8) (l : ℕ) : Except Fault (Buffers × ℕ) := do
  let (heap, pb) ← newBuffer heap l
  let heap ← addRef heap pb
  if l ≠ 0 then
    let b ← heap.get pb
    let b ← b.copy (List.replicate l (some c))
    let heap ← heap.put pb { b with len := l }
    return (heap, pb)
  else return (heap, pb)

/-- `String(const String& s)` for the `_pb` of `s`. -/
def ofString (heap : Buffers) (pb : ℕ) : Except Fault (Buffers × ℕ) := do
  let heap ← addRef heap pb
  return (heap, pb)

def ofBuffer (heap : Buffers) (buf : ℕ) : Except Fault (Buffers × ℕ) := do
  let heap ← addRef heap buf
  return (heap, buf)

def assign (heap : Buffers) (pb other : ℕ) : Except Fault (Buffers × ℕ) :=
  if pb = other then return (heap, pb)
  else do
    let heap ← release heap pb
    let heap ← addRef heap other
    return (heap, other)

/-- `ch_cmap`, with the zero that ends it. -/
def chCmap : List UInt8 :=
  "0123456789ABCDEFGHIJKLMNOPQRSTUVWXYZ".toList.map (fun c => UInt8.ofNat c.toNat) ++ [0]

def readCmap (i : Int64) : Except Fault UInt8 :=
  if 0 ≤ i then
    match chCmap[i.toNatClampNeg]? with
    | some c => .ok c
    | none => .error .outOfBounds
  else .error .outOfBounds

/-- The `do` loop of `FromInt` with `room` characters left in `buf`; what it
writes, least significant digit first. -/
def digits (rdx : Int64) : ℕ → Int64 → Except Fault (List UInt8)
  | 0, _ => .error .outOfBounds
  | room + 1, num => do
    let digit ← readCmap (num % rdx)
    let num := num / rdx
    if num = 0 then return [digit]
    else
      let rest ← digits rdx room num
      return digit :: rest

/-- What `FromInt` has written to `Char buf[80]` before it copies it out. -/
def scratch (num : Int64) (rdx : UInt8) : Except Fault (List UInt8) := do
  let neg := decide (num < 0)
  let num := if neg then -num else num
  let buf ← digits (Int64.ofNat rdx.toNat) 80 num
  if neg then
    if buf.length < 80 then return buf ++ [45] else .error .outOfBounds
  else return buf

/-- `FromInt(num, rdx)`; the returned `String` is built in place. -/
def fromInt (heap : Buffers) (num : Int64) (rdx : UInt8) : Except Fault (Buffers × ℕ) :=
  if 1 < rdx ∧ rdx < 37 then do
    let buf ← scratch num rdx
    let len := buf.length
    let (heap, pb) ← newBuffer heap len
    if len ≠ 0 then
      let b ← heap.get pb
      let b ← { b with len := len }.copy (buf.reverse.map some)
      let b ← b.store len (some 0)
      let heap ← heap.put pb b
      ofBuffer heap pb
    else ofBuffer heap pb
  else empty heap

/-- `SubStr(start, count)`; the returned `String` is built in place. -/
def subStr (heap : Buffers) (pb start count : ℕ) : Except Fault (Buffers × ℕ) := do
  let n := (← heap.get pb).len
  if start = 0 ∧ count = n then ofString heap pb
  else
    let (heap, p) ← newBuffer heap count
    let (heap, s) ← ofBuffer heap p
    let from_ ← (← heap.get pb).loads start count
    let b ← (← heap.get s).copy from_
    let heap ← heap.put s b
    return (heap, s)

def trySepNewSizeEmpty (heap : Buffers) (pb newsize : ℕ) : Except Fault (Buffers × ℕ) := do
  if (← heap.get pb).zRef < 2 then return (heap, pb) else newBuffer heap newsize

def trySepRefDecAndPtrSet (heap : Buffers) (pb pnew : ℕ) : Except Fault (Buffers × ℕ) := do
  let heap ← release heap pb
  let heap ← addRef heap pnew
  return (heap, pnew)

/-- The expression `Upper` stores for a character. -/
def upperChar (c : UInt8) : UInt8 :=
  if 97 ≤ c ∧ c ≤ 122 then c - 32 else c

def upperLoop (heap : Buffers) (pb b : ℕ) : ℕ → Except Fault Buffers
  | 0 => return heap
  | i + 1 => do
    let heap ← upperLoop heap pb b i
    let c ← (← heap.get pb).load i
    let d ← (← heap.get b).store i (c.map upperChar)
    heap.put b d

def upper (heap : Buffers) (pb : ℕ) : Except Fault (Buffers × ℕ) := do
  let n := (← heap.get pb).len
  let (heap, b) ← trySepNewSizeEmpty heap pb n
  let heap ← upperLoop heap pb b n
  let d ← heap.get b
  let heap ← heap.put b { d with len := n }
  trySepRefDecAndPtrSet heap pb b

end String

end Prot.Struct
