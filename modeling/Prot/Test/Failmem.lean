import Prot.Memory.CharArray
import Prot.Program.Loop
import Prot.Text.Hexadecimal
import Mathlib.Data.List.OfFn

/-! `UnitTest::PrintFailmem` of `unittest.cpp`: the dump of a block of memory, on
one line or in rows of 16 bytes. Every access to `char buf[80]`, to the block and
to the text of the expression is checked. -/

namespace Prot.Test.Failmem

open Memory Program Text

/-- A string, without the NUL behind it. -/
structure CString where
  chars : List UInt8
  clean : 0 ∉ chars

def ascii (text : String) : List UInt8 := text.toList.map fun c => UInt8.ofNat c.toNat

/-- What is shown of a byte in the right column. -/
def printable (c : UInt8) : UInt8 := if c < 32 ∨ 127 < c then 46 else c

section Short

/-- The locals of the loop for fewer than 16 bytes; `pb` and `pv` are offsets
into `buf` and the block. -/
structure Short where
  buf : List UInt8
  pb : ℕ
  pv : ℕ
  len : Int32
  deriving DecidableEq, Repr

/-- `while (len--)`. -/
def shortRound (block : List UInt8) (s : Short) : Except Fault (Short ⊕ Short) :=
  if s.len = 0 then return .inr { s with len := s.len - 1 }
  else do
    let c ← readByte block s.pv
    let buf ← put s.buf s.pb (hex 2 c.toNat ++ ascii " " ++ [0])
    return .inl ⟨buf, s.pb + 3, s.pv + 1, s.len - 1⟩

/-- `if (pb != buf) *(pb - 1) = 0`: the blank behind the last byte is removed. -/
def trim (buf : List UInt8) (pb : ℕ) : Except Fault (List UInt8) :=
  if pb ≠ 0 then put buf (pb - 1) [0] else return buf

def shortText (s : Short) : Except Fault (List UInt8) := do
  let buf ← put s.buf s.pb [0]
  let buf ← trim buf s.pb
  cstr buf

def printShort (fuel : ℕ) (headstr exp : CString) (block : List UInt8) (buf : List UInt8)
    (len : Int32) : Except Fault (Option (List (List UInt8))) := do
  match ← loop (shortRound block) fuel ⟨buf, 0, 0, len⟩ with
  | none => return none
  | some s =>
    let text ← shortText s
    return some [headstr.chars ++ ascii " " ++ exp.chars ++ ascii " is [" ++ text ++ ascii "]\n"]

end Short

section Long

/-- `int explen`: the length of the text as an `int`, 72 at most. -/
def explen (exp : CString) : Int32 :=
  let length := Int32.ofNat exp.chars.length
  if 72 < length then 72 else length

def title (exp : CString) (buf : List UInt8) : Except Fault (List UInt8) := do
  let buf ← put buf 0 (List.replicate 80 61)
  let buf ← put buf 79 [0]
  let buf ← put buf 3 (ascii " ")
  let buf ← put buf (4 + explen exp).toInt (ascii " ")
  let text ← readBytes (exp.chars ++ [0]) 0 (explen exp).toInt64.toUInt64.toNat
  put buf 4 text

/-- The locals of the loop over the whole rows, and the lines printed so far. -/
structure Long where
  buf : List UInt8
  offset : Int32
  pv : ℕ
  len : Int32
  out : List (List UInt8)
  deriving DecidableEq, Repr

/-- `sprintf(buf, " %08X: %02X ... %02X  %02X ... %02X | ", offset, pv[0], ..., pv[15])`. -/
def rowFormat (offset : Int32) (pv : List UInt8) : List UInt8 :=
  let cells := pv.map fun c => hex 2 c.toNat
  ascii " " ++ hex 8 offset.toUInt32.toNat ++ ascii ": " ++
    List.intercalate (ascii " ") (cells.take 8) ++ ascii "  " ++
    List.intercalate (ascii " ") (cells.drop 8) ++ ascii " | "

def showByte (block : List UInt8) (pv p : ℕ) (buf : List UInt8) (i : ℕ) :
    Except Fault (List UInt8) := do
  let c ← readByte block (pv + i)
  put buf (p + i) [printable c]

/-- `while (len >= 16)`. -/
def rowRound (block : List UInt8) (s : Long) : Except Fault (Long ⊕ Long) :=
  if 16 ≤ s.len then do
    let bytes ← readBytes block s.pv 16
    let buf ← put s.buf 0 (rowFormat s.offset bytes ++ [0])
    let buf ← (List.range 16).foldlM (showByte block s.pv 62) buf
    let buf ← put buf (62 + 16) [0]
    let line ← cstr buf
    return .inl ⟨buf, s.offset + 16, s.pv + 16, s.len - 16, s.out ++ [line ++ ascii "\n"]⟩
  else return .inr s

/-- `if (i == 8) *p++ = ' '`. -/
def gap (buf : List UInt8) (p i : ℕ) : Except Fault (List UInt8 × ℕ) :=
  if i = 8 then do
    let buf ← put buf p (ascii " ")
    return (buf, p + 1)
  else return (buf, p)

/-- `sprintf(p, " %02X", pv[i])`, or as many blanks. -/
def place (block : List UInt8) (pv : ℕ) (len : Int32) (buf : List UInt8) (p i : ℕ) :
    Except Fault (List UInt8) :=
  if Int32.ofNat i < len then do
    let c ← readByte block (pv + i)
    put buf p (ascii " " ++ hex 2 c.toNat ++ [0])
  else put buf p (ascii "   ")

def cell (block : List UInt8) (pv : ℕ) (len : Int32) (at_ : List UInt8 × ℕ) (i : ℕ) :
    Except Fault (List UInt8 × ℕ) := do
  let (buf, p) ← gap at_.1 at_.2 i
  let buf ← place block pv len buf p i
  return (buf, p + 3)

/-- The right column of the last row, from `i` on, up to the `break`. -/
def showRest (block : List UInt8) (pv : ℕ) (len : Int32) (p : ℕ) :
    List ℕ → List UInt8 → Except Fault (List UInt8)
  | [], buf => return buf
  | i :: more, buf =>
    if Int32.ofNat i = len then put buf (p + i) [0]
    else do
      let buf ← showByte block pv p buf i
      showRest block pv len p more buf

/-- `if (len)`: the row that is not full. -/
def lastRow (block : List UInt8) (s : Long) : Except Fault (List UInt8) := do
  let buf ← put s.buf 0 (ascii " " ++ hex 8 s.offset.toUInt32.toNat ++ ascii ":" ++ [0])
  let (buf, p) ← (List.range 16).foldlM (cell block s.pv s.len) (buf, 10)
  let buf ← put buf p (ascii " | ")
  let buf ← showRest block s.pv s.len (p + 3) (List.range 16) buf
  let line ← cstr buf
  return line ++ ascii "\n"

def printLong (fuel : ℕ) (exp : CString) (block : List UInt8) (buf : List UInt8) (len : Int32) :
    Except Fault (Option (List (List UInt8))) := do
  let buf ← title exp buf
  let line ← cstr buf
  match ← loop (rowRound block) fuel ⟨buf, 0, 0, len, [line ++ ascii "\n"]⟩ with
  | none => return none
  | some s =>
    if s.len ≠ 0 then
      let line ← lastRow block s
      return some (s.out ++ [line])
    else return some s.out

end Long

/-- The lines printed, one for each call of `_pf_`; `none` if the loops take more
than `fuel` rounds. `junk` is what `buf` holds at first, and a `val` of `none` is
the null pointer. -/
def printFailmem (fuel : ℕ) (junk : Fin 80 → UInt8) (headstr exp : CString)
    (val : Option (List UInt8)) (len : Int32) : Except Fault (Option (List (List UInt8))) :=
  match val with
  | none => return some [headstr.chars ++ ascii " " ++ exp.chars ++ ascii " is NULL\n"]
  | some block =>
    if len < 16 then printShort fuel headstr exp block (List.ofFn junk) len
    else printLong fuel exp block (List.ofFn junk) len

end Prot.Test.Failmem
