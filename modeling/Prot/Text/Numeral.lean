import Mathlib.Data.Nat.Digits.Lemmas

/-! Numerals over any alphabet: a number is written with its most significant
digit first, and read back. -/

namespace Prot.Text

universe u
variable {α : Type u} {glyph : ℕ → α} {digit : α → Option ℕ} {b n d : ℕ}

/-- The digits of a number, least significant first; zero has one. -/
def numeral (b n : ℕ) : List ℕ := if n = 0 then [0] else Nat.digits b n

/-- A number in the given glyphs. -/
def write (glyph : ℕ → α) (b n : ℕ) : List α := (numeral b n).reverse.map glyph

def readDigit (digit : α → Option ℕ) (b n : ℕ) (x : α) : Option ℕ := do
  let d ← digit x
  if d < b then some (n * b + d) else none

/-- Read a number; no digits are no number. -/
def read (digit : α → Option ℕ) (b : ℕ) (text : List α) : Option ℕ :=
  if text.isEmpty then none else text.foldlM (readDigit digit b) 0

theorem numeral_of_lt (small : n < b) : numeral b n = [n] := by
  unfold numeral
  split
  · rename_i zero
    rw [zero]
  · rename_i some_
    exact Nat.digits_of_lt b n some_ small

theorem numeral_of_le (radix : 2 ≤ b) (large : b ≤ n) :
    numeral b n = n % b :: numeral b (n / b) := by
  have quotient : n / b ≠ 0 := Nat.ne_of_gt (Nat.div_pos large (by omega))
  rw [numeral, if_neg (by omega), numeral, if_neg quotient,
    Nat.digits_of_two_le_of_pos radix (by omega)]

theorem lt_of_mem_numeral (radix : 2 ≤ b) (member : d ∈ numeral b n) : d < b := by
  unfold numeral at member
  split at member
  · obtain rfl := List.mem_singleton.mp member
    omega
  · exact Nat.digits_lt_base radix member

theorem numeral_ne_nil : numeral b n ≠ [] := by
  unfold numeral
  split
  · exact List.cons_ne_nil _ _
  · rename_i some_
    exact Nat.digits_ne_nil_iff_ne_zero.mpr some_

private theorem ofDigits_numeral : Nat.ofDigits b (numeral b n) = n := by
  unfold numeral
  split
  · rename_i zero
    rw [zero, Nat.ofDigits_singleton]
  · exact Nat.ofDigits_digits b n

private theorem getLast_numeral (some_ : n ≠ 0) (leading : (numeral b n).getLast? = some d) :
    d ≠ 0 := by
  have written : Nat.digits b n ≠ [] := Nat.digits_ne_nil_iff_ne_zero.mpr some_
  rw [numeral, if_neg some_, List.getLast?_eq_some_getLast written] at leading
  rw [← Option.some.inj leading]
  exact Nat.getLast_digit_ne_zero b some_

private theorem readDigits_reverse (inverse : ∀ d < b, digit (glyph d) = some d) (digits : List ℕ)
    (within : ∀ d ∈ digits, d < b) :
    (digits.reverse.map glyph).foldlM (readDigit digit b) 0 = some (Nat.ofDigits b digits) := by
  induction digits with
  | nil => rfl
  | cons d rest ih =>
    have small := within d List.mem_cons_self
    rw [List.reverse_cons, List.map_append, List.foldlM_append,
      ih fun d later => within d (List.mem_cons_of_mem _ later)]
    simp only [List.map_cons, List.map_nil, List.foldlM_cons, List.foldlM_nil, readDigit,
      inverse d small, Option.bind_eq_bind, Option.bind_some, if_pos small, Nat.ofDigits_cons]
    rw [Nat.add_comm, Nat.mul_comm]
    rfl

/-- What is written is read back. -/
theorem read_write (radix : 2 ≤ b) (inverse : ∀ d < b, digit (glyph d) = some d) :
    read digit b (write glyph b n) = some n := by
  have some_ : (write glyph b n).isEmpty = false := by
    simpa [write] using numeral_ne_nil
  rw [read, some_, if_neg Bool.false_ne_true, write, readDigits_reverse inverse _ fun d member =>
    lt_of_mem_numeral radix member, ofDigits_numeral]

/-- The first glyph of a number is that of its most significant digit. -/
theorem head_write {x : α} (radix : 2 ≤ b) (first : (write glyph b n).head? = some x) :
    ∃ d < b, glyph d = x ∧ (d = 0 → n = 0) := by
  rw [write, List.head?_map, List.head?_reverse] at first
  obtain ⟨d, last, same⟩ := Option.map_eq_some_iff.mp first
  refine ⟨d, lt_of_mem_numeral radix (List.mem_of_getLast? last), same, fun zero => ?_⟩
  by_contra some_
  exact getLast_numeral some_ last zero

theorem length_numeral_le {width : ℕ} (radix : 2 ≤ b) (some_ : 0 < width) (small : n < b ^ width) :
    (numeral b n).length ≤ width := by
  rw [numeral]
  split
  · exact some_
  · exact (Nat.digits_length_le_iff radix n).mpr small

theorem length_write_le {width : ℕ} (radix : 2 ≤ b) (some_ : 0 < width) (small : n < b ^ width) :
    (write glyph b n).length ≤ width := by
  rw [write, List.length_map, List.length_reverse]
  exact length_numeral_le radix some_ small

section Padded

variable {width : ℕ} {zero : α} {text : List α}

/-- A text brought to a width with zeros before it. -/
def pad (zero : α) (width : ℕ) (text : List α) : List α :=
  List.replicate (width - text.length) zero ++ text

theorem length_pad (fits : text.length ≤ width) : (pad zero width text).length = width := by
  rw [pad, List.length_append, List.length_replicate, Nat.sub_add_cancel fits]

private theorem readDigits_replicate (radix : 0 < b) (reads : digit zero = some 0) (k : ℕ) :
    (List.replicate k zero).foldlM (readDigit digit b) 0 = some 0 := by
  induction k with
  | zero => rfl
  | succ k ih =>
    rw [List.replicate_succ, List.foldlM_cons]
    simp only [readDigit, reads, Option.bind_eq_bind, Option.bind_some, if_pos radix, Nat.zero_mul,
      Nat.zero_add]
    exact ih

theorem read_pad (radix : 0 < b) (reads : digit zero = some 0) (number : read digit b text = some n) :
    read digit b (pad zero width text) = some n := by
  unfold read at number ⊢
  cases empty : text.isEmpty with
  | true =>
    rw [empty] at number
    cases number
  | false =>
    have some_ : (pad zero width text).isEmpty = false := by
      cases text with
      | nil => cases empty
      | cons c rest => simp [pad]
    rw [empty, if_neg Bool.false_ne_true] at number
    rw [some_, if_neg Bool.false_ne_true, pad, List.foldlM_append, readDigits_replicate radix reads]
    exact number

end Padded

section Signed

variable {minus : α} {z : ℤ}

def writeInt (glyph : ℕ → α) (minus : α) (b : ℕ) (z : ℤ) : List α :=
  if z < 0 then minus :: write glyph b z.natAbs else write glyph b z.natAbs

def readInt [DecidableEq α] (digit : α → Option ℕ) (minus : α) (b : ℕ) (text : List α) : Option ℤ :=
  if text.head? = some minus then (read digit b text.tail).map fun n : ℕ => -(n : ℤ)
  else (read digit b text).map Int.ofNat

/-- The sign is seen at the first glyph. -/
theorem head_writeInt (radix : 2 ≤ b) (apart : ∀ d < b, glyph d ≠ minus) :
    (writeInt glyph minus b z).head? = some minus ↔ z < 0 := by
  unfold writeInt
  split
  · rename_i negative
    exact iff_of_true rfl negative
  · rename_i natural
    refine iff_of_false (fun first => ?_) natural
    obtain ⟨d, small, same, _⟩ := head_write radix first
    exact apart d small same

theorem readInt_writeInt [DecidableEq α] (radix : 2 ≤ b) (inverse : ∀ d < b, digit (glyph d) = some d)
    (apart : ∀ d < b, glyph d ≠ minus) :
    readInt digit minus b (writeInt glyph minus b z) = some z := by
  unfold readInt
  by_cases negative : z < 0
  · rw [if_pos ((head_writeInt radix apart).mpr negative), writeInt, if_pos negative,
      List.tail_cons, read_write radix inverse, Option.map_some]
    congr 1
    omega
  · rw [if_neg fun first => negative ((head_writeInt radix apart).mp first), writeInt,
      if_neg negative, read_write radix inverse, Option.map_some]
    congr 1
    simp only [Int.ofNat_eq_natCast]
    omega

end Signed

end Prot.Text
