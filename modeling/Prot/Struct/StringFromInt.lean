import Prot.Struct.StringMembers
import Prot.Text.Numeral

/-! `FromInt` and the numerals. A negative number is negated before its digits
are taken, and one number has no negative. -/

namespace Prot.Struct.String

open Memory Text

variable {heap : Buffers} {rdx : UInt8} {num r : Int64} {b d : ℕ}

def glyph (d : ℕ) : UInt8 := if d < 10 then UInt8.ofNat (48 + d) else UInt8.ofNat (55 + d)

def digitOf (c : UInt8) : Option ℕ :=
  if 48 ≤ c ∧ c ≤ 57 then some (c.toNat - 48)
  else if 65 ≤ c ∧ c ≤ 90 then some (c.toNat - 55)
  else none

/-- What the `String` of a number is to be, after `written` characters have been
written: its numeral, with a zero behind it. -/
structure Canonical (num : Int64) (rdx : UInt8) (written : ℕ) (b : Buffer) (text : List UInt8) :
    Prop where
  value : b.value = text.map some
  length : b.len = written ∧ text.length = written
  terminated : b.load b.len = .ok (some 0)
  sign : text.head? = some 45 ↔ num < 0
  leading : text.head? = some 48 → num = 0 ∧ text = [48]
  leadingSigned : num < 0 → text.tail.head? ≠ some 48
  back : readInt digitOf 45 rdx.toNat text = some num.toInt

/-- `FromInt` ends, with all that it writes within its 80 characters, and makes
this `String`. -/
def FromIntRight (heap : Buffers) (num : Int64) (rdx : UInt8) : Prop :=
  ∃ buf b text, scratch num rdx = .ok buf ∧ fromInt heap num rdx = .ok (heap.new b, heap.next) ∧
    Canonical num rdx buf.length b text

section Glyphs

private theorem chCmap_eq : ∀ d < 36, chCmap[d]? = some (glyph d) := by decide

private theorem digitOf_glyph : ∀ d < 36, digitOf (glyph d) = some d := by decide

private theorem glyph_ne_minus : ∀ d < 36, glyph d ≠ 45 := by decide

private theorem glyph_eq_zero : ∀ d < 36, glyph d = 48 → d = 0 := by decide

theorem radix_bounds (radix : 1 < rdx ∧ rdx < 37) : 2 ≤ rdx.toNat ∧ rdx.toNat ≤ 36 := by
  obtain ⟨above, below⟩ := radix
  rw [UInt8.lt_iff_toNat_lt] at above below
  simp only [UInt8.reduceToNat] at above below
  omega

private theorem toInt_radix : (Int64.ofNat rdx.toNat).toInt = rdx.toNat :=
  Int64.toInt_ofNat_of_lt (by have := rdx.toNat_lt; omega)

theorem readCmap_eq {i : Int64} (same : i.toInt = d) (small : d < 36) :
    readCmap i = .ok (glyph d) := by
  have natural : 0 ≤ i := by
    rw [Int64.le_iff_toInt_le, same]
    exact Int.natCast_nonneg d
  have index : i.toNatClampNeg = d := by
    change i.toInt.toNat = d
    rw [same, Int.toNat_natCast]
  simp only [readCmap, if_pos natural, index, chCmap_eq d small]

private theorem readCmap_negative {i : Int64} (negative : i.toInt < 0) :
    readCmap i = .error .outOfBounds := by
  refine if_neg fun natural => ?_
  rw [Int64.le_iff_toInt_le] at natural
  exact absurd negative (Int.not_lt.mpr natural)

end Glyphs

section Digits

private theorem toInt_div (radix : r.toInt = b) : (num / r).toInt = num.toInt.tdiv b := by
  have other : r ≠ -1 := by
    rintro rfl
    have := Int.natCast_nonneg b
    rw [← radix] at this
    exact absurd this (by decide)
  rw [Int64.toInt_div_of_ne_right _ _ other, radix]

theorem toInt_mod (radix : r.toInt = b) : (num % r).toInt = num.toInt.tmod b := by
  rw [Int64.toInt_mod, radix]

private theorem digits_numeral (radix : r.toInt = b) (two : 2 ≤ b) (small : b ≤ 36) {room n : ℕ}
    (natural : num.toInt = n) (fits : (numeral b n).length ≤ room) :
    digits r room num = .ok ((numeral b n).map glyph) := by
  induction room generalizing num n with
  | zero => exact absurd (List.length_eq_zero_iff.mp (Nat.le_zero.mp fits)) numeral_ne_nil
  | succ room ih =>
    have quotient : (num / r).toInt = (n / b : ℕ) := by
      rw [toInt_div radix, natural]
      rfl
    have remainder : (num % r).toInt = (n % b : ℕ) := by
      rw [toInt_mod radix, natural]
      rfl
    have below : n % b < b := Nat.mod_lt _ (by omega)
    simp only [digits, readCmap_eq remainder (show n % b < 36 by omega), ok_bind]
    by_cases done : num / r = 0
    · have less : n < b := by
        rw [done, Int64.toInt_zero] at quotient
        exact (Nat.div_eq_zero_iff.mp (by omega)).resolve_left (by omega)
      rw [if_pos done, numeral_of_lt less, Nat.mod_eq_of_lt less]
      rfl
    · have more : b ≤ n := by
        by_contra less
        rw [Nat.div_eq_of_lt (by omega)] at quotient
        exact done (Int64.toInt_inj.mp quotient)
      rw [numeral_of_le two more, List.length_cons] at fits
      rw [if_neg done, ih quotient (by omega), numeral_of_le two more]
      rfl

private theorem digits_negative (radix : r.toInt = b) (two : 2 ≤ b) {room : ℕ}
    (negative : num.toInt < 0) :
    digits r room num = .error .outOfBounds := by
  induction room generalizing num with
  | zero => rfl
  | succ room ih =>
    obtain ⟨m, magnitude⟩ : ∃ m : ℕ, num.toInt = -(m : ℤ) := ⟨num.toInt.natAbs, by omega⟩
    have quotient : (num / r).toInt = -((m / b : ℕ) : ℤ) := by
      rw [toInt_div radix, magnitude, Int.neg_tdiv]
      rfl
    have remainder : (num % r).toInt = -((m % b : ℕ) : ℤ) := by
      rw [toInt_mod radix, magnitude, Int.neg_tmod]
      rfl
    by_cases zero : m % b = 0
    · have more : ¬m < b := fun less => by
        rw [Nat.mod_eq_of_lt less] at zero
        omega
      have less : (num / r).toInt < 0 := by
        have some_ : 0 < m / b := Nat.div_pos (by omega) (by omega)
        omega
      have going : num / r ≠ 0 := fun done => by
        rw [done] at less
        exact absurd less (by decide)
      rw [zero] at remainder
      simp only [digits, readCmap_eq remainder (by decide), ok_bind, if_neg going, ih less, error_bind]
    · simp only [digits, readCmap_negative (show (num % r).toInt < 0 by omega), error_bind]

end Digits

section Numerals

/-- The magnitude of which `scratch` takes the digits. -/
def magnitude (num : Int64) : Int64 := if num < 0 then -num else num

private theorem toInt_magnitude (negatable : num ≠ Int64.minValue) :
    (magnitude num).toInt = num.toInt.natAbs := by
  have low := num.le_toInt
  have other : num.toInt ≠ -2 ^ 63 := fun same => negatable (Int64.toInt_inj.mp same)
  have high := num.toInt_lt
  unfold magnitude
  split
  · rename_i negative
    rw [Int64.lt_iff_toInt_lt, Int64.toInt_zero] at negative
    rw [Int64.toInt_neg, Int.bmod_eq_of_le (by omega) (by omega)]
    omega
  · rename_i natural
    rw [Int64.lt_iff_toInt_lt, Int64.toInt_zero] at natural
    omega

/-- A magnitude is written with at most 64 digits. -/
theorem length_digits (num : Int64) (radix : 1 < rdx ∧ rdx < 37) :
    (numeral rdx.toNat num.toInt.natAbs).length ≤ 64 := by
  obtain ⟨two, small⟩ := radix_bounds radix
  have low := num.le_toInt
  have high := num.toInt_lt
  have below : num.toInt.natAbs < 2 ^ 64 := by omega
  exact length_numeral_le two (by decide) (Nat.lt_of_lt_of_le below (Nat.pow_le_pow_left two 64))

/-- `Char buf[80]` holds the numeral from its end. -/
theorem scratch_eq (radix : 1 < rdx ∧ rdx < 37) (negatable : num ≠ Int64.minValue) :
    scratch num rdx = .ok (writeInt glyph 45 rdx.toNat num.toInt).reverse := by
  obtain ⟨two, small⟩ := radix_bounds radix
  have length := length_digits num radix
  have looped := digits_numeral toInt_radix two small (toInt_magnitude negatable)
    (show (numeral rdx.toNat num.toInt.natAbs).length ≤ 80 by omega)
  have sign : num < 0 ↔ num.toInt < 0 := Int64.lt_iff_toInt_lt
  unfold magnitude at looped
  by_cases negative : num < 0
  · rw [if_pos negative] at looped
    simp only [scratch, decide_eq_true_eq, if_pos negative, looped, ok_bind]
    rw [List.length_map, if_pos (by omega), writeInt, if_pos (sign.mp negative)]
    simp [write, pure_eq]
  · rw [if_neg negative] at looped
    simp only [scratch, decide_eq_true_eq, if_neg negative, looped, ok_bind]
    rw [writeInt, if_neg fun less => negative (sign.mpr less)]
    simp [write, pure_eq]

private theorem length_text (num : Int64) (radix : 1 < rdx ∧ rdx < 37) :
    0 < (writeInt glyph 45 rdx.toNat num.toInt).length ∧
      (writeInt glyph 45 rdx.toNat num.toInt).length ≤ 65 := by
  have length := length_digits num radix
  have some_ : 0 < (numeral rdx.toNat num.toInt.natAbs).length :=
    List.length_pos_iff.mpr numeral_ne_nil
  unfold writeInt
  split <;> simp [write] <;> omega

private theorem fromInt_text (radix : 1 < rdx ∧ rdx < 37) (negatable : num ≠ Int64.minValue) :
    fromInt heap num rdx =
      .ok (heap.new (lettered (writeInt glyph 45 rdx.toNat num.toInt)), heap.next) := by
  obtain ⟨some_, short⟩ := length_text num radix
  exact fromInt_eq radix (scratch_eq radix negatable) some_ (PtBuf.sized_of_lt (by omega))

/-- The characters of a number; a radix that has no digits gives none. -/
def numberText (num : Int64) (rdx : UInt8) : List UInt8 :=
  if 1 < rdx ∧ rdx < 37 then writeInt glyph 45 rdx.toNat num.toInt else []

theorem fromInt_made (negatable : 1 < rdx ∧ rdx < 37 → num ≠ Int64.minValue) :
    Made heap (fromInt heap num rdx) ((numberText num rdx).map some) := by
  unfold numberText
  by_cases radix : 1 < rdx ∧ rdx < 37
  · obtain ⟨some_, short⟩ := length_text num radix
    rw [if_pos radix]
    exact ⟨_, fromInt_text radix (negatable radix), rfl, ⟨lettered_formed _,
      PtBuf.sized_of_lt (Nat.lt_of_le_of_lt short (by decide))⟩, value_lettered _⟩
  · rw [fromInt, if_neg radix, if_neg radix]
    exact empty_made

/-- The smallest number stays negative when it is negated. -/
theorem scratch_smallest (radix : 1 < rdx ∧ rdx < 37) :
    scratch Int64.minValue rdx = .error .outOfBounds := by
  have negative : Int64.minValue < 0 := by decide
  have looped : digits (Int64.ofNat rdx.toNat) 80 (-Int64.minValue) = .error .outOfBounds :=
    digits_negative toInt_radix (radix_bounds radix).1 (by decide)
  simp only [scratch, decide_eq_true_eq, if_pos negative, looped, error_bind]

theorem fromInt_smallest (radix : 1 < rdx ∧ rdx < 37) :
    fromInt heap Int64.minValue rdx = .error .outOfBounds := by
  simp only [fromInt, if_pos radix, scratch_smallest radix, error_bind]

private theorem load_lettered (text : List UInt8) :
    (lettered text).load (lettered text).len = .ok (some 0) := by
  have bound : text.length ≤ text.length ||| 3 := PtBuf.le_bound
  refine PtBuf.load_eq rfl ?_
  simp only [lettered]
  rw [List.getElem?_set_self (by simp; omega)]

/-- A first zero is the number zero. -/
theorem zero_of_head_write {n : ℕ} (radix : 1 < rdx ∧ rdx < 37)
    (first : (write glyph rdx.toNat n).head? = some 48) : n = 0 := by
  obtain ⟨two, small⟩ := radix_bounds radix
  obtain ⟨d, below, same, zero⟩ := head_write two first
  exact zero (glyph_eq_zero d (by omega) same)

private theorem canonical_lettered (radix : 1 < rdx ∧ rdx < 37) :
    Canonical num rdx (writeInt glyph 45 rdx.toNat num.toInt).length
      (lettered (writeInt glyph 45 rdx.toNat num.toInt)) (writeInt glyph 45 rdx.toNat num.toInt) := by
  obtain ⟨two, small⟩ := radix_bounds radix
  have sign : num < 0 ↔ num.toInt < 0 := Int64.lt_iff_toInt_lt
  have apart : ∀ d < rdx.toNat, glyph d ≠ 45 := fun d below => glyph_ne_minus d (by omega)
  have inverse : ∀ d < rdx.toNat, digitOf (glyph d) = some d :=
    fun d below => digitOf_glyph d (by omega)
  refine ⟨value_lettered _, ⟨rfl, rfl⟩, load_lettered _, ?_, fun first => ?_,
    fun negative first => ?_, ?_⟩
  · rw [head_writeInt two apart, sign]
  · by_cases negative : num.toInt < 0
    · rw [writeInt, if_pos negative, List.head?_cons] at first
      exact absurd first (by decide)
    · rw [writeInt, if_neg negative] at first
      have zero : num.toInt = 0 := Int.natAbs_eq_zero.mp (zero_of_head_write radix first)
      refine ⟨Int64.toInt_inj.mp zero, ?_⟩
      rw [zero]
      rfl
  · rw [writeInt, if_pos (sign.mp negative), List.tail_cons] at first
    have zero := zero_of_head_write radix first
    have less := sign.mp negative
    omega
  · exact readInt_writeInt two inverse apart

end Numerals

/-- `FromInt` is right for every number but the smallest. -/
theorem fromInt_right_iff (heap : Buffers) (num : Int64) (rdx : UInt8)
    (radix : 1 < rdx ∧ rdx < 37) : FromIntRight heap num rdx ↔ num ≠ Int64.minValue := by
  constructor
  · rintro ⟨buf, b, text, wrote, made, canonical⟩ rfl
    cases wrote.symm.trans (scratch_smallest radix)
  · intro negatable
    refine ⟨_, _, writeInt glyph 45 rdx.toNat num.toInt, scratch_eq radix negatable,
      fromInt_text radix negatable, ?_⟩
    rw [List.length_reverse]
    exact canonical_lettered radix

theorem fromInt_right_hexadecimal : FromIntRight .empty (-100000) 16 :=
  (fromInt_right_iff .empty (-100000) 16 (by decide)).mpr (by decide)

theorem fromInt_smallest_decimal : ¬FromIntRight .empty Int64.minValue 10 := by
  rintro ⟨buf, b, text, wrote, made, canonical⟩
  cases wrote.symm.trans (scratch_smallest (by decide))

end Prot.Struct.String
