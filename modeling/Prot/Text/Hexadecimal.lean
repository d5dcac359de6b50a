import Prot.Text.Numeral

/-! The conversions `%0wX` of `printf`. -/

namespace Prot.Text

variable {width n : ℕ} {c : UInt8}

def hexGlyph (d : ℕ) : UInt8 := if d < 10 then UInt8.ofNat (48 + d) else UInt8.ofNat (55 + d)

def hexDigit (c : UInt8) : Option ℕ :=
  if 48 ≤ c ∧ c ≤ 57 then some (c.toNat - 48)
  else if 65 ≤ c ∧ c ≤ 70 then some (c.toNat - 55)
  else none

/-- `%0wX` for the width `w`. -/
def hex (width n : ℕ) : List UInt8 := pad (hexGlyph 0) width (write hexGlyph 16 n)

def readHex (text : List UInt8) : Option ℕ := read hexDigit 16 text

theorem hexDigit_hexGlyph : ∀ d < 16, hexDigit (hexGlyph d) = some d := by decide

theorem readHex_hex : readHex (hex width n) = some n :=
  read_pad (by decide) (hexDigit_hexGlyph 0 (by decide)) (read_write (by decide) hexDigit_hexGlyph)

theorem length_hex (some_ : 0 < width) (small : n < 16 ^ width) : (hex width n).length = width :=
  length_pad (length_write_le (by decide) some_ small)

private theorem digit_of_mem_hex (member : c ∈ hex width n) : ∃ d < 16, hexGlyph d = c := by
  rcases List.mem_append.mp member with zero | written
  · exact ⟨0, by decide, (List.eq_of_mem_replicate zero).symm⟩
  · obtain ⟨d, there, same⟩ := List.mem_map.mp written
    exact ⟨d, lt_of_mem_numeral (by decide) (List.mem_reverse.mp there), same⟩

/-- A character that is no digit does not occur in a hexadecimal number. -/
theorem notMem_hex (other : hexDigit c = none) : c ∉ hex width n := by
  intro member
  obtain ⟨d, small, rfl⟩ := digit_of_mem_hex member
  rw [hexDigit_hexGlyph d small] at other
  cases other

end Prot.Text
