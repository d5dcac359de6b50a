import Mathlib.Data.Nat.Basic

/-! The Gregorian calendar by whole years, reckoned back to the year 0. -/

namespace Prot.Time.Calendar

variable {y : ℕ}

def IsLeap (y : ℕ) : Prop := y % 4 = 0 ∧ (y % 100 = 0 → y % 400 = 0)

instance : Decidable (IsLeap y) := inferInstanceAs (Decidable (_ ∧ _))

def daysIn (y : ℕ) : ℕ := if IsLeap y then 366 else 365

def daysBefore : ℕ → ℕ
  | 0 => 0
  | y + 1 => daysBefore y + daysIn y

/-- The days from the beginning of one year to that of another. -/
def daysBetween (first last : ℕ) : ℕ := daysBefore last - daysBefore first

/-- The leap days are those of every fourth year but three in 400; the year 0
has one. -/
theorem daysBefore_eq (y : ℕ) :
    daysBefore y + (y + 99) / 100 = 365 * y + (y + 3) / 4 + (y + 399) / 400 := by
  induction y with
  | zero => rfl
  | succ y ih =>
    rw [daysBefore, daysIn]
    split
    · rename_i leap
      obtain ⟨fourth, centurial⟩ := leap
      by_cases century : y % 100 = 0
      · have cycle := centurial century
        omega
      · omega
    · rename_i common
      by_cases fourth : y % 4 = 0
      · have centurial : ¬(y % 100 = 0 → y % 400 = 0) := fun here => common ⟨fourth, here⟩
        omega
      · omega

end Prot.Time.Calendar
