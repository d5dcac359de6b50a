import Mathlib.Data.Nat.Bitwise
import Mathlib.Order.Bounds.Basic

/-! Rounding: to the members of a set above or below, to the multiples of a
number, and by masks where the number is a power of two. -/

namespace Prot.Arith

universe u

section Order

variable {α : Type u} [PartialOrder α] {members : Set α} {x y m n : α}

/-- The least member that is not below `n`. -/
def IsCeiling (members : Set α) (n x : α) : Prop := IsLeast {m | m ∈ members ∧ n ≤ m} x

/-- The greatest member that is not above `n`. -/
def IsFloor (members : Set α) (n x : α) : Prop := IsGreatest {m | m ∈ members ∧ m ≤ n} x

theorem IsCeiling.mono (low : IsCeiling members m x) (high : IsCeiling members n y)
    (le : m ≤ n) : x ≤ y :=
  low.2 ⟨high.1.1, le_trans le high.1.2⟩

/-- A member is its own ceiling. -/
theorem IsCeiling.self (member : n ∈ members) : IsCeiling members n n :=
  ⟨⟨member, le_refl n⟩, fun _ above => above.2⟩

theorem IsFloor.self (member : n ∈ members) : IsFloor members n n :=
  ⟨⟨member, le_refl n⟩, fun _ below => below.2⟩

theorem IsCeiling.again (up : IsCeiling members n x) (twice : IsCeiling members x y) : y = x :=
  twice.unique (IsCeiling.self up.1.1)

end Order

variable {b k m n w : ℕ}

/-- The multiples of `b`. -/
def multiples (b : ℕ) : Set ℕ := {m | b ∣ m}

theorem floor_multiples (positive : 0 < b) : IsFloor (multiples b) n (b * (n / b)) := by
  refine ⟨⟨Nat.dvd_mul_right b _, Nat.mul_div_le n b⟩, ?_⟩
  rintro m ⟨⟨q, rfl⟩, below⟩
  exact Nat.mul_le_mul_left b ((Nat.le_div_iff_mul_le positive).mpr (Nat.mul_comm b q ▸ below))

theorem ceiling_multiples (positive : 0 < b) :
    IsCeiling (multiples b) n (b * ((n + (b - 1)) / b)) := by
  refine ⟨⟨Nat.dvd_mul_right b _, ?_⟩, ?_⟩
  · have above := Nat.lt_mul_div_succ (n + (b - 1)) positive
    rw [Nat.mul_succ] at above
    change n ≤ b * ((n + (b - 1)) / b)
    omega
  · rintro m ⟨⟨q, rfl⟩, above⟩
    have step : (n + (b - 1)) / b < q + 1 := by
      refine (Nat.div_lt_iff_lt_mul positive).mpr ?_
      rw [Nat.mul_comm, Nat.mul_succ]
      omega
    exact Nat.mul_le_mul_left b (Nat.le_of_lt_succ step)

/-- Setting the low bits of a number fills up the last of its multiples. -/
theorem or_mask (n k : ℕ) : n ||| (2 ^ k - 1) = 2 ^ k * (n / 2 ^ k) + (2 ^ k - 1) := by
  have below : 2 ^ k - 1 < 2 ^ k := Nat.sub_lt (Nat.two_pow_pos k) Nat.one_pos
  refine Nat.eq_of_testBit_eq fun i => ?_
  rw [Nat.testBit_two_pow_mul_add _ below, Nat.testBit_or, Nat.testBit_two_pow_sub_one]
  by_cases low : i < k
  · simp [low]
  · simp [low, Nat.testBit_div_two_pow, Nat.sub_add_cancel (Nat.not_lt.mp low)]

/-- Clearing one bit of a number leaves the bits below it and above it. -/
theorem and_not_bit (wide : n < 2 ^ w) (inside : k < w) :
    n &&& (2 ^ w - 1 - 2 ^ k) = 2 ^ (k + 1) * (n / 2 ^ (k + 1)) + n % 2 ^ k := by
  have low : n % 2 ^ k < 2 ^ (k + 1) :=
    Nat.lt_trans (Nat.mod_lt _ (Nat.two_pow_pos k)) (Nat.pow_lt_pow_succ Nat.one_lt_two)
  have fits : 2 ^ k < 2 ^ w := Nat.pow_lt_pow_of_lt Nat.one_lt_two inside
  refine Nat.eq_of_testBit_eq fun i => ?_
  rw [Nat.testBit_two_pow_mul_add _ low, Nat.testBit_and, Nat.sub_sub, Nat.add_comm 1,
    Nat.testBit_two_pow_sub_succ fits, Nat.testBit_two_pow, Nat.testBit_mod_two_pow]
  rcases Nat.lt_trichotomy i k with below | rfl | above
  · have other : k ≠ i := Nat.ne_of_gt below
    simp [below, other, Nat.lt_succ_of_lt below, Nat.lt_trans below inside]
  · simp
  · have other : k ≠ i := Nat.ne_of_lt above
    have beyond : ¬i < k + 1 := by omega
    rw [if_neg beyond, Nat.testBit_div_two_pow, Nat.sub_add_cancel (Nat.not_lt.mp beyond)]
    by_cases there : i < w
    · simp [there, other]
    · have high : n.testBit i = false :=
        Nat.testBit_lt_two_pow (Nat.lt_of_lt_of_le wide
          (Nat.pow_le_pow_right Nat.two_pos (Nat.not_lt.mp there)))
      simp [high]

/-- The bit can be cleared for the low bits only where it and they are clear. -/
theorem cleared_iff (positive : 0 < b) :
    2 * b * (n / (2 * b)) + n % b = b * (n / b) ↔ 2 * b ∣ n := by
  have whole := Nat.div_add_mod n b
  have half : n / b / 2 = n / (2 * b) := by rw [Nat.div_div_eq_div_mul, Nat.mul_comm]
  have parts : b * (n / b) = 2 * b * (n / (2 * b)) + b * (n / b % 2) := by
    have split := Nat.div_add_mod (n / b) 2
    calc b * (n / b) = b * (2 * (n / b / 2) + n / b % 2) := by rw [split]
      _ = 2 * b * (n / (2 * b)) + b * (n / b % 2) := by
        rw [half, Nat.mul_add, ← Nat.mul_assoc, Nat.mul_comm b 2]
  have small := Nat.mod_lt n positive
  constructor
  · intro cleared
    have low : n % b = b * (n / b % 2) := by omega
    have bit : n / b % 2 = 0 := by
      rcases Nat.mod_two_eq_zero_or_one (n / b) with even | odd
      · exact even
      · rw [odd, Nat.mul_one] at low
        omega
    rw [bit, Nat.mul_zero] at low parts
    exact ⟨n / (2 * b), by omega⟩
  · rintro ⟨q, rfl⟩
    rw [Nat.mul_div_cancel_left q (by omega), Nat.mul_comm 2 b, Nat.mul_assoc,
      Nat.mul_div_cancel_left _ positive, Nat.mul_mod_right, Nat.add_zero]

end Prot.Arith
