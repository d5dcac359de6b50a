import Prot.Base.Bitops

/-! The alignment helpers of `bitops.hh` against rounding to multiples. A
`bound` is a power of two. -/

namespace Prot.Base.Bits

open Arith

variable {number bound other : UInt64} {k : ℕ}

/-- What the helpers are for: rounding `number` up and down to the multiples of
`bound`, to itself if it is one, and in order. -/
structure Brackets (number bound : UInt64) : Prop where
  down : IsFloor (multiples bound.toNat) number.toNat (alignDown number bound).toNat
  up : IsCeiling (multiples bound.toNat) number.toNat (alignUp number bound).toNat
  last : align1 number bound = alignDown number bound + bound - 1
  downAgain : alignDown (alignDown number bound) bound = alignDown number bound
  upAgain : alignUp (alignUp number bound) bound = alignUp number bound
  downMono : ∀ other : UInt64, other.toNat + bound.toNat ≤ 2 ^ 64 →
    (number ≤ other → alignDown number bound ≤ alignDown other bound) ∧
      (other ≤ number → alignDown other bound ≤ alignDown number bound)
  upMono : ∀ other : UInt64, other.toNat + bound.toNat ≤ 2 ^ 64 →
    (number ≤ other → alignUp number bound ≤ alignUp other bound) ∧
      (other ≤ number → alignUp other bound ≤ alignUp number bound)

theorem alignUp_ceiling (power : bound.toNat = 2 ^ k)
    (fits : number.toNat + bound.toNat ≤ 2 ^ 64) :
    IsCeiling (multiples bound.toNat) number.toNat (alignUp number bound).toNat := by
  rw [toNat_alignUp power fits, power]
  exact ceiling_multiples (Nat.two_pow_pos k)

private theorem alignDown_le (power : bound.toNat = 2 ^ k) : alignDown number bound ≤ number := by
  have whole := Nat.div_add_mod number.toNat (2 ^ (k + 1))
  have low : number.toNat % 2 ^ k ≤ number.toNat % 2 ^ (k + 1) := by
    rw [← Nat.mod_mod_of_dvd number.toNat (Nat.pow_dvd_pow 2 (Nat.le_succ k))]
    exact Nat.mod_le _ _
  rw [UInt64.le_iff_toNat_le, toNat_alignDown power]
  omega

/-- Only for the multiples of twice the bound is the cleared bit all there is to clear. -/
theorem alignDown_floor_iff (power : bound.toNat = 2 ^ k) :
    (alignDown number bound).toNat = 2 ^ k * (number.toNat / 2 ^ k) ↔
      2 * bound.toNat ∣ number.toNat := by
  rw [toNat_alignDown power, power, Nat.pow_succ, Nat.mul_comm (2 ^ k) 2]
  exact cleared_iff (Nat.two_pow_pos k)

private theorem alignDown_self (power : bound.toNat = 2 ^ k)
    (even : 2 * bound.toNat ∣ number.toNat) :
    alignDown number bound = number := by
  have single : bound.toNat ∣ number.toNat := Dvd.dvd.trans (Nat.dvd_mul_left _ 2) even
  refine UInt64.toNat_inj.mp ?_
  rw [(alignDown_floor_iff power).mpr even]
  rw [power] at single
  exact Nat.mul_div_cancel' single

private theorem le_alignDown (power : bound.toNat = 2 ^ k) (even : 2 * bound.toNat ∣ number.toNat)
    (le : number ≤ other) : number ≤ alignDown other bound := by
  rw [power, Nat.mul_comm 2, ← Nat.pow_succ] at even
  obtain ⟨q, multiple⟩ := even
  rw [UInt64.le_iff_toNat_le, multiple] at le
  have quotient : q ≤ other.toNat / 2 ^ (k + 1) := by
    rw [Nat.le_div_iff_mul_le (Nat.two_pow_pos _), Nat.mul_comm]
    exact le
  have scaled := Nat.mul_le_mul_left (2 ^ (k + 1)) quotient
  rw [UInt64.le_iff_toNat_le, toNat_alignDown power, multiple]
  exact Nat.le_trans scaled (Nat.le_add_right _ _)

private theorem align1_eq (power : bound.toNat = 2 ^ k) (fits : number.toNat + bound.toNat ≤ 2 ^ 64)
    (single : bound.toNat ∣ number.toNat) : align1 number bound = number + bound - 1 := by
  have positive := Nat.two_pow_pos k
  refine UInt64.toNat_inj.mp ?_
  rw [power] at single fits
  rw [toNat_align1 power, Nat.mul_div_cancel' single, UInt64.toNat_sub, UInt64.toNat_add, power,
    UInt64.toNat_one]
  omega

private theorem alignDown_again :
    alignDown (alignDown number bound) bound = alignDown number bound := by
  rw [alignDown, alignDown, UInt64.and_assoc, UInt64.and_self]

private theorem alignUp_fits (power : bound.toNat = 2 ^ k)
    (fits : number.toNat + bound.toNat ≤ 2 ^ 64) :
    (alignUp number bound).toNat + bound.toNat ≤ 2 ^ 64 := by
  have small := bound.toNat_lt
  have last : bound.toNat ∣ 2 ^ 64 - bound.toNat := by
    rw [power] at small ⊢
    exact Nat.dvd_sub (Nat.pow_dvd_pow 2 (Nat.pow_lt_pow_iff_right Nat.one_lt_two |>.mp small).le)
      (Nat.dvd_refl _)
  have least := (alignUp_ceiling power fits).2 ⟨last, by omega⟩
  omega

private theorem alignUp_again (power : bound.toNat = 2 ^ k)
    (fits : number.toNat + bound.toNat ≤ 2 ^ 64) :
    alignUp (alignUp number bound) bound = alignUp number bound := by
  have up := alignUp_ceiling power fits
  have twice := alignUp_ceiling power (alignUp_fits power fits)
  exact UInt64.toNat_inj.mp (up.again twice)

/-- The helpers bracket their number if and only if it is a multiple of twice
the bound. -/
theorem brackets_iff (number bound : UInt64) (power : ∃ k, bound.toNat = 2 ^ k)
    (fits : number.toNat + bound.toNat ≤ 2 ^ 64) :
    Brackets number bound ↔ 2 * bound.toNat ∣ number.toNat := by
  obtain ⟨k, power⟩ := power
  constructor
  · intro brackets
    have floor := floor_multiples (n := number.toNat) (power ▸ Nat.two_pow_pos k)
    have same := brackets.down.unique floor
    rw [power] at same
    exact (alignDown_floor_iff power).mp (power ▸ same)
  · intro even
    have self := alignDown_self power even
    have single : bound.toNat ∣ number.toNat := Dvd.dvd.trans (Nat.dvd_mul_left _ 2) even
    refine ⟨?_, alignUp_ceiling power fits, ?_, alignDown_again, alignUp_again power fits, ?_, ?_⟩
    · rw [self]
      exact IsFloor.self single
    · rw [self]
      exact align1_eq power fits single
    · intro other within
      rw [self]
      exact ⟨le_alignDown power even, UInt64.le_trans (alignDown_le power)⟩
    · intro other within
      have here := alignUp_ceiling power fits
      have there := alignUp_ceiling power within
      exact ⟨fun le => UInt64.le_iff_toNat_le.mpr (here.mono there (UInt64.le_iff_toNat_le.mp le)),
        fun le => UInt64.le_iff_toNat_le.mpr (there.mono here (UInt64.le_iff_toNat_le.mp le))⟩

theorem brackets_page : Brackets 8192 4096 :=
  (brackets_iff 8192 4096 ⟨12, by decide⟩ (by decide)).mpr (by decide)

theorem alignDown_five : ¬Brackets 5 4 := fun brackets =>
  absurd (brackets.down.2 ⟨Nat.dvd_refl 4, (by decide : 4 ≤ 5)⟩ : 4 ≤ 1) (by decide)

end Prot.Base.Bits
