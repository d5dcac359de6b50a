import Prot.Arith.Multiples

/-! `bitops.hh` for 64-bit numbers: alignment by masks. -/

namespace Prot.Base.Bits

open Arith

def alignUp (number bound : UInt64) : UInt64 := ((number - 1) ||| (bound - 1)) + 1

def alignDown (number bound : UInt64) : UInt64 := number &&& ~~~bound

def align1 (number bound : UInt64) : UInt64 := number ||| (bound - 1)

variable {number bound : UInt64} {k : ℕ}

private theorem toNat_sub_one (power : bound.toNat = 2 ^ k) : (bound - 1).toNat = 2 ^ k - 1 := by
  have positive := Nat.two_pow_pos k
  have small := bound.toNat_lt
  rw [UInt64.toNat_sub, UInt64.toNat_one, power]
  omega

theorem toNat_align1 (power : bound.toNat = 2 ^ k) :
    (align1 number bound).toNat = 2 ^ k * (number.toNat / 2 ^ k) + (2 ^ k - 1) := by
  rw [align1, UInt64.toNat_or, toNat_sub_one power, or_mask]

private theorem alignUp_zero : alignUp 0 bound = 0 := by
  have small := (bound - 1).toNat_lt
  have ones : (0 - 1 : UInt64).toNat = 2 ^ 64 - 1 := by decide
  refine UInt64.toNat_inj.mp ?_
  rw [alignUp, UInt64.toNat_add, UInt64.toNat_or, ones, Nat.lor_comm, or_mask,
    Nat.div_eq_of_lt small]
  decide

theorem toNat_alignUp (power : bound.toNat = 2 ^ k) (fits : number.toNat + bound.toNat ≤ 2 ^ 64) :
    (alignUp number bound).toNat = 2 ^ k * ((number.toNat + (2 ^ k - 1)) / 2 ^ k) := by
  have positive := Nat.two_pow_pos k
  rw [power] at fits
  by_cases zero : number = 0
  · have small : (0 + (2 ^ k - 1)) / 2 ^ k = 0 := Nat.div_eq_of_lt (by omega)
    rw [zero, alignUp_zero, UInt64.toNat_zero, small, Nat.mul_zero]
  · have some_ : number.toNat ≠ 0 := fun same => zero (UInt64.toNat_inj.mp same)
    have before : (number - 1).toNat = number.toNat - 1 := by
      rw [UInt64.toNat_sub, UInt64.toNat_one]
      omega
    have next : number.toNat + (2 ^ k - 1) = number.toNat - 1 + 2 ^ k := by omega
    have within : 2 ^ k * ((number.toNat - 1) / 2 ^ k) ≤ number.toNat - 1 := Nat.mul_div_le _ _
    rw [alignUp, UInt64.toNat_add, UInt64.toNat_or, toNat_sub_one power, or_mask, before,
      UInt64.toNat_one, next, Nat.add_div_right _ positive, Nat.mul_succ]
    omega

/-- `AlignDown` clears a single bit. -/
theorem toNat_alignDown (power : bound.toNat = 2 ^ k) : (alignDown number bound).toNat =
    2 ^ (k + 1) * (number.toNat / 2 ^ (k + 1)) + number.toNat % 2 ^ k := by
  have inside : k < 64 := by
    refine (Nat.pow_lt_pow_iff_right Nat.one_lt_two).mp ?_
    rw [← power]
    exact bound.toNat_lt
  rw [alignDown, UInt64.toNat_and, UInt64.toNat_not, power]
  exact and_not_bit number.toNat_lt inside

theorem toNat_or_three (n : UInt64) : (n ||| 3).toNat = n.toNat / 4 * 4 + 3 := by
  rw [Nat.mul_comm]
  exact toNat_align1 (by decide : (4 : UInt64).toNat = 2 ^ 2)

theorem toNat_alignUp_four (n : UInt64) (fits : (n.toNat + 3) / 4 * 4 < 2 ^ 64) :
    (alignUp n 4).toNat = (n.toNat + 3) / 4 * 4 := by
  have four : (4 : UInt64).toNat = 2 ^ 2 := by decide
  have room : n.toNat + (4 : UInt64).toNat ≤ 2 ^ 64 := by omega
  rw [Nat.mul_comm]
  exact toNat_alignUp four room

end Prot.Base.Bits
