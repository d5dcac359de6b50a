import Mathlib.Algebra.Group.Int.Defs
import Mathlib.Algebra.Group.Nat.Defs
import Mathlib.Data.Int.Basic

/-! The tick count of `timeunit.hh`: 100 ns units in a 64-bit integer, whose
largest value stands for no limit at all. -/

namespace Prot.Time

structure TimeUnit where
  utc : Int64
  deriving DecidableEq, Repr

namespace TimeUnit

def infiniteUnits : Int64 := 0x7fffffffffffffff
def hasNonoseconds : Int64 := 100
def oneMacrosecond : Int64 := 10
def oneMillisecond : Int64 := 10000
def oneSecond : Int64 := 10000000

def infinite : TimeUnit := ⟨infiniteUnits⟩
def zero : TimeUnit := ⟨0⟩

def inNanoseconds (t : TimeUnit) : Int64 := t.utc * hasNonoseconds
def inMilliseconds (t : TimeUnit) : Int64 := t.utc / oneMillisecond
def inMacroseconds (t : TimeUnit) : Int64 := t.utc / oneMacrosecond
def inSeconds (t : TimeUnit) : Int64 := t.utc / oneSecond

def infinitely (t : TimeUnit) : Bool := t.utc == infiniteUnits
def empty (t : TimeUnit) : Bool := t.utc == 0

variable {t : TimeUnit}

/-- Whole units of a time that is not negative. -/
theorem div_toInt {unit : Int64} (nonneg : 0 ≤ t.utc) (positive : 0 < unit) :
    (t.utc / unit).toInt = t.utc.toInt / unit.toInt := by
  have other : unit ≠ -1 := by
    rintro rfl
    exact absurd positive (by decide)
  rw [Int64.toInt_div_of_ne_right _ _ other]
  exact Int.tdiv_eq_ediv_of_nonneg (Int64.le_iff_toInt_le.mp nonneg)

theorem inMilliseconds_toInt (nonneg : 0 ≤ t.utc) :
    t.inMilliseconds.toInt = t.utc.toInt / 10000 := div_toInt nonneg (by decide)

theorem inMacroseconds_toInt (nonneg : 0 ≤ t.utc) :
    t.inMacroseconds.toInt = t.utc.toInt / 10 := div_toInt nonneg (by decide)

theorem inSeconds_toInt (nonneg : 0 ≤ t.utc) :
    t.inSeconds.toInt = t.utc.toInt / 10000000 := div_toInt nonneg (by decide)

end TimeUnit

/-- A 64-bit number that is not negative, cut down to 32 bits. -/
theorem toUInt32_toNat {x : Int64} (nonneg : 0 ≤ x.toInt) :
    (x.toUInt64.toUInt32.toNat : Int) = x.toInt % 2 ^ 32 := by
  have cast : x.toUInt64.toNat = x.toInt.toNat :=
    Int64.toNat_toUInt64_of_le (Int64.le_iff_toInt_le.mpr nonneg)
  rw [UInt64.toNat_toUInt32, cast]
  omega

end Prot.Time
