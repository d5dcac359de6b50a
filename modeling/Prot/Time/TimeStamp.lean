import Prot.Time.Calendar
import Prot.Time.Deadline
import Prot.Memory.Heap

/-! `TimeStamp::NowMilliseconds` on both platforms, against the time since the
beginning of the year 0. An instant is given in microseconds since 1970. -/

namespace Prot.Time

open Calendar Memory

/-- The `FILETIME` of Windows, a number of 100 ns units in two halves. -/
structure Filetime where
  dwLowDateTime : UInt32
  dwHighDateTime : UInt32
  deriving DecidableEq, Repr

def Filetime.ticks (ft : Filetime) : ℕ :=
  ft.dwHighDateTime.toNat * 2 ^ 32 + ft.dwLowDateTime.toNat

/-- It counts from the beginning of 1601. -/
def Filetime.Shows (ft : Filetime) (instant : ℕ) : Prop :=
  ft.ticks = 10 * (instant + 86400000000 * daysBetween 1601 1970)

def Timeval.Shows (tv : Timeval) (instant : ℕ) : Prop :=
  tv.sec.toInt = (instant / 1000000 : ℕ) ∧ tv.usec.toInt = (instant % 1000000 : ℕ)

namespace TimeStamp

/-- The milliseconds since the beginning of the year 0. -/
def sinceYearZero (instant : ℕ) : ℕ := instant / 1000 + 86400000 * daysBefore 1970

namespace Windows

/-- `PT_BASE_TS_UTC_PREFIX`: 1601 years of 365 days. -/
def baseTsUtcPrefix : Int64 := 504891360000000000

def nowMilliseconds (ft : Filetime) : Int64 :=
  (TimeUnit.mk ((Int64.ofNat ft.dwHighDateTime.toNat <<< 32) +
    Int64.ofNat ft.dwLowDateTime.toNat + baseTsUtcPrefix)).inMilliseconds

end Windows

namespace Posix

/-- `PT_BASE_TS_UTC_PREFIX`: 1970 years of 365 days. -/
def baseTsUtcPrefix : Int64 := 621259200000000000

/-- The argument is what `gettimeofday` gives; where it fails, a null pointer is
called. -/
def nowMilliseconds : Option Timeval → Except Fault Int64
  | some tv => return tv.sec * 1000 + tv.usec / 1000 + baseTsUtcPrefix / TimeUnit.oneMillisecond
  | none => .error .null

end Posix

variable {ft : Filetime} {tv : Timeval} {instant : ℕ}

theorem daysBefore_1970 : daysBefore 1970 = 719528 := by
  have days := daysBefore_eq 1970
  omega

theorem daysBetween_1601_1970 : daysBetween 1601 1970 = 134774 := by
  have first := daysBefore_eq 1601
  rw [daysBetween, daysBefore_1970]
  omega

private theorem shiftLeft_eq_mul (x : Int64) : x <<< (32 : Int64) = x * 4294967296 := by
  have width : (32 : Int64).toBitVec.smod 64 = 32#64 := by decide
  refine Int64.toBitVec_inj.mp ?_
  rw [Int64.toBitVec_shiftLeft, width, Int64.toBitVec_mul]
  change x.toBitVec <<< (32#64).toNat = _
  rw [BitVec.shiftLeft_eq_mul_twoPow]
  rfl

/-- The years are added in 64 bits. -/
theorem Windows.nowMilliseconds_toInt (ft : Filetime) : (Windows.nowMilliseconds ft).toInt =
    ((ft.ticks + 504891360000000000 : ℤ).bmod (2 ^ 64)).tdiv 10000 := by
  have high := ft.dwHighDateTime.toNat_lt
  have low := ft.dwLowDateTime.toNat_lt
  rw [Windows.nowMilliseconds, TimeUnit.inMilliseconds, Int64.toInt_div_of_ne_right _ _ (by decide),
    Int64.toInt_add, Int64.toInt_add, shiftLeft_eq_mul, Int64.toInt_mul,
    Int64.toInt_ofNat_of_lt (by omega), Int64.toInt_ofNat_of_lt (by omega), Int.bmod_add_bmod,
    Int.add_assoc, Int.bmod_add_bmod]
  have value : (ft.ticks : ℤ) = ft.dwHighDateTime.toNat * 4294967296 + ft.dwLowDateTime.toNat := by
    rw [Filetime.ticks]
    omega
  rw [value, Int.add_assoc]
  rfl

/-- While they fit, the Windows branch is 389 leap days short. -/
theorem Windows.nowMilliseconds_short (shows : ft.Shows instant)
    (fits : ft.ticks + 504891360000000000 < 2 ^ 63) :
    (Windows.nowMilliseconds ft).toInt = sinceYearZero instant - 86400000 * 389 := by
  rw [Filetime.Shows, daysBetween_1601_1970] at shows
  rw [Windows.nowMilliseconds_toInt, Int.bmod_eq_of_le (by omega) (by omega),
    Int.tdiv_eq_ediv_of_nonneg (by omega), sinceYearZero, daysBefore_1970]
  omega

private theorem Windows.nowMilliseconds_wraps (wraps : 2 ^ 63 ≤ ft.ticks + 504891360000000000) :
    (Windows.nowMilliseconds ft).toInt < 62125920000000 := by
  have high := ft.dwHighDateTime.toNat_lt
  have low := ft.dwLowDateTime.toNat_lt
  have ticks : ft.ticks < 2 ^ 64 := by
    rw [Filetime.ticks]
    omega
  have less : ((ft.ticks + 504891360000000000 : ℤ).bmod (2 ^ 64)) =
      ft.ticks + 504891360000000000 - 2 ^ 64 := by
    rw [Int.bmod_def]
    split <;> omega
  have split := Int.tmod_add_mul_tdiv (ft.ticks + 504891360000000000 - 2 ^ 64) 10000
  have rest : -10000 < (ft.ticks + 504891360000000000 - 2 ^ 64 : ℤ).tmod 10000 :=
    Int.lt_tmod_of_pos _ (by decide)
  rw [Windows.nowMilliseconds_toInt, less]
  omega

/-- The POSIX branch is 478 leap days short. -/
theorem Posix.nowMilliseconds_short (shows : tv.Shows instant)
    (fits : sinceYearZero instant < 2 ^ 63) : ∃ ms, Posix.nowMilliseconds (some tv) = .ok ms ∧
      ms.toInt = sinceYearZero instant - 86400000 * 478 := by
  obtain ⟨sec, usec⟩ := shows
  rw [sinceYearZero, daysBefore_1970] at fits ⊢
  have whole : (tv.usec / 1000).toInt = (instant % 1000000 / 1000 : ℕ) := by
    rw [Int64.toInt_div_of_ne_right _ _ (by decide), usec]
    rfl
  have years : (baseTsUtcPrefix / TimeUnit.oneMillisecond).toInt = 62125920000000 := by decide
  refine ⟨_, rfl, ?_⟩
  rw [Int64.toInt_add, Int64.toInt_add, Int64.toInt_mul, Int.bmod_add_bmod, Int.add_assoc,
    Int.bmod_add_bmod, whole, years, sec]
  change ((instant / 1000000 : ℕ) * (1000 : ℤ) + _).bmod _ = _
  rw [Int.bmod_eq_of_le (by omega) (by omega)]
  omega

/-- What the branches return for an instant is not the same, and neither of them
returns the milliseconds since the year 0. -/
theorem nowMilliseconds_wrong (ft : Filetime) (tv : Timeval) (instant : ℕ)
    (windows : ft.Shows instant) (posix : tv.Shows instant) :
    Posix.nowMilliseconds (some tv) ≠ .ok (Windows.nowMilliseconds ft) ∧
      (Windows.nowMilliseconds ft).toInt ≠ sinceYearZero instant ∧
      ∀ ms, Posix.nowMilliseconds (some tv) = .ok ms → ms.toInt ≠ sinceYearZero instant := by
  have high := ft.dwHighDateTime.toNat_lt
  have low := ft.dwLowDateTime.toNat_lt
  have shows := windows
  rw [Filetime.Shows, daysBetween_1601_1970, Filetime.ticks] at shows
  have since : sinceYearZero instant = instant / 1000 + 86400000 * 719528 := by
    rw [sinceYearZero, daysBefore_1970]
  obtain ⟨ms, returned, value⟩ := Posix.nowMilliseconds_short posix (by omega)
  rw [returned]
  have other : ms.toInt ≠ (Windows.nowMilliseconds ft).toInt ∧
      (Windows.nowMilliseconds ft).toInt ≠ sinceYearZero instant := by
    by_cases fits : ft.ticks + 504891360000000000 < 2 ^ 63
    · have short := Windows.nowMilliseconds_short windows fits
      omega
    · have less := Windows.nowMilliseconds_wraps (Nat.not_lt.mp fits)
      omega
  refine ⟨fun same => other.1 (congrArg Int64.toInt (Except.ok.inj same)), other.2, ?_⟩
  intro again same
  cases same
  omega

private theorem filetime_1970 : Filetime.Shows ⟨3577643008, 27111902⟩ 0 := by
  rw [Filetime.Shows, daysBetween_1601_1970]
  decide

private theorem timeval_1970 : Timeval.Shows ⟨0, 0⟩ 0 := ⟨rfl, rfl⟩

/-- At the beginning of 1970 there are three numbers. -/
theorem nowMilliseconds_1970 :
    (Filetime.Shows ⟨3577643008, 27111902⟩ 0 ∧ Timeval.Shows ⟨0, 0⟩ 0) ∧
      Posix.nowMilliseconds (some ⟨0, 0⟩) = .ok 62125920000000 ∧
      Windows.nowMilliseconds ⟨3577643008, 27111902⟩ = 62133609600000 ∧
      sinceYearZero 0 = 62167219200000 := by
  refine ⟨⟨filetime_1970, timeval_1970⟩, by decide, by decide, ?_⟩
  rw [sinceYearZero, daysBefore_1970]

theorem nowMilliseconds_wrong_1970 : Posix.nowMilliseconds (some ⟨0, 0⟩) ≠
    .ok (Windows.nowMilliseconds ⟨3577643008, 27111902⟩) :=
  (nowMilliseconds_wrong _ _ 0 filetime_1970 timeval_1970).1

end TimeStamp

end Prot.Time
