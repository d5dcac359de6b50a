import Prot.Time.TimeUnit
import Mathlib.Data.Int.Basic

/-! The deadlines of `pthread_cond_timedwait`, as the timed waits of the library
compute them from a `TimeUnit` and the time of a clock. -/

namespace Prot.Time

inductive Clock where
  | monotonic
  | realtime
  deriving DecidableEq, Repr

structure Timespec where
  sec : Int64
  nsec : Int64
  deriving DecidableEq, Repr

structure Timeval where
  sec : Int64
  usec : Int64
  deriving DecidableEq, Repr

/-- What `clock_gettime(CLOCK_MONOTONIC)` and `gettimeofday` answer. -/
structure Clocks where
  monotonic : Timespec
  realtime : Timeval
  deriving DecidableEq, Repr

def Timespec.inNanoseconds (ts : Timespec) : ℤ := ts.sec.toInt * 10 ^ 9 + ts.nsec.toInt

def Timeval.inNanoseconds (tv : Timeval) : ℤ := tv.sec.toInt * 10 ^ 9 + tv.usec.toInt * 1000

def Clocks.now (clocks : Clocks) : Clock → ℤ
  | .monotonic => clocks.monotonic.inNanoseconds
  | .realtime => clocks.realtime.inNanoseconds

/-- A time of day as the clocks give it. -/
structure Clocks.Valid (clocks : Clocks) : Prop where
  nsec : 0 ≤ clocks.monotonic.nsec ∧ clocks.monotonic.nsec < 1000000000
  usec : 0 ≤ clocks.realtime.usec ∧ clocks.realtime.usec < 1000000

/-- `if (ts.tv_nsec >= 1000000000)`: one second is carried. -/
def Timespec.carry (ts : Timespec) : Timespec :=
  if 1000000000 ≤ ts.nsec then ⟨ts.sec + 1, ts.nsec - 1000000000⟩ else ts

def TimeUnit.Timed (t : TimeUnit) : Prop := 0 < t.utc ∧ t.utc < TimeUnit.infiniteUnits

/-- The time and the deadline can be told in 64 bits, one in nanoseconds, the
other in seconds. -/
def TimeUnit.Fits (t : TimeUnit) (now : ℤ) : Prop :=
  t.utc.toInt * 100 < 2 ^ 63 ∧ now + t.utc.toInt * 100 < 2 ^ 63 * 10 ^ 9

/-- A deadline a time `t` after `now`. -/
structure Timespec.Exact (deadline : Timespec) (now : ℤ) (t : TimeUnit) : Prop where
  low : 0 ≤ deadline.nsec
  high : deadline.nsec < 1000000000
  total : deadline.inNanoseconds = now + t.utc.toInt * 100

/-- The time on a clock and the parts of a `TimeUnit`, before the carry. -/
def Timespec.plus (ts : Timespec) (t : TimeUnit) : Timespec :=
  ⟨ts.sec + t.inSeconds, ts.nsec + t.inNanoseconds % 1000000000⟩

variable {ts : Timespec} {t : TimeUnit}

private theorem remainder_eq (timed : t.Timed) (fits : t.utc.toInt * 100 < 2 ^ 63) :
    (t.inNanoseconds % 1000000000).toInt = t.utc.toInt % 10000000 * 100 := by
  have positive : 0 < t.utc.toInt := Int64.lt_iff_toInt_lt.mp timed.1
  have whole : t.inNanoseconds.toInt = t.utc.toInt * 100 := by
    rw [TimeUnit.inNanoseconds, Int64.toInt_mul]
    exact Int.bmod_eq_of_le (by change _ ≤ _ * 100; omega) (by change _ * 100 < _; omega)
  rw [Int64.toInt_mod, whole]
  change (t.utc.toInt * 100).tmod 1000000000 = _
  rw [Int.tmod_eq_emod_of_nonneg (by omega)]
  omega

private theorem remainder_ne (large : 2 ^ 63 ≤ t.utc.toInt * 100) (seconds : ℤ) :
    (t.inNanoseconds % 1000000000).toInt ≠ t.utc.toInt * 100 + seconds * 10 ^ 9 := by
  have bound := t.utc.toInt_lt
  have wraps : ∃ k : ℤ, 1 ≤ k ∧ k ≤ 50 ∧
      t.inNanoseconds.toInt = t.utc.toInt * 100 - k * 2 ^ 64 := by
    rw [TimeUnit.inNanoseconds, Int64.toInt_mul]
    change ∃ k : ℤ, 1 ≤ k ∧ k ≤ 50 ∧ (t.utc.toInt * 100).bmod (2 ^ 64) = _
    refine ⟨(t.utc.toInt * 100 + 2 ^ 63) / 2 ^ 64, by omega, by omega, ?_⟩
    rw [Int.bmod_def]
    split <;> omega
  obtain ⟨k, least, most, same⟩ := wraps
  rw [Int64.toInt_mod]
  change t.inNanoseconds.toInt.tmod 1000000000 ≠ _
  have split := Int.tmod_add_mul_tdiv t.inNanoseconds.toInt 1000000000
  intro equal
  rw [equal, same] at split
  -- 2 ^ 64 has too few factors of 5 for so small a multiple to be whole seconds
  omega

private theorem plus_nsec (valid : 0 ≤ ts.nsec ∧ ts.nsec < 1000000000) :
    (ts.plus t).nsec.toInt = ts.nsec.toInt + (t.inNanoseconds % 1000000000).toInt ∧
      -1000000000 < (ts.plus t).nsec.toInt ∧ (ts.plus t).nsec.toInt < 2000000000 := by
  have low : 0 ≤ ts.nsec.toInt := Int64.le_iff_toInt_le.mp valid.1
  have high : ts.nsec.toInt < 1000000000 := Int64.lt_iff_toInt_lt.mp valid.2
  have rest : -1000000000 < (t.inNanoseconds % 1000000000).toInt ∧
      (t.inNanoseconds % 1000000000).toInt < 1000000000 := by
    rw [Int64.toInt_mod]
    change _ < t.inNanoseconds.toInt.tmod 1000000000 ∧ t.inNanoseconds.toInt.tmod 1000000000 < _
    constructor
    · exact Int.lt_tmod_of_pos _ (by decide)
    · exact Int.tmod_lt_of_pos _ (by decide)
  have same : (ts.plus t).nsec.toInt = ts.nsec.toInt + (t.inNanoseconds % 1000000000).toInt := by
    rw [Timespec.plus, Int64.toInt_add]
    exact Int.bmod_eq_of_le (by omega) (by omega)
  omega

private theorem add_toInt (x y : Int64) : ∃ j :
    ℤ, (x + y).toInt = x.toInt + y.toInt - j * 2 ^ 64 := by
  rw [Int64.toInt_add, Int.bmod_def]
  split
  · exact ⟨(x.toInt + y.toInt) / 2 ^ 64, by omega⟩
  · exact ⟨(x.toInt + y.toInt) / 2 ^ 64 + 1, by omega⟩

private theorem deadline_parts (valid : 0 ≤ ts.nsec ∧ ts.nsec < 1000000000) (timed : t.Timed) :
    ∃ c j : ℤ,
      (ts.plus t).carry.nsec.toInt =
        ts.nsec.toInt + (t.inNanoseconds % 1000000000).toInt - c * 10 ^ 9 ∧
      (ts.plus t).carry.sec.toInt = ts.sec.toInt + t.utc.toInt / 10000000 + c - j * 2 ^ 64 ∧
      (ts.plus t).carry.nsec.toInt < 1000000000 ∧
      (0 ≤ (t.inNanoseconds % 1000000000).toInt → 0 ≤ (ts.plus t).carry.nsec.toInt) := by
  obtain ⟨same, low, high⟩ := plus_nsec (t := t) valid
  have start : 0 ≤ ts.nsec.toInt := Int64.le_iff_toInt_le.mp valid.1
  have nonneg : 0 ≤ t.utc := Int64.le_iff_toInt_le.mpr (Int.le_of_lt (Int64.lt_iff_toInt_lt.mp timed.1))
  obtain ⟨j, added⟩ := add_toInt ts.sec t.inSeconds
  rw [TimeUnit.inSeconds_toInt nonneg] at added
  have sum : (ts.plus t).sec = ts.sec + t.inSeconds := rfl
  unfold Timespec.carry
  by_cases carries : 1000000000 ≤ (ts.plus t).nsec
  · rw [if_pos carries]
    have carries : 1000000000 ≤ (ts.plus t).nsec.toInt := Int64.le_iff_toInt_le.mp carries
    have less : ((ts.plus t).nsec - 1000000000).toInt = (ts.plus t).nsec.toInt - 1000000000 := by
      rw [Int64.toInt_sub]
      exact Int.bmod_eq_of_le (by change _ ≤ _ - 1000000000; omega)
        (by change _ - 1000000000 < _; omega)
    obtain ⟨k, carried⟩ := add_toInt (ts.plus t).sec 1
    have one : (1 : Int64).toInt = 1 := rfl
    rw [sum, added, one] at carried
    refine ⟨1, j + k, ?_, ?_, ?_, fun _ => ?_⟩
    · rw [less]
      omega
    · rw [sum, carried]
      omega
    · rw [less]
      omega
    · rw [less]
      omega
  · rw [if_neg carries]
    rw [Int64.le_iff_toInt_le] at carries
    change ¬ (1000000000 : ℤ) ≤ _ at carries
    refine ⟨0, j, by omega, ?_, by omega, by omega⟩
    rw [sum, added]
    omega

/-- The deadline is right exactly where both quantities fit. -/
theorem deadline_iff_fits (valid : 0 ≤ ts.nsec ∧ ts.nsec < 1000000000) (timed : t.Timed) :
    (ts.plus t).carry.Exact ts.inNanoseconds t ↔ t.Fits ts.inNanoseconds := by
  obtain ⟨c, j, nsec, sec, below, above⟩ := deadline_parts valid timed
  have positive : 0 < t.utc.toInt := Int64.lt_iff_toInt_lt.mp timed.1
  have start : 0 ≤ ts.nsec.toInt := Int64.le_iff_toInt_le.mp valid.1
  have most := (ts.plus t).carry.sec.toInt_lt
  have least := ts.sec.le_toInt
  have bottom := (ts.plus t).carry.sec.le_toInt
  constructor
  · rintro ⟨low, _, total⟩
    rw [Timespec.inNanoseconds, Timespec.inNanoseconds] at total
    have low : 0 ≤ (ts.plus t).carry.nsec.toInt := Int64.le_iff_toInt_le.mp low
    have small : t.utc.toInt * 100 < 2 ^ 63 := by
      by_contra large
      exact remainder_ne (Int.not_lt.mp large) (j * 2 ^ 64 - t.utc.toInt / 10000000) (by omega)
    refine ⟨small, ?_⟩
    rw [Timespec.inNanoseconds, ← total]
    omega
  · rintro ⟨small, room⟩
    have rest := remainder_eq timed small
    have low := above (by omega)
    rw [Timespec.inNanoseconds] at room
    refine ⟨Int64.le_iff_toInt_le.mpr low, Int64.lt_iff_toInt_lt.mpr below, ?_⟩
    rw [Timespec.inNanoseconds, Timespec.inNanoseconds]
    omega

end Prot.Time
