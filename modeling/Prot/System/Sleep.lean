import Prot.Time.TimeUnit
import Mathlib.Algebra.GroupWithZero.Nat
import Mathlib.Data.UInt

/-! `ThisThread::Sleep(TimeUnit)` on both platforms: how a 64-bit tick count is
cut into the arguments of `sleep`, `usleep` and the `Sleep` of Windows. -/

namespace Prot

open Time

namespace System

/-- Cutting a number down to 32 bits keeps its part below a unit exactly if what
is lost is a multiple of the unit. -/
theorem low_part_iff (n unit : ℤ) :
    n % 2 ^ 32 % unit = n % unit ↔ unit ∣ 2 ^ 32 * (n / 2 ^ 32) := by
  have lost : n - n % 2 ^ 32 = 2 ^ 32 * (n / 2 ^ 32) := by omega
  rw [eq_comm, Int.emod_eq_emod_iff_emod_sub_eq_zero, lost, Int.dvd_iff_emod_eq_zero]

end System

namespace System.ThisThread

/-- The calls that `Sleep` makes on POSIX. -/
inductive Call where
  | schedYield
  | sleep (seconds : UInt32)
  | usleep (usec : UInt32)
  deriving DecidableEq, Repr

/-- `ThisThread::Sleep(Time::TimeUnit t)`, `thread_posix.cpp`. -/
def sleep (t : TimeUnit) : List Call :=
  if t.empty then [.schedYield]
  else
    let iSec : UInt64 := t.inSeconds.toUInt64
    let uSec : UInt32 := t.inMacroseconds.toUInt64.toUInt32 % 1000000
    (if iSec ≠ 0 then [.sleep iSec.toUInt32] else []) ++ (if uSec ≠ 0 then [.usleep uSec] else [])

/-- The microseconds a call asks for. -/
def Call.microseconds : Call → ℕ
  | .schedYield => 0
  | .sleep seconds => seconds.toNat * 1000000
  | .usleep usec => usec.toNat

/-- The calls ask for the microseconds of `t`, and `usleep` for less than a
second. -/
structure Exact (t : TimeUnit) : Prop where
  total : (((sleep t).map Call.microseconds).sum : ℤ) = t.inMacroseconds.toInt
  small : ∀ usec, .usleep usec ∈ sleep t → usec < 1000000

variable {t : TimeUnit}

private theorem usleep_small (usec : UInt32) (called : .usleep usec ∈ sleep t) :
    usec < 1000000 := by
  have rest : t.inMacroseconds.toUInt64.toUInt32 % 1000000 < 1000000 :=
    UInt32.mod_lt _ (by decide)
  simp only [sleep] at called
  split at called
  · simp at called
  · rcases List.mem_append.mp called with seconds | part
    · split at seconds <;> simp at seconds
    · split at part
      · obtain rfl : usec = _ := by simpa using part
        exact rest
      · simp at part

private theorem microseconds_sleep (busy : t.empty = false) :
    ((sleep t).map Call.microseconds).sum =
      t.inSeconds.toUInt64.toUInt32.toNat * 1000000 +
        t.inMacroseconds.toUInt64.toUInt32.toNat % 1000000 := by
  have seconds : ((if t.inSeconds.toUInt64 ≠ 0 then [Call.sleep t.inSeconds.toUInt64.toUInt32]
      else []).map Call.microseconds).sum = t.inSeconds.toUInt64.toUInt32.toNat * 1000000 := by
    split
    · simp [Call.microseconds]
    · rename_i none
      rw [Decidable.not_not.mp none]
      rfl
  have part (usec : UInt32) :
      ((if usec ≠ 0 then [Call.usleep usec] else []).map Call.microseconds).sum = usec.toNat := by
    split
    · simp [Call.microseconds]
    · rename_i none
      rw [Decidable.not_not.mp none]
      rfl
  simp only [sleep, busy, Bool.false_eq_true, if_false, List.map_append, List.sum_append]
  rw [seconds, part, UInt32.toNat_mod]
  rfl

theorem total_sleep (nonneg : 0 ≤ t.utc) :
    (((sleep t).map Call.microseconds).sum : ℤ) =
      t.inSeconds.toInt % 2 ^ 32 * 1000000 + t.inMacroseconds.toInt % 2 ^ 32 % 1000000 := by
  have ticks : 0 ≤ t.utc.toInt := Int64.le_iff_toInt_le.mp nonneg
  have seconds := TimeUnit.inSeconds_toInt nonneg
  have micro := TimeUnit.inMacroseconds_toInt nonneg
  cases idle : t.empty with
  | true =>
    have zero : t = .zero := congrArg TimeUnit.mk (eq_of_beq idle)
    subst zero
    decide
  | false =>
    rw [microseconds_sleep idle, ← toUInt32_toNat (by omega), ← toUInt32_toNat (by omega)]
    rfl

private theorem parts_iff {seconds rest part : ℤ} (nonneg : 0 ≤ seconds)
    (rests : 0 ≤ rest ∧ rest < 1000000)
    (parts : 0 ≤ part ∧ part < 1000000) :
    seconds % 2 ^ 32 * 1000000 + part = seconds * 1000000 + rest ↔
      seconds < 2 ^ 32 ∧ part = rest := by
  constructor <;> omega

theorem whole_seconds_iff (lost : ℤ) : 1000000 ∣ 2 ^ 32 * lost ↔ 15625 ∣ lost := by
  omega

/-- `sleep` and `usleep` are asked for the right time exactly if the seconds fit
into 32 bits and what the microseconds lose by being cut down to 32 bits is a
number of whole seconds. -/
theorem sleep_exact_iff (nonneg : 0 ≤ t.utc) :
    Exact t ↔ t.inSeconds < 2 ^ 32 ∧ 15625 ∣ t.inMacroseconds.toInt / 2 ^ 32 := by
  have ticks : 0 ≤ t.utc.toInt := Int64.le_iff_toInt_le.mp nonneg
  have micro := TimeUnit.inMacroseconds_toInt nonneg
  have seconds : t.inSeconds.toInt = t.inMacroseconds.toInt / 1000000 := by
    rw [TimeUnit.inSeconds_toInt nonneg, micro]
    omega
  have bound : t.inSeconds < 2 ^ 32 ↔ t.inSeconds.toInt < 2 ^ 32 := Int64.lt_iff_toInt_lt
  have whole : t.inSeconds.toInt * 1000000 + t.inMacroseconds.toInt % 1000000 =
      t.inMacroseconds.toInt := by
    rw [seconds]
    exact Int.ediv_mul_add_emod _ _
  have range (n : ℤ) : 0 ≤ n % 1000000 ∧ n % 1000000 < 1000000 :=
    ⟨Int.emod_nonneg _ (by decide), Int.emod_lt_of_pos _ (by decide)⟩
  have parts := parts_iff (show 0 ≤ t.inSeconds.toInt by omega) (range t.inMacroseconds.toInt)
    (range (t.inMacroseconds.toInt % 2 ^ 32))
  rw [whole, ← total_sleep nonneg, low_part_iff, whole_seconds_iff, ← bound] at parts
  rw [← parts]
  exact ⟨Exact.total, fun total => ⟨total, usleep_small⟩⟩

/-- An hour. -/
theorem sleep_exact_hour : Exact ⟨36000000000⟩ :=
  (sleep_exact_iff (by decide)).mpr (by decide)

/-- 2^32 microseconds, some 72 minutes: the part below a second is lost. -/
theorem sleep_short : sleep ⟨42949672960⟩ = [.sleep 4294] ∧ ¬ Exact ⟨42949672960⟩ := by
  refine ⟨by decide, fun exact_ => ?_⟩
  have short : (((sleep ⟨42949672960⟩).map Call.microseconds).sum : ℤ) = 4294000000 := by decide
  have asked : TimeUnit.inMacroseconds ⟨42949672960⟩ = 4294967296 := by decide
  have same := exact_.total
  rw [short, asked] at same
  exact absurd same (by decide)

end System.ThisThread

namespace System.ThisThreadWin32

private theorem less_day {tsec : Int64} (long : 86400 < tsec) :
    (tsec - 86400).toInt = tsec.toInt - 86400 := by
  have above : (86400 : ℤ) < tsec.toInt := Int64.lt_iff_toInt_lt.mp long
  have most := tsec.toInt_lt
  rw [Int64.toInt_sub]
  exact Int.bmod_eq_of_le (by change _ ≤ _ - (86400 : ℤ); omega)
    (by change _ - (86400 : ℤ) < _; omega)

/-- The loop over whole days: the arguments of `::Sleep`, and the seconds that
are left. -/
def days (tsec : Int64) : List UInt32 × Int64 :=
  if 86400 < tsec then
    let rest := days (tsec - 86400)
    (86400000 :: rest.1, rest.2)
  else ([], tsec)
termination_by tsec.toInt.toNat
decreasing_by
  rename_i long
  have above : (86400 : ℤ) < tsec.toInt := Int64.lt_iff_toInt_lt.mp long
  rw [less_day long]
  omega

/-- `ThisThread::Sleep(Time::TimeUnit t)`, `thread_win32.cpp`: the arguments of
`::Sleep`. -/
def sleep (t : TimeUnit) : List UInt32 :=
  let rest := days t.inSeconds
  rest.1 ++ [rest.2.toUInt64.toUInt32 * 1000 + t.inMilliseconds.toUInt64.toUInt32 % 1000]

/-- The calls sleep the milliseconds of `t`, none of them without limit. -/
structure Exact (t : TimeUnit) : Prop where
  total : (((sleep t).map UInt32.toNat).sum : ℤ) = t.inMilliseconds.toInt
  limited : ∀ msec ∈ sleep t, msec < 2 ^ 32 - 1

/-- Each turn of the loop sleeps what it takes off the seconds. -/
structure Peeled (tsec : Int64) (peeled : List UInt32 × Int64) : Prop where
  slept : ((peeled.1.map UInt32.toNat).sum : ℤ) = (tsec.toInt - peeled.2.toInt) * 1000
  day : ∀ msec ∈ peeled.1, msec = 86400000
  low : 0 ≤ peeled.2.toInt
  high : peeled.2.toInt ≤ 86400

private theorem days_peeled (tsec : Int64) (nonneg : 0 ≤ tsec.toInt) : Peeled tsec (days tsec) := by
  induction tsec using days.induct with
  | case1 tsec long ih =>
    have above : (86400 : ℤ) < tsec.toInt := Int64.lt_iff_toInt_lt.mp long
    have less := less_day long
    obtain ⟨slept, day, low, high⟩ := ih (by omega)
    rw [days, if_pos long]
    refine ⟨?_, ?_, low, high⟩
    · rw [List.map_cons, List.sum_cons]
      change ((86400000 + _ : ℕ) : ℤ) = _
      rw [Int.natCast_add, slept, less]
      simp only
      omega
    · intro msec called
      rcases List.mem_cons.mp called with same | later
      · exact same
      · exact day msec later
  | case2 tsec short =>
    have below : tsec.toInt ≤ 86400 := by
      rw [Int64.lt_iff_toInt_lt] at short
      exact Int.not_lt.mp short
    rw [days, if_neg short]
    exact ⟨by simp, by simp, nonneg, below⟩

variable {t : TimeUnit}

/-- The last call does not wrap. -/
theorem last_toNat {tsec : Int64} (low : 0 ≤ tsec.toInt) (high : tsec.toInt ≤ 86400)
    (nonneg : 0 ≤ t.inMilliseconds.toInt) :
    ((tsec.toUInt64.toUInt32 * 1000 + t.inMilliseconds.toUInt64.toUInt32 % 1000).toNat : ℤ) =
      tsec.toInt * 1000 + t.inMilliseconds.toInt % 2 ^ 32 % 1000 := by
  have seconds : (tsec.toUInt64.toUInt32.toNat : ℤ) = tsec.toInt := by
    rw [toUInt32_toNat low]
    exact Int.emod_eq_of_lt low (by omega)
  have milli := toUInt32_toNat nonneg
  have small := Nat.mod_lt t.inMilliseconds.toUInt64.toUInt32.toNat (show 1000 > 0 by decide)
  rw [UInt32.toNat_add, UInt32.toNat_mul, UInt32.toNat_mod]
  change (((_ * 1000 % 2 ^ 32 + _ % 1000) % 2 ^ 32 : ℕ) : ℤ) = _
  rw [Nat.mod_eq_of_lt (show tsec.toUInt64.toUInt32.toNat * 1000 < 2 ^ 32 by omega),
    Nat.mod_eq_of_lt (by omega), ← milli, ← seconds]
  rfl

/-- What the pieces add up to. -/
theorem total_sleep (nonneg : 0 ≤ t.utc) :
    (((sleep t).map UInt32.toNat).sum : ℤ) =
      t.inSeconds.toInt * 1000 + t.inMilliseconds.toInt % 2 ^ 32 % 1000 := by
  have ticks : 0 ≤ t.utc.toInt := Int64.le_iff_toInt_le.mp nonneg
  have seconds := TimeUnit.inSeconds_toInt nonneg
  have milli := TimeUnit.inMilliseconds_toInt nonneg
  obtain ⟨slept, _, low, high⟩ := days_peeled t.inSeconds (by omega)
  have last := last_toNat (t := t) low high (by omega)
  simp only [sleep, List.map_append, List.sum_append, Int.natCast_add, slept, List.map_cons,
    List.map_nil, List.sum_cons, List.sum_nil, Nat.add_zero, last]
  omega

private theorem sleep_limited (nonneg : 0 ≤ t.utc) (msec : UInt32) (called : msec ∈ sleep t) :
    msec < 2 ^ 32 - 1 := by
  have ticks : 0 ≤ t.utc.toInt := Int64.le_iff_toInt_le.mp nonneg
  have seconds := TimeUnit.inSeconds_toInt nonneg
  have milli := TimeUnit.inMilliseconds_toInt nonneg
  obtain ⟨_, day, low, high⟩ := days_peeled t.inSeconds (by omega)
  have last := last_toNat (t := t) low high (by omega)
  rcases List.mem_append.mp called with whole | part
  · rw [day msec whole]
    decide
  · obtain rfl : msec = _ := by simpa using part
    rw [UInt32.lt_iff_toNat_lt]
    change _ < 4294967295
    omega

theorem whole_seconds_iff (lost : ℤ) : 1000 ∣ 2 ^ 32 * lost ↔ 125 ∣ lost := by
  omega

/-- The pieces add up to `t` exactly if what the milliseconds lose by being cut
down to 32 bits is a number of whole seconds. -/
theorem sleep_pieces_iff (nonneg : 0 ≤ t.utc) :
    Exact t ↔ 125 ∣ t.inMilliseconds.toInt / 2 ^ 32 := by
  have seconds : t.inSeconds.toInt * 1000 + t.inMilliseconds.toInt % 1000 =
      t.inMilliseconds.toInt := by
    rw [TimeUnit.inSeconds_toInt nonneg, TimeUnit.inMilliseconds_toInt nonneg]
    omega
  have total := total_sleep nonneg
  rw [← whole_seconds_iff, ← low_part_iff]
  constructor
  · intro exact_
    exact Int.add_left_cancel (total.symm.trans (exact_.total.trans seconds.symm))
  · intro whole
    refine ⟨?_, sleep_limited nonneg⟩
    rw [total, whole, seconds]

/-- Forty days. -/
theorem sleep_pieces_days : Exact ⟨34560000000000⟩ :=
  (sleep_pieces_iff (by decide)).mpr (by decide)

/-- 2^32 milliseconds, some 50 days: the part below a second is lost. -/
theorem sleep_pieces_short :
    ((sleep ⟨42949672960000⟩).map UInt32.toNat).sum = 4294967000 ∧ ¬ Exact ⟨42949672960000⟩ := by
  have total := total_sleep (t := ⟨42949672960000⟩) (by decide)
  have seconds : (TimeUnit.inSeconds ⟨42949672960000⟩).toInt = 4294967 := by decide
  have milli : (TimeUnit.inMilliseconds ⟨42949672960000⟩).toInt = 4294967296 := by decide
  refine ⟨by omega, fun exact_ => ?_⟩
  have same := exact_.total
  omega

end System.ThisThreadWin32

end Prot
