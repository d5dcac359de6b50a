import Prot.Lock.SemaphoreWin32

/-! What the Windows branches of `Semaphore::Wait`, `IEvent::Wait` and
`Thread::Wait` pass to `WaitForSingleObject`: a 64-bit number of milliseconds
cut down to a `DWORD`, one of whose values stands for no limit. -/

namespace Prot

open Time

namespace Lock.EventWin32

/-- The timeout of `IEvent::Wait`. -/
def timeout (t : TimeUnit) : UInt32 := t.inMilliseconds.toUInt64.toUInt32

/-- The timeout of `IEvent::Get`. -/
def getTimeout : UInt32 := timeout .infinite

end Lock.EventWin32

namespace Lock.SemaphoreWin32

/-- The timeout of `Semaphore::Get`. -/
def getTimeout : UInt32 := timeout .infinite

end Lock.SemaphoreWin32

namespace System.ThreadWin32

/-- The timeout of `Thread::Wait`. -/
def timeout (t : TimeUnit) : UInt32 := t.inMilliseconds.toUInt64.toUInt32

end System.ThreadWin32

namespace System.WindowsTimeout

open Lock
open Lock.SemaphoreWin32 (timeout infinite)

/-- The timeout stands for no limit if none was asked for, for the right number
of milliseconds where a `DWORD` can hold it, and beyond that for no less than
what any shorter time gets. -/
structure Respects (timeout : TimeUnit → UInt32) (t : TimeUnit) : Prop where
  unlimited : timeout t = infinite ↔ t.infinitely = true
  milliseconds : t.infinitely = false → t.inMilliseconds < 2 ^ 32 - 1 →
    ((timeout t).toNat : ℤ) = t.inMilliseconds.toInt
  monotone : t.infinitely = false → 2 ^ 32 - 1 ≤ t.inMilliseconds →
    ∀ t' : TimeUnit, 0 ≤ t'.utc → t'.utc < t.utc → timeout t' ≤ timeout t

/-- The shortest time whose milliseconds are taken for no limit. -/
def edge : TimeUnit := ⟨42949672950000⟩

variable {t : TimeUnit}

private theorem inMilliseconds_lt_iff (nonneg : 0 ≤ t.utc) :
    t.inMilliseconds < 2 ^ 32 - 1 ↔ t.utc < edge.utc := by
  have cut := TimeUnit.inMilliseconds_toInt nonneg
  have last : (2 ^ 32 - 1 : Int64).toInt = 4294967295 := by decide
  have units : edge.utc.toInt = 42949672950000 := by decide
  rw [Int64.lt_iff_toInt_lt, Int64.lt_iff_toInt_lt, cut, last, units]
  omega

private theorem timeout_toNat (nonneg : 0 ≤ t.utc) :
    ((timeout t).toNat : ℤ) = t.inMilliseconds.toInt % 2 ^ 32 := by
  refine toUInt32_toNat ?_
  rw [TimeUnit.inMilliseconds_toInt nonneg]
  exact Int.ediv_nonneg (Int64.le_iff_toInt_le.mp nonneg) (by decide)

private theorem timeout_infinite : timeout .infinite ≠ infinite := by decide

private theorem timeout_edge : timeout edge = infinite := by decide

private theorem respects_of_short (nonneg : 0 ≤ t.utc) (short : t.utc < edge.utc) :
    Respects timeout t := by
  have fits := (inMilliseconds_lt_iff nonneg).mpr short
  have cast := timeout_toNat nonneg
  have low : 0 ≤ t.utc.toInt := Int64.le_iff_toInt_le.mp nonneg
  have cut := TimeUnit.inMilliseconds_toInt nonneg
  have below : t.inMilliseconds.toInt < 4294967295 := Int64.lt_iff_toInt_lt.mp fits
  have limited : t.infinitely = false := by
    refine beq_eq_false_iff_ne.mpr fun unlimited => ?_
    rw [unlimited] at short
    exact absurd short (by decide)
  refine ⟨?_, fun _ _ => ?_, fun _ long => ?_⟩
  · rw [limited]
    refine iff_of_false (fun endless => ?_) Bool.false_ne_true
    rw [endless] at cast
    have most : ((infinite.toNat : ℕ) : ℤ) = 4294967295 := rfl
    omega
  · omega
  · have late : 4294967295 ≤ t.inMilliseconds.toInt := Int64.le_iff_toInt_le.mp long
    omega

private theorem short_of_respects (nonneg : 0 ≤ t.utc) (respects : Respects timeout t) :
    t.utc < edge.utc := by
  by_contra long
  have limited : t.infinitely = false := by
    cases unlimited : t.infinitely with
    | false => rfl
    | true =>
      have same : t = .infinite := congrArg TimeUnit.mk (eq_of_beq unlimited)
      subst same
      exact absurd (respects.unlimited.mpr unlimited) timeout_infinite
  have finite : timeout t ≠ infinite := fun endless => by
    cases limited.symm.trans (respects.unlimited.mp endless)
  have late : 4294967295 ≤ t.inMilliseconds.toInt := by
    have fits := mt (inMilliseconds_lt_iff nonneg).mp long
    rw [Int64.lt_iff_toInt_lt] at fits
    exact Int.not_lt.mp fits
  by_cases exactly : t.inMilliseconds.toInt = 4294967295
  · have cast := timeout_toNat nonneg
    rw [exactly] at cast
    have top : infinite.toNat = 4294967295 := rfl
    refine finite (UInt32.toNat_inj.mp ?_)
    omega
  · have cut := TimeUnit.inMilliseconds_toInt nonneg
    have beyond : edge.utc < t.utc := by
      have units : edge.utc.toInt = 42949672950000 := by decide
      rw [Int64.lt_iff_toInt_lt, units]
      omega
    have most := respects.monotone limited (Int64.le_iff_toInt_le.mpr late) edge (by decide) beyond
    rw [timeout_edge, UInt32.le_iff_toNat_le] at most
    have bound := (timeout t).toNat_lt
    refine finite (UInt32.toNat_inj.mp ?_)
    have top : infinite.toNat = 4294967295 := rfl
    omega

private theorem timeout_respects_iff (nonneg : 0 ≤ t.utc) :
    Respects timeout t ↔ t.utc < edge.utc :=
  ⟨short_of_respects nonneg, respects_of_short nonneg⟩

/-- All three waits respect exactly the times below 2^32 - 1 milliseconds, so
none of them can wait without limit. -/
theorem respects_iff (t : TimeUnit) (nonneg : 0 ≤ t.utc) :
    (Respects SemaphoreWin32.timeout t ↔ t.utc < edge.utc) ∧
    (Respects EventWin32.timeout t ↔ t.utc < edge.utc) ∧
    (Respects ThreadWin32.timeout t ↔ t.utc < edge.utc) := by
  have same := timeout_respects_iff nonneg
  exact ⟨same, same, same⟩

theorem respects_second : Respects SemaphoreWin32.timeout ⟨10000000⟩ :=
  (respects_iff ⟨10000000⟩ (by decide)).1.mpr (by decide)

/-- `Get` gives up after 18 days. -/
theorem get_limited : SemaphoreWin32.getTimeout = 1566804069 ∧ EventWin32.getTimeout = 1566804069 ∧
    ¬ Respects SemaphoreWin32.timeout .infinite ∧ ¬ Respects EventWin32.timeout .infinite ∧
    ¬ Respects ThreadWin32.timeout .infinite := by
  have wrong : ¬ Respects timeout .infinite := fun respects =>
    timeout_infinite (respects.unlimited.mpr rfl)
  exact ⟨by decide, by decide, wrong, wrong, wrong⟩

end System.WindowsTimeout

end Prot
