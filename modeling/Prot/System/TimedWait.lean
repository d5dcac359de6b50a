import Prot.Time.Deadline
import Prot.System.Thread

/-! The timed waits of the POSIX branches: each constructor chooses the clock of
its condition variable, and each `Wait` reads a clock, adds the time to it and
passes the sum to `pthread_cond_timedwait`. -/

namespace Prot

open Concurrency Time

namespace System.TimedWait

/-- The clock of the attributes, after `pthread_condattr_setclock` was tried. -/
def attrClock (clockSet : Bool) : Clock := if clockSet then .monotonic else .realtime

/-- `pthread_cond_init` with the attributes, or with none. -/
def condInit (withAttr : Bool) (clockSet : Bool) : Clock :=
  if withAttr then attrClock clockSet else .realtime

/-- `gettimeofday` and the parts of a `TimeUnit`, before the carry. -/
def fromTimeval (tv : Timeval) (t : TimeUnit) : Timespec :=
  ⟨tv.sec + t.inSeconds, tv.usec * 1000 + t.inNanoseconds % 1000000000⟩

/-- The clock that is read, and the deadline made of it. -/
def timed (tickClock : Bool) (clocks : Clocks) (t : TimeUnit) : Clock × Timespec :=
  if tickClock then (.monotonic, (clocks.monotonic.plus t).carry)
  else (.realtime, (fromTimeval clocks.realtime t).carry)

end System.TimedWait

open System.TimedWait

namespace Lock.Semaphore

def sdflagTickclock : Int32 := 1

/-- The `flag` the constructor leaves: one bit is set in what the block of
memory held, if the clock could be set. -/
def constructFlag (bytes : Int32) (clockSet : Bool) : Int32 :=
  if clockSet then bytes ||| sdflagTickclock else bytes

/-- The clock of `l_cond`. -/
def constructCond (bytes : Int32) (clockSet : Bool) : Clock :=
  condInit (constructFlag bytes clockSet &&& sdflagTickclock ≠ 0) clockSet

/-- The deadline of `Semaphore::Wait`, where it has one. -/
def deadline (flag : Int32) (clocks : Clocks) (t : TimeUnit) : Option (Clock × Timespec) :=
  if t.empty then none
  else if t.infinitely then none
  else some (timed (flag &&& sdflagTickclock ≠ 0) clocks t)

end Lock.Semaphore

namespace Lock.Event

def edflagManureset : UInt8 := 1
def edflagTickclock : UInt8 := 4

/-- The `flag` before the clock is tried. -/
def typeFlag (manual : Bool) : UInt8 := if manual then edflagManureset else 0

/-- The `flag` the constructor leaves. -/
def constructFlag (manual clockSet : Bool) : UInt8 :=
  if clockSet then typeFlag manual ||| edflagTickclock else typeFlag manual

/-- The clock of `cond`. -/
def constructCond (manual clockSet : Bool) : Clock :=
  condInit (constructFlag manual clockSet &&& edflagTickclock ≠ 0) clockSet

/-- The deadline of `IEvent::Wait`, where it has one. -/
def deadline (flag : UInt8) (clocks : Clocks) (t : TimeUnit) : Option (Clock × Timespec) :=
  if t.empty then none
  else if t.infinitely then none
  else some (timed (flag &&& edflagTickclock ≠ 0) clocks t)

end Lock.Event

namespace System.Thread

/-- The clock of `exited`, as the constructor initialises it. -/
def constructCond (flag : Flag) (clockSet : Bool) : Clock := condInit flag.tickLock clockSet

/-- The deadline of `Thread::Wait`, where it has one. -/
def deadline (flag : Flag) (clocks : Clocks) (t : TimeUnit) : Option (Clock × Timespec) :=
  if t.infinitely then none
  else if t.empty then none
  else some (timed flag.tickLock clocks t)

variable {Caller Arg : Type} [DecidableEq Caller] {s s' : State Caller Arg}
variable {caller : Caller} {action : Action Caller Arg}

private theorem lock_tickLock {p : Pc Arg} (taken : s.lock caller p = some s') :
    s'.data.flag.tickLock = s.data.flag.tickLock := by
  obtain ⟨mutex, _, rfl⟩ := Option.map_eq_some_iff.mp taken
  rfl

private theorem next_tickLock (taken : s.next caller = some s') :
    s'.data.flag.tickLock = s.data.flag.tickLock := by
  cases here : s.pc caller <;> simp only [State.next, here] at taken
  case idle | gone | waitState => cases taken
  case waitLock | killLock | relock | destroyLock => exact lock_tickLock taken
  case blocked waiter =>
    split at taken
    · cases taken
    · exact lock_tickLock taken
  case waitJudge ret => cases ret <;> cases taken <;> rfl
  all_goals
    cases taken
    rfl

omit [DecidableEq Caller] in
private theorem threadNext_tickLock {k : ℕ} (taken : s.threadNext k = some s') :
    s'.data.flag.tickLock = s.data.flag.tickLock := by
  cases here : s.place k <;> simp only [State.threadNext, here] at taken
  case unborn | ended => cases taken
  case exitLock =>
    obtain ⟨mutex, _, rfl⟩ := Option.map_eq_some_iff.mp taken
    rfl
  all_goals
    cases taken
    rfl

/-- No step touches `TDFLAG_TICKLOCK`. -/
theorem step_tickLock (taken : step s action = some s') :
    s'.data.flag.tickLock = s.data.flag.tickLock := by
  cases action with
  | run caller => exact next_tickLock taken
  | thread k => exact threadNext_tickLock taken
  | elsewhere =>
    cases taken
    rfl
  | state caller offline =>
    simp only [step] at taken
    split at taken
    · split at taken <;> cases taken
      rfl
    · cases taken
  | _ =>
    simp only [step] at taken
    split at taken <;> cases taken <;> rfl

/-- So every reachable state has the bit that the constructor set. -/
theorem reachable_tickLock {func clockSet : Bool} {args : Arg} {tidMax : UInt32}
    {actions : List (Action Caller Arg)}
    (ran : exec step (construct func args clockSet tidMax) actions = some s) :
    s.data.flag.tickLock = clockSet :=
  exec_invariant (fun s => s.data.flag.tickLock = clockSet)
    (fun _ _ _ same taken => (step_tickLock taken).trans same) rfl ran

end System.Thread

namespace System.TimedWait

open Lock

/-- The wait has a deadline, read from the clock of its condition variable, and
it is exactly `t` from that clock's time. -/
def Right (cond : Clock) (clocks : Clocks) (t : TimeUnit)
    (deadline : Option (Clock × Timespec)) : Prop :=
  ∃ ts, deadline = some (cond, ts) ∧ ts.Exact (clocks.now cond) t

variable {clocks : Clocks} {t : TimeUnit}

private theorem usec_toInt {tv : Timeval} (valid : 0 ≤ tv.usec ∧ tv.usec < 1000000) :
    (tv.usec * 1000).toInt = tv.usec.toInt * 1000 := by
  have low : 0 ≤ tv.usec.toInt := Int64.le_iff_toInt_le.mp valid.1
  have high : tv.usec.toInt < 1000000 := Int64.lt_iff_toInt_lt.mp valid.2
  rw [Int64.toInt_mul]
  exact Int.bmod_eq_of_le (by change _ ≤ _ * 1000; omega) (by change _ * 1000 < _; omega)

private theorem fromTimeval_exact_iff {tv : Timeval} (valid : 0 ≤ tv.usec ∧ tv.usec < 1000000)
    (timed : t.Timed) :
    (fromTimeval tv t).carry.Exact tv.inNanoseconds t ↔ t.Fits tv.inNanoseconds := by
  have usec := usec_toInt valid
  have low : 0 ≤ tv.usec.toInt := Int64.le_iff_toInt_le.mp valid.1
  have high : tv.usec.toInt < 1000000 := Int64.lt_iff_toInt_lt.mp valid.2
  have same : (⟨tv.sec, tv.usec * 1000⟩ : Timespec).inNanoseconds = tv.inNanoseconds := by
    rw [Timespec.inNanoseconds, Timeval.inNanoseconds, usec]
  have parts : fromTimeval tv t = Timespec.plus ⟨tv.sec, tv.usec * 1000⟩ t := rfl
  have second : (1000000000 : Int64).toInt = 1000000000 := by decide
  rw [← same, parts]
  refine deadline_iff_fits ⟨?_, ?_⟩ timed
  · rw [Int64.le_iff_toInt_le, usec, Int64.toInt_zero]
    omega
  · rw [Int64.lt_iff_toInt_lt, usec, second]
    omega

/-- A timed wait is right if it reads the clock of its condition variable and
the deadline fits. -/
theorem timed_right_iff (valid : clocks.Valid) (finite : t.Timed) (tickClock : Bool)
    (cond : Clock) :
    Right cond clocks t (some (timed tickClock clocks t)) ↔
      cond = attrClock tickClock ∧ t.Fits (clocks.now (attrClock tickClock)) := by
  have each : (timed tickClock clocks t).2.Exact (clocks.now (attrClock tickClock)) t ↔
      t.Fits (clocks.now (attrClock tickClock)) := by
    cases tickClock with
    | true => exact deadline_iff_fits valid.nsec finite
    | false => exact fromTimeval_exact_iff valid.usec finite
  have clock : (timed tickClock clocks t).1 = attrClock tickClock := by
    cases tickClock <;> rfl
  rw [← each]
  constructor
  · rintro ⟨ts, same, right⟩
    have same := Option.some.inj same
    rw [← clock]
    rw [same]
    exact ⟨rfl, right⟩
  · rintro ⟨rfl, right⟩
    exact ⟨_, by rw [← clock], right⟩

theorem limited (finite : t.Timed) : t.empty = false ∧ t.infinitely = false := by
  refine ⟨beq_eq_false_iff_ne.mpr fun zero => ?_, beq_eq_false_iff_ne.mpr fun endless => ?_⟩
  · exact absurd (zero ▸ finite.1) (by decide)
  · exact absurd (endless ▸ finite.2) (by decide)

private theorem or_tickclock (bytes : Int32) :
    (bytes ||| Semaphore.sdflagTickclock) &&& Semaphore.sdflagTickclock =
      Semaphore.sdflagTickclock := by
  rw [← Int32.toBitVec_inj]
  change (bytes.toBitVec ||| 1#32) &&& 1#32 = 1#32
  ext i
  simp only [BitVec.getElem_and, BitVec.getElem_or, BitVec.getElem_one]
  grind

/-- The semaphore's flag tells its clock unless the clock could not be set and
the bit was there before. -/
theorem semaphore_clock_iff (bytes : Int32) (clockSet : Bool) :
    Semaphore.constructCond bytes clockSet =
        attrClock (Semaphore.constructFlag bytes clockSet &&& Semaphore.sdflagTickclock ≠ 0) ↔
      clockSet = true ∨ bytes &&& Semaphore.sdflagTickclock = 0 := by
  cases clockSet with
  | true =>
    have set : (bytes ||| Semaphore.sdflagTickclock) &&& Semaphore.sdflagTickclock ≠ 0 := by
      rw [or_tickclock]
      decide
    simp [Semaphore.constructCond, Semaphore.constructFlag, condInit, attrClock, set]
  | false =>
    by_cases clear : bytes &&& Semaphore.sdflagTickclock = 0
    · simp [Semaphore.constructCond, Semaphore.constructFlag, condInit, attrClock, clear]
    · simp [Semaphore.constructCond, Semaphore.constructFlag, condInit, attrClock, clear]

private theorem event_clock (manual clockSet : Bool) :
    (Event.constructFlag manual clockSet &&& Event.edflagTickclock ≠ 0) ↔ clockSet = true := by
  cases manual <;> cases clockSet <;> decide

private theorem semaphore_right_iff (valid : clocks.Valid) (finite : t.Timed) (bytes : Int32)
    (clockSet : Bool) :
    Right (Semaphore.constructCond bytes clockSet) clocks t
        (Semaphore.deadline (Semaphore.constructFlag bytes clockSet) clocks t) ↔
      (clockSet = true ∨ bytes &&& Semaphore.sdflagTickclock = 0) ∧
        t.Fits (clocks.now (attrClock clockSet)) := by
  obtain ⟨started, ends⟩ := limited finite
  rw [Semaphore.deadline, started, ends, if_neg Bool.false_ne_true, if_neg Bool.false_ne_true,
    timed_right_iff valid finite, semaphore_clock_iff]
  refine and_congr_right fun told => ?_
  have read := (semaphore_clock_iff bytes clockSet).mpr told
  rw [← read]
  cases clockSet with
  | true =>
    have same : Semaphore.constructCond bytes true = attrClock true := by
      rw [read, Semaphore.constructFlag, if_pos rfl, or_tickclock]
      rfl
    rw [same]
  | false =>
    have same : Semaphore.constructCond bytes false = attrClock false := by
      unfold Semaphore.constructCond condInit
      split <;> rfl
    rw [same]

private theorem event_right_iff (valid : clocks.Valid) (finite : t.Timed) (manual clockSet : Bool) :
    Right (Event.constructCond manual clockSet) clocks t
        (Event.deadline (Event.constructFlag manual clockSet) clocks t) ↔
      t.Fits (clocks.now (attrClock clockSet)) := by
  obtain ⟨started, ends⟩ := limited finite
  have tells := event_clock manual clockSet
  rw [Event.deadline, started, ends, if_neg Bool.false_ne_true, if_neg Bool.false_ne_true,
    timed_right_iff valid finite, Event.constructCond]
  simp only [tells, Bool.decide_eq_true]
  refine and_iff_right ?_
  cases clockSet <;> rfl

private theorem thread_right_iff (valid : clocks.Valid) (finite : t.Timed)
    {flag start : Thread.Flag}
    {clockSet : Bool} (atFirst : start.tickLock = clockSet) (now : flag.tickLock = clockSet) :
    Right (Thread.constructCond start clockSet) clocks t (Thread.deadline flag clocks t) ↔
      t.Fits (clocks.now (attrClock clockSet)) := by
  obtain ⟨started, ends⟩ := limited finite
  rw [Thread.deadline, started, ends, if_neg Bool.false_ne_true, if_neg Bool.false_ne_true,
    timed_right_iff valid finite, Thread.constructCond, atFirst, now]
  refine and_iff_right ?_
  cases clockSet <;> rfl

/-- Each timed wait has the right deadline exactly where the time in nanoseconds
and the deadline in seconds fit in 64 bits; for a semaphore also the clock must
have been set or the bit for it have been clear. -/
theorem deadline_right_iff (clocks : Clocks) (valid : clocks.Valid) (t : TimeUnit)
    (finite : t.Timed) (clockSet : Bool) :
    (∀ bytes : Int32,
      Right (Semaphore.constructCond bytes clockSet) clocks t
          (Semaphore.deadline (Semaphore.constructFlag bytes clockSet) clocks t) ↔
        (clockSet = true ∨ bytes &&& Semaphore.sdflagTickclock = 0) ∧
          t.Fits (clocks.now (attrClock clockSet))) ∧
    (∀ manual : Bool,
      Right (Event.constructCond manual clockSet) clocks t
          (Event.deadline (Event.constructFlag manual clockSet) clocks t) ↔
        t.Fits (clocks.now (attrClock clockSet))) ∧
    (∀ (Caller Arg : Type) [DecidableEq Caller] (func : Bool) (args : Arg) (tidMax : UInt32)
      (actions : List (Thread.Action Caller Arg)) (s : Thread.State Caller Arg),
      exec Thread.step (Thread.construct func args clockSet tidMax) actions = some s →
      (Right (Thread.constructCond
            (Thread.construct func args clockSet tidMax : Thread.State Caller Arg).data.flag clockSet)
          clocks t (Thread.deadline s.data.flag clocks t) ↔
        t.Fits (clocks.now (attrClock clockSet)))) := by
  refine ⟨fun bytes => semaphore_right_iff valid finite bytes clockSet,
    fun manual => event_right_iff valid finite manual clockSet, ?_⟩
  intro Caller Arg _ func args tidMax actions s ran
  exact thread_right_iff valid finite rfl (Thread.reachable_tickLock ran)

theorem deadline_right_second :
    Right .monotonic ⟨⟨5, 600000000⟩, ⟨0, 0⟩⟩ ⟨15000000⟩
      (Semaphore.deadline 1 ⟨⟨5, 600000000⟩, ⟨0, 0⟩⟩ ⟨15000000⟩) :=
  ((deadline_right_iff ⟨⟨5, 600000000⟩, ⟨0, 0⟩⟩ ⟨by decide, by decide⟩ ⟨15000000⟩
    ⟨by decide, by decide⟩ true).1 0).mpr ⟨.inl rfl, by decide, by decide⟩

/-- A semaphore whose clock could not be set while the bit was set by chance
reads the wrong clock, and from 292 years on the nanoseconds are negative. -/
theorem wrong_deadlines :
    Semaphore.constructCond 1 false = .realtime ∧
    Semaphore.deadline (Semaphore.constructFlag 1 false) ⟨⟨5, 0⟩, ⟨9, 0⟩⟩ ⟨10000000⟩ =
      some (.monotonic, ⟨6, 0⟩) ∧
    Event.deadline (Event.constructFlag false true) ⟨⟨5, 0⟩, ⟨9, 0⟩⟩ ⟨92233720368547759⟩ =
      some (.monotonic, ⟨9223372041, -854775716⟩) ∧
    ¬ Right (Semaphore.constructCond 1 false) ⟨⟨5, 0⟩, ⟨9, 0⟩⟩ ⟨10000000⟩
      (Semaphore.deadline (Semaphore.constructFlag 1 false) ⟨⟨5, 0⟩, ⟨9, 0⟩⟩ ⟨10000000⟩) ∧
    ¬ Right (Event.constructCond false true) ⟨⟨5, 0⟩, ⟨9, 0⟩⟩ ⟨92233720368547759⟩
      (Event.deadline (Event.constructFlag false true) ⟨⟨5, 0⟩, ⟨9, 0⟩⟩ ⟨92233720368547759⟩) := by
  have valid : Clocks.Valid ⟨⟨5, 0⟩, ⟨9, 0⟩⟩ := ⟨by decide, by decide⟩
  refine ⟨by decide, by decide, by decide, fun right => ?_, fun right => ?_⟩
  · have told := ((semaphore_right_iff valid ⟨by decide, by decide⟩ 1 false).mp right).1
    exact absurd told (by decide)
  · have fits := (event_right_iff valid ⟨by decide, by decide⟩ false true).mp right
    exact absurd fits.1 (by decide)

end System.TimedWait

end Prot
