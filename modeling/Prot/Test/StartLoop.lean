import Prot.Lock.Semaphore
import Prot.Memory.Heap
import Mathlib.Algebra.Group.Int.Defs
import Mathlib.Algebra.Group.Nat.Defs
import Mathlib.Data.Nat.Count
import Mathlib.Data.Int.Basic

/-! `MultiThreadTest` of `unittest.cpp` up to its join: how many workers it
starts, and how many times it waits for one. -/

namespace Prot.Test.MultiThread

open Memory

/-- The first value of `ncore_lines`. -/
def initialLines (cores : Int32) : Int32 :=
  if 0 < cores then cores * 2 else 2

/-- The loop that starts the workers: its counter, `ncore_lines`, and how many
calls of `Thread::Run` it has made and how many of these succeeded. -/
structure Start where
  i : Int32
  lines : Int32
  attempts : ℕ
  started : ℕ
  deriving DecidableEq, Repr

/-- One iteration; `ok` is what `test_thread.Run` returns. -/
def Start.attempt (s : Start) (ok : Bool) : Start where
  i := s.i + 1
  lines := if ok then s.lines else s.lines - 1
  attempts := s.attempts + 1
  started := if ok then s.started + 1 else s.started

/-- `for (i = 0; i < ncore_lines; i++)`; `run k` is the outcome of the `k`-th
call of `Thread::Run`. -/
def startLoop (run : ℕ → Bool) : ℕ → Start → Start
  | 0, s => s
  | fuel + 1, s => if s.i < s.lines then startLoop run fuel (s.attempt (run s.attempts)) else s

/-- `semlock(0, ncore_lines)`; `none` where its `_smo` is null. -/
def semlock (cores : Int32) : Option (Lock.Semaphore.State ℕ) :=
  Lock.Semaphore.construct 0 (initialLines cores)

/-- `while (i < ncore_lines)`; the number of its `semlock.Wait` calls, each of which
reads `_smo` as the `Post` of a worker does. -/
def joinLoop (sem : Option (Lock.Semaphore.State ℕ)) (lines : Int32) :
    ℕ → Int32 → Except Fault ℕ
  | 0, _ => .ok 0
  | fuel + 1, i =>
    if i < lines then
      match sem with
      | none => .error .null
      | some _ => (joinLoop sem lines fuel (i + 1)).map (· + 1)
    else .ok 0

/-- What `MultiThreadTest` has done when it is past its join. -/
structure Joined where
  started : ℕ
  fallback : Bool
  waits : ℕ
  deriving DecidableEq, Repr

def startWorkers (cores : Int32) (run : ℕ → Bool) : Start :=
  startLoop run (initialLines cores).toInt.toNat ⟨0, initialLines cores, 0, 0⟩

def multiThreadTest (cores : Int32) (run : ℕ → Bool) : Except Fault Joined :=
  let s := startWorkers cores run
  if s.lines = 0 then .ok ⟨s.started, true, 0⟩
  else (joinLoop (semlock cores) s.lines s.lines.toInt.toNat 0).map fun waits =>
    ⟨s.started, false, waits⟩

/-- The runner waits once for each worker, and tests on its own if it has
none. -/
def Exact : Except Fault Joined → Prop
  | .ok joined =>
    joined.waits = joined.started ∧ (joined.started = 0 → joined.fallback = true)
  | .error _ => False

instance : ∀ result, Decidable (Exact result)
  | .ok joined => inferInstanceAs (Decidable
      (joined.waits = joined.started ∧ (joined.started = 0 → joined.fallback = true)))
  | .error _ => .isFalse id

def failures (run : ℕ → Bool) (k : ℕ) : ℕ := Nat.count (fun j => run j = false) k

variable {run : ℕ → Bool} {cores : Int32} {k n : ℕ} {s : Start}

theorem failures_succ : failures run (k + 1) = failures run k + if run k = false then 1 else 0 :=
  Nat.count_succ _ _

private theorem failures_le : failures run k ≤ k := Nat.count_le _

private theorem failures_eq_zero_iff : failures run k = 0 ↔ ∀ j, j < k → run j = true := by
  induction k with
  | zero => simp [failures]
  | succ k ih =>
    rw [failures_succ, Nat.add_eq_zero_iff, ih]
    constructor
    · rintro ⟨before, here⟩ j below
      rcases Nat.lt_succ_iff_lt_or_eq.mp below with earlier | rfl
      · exact before j earlier
      · by_contra failed
        rw [if_pos (by simpa using failed)] at here
        cases here
    · intro all
      exact ⟨fun j below => all j (by omega), by simp [all k (by omega)]⟩

/-- The loop after `k` iterations that began with `n` lines. -/
structure At (run : ℕ → Bool) (n k : ℕ) (s : Start) : Prop where
  attempts : s.attempts = k
  i : s.i.toInt = k
  lines : s.lines.toInt = n - failures run k
  started : s.started + failures run k = k

theorem At.attempt (here : At run n k s) (more : s.i < s.lines) :
    At run n (k + 1) (s.attempt (run s.attempts)) := by
  obtain ⟨attempts, i, lines, started⟩ := here
  have low := s.lines.le_toInt
  have high := s.lines.toInt_lt
  rw [Int32.lt_iff_toInt_lt] at more
  have counted : (s.i + 1).toInt = (k + 1 : ℕ) := by
    rw [Int32.toInt_add, i, Int.bmod_eq_of_le] <;> simp <;> omega
  subst attempts
  have next := @failures_succ run s.attempts
  cases ok : run s.attempts with
  | true =>
    rw [ok] at next
    simp at next
    exact ⟨rfl, counted, by simpa [Start.attempt, next] using lines, by simp [Start.attempt]; omega⟩
  | false =>
    rw [ok, if_pos rfl] at next
    refine ⟨rfl, counted, ?_, by simp [Start.attempt]; omega⟩
    have fewer : (s.lines - 1).toInt = s.lines.toInt - 1 := by
      rw [Int32.toInt_sub, Int.bmod_eq_of_le] <;> simp <;> omega
    simp [Start.attempt, fewer]
    omega

def Stops (run : ℕ → Bool) (n k : ℕ) : Prop :=
  n ≤ k + failures run k ∧ ∀ j, j < k → j + failures run j < n

private theorem startLoop_stops (fuel : ℕ) (here : At run n k s) (enough : n ≤ k + fuel)
    (before : ∀ j, j < k → j + failures run j < n) :
    ∃ m, Stops run n m ∧ At run n m (startLoop run fuel s) := by
  induction fuel generalizing k s with
  | zero => exact ⟨k, ⟨by omega, before⟩, here⟩
  | succ fuel ih =>
    unfold startLoop
    have test : s.i < s.lines ↔ k + failures run k < n := by
      rw [Int32.lt_iff_toInt_lt, here.i, here.lines]
      omega
    by_cases more : s.i < s.lines
    · rw [if_pos more]
      apply ih (here.attempt more) (by omega)
      intro j below
      rcases Nat.lt_succ_iff_lt_or_eq.mp below with earlier | rfl
      · exact before j earlier
      · exact test.mp more
    · rw [if_neg more]
      rw [test] at more
      exact ⟨k, ⟨by omega, before⟩, here⟩

private theorem joinLoop_eq {sem : Lock.Semaphore.State ℕ} {lines : Int32} (fuel : ℕ) (i : Int32)
    (enough : lines.toInt ≤ i.toInt + fuel) :
    joinLoop (some sem) lines fuel i = .ok (lines.toInt - i.toInt).toNat := by
  induction fuel generalizing i with
  | zero =>
    have none_ : (lines.toInt - i.toInt).toNat = 0 := by omega
    rw [joinLoop, none_]
  | succ fuel ih =>
    unfold joinLoop
    by_cases more : i < lines
    · rw [if_pos more]
      rw [Int32.lt_iff_toInt_lt] at more
      have low := i.le_toInt
      have high := lines.toInt_lt
      have next : (i + 1).toInt = i.toInt + 1 := by
        rw [Int32.toInt_add, Int.bmod_eq_of_le] <;> simp <;> omega
      simp only [ih (i + 1) (by omega), next, Except.map]
      congr 1
      omega
    · rw [if_neg more]
      rw [Int32.lt_iff_toInt_lt] at more
      have none_ : (lines.toInt - i.toInt).toNat = 0 := by omega
      rw [none_]

private theorem joinLoop_null {lines : Int32} {fuel : ℕ} {i : Int32} (more : i < lines) :
    joinLoop none lines (fuel + 1) i = .error .null := by
  rw [joinLoop, if_pos more]

private theorem semlock_eq {n : ℕ} (two : 2 ≤ n) (lines : (initialLines cores).toInt = n) :
    semlock cores = if n ≤ 2109876543 then some (Lock.Semaphore.fresh 0 (initialLines cores))
      else none := by
  have first : (0 : Int32) ≤ initialLines cores ∧ (0 : Int32) < initialLines cores := by
    rw [Int32.le_iff_toInt_le, Int32.lt_iff_toInt_lt, lines, show (0 : Int32).toInt = 0 from rfl]
    omega
  have most : initialLines cores ≤ Lock.Semaphore.maximumCount ↔ n ≤ 2109876543 := by
    rw [Int32.le_iff_toInt_le, lines,
      show Lock.Semaphore.maximumCount.toInt = 2109876543 from rfl]
    omega
  have start : (0 : Int32) ≤ 0 := Int32.le_refl 0
  simp only [semlock, Lock.Semaphore.construct, most, first, start, true_and]

private theorem initialLines_fits (small : cores.toInt < 2 ^ 30) :
    ∃ n : ℕ, 2 ≤ n ∧ (initialLines cores).toInt = n := by
  unfold initialLines
  by_cases some_ : 0 < cores
  · rw [if_pos some_]
    rw [Int32.lt_iff_toInt_lt] at some_
    simp only [Int32.reduceToInt] at some_
    refine ⟨(cores.toInt * 2).toNat, by omega, ?_⟩
    rw [Int32.toInt_mul, Int.bmod_eq_of_le] <;> simp <;> omega
  · exact ⟨2, Nat.le_refl _, by rw [if_neg some_]; rfl⟩

private theorem initialLines_wraps (large : 2 ^ 30 ≤ cores.toInt) :
    (initialLines cores).toInt < 0 := by
  have high := cores.toInt_lt
  have some_ : 0 < cores := by
    rw [Int32.lt_iff_toInt_lt]
    simp only [Int32.reduceToInt]
    omega
  unfold initialLines
  rw [if_pos some_, Int32.toInt_mul]
  have wraps : (cores.toInt * (2 : Int32).toInt).bmod (2 ^ 32) = cores.toInt * 2 - 2 ^ 32 := by
    simp only [Int32.reduceToInt]
    rw [Int.bmod_def]
    split <;> omega
  omega

/-- The loop makes as many attempts as there were lines exactly if no attempt
before the last one fails. -/
theorem Stops.attempts_iff {m : ℕ} (stops : Stops run n m) (positive : 0 < n) :
    m = n ↔ failures run (n - 1) = 0 := by
  obtain ⟨ended, before⟩ := stops
  constructor
  · rintro rfl
    have last := before (m - 1) (by omega)
    omega
  · intro none
    have most : m ≤ n := by
      by_contra longer
      have at_ := before n (by omega)
      omega
    by_contra different
    have below : m ≤ n - 1 := by omega
    have fewer : failures run m ≤ failures run (n - 1) := Nat.count_monotone _ below
    omega

private theorem Stops.failures_le_one (stops : Stops run n n) (positive : 0 < n) :
    failures run n ≤ 1 := by
  have next := @failures_succ run (n - 1)
  rw [Nat.sub_add_cancel positive, (stops.attempts_iff positive).mp rfl] at next
  split at next <;> omega

private theorem Stops.failures_lt {m : ℕ} (stops : Stops run n m) (two : 2 ≤ n) :
    failures run m < n := by
  cases m with
  | zero =>
    simp [failures]
    omega
  | succ m =>
    have last := stops.2 m (by omega)
    have within : failures run m ≤ m := failures_le
    have next := @failures_succ run m
    split at next <;> omega

private theorem multiThreadTest_eq (two : 2 ≤ n) (lines : (initialLines cores).toInt = n) :
    ∃ m, Stops run n m ∧ multiThreadTest cores run =
      if n ≤ 2109876543 then .ok ⟨m - failures run m, false, n - failures run m⟩
      else .error .null := by
  have entry : At run n 0 ⟨0, initialLines cores, 0, 0⟩ :=
    ⟨rfl, rfl, by simpa [failures] using lines, rfl⟩
  obtain ⟨m, stops, ended⟩ := startLoop_stops n entry (by omega) (by simp)
  have ran : startWorkers cores run = startLoop run n ⟨0, initialLines cores, 0, 0⟩ := by
    rw [startWorkers, lines, Int.toNat_natCast]
  rw [← ran] at ended
  obtain ⟨_, _, left, started⟩ := ended
  have fewer := stops.failures_lt two
  have zero : (0 : Int32).toInt = 0 := rfl
  have positive : 0 < (startWorkers cores run).lines := by
    rw [Int32.lt_iff_toInt_lt, left, zero]
    omega
  have nonzero : (startWorkers cores run).lines ≠ 0 := by
    intro same
    rw [same] at positive
    exact absurd positive (by decide)
  refine ⟨m, stops, ?_⟩
  rw [multiThreadTest, if_neg nonzero, semlock_eq two lines]
  by_cases small : n ≤ 2109876543
  · rw [if_pos small, if_pos small, joinLoop_eq _ 0 (by rw [zero]; omega), left, zero,
      Nat.eq_sub_of_add_eq started]
    simp only [Except.map]
    congr 2
    omega
  · obtain ⟨fuel, same⟩ : ∃ fuel, (startWorkers cores run).lines.toInt.toNat = fuel + 1 :=
      ⟨(startWorkers cores run).lines.toInt.toNat - 1, by omega⟩
    rw [if_neg small, if_neg small, same, joinLoop_null positive]
    rfl

private theorem multiThreadTest_wraps (large : 2 ^ 30 ≤ cores.toInt) :
    multiThreadTest cores run = .ok ⟨0, false, 0⟩ := by
  have negative := initialLines_wraps large
  have nonzero : initialLines cores ≠ 0 := by
    intro zero
    rw [zero] at negative
    simp at negative
  have none_ : (initialLines cores).toInt.toNat = 0 := Int.toNat_of_nonpos (by omega)
  have ran : startWorkers cores run = ⟨0, initialLines cores, 0, 0⟩ := by
    rw [startWorkers, none_]
    rfl
  simp only [multiThreadTest, ran]
  rw [if_neg nonzero, none_]
  rfl

private theorem initialLines_small (small : cores.toInt < 2 ^ 30) {n : ℕ}
    (lines : (initialLines cores).toInt = n) : n ≤ 2109876543 ↔ cores.toInt ≤ 1054938271 := by
  unfold initialLines at lines
  by_cases some_ : 0 < cores
  · rw [if_pos some_, Int32.toInt_mul] at lines
    rw [Int32.lt_iff_toInt_lt] at some_
    simp only [Int32.reduceToInt] at some_ lines
    rw [Int.bmod_eq_of_le (by omega) (by omega)] at lines
    omega
  · rw [if_neg some_] at lines
    rw [Int32.lt_iff_toInt_lt] at some_
    simp only [Int32.reduceToInt] at some_ lines
    omega

example : multiThreadTest 2 (fun k => k != 0) = .ok ⟨2, false, 3⟩ := by decide

end Prot.Test.MultiThread
