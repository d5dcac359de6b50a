import Mathlib.Algebra.Group.Int.Defs
import Mathlib.Algebra.Group.Nat.Defs
import Mathlib.Data.List.Basic
import Mathlib.Data.Int.Basic

/-! `SingleThreadTest` and `RunTest` of `unittest.cpp` over cases made of
assertions, and the status with which the test program exits. -/

namespace Prot.Test.SingleThread

/-- One statement of a test function: a `T_` or an `A_` assertion, with what its
comparison yields when it is made, or `T_IGNORE`. -/
inductive Statement where
  | t (holds : Bool)
  | a (holds : Bool)
  | ignore
  deriving DecidableEq, Repr

abbrev Body := List Statement

/-- The low bits of `TestResult`. -/
structure TestResult where
  passive : Bool
  breaks : Bool
  failure : Bool
  ignore : Bool
  deriving DecidableEq, Repr

/-- `PTU_TEST_CASE`, without its names. -/
structure TestCase where
  testFunc : Body
  succeedCount : Int32
  failureCount : Int32
  totalCount : Int32
  testResult : TestResult
  deriving DecidableEq

def registered (testFunc : Body) : TestCase where
  testFunc := testFunc
  succeedCount := 0
  failureCount := 0
  totalCount := 0
  testResult := ⟨false, false, false, false⟩

namespace TestCase

def addSuccess (ptc : TestCase) : TestCase := { ptc with succeedCount := ptc.succeedCount + 1 }

def addFailure (ptc : TestCase) : TestCase := { ptc with failureCount := ptc.failureCount + 1 }

def compare (ptc : TestCase) (holds : Bool) : TestCase × Bool :=
  let ptc := { ptc with totalCount := ptc.totalCount + 1 }
  if ptc.testResult.breaks then (ptc, true)
  else if holds then (ptc.addSuccess, true)
  else (ptc.addFailure, false)

/-- `PTC()->TestResult |= PTU_TRF_PASSIVE|PTU_TRF_BREAK`. -/
def raiseBreak (ptc : TestCase) : TestCase :=
  { ptc with testResult := { ptc.testResult with passive := true, breaks := true } }

def execute (ptc : TestCase) : Statement → TestCase
  | .t holds => (ptc.compare holds).1
  | .a holds =>
    let (ptc, r) := ptc.compare holds
    if r then ptc else ptc.raiseBreak
  | .ignore => { ptc with testResult := { ptc.testResult with ignore := true } }

def call (ptc : TestCase) : TestCase := ptc.testFunc.foldl execute ptc

/-- `SingleThreadTest` raises `PTU_TRF_FAILURE` when the function has returned. -/
def record (ptc : TestCase) : TestCase :=
  if !ptc.testResult.ignore && 0 < ptc.failureCount then
    { ptc with testResult := { ptc.testResult with failure := true } }
  else ptc

end TestCase

/-- The list of `SingleThreadTest` when it returns: the cases it has run, those it
has not come to, and `*pfailcount`. -/
structure Tested where
  executed : List TestCase
  left : List TestCase
  failCount : Int32
  deriving DecidableEq

/-- A case that has been run, in front of the rest of the list. -/
def Tested.cons (ptestcase : TestCase) (rest : Tested) : Tested :=
  { rest with executed := ptestcase :: rest.executed }

/-- `*pfailcount` is `failCount` before the first case. -/
def singleThreadTest (failCount : Int32) : List TestCase → Tested
  | [] => ⟨[], [], failCount⟩
  | ptestcase :: next =>
    let ptestcase := ptestcase.call.record
    let failCount := if ptestcase.testResult.failure then failCount + 1 else failCount
    if ptestcase.testResult.breaks && failCount != 0 then ⟨[ptestcase], next, failCount⟩
    else .cons ptestcase (singleThreadTest failCount next)

/-- `RunTest` when it runs its cases with `SingleThreadTest`. -/
def runTest (cases : List Body) : Int32 :=
  -(singleThreadTest 0 (cases.map registered)).failCount

/-- What the parent of the process sees of the value that `main` returns. -/
def exitStatus (cases : List Body) : ℤ := (runTest cases).toInt % 256

/-! What a case and a list of cases come to. -/

/-- The comparisons a case makes: none after an `A_` assertion has failed. -/
def evaluated : Body → List Bool
  | [] => []
  | .t holds :: rest => holds :: evaluated rest
  | .a true :: rest => true :: evaluated rest
  | .a false :: _ => [false]
  | .ignore :: rest => evaluated rest

/-- The case is not ignored and has evaluated a false assertion. -/
def Fails (body : Body) : Prop := .ignore ∉ body ∧ false ∈ evaluated body

instance (body : Body) : Decidable (Fails body) := by
  unfold Fails
  infer_instance

/-- `FailureCount`, an `int`, shows as positive. -/
def positive (failures : ℕ) : Bool := 0 < failures % 2 ^ 32 && failures % 2 ^ 32 < 2 ^ 31

/-- The case adds to `*pfailcount`. -/
def counted (body : Body) : Bool := .ignore ∉ body && positive ((evaluated body).count false)

def breaks (body : Body) : Bool := .a false ∈ body

/-- `*pfailcount` after the case. -/
def failCountAfter (failCount : Int32) (body : Body) : Int32 :=
  if counted body then failCount + 1 else failCount

def stops (failCount : Int32) (body : Body) : Bool :=
  breaks body && failCountAfter failCount body != 0

def executed (failCount : Int32) : List Body → List Body
  | [] => []
  | body :: next =>
    if stops failCount body then [body]
    else body :: executed (failCountAfter failCount body) next

variable {ptc : TestCase} {body : Body} {cases next : List Body} {failCount : Int32} {s : Statement}

namespace TestCase

@[simp] theorem execute_testFunc : (ptc.execute s).testFunc = ptc.testFunc := by
  cases s with
  | t holds => simp only [execute, compare]; split_ifs <;> rfl
  | a holds => simp only [execute, compare]; split_ifs <;> rfl
  | ignore => rfl

@[simp] theorem execute_failure : (ptc.execute s).testResult.failure = ptc.testResult.failure := by
  cases s with
  | t holds => simp only [execute, compare]; split_ifs <;> rfl
  | a holds => simp only [execute, compare]; split_ifs <;> rfl
  | ignore => rfl

private theorem execute_ignore :
    (ptc.execute s).testResult.ignore = (ptc.testResult.ignore || decide (s = .ignore)) := by
  cases s with
  | t holds => simp only [execute, compare]; split_ifs <;> simp [addSuccess, addFailure]
  | a holds => simp only [execute, compare]; split_ifs <;> simp_all [addSuccess, addFailure, raiseBreak]
  | ignore => simp [execute]

theorem execute_breaks :
    (ptc.execute s).testResult.breaks = (ptc.testResult.breaks || decide (s = .a false)) := by
  cases s with
  | t holds => simp only [execute, compare]; split_ifs <;> simp [addSuccess, addFailure]
  | a holds =>
    cases broken : ptc.testResult.breaks <;> cases holds <;>
      simp [execute, compare, broken, addSuccess, addFailure, raiseBreak]
  | ignore => simp [execute]

/-- An assertion that is evaluated and false counts as a failure; nothing else
does. -/
theorem execute_failureCount :
    (ptc.execute s).failureCount = ptc.failureCount +
      if ptc.testResult.breaks = false ∧ (s = .t false ∨ s = .a false) then 1 else 0 := by
  cases s with
  | t holds =>
    cases broken : ptc.testResult.breaks <;> cases holds <;>
      simp [execute, compare, broken, addSuccess, addFailure]
  | a holds =>
    cases broken : ptc.testResult.breaks <;> cases holds <;>
      simp [execute, compare, broken, addSuccess, addFailure, raiseBreak]
  | ignore => simp [execute]

private theorem foldl_execute_testFunc (body : Body) (ptc : TestCase) :
    (body.foldl execute ptc).testFunc = ptc.testFunc := by
  induction body generalizing ptc with
  | nil => rfl
  | cons s rest ih => rw [List.foldl_cons, ih, execute_testFunc]

private theorem foldl_execute_failure (body : Body) (ptc : TestCase) :
    (body.foldl execute ptc).testResult.failure = ptc.testResult.failure := by
  induction body generalizing ptc with
  | nil => rfl
  | cons s rest ih => rw [List.foldl_cons, ih, execute_failure]

private theorem foldl_execute_ignore (body : Body) (ptc : TestCase) :
    (body.foldl execute ptc).testResult.ignore =
      (ptc.testResult.ignore || decide (.ignore ∈ body)) := by
  induction body generalizing ptc with
  | nil => simp
  | cons s rest ih => rw [List.foldl_cons, ih, execute_ignore]; simp [Bool.or_assoc, eq_comm]

private theorem foldl_execute_breaks (body : Body) (ptc : TestCase) :
    (body.foldl execute ptc).testResult.breaks = (ptc.testResult.breaks || breaks body) := by
  induction body generalizing ptc with
  | nil => simp [breaks]
  | cons s rest ih => rw [List.foldl_cons, ih, execute_breaks]; simp [breaks, Bool.or_assoc, eq_comm]

private theorem foldl_execute_broken (body : Body) (broken : ptc.testResult.breaks = true) :
    (body.foldl execute ptc).failureCount = ptc.failureCount := by
  induction body generalizing ptc with
  | nil => rfl
  | cons s rest ih =>
    rw [List.foldl_cons, ih (by simp [execute_breaks, broken]), execute_failureCount]
    simp [broken]

private theorem foldl_execute_failureCount (body : Body) (intact : ptc.testResult.breaks = false) :
    (body.foldl execute ptc).failureCount =
      ptc.failureCount + Int32.ofNat ((evaluated body).count false) := by
  induction body generalizing ptc with
  | nil => simp [evaluated]
  | cons s rest ih =>
    have whole : (ptc.execute s).testResult.breaks = decide (s = .a false) := by
      simp [execute_breaks, intact]
    have one : (ptc.execute s).failureCount =
        ptc.failureCount + if s = .t false ∨ s = .a false then 1 else 0 := by
      simp [execute_failureCount, intact]
    rw [List.foldl_cons]
    match s with
    | .a false =>
      rw [foldl_execute_broken rest (by simpa using whole), one]
      rfl
    | .a true => rw [ih (by simpa using whole), one]; simp [evaluated]
    | .t true => rw [ih (by simpa using whole), one]; simp [evaluated]
    | .t false =>
      rw [ih (by simpa using whole), one]
      simp [evaluated, Int32.add_assoc, Int32.add_comm]
    | .ignore => rw [ih (by simpa using whole), one]; simp [evaluated]

end TestCase

private theorem ofNat_pos (failures : ℕ) : 0 < Int32.ofNat failures ↔ positive failures = true := by
  rw [Int32.lt_iff_toInt_lt, Int32.toInt_ofNat, positive]
  simp [Int.bmod_def]
  omega

private theorem record_call_testFunc : (registered body).call.record.testFunc = body := by
  have kept : (registered body).call.testFunc = body := TestCase.foldl_execute_testFunc _ _
  unfold TestCase.record
  split <;> exact kept

private theorem record_call_breaks :
    (registered body).call.record.testResult.breaks = breaks body := by
  have raised : (registered body).call.testResult.breaks = breaks body := by
    simp [TestCase.call, TestCase.foldl_execute_breaks, registered]
  unfold TestCase.record
  split <;> exact raised

private theorem record_call_failure :
    (registered body).call.record.testResult.failure = counted body := by
  have low : (registered body).call.testResult.failure = false :=
    TestCase.foldl_execute_failure _ _
  have ignored : (registered body).call.testResult.ignore = decide (.ignore ∈ body) := by
    simp [TestCase.call, TestCase.foldl_execute_ignore, registered]
  have failures : (registered body).call.failureCount = Int32.ofNat ((evaluated body).count false) := by
    rw [TestCase.call, TestCase.foldl_execute_failureCount _ rfl]
    simp [registered]
  have shows : decide (0 < (registered body).call.failureCount) =
      positive ((evaluated body).count false) := by
    rw [failures, Bool.eq_iff_iff, decide_eq_true_iff, ofNat_pos]
  unfold TestCase.record
  rw [ignored, shows]
  cases count : counted body with
  | true => rw [if_pos (by simpa [counted] using count)]
  | false =>
    rw [if_neg (by simpa [counted] using count)]
    exact low

abbrev tested (body : Body) : TestCase := (registered body).call.record

theorem singleThreadTest_cons :
    singleThreadTest failCount ((body :: next).map registered) =
      if stops failCount body then
        ⟨[tested body], next.map registered, failCountAfter failCount body⟩
      else
        .cons (tested body)
          (singleThreadTest (failCountAfter failCount body) (next.map registered)) := by
  simp only [List.map_cons, singleThreadTest, record_call_failure, record_call_breaks, stops,
    failCountAfter]
  rfl

private theorem singleThreadTest_executed (failCount : Int32) (cases : List Body) :
    (singleThreadTest failCount (cases.map registered)).executed =
      (executed failCount cases).map tested := by
  induction cases generalizing failCount with
  | nil => rfl
  | cons body next ih =>
    rw [singleThreadTest_cons, executed]
    split
    · rfl
    · simp only [List.map_cons, Tested.cons, ih]

theorem failCountAfter_eq :
    failCountAfter failCount body = failCount + Int32.ofNat ([body].countP counted) := by
  unfold failCountAfter
  cases count : counted body <;> simp [count]

private theorem singleThreadTest_failCount (failCount : Int32) (cases : List Body) :
    (singleThreadTest failCount (cases.map registered)).failCount =
      failCount + Int32.ofNat ((executed failCount cases).countP counted) := by
  induction cases generalizing failCount with
  | nil => simp [singleThreadTest, executed]
  | cons body next ih =>
    rw [singleThreadTest_cons, executed]
    split
    · exact failCountAfter_eq
    · rw [← List.singleton_append, List.countP_append, Int32.ofNat_add, ← Int32.add_assoc,
        ← failCountAfter_eq]
      exact ih _

/-- Wrapping to 32 bits keeps the low eight. -/
theorem bmod_emod_low (x : ℤ) : x.bmod (2 ^ 32) % 256 = x % 256 := by
  rw [← Int.emod_emod_of_dvd (x.bmod (2 ^ 32)) (show (256 : ℤ) ∣ ((2 ^ 32 : ℕ) : ℤ) by decide),
    Int.bmod_emod, Int.emod_emod_of_dvd x (by decide)]

/-- The parent sees the number of cases that count, but only its low eight bits. -/
theorem exitStatus_eq_zero_iff :
    exitStatus cases = 0 ↔ (executed 0 cases).countP counted % 256 = 0 := by
  rw [exitStatus, runTest, singleThreadTest_failCount, Int32.zero_add, Int32.toInt_neg,
    Int32.toInt_ofNat', bmod_emod_low]
  have low := bmod_emod_low ((executed 0 cases).countP counted)
  rw [show Int32.size = 2 ^ 32 from rfl]
  generalize ((executed 0 cases).countP counted : ℤ).bmod (2 ^ 32) = shown at low ⊢
  omega

private theorem fails_of_counted (count : counted body = true) : Fails body := by
  simp only [counted, positive, Bool.and_eq_true, decide_eq_true_eq] at count
  obtain ⟨attended, shows, _⟩ := count
  refine ⟨attended, List.count_pos_iff.mp ?_⟩
  omega

/-- The status is zero exactly when no executed case has failed, unless some have
failed and those that count are a multiple of 256. -/
theorem status_sound_iff (cases : List Body) :
    (exitStatus cases = 0 ↔
      ∀ ptestcase ∈ (singleThreadTest 0 (cases.map registered)).executed,
        ¬ Fails ptestcase.testFunc) ↔
    ((∃ body ∈ executed 0 cases, Fails body) → (executed 0 cases).countP counted % 256 ≠ 0) := by
  have bodies : (∀ ptestcase ∈ (singleThreadTest 0 (cases.map registered)).executed,
      ¬ Fails ptestcase.testFunc) ↔ ¬ ∃ body ∈ executed 0 cases, Fails body := by
    rw [singleThreadTest_executed]
    simp [record_call_testFunc]
  rw [bodies, exitStatus_eq_zero_iff]
  by_cases failed : ∃ body ∈ executed 0 cases, Fails body
  · simp [failed]
  · have none : (executed 0 cases).countP counted = 0 := by
      rw [List.countP_eq_zero]
      intro body run count
      exact failed ⟨body, run, fails_of_counted count⟩
    simp [failed, none]

/-- 256 failed cases exit with the status of success. -/
theorem failed256_status : ¬ (exitStatus (List.replicate 256 [.t false]) = 0 ↔
    ∀ ptestcase ∈ (singleThreadTest 0 ((List.replicate 256 [.t false]).map registered)).executed,
      ¬ Fails ptestcase.testFunc) := by
  decide +kernel

end Prot.Test.SingleThread
