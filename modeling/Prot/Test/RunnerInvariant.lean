import Prot.Test.RunnerStep

/-! Where every case is, in every state: on one of the lists, in the hand of one
worker, or done with. -/

namespace Prot.Test.Runner

open Concurrency Memory

variable {Worker Case : Type} [Fintype Worker] [DecidableEq Worker]
variable [Fintype Case] [DecidableEq Case]

/-- Who has called the `TestFunc` of a case, latest first. -/
def callers (calls : List (Option Worker × Case)) (c : Case) : List (Option Worker) :=
  calls.filterMap fun call => if call.2 = c then some call.1 else none

/-- The test of `State.fails` on the fields of one case. -/
def failing (r : TestResult) (failureCount : ℕ) : Bool :=
  !r.ignore && decide (0 < failureCount)

/-- What is known of the fields of a case from where it is. -/
def Place.Fine (p : Place Worker) (r : TestResult) (failureCount : ℕ)
    (callers : List (Option Worker)) : Prop :=
  match p with
  | .absent | .queued | .held _ | .left | .ready => callers = [] ∧ r.failure = false
  | .tested w => callers = [some w] ∧ r.failure = false
  | .testing => callers = [none] ∧ r.failure = false
  | .passed => (∃ w, callers = [some w]) ∧ r.failure = false ∧ failing r failureCount = false
  | .failed | .collected =>
    (∃ w, callers = [some w]) ∧ r.failure = true ∧ failing r failureCount = true
  | .single => callers = [none] ∧ r.failure = failing r failureCount

/-- What holds of the cases at any time. -/
structure Common (cases : List Case) (s : State Worker Case) : Prop where
  fine : ∀ c, (s.place c).Fine (s.result c) (s.failureCount c) (callers s.calls c)
  member : ∀ c, s.place c = .absent ↔ c ∉ cases
  counted : s.failCount = headcount (fun r => r.failure) s.result

/-- The case a worker has in hand, and where it is meanwhile. -/
def Pc.hand (w : Worker) : Pc Case → Option (Case × Place Worker)
  | .fetched (some c) | .pushLeft c | .testFunc c => some (c, .held w)
  | .record c => some (c, .tested w)
  | _ => none

/-- Has found the queue empty. -/
def Pc.past : Pc Case → Bool
  | .fetched none | .post | .done => true
  | _ => false

def Pc.finished : Pc Case → Bool
  | .done => true
  | _ => false

/-- The cases in the hands of the workers. -/
structure Hands (place : Case → Place Worker) (worker : Worker → Pc Case) : Prop where
  hand : ∀ w c p, (worker w).hand w = some (c, p) → place c = p
  held : ∀ w c, place c = .held w → (worker w).hand w = some (c, .held w)
  tested : ∀ w c, place c = .tested w → (worker w).hand w = some (c, .tested w)

structure Joining (i : ℕ) (s : State Worker Case) : Prop where
  queue : Listed s.next s.ptestCase fun c => s.place c = .queued
  left : Listed s.next s.ptestLeft fun c => s.place c = .left
  fail : Listed s.next s.ptestFail fun c => s.place c = .failed
  hands : Hands s.place s.worker
  tokens : s.semlock + i = headcount Pc.finished s.worker
  past : ∀ w, (s.worker w).past = true → s.ptestCase = none

structure Rearranging (s : State Worker Case) : Prop where
  quiet : ∀ w, s.worker w = .done
  cases : Listed s.next s.ptestCase fun c => s.place c = .ready
  left : Listed s.next s.ptestLeft fun c => s.place c = .left
  fail : Listed s.next s.ptestFail fun c => s.place c = .failed

structure Testing (ptestcase : Option Case) (s : State Worker Case) : Prop where
  quiet : ∀ w, s.worker w = .done
  cases : Listed s.next s.ptestCase fun c => s.place c = .ready ∨ s.place c = .single
  rest : Listed s.next ptestcase fun c => s.place c = .ready
  fail : Listed s.next s.ptestFail fun c => s.place c = .failed

/-- In `SingleThreadTest` between the call of `TestFunc` and the end of the iteration. -/
structure Recording (ptestcase : Case) (s : State Worker Case) : Prop where
  quiet : ∀ w, s.worker w = .done
  this : ∀ c, s.place c = .testing ↔ c = ptestcase
  cases : Listed s.next s.ptestCase fun c =>
    s.place c = .ready ∨ s.place c = .single ∨ s.place c = .testing
  rest : Listed s.next (s.next ptestcase) fun c => s.place c = .ready
  fail : Listed s.next s.ptestFail fun c => s.place c = .failed

structure Collecting (s : State Worker Case) : Prop where
  quiet : ∀ w, s.worker w = .done
  cases : Listed s.next s.ptestCase fun c => s.place c = .single ∨ s.place c = .collected
  fail : Listed s.next s.ptestFail fun c => s.place c = .failed

structure Returned (ptest : Option Case) (s : State Worker Case) : Prop where
  quiet : ∀ w, s.worker w = .done
  cases : Listed s.next ptest fun c => s.place c = .single ∨ s.place c = .collected

/-- What holds of the lists, by where the runner is. -/
def State.Phase (s : State Worker Case) : Main Case → Prop
  | .join i => Joining i s
  | .rearrange => Rearranging s
  | .test c => Testing c s
  | .record c => Recording c s
  | .collect => Collecting s
  | .returned c => Returned c s

/-- Where a case can be, by where the runner is. -/
def Main.allows : Main Case → Place Worker → Bool
  | _, .absent | _, .passed => true
  | .join _, .queued | .join _, .held _ | .join _, .tested _ => true
  | .join _, .left | .rearrange, .left => true
  | .rearrange, .ready | .test _, .ready | .record _, .ready => true
  | .record _, .testing => true
  | .test _, .single | .record _, .single | .collect, .single | .returned _, .single => true
  | .join _, .failed | .rearrange, .failed | .test _, .failed => true
  | .record _, .failed | .collect, .failed => true
  | .collect, .collected | .returned _, .collected => true
  | _, _ => false

structure Invariant (cases : List Case) (s : State Worker Case) : Prop where
  common : Common cases s
  allowed : ∀ c, s.main.allows (s.place c) = true
  phase : s.Phase s.main

variable {cases : List Case} {s s' : State Worker Case} {c : Case} {w : Worker}
variable {p q : Place Worker} {o : Outcome} {caller : Option Worker}

omit [Fintype Worker] [DecidableEq Worker] [Fintype Case] in
theorem callers_cons_self (calls : List (Option Worker × Case)) :
    callers ((caller, c) :: calls) c = caller :: callers calls c := by
  simp [callers]

omit [Fintype Worker] [DecidableEq Worker] [Fintype Case] in
theorem callers_cons_of_ne {d : Case} (calls : List (Option Worker × Case)) (other : d ≠ c) :
    callers ((caller, c) :: calls) d = callers calls d := by
  simp [callers, Ne.symm other]

omit [Fintype Worker] [DecidableEq Worker] [Fintype Case] in
theorem update_eq_absent_iff {place : Case → Place Worker} {d : Case}
    (known : place c ≠ .absent) (goes : p ≠ .absent) :
    Function.update place c p d = .absent ↔ place d = .absent := by
  by_cases same : d = c
  · subst same
    simp [known, goes]
  · rw [Function.update_of_ne same]

omit [Fintype Worker] [DecidableEq Worker] in
/-- A case goes elsewhere. -/
theorem Common.put (common : Common cases s) (known : s.place c ≠ .absent) (goes : p ≠ .absent)
    (fine : p.Fine (s.result c) (s.failureCount c) (callers s.calls c)) :
    Common cases (s.put c p) := by
  refine ⟨fun d => ?_, fun d => (update_eq_absent_iff known goes).trans (common.member d),
    common.counted⟩
  change (Function.update s.place c p d).Fine (s.result d) (s.failureCount d) (callers s.calls d)
  by_cases same : d = c
  · subst same
    rwa [Function.update_self]
  · rw [Function.update_of_ne same]
    exact common.fine d

omit [Fintype Worker] [DecidableEq Worker] in
/-- The `TestFunc` of a case is called. -/
theorem Common.testFunc (common : Common cases s) (known : s.place c ≠ .absent)
    (goes : p ≠ .absent)
    (fine : ∀ r n, r.failure = (s.result c).failure → p.Fine r n (caller :: callers s.calls c)) :
    Common cases ((s.testFunc caller c o).put c p) := by
  refine ⟨fun d => ?_, fun d => (update_eq_absent_iff known goes).trans (common.member d), ?_⟩
  · change (Function.update s.place c p d).Fine (Function.update s.result c _ d)
      (Function.update s.failureCount c _ d) (callers ((caller, c) :: s.calls) d)
    by_cases same : d = c
    · subst same
      rw [Function.update_self, Function.update_self, Function.update_self, callers_cons_self]
      exact fine _ _ rfl
    · rw [Function.update_of_ne same, Function.update_of_ne same, Function.update_of_ne same,
        callers_cons_of_ne _ same]
      exact common.fine d
  · exact common.counted.trans (headcount_update_same (by rfl)).symm

omit [Fintype Worker] [DecidableEq Worker] in
/-- The result of a case is recorded. -/
theorem Common.count (common : Common cases s) (known : s.place c ≠ .absent) (goes : p ≠ .absent)
    (clear : (s.result c).failure = false)
    (fine : ∀ r, r.failure = s.fails c → failing r (s.failureCount c) = s.fails c →
      p.Fine r (s.failureCount c) (callers s.calls c)) : Common cases ((s.count c).put c p) := by
  refine ⟨fun d => ?_, fun d => (update_eq_absent_iff known goes).trans (common.member d), ?_⟩
  · change (Function.update s.place c p d).Fine (Function.update s.result c _ d) (s.failureCount d)
      (callers s.calls d)
    by_cases same : d = c
    · subst same
      rw [Function.update_self, Function.update_self]
      exact fine _ (by simp [clear]) rfl
    · rw [Function.update_of_ne same, Function.update_of_ne same]
      exact common.fine d
  · have moved := headcount_update (fun r : TestResult => r.failure) s.result c
      { s.result c with failure := (s.result c).failure || s.fails c }
    have before := common.counted
    change (if (s.result c).failure || s.fails c then s.failCount + 1 else s.failCount) =
      headcount (fun r => r.failure) (Function.update s.result c
        { s.result c with failure := (s.result c).failure || s.fails c })
    simp only [clear, Bool.false_or, Bool.toNat_false, Nat.add_zero] at moved ⊢
    rw [moved, ← before]
    cases s.fails c <;> rfl

omit [Fintype Worker] [DecidableEq Worker] in
theorem Common.congr (common : Common cases s) (place : s'.place = s.place)
    (result : s'.result = s.result) (failureCount : s'.failureCount = s.failureCount)
    (failCount : s'.failCount = s.failCount) (calls : s'.calls = s.calls) : Common cases s' := by
  refine ⟨fun c => ?_, fun c => ?_, ?_⟩
  · rw [place, result, failureCount, calls]
    exact common.fine c
  · rw [place]
    exact common.member c
  · rw [failCount, result]
    exact common.counted

omit [Fintype Worker] [DecidableEq Worker] [Fintype Case] in
theorem allows_update {main : Main Case} {place : Case → Place Worker}
    (allowed : ∀ c, main.allows (place c) = true) (goes : main.allows p = true) (d : Case) :
    main.allows (Function.update place c p d) = true := by
  by_cases same : d = c
  · subst same
    rwa [Function.update_self]
  · rw [Function.update_of_ne same]
    exact allowed d

end Prot.Test.Runner
