import Prot.Concurrency.Machine
import Prot.Concurrency.Threads
import Prot.Memory.Chain

/-! `unittest.cpp`: `MultiThreadTest` from the moment its workers are started.
A step is one critical section of a worker, one call of a `TestFunc`, one
return from `semlock.Wait`, or one iteration of a loop of the runner. -/

namespace Prot.Test.Runner

open Concurrency Memory

/-- The bits of `TestResult` that the runner reads or writes. -/
structure TestResult where
  breaks : Bool
  failure : Bool
  ignore : Bool
  standalone : Bool
  deriving DecidableEq, Repr

/-- What a `TestFunc` does to its case: failed expressions, and the flags it
raises. -/
structure Outcome where
  failures : ℕ
  breaks : Bool
  ignore : Bool
  deriving DecidableEq, Repr

variable {Worker Case : Type}

inductive Pc (Case : Type) where
  | fetch
  | fetched (ptestcase : Option Case)
  | pushLeft (ptestcase : Case)
  | testFunc (ptestcase : Case)
  | record (ptestcase : Case)
  | post
  | done
  deriving DecidableEq, Repr

/-- Where the runner stands; `test` and `record` are inside
`SingleThreadTest`. -/
inductive Main (Case : Type) where
  | join (i : ℕ)
  | rearrange
  | test (ptestcase : Option Case)
  | record (ptestcase : Case)
  | collect
  | returned (ptest : Option Case)
  deriving DecidableEq, Repr

/-- Where a case is; the program does not know. `ready`, `testing` and `single`
are in the list of `SingleThreadTest`. -/
inductive Place (Worker : Type) where
  | absent
  | queued
  | held (worker : Worker)
  | tested (worker : Worker)
  | left
  | passed
  | failed
  | ready
  | testing
  | single
  | collected
  deriving DecidableEq, Repr

/-- The fields of the cases, `*pfailcount`, `PTUMTTDATA`, `semlock` and where
everybody stands. `cut` is raised when `SingleThreadTest` leaves its loop before
the end of its list; `calls` lists the calls of `TestFunc`, latest first, with
`none` for the runner. The failures are counted without a bound, so there are to be
fewer than 2 ^ 31 cases, and of each case fewer failed expressions. -/
structure State (Worker Case : Type) where
  next : Case → Option Case
  result : Case → TestResult
  failureCount : Case → ℕ
  failCount : ℕ
  ptestCase : Option Case
  ptestLeft : Option Case
  ptestFail : Option Case
  breakout : Bool
  semlock : ℕ
  worker : Worker → Pc Case
  main : Main Case
  cut : Bool
  calls : List (Option Worker × Case)
  place : Case → Place Worker

/-- Who moves; a call of `TestFunc` comes with what it does. -/
inductive Action (Worker : Type) where
  | worker (worker : Worker)
  | workerTests (worker : Worker) (outcome : Outcome)
  | main
  | mainTests (outcome : Outcome)
  deriving DecidableEq, Repr

variable [DecidableEq Worker] [DecidableEq Case]

def registered (standalone : Case → Bool) (c : Case) : TestResult :=
  ⟨false, false, false, standalone c⟩

/-- `MultiThreadTest` on the list that begins at `head`, all workers started. -/
def init (cases : List Case) (standalone : Case → Bool) (next : Case → Option Case)
    (head : Option Case) : State Worker Case where
  next := next
  result := registered standalone
  failureCount _ := 0
  failCount := 0
  ptestCase := head
  ptestLeft := none
  ptestFail := none
  breakout := false
  semlock := 0
  worker _ := .fetch
  main := .join 0
  cut := false
  calls := []
  place c := if c ∈ cases then .queued else .absent

/-- `SingleThreadTest` on that list, called in place of `MultiThreadTest`. -/
def singleInit (cases : List Case) (standalone : Case → Bool) (next : Case → Option Case)
    (head : Option Case) : State Worker Case :=
  { init cases standalone next head with
    worker := fun _ => .done
    main := .test head
    place := fun c => if c ∈ cases then .ready else .absent }

def State.testFunc (s : State Worker Case) (caller : Option Worker) (c : Case) (o : Outcome) :
    State Worker Case :=
  { s with
    result := Function.update s.result c { s.result c with
      breaks := (s.result c).breaks || o.breaks
      ignore := (s.result c).ignore || o.ignore }
    failureCount := Function.update s.failureCount c (s.failureCount c + o.failures)
    calls := (caller, c) :: s.calls }

def State.fails (s : State Worker Case) (c : Case) : Bool :=
  !(s.result c).ignore && decide (0 < s.failureCount c)

/-- The failure flag is set if the case fails, and then counted. -/
def State.count (s : State Worker Case) (c : Case) : State Worker Case :=
  let failure := (s.result c).failure || s.fails c
  { s with
    result := Function.update s.result c { s.result c with failure := failure }
    failCount := if failure then s.failCount + 1 else s.failCount }

/-- The test `(TestResult & PTU_TRF_BREAK) && (*pfailcount) != 0`. -/
def State.stops (s : State Worker Case) (c : Case) : Bool :=
  (s.result c).breaks && s.failCount != 0

def State.goto (s : State Worker Case) (w : Worker) (p : Pc Case) : State Worker Case :=
  { s with worker := Function.update s.worker w p }

def State.put (s : State Worker Case) (c : Case) (p : Place Worker) : State Worker Case :=
  { s with place := Function.update s.place c p }

def State.fetch (s : State Worker Case) (w : Worker) : State Worker Case :=
  match s.ptestCase with
  | none => s.goto w (.fetched none)
  | some c => ({ s with ptestCase := s.next c }.put c (.held w)).goto w (.fetched (some c))

def State.pushLeft (s : State Worker Case) (w : Worker) (c : Case) : State Worker Case :=
  ({ s with next := Function.update s.next c s.ptestLeft, ptestLeft := some c }.put c .left).goto w
    .fetch

def State.record (s : State Worker Case) (w : Worker) (c : Case) : State Worker Case :=
  let counted := s.count c
  let listed :=
    if s.fails c then
      { counted with next := Function.update s.next c s.ptestFail, ptestFail := some c }.put c
        .failed
    else counted.put c .passed
  { listed with breakout := s.breakout || listed.stops c }.goto w .fetch

def State.workerNext (s : State Worker Case) (w : Worker) : Option (State Worker Case) :=
  match s.worker w with
  | .fetch => some (s.fetch w)
  | .fetched none => some (s.goto w .post)
  | .fetched (some c) =>
    if s.breakout then some (s.goto w .post)
    else some (s.goto w (if (s.result c).standalone then .pushLeft c else .testFunc c))
  | .pushLeft c => some (s.pushLeft w c)
  | .record c => some (s.record w c)
  | .post => some { s.goto w .done with semlock := s.semlock + 1 }
  | .testFunc _ | .done => none

/-- One iteration of the loop that puts the standalone cases back. -/
def State.rearrange (s : State Worker Case) : State Worker Case :=
  match s.ptestLeft with
  | none => { s with main := .test s.ptestCase }
  | some p => { s with
      ptestLeft := s.next p
      next := Function.update s.next p s.ptestCase
      ptestCase := some p }.put p .ready

def State.singleRecord (s : State Worker Case) (c : Case) : State Worker Case :=
  let counted := (s.count c).put c .single
  if counted.stops c then
    { counted with main := .collect, cut := s.cut || (s.next c).isSome }
  else { counted with main := .test (s.next c) }

/-- One iteration of the loop that puts the failed cases back. -/
def State.collect (s : State Worker Case) : State Worker Case :=
  match s.ptestFail with
  | none => { s with main := .returned s.ptestCase }
  | some p => { s with
      ptestFail := s.next p
      next := Function.update s.next p s.ptestCase
      ptestCase := some p }.put p .collected

def State.mainNext (lines : ℕ) (s : State Worker Case) : Option (State Worker Case) :=
  match s.main with
  | .join i =>
    if i < lines then
      if 0 < s.semlock then some { s with semlock := s.semlock - 1, main := .join (i + 1) } else none
    else some { s with ptestCase := none, main := if s.breakout then .collect else .rearrange }
  | .rearrange => some s.rearrange
  | .test none => some { s with main := .collect }
  | .record c => some (s.singleRecord c)
  | .collect => some s.collect
  | .test (some _) | .returned _ => none

def step (lines : ℕ) (s : State Worker Case) : Action Worker → Option (State Worker Case)
  | .worker w => s.workerNext w
  | .workerTests w o => match s.worker w with
    | .testFunc c => some (((s.testFunc (some w) c o).put c (.tested w)).goto w (.record c))
    | _ => none
  | .main => s.mainNext lines
  | .mainTests o => match s.main with
    | .test (some c) => some { (s.testFunc none c o).put c .testing with main := .record c }
    | _ => none

end Prot.Test.Runner
