import Prot.Test.RegistryLists
import Prot.Test.RunnerSummary

/-! `UnitTest::RunTest` on the registry that the static initialisers have filled:
the fixtures before and after the cases, and the numbered lines of the summary. -/

namespace Prot.Test.RunTest

open Concurrency Memory Runner

variable {Worker Func Name : Type}

def ptuTrfStandalone : Int32 := (1 : Int32) <<< 16

/-- The nodes that `Allocz` has handed out. -/
abbrev Cell (r : Registry.State Func Name) := Fin r.heap.next

variable {r : Registry.State Func Name}

def cell (r : Registry.State Func Name) (p : ℕ) : Option (Cell r) :=
  if inside : p < r.heap.next then some ⟨p, inside⟩ else none

def next (r : Registry.State Func Name) (c : Cell r) : Option (Cell r) :=
  (r.heap.link c).bind (cell r)

/-- The heap when the runner has written `Next` of its cases. -/
def relink (r : Registry.State Func Name) (next : Cell r → Option (Cell r)) :
    Heap (Node (Registry.TestCase Func Name)) :=
  { r.heap with object := fun p => (cell r p).bind fun c =>
      (r.heap.object p).map fun node => { node with next := (next c).map Fin.val } }

def standalone (r : Registry.State Func Name) (c : Cell r) : Bool :=
  (r.heap.object c).any fun node => node.item.testResult &&& ptuTrfStandalone ≠ 0

/-- The list from `_tr_.HeadCase`. -/
def cases (r : Registry.State Func Name) : List (Cell r) :=
  ((r.heap.walk r.heap.next r.headCase).getD []).filterMap (cell r)

/-- The call of `SingleThreadTest` or of `MultiThreadTest`; `single` is the bit
`PTUF_SINGLE_THREAD` of `_fl_`. -/
def testing [DecidableEq Worker] (single : Bool) (r : Registry.State Func Name) :
    Runner.State Worker (Cell r) :=
  if single || r.nc < 2 then
    singleInit (cases r) (standalone r) (next r) (r.headCase.bind (cell r))
  else init (cases r) (standalone r) (next r) (r.headCase.bind (cell r))

/-- The loop that prints a line for every flagged case, with its number. -/
def lines {Case : Type} (s : Runner.State Worker Case) : ℕ → ℕ → Option Case → Option (List (ℕ × Case))
  | _, _, none => some []
  | 0, _, some _ => none
  | fuel + 1, i, some p =>
    if (s.result p).failure then (lines s fuel (i + 1) (s.next p)).map ((i + 1, p) :: ·)
    else lines s fuel i (s.next p)

/-- The lines that are printed when `rv` is not 0. -/
def summary (r : Registry.State Func Name) (s : Runner.State Worker (Cell r))
    (headCase : Option (Cell r)) : Option (List (ℕ × Cell r)) :=
  if s.failCount = 0 then some [] else lines s r.heap.next 0 headCase

/-- The calls of `TestFunc` for the fixtures and for the cases, each with its
caller, the lines of the summary, and the value that is returned. -/
structure Output (Worker : Type) (r : Registry.State Func Name) where
  inits : List ℕ
  tests : List (Option Worker × Cell r)
  dones : List ℕ
  lines : List (ℕ × Cell r)
  rv : ℤ
  deriving DecidableEq

/-- `RunTest`, where the workers and the runner take their steps as scheduled.
`none` is a dangling link, or a schedule in which the runner has not returned. -/
def runTest [Fintype Worker] [DecidableEq Worker] (single : Bool) (r : Registry.State Func Name)
    (schedule : List (Action Worker)) : Option (Output Worker r) := do
  let inits ← r.heap.walk r.heap.next r.ifl
  let s ← exec (step (Fintype.card Worker)) (testing single r) schedule
  match s.main with
  | .returned headCase =>
    let dones ← (relink r s.next).walk r.heap.next r.dfl
    let lines ← summary r s headCase
    return ⟨inits, s.calls.reverse, dones, lines, -s.failCount⟩
  | _ => none

variable {entries : List (ℕ × Registry.TestCase Func Name)} {head : Option ℕ} {p q : ℕ}

theorem cell_of_lt (inside : p < r.heap.next) : cell r p = some ⟨p, inside⟩ := dif_pos inside

private theorem chain_cells {pointers : List ℕ} (chain : Chain r.heap.link head pointers)
    (inside : ∀ p ∈ pointers, p < r.heap.next) :
    Chain (next r) (head.bind (cell r)) (pointers.filterMap (cell r)) ∧
      (pointers.filterMap (cell r)).map Fin.val = pointers := by
  induction pointers generalizing head with
  | nil =>
    rw [show head = none from chain]
    exact ⟨rfl, rfl⟩
  | cons p rest ih =>
    obtain ⟨rfl, onwards⟩ := chain
    have here := cell_of_lt (inside p List.mem_cons_self)
    obtain ⟨continued, same⟩ := ih onwards fun q member => inside q (List.mem_cons_of_mem _ member)
    rw [List.filterMap_cons_some here, List.map_cons, same]
    exact ⟨⟨here, continued⟩, rfl⟩

/-- The cases, as the runner is given them. -/
theorem cases_chain (linked : Linked r.heap r.headCase entries) (sound : r.heap.Sound) :
    Chain (next r) (r.headCase.bind (cell r)) (cases r) ∧ (cases r).map Fin.val = pointers entries := by
  have inside : ∀ p ∈ pointers entries, p < r.heap.next := fun p member =>
    sound.bound p (linked.live member)
  rw [cases, Heap.walk_linked linked (linked.length_le sound)]
  exact chain_cells linked.chain inside

private theorem linked_relink {links : Cell r → Option (Cell r)}
    (linked : Linked r.heap head entries)
    (sound : r.heap.Sound)
    (kept : ∀ c : Cell r, c.val ∈ pointers entries → links c = next r c) :
    Linked (relink r links) head entries := by
  induction entries generalizing head with
  | nil => exact linked
  | cons entry rest ih =>
    have whole := linked
    obtain ⟨rfl, follows, here, onwards⟩ := linked
    have inside := sound.bound entry.1 (whole.live List.mem_cons_self)
    refine ⟨rfl, follows, ?_, ih onwards fun c member => kept c (List.mem_cons_of_mem _ member)⟩
    have link : (links ⟨entry.1, inside⟩).map Fin.val = follows := by
      rw [kept _ List.mem_cons_self, next, Heap.link, here, Option.bind_some]
      cases rest with
      | nil =>
        rw [show follows = none from onwards]
        rfl
      | cons second more =>
        obtain ⟨rfl, _⟩ := id onwards
        have further := sound.bound second.1 (onwards.live List.mem_cons_self)
        rw [Option.bind_some, cell_of_lt further]
        rfl
    change (cell r entry.1).bind _ = _
    rw [cell_of_lt inside, Option.bind_some, here, Option.map_some, link]

section Lines

variable {Case : Type} {s : Runner.State Worker Case} {fuel i : ℕ} {nodes : List Case}

private theorem lines_chain {first : Option Case} (chain : Chain s.next first nodes)
    (enough : nodes.length ≤ fuel) :
    ∃ printed, lines s fuel i first = some printed ∧
      printed.map Prod.fst = List.range' (i + 1) printed.length ∧
      printed.map Prod.snd = nodes.filter fun c => (s.result c).failure := by
  induction nodes generalizing fuel i first with
  | nil =>
    rw [show first = none from chain]
    cases fuel <;> exact ⟨[], rfl, rfl, rfl⟩
  | cons c rest ih =>
    obtain ⟨rfl, onwards⟩ := chain
    cases fuel with
    | zero => exact absurd enough (by simp)
    | succ fuel =>
      have enough : rest.length ≤ fuel := by simpa using enough
      cases flag : (s.result c).failure with
      | false =>
        obtain ⟨printed, done, numbers, named⟩ := ih (i := i) onwards enough
        refine ⟨printed, ?_, numbers, ?_⟩
        · rw [lines, if_neg (by simp [flag])]
          exact done
        · rw [named, List.filter_cons_of_neg (by simp [flag])]
      | true =>
        obtain ⟨printed, done, numbers, named⟩ := ih (i := i + 1) onwards enough
        refine ⟨(i + 1, c) :: printed, ?_, ?_, ?_⟩
        · rw [lines, if_pos flag, done]
          rfl
        · rw [List.map_cons, numbers, List.length_cons, List.range'_succ]
        · rw [List.map_cons, named, List.filter_cons_of_pos (by simp [flag])]

end Lines

section Runs

variable [Fintype Worker] [DecidableEq Worker]
variable {inits dones : List (ℕ × Registry.TestCase Func Name)} {single : Bool}
variable {schedule : List (Action Worker)} {s : Runner.State Worker (Cell r)}

/-- What `RunTest` does and returns, where the runner ends in `s`. -/
structure Right (r : Registry.State Func Name) (cases inits dones : List ℕ)
    (s : Runner.State Worker (Cell r)) (output : Output Worker r) : Prop where
  inits : output.inits = inits
  dones : output.dones = dones
  once : (output.tests.map fun call => call.2.val).Nodup
  only : ∀ call ∈ output.tests, call.2.val ∈ cases
  whole : s.Whole → ∀ p ∈ cases, p ∈ output.tests.map fun call => call.2.val
  numbers : output.lines.map Prod.fst = List.range' 1 output.lines.length
  names : (output.lines.map Prod.snd).Nodup
  failed : ∀ c, c ∈ output.lines.map Prod.snd ↔ c ∈ output.tests.map Prod.snd ∧ s.fails c = true
  status : output.rv = -(output.lines.length : ℤ)

omit [Fintype Worker] [DecidableEq Worker] in
private theorem callers_length {Case : Type} [DecidableEq Case]
    (calls : List (Option Worker × Case))
    (c : Case) : (callers calls c).length = (calls.map Prod.snd).count c := by
  induction calls with
  | nil => rfl
  | cons call rest ih =>
    obtain ⟨caller, d⟩ := call
    by_cases same : d = c
    · subst same
      rw [callers_cons_self, List.length_cons, ih, List.map_cons, List.count_cons_self]
    · rw [callers_cons_of_ne _ (Ne.symm same), ih, List.map_cons, List.count_cons_of_ne same]

omit [Fintype Worker] [DecidableEq Worker] in
theorem callers_eq_nil {Case : Type} [DecidableEq Case] {calls : List (Option Worker × Case)}
    {c : Case} : callers calls c = [] ↔ c ∉ calls.map Prod.snd := by
  rw [← List.length_eq_zero_iff, callers_length, List.count_eq_zero]

omit [Fintype Worker] [DecidableEq Worker] in
theorem testing_starts (Worker : Type) [DecidableEq Worker] (r : Registry.State Func Name)
    (single : Bool) : ∃ standalone,
    (testing single r : Runner.State Worker (Cell r)) =
        init (cases r) standalone (next r) (r.headCase.bind (cell r)) ∨
      (testing single r : Runner.State Worker (Cell r)) =
        singleInit (cases r) standalone (next r) (r.headCase.bind (cell r)) := by
  unfold testing
  split
  · exact ⟨_, .inr rfl⟩
  · exact ⟨_, .inl rfl⟩

private theorem called_of_whole [Nonempty Worker] {standalone : Cell r → Bool}
    {start : Runner.State Worker (Cell r)}
    {first ptest : Option (Cell r)} (chain : Chain (next r) first (cases r))
    (starts : start = init (cases r) standalone (next r) first ∨
      start = singleInit (cases r) standalone (next r) first)
    (ran : exec (step (Fintype.card Worker)) start schedule = some s)
    (main : s.main = .returned ptest) (whole : s.Whole) :
    ∀ c ∈ cases r, c ∈ s.calls.map Prod.snd := by
  have inv : Invariant (cases r) start := by
    rcases starts with rfl | rfl
    · exact init_invariant chain
    · exact singleInit_invariant chain
  have ended := run_invariant inv ran whole
  intro c member
  have called := (ended.common.settled (ended.settled (.inr ⟨ptest, main⟩) c member)).2
  by_contra outside
  exact called (callers_eq_nil.mpr outside)

omit [Fintype Worker] [DecidableEq Worker] in
private theorem summary_lines {ptest : Option (Cell r)} (right : Summary (cases r) s ptest) :
    ∃ printed, summary r s ptest = some printed ∧
      printed.map Prod.fst = List.range' 1 printed.length ∧ (printed.map Prod.snd).Nodup ∧
      printed.length = s.failCount ∧
      ∀ c, c ∈ printed.map Prod.snd ↔ (s.result c).failure = true := by
  obtain ⟨nodes, chain, nodup, _, covers, count⟩ := right.list
  unfold summary
  have flagged : ∀ c, c ∈ (nodes.filter fun c => (s.result c).failure) ↔
      (s.result c).failure = true := fun c =>
    List.mem_filter.trans ⟨And.right, fun flag => ⟨covers c flag, flag⟩⟩
  by_cases none_ : s.failCount = 0
  · rw [if_pos none_]
    refine ⟨[], rfl, rfl, List.nodup_nil, none_.symm, fun c => ?_⟩
    rw [← flagged c, List.length_eq_zero_iff.mp (count.symm.trans none_)]
    rfl
  · rw [if_neg none_]
    have enough : nodes.length ≤ r.heap.next := by simpa using nodup.length_le_card
    obtain ⟨printed, done, numbers, named⟩ := lines_chain (i := 0) chain enough
    refine ⟨printed, done, numbers, ?_, ?_, fun c => ?_⟩
    · rw [named]
      exact nodup.filter _
    · rw [count, ← named, List.length_map]
    · rw [named]
      exact flagged c

/-- The run of `RunTest` that the runner's run is part of. -/
theorem runTest_right [Nonempty Worker] (sound : r.heap.Sound)
    (listed : Linked r.heap r.headCase entries) (first : Linked r.heap r.ifl inits)
    (final : Linked r.heap r.dfl dones) (apart : (pointers entries).Disjoint (pointers dones))
    (ran : exec (step (Fintype.card Worker)) (testing single r) schedule = some s)
    {ptest : Option (Cell r)} (main : s.main = .returned ptest) :
    ∃ output, runTest single r schedule = some output ∧
      Right r (pointers entries) (pointers inits) (pointers dones) s output := by
  obtain ⟨chain, values⟩ := cases_chain listed sound
  obtain ⟨standalone, starts⟩ := testing_starts Worker r single
  have acc := start_accounted chain starts
  have right := (run_accounted acc ran).summary main
  have started : (testing single r : Runner.State Worker (Cell r)).next = next r := by
    rcases starts with same | same <;> rw [same] <;> rfl
  have kept : ∀ c : Cell r, c.val ∈ pointers dones → s.next c = next r c := by
    intro c member
    rw [run_next_eq acc ran fun listed => ?_, started]
    refine apart ?_ member
    rw [← values]
    exact List.mem_map_of_mem listed
  obtain ⟨printed, done, numbers, names, length, failed⟩ := summary_lines right
  have inside : ∀ c : Cell r, c ∈ s.calls.map Prod.snd → c ∈ cases r := by
    intro c called
    by_contra outside
    exact callers_eq_nil.mp (right.only c outside) called
  refine ⟨⟨pointers inits, s.calls.reverse, pointers dones, printed, -s.failCount⟩, ?_, rfl, rfl, ?_,
    ?_, ?_, numbers, names, fun c => ?_, ?_⟩
  · rw [runTest, Heap.walk_linked first (first.length_le sound)]
    simp only [Option.bind_eq_bind, Option.bind_some, ran, main, done,
      Heap.walk_linked (linked_relink final sound kept) (final.length_le sound)]
    rfl
  · have once : (s.calls.map Prod.snd).Nodup := List.nodup_iff_count_le_one.mpr fun c => by
      rw [← callers_length]
      exact right.once c
    have values := once.map Fin.val_injective
    rw [List.map_map] at values
    simp only [List.map_reverse]
    exact List.nodup_reverse.mpr values
  · intro call member
    rw [← values]
    exact List.mem_map_of_mem (inside _ (List.mem_map_of_mem (List.mem_reverse.mp member)))
  · intro whole p member
    rw [← values] at member
    obtain ⟨c, listed, rfl⟩ := List.mem_map.mp member
    obtain ⟨call, called, rfl⟩ := List.mem_map.mp (called_of_whole chain starts ran main whole c listed)
    exact List.mem_map.mpr ⟨call, List.mem_reverse.mpr called, rfl⟩
  · rw [failed c, right.flagged c, Ne, callers_eq_nil, not_not, List.map_reverse, List.mem_reverse]
  · rw [length]

omit [Fintype Worker] in
/-- When the runner has returned and its workers are done, nobody can move. -/
theorem returned_stuck {Case : Type} [DecidableEq Case] {s : Runner.State Worker Case} {count : ℕ}
    {ptest : Option Case} (main : s.main = .returned ptest) (quiet : ∀ w, s.worker w = .done)
    (action : Action Worker) : step count s action = none := by
  cases action <;> simp [step, State.workerNext, State.mainNext, main, quiet]

end Runs

/-- `RunTest` on what the static initialisers leave, whatever they are: it comes to an
end, however the workers take turns, with the right calls, lines and result. -/
theorem runTest_reports (Worker : Type) [Fintype Worker] [DecidableEq Worker] [Nonempty Worker]
    [DecidableEq Name] (single : Bool) (calls : List (Registry.Registration Func Name)) :
    ∃ r cases inits dones, Registry.addTestCases calls = some r ∧
      cases.map Prod.snd = (Registry.selected calls).map Registry.Registration.case ∧
      inits.map Prod.snd =
        (Registry.fixtures Registry.Registration.isInit calls).map Registry.Registration.case ∧
      dones.map Prod.snd =
        (Registry.fixtures Registry.Registration.isDone calls).map Registry.Registration.case ∧
      ∀ (schedule : List (Action Worker)) (s : Runner.State Worker (Cell r)),
        exec (step (Fintype.card Worker)) (testing single r) schedule = some s →
        schedule.length ≤ (testing single r : Runner.State Worker (Cell r)).rank (Fintype.card Worker) ∧
        ((∀ action, step (Fintype.card Worker) s action = none) →
          ∃ output, runTest single r schedule = some output ∧
            Right r (pointers cases) (pointers inits) (pointers dones) s output) := by
  obtain ⟨r, listed, inits, dones, added, holds⟩ := Registry.addTestCases_holds calls
  obtain ⟨sound, headCase, ifl, dfl, _, _, apart, _⟩ := holds.shape
  refine ⟨r, listed, inits, dones, added, holds.selected, holds.inits, holds.dones,
    fun schedule s ran => ?_⟩
  obtain ⟨chain, _⟩ := cases_chain headCase sound
  obtain ⟨standalone, starts⟩ := testing_starts Worker r single
  have acc := start_accounted chain starts
  refine ⟨run_bounded acc ran, fun stuck => ?_⟩
  obtain ⟨ptest, main⟩ := returned_of_stuck (run_accounted acc ran) stuck
  exact runTest_right sound headCase ifl dfl apart ran main

def fourCalls : List (Registry.Registration Unit ℕ) :=
  [⟨(), 0, 0, 0, Registry.utestInit⟩, ⟨(), 0, 0, 1, 0⟩, ⟨(), 0, 0, 2, Registry.utestDone⟩,
    ⟨(), 0, 0, 3, 0⟩]

def fourSchedule : List (Action (Fin 1)) :=
  [.mainTests ⟨0, false, false⟩, .main, .mainTests ⟨1, false, false⟩, .main, .main, .main]

theorem runTest_reports_four : ∃ (r : Registry.State Unit ℕ) (cases inits dones : List ℕ)
    (s : Runner.State (Fin 1) (Cell r)) (output : Output (Fin 1) r),
    Registry.addTestCases fourCalls = some r ∧
      runTest true r fourSchedule = some output ∧ Right r cases inits dones s output := by
  obtain ⟨r, cases, inits, dones, added, _, _, _, runs⟩ :=
    runTest_reports (Fin 1) true fourCalls
  have ends : ((Registry.addTestCases fourCalls).any fun r =>
      (exec (step 1) (testing true r) fourSchedule).any fun s : Runner.State (Fin 1) _ =>
        s.main == .returned (cell r 1) && s.worker 0 == .done) = true := by decide
  rw [added, Option.any_some] at ends
  obtain ⟨s, ran, final⟩ := (Option.any_eq_true _ _).mp ends
  simp only [Bool.and_eq_true, beq_iff_eq] at final
  have quiet : ∀ w, s.worker w = .done := fun w => by
    rw [Subsingleton.elim w 0]
    exact final.2
  obtain ⟨output, done, right⟩ := (runs fourSchedule s ran).2 (returned_stuck final.1 quiet)
  exact ⟨r, pointers cases, pointers inits, pointers dones, s, output, added, done, right⟩

end Prot.Test.RunTest
