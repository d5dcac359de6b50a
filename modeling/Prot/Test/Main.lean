import Prot.Test.Failmem
import Prot.Test.RunTest

/-! `unittest_main.cpp`: the options of the command line, and what the program does
and returns for them. -/

namespace Prot.Test.Main

open Concurrency Memory Runner Failmem

/-- The memory from a `Ptr<Char>` on. -/
abbrev Text := ℕ → UInt8

/-- Characters in memory, with the NUL and whatever is behind it. -/
def store (chars : List UInt8) (behind : Text) : Text :=
  fun i => ((chars ++ [0])[i]?).getD (behind i)

def literal (text : String) : Text := store (ascii text) fun _ => 0

/-- A string that is handed to the program. -/
structure Argument extends CString where
  behind : Text

def Argument.text (argument : Argument) : Text := store argument.chars argument.behind

/-- `Memory::Comp`, which is `memcmp`; 0 is `.eq`. -/
def comp (ptr1 ptr2 : Text) : ℕ → Ordering
  | 0 => .eq
  | nbytes + 1 => (compare (ptr1 0) (ptr2 0)).then
      (comp (fun i => ptr1 (i + 1)) (fun i => ptr2 (i + 1)) nbytes)

def ptufSingleThread : UInt32 := 1

/-- The value of `_fl_` after `UnitTest::AddOption`. -/
def addOption (fl : UInt32) (key val : Text) : UInt32 :=
  if comp key (literal "Threads") 8 = .eq then
    if comp val (literal "Single") 7 = .eq then fl ||| ptufSingleThread else fl
  else fl

/-- The value returned for the arguments behind the name of the program, and `_fl_`. -/
def handleOptions (fl : UInt32) : List Text → Bool × UInt32
  | [] => (true, fl)
  | argv :: rest =>
    if comp (literal "-st") argv 4 = .eq then
      handleOptions (addOption fl (literal "Threads") (literal "Single")) rest
    else if comp (literal "-h") argv 3 = .eq then (false, fl)
    else handleOptions fl rest

variable {Worker Func Name : Type}

/-- What the program returns, and what `RunTest` has done if it was called. -/
structure Exit (Worker : Type) (r : Registry.State Func Name) where
  rv : ℤ
  output : Option (RunTest.Output Worker r)
  deriving DecidableEq

/-- `main` on the registry that it finds; `DoneTest` has nothing left to do. -/
def main [Fintype Worker] [DecidableEq Worker] (argv : List Text)
    (r : Registry.State Func Name) (schedule : List (Action Worker)) :
    Option (Exit Worker (Registry.initTest r)) :=
  match handleOptions 0 argv with
  | (false, _) => some ⟨-1, none⟩
  | (true, fl) =>
    (RunTest.runTest (fl &&& ptufSingleThread ≠ 0) (Registry.initTest r) schedule).map
      fun output => ⟨output.rv, some output⟩

/-! The options are whole words. -/

section Words

variable {c d : UInt8} {chars chars' : List UInt8} {behind behind' : Text} {n : ℕ}
variable {args : List Argument} {fl : UInt32}

private theorem comp_nil : comp (store [] behind) (store [] behind') 1 = .eq := rfl

private theorem comp_nil_cons (some_ : c ≠ 0) :
    comp (store [] behind) (store (c :: chars) behind') (n + 1) ≠ .eq := by
  simp [comp, store, some_.symm]

private theorem comp_cons_nil (some_ : c ≠ 0) :
    comp (store (c :: chars) behind) (store [] behind') (n + 1) ≠ .eq := by
  simp [comp, store, some_]

private theorem comp_cons_cons :
    comp (store (c :: chars) behind) (store (d :: chars') behind') (n + 1) = .eq ↔
      c = d ∧ comp (store chars fun i => behind (i + 1)) (store chars' fun i => behind' (i + 1)) n =
        .eq := by
  rw [comp, Ordering.then_eq_eq]
  exact and_congr_left' Std.LawfulEqCmp.compare_eq_iff_eq

private theorem comp_eq (clean : 0 ∉ chars) (clean' : 0 ∉ chars') :
    comp (store chars behind) (store chars' behind') (chars.length + 1) = .eq ↔ chars = chars' := by
  induction chars generalizing chars' behind behind' with
  | nil =>
    cases chars' with
    | nil => exact iff_of_true comp_nil rfl
    | cons d rest' =>
      refine iff_of_false (comp_nil_cons ?_) (by simp)
      rintro rfl
      exact clean' List.mem_cons_self
  | cons c rest ih =>
    cases chars' with
    | nil =>
      refine iff_of_false (comp_cons_nil ?_) (by simp)
      rintro rfl
      exact clean List.mem_cons_self
    | cons d rest' =>
      rw [List.length_cons, comp_cons_cons, List.cons.injEq,
        ih (fun member => clean (List.mem_cons_of_mem _ member))
          fun member => clean' (List.mem_cons_of_mem _ member)]

private theorem comp_literal {text : String} (clean : 0 ∉ ascii text) (argument : Argument) :
    comp (literal text) argument.text ((ascii text).length + 1) = .eq ↔
      argument.chars = ascii text :=
  (comp_eq clean argument.clean).trans eq_comm

private theorem addOption_single :
    addOption fl (literal "Threads") (literal "Single") = fl ||| ptufSingleThread := by
  have key : comp (literal "Threads") (literal "Threads") 8 = .eq := by decide
  have val : comp (literal "Single") (literal "Single") 7 = .eq := by decide
  rw [addOption, if_pos key, if_pos val]

def words (args : List Argument) : List (List UInt8) := args.map fun argument => argument.chars

private theorem isSingle (argument : Argument) :
    comp (literal "-st") argument.text 4 = .eq ↔ argument.chars = ascii "-st" :=
  comp_literal (by decide) argument

private theorem isHelp (argument : Argument) :
    comp (literal "-h") argument.text 3 = .eq ↔ argument.chars = ascii "-h" :=
  comp_literal (by decide) argument

/-- Without `-h` every option counts; with it nothing does. -/
theorem handleOptions_words (fl : UInt32) (args : List Argument) :
    (ascii "-h" ∈ words args → (handleOptions fl (args.map Argument.text)).1 = false) ∧
      (ascii "-h" ∉ words args → handleOptions fl (args.map Argument.text) =
        (true, if ascii "-st" ∈ words args then fl ||| ptufSingleThread else fl)) := by
  induction args generalizing fl with
  | nil => exact ⟨fun help => absurd help List.not_mem_nil, fun _ => rfl⟩
  | cons argument rest ih =>
    simp only [List.map_cons, handleOptions, isSingle, isHelp, addOption_single, words,
      List.mem_cons, not_or]
    by_cases single : argument.chars = ascii "-st"
    · obtain ⟨helped, plain⟩ := ih (fl ||| ptufSingleThread)
      rw [if_pos single, if_pos (.inl single.symm)]
      refine ⟨fun met => helped (met.resolve_left ?_), fun met => ?_⟩
      · rw [single]
        decide
      · rw [plain met.2, UInt32.or_assoc, UInt32.or_self, ite_self]
    · rw [if_neg single]
      by_cases help : argument.chars = ascii "-h"
      · rw [if_pos help]
        exact ⟨fun _ => rfl, fun met => absurd help.symm met.1⟩
      · rw [if_neg help]
        obtain ⟨helped, plain⟩ := ih fl
        refine ⟨fun met => helped (met.resolve_left (Ne.symm help)), fun met => ?_⟩
        rw [plain met.2]
        simp only [words, Ne.symm single, false_or]
        congr

end Words

section Alone

variable {Case : Type} [DecidableEq Worker] [DecidableEq Case] {cases : List Case} {count : ℕ}
variable {s s' : Runner.State Worker Case} {action : Action Worker}

/-- Which cases are still before the runner, `rest` of them. -/
def Before (s : Runner.State Worker Case) (rest : List Case) : Prop :=
  match s.main with
  | .test p => Chain s.next p rest
  | .record c => Chain s.next (s.next c) rest
  | .collect | .returned _ => True
  | .join _ | .rearrange => False

/-- The runner goes over the list alone. -/
structure Alone (cases : List Case) (s : Runner.State Worker Case) (called rest : List Case) :
    Prop where
  workers : ∀ w, s.worker w = .done
  ptestFail : s.ptestFail = none
  split : cases = called ++ rest
  calls : s.calls.reverse = called.map fun c => (none, c)
  before : Before s rest

theorem step_alone {called rest : List Case} (alone : Alone cases s called rest)
    (taken : step count s action = some s') : ∃ called rest, Alone cases s' called rest := by
  obtain ⟨workers, ptestFail, split, calls, before⟩ := alone
  cases step_effect taken with
  | fetchNone w here => simp [workers] at here
  | fetchSome w c here => simp [workers] at here
  | leave w c here => simp [workers] at here
  | sort w c here => simp [workers] at here
  | pushLeft w c here => simp [workers] at here
  | testFunc w c o here => simp [workers] at here
  | record w c here => simp [workers] at here
  | post w here => simp [workers] at here
  | wait i here => simp [Before, here] at before
  | joined i here => simp [Before, here] at before
  | rearrange p here => simp [Before, here] at before
  | rearranged here => simp [Before, here] at before
  | testEnd here => exact ⟨called, rest, workers, ptestFail, split, calls, trivial⟩
  | singleTest c o here =>
    rw [Before, here] at before
    cases rest with
    | nil => cases before
    | cons d rest =>
      obtain ⟨same, onwards⟩ := before
      cases same
      refine ⟨called ++ [c], rest, workers, ptestFail, ?_, ?_, onwards⟩
      · rw [split, List.append_assoc, List.singleton_append]
      · change ((none, c) :: s.calls).reverse = _
        rw [List.reverse_cons, calls, List.map_append, List.map_singleton]
  | singleRecord c here =>
    rw [Before, here] at before
    refine ⟨called, rest, ?_⟩
    simp only [State.singleRecord]
    split
    · exact ⟨workers, ptestFail, split, calls, trivial⟩
    · exact ⟨workers, ptestFail, split, calls, before⟩
  | collect p here first => rw [ptestFail] at first; cases first
  | collected here empty => exact ⟨called, rest, workers, ptestFail, split, calls, trivial⟩

theorem run_alone {called rest : List Case} {actions : List (Action Worker)}
    (alone : Alone cases s called rest) (ran : exec (step count) s actions = some s') :
    ∃ called rest, Alone cases s' called rest :=
  exec_invariant (fun s => ∃ called rest, Alone cases s called rest)
    (fun _ _ _ ⟨_, _, alone⟩ taken => step_alone alone taken) ⟨called, rest, alone⟩ ran

omit [DecidableEq Worker] in
private theorem singleInit_alone {standalone : Case → Bool} {next : Case → Option Case}
    {head : Option Case}
    (chain : Chain next head cases) :
    Alone cases (singleInit cases standalone next head : Runner.State Worker Case) [] cases :=
  ⟨fun _ => rfl, rfl, rfl, rfl, chain⟩

private theorem calls_of_alone {standalone : Case → Bool} {next : Case → Option Case}
    {head : Option Case}
    {actions : List (Action Worker)} (chain : Chain next head cases)
    (ran : exec (step count) (singleInit cases standalone next head) actions = some s) :
    ∃ called rest, cases = called ++ rest ∧ s.calls.reverse = called.map fun c => (none, c) := by
  obtain ⟨called, rest, alone⟩ := run_alone (singleInit_alone chain) ran
  exact ⟨called, rest, alone.split, alone.calls⟩

end Alone

section Runs

variable [Fintype Worker] [DecidableEq Worker] {r : Registry.State Func Name}
variable {args : List Argument} {schedule : List (Action Worker)}

private theorem main_help (help : ascii "-h" ∈ words args) :
    main (args.map Argument.text) r schedule = some ⟨-1, none⟩ := by
  have told := (handleOptions_words 0 args).1 help
  unfold main
  split
  · rfl
  · rename_i other
    rw [other] at told
    cases told

private theorem main_eq (plain : ascii "-h" ∉ words args) :
    main (args.map Argument.text) r schedule =
      (RunTest.runTest (ascii "-st" ∈ words args) (Registry.initTest r) schedule).map
        fun output => ⟨output.rv, some output⟩ := by
  have single : decide ((if ascii "-st" ∈ words args then (0 : UInt32) ||| ptufSingleThread else 0) &&&
      ptufSingleThread ≠ 0) = decide (ascii "-st" ∈ words args) := by
    by_cases single : ascii "-st" ∈ words args <;> simp only [single, if_true, if_false] <;> decide
  simp only [main, (handleOptions_words 0 args).2 plain, single]

private theorem tests_eq {single : Bool} {s : Runner.State Worker (RunTest.Cell r)}
    {output : RunTest.Output Worker r}
    (ran : exec (step (Fintype.card Worker)) (RunTest.testing single r) schedule = some s)
    (done : RunTest.runTest single r schedule = some output) : output.tests = s.calls.reverse := by
  simp only [RunTest.runTest, ran, Option.bind_eq_bind, Option.bind_eq_some_iff] at done
  obtain ⟨inits, _, s', same, finished⟩ := done
  cases same
  split at finished
  · simp only [Option.bind_eq_some_iff] at finished
    obtain ⟨dones, _, lines, _, same⟩ := finished
    cases same
    rfl
  · cases finished

private theorem tests_single {entries : List (ℕ × Registry.TestCase Func Name)}
    (sound : r.heap.Sound) (listed : Linked r.heap r.headCase entries)
    {s : Runner.State Worker (RunTest.Cell r)}
    (ran : exec (step (Fintype.card Worker)) (RunTest.testing true r) schedule = some s) :
    (∀ call ∈ s.calls.reverse, call.1 = none) ∧
      (s.calls.reverse.map fun call => call.2.val) <+: pointers entries := by
  obtain ⟨chain, values⟩ := RunTest.cases_chain listed sound
  rw [RunTest.testing, Bool.true_or, if_pos rfl] at ran
  obtain ⟨called, rest, split, calls⟩ := calls_of_alone chain ran
  rw [calls, ← values, split, List.map_map, List.map_append]
  refine ⟨fun call member => ?_, List.prefix_append _ _⟩
  obtain ⟨c, _, rfl⟩ := List.mem_map.mp member
  rfl

end Runs

/-- The whole program, for any words on its command line and any test files: `-h`
stops it before any test, `-st` keeps the cases on one thread and in their order,
other words change nothing. -/
theorem main_reports (Worker : Type) [Fintype Worker] [DecidableEq Worker] [Nonempty Worker]
    [DecidableEq Name] (args : List Argument)
    (calls : List (Registry.Registration Func Name)) :
    ∃ r cases inits dones, Registry.addTestCases calls = some r ∧
      cases.map Prod.snd = (Registry.selected calls).map Registry.Registration.case ∧
      inits.map Prod.snd =
        (Registry.fixtures Registry.Registration.isInit calls).map Registry.Registration.case ∧
      dones.map Prod.snd =
        (Registry.fixtures Registry.Registration.isDone calls).map Registry.Registration.case ∧
      (ascii "-h" ∈ words args → ∀ schedule : List (Action Worker),
        main (args.map Argument.text) r schedule = some ⟨-1, none⟩) ∧
      (ascii "-h" ∉ words args → ∀ (schedule : List (Action Worker))
          (s : Runner.State Worker (RunTest.Cell (Registry.initTest r))),
        exec (step (Fintype.card Worker))
          (RunTest.testing (ascii "-st" ∈ words args) (Registry.initTest r)) schedule = some s →
        schedule.length ≤ (RunTest.testing (ascii "-st" ∈ words args) (Registry.initTest r) :
          Runner.State Worker _).rank (Fintype.card Worker) ∧
        ((∀ action, step (Fintype.card Worker) s action = none) →
          ∃ output, main (args.map Argument.text) r schedule =
              some ⟨-(output.lines.length : ℤ), some output⟩ ∧
            RunTest.Right (Registry.initTest r) (pointers cases) (pointers inits) (pointers dones) s
              output ∧
            (ascii "-st" ∈ words args → (∀ call ∈ output.tests, call.1 = none) ∧
              (output.tests.map fun call => call.2.val) <+: pointers cases))) := by
  obtain ⟨r, cases, inits, dones, added, holds⟩ := Registry.addTestCases_holds calls
  have held := holds.initTest.1
  obtain ⟨sound, headCase, ifl, dfl, _, _, apart, _⟩ := held.shape
  refine ⟨r, cases, inits, dones, added, holds.selected, holds.inits, holds.dones,
    fun help schedule => main_help help, fun plain schedule s ran => ?_⟩
  obtain ⟨chain, _⟩ := RunTest.cases_chain headCase sound
  obtain ⟨standalone, starts⟩ :=
    RunTest.testing_starts Worker (Registry.initTest r) (ascii "-st" ∈ words args)
  have acc := start_accounted chain starts
  refine ⟨run_bounded acc ran, fun stuck => ?_⟩
  obtain ⟨ptest, returned⟩ := returned_of_stuck (run_accounted acc ran) stuck
  obtain ⟨output, done, right⟩ := RunTest.runTest_right sound headCase ifl dfl apart ran returned
  refine ⟨output, ?_, right, fun single => ?_⟩
  · rw [main_eq plain, done, Option.map_some, right.status]
  · rw [tests_eq ran done]
    rw [decide_eq_true single] at ran
    exact tests_single sound headCase ran

def twoArgs : List Argument :=
  [⟨⟨[45, 120], by decide⟩, fun _ => 45⟩, ⟨⟨[45, 115, 116], by decide⟩, fun _ => 0⟩]

theorem main_reports_two : ∃ (r : Registry.State Unit ℕ) (cases inits dones : List ℕ)
    (s : Runner.State (Fin 1) (RunTest.Cell (Registry.initTest r)))
    (output : RunTest.Output (Fin 1) (Registry.initTest r)),
    Registry.addTestCases RunTest.fourCalls = some r ∧
      main (twoArgs.map Argument.text) r RunTest.fourSchedule =
        some ⟨-(output.lines.length : ℤ), some output⟩ ∧
      RunTest.Right (Registry.initTest r) cases inits dones s output := by
  obtain ⟨r, cases, inits, dones, added, _, _, _, _, runs⟩ :=
    main_reports (Fin 1) twoArgs RunTest.fourCalls
  have ends : ((Registry.addTestCases RunTest.fourCalls).any fun r =>
      (exec (step 1) (RunTest.testing (ascii "-st" ∈ words twoArgs) (Registry.initTest r))
        RunTest.fourSchedule).any fun s : Runner.State (Fin 1) _ =>
          s.main == .returned (RunTest.cell (Registry.initTest r) 1) && s.worker 0 == .done) = true := by
    decide
  rw [added, Option.any_some] at ends
  obtain ⟨s, ran, final⟩ := (Option.any_eq_true _ _).mp ends
  simp only [Bool.and_eq_true, beq_iff_eq] at final
  have quiet : ∀ w, s.worker w = .done := fun w => by
    rw [Subsingleton.elim w 0]
    exact final.2
  obtain ⟨output, done, right, _⟩ :=
    (runs (by decide) RunTest.fourSchedule s ran).2 (RunTest.returned_stuck final.1 quiet)
  exact ⟨r, pointers cases, pointers inits, pointers dones, s, output, added, done, right⟩

end Prot.Test.Main
