import Prot.Test.RunnerBreakout

/-! What `MultiThreadTest` and `SingleThreadTest` return in any run, broken off or
not: the count and the list that the summary is printed from. -/

namespace Prot.Test.Runner

open Concurrency Memory

variable {Worker Case : Type} [Fintype Worker] [DecidableEq Worker]
variable [Fintype Case] [DecidableEq Case]
variable {cases : List Case} {standalone : Case → Bool} {next : Case → Option Case}
variable {head ptest : Option Case} {s s' last start : State Worker Case} {c : Case} {w : Worker}
variable {action : Action Worker} {actions : List (Action Worker)}

/-- Every step lowers the rank, also in a run that is broken off. -/
theorem Accounted.rank_lt (acc : Accounted cases s)
    (effect : Effect (Fintype.card Worker) s action s') :
    s'.rank (Fintype.card Worker) < s.rank (Fintype.card Worker) := by
  cases effect with
  | fetchNone w here empty => exact rank_goto (by simp [here, Pc.rank])
  | fetchSome w c here first =>
    obtain ⟨i, main⟩ := acc.joining (w := w) (by simp [here])
    have queued := eq_queued_of_lists ((acc.stage_at main).2.2.first first)
    refine rank_carry (c := c) (p := .held w) (w := w) rfl rfl rfl ?_
    rw [here, queued]
    simp [Place.rank, Pc.rank]
  | leave w c here last =>
    apply rank_goto
    rw [here]
    cases c <;> simp [Pc.rank]
  | sort w c here on =>
    apply rank_goto
    rw [here]
    cases (s.result c).standalone <;> simp [Pc.rank]
  | pushLeft w c here =>
    have held : s.place c = .held w := acc.grip.hand w c _ (by rw [here]; rfl)
    refine rank_carry (c := c) (p := .left) (w := w) rfl rfl rfl ?_
    rw [here, held]
    simp [Place.rank, Pc.rank]
  | testFunc w c o here =>
    have held : s.place c = .held w := acc.grip.hand w c _ (by rw [here]; rfl)
    refine rank_carry (c := c) (p := .tested w) (w := w) rfl rfl rfl ?_
    rw [here, held]
    simp [Place.rank, Pc.rank]
  | record w c here =>
    have tested : s.place c = .tested w := acc.grip.hand w c _ (by rw [here]; rfl)
    unfold State.record
    cases s.fails c with
    | true =>
      refine rank_carry (c := c) (p := .failed) (w := w) rfl rfl rfl ?_
      rw [here, tested]
      simp [Place.rank, Pc.rank]
    | false =>
      refine rank_carry (c := c) (p := .passed) (w := w) rfl rfl rfl ?_
      rw [here, tested]
      simp [Place.rank, Pc.rank]
  | post w here => exact rank_goto (s := s) (by simp [here, Pc.rank])
  | wait i here more token =>
    refine rank_main rfl rfl ?_
    rw [here]
    change Fintype.card Worker - (i + 1) + 4 < Fintype.card Worker - i + 4
    omega
  | joined i here all =>
    refine rank_main rfl rfl ?_
    rw [here]
    change (if s.breakout then Main.collect else Main.rearrange : Main Case).rank _ < _ - i + 4
    split <;> simp [Main.rank]
  | rearrange c here first =>
    have left := acc.left.first first
    refine rank_put (c := c) (p := .ready) rfl rfl (Nat.le_refl _) ?_
    rw [left]
    simp [Place.rank]
  | rearranged here empty =>
    refine rank_main rfl rfl ?_
    rw [here]
    exact Nat.lt_succ_self 2
  | testEnd here =>
    refine rank_main rfl rfl ?_
    rw [here]
    exact Nat.lt_succ_self 1
  | singleTest c o here =>
    have ready := (acc.stage_at here).1.2.pop.1
    refine rank_put (c := c) (p := .testing) rfl rfl ?_ ?_
    · rw [here]
      exact Nat.le_refl 2
    · rw [ready]
      simp [Place.rank]
  | singleRecord c here =>
    have testing := ((acc.stage_at here).1.2.1 c).mpr rfl
    have lower : (Place.single : Place Worker).rank < (s.place c).rank := by
      rw [testing]
      simp [Place.rank]
    rcases s.singleRecord_eq c with ⟨_, same⟩ | same <;> rw [same]
    · refine rank_put (c := c) rfl rfl ?_ lower
      rw [here]
      exact Nat.le_succ 1
    · refine rank_put (c := c) rfl rfl ?_ lower
      rw [here]
      exact Nat.le_refl 2
  | collect c here first =>
    have failed := acc.fail.first first
    refine rank_put (c := c) (p := .collected) rfl rfl (Nat.le_refl _) ?_
    rw [failed]
    simp [Place.rank]
  | collected here empty =>
    refine rank_main rfl rfl ?_
    rw [here]
    exact Nat.lt_succ_self 0

/-- Until the runner has returned, somebody can take a step. -/
theorem Accounted.moves (acc : Accounted cases s) (running : ∀ ptest, s.main ≠ .returned ptest) :
    ∃ action s', step (Fintype.card Worker) s action = some s' := by
  cases main : s.main with
  | join i =>
    by_cases all : Fintype.card Worker ≤ i
    · refine ⟨.main, Option.isSome_iff_exists.mp ?_⟩
      rw [step, State.mainNext, main]
      simp [Nat.not_lt.mpr all]
    · by_cases token : 0 < s.semlock
      · refine ⟨.main, Option.isSome_iff_exists.mp ?_⟩
        rw [step, State.mainNext, main]
        simp [Nat.not_le.mp all, token]
      · -- No token is left, and fewer than all workers have posted.
        have tokens : s.semlock + i = headcount Pc.finished s.worker := (acc.stage_at main).1
        by_contra stuck
        have finished : ∀ w, s.worker w = .done := fun w => by
          by_contra busy
          exact stuck (worker_moves busy)
        have everybody : headcount Pc.finished s.worker = Fintype.card Worker := by
          simp [headcount, finished, Pc.finished]
        omega
  | rearrange | record c | collect =>
    refine ⟨.main, Option.isSome_iff_exists.mp ?_⟩
    rw [step, State.mainNext, main]
    rfl
  | test c =>
    cases c with
    | none =>
      refine ⟨.main, Option.isSome_iff_exists.mp ?_⟩
      rw [step, State.mainNext, main]
      rfl
    | some c =>
      refine ⟨.mainTests ⟨0, false, false⟩, Option.isSome_iff_exists.mp ?_⟩
      rw [step, main]
      rfl
  | returned ptest => exact absurd main (running ptest)

omit [DecidableEq Worker] in
theorem init_accounted (chain : Chain next head cases) :
    Accounted cases (init cases standalone next head : State Worker Case) := by
  have inv : Invariant cases (init cases standalone next head : State Worker Case) :=
    init_invariant chain
  obtain ⟨queue, left, fail, hands, tokens, _⟩ := (inv.at_main rfl).1
  refine ⟨inv.common, fun c => ?_, queue.congr fun c => ?_, left, fail, ⟨hands.hand, hands.tested⟩,
    tokens⟩
  · change (Main.join 0 : Main Case).admits (placed cases .queued c) = true
    unfold placed
    split <;> rfl
  · change placed cases .queued c = .queued ↔ (Main.join 0 : Main Case).lists (placed cases _ c) = true
    unfold placed
    split
    · exact ⟨fun _ => rfl, fun _ => rfl⟩
    · exact ⟨fun same => (by cases same), fun same => (by cases same)⟩

omit [DecidableEq Worker] in
private theorem singleInit_accounted (chain : Chain next head cases) :
    Accounted cases (singleInit cases standalone next head : State Worker Case) := by
  have inv : Invariant cases (singleInit cases standalone next head : State Worker Case) :=
    singleInit_invariant chain
  obtain ⟨quiet, _, rest, fail⟩ := (inv.at_main rfl).1
  refine ⟨inv.common, fun c => ?_, rest.congr fun c => ?_, .empty fun c => ?_, fail,
    ⟨fun w c p has => (by cases has), fun w c tested => ?_⟩, quiet, rest⟩
  · change (Main.test head).admits (placed cases .ready c) = true
    unfold placed
    split <;> rfl
  · change placed cases .ready c = .ready ↔ (Main.test head).lists (placed cases _ c) = true
    unfold placed
    split
    · exact ⟨fun _ => rfl, fun _ => rfl⟩
    · exact ⟨fun same => (by cases same), fun same => (by cases same)⟩
  · exact placed_ne (p := .ready) (by simp) (by simp) c
  · exact absurd tested (placed_ne (p := .ready) (by simp) (by simp) c)

/-- What the summary can be printed from: a case is flagged if it has been called
and fails, and the flagged ones are on the list, as many as are counted. -/
structure Summary (cases : List Case) (s : State Worker Case) (ptest : Option Case) : Prop where
  once : ∀ c, (callers s.calls c).length ≤ 1
  only : ∀ c, c ∉ cases → callers s.calls c = []
  flagged : ∀ c, (s.result c).failure = true ↔ callers s.calls c ≠ [] ∧ s.fails c = true
  list : ∃ nodes, Chain s.next ptest nodes ∧ nodes.Nodup ∧ (∀ c ∈ nodes, c ∈ cases) ∧
    (∀ c, (s.result c).failure = true → c ∈ nodes) ∧
    s.failCount = (nodes.filter fun c => (s.result c).failure).length

omit [Fintype Worker] [DecidableEq Worker] in
theorem Common.once (common : Common cases s) (c : Case) : (callers s.calls c).length ≤ 1 := by
  have fine := common.fine c
  cases at_ : s.place c <;> rw [at_] at fine
  case passed | failed | collected =>
    obtain ⟨⟨w, called⟩, _⟩ := fine
    simp [called]
  all_goals simp [fine.1]

omit [DecidableEq Worker] in
theorem Accounted.untested (acc : Accounted cases s) (quiet : ∀ w, s.worker w = .done) (w : Worker)
    (c : Case) : s.place c ≠ .tested w := by
  intro at_
  have has := acc.grip.tested w c at_
  rw [quiet w] at has
  cases has

omit [DecidableEq Worker] in
/-- Where the flagged cases are when the runner has returned. -/
theorem Accounted.flagged (acc : Accounted cases s) (main : s.main = .returned ptest) (c : Case) :
    ((s.result c).failure = true ↔ callers s.calls c ≠ [] ∧ s.fails c = true) ∧
      ((s.result c).failure = true → (Main.returned ptest).lists (s.place c) = true) := by
  have fine := acc.common.fine c
  have stage := acc.stage_at main
  have admits := stage.2.1 c
  have fails : s.fails c = failing (s.result c) (s.failureCount c) := rfl
  cases at_ : s.place c <;> rw [at_] at fine admits
  case tested w => exact absurd at_ (acc.untested stage.1.1 w c)
  case failed | testing => cases admits
  case single => exact ⟨by simp [fine.1, fine.2, fails], fun _ => rfl⟩
  case passed =>
    obtain ⟨⟨w, called⟩, clear, passes⟩ := fine
    simp [called, clear, fails, passes]
  case collected =>
    obtain ⟨⟨w, called⟩, flag, failed⟩ := fine
    exact ⟨by simp [called, flag, fails, failed], fun _ => rfl⟩
  all_goals simp [fine.1, fine.2]

omit [DecidableEq Worker] in
theorem Accounted.summary (acc : Accounted cases s) (main : s.main = .returned ptest) :
    Summary cases s ptest := by
  obtain ⟨⟨_, same⟩, _, nodes, chain, members⟩ := acc.stage_at main
  subst same
  have covers : ∀ c, (s.result c).failure = true → c ∈ nodes := fun c flag =>
    (members c).mpr ((acc.flagged main c).2 flag)
  refine ⟨acc.common.once, fun c outside => ?_, fun c => (acc.flagged main c).1, nodes, chain,
    chain.nodup, fun c listed => ?_, covers, ?_⟩
  · have fine := acc.common.fine c
    rw [(acc.common.member c).mpr outside] at fine
    exact fine.1
  · by_contra outside
    have on : (Main.returned s.ptestCase).lists (s.place c) = true := (members c).mp listed
    rw [(acc.common.member c).mpr outside] at on
    cases on
  · exact acc.common.counted.trans (headcount_eq_length chain.nodup covers)

theorem run_accounted (acc : Accounted cases s)
    (ran : exec (step (Fintype.card Worker)) s actions = some last) : Accounted cases last :=
  exec_invariant (Accounted cases) (fun _ _ _ acc taken => (step_effect taken).accounted acc) acc ran

private theorem Effect.next_eq (effect : Effect (Fintype.card Worker) s action s')
    (acc : Accounted cases s)
    (outside : c ∉ cases) : s'.next c = s.next c := by
  have absent := (acc.common.member c).mpr outside
  have written {d : Case} {target : Option Case} {q : Place Worker} (at_ : s.place d = q)
      (real : q ≠ .absent) : Function.update s.next d target c = s.next c := by
    apply Function.update_of_ne
    rintro rfl
    exact real (at_.symm.trans absent)
  cases effect with
  | pushLeft w d here => exact written (acc.grip.hand w d _ (by rw [here]; rfl)) (by simp)
  | record w d here =>
    have tested : s.place d = .tested w := acc.grip.hand w d _ (by rw [here]; rfl)
    unfold State.record
    cases s.fails d with
    | true => exact written tested (by simp)
    | false => rfl
  | rearrange d here first => exact written (acc.left.first first) (by simp)
  | singleRecord d here =>
    rcases s.singleRecord_eq d with ⟨_, same⟩ | same <;> rw [same] <;> rfl
  | collect d here first => exact written (acc.fail.first first) (by simp)
  | _ => rfl

theorem run_next_eq (acc : Accounted cases start)
    (ran : exec (step (Fintype.card Worker)) start actions = some last) (outside : c ∉ cases) :
    last.next c = start.next c := by
  have both : Accounted cases last ∧ last.next c = start.next c := by
    refine exec_invariant (fun s => Accounted cases s ∧ s.next c = start.next c) ?_ ⟨acc, rfl⟩ ran
    rintro s action s' ⟨acc, same⟩ taken
    have effect := step_effect taken
    exact ⟨effect.accounted acc, (effect.next_eq acc outside).trans same⟩
  exact both.2

omit [DecidableEq Worker] in
theorem start_accounted (chain : Chain next head cases)
    (starts : start = init cases standalone next head ∨
      start = singleInit cases standalone next head) : Accounted cases start := by
  rcases starts with rfl | rfl
  · exact init_accounted chain
  · exact singleInit_accounted chain

theorem run_bounded (acc : Accounted cases start)
    (ran : exec (step (Fintype.card Worker)) start actions = some last) :
    actions.length ≤ start.rank (Fintype.card Worker) := by
  have free : Meets (step (Fintype.card Worker)) (fun _ _ => True) start actions :=
    Meets.of_forall fun _ _ => trivial
  have falls := exec_length_le (State.rank (Fintype.card Worker)) (Accounted cases)
    (fun _ _ _ acc _ taken => (step_effect taken).accounted acc)
    (fun _ _ _ acc _ taken => acc.rank_lt (step_effect taken)) acc free ran
  omega

theorem returned_of_stuck (acc : Accounted cases s)
    (stuck : ∀ action, step (Fintype.card Worker) s action = none) :
    ∃ ptest, s.main = .returned ptest := by
  by_contra running
  obtain ⟨action, s', taken⟩ := acc.moves fun ptest main => running ⟨ptest, main⟩
  cases (stuck action).symm.trans taken

/-- Every run of `MultiThreadTest`, and of `SingleThreadTest` in its place, ends and
only when it has returned, and then what it returns is right for the summary,
whether it has been broken off or not. -/
theorem runs_summarize (chain : Chain next head cases)
    (starts : start = init cases standalone next head ∨
      start = singleInit cases standalone next head)
    (ran : exec (step (Fintype.card Worker)) start actions = some last) :
    actions.length ≤ start.rank (Fintype.card Worker) ∧
    ((∀ action, step (Fintype.card Worker) last action = none) →
      ∃ ptest, last.main = .returned ptest) ∧
    ∀ ptest, last.main = .returned ptest → Summary cases last ptest := by
  have acc := start_accounted chain starts
  have ended := run_accounted acc ran
  exact ⟨run_bounded acc ran, returned_of_stuck ended, fun ptest main => ended.summary main⟩

/-! After a worker has raised `PTUMTTDATA_FLAG_BREAKOUT`. -/

def tests (s : State Worker Case) : Action Worker → Option (Option Worker × Case)
  | .workerTests w _ => match s.worker w with
    | .testFunc c => some (some w, c)
    | _ => none
  | .mainTests _ => match s.main with
    | .test (some c) => some (none, c)
    | _ => none
  | .worker _ | .main => none

/-- A worker that is past its test of the flag. -/
def State.about (s : State Worker Case) : Option Worker × Case → Bool
  | (some w, c) => s.worker w == .testFunc c
  | (none, _) => false

/-- The flag is raised, and no standalone case is called any more. -/
structure Halting (cases : List Case) (s : State Worker Case) : Prop where
  acc : Accounted cases s
  off : s.breakout = true
  main : (∃ i, s.main = .join i) ∨
    ((s.main = .collect ∨ ∃ ptest, s.main = .returned ptest) ∧
      ∀ c, s.place c ≠ .ready ∧ s.place c ≠ .single)

theorem Effect.halting (effect : Effect (Fintype.card Worker) s action s')
    (halting : Halting cases s) : Halting cases s' := by
  have acc := effect.accounted halting.acc
  obtain ⟨before, off, main⟩ := halting
  cases effect with
  | fetchSome w c here first | pushLeft w c here | testFunc w c o here | post w here =>
    obtain ⟨i, main⟩ := before.joining (w := w) (by simp [here])
    exact ⟨acc, off, .inl ⟨i, main⟩⟩
  | fetchNone w here empty | leave w c here last | sort w c here on => exact ⟨acc, off, main⟩
  | record w c here =>
    obtain ⟨i, main⟩ := before.joining (w := w) (by simp [here])
    refine ⟨acc, ?_, .inl ⟨i, ?_⟩⟩ <;> unfold State.record
    · change (s.breakout || _) = true
      rw [off, Bool.true_or]
    · cases s.fails c <;> exact main
  | wait i here more token => exact ⟨acc, off, .inl ⟨i + 1, rfl⟩⟩
  | joined i here all =>
    refine ⟨acc, off, .inr ⟨.inl (if_pos off), fun c => ?_⟩⟩
    have admits := (before.stage_at here).2.1 c
    constructor <;> intro at_ <;> rw [show s.place c = _ from at_] at admits <;> cases admits
  | rearrange c here first | rearranged here empty | testEnd here | singleTest c o here
  | singleRecord c here =>
    rcases main with ⟨i, joins⟩ | ⟨collects | ⟨ptest, returned⟩, _⟩
    · cases here.symm.trans joins
    · cases here.symm.trans collects
    · cases here.symm.trans returned
  | collect c here first =>
    rcases main with ⟨i, joins⟩ | ⟨_, clear⟩
    · cases here.symm.trans joins
    · refine ⟨acc, off, .inr ⟨.inl here, fun d => ?_⟩⟩
      change Function.update s.place c .collected d ≠ _ ∧ Function.update s.place c .collected d ≠ _
      by_cases same : d = c
      · simp [same]
      · rw [Function.update_of_ne same]
        exact clear d
  | collected here empty =>
    rcases main with ⟨i, joins⟩ | ⟨_, clear⟩
    · cases here.symm.trans joins
    · exact ⟨acc, off, .inr ⟨.inr ⟨_, rfl⟩, clear⟩⟩

omit [Fintype Worker] [Fintype Case] in
/-- A worker that neither comes to a call nor makes one. -/
theorem about_goto {here : Pc Case} (worker : s'.worker = Function.update s.worker w here)
    (before : ∀ c, s.worker w ≠ .testFunc c) (after : ∀ c, here ≠ .testFunc c) :
    s'.about = s.about := by
  funext ⟨caller, c⟩
  cases caller with
  | none => rfl
  | some v =>
    change (s'.worker v == .testFunc c) = (s.worker v == .testFunc c)
    rw [worker]
    by_cases mine : v = w
    · subst mine
      rw [Function.update_self, beq_eq_false_iff_ne.mpr (before c), beq_eq_false_iff_ne.mpr (after c)]
    · rw [Function.update_of_ne mine]

omit [Fintype Worker] [Fintype Case] in
private theorem about_testFunc (worker : s'.worker = Function.update s.worker w (.record c))
    (here : s.worker w = .testFunc c) :
    s.about (some w, c) = true ∧ s'.about = Function.update s.about (some w, c) false := by
  refine ⟨by simp [State.about, here], ?_⟩
  funext ⟨caller, d⟩
  cases caller with
  | none =>
    rw [Function.update_of_ne (by simp)]
    rfl
  | some v =>
    by_cases this : (some v, d) = (some w, c)
    · cases this
      rw [Function.update_self]
      simp [State.about, worker]
    · rw [Function.update_of_ne this]
      change (s'.worker v == .testFunc d) = (s.worker v == .testFunc d)
      rw [worker]
      by_cases mine : v = w
      · subst mine
        have other : c ≠ d := by
          rintro rfl
          exact this rfl
        simp [here, other]
      · rw [Function.update_of_ne mine]

omit [Fintype Case] in
theorem Effect.about (effect : Effect (Fintype.card Worker) s action s') (off : s.breakout = true)
    (main : ∀ c, s.main ≠ .test c) : (tests s action = none ∧ s'.about = s.about) ∨
      ∃ w c, tests s action = some (some w, c) ∧ s.about (some w, c) = true ∧
        s'.about = Function.update s.about (some w, c) false := by
  cases effect with
  | testFunc w c o here =>
    exact .inr ⟨w, c, by simp [tests, here], about_testFunc rfl here⟩
  | singleTest c o here => exact absurd here (main _)
  | sort w c here on => cases off.symm.trans on
  | record w c here =>
    have goes : (s.record w c).worker = Function.update s.worker w .fetch := by
      unfold State.record
      cases s.fails c <;> rfl
    exact .inl ⟨rfl, about_goto goes (by simp [here]) (by simp)⟩
  | singleRecord c here =>
    refine .inl ⟨rfl, ?_⟩
    rcases s.singleRecord_eq c with ⟨_, same⟩ | same <;> rw [same] <;> rfl
  | fetchNone w here empty | fetchSome w c here first | leave w c here last | pushLeft w c here
  | post w here => exact .inl ⟨rfl, about_goto (w := w) rfl (by simp [here]) (by simp)⟩
  | _ => exact .inl ⟨rfl, rfl⟩

/-- The flag is raised while the runner waits. -/
theorem Effect.raises (effect : Effect (Fintype.card Worker) s action s') (acc : Accounted cases s)
    (on : s.breakout = false) (off : s'.breakout = true) : Halting cases s' := by
  refine ⟨effect.accounted acc, off, .inl ?_⟩
  cases effect with
  | record w c here =>
    obtain ⟨i, main⟩ := acc.joining (w := w) (by simp [here])
    refine ⟨i, ?_⟩
    unfold State.record
    cases s.fails c <;> exact main
  | singleRecord c here =>
    have same : (s.singleRecord c).breakout = s.breakout := by
      rcases s.singleRecord_eq c with ⟨_, same⟩ | same <;> rw [same] <;> rfl
    cases on.symm.trans (same.symm.trans off)
  | _ => cases on.symm.trans off

theorem run_halting (chain : Chain next head cases)
    (ran : exec (step (Fintype.card Worker)) (init cases standalone next head) actions = some s)
    (off : s.breakout = true) : Halting cases s := by
  have both : Accounted cases s ∧ (s.breakout = true → Halting cases s) := by
    refine exec_invariant (fun s => Accounted cases s ∧ (s.breakout = true → Halting cases s)) ?_
      ⟨init_accounted chain, fun off => by cases off⟩ ran
    rintro s action s' ⟨acc, halting⟩ taken
    have effect := step_effect taken
    refine ⟨effect.accounted acc, fun raised => ?_⟩
    cases on : s.breakout with
    | true => exact effect.halting (halting on)
    | false => exact effect.raises acc on raised
  exact both.2 off

/-- Once the flag is raised a worker calls only the case that it is just about to,
the runner calls none, and returns the failed cases alone. -/
theorem breakout_stops {after : List (Action Worker)} (chain : Chain next head cases)
    (before : exec (step (Fintype.card Worker)) (init cases standalone next head) actions = some s)
    (off : s.breakout = true) (ran : exec (step (Fintype.card Worker)) s after = some last)
    (main : last.main = .returned ptest) :
    (trace (step (Fintype.card Worker)) tests s after).Nodup ∧
    (∀ call, call ∈ trace (step (Fintype.card Worker)) tests s after ↔
      ∃ w c, call = (some w, c) ∧ s.worker w = .testFunc c) ∧
    (∀ c, none ∉ callers last.calls c) ∧
    ∃ nodes, Chain last.next ptest nodes ∧ ∀ c, c ∈ nodes ↔ (last.result c).failure = true := by
  have halting := run_halting chain before off
  have ended : Halting cases last := exec_invariant (Halting cases)
    (fun _ _ _ halting taken => (step_effect taken).halting halting) halting ran
  obtain ⟨⟨quiet, rfl⟩, admits, nodes, listed, members⟩ := ended.acc.stage_at main
  have unlisted : ∀ c, last.place c ≠ .ready ∧ last.place c ≠ .single := by
    rcases ended.main with ⟨i, joins⟩ | ⟨_, clear⟩
    · cases main.symm.trans joins
    · exact clear
  have free : Meets (step (Fintype.card Worker)) (fun _ _ => True) s after :=
    Meets.of_forall fun _ _ => trivial
  have about : ∀ s : State Worker Case, ∀ action s', Halting cases s →
      step (Fintype.card Worker) s action = some s' →
      (tests s action = none ∧ s'.about = s.about) ∨
        ∃ w c, tests s action = some (some w, c) ∧ s.about (some w, c) = true ∧
          s'.about = Function.update s.about (some w, c) false := by
    intro s action s' halting taken
    refine (step_effect taken).about halting.off fun c here => ?_
    rcases halting.main with ⟨i, joins⟩ | ⟨collects | ⟨ptest, returned⟩, _⟩
    · cases here.symm.trans joins
    · cases here.symm.trans collects
    · cases here.symm.trans returned
  have drained : (trace (step (Fintype.card Worker)) tests s after).Nodup ∧
      ∀ call, call ∈ trace (step (Fintype.card Worker)) tests s after ↔ s.about call = true :=
    trace_drains (Halting cases)
      (fun _ _ _ halting _ taken => (step_effect taken).halting halting)
      (fun s action s' halting _ taken shown => by
        rcases about s action s' halting taken with ⟨_, same⟩ | ⟨w, c, called, _⟩
        · exact same
        · cases shown.symm.trans called)
      (fun s action s' call halting _ taken shown => by
        rcases about s action s' halting taken with ⟨silent, _⟩ | ⟨w, c, called, marked, moved⟩
        · cases silent.symm.trans shown
        · cases called.symm.trans shown
          exact ⟨marked, moved⟩)
      halting free ran
      (fun call => by
        obtain ⟨caller, c⟩ := call
        cases caller with
        | none => rfl
        | some w => simp [State.about, quiet])
  refine ⟨drained.1, fun call => (drained.2 call).trans ?_, fun c => ?_, nodes, listed, fun c => ?_⟩
  · obtain ⟨caller, c⟩ := call
    cases caller <;> simp [State.about]
  · have fine := ended.acc.common.fine c
    have clear := unlisted c
    have known := admits c
    cases at_ : last.place c <;> rw [at_] at fine clear known
    case passed | collected =>
      obtain ⟨⟨w, called⟩, _⟩ := fine
      simp [called]
    case failed | testing => cases known
    case single => exact absurd rfl clear.2
    all_goals simp [fine.1]
  · refine ⟨fun member => ?_, fun flag => (members c).mpr ((ended.acc.flagged main c).2 flag)⟩
    have on : (Main.returned last.ptestCase).lists (last.place c) = true := (members c).mp member
    have fine := ended.acc.common.fine c
    have clear := unlisted c
    cases at_ : last.place c <;> rw [at_] at fine clear on
    case collected => exact fine.2.1
    case ready => exact absurd rfl clear.1
    case single => exact absurd rfl clear.2
    all_goals cases on

/-- Worker 0 calls the first of three cases, which fails and asks for a break, while
worker 1 puts the second one aside and is about to call the third. -/
def raisingRun : List (Action (Fin 2)) :=
  [.worker 0, .worker 0, .worker 1, .worker 1, .worker 1, .worker 1, .worker 1,
    .workerTests 0 ⟨1, true, false⟩, .worker 0]

def haltingRun : List (Action (Fin 2)) :=
  [.workerTests 1 ⟨0, false, false⟩, .worker 1, .worker 1, .worker 1, .worker 1, .worker 0, .worker 0,
    .worker 0, .main, .main, .main, .main, .main]

theorem runs_summarize_three : ∃ last, exec (step 2) threeInit (raisingRun ++ haltingRun) = some last ∧
    last.main = .returned (some 0) ∧ last.breakout = true ∧ Summary [0, 1, 2] last (some 0) := by
  have chain : Chain threeNext (some 0) [0, 1, 2] := by simp [Chain, threeNext]
  have ends : (exec (step 2) threeInit (raisingRun ++ haltingRun)).map
      (fun s => (s.main, s.breakout)) = some (.returned (some 0), true) := by decide
  obtain ⟨last, ran, same⟩ := Option.map_eq_some_iff.mp ends
  simp only [Prod.mk.injEq] at same
  obtain ⟨main, off⟩ := same
  exact ⟨last, ran, main, off, (runs_summarize chain (.inl rfl) ran).2.2 (some 0) main⟩

theorem breakout_stops_three : ∃ s, exec (step 2) threeInit raisingRun = some s ∧
    ∀ call, call ∈ trace (step 2) tests s haltingRun ↔
      ∃ w c, call = (some w, c) ∧ s.worker w = .testFunc c := by
  have chain : Chain threeNext (some 0) [0, 1, 2] := by simp [Chain, threeNext]
  have raises : (exec (step 2) threeInit raisingRun).map (fun s => s.breakout) = some true := by
    decide
  obtain ⟨s, before, off⟩ := Option.map_eq_some_iff.mp raises
  have ends : (exec (step 2) threeInit (raisingRun ++ haltingRun)).map (fun s => s.main) =
      some (.returned (some 0)) := by decide
  obtain ⟨last, ran, main⟩ := Option.map_eq_some_iff.mp ends
  obtain ⟨middle, first, rest⟩ := exec_append_eq_some ran
  cases before.symm.trans first
  exact ⟨s, before, (breakout_stops chain before off rest main).2.1⟩

end Prot.Test.Runner
