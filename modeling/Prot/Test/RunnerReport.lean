import Prot.Test.RunnerProgress

/-! What `MultiThreadTest` has done when it returns: every case is called once,
on the right side, and every failure is counted and listed once. -/

namespace Prot.Test.Runner

open Concurrency Memory

variable {Worker Case : Type} [Fintype Worker] [DecidableEq Worker]
variable [Fintype Case] [DecidableEq Case]

/-- Whether a case that is here was found to be a standalone one. -/
def Place.sorted : Place Worker → Option Bool
  | .left | .ready | .testing | .single => some true
  | .tested _ | .passed | .failed | .collected => some false
  | .absent | .queued | .held _ => none

/-- The case that a worker has found to be a standalone one or not. -/
def Pc.sorted : Pc Case → Option (Case × Bool)
  | .pushLeft c => some (c, true)
  | .testFunc c | .record c => some (c, false)
  | _ => none

/-- Everybody goes by the flag the case was registered with. -/
structure Sorted (standalone : Case → Bool) (s : State Worker Case) : Prop where
  flag : ∀ c, (s.result c).standalone = standalone c
  place : ∀ c b, (s.place c).sorted = some b → standalone c = b
  worker : ∀ w c b, (s.worker w).sorted = some (c, b) → standalone c = b

/-- The result of a case depends on nothing but the case. -/
def Follows (outcome : Case → Outcome) (s : State Worker Case) : Action Worker → Prop
  | .workerTests w o => ∀ c, s.worker w = .testFunc c → o = outcome c
  | .mainTests o => ∀ c, s.main = .test (some c) → o = outcome c
  | .worker _ | .main => True

/-- The fields of a case before and after its call. -/
structure Outcomes (outcome : Case → Outcome) (s : State Worker Case) : Prop where
  before : ∀ c, callers s.calls c = [] → (s.result c).ignore = false ∧ s.failureCount c = 0
  after : ∀ c, callers s.calls c ≠ [] →
    (s.result c).ignore = (outcome c).ignore ∧ s.failureCount c = (outcome c).failures

/-- The calls of `TestFunc`, `*pfailcount` and the list that is returned. -/
structure Report (cases : List Case) (standalone : Case → Bool) (s : State Worker Case)
    (ptest : Option Case) : Prop where
  once : ∀ c ∈ cases, ∃ caller, callers s.calls c = [caller] ∧
    (caller = none ↔ standalone c = true)
  only : ∀ c, c ∉ cases → callers s.calls c = []
  count : s.failCount = (cases.filter s.fails).length
  list : ∃ nodes, Chain s.next ptest nodes ∧ nodes.Nodup ∧ (∀ c ∈ nodes, c ∈ cases) ∧
    ∀ c ∈ cases, s.fails c = true ↔ c ∈ nodes ∧ (s.result c).failure = true

variable {cases : List Case} {standalone : Case → Bool} {next : Case → Option Case}
variable {head : Option Case} {s s' : State Worker Case} {c : Case} {w : Worker} {lines i : ℕ}
variable {action : Action Worker} {p : Place Worker} {here : Pc Case} {outcome : Case → Outcome}
variable {caller : Option Worker} {o : Outcome}

/-! The first states. -/

def placed (cases : List Case) (p : Place Worker) (c : Case) : Place Worker :=
  if c ∈ cases then p else .absent

omit [Fintype Worker] [DecidableEq Worker] [Fintype Case] in
theorem placed_self (real : p ≠ .absent) (c : Case) : c ∈ cases ↔ placed cases p c = p := by
  unfold placed
  split
  · rename_i member
    exact ⟨fun _ => rfl, fun _ => member⟩
  · rename_i outside
    exact ⟨fun member => absurd member outside, fun same => absurd same.symm real⟩

omit [Fintype Worker] [DecidableEq Worker] [Fintype Case] in
theorem placed_ne {q : Place Worker} (real : q ≠ .absent) (other : q ≠ p) (c : Case) :
    placed cases p c ≠ q := by
  unfold placed
  split
  · exact Ne.symm other
  · exact Ne.symm real

omit [Fintype Worker] [DecidableEq Worker] in
private theorem placed_common (place : s.place = placed cases p) (real : p ≠ .absent)
    (fresh : ∀ r, r.failure = false → p.Fine r 0 []) (result : s.result = registered standalone)
    (failureCount : s.failureCount = fun _ => 0) (failCount : s.failCount = 0)
    (calls : s.calls = []) : Common cases s := by
  refine ⟨fun c => ?_, fun c => ?_, ?_⟩
  · rw [place, result, failureCount, calls]
    unfold placed
    split
    · exact fresh _ rfl
    · exact ⟨rfl, rfl⟩
  · rw [place]
    unfold placed
    split <;> simp [*]
  · rw [failCount, result]
    exact (headcount_eq_zero_iff.mpr fun c => rfl).symm

omit [Fintype Worker] [DecidableEq Worker] [Fintype Case] in
private theorem placed_allowed {main : Main Case} (place : s.place = placed cases p)
    (allowed : main.allows p = true) (c : Case) : main.allows (s.place c) = true := by
  rw [place]
  unfold placed
  split
  · exact allowed
  · cases main <;> rfl

omit [DecidableEq Worker] in
theorem init_invariant (chain : Chain next head cases) :
    Invariant cases (init cases standalone next head : State Worker Case) := by
  have nowhere : ∀ q : Place Worker, q ≠ .absent → q ≠ .queued → ∀ c,
      (init cases standalone next head : State Worker Case).place c ≠ q :=
    fun q real other c => placed_ne real other c
  refine ⟨placed_common (p := .queued) rfl nofun (fun r clear => ⟨rfl, clear⟩) rfl rfl rfl rfl,
    placed_allowed (p := .queued) rfl rfl, ⟨cases, chain, placed_self nofun⟩,
    .empty (nowhere .left nofun nofun), .empty (nowhere .failed nofun nofun),
    ⟨nofun, fun w c held => ?_, fun w c tested => ?_⟩, ?_, nofun⟩
  · exact absurd held (nowhere (.held w) nofun nofun c)
  · exact absurd tested (nowhere (.tested w) nofun nofun c)
  · exact (headcount_eq_zero_iff.mpr fun w => rfl).symm

omit [DecidableEq Worker] in
theorem singleInit_invariant (chain : Chain next head cases) :
    Invariant cases (singleInit cases standalone next head : State Worker Case) := by
  have nowhere : ∀ q : Place Worker, q ≠ .absent → q ≠ .ready → ∀ c,
      (singleInit cases standalone next head : State Worker Case).place c ≠ q :=
    fun q real other c => placed_ne real other c
  refine ⟨placed_common (p := .ready) rfl nofun (fun r clear => ⟨rfl, clear⟩) rfl rfl rfl rfl,
    placed_allowed (p := .ready) rfl rfl, fun w => rfl, ⟨cases, chain, fun c => ?_⟩,
    ⟨cases, chain, placed_self nofun⟩, .empty (nowhere .failed nofun nofun)⟩
  refine (placed_self (p := .ready) nofun c).trans ⟨.inl, ?_⟩
  rintro (at_ | at_)
  · exact at_
  · exact absurd at_ (nowhere .single nofun nofun c)

omit [Fintype Worker] [DecidableEq Worker] [Fintype Case] in
theorem init_sorted : Sorted standalone (init cases standalone next head : State Worker Case) := by
  refine ⟨fun c => rfl, fun c b known => ?_, fun w c b known => ?_⟩
  · change (placed cases .queued c : Place Worker).sorted = some b at known
    unfold placed at known
    split at known <;> cases known
  · cases known

/-! What a step keeps. -/

omit [Fintype Worker] [DecidableEq Worker] [Fintype Case] [DecidableEq Case] in
theorem Sorted.congr (sorted : Sorted standalone s)
    (flag : ∀ c, (s'.result c).standalone = (s.result c).standalone) (place : s'.place = s.place)
    (worker : s'.worker = s.worker) : Sorted standalone s' := by
  refine ⟨fun c => (flag c).trans (sorted.flag c), ?_, ?_⟩
  · rw [place]
    exact sorted.place
  · rw [worker]
    exact sorted.worker

omit [Fintype Worker] [Fintype Case] [DecidableEq Case] in
theorem Sorted.goto (sorted : Sorted standalone s)
    (known : ∀ c b, here.sorted = some (c, b) → standalone c = b) :
    Sorted standalone (s.goto w here) := by
  refine ⟨sorted.flag, sorted.place, fun v c b => ?_⟩
  change (Function.update s.worker w here v).sorted = some (c, b) → standalone c = b
  by_cases mine : v = w
  · subst mine
    rw [Function.update_self]
    exact known c b
  · rw [Function.update_of_ne mine]
    exact sorted.worker v c b

omit [Fintype Worker] [DecidableEq Worker] [Fintype Case] in
theorem Sorted.put (sorted : Sorted standalone s)
    (known : ∀ b, p.sorted = some b → standalone c = b) : Sorted standalone (s.put c p) := by
  refine ⟨sorted.flag, fun d b => ?_, sorted.worker⟩
  change (Function.update s.place c p d).sorted = some b → standalone d = b
  by_cases same : d = c
  · subst same
    rw [Function.update_self]
    exact known b
  · rw [Function.update_of_ne same]
    exact sorted.place d b

omit [Fintype Worker] [DecidableEq Worker] [Fintype Case] in
/-- A case goes on to another place of its side. -/
theorem Sorted.onward (sorted : Sorted standalone s) (same : p.sorted = (s.place c).sorted) :
    Sorted standalone (s.put c p) := by
  apply sorted.put
  intro b known
  exact sorted.place c b (same.symm.trans known)

omit [Fintype Case] in
/-- A flag that a write to the result of one case leaves as it was. -/
theorem field_update (field : TestResult → Bool) {result : Case → TestResult} {r : TestResult}
    (same : field r = field (result c)) (d : Case) :
    field (Function.update result c r d) = field (result d) := by
  by_cases this : d = c
  · subst this
    rw [Function.update_self, same]
  · rw [Function.update_of_ne this]

omit [Fintype Worker] [DecidableEq Worker] [Fintype Case] in
private theorem testFunc_sorted (sorted : Sorted standalone s) :
    Sorted standalone (s.testFunc caller c o) :=
  sorted.congr (field_update TestResult.standalone rfl) rfl rfl

omit [Fintype Worker] [DecidableEq Worker] [Fintype Case] in
private theorem count_sorted (sorted : Sorted standalone s) : Sorted standalone (s.count c) :=
  sorted.congr (field_update TestResult.standalone rfl) rfl rfl

omit [Fintype Worker] [Fintype Case] in
private theorem record_sorted (sorted : Sorted standalone s) (at_ : s.worker w = .record c) :
    Sorted standalone (s.record w c) := by
  have parallel := sorted.worker w c false (by rw [at_]; rfl)
  have counted := count_sorted (c := c) sorted
  unfold State.record
  refine Sorted.goto ?_ nofun
  cases s.fails c with
  | true =>
    have failed := counted.put (c := c) (p := .failed) fun b known => by
      cases known
      exact parallel
    exact failed.congr (fun d => rfl) rfl rfl
  | false =>
    have passed := counted.put (c := c) (p := .passed) fun b known => by
      cases known
      exact parallel
    exact passed.congr (fun d => rfl) rfl rfl

/-- One step. -/
theorem Effect.sorted (effect : Effect lines s action s') (inv : Invariant cases s)
    (sorted : Sorted standalone s) : Sorted standalone s' := by
  cases effect with
  | fetchNone w here empty => exact sorted.goto nofun
  | fetchSome w c here first =>
    refine Sorted.goto ?_ nofun
    refine Sorted.put ?_ nofun
    exact sorted.congr (fun d => rfl) rfl rfl
  | leave w c here last => exact sorted.goto nofun
  | sort w c here on =>
    apply sorted.goto
    intro d b known
    have flag := sorted.flag c
    cases alone : (s.result c).standalone with
    | true =>
      rw [alone] at known flag
      cases known
      exact flag.symm
    | false =>
      rw [alone] at known flag
      cases known
      exact flag.symm
  | pushLeft w c here =>
    have alone := sorted.worker w c true (by rw [here]; rfl)
    unfold State.pushLeft
    refine Sorted.goto ?_ nofun
    apply Sorted.put
    · exact sorted.congr (fun d => rfl) rfl rfl
    · intro b known
      cases known
      exact alone
  | testFunc w c o here =>
    have parallel := sorted.worker w c false (by rw [here]; rfl)
    apply Sorted.goto
    · apply Sorted.put
      · exact testFunc_sorted sorted
      · intro b known
        cases known
        exact parallel
    · intro d b known
      cases known
      exact parallel
  | record w c here => exact record_sorted sorted here
  | post w here =>
    have gone : Sorted standalone (s.goto w .done) := sorted.goto nofun
    exact gone.congr (fun d => rfl) rfl rfl
  | wait i here more token => exact sorted.congr (fun d => rfl) rfl rfl
  | joined i here all => exact sorted.congr (fun d => rfl) rfl rfl
  | rearrange c here first =>
    have left := (inv.at_main here).1.left.first first
    apply Sorted.onward
    · exact sorted.congr (fun d => rfl) rfl rfl
    · exact (congrArg Place.sorted left).symm
  | rearranged here empty => exact sorted.congr (fun d => rfl) rfl rfl
  | testEnd here => exact sorted.congr (fun d => rfl) rfl rfl
  | singleTest c o here =>
    have ready := (inv.at_main here).1.rest.pop.1
    have called : Sorted standalone (s.testFunc none c o) := testFunc_sorted sorted
    have tested := called.onward (c := c) (p := .testing) (congrArg Place.sorted ready).symm
    exact tested.congr (fun d => rfl) rfl rfl
  | singleRecord c here =>
    have testing := ((inv.at_main here).1.this c).mpr rfl
    have recorded := (count_sorted (c := c) sorted).onward (c := c) (p := .single)
      (congrArg Place.sorted testing).symm
    rcases s.singleRecord_eq c with ⟨_, same⟩ | same <;> rw [same] <;>
      exact recorded.congr (fun d => rfl) rfl rfl
  | collect c here first =>
    have failed := (inv.at_main here).1.fail.first first
    apply Sorted.onward
    · exact sorted.congr (fun d => rfl) rfl rfl
    · exact (congrArg Place.sorted failed).symm
  | collected here empty => exact sorted.congr (fun d => rfl) rfl rfl

omit [Fintype Worker] [DecidableEq Worker] [Fintype Case] in
theorem Outcomes.congr (outcomes : Outcomes outcome s) (calls : s'.calls = s.calls)
    (ignore : ∀ c, (s'.result c).ignore = (s.result c).ignore)
    (failureCount : s'.failureCount = s.failureCount) : Outcomes outcome s' := by
  refine ⟨fun c => ?_, fun c => ?_⟩
  · rw [calls, ignore, failureCount]
    exact outcomes.before c
  · rw [calls, ignore, failureCount]
    exact outcomes.after c

omit [Fintype Worker] [DecidableEq Worker] [Fintype Case] in
/-- The first call of a case. -/
theorem Outcomes.testFunc (outcomes : Outcomes outcome s) (uncalled : callers s.calls c = []) :
    Outcomes outcome (s.testFunc caller c (outcome c)) := by
  obtain ⟨regarded, passing⟩ := outcomes.before c uncalled
  refine ⟨fun d none_ => ?_, fun d called => ?_⟩
  · change callers ((caller, c) :: s.calls) d = [] at none_
    by_cases same : d = c
    · subst same
      rw [callers_cons_self] at none_
      cases none_
    · rw [callers_cons_of_ne _ same] at none_
      change (Function.update s.result c _ d).ignore = false ∧ Function.update s.failureCount c _ d = 0
      rw [Function.update_of_ne same, Function.update_of_ne same]
      exact outcomes.before d none_
  · change callers ((caller, c) :: s.calls) d ≠ [] at called
    change (Function.update s.result c _ d).ignore = (outcome d).ignore ∧
      Function.update s.failureCount c _ d = (outcome d).failures
    by_cases same : d = c
    · subst same
      rw [Function.update_self, Function.update_self]
      simp [regarded, passing]
    · rw [callers_cons_of_ne _ same] at called
      rw [Function.update_of_ne same, Function.update_of_ne same]
      exact outcomes.after d called

omit [Fintype Worker] [DecidableEq Worker] [Fintype Case] in
private theorem count_outcomes (outcomes : Outcomes outcome s) : Outcomes outcome (s.count c) :=
  outcomes.congr rfl (field_update TestResult.ignore rfl) rfl

/-- One step, where the result of a case depends on nothing else. -/
theorem Effect.outcomes (effect : Effect lines s action s') (inv : Invariant cases s)
    (follows : Follows outcome s action) (outcomes : Outcomes outcome s) : Outcomes outcome s' := by
  cases effect with
  | testFunc w c o here =>
    have held : s.place c = .held w := inv.place_of_hand (by rw [here]; rfl)
    have fine := inv.common.fine c
    rw [held] at fine
    cases follows c here
    have called : Outcomes outcome (s.testFunc (some w) c (outcome c)) := outcomes.testFunc fine.1
    exact called.congr rfl (fun d => rfl) rfl
  | singleTest c o here =>
    have fine := inv.common.fine c
    rw [(inv.at_main here).1.rest.pop.1] at fine
    cases follows c here
    have called : Outcomes outcome (s.testFunc none c (outcome c)) := outcomes.testFunc fine.1
    exact called.congr rfl (fun d => rfl) rfl
  | record w c here =>
    have counted : Outcomes outcome (s.count c) := count_outcomes outcomes
    unfold State.record
    cases s.fails c <;> exact counted.congr rfl (fun d => rfl) rfl
  | singleRecord c here =>
    have counted : Outcomes outcome (s.count c) := count_outcomes outcomes
    rcases s.singleRecord_eq c with ⟨_, same⟩ | same <;> rw [same] <;>
      exact counted.congr rfl (fun d => rfl) rfl
  | _ => exact outcomes.congr rfl (fun d => rfl) rfl

/-- Nobody but the runner moves. -/
def State.Alone (s : State Worker Case) : Prop :=
  (∀ w, s.worker w = .done) ∧ s.breakout = false

omit [Fintype Worker] [Fintype Case] in
theorem Effect.alone (effect : Effect lines s action s') (alone : s.Alone) : s'.Alone := by
  cases effect with
  | fetchNone w here empty | fetchSome w c here first | leave w c here last | sort w c here on
  | pushLeft w c here | testFunc w c o here | record w c here | post w here =>
    cases here.symm.trans (alone.1 w)
  | singleRecord c here =>
    rcases s.singleRecord_eq c with ⟨_, same⟩ | same <;> rw [same] <;> exact alone
  | _ => exact alone

/-! What the last state tells. -/

/-- Done with: called, and recorded. -/
def Place.settled : Place Worker → Bool
  | .passed | .failed | .single | .collected => true
  | _ => false

omit [Fintype Worker] [DecidableEq Worker] in
theorem Common.settled (common : Common cases s) (settled : (s.place c).settled = true) :
    (s.result c).failure = s.fails c ∧ callers s.calls c ≠ [] := by
  have fine := common.fine c
  cases at_ : s.place c with
  | passed | failed | collected =>
    rw [at_] at fine
    obtain ⟨⟨w, called⟩, flag, fails⟩ := fine
    exact ⟨flag.trans fails.symm, by simp [called]⟩
  | single =>
    rw [at_] at fine
    exact ⟨fine.2, by simp [fine.1]⟩
  | absent | queued | held w | tested w | left | ready | testing =>
    rw [at_] at settled
    cases settled

omit [Fintype Worker] [DecidableEq Worker] in
/-- When all cases are done with, the count is that of the failing ones. -/
theorem Common.failCount_eq (common : Common cases s) (nodup : cases.Nodup)
    (settled : ∀ c ∈ cases, (s.place c).settled = true) :
    s.failCount = (cases.filter s.fails).length := by
  have flagged : ∀ c, (s.result c).failure = true → c ∈ cases := by
    intro c flag
    by_contra outside
    have fine := common.fine c
    rw [(common.member c).mpr outside] at fine
    cases fine.2.symm.trans flag
  rw [common.counted, headcount_eq_length nodup flagged]
  congr 1
  exact List.filter_congr fun c member => (common.settled (settled c member)).1

def Outcome.fails (o : Outcome) : Bool := !o.ignore && decide (0 < o.failures)

omit [Fintype Worker] [DecidableEq Worker] in
/-- The count, where the result of a case depends on nothing else. -/
theorem Outcomes.failCount_eq (outcomes : Outcomes outcome s) (common : Common cases s)
    (nodup : cases.Nodup) (settled : ∀ c ∈ cases, (s.place c).settled = true) :
    s.failCount = (cases.filter fun c => (outcome c).fails).length := by
  rw [common.failCount_eq nodup settled]
  congr 1
  refine List.filter_congr fun c member => ?_
  obtain ⟨ignore, failures⟩ := outcomes.after c (common.settled (settled c member)).2
  rw [State.fails, ignore, failures]
  rfl

omit [Fintype Worker] [DecidableEq Worker] [Fintype Case] [DecidableEq Case] in
private theorem settled_of_allows {main : Main Case}
    (done : main = .collect ∨ ∃ ptest, main = .returned ptest)
    (allowed : main.allows p = true) (real : p ≠ .absent) : p.settled = true := by
  rcases done with rfl | ⟨ptest, rfl⟩ <;> cases p <;>
    first | rfl | exact absurd rfl real | cases allowed

omit [DecidableEq Worker] in
/-- After the last loop that calls a case, all of them are done with. -/
theorem Invariant.settled (inv : Invariant cases s)
    (done : s.main = .collect ∨ ∃ ptest, s.main = .returned ptest) :
    ∀ c ∈ cases, (s.place c).settled = true := by
  intro c member
  apply settled_of_allows done (inv.allowed c)
  intro absent
  exact (inv.common.member c).mp absent member

omit [DecidableEq Worker] in
/-- The report of a run that nobody broke off. -/
theorem Invariant.report (inv : Invariant cases s) (sorted : Sorted standalone s)
    (nodup : cases.Nodup) {ptest : Option Case} (main : s.main = .returned ptest) :
    Report cases standalone s ptest := by
  have settled := inv.settled (.inr ⟨ptest, main⟩)
  obtain ⟨nodes, chain, members⟩ := (inv.at_main main).1.cases
  refine ⟨fun c member => ?_, fun c outside => ?_, inv.common.failCount_eq nodup settled,
    nodes, chain, chain.nodup, fun c listed => ?_, fun c member => ?_⟩
  · have fine := inv.common.fine c
    have side := sorted.place c
    have settled := settled c member
    cases at_ : s.place c with
    | passed | failed | collected =>
      rw [at_] at fine side
      obtain ⟨⟨w, called⟩, _⟩ := fine
      exact ⟨some w, called, by simp [side false rfl]⟩
    | single =>
      rw [at_] at fine side
      exact ⟨none, fine.1, by simp [side true rfl]⟩
    | absent | queued | held w | tested w | left | ready | testing =>
      rw [at_] at settled
      cases settled
  · have fine := inv.common.fine c
    rw [(inv.common.member c).mpr outside] at fine
    exact fine.1
  · by_contra outside
    have absent := (inv.common.member c).mpr outside
    rcases (members c).mp listed with at_ | at_ <;> cases absent.symm.trans at_
  · have flag := (inv.common.settled (settled c member)).1
    rw [← flag]
    refine ⟨fun failed => ⟨(members c).mpr ?_, failed⟩, And.right⟩
    have fine := inv.common.fine c
    have allowed := (inv.at_main main).2 c
    cases at_ : s.place c with
    | single => exact .inl at_
    | collected => exact .inr at_
    | absent =>
      rw [at_] at fine
      cases fine.2.symm.trans failed
    | passed =>
      rw [at_] at fine
      cases fine.2.1.symm.trans failed
    | queued | held w | tested w | left | ready | testing | failed =>
      rw [at_] at allowed
      cases allowed

/-! Whole runs. -/

section Runs

variable [Nonempty Worker] {actions : List (Action Worker)} {last : State Worker Case}

omit [Fintype Worker] [Fintype Case] [Nonempty Worker] in
theorem meets_whole (ran : exec (step lines) s actions = some last) (whole : last.Whole) :
    Meets (step lines) (fun s action => ∀ s', step lines s action = some s' → s'.Whole) s actions :=
  (Meets.of_final (fun _ _ _ taken => (step_effect taken).whole) ran whole).2

theorem run_invariant (inv : Invariant cases s)
    (ran : exec (step (Fintype.card Worker)) s actions = some last) (whole : last.Whole) :
    Invariant cases last := by
  apply exec_invariant_of_meets (Invariant cases) ?_ inv (meets_whole ran whole) ran
  intro s action s' inv calm taken
  exact (step_effect taken).invariant inv (calm s' taken)

theorem run_sorted (inv : Invariant cases s) (sorted : Sorted standalone s)
    (ran : exec (step (Fintype.card Worker)) s actions = some last) (whole : last.Whole) :
    Sorted standalone last := by
  have both : Invariant cases last ∧ Sorted standalone last := by
    apply exec_invariant_of_meets (fun s => Invariant cases s ∧ Sorted standalone s) ?_
      ⟨inv, sorted⟩ (meets_whole ran whole) ran
    rintro s action s' ⟨inv, sorted⟩ calm taken
    have effect := step_effect taken
    exact ⟨effect.invariant inv (calm s' taken), effect.sorted inv sorted⟩
  exact both.2

theorem run_outcomes (inv : Invariant cases s) (outcomes : Outcomes outcome s)
    (follows : Meets (step (Fintype.card Worker)) (Follows outcome) s actions)
    (ran : exec (step (Fintype.card Worker)) s actions = some last) (whole : last.Whole) :
    Outcomes outcome last := by
  have both : Invariant cases last ∧ Outcomes outcome last := by
    apply exec_invariant_of_meets (fun s => Invariant cases s ∧ Outcomes outcome s) ?_
      ⟨inv, outcomes⟩ ((meets_whole ran whole).and follows) ran
    rintro s action s' ⟨inv, outcomes⟩ ⟨calm, follows⟩ taken
    have effect := step_effect taken
    exact ⟨effect.invariant inv (calm s' taken), effect.outcomes inv follows outcomes⟩
  exact both.2

theorem run_length (inv : Invariant cases s)
    (ran : exec (step (Fintype.card Worker)) s actions = some last) (whole : last.Whole) :
    actions.length ≤ s.rank (Fintype.card Worker) := by
  have falls := exec_length_le (State.rank (Fintype.card Worker)) (Invariant cases)
    (fun s action s' inv calm taken => (step_effect taken).invariant inv (calm s' taken))
    (fun s action s' inv calm taken => (step_effect taken).rank_lt inv)
    inv (meets_whole ran whole) ran
  omega

/-- The runner calls a case only when all workers have posted. -/
theorem run_joined (inv : Invariant cases s)
    (ran : exec (step (Fintype.card Worker)) s actions = some last) (whole : last.Whole) :
    Meets (step (Fintype.card Worker))
      (fun s action => ∀ o, action = .mainTests o → ∀ w, s.worker w = .done) s actions := by
  refine (meets_whole ran whole).of_invariant (Invariant cases) ?_ ?_ inv
  · intro s action s' inv calm taken
    exact (step_effect taken).invariant inv (calm s' taken)
  · rintro s _ s' inv _ taken o rfl
    cases step_effect taken with
    | singleTest c o here => exact (inv.at_main here).1.quiet

omit [Fintype Worker] [DecidableEq Worker] [Fintype Case] [Nonempty Worker] in
private theorem fresh_outcomes (calls : s.calls = []) (result : s.result = registered standalone)
    (failureCount : s.failureCount = fun _ => 0) : Outcomes outcome s := by
  refine ⟨fun c _ => ?_, fun c called => ?_⟩
  · rw [result, failureCount]
    exact ⟨rfl, rfl⟩
  · rw [calls] at called
    exact absurd rfl called

omit [Fintype Worker] [Fintype Case] [Nonempty Worker] in
theorem run_alone (ran : exec (step lines) s actions = some last) (alone : s.Alone) : last.Alone :=
  exec_invariant State.Alone (fun _ _ _ alone taken => (step_effect taken).alone alone) alone ran

/-- A run of `MultiThreadTest` that is not broken off, neither by a worker nor
in the middle of the standalone cases, ends, and only when it has returned. Then
the report is right, and its count is that of `SingleThreadTest` on the same
list, run to its end, where the result of a case depends on nothing else. -/
theorem multiThreadTest_reports (chain : Chain next head cases)
    (ran : exec (step (Fintype.card Worker)) (init cases standalone next head) actions = some last)
    (whole : last.Whole) :
    actions.length ≤ (init cases standalone next head : State Worker Case).rank
      (Fintype.card Worker) ∧
    ((∀ action, step (Fintype.card Worker) last action = none) →
      ∃ ptest, last.main = .returned ptest) ∧
    Meets (step (Fintype.card Worker))
      (fun s action => ∀ o, action = .mainTests o → ∀ w, s.worker w = .done)
      (init cases standalone next head) actions ∧
    ∀ ptest, last.main = .returned ptest → Report cases standalone last ptest ∧
      ∀ outcome, Meets (step (Fintype.card Worker)) (Follows outcome)
          (init cases standalone next head) actions →
        ∀ (single : List (Action Worker)) (ended : State Worker Case),
          exec (step (Fintype.card Worker)) (singleInit cases standalone next head) single =
            some ended →
          Meets (step (Fintype.card Worker)) (Follows outcome)
            (singleInit cases standalone next head) single →
          ended.main = .collect → ended.cut = false → last.failCount = ended.failCount := by
  have inv : Invariant cases (init cases standalone next head : State Worker Case) :=
    init_invariant chain
  have ended := run_invariant inv ran whole
  refine ⟨run_length inv ran whole, fun stuck => ?_, run_joined inv ran whole,
    fun ptest main => ⟨?_, ?_⟩⟩
  · by_contra running
    obtain ⟨action, s', taken⟩ := ended.moves fun ptest main => running ⟨ptest, main⟩
    cases (stuck action).symm.trans taken
  · exact ended.report (run_sorted inv init_sorted ran whole) chain.nodup main
  · intro outcome follows single other ranSingle followsSingle main' uncut
    have inv' : Invariant cases (singleInit cases standalone next head : State Worker Case) :=
      singleInit_invariant chain
    have whole' : other.Whole := ⟨(run_alone ranSingle ⟨fun _ => rfl, rfl⟩).2, uncut⟩
    have ended' := run_invariant inv' ranSingle whole'
    have outcomes := run_outcomes inv (fresh_outcomes rfl rfl rfl) follows ran whole
    have outcomes' := run_outcomes inv' (fresh_outcomes rfl rfl rfl) followsSingle ranSingle whole'
    rw [outcomes.failCount_eq ended.common chain.nodup (ended.settled (.inr ⟨ptest, main⟩)),
      outcomes'.failCount_eq ended'.common chain.nodup (ended'.settled (.inl main'))]

end Runs

def threeNext (c : Fin 3) : Option (Fin 3) := if c = 0 then some 1 else if c = 1 then some 2 else none

/-- Two workers on three cases: 0 fails, 1 is a standalone one and fails, 2 passes. -/
def threeRun : List (Action (Fin 2)) :=
  [.worker 0, .worker 1, .worker 0, .workerTests 0 ⟨1, false, false⟩, .worker 1, .worker 1,
    .worker 1, .worker 0, .worker 1, .workerTests 1 ⟨0, false, false⟩, .worker 0, .worker 1,
    .worker 0, .worker 1, .worker 0, .worker 1, .worker 1, .main, .main, .main, .main, .main,
    .mainTests ⟨2, false, false⟩, .main, .main, .main, .main]

def threeInit : State (Fin 2) (Fin 3) := init [0, 1, 2] (fun c => c = 1) threeNext (some 0)

theorem multiThreadTest_reports_three : ∃ last, exec (step 2) threeInit threeRun = some last ∧
    last.failCount = 2 ∧ Report [0, 1, 2] (fun c => c = 1) last (some 0) := by
  have chain : Chain threeNext (some 0) [0, 1, 2] := by simp [Chain, threeNext]
  have ends : (exec (step 2) threeInit threeRun).map
      (fun s => (s.main, s.failCount, s.breakout, s.cut)) =
        some (.returned (some 0), 2, false, false) := by decide
  obtain ⟨last, ran, same⟩ := Option.map_eq_some_iff.mp ends
  simp only [Prod.mk.injEq] at same
  obtain ⟨main, count, calm, uncut⟩ := same
  have reports := multiThreadTest_reports chain ran ⟨calm, uncut⟩
  exact ⟨last, ran, count, (reports.2.2.2 (some 0) main).1⟩

def cutInit : State (Fin 1) (Fin 2) :=
  init [0, 1] (fun _ => true) (fun c => if c = 0 then some 1 else none) (some 0)

/-- The first standalone case fails, and asks for a break. -/
def cutRun : List (Action (Fin 1)) :=
  [.worker 0, .worker 0, .worker 0, .worker 0, .worker 0, .worker 0, .worker 0, .worker 0, .worker 0,
    .main, .main, .main, .main, .main, .mainTests ⟨1, true, false⟩, .main, .main]

/-- The loop of `SingleThreadTest` is left before the second one, although no
worker has raised `PTUMTTDATA_FLAG_BREAKOUT`. -/
theorem cutRun_unreported : ∃ last, exec (step 1) cutInit cutRun = some last ∧
    last.breakout = false ∧ last.main = .returned (some 0) ∧
      ¬ Report [0, 1] (fun _ => true) last (some 0) := by
  have ends : (exec (step 1) cutInit cutRun).map (fun s => (s.main, s.breakout, s.calls)) =
      some (.returned (some 0), false, [(none, 0)]) := by decide
  obtain ⟨last, ran, same⟩ := Option.map_eq_some_iff.mp ends
  simp only [Prod.mk.injEq] at same
  obtain ⟨main, calm, calls⟩ := same
  refine ⟨last, ran, calm, main, fun report => ?_⟩
  obtain ⟨caller, called, _⟩ := report.once 1 (by decide)
  rw [calls] at called
  cases called

end Prot.Test.Runner
