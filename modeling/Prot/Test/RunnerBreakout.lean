import Prot.Test.RunnerReport

/-! Runs of `MultiThreadTest` that may be broken off, by a worker or in the
middle of the standalone cases: what becomes of every case. -/

namespace Prot.Test.Runner

open Concurrency Memory

variable {Worker Case : Type}

/-- The cases in the hands of the workers. Not every case that has been taken off
the queue is in one: a worker that finds the flag raised drops it. -/
structure Grip (place : Case → Place Worker) (worker : Worker → Pc Case) : Prop where
  hand : ∀ w c p, (worker w).hand w = some (c, p) → place c = p
  tested : ∀ w c, place c = .tested w → (worker w).hand w = some (c, .tested w)

/-- The places of the cases that are on the list of `ptest_case`. -/
def Main.lists : Main Case → Place Worker → Bool
  | .join _, .queued => true
  | .rearrange, .ready => true
  | .test _, .ready | .test _, .single => true
  | .record _, .ready | .record _, .single | .record _, .testing => true
  | .collect, .ready | .collect, .single | .collect, .collected => true
  | .returned _, .ready | .returned _, .single | .returned _, .collected => true
  | _, _ => false

/-- Where a case can be in any run. Those that are left behind on the queue, in a
hand or aside stay there. -/
def Main.admits : Main Case → Place Worker → Bool
  | _, .absent | _, .queued | _, .held _ | _, .tested _ | _, .left | _, .passed => true
  | .returned _, .failed => false
  | _, .failed => true
  | main, place => main.lists place

def State.Stage [Fintype Worker] (s : State Worker Case) : Main Case → Prop
  | .join i => s.semlock + i = headcount Pc.finished s.worker
  | .rearrange | .collect => ∀ w, s.worker w = .done
  | .test head => (∀ w, s.worker w = .done) ∧ Listed s.next head fun c => s.place c = .ready
  | .record this => (∀ w, s.worker w = .done) ∧ (∀ c, s.place c = .testing ↔ c = this) ∧
      Listed s.next (s.next this) fun c => s.place c = .ready
  | .returned ptest => (∀ w, s.worker w = .done) ∧ ptest = s.ptestCase

/-- Where every case is. -/
structure Accounted [Fintype Worker] [Fintype Case] [DecidableEq Case] (cases : List Case)
    (s : State Worker Case) : Prop where
  common : Common cases s
  admits : ∀ c, s.main.admits (s.place c) = true
  listed : Listed s.next s.ptestCase fun c => s.main.lists (s.place c) = true
  left : Listed s.next s.ptestLeft fun c => s.place c = .left
  fail : Listed s.next s.ptestFail fun c => s.place c = .failed
  grip : Grip s.place s.worker
  stage : s.Stage s.main

variable {cases : List Case} {s s' : State Worker Case} {c : Case} {w : Worker}
variable {place : Case → Place Worker} {worker : Worker → Pc Case} {p q : Place Worker}
variable {here : Pc Case} {o : Outcome} {lines i : ℕ} {action : Action Worker}

variable [DecidableEq Worker]

/-- A worker that keeps what it has in hand, or drops it untested. -/
theorem Grip.goto (grip : Grip place worker)
    (same : here.hand w = (worker w).hand w ∨
      here.hand w = none ∧ ∀ d, (worker w).hand w ≠ some (d, .tested w)) :
    Grip place (Function.update worker w here) := by
  refine ⟨fun v d p took => ?_, fun v d at_ => ?_⟩
  · by_cases mine : v = w
    · subst mine
      rw [Function.update_self] at took
      rcases same with same | ⟨empty, _⟩
      · exact grip.hand v d p (same.symm.trans took)
      · cases empty.symm.trans took
    · rw [Function.update_of_ne mine] at took
      exact grip.hand v d p took
  · have has := grip.tested v d at_
    by_cases mine : v = w
    · subst mine
      rw [Function.update_self]
      rcases same with same | ⟨_, untested⟩
      · exact same.trans has
      · exact absurd has (untested d)
    · rwa [Function.update_of_ne mine]

variable [DecidableEq Case]

/-- A case that a worker moves, and what it then has in hand. -/
theorem Grip.move (grip : Grip place worker)
    (mine : ∀ v, v ≠ w → place c ≠ .held v ∧ place c ≠ .tested v)
    (only : ∀ d p, (worker w).hand w = some (d, p) → d = c)
    (took : ∀ d p, here.hand w = some (d, p) → d = c ∧ p = q)
    (gave : ∀ v, q = .tested v → v = w ∧ here.hand w = some (c, q)) :
    Grip (Function.update place c q) (Function.update worker w here) := by
  refine ⟨fun v d p has => ?_, fun v d at_ => ?_⟩
  · by_cases me : v = w
    · subst me
      rw [Function.update_self] at has
      obtain ⟨rfl, rfl⟩ := took d p has
      exact Function.update_self ..
    · rw [Function.update_of_ne me] at has
      have at_ := grip.hand v d p has
      have other : d ≠ c := by
        rintro rfl
        obtain ⟨notHeld, notTested⟩ := mine v me
        rcases Pc.hand_place has with rfl | rfl
        · exact notHeld at_
        · exact notTested at_
      rwa [Function.update_of_ne other]
  · by_cases same : d = c
    · subst same
      rw [Function.update_self] at at_
      obtain ⟨rfl, has⟩ := gave v at_
      rw [Function.update_self, has, at_]
    · rw [Function.update_of_ne same] at at_
      have has := grip.tested v d at_
      have other : v ≠ w := by
        rintro rfl
        exact same (only d _ has)
      rwa [Function.update_of_ne other]

omit [DecidableEq Worker] in
/-- A case that the runner moves, when no worker has anything in hand. -/
theorem Grip.put (grip : Grip place worker) (quiet : ∀ w, worker w = .done)
    (untested : ∀ w, q ≠ .tested w) : Grip (Function.update place c q) worker := by
  refine ⟨fun v d p has => ?_, fun v d at_ => ?_⟩
  · rw [quiet v] at has
    cases has
  · by_cases same : d = c
    · subst same
      rw [Function.update_self] at at_
      exact absurd at_ (untested v)
    · rw [Function.update_of_ne same] at at_
      exact grip.tested v d at_

variable [Fintype Worker] [Fintype Case]

omit [DecidableEq Worker] in
theorem Accounted.stage_at (acc : Accounted cases s) {m : Main Case} (main : s.main = m) :
    s.Stage m ∧ (∀ c, m.admits (s.place c) = true) ∧
      Listed s.next s.ptestCase fun c => m.lists (s.place c) = true := by
  subst main
  exact ⟨acc.stage, acc.admits, acc.listed⟩

omit [DecidableEq Worker] in
/-- A worker that has not posted is at work while the runner waits. -/
theorem Accounted.joining (acc : Accounted cases s) (busy : s.worker w ≠ .done) :
    ∃ i, s.main = .join i := by
  cases main : s.main with
  | join i => exact ⟨i, rfl⟩
  | rearrange | collect => exact absurd ((acc.stage_at main).1 w) busy
  | test c | record c | returned c => exact absurd ((acc.stage_at main).1.1 w) busy

omit [DecidableEq Worker] [Fintype Worker] [Fintype Case] in
theorem admits_update {main : Main Case} (admits : ∀ c, main.admits (place c) = true)
    (goes : main.admits p = true) (d : Case) :
    main.admits (Function.update place c p d) = true := by
  by_cases same : d = c
  · subst same
    rwa [Function.update_self]
  · rw [Function.update_of_ne same]
    exact admits d

omit [DecidableEq Case] [Fintype Case] in
/-- A worker that goes on, but not past its post. -/
theorem stage_goto (stage : s.Stage (.join i)) (before : (s.worker w).finished = false)
    (after : here.finished = false) :
    s.semlock + i = headcount Pc.finished (Function.update s.worker w here) := by
  have tokens : s.semlock + i = headcount Pc.finished s.worker := stage
  exact tokens.trans (headcount_update_same (after.trans before.symm)).symm

omit [DecidableEq Worker] in
theorem Accounted.of_main {m : Main Case} (main : s'.main = m) (common : Common cases s')
    (admits : ∀ c, m.admits (s'.place c) = true)
    (listed : Listed s'.next s'.ptestCase fun c => m.lists (s'.place c) = true)
    (left : Listed s'.next s'.ptestLeft fun c => s'.place c = .left)
    (fail : Listed s'.next s'.ptestFail fun c => s'.place c = .failed)
    (grip : Grip s'.place s'.worker) (stage : s'.Stage m) : Accounted cases s' := by
  subst main
  exact ⟨common, admits, listed, left, fail, grip, stage⟩

/-- A worker that only moves on. -/
theorem Accounted.goto (acc : Accounted cases s) (busy : s.worker w ≠ .done)
    (same : here.hand w = (s.worker w).hand w ∨
      here.hand w = none ∧ ∀ d, (s.worker w).hand w ≠ some (d, .tested w))
    (before : (s.worker w).finished = false) (after : here.finished = false) :
    Accounted cases (s.goto w here) := by
  obtain ⟨i, main⟩ := acc.joining busy
  obtain ⟨stage, admits, listed⟩ := acc.stage_at main
  exact .of_main main (acc.common.congr rfl rfl rfl rfl rfl) admits listed acc.left acc.fail
    (acc.grip.goto same) (stage_goto stage before after)

omit [DecidableEq Worker] [DecidableEq Case] [Fintype Worker] [Fintype Case] in
theorem eq_queued_of_lists (on : (Main.join i : Main Case).lists p = true) : p = .queued := by
  cases p <;> first | rfl | cases on

private theorem fetchSome_accounted (acc : Accounted cases s) (at_ : s.worker w = .fetch)
    (first : s.ptestCase = some c) :
    Accounted cases
      (({ s with ptestCase := s.next c }.put c (.held w)).goto w (.fetched (some c))) := by
  obtain ⟨i, main⟩ := acc.joining (w := w) (by simp [at_])
  obtain ⟨stage, admits, listed⟩ := acc.stage_at main
  rw [first] at listed
  obtain ⟨on, rest⟩ := listed.leaves (q := .held w) rfl
  have queued := eq_queued_of_lists on
  have fine := acc.common.fine c
  rw [queued] at fine
  have common := acc.common.put (p := .held w) (by simp [queued]) (by simp) fine
  refine .of_main main (common.congr rfl rfl rfl rfl rfl) (admits_update admits rfl) rest
    (acc.left.moved (by simp [queued]) (by simp)) (acc.fail.moved (by simp [queued]) (by simp)) ?_
    (stage_goto stage (by rw [at_]; rfl) rfl)
  apply acc.grip.move
  · intro v _
    simp [queued]
  · intro d p has
    simp [at_, Pc.hand] at has
  · intro d p has
    simp [Pc.hand] at has
    exact ⟨has.1.symm, has.2.symm⟩
  · intro v has
    cases has

private theorem pushLeft_accounted (acc : Accounted cases s) (at_ : s.worker w = .pushLeft c) :
    Accounted cases (s.pushLeft w c) := by
  obtain ⟨i, main⟩ := acc.joining (w := w) (by simp [at_])
  obtain ⟨stage, admits, listed⟩ := acc.stage_at main
  have held : s.place c = .held w := acc.grip.hand w c _ (by rw [at_]; rfl)
  have fine := acc.common.fine c
  rw [held] at fine
  have common := acc.common.put (p := .left) (by simp [held]) (by simp) fine
  refine .of_main main (common.congr rfl rfl rfl rfl rfl) (admits_update admits rfl)
    (listed.rewritten (by rw [held]; rfl) rfl) (acc.left.pushed (by simp [held]))
    (acc.fail.written (by simp [held]) (by simp)) ?_ (stage_goto stage (by rw [at_]; rfl) rfl)
  apply acc.grip.move
  · exact fun v other => mine_of_has other (.inl held)
  · intro d p has
    simp [at_, Pc.hand] at has
    exact has.1.symm
  · intro d p has
    cases has
  · intro v has
    cases has

private theorem testFunc_accounted (acc : Accounted cases s) (at_ : s.worker w = .testFunc c) :
    Accounted cases (((s.testFunc (some w) c o).put c (.tested w)).goto w (.record c)) := by
  obtain ⟨i, main⟩ := acc.joining (w := w) (by simp [at_])
  obtain ⟨stage, admits, listed⟩ := acc.stage_at main
  have held : s.place c = .held w := acc.grip.hand w c _ (by rw [at_]; rfl)
  have fine := acc.common.fine c
  rw [held] at fine
  obtain ⟨uncalled, clear⟩ := fine
  have common : Common cases ((s.testFunc (some w) c o).put c (.tested w)) :=
    acc.common.testFunc (by simp [held]) (by simp) fun r n same =>
      ⟨by rw [uncalled], same.trans clear⟩
  refine .of_main main (common.congr rfl rfl rfl rfl rfl) (admits_update admits rfl)
    (listed.stays (by rw [held]; rfl)) (acc.left.moved (by simp [held]) (by simp))
    (acc.fail.moved (by simp [held]) (by simp)) ?_ (stage_goto stage (by rw [at_]; rfl) rfl)
  apply acc.grip.move
  · exact fun v other => mine_of_has other (.inl held)
  · intro d p has
    simp [at_, Pc.hand] at has
    exact has.1.symm
  · intro d p has
    simp [Pc.hand] at has
    exact ⟨has.1.symm, has.2.symm⟩
  · intro v has
    cases has
    exact ⟨rfl, rfl⟩

private theorem record_accounted (acc : Accounted cases s) (at_ : s.worker w = .record c) :
    Accounted cases (s.record w c) := by
  obtain ⟨i, main⟩ := acc.joining (w := w) (by simp [at_])
  obtain ⟨stage, admits, listed⟩ := acc.stage_at main
  have tested : s.place c = .tested w := acc.grip.hand w c _ (by rw [at_]; rfl)
  have fine := acc.common.fine c
  rw [tested] at fine
  obtain ⟨called, clear⟩ := fine
  have grip {q : Place Worker} (gone : ∀ v, q ≠ .tested v) :
      Grip (Function.update s.place c q) (Function.update s.worker w .fetch) := by
    apply acc.grip.move
    · exact fun v other => mine_of_has other (.inr tested)
    · intro d p has
      simp [at_, Pc.hand] at has
      exact has.1.symm
    · intro d p has
      cases has
    · exact fun v has => absurd has (gone v)
  unfold State.record
  cases fails : s.fails c with
  | true =>
    have common := acc.common.count (p := .failed) (by simp [tested]) (by simp) clear
      fun r flag failing => ⟨⟨w, called⟩, flag.trans fails, failing.trans fails⟩
    exact .of_main main (common.congr rfl rfl rfl rfl rfl) (admits_update admits rfl)
      (listed.rewritten (by rw [tested]; rfl) rfl) (acc.left.written (by simp [tested]) (by simp))
      (acc.fail.pushed (by simp [tested])) (grip (by simp))
      (stage_goto stage (by rw [at_]; rfl) rfl)
  | false =>
    have common := acc.common.count (p := .passed) (by simp [tested]) (by simp) clear
      fun r flag failing => ⟨⟨w, called⟩, flag.trans fails, failing.trans fails⟩
    exact .of_main main (common.congr rfl rfl rfl rfl rfl) (admits_update admits rfl)
      (listed.stays (by rw [tested]; rfl)) (acc.left.moved (by simp [tested]) (by simp))
      (acc.fail.moved (by simp [tested]) (by simp)) (grip (by simp))
      (stage_goto stage (by rw [at_]; rfl) rfl)

private theorem post_accounted (acc : Accounted cases s) (at_ : s.worker w = .post) :
    Accounted cases { s.goto w .done with semlock := s.semlock + 1 } := by
  obtain ⟨i, main⟩ := acc.joining (w := w) (by simp [at_])
  obtain ⟨stage, admits, listed⟩ := acc.stage_at main
  refine .of_main main (acc.common.congr rfl rfl rfl rfl rfl) admits listed acc.left acc.fail
    (acc.grip.goto (.inl (by rw [at_]; rfl))) ?_
  have moved := headcount_update Pc.finished s.worker w .done
  have tokens : s.semlock + i = headcount Pc.finished s.worker := stage
  rw [at_] at moved
  simp [Pc.finished] at moved
  change s.semlock + 1 + i = headcount Pc.finished (Function.update s.worker w .done)
  omega

omit [DecidableEq Worker] in
private theorem wait_accounted (acc : Accounted cases s) (main : s.main = .join i)
    (token : 0 < s.semlock) :
    Accounted cases { s with semlock := s.semlock - 1, main := .join (i + 1) } := by
  obtain ⟨stage, admits, listed⟩ := acc.stage_at main
  have tokens : s.semlock + i = headcount Pc.finished s.worker := stage
  refine ⟨acc.common.congr rfl rfl rfl rfl rfl, fun c => ?_, listed.congr fun c => ?_, acc.left,
    acc.fail, acc.grip, ?_⟩
  · have known := admits c
    change (Main.join (i + 1)).admits (s.place c) = true
    cases at_ : s.place c <;> rw [at_] at known <;> first | rfl | cases known
  · change _ ↔ (Main.join (i + 1)).lists (s.place c) = true
    cases s.place c <;> exact Iff.rfl
  · change s.semlock - 1 + (i + 1) = headcount Pc.finished s.worker
    omega

omit [DecidableEq Worker] in
private theorem joined_accounted (acc : Accounted cases s) (main : s.main = .join i)
    (all : Fintype.card Worker ≤ i) : Accounted cases
      { s with ptestCase := none, main := if s.breakout then .collect else .rearrange } := by
  obtain ⟨stage, admits, listed⟩ := acc.stage_at main
  have tokens : s.semlock + i = headcount Pc.finished s.worker := stage
  have quiet : ∀ w, s.worker w = .done := fun w =>
    Pc.eq_done (all_of_card_le_headcount (by omega) w)
  have unlisted : ∀ c, (.rearrange : Main Case).lists (s.place c) = false ∧
      (.collect : Main Case).lists (s.place c) = false := by
    intro c
    have known := admits c
    cases at_ : s.place c <;> rw [at_] at known <;> first | exact ⟨rfl, rfl⟩ | cases known
  have onwards : ∀ c, (.rearrange : Main Case).admits (s.place c) = true ∧
      (.collect : Main Case).admits (s.place c) = true := by
    intro c
    have known := admits c
    cases at_ : s.place c <;> rw [at_] at known <;> first | exact ⟨rfl, rfl⟩ | cases known
  by_cases off : s.breakout = true
  · rw [if_pos off]
    exact ⟨acc.common.congr rfl rfl rfl rfl rfl, fun c => (onwards c).2,
      .empty fun c on => by simp [(unlisted c).2] at on, acc.left, acc.fail, acc.grip, quiet⟩
  · rw [if_neg off]
    exact ⟨acc.common.congr rfl rfl rfl rfl rfl, fun c => (onwards c).1,
      .empty fun c on => by simp [(unlisted c).1] at on, acc.left, acc.fail, acc.grip, quiet⟩

omit [DecidableEq Worker] in
private theorem rearrange_accounted (acc : Accounted cases s) (main : s.main = .rearrange)
    (first : s.ptestLeft = some c) : Accounted cases ({ s with
      ptestLeft := s.next c
      next := Function.update s.next c s.ptestCase
      ptestCase := some c }.put c .ready) := by
  obtain ⟨quiet, admits, listed⟩ := acc.stage_at main
  have left := acc.left
  rw [first] at left
  obtain ⟨at_, rest⟩ := left.popped (q := .ready) (by simp)
  have fine := acc.common.fine c
  rw [at_] at fine
  have common := acc.common.put (p := .ready) (by simp [at_]) (by simp) fine
  exact .of_main main (common.congr rfl rfl rfl rfl rfl) (admits_update admits rfl)
    (listed.joins (by rw [at_]; rfl) rfl) (rest.frame (by simp))
    (acc.fail.written (by simp [at_]) (by simp)) (acc.grip.put quiet (by simp)) quiet

omit [DecidableEq Worker] in
private theorem rearranged_accounted (acc : Accounted cases s) (main : s.main = .rearrange) :
    Accounted cases { s with main := .test s.ptestCase } := by
  obtain ⟨quiet, admits, listed⟩ := acc.stage_at main
  refine ⟨acc.common.congr rfl rfl rfl rfl rfl, fun c => ?_, listed.congr fun c => ?_, acc.left,
    acc.fail, acc.grip, quiet, listed.congr fun c => ?_⟩
  · have known := admits c
    change (Main.test s.ptestCase).admits (s.place c) = true
    cases at_ : s.place c <;> rw [at_] at known <;> first | rfl | cases known
  · have known := admits c
    change _ ↔ (Main.test s.ptestCase).lists (s.place c) = true
    cases at_ : s.place c <;> rw [at_] at known <;> first | exact Iff.rfl | cases known
  · change _ ↔ s.place c = .ready
    cases at_ : s.place c <;> simp [Main.lists]

omit [DecidableEq Worker] in
/-- `SingleThreadTest` leaves its loop, at the end of its list or before. -/
theorem testEnd_accounted {head : Option Case} {cut : Bool} (acc : Accounted cases s)
    (main : s.main = .test head) : Accounted cases { s with main := .collect, cut := cut } := by
  obtain ⟨⟨quiet, _⟩, admits, listed⟩ := acc.stage_at main
  refine ⟨acc.common.congr rfl rfl rfl rfl rfl, fun c => ?_, listed.congr fun c => ?_, acc.left,
    acc.fail, acc.grip, quiet⟩
  · have known := admits c
    change (Main.collect : Main Case).admits (s.place c) = true
    cases at_ : s.place c <;> rw [at_] at known <;> first | rfl | cases known
  · have known := admits c
    change _ ↔ (Main.collect : Main Case).lists (s.place c) = true
    cases at_ : s.place c <;> rw [at_] at known <;> first | exact Iff.rfl | cases known

omit [DecidableEq Worker] in
private theorem singleTest_accounted (acc : Accounted cases s) (main : s.main = .test (some c)) :
    Accounted cases { (s.testFunc none c o).put c .testing with main := .record c } := by
  obtain ⟨⟨quiet, rest⟩, admits, listed⟩ := acc.stage_at main
  obtain ⟨at_, later⟩ := rest.popped (q := .testing) (by simp)
  have fine := acc.common.fine c
  rw [at_] at fine
  obtain ⟨uncalled, clear⟩ := fine
  have common : Common cases ((s.testFunc none c o).put c .testing) :=
    acc.common.testFunc (by simp [at_]) (by simp) fun r n same =>
      ⟨by rw [uncalled], same.trans clear⟩
  have entered : ∀ d, (Main.record c).admits (s.place d) = true := by
    intro d
    have known := admits d
    cases at_ : s.place d <;> rw [at_] at known <;> first | rfl | cases known
  have same : ∀ d, (Main.test (some c)).lists (s.place d) = true ↔
      (Main.record c).lists (s.place d) = true := by
    intro d
    have known := admits d
    cases at_ : s.place d <;> rw [at_] at known <;> first | exact Iff.rfl | cases known
  have untesting : ∀ d, s.place d ≠ .testing := by
    intro d at_
    have known := admits d
    rw [at_] at known
    cases known
  refine ⟨common.congr rfl rfl rfl rfl rfl, admits_update entered rfl,
    (listed.congr same).stays (by rw [at_]; rfl), acc.left.moved (by simp [at_]) (by simp),
    acc.fail.moved (by simp [at_]) (by simp), acc.grip.put quiet (by simp), quiet, fun d => ?_, later⟩
  change Function.update s.place c .testing d = .testing ↔ d = c
  by_cases this : d = c
  · simp [this]
  · rw [Function.update_of_ne this]
    simp [this, untesting d]

omit [DecidableEq Worker] in
private theorem singleRecord_accounted (acc : Accounted cases s) (main : s.main = .record c) :
    Accounted cases { (s.count c).put c .single with main := .test (s.next c) } := by
  obtain ⟨⟨quiet, this, rest⟩, admits, listed⟩ := acc.stage_at main
  have at_ : s.place c = .testing := (this c).mpr rfl
  have fine := acc.common.fine c
  rw [at_] at fine
  obtain ⟨called, clear⟩ := fine
  have common := acc.common.count (p := .single) (by simp [at_]) (by simp) clear
    fun r flag failing => ⟨called, flag.trans failing.symm⟩
  have same : (Main.record c).lists (.single : Place Worker) = (Main.record c).lists (s.place c) := by
    rw [at_]
    rfl
  have moved := listed.stays same
  have untesting : ∀ d, Function.update s.place c .single d ≠ .testing := by
    intro d
    by_cases same : d = c
    · simp [same]
    · rw [Function.update_of_ne same]
      exact fun at_ => same ((this d).mp at_)
  refine ⟨common.congr rfl rfl rfl rfl rfl, fun d => ?_, moved.congr fun d => ?_,
    acc.left.moved (by simp [at_]) (by simp), acc.fail.moved (by simp [at_]) (by simp),
    acc.grip.put quiet (by simp), quiet, rest.moved (by simp [at_]) (by simp)⟩
  · have known := admits_update (c := c) (p := .single) admits rfl d
    change (Main.test (s.next c)).admits (Function.update s.place c .single d) = true
    have other := untesting d
    cases at_ : Function.update s.place c .single d <;> rw [at_] at known other <;>
      first | exact absurd rfl other | rfl | cases known
  · have other := untesting d
    change _ ↔ (Main.test (s.next c)).lists (Function.update s.place c .single d) = true
    cases at_ : Function.update s.place c .single d <;> rw [at_] at other <;>
      first | exact absurd rfl other | exact Iff.rfl

omit [DecidableEq Worker] in
private theorem collect_accounted (acc : Accounted cases s) (main : s.main = .collect)
    (first : s.ptestFail = some c) : Accounted cases ({ s with
      ptestFail := s.next c
      next := Function.update s.next c s.ptestCase
      ptestCase := some c }.put c .collected) := by
  obtain ⟨quiet, admits, listed⟩ := acc.stage_at main
  have fail := acc.fail
  rw [first] at fail
  obtain ⟨at_, rest⟩ := fail.popped (q := .collected) (by simp)
  have fine := acc.common.fine c
  rw [at_] at fine
  have common := acc.common.put (p := .collected) (by simp [at_]) (by simp) fine
  exact .of_main main (common.congr rfl rfl rfl rfl rfl) (admits_update admits rfl)
    (listed.joins (by rw [at_]; rfl) rfl) (acc.left.written (by simp [at_]) (by simp))
    (rest.frame (by simp)) (acc.grip.put quiet (by simp)) quiet

omit [DecidableEq Worker] in
private theorem collected_accounted (acc : Accounted cases s) (main : s.main = .collect)
    (empty : s.ptestFail = none) : Accounted cases { s with main := .returned s.ptestCase } := by
  obtain ⟨quiet, admits, listed⟩ := acc.stage_at main
  have fail := acc.fail
  rw [empty] at fail
  refine ⟨acc.common.congr rfl rfl rfl rfl rfl, fun c => ?_, listed.congr fun c => ?_, acc.left,
    acc.fail, acc.grip, quiet, rfl⟩
  · have known := admits c
    change (Main.returned s.ptestCase).admits (s.place c) = true
    cases at_ : s.place c with
    | failed => exact absurd at_ (fail.none_iff c)
    | testing =>
      rw [at_] at known
      cases known
    | _ => rfl
  · change _ ↔ (Main.returned s.ptestCase).lists (s.place c) = true
    cases s.place c <;> exact Iff.rfl

/-- Every step keeps account of every case. -/
theorem Effect.accounted (effect : Effect (Fintype.card Worker) s action s')
    (acc : Accounted cases s) : Accounted cases s' := by
  cases effect with
  | fetchNone w here empty =>
    exact acc.goto (by simp [here]) (.inl (by rw [here]; rfl)) (by rw [here]; rfl) rfl
  | fetchSome w c here first => exact fetchSome_accounted acc here first
  | leave w c here last =>
    refine acc.goto (by simp [here]) (.inr ⟨rfl, fun d has => ?_⟩) (by rw [here]; rfl) rfl
    cases c <;> simp [here, Pc.hand] at has
  | sort w c here on =>
    cases (s.result c).standalone <;>
      exact acc.goto (by simp [here]) (.inl (by rw [here]; rfl)) (by rw [here]; rfl) rfl
  | pushLeft w c here => exact pushLeft_accounted acc here
  | testFunc w c o here => exact testFunc_accounted acc here
  | record w c here => exact record_accounted acc here
  | post w here => exact post_accounted acc here
  | wait i here more token => exact wait_accounted acc here token
  | joined i here all => exact joined_accounted acc here all
  | rearrange c here first => exact rearrange_accounted acc here first
  | rearranged here empty => exact rearranged_accounted acc here
  | testEnd here => exact testEnd_accounted acc here
  | singleTest c o here => exact singleTest_accounted acc here
  | singleRecord c here =>
    have recorded := singleRecord_accounted acc here
    rcases s.singleRecord_eq c with ⟨_, same⟩ | same <;> rw [same]
    · exact testEnd_accounted (s := { (s.count c).put c .single with main := .test (s.next c) })
        recorded rfl
    · exact recorded
  | collect c here first => exact collect_accounted acc here first
  | collected here empty => exact collected_accounted acc here empty

end Prot.Test.Runner
