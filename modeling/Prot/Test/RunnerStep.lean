import Prot.Test.Runner

/-! What a step of the runner and its workers can do, said once. -/

namespace Prot.Test.Runner

open Concurrency Memory

variable {Worker Case : Type} [DecidableEq Worker] [DecidableEq Case]

/-- The steps, with what makes each of them possible. -/
inductive Effect (lines : ℕ) (s : State Worker Case) :
    Action Worker → State Worker Case → Prop where
  | fetchNone (w : Worker) (here : s.worker w = .fetch) (empty : s.ptestCase = none) :
      Effect lines s (.worker w) (s.goto w (.fetched none))
  | fetchSome (w : Worker) (c : Case) (here : s.worker w = .fetch)
      (first : s.ptestCase = some c) :
      Effect lines s (.worker w)
        (({ s with ptestCase := s.next c }.put c (.held w)).goto w (.fetched (some c)))
  | leave (w : Worker) (c : Option Case) (here : s.worker w = .fetched c)
      (last : c = none ∨ s.breakout = true) : Effect lines s (.worker w) (s.goto w .post)
  | sort (w : Worker) (c : Case) (here : s.worker w = .fetched (some c))
      (on : s.breakout = false) :
      Effect lines s (.worker w)
        (s.goto w (if (s.result c).standalone then .pushLeft c else .testFunc c))
  | pushLeft (w : Worker) (c : Case) (here : s.worker w = .pushLeft c) :
      Effect lines s (.worker w) (s.pushLeft w c)
  | testFunc (w : Worker) (c : Case) (o : Outcome) (here : s.worker w = .testFunc c) :
      Effect lines s (.workerTests w o)
        (((s.testFunc (some w) c o).put c (.tested w)).goto w (.record c))
  | record (w : Worker) (c : Case) (here : s.worker w = .record c) :
      Effect lines s (.worker w) (s.record w c)
  | post (w : Worker) (here : s.worker w = .post) :
      Effect lines s (.worker w) { s.goto w .done with semlock := s.semlock + 1 }
  | wait (i : ℕ) (here : s.main = .join i) (more : i < lines) (token : 0 < s.semlock) :
      Effect lines s .main { s with semlock := s.semlock - 1, main := .join (i + 1) }
  | joined (i : ℕ) (here : s.main = .join i) (all : lines ≤ i) :
      Effect lines s .main
        { s with ptestCase := none, main := if s.breakout then .collect else .rearrange }
  | rearrange (p : Case) (here : s.main = .rearrange) (first : s.ptestLeft = some p) :
      Effect lines s .main ({ s with
        ptestLeft := s.next p
        next := Function.update s.next p s.ptestCase
        ptestCase := some p }.put p .ready)
  | rearranged (here : s.main = .rearrange) (empty : s.ptestLeft = none) :
      Effect lines s .main { s with main := .test s.ptestCase }
  | testEnd (here : s.main = .test none) : Effect lines s .main { s with main := .collect }
  | singleTest (c : Case) (o : Outcome) (here : s.main = .test (some c)) :
      Effect lines s (.mainTests o)
        { (s.testFunc none c o).put c .testing with main := .record c }
  | singleRecord (c : Case) (here : s.main = .record c) :
      Effect lines s .main (s.singleRecord c)
  | collect (p : Case) (here : s.main = .collect) (first : s.ptestFail = some p) :
      Effect lines s .main ({ s with
        ptestFail := s.next p
        next := Function.update s.next p s.ptestCase
        ptestCase := some p }.put p .collected)
  | collected (here : s.main = .collect) (empty : s.ptestFail = none) :
      Effect lines s .main { s with main := .returned s.ptestCase }

variable {lines : ℕ} {s s' : State Worker Case} {action : Action Worker} {w : Worker}

private theorem workerNext_effect (taken : s.workerNext w = some s') :
    Effect lines s (.worker w) s' := by
  cases here : s.worker w with
  | fetch =>
    simp only [State.workerNext, here, State.fetch] at taken
    split at taken
    · rename_i empty
      cases taken
      exact .fetchNone w here empty
    · rename_i c first
      cases taken
      exact .fetchSome w c here first
  | fetched c =>
    cases c with
    | none =>
      simp only [State.workerNext, here] at taken
      cases taken
      exact .leave w none here (.inl rfl)
    | some c =>
      simp only [State.workerNext, here] at taken
      split at taken
      · rename_i off
        cases taken
        exact .leave w (some c) here (.inr off)
      · rename_i on
        cases taken
        exact .sort w c here (by simpa using on)
  | pushLeft c =>
    simp only [State.workerNext, here] at taken
    cases taken
    exact .pushLeft w c here
  | record c =>
    simp only [State.workerNext, here] at taken
    cases taken
    exact .record w c here
  | post =>
    simp only [State.workerNext, here] at taken
    cases taken
    exact .post w here
  | testFunc c => simp [State.workerNext, here] at taken
  | done => simp [State.workerNext, here] at taken

private theorem rearrange_effect (here : s.main = .rearrange) :
    Effect lines s .main s.rearrange := by
  unfold State.rearrange
  split
  · rename_i empty
    exact .rearranged here empty
  · rename_i p first
    exact .rearrange p here first

private theorem collect_effect (here : s.main = .collect) : Effect lines s .main s.collect := by
  unfold State.collect
  split
  · rename_i empty
    exact .collected here empty
  · rename_i p first
    exact .collect p here first

private theorem mainNext_effect (taken : s.mainNext lines = some s') : Effect lines s .main s' := by
  cases here : s.main with
  | join i =>
    simp only [State.mainNext, here] at taken
    split at taken
    · rename_i more
      split at taken
      · rename_i token
        cases taken
        exact .wait i here more token
      · cases taken
    · rename_i all
      cases taken
      exact .joined i here (Nat.not_lt.mp all)
  | rearrange =>
    simp only [State.mainNext, here] at taken
    cases taken
    exact rearrange_effect here
  | test c =>
    cases c with
    | none =>
      simp only [State.mainNext, here] at taken
      cases taken
      exact .testEnd here
    | some c => simp [State.mainNext, here] at taken
  | record c =>
    simp only [State.mainNext, here] at taken
    cases taken
    exact .singleRecord c here
  | collect =>
    simp only [State.mainNext, here] at taken
    cases taken
    exact collect_effect here
  | returned c => simp [State.mainNext, here] at taken

theorem step_effect (taken : step lines s action = some s') : Effect lines s action s' := by
  cases action with
  | worker w => exact workerNext_effect taken
  | workerTests w o =>
    simp only [step] at taken
    split at taken
    · rename_i c here
      cases taken
      exact .testFunc w c o here
    · cases taken
  | main => exact mainNext_effect taken
  | mainTests o =>
    simp only [step] at taken
    split at taken
    · rename_i c here
      cases taken
      exact .singleTest c o here
    · cases taken

end Prot.Test.Runner
