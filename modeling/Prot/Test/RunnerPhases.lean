import Prot.Test.RunnerInvariant

/-! Every step keeps every case on one list or in one hand, as long as no run
is broken off. -/

namespace Prot.Test.Runner

open Concurrency Memory

variable {Worker Case : Type} [DecidableEq Worker] [DecidableEq Case]
variable {cases : List Case} {s s' : State Worker Case} {c : Case} {w : Worker}
variable {place : Case → Place Worker} {worker : Worker → Pc Case} {p q : Place Worker}
variable {here : Pc Case} {o : Outcome}

omit [DecidableEq Worker] [DecidableEq Case] in
theorem Pc.hand_place (has : here.hand w = some (c, p)) : p = .held w ∨ p = .tested w := by
  cases here with
  | fetched x =>
    cases x with
    | none => cases has
    | some x =>
      cases has
      exact .inl rfl
  | pushLeft x | testFunc x =>
    cases has
    exact .inl rfl
  | record x =>
    cases has
    exact .inr rfl
  | fetch | post | done => cases has

omit [DecidableEq Case] in
/-- A worker that keeps what it has in hand. -/
theorem Hands.keep (hands : Hands place worker) (same : here.hand w = (worker w).hand w) :
    Hands place (Function.update worker w here) := by
  have equal : ∀ v, (Function.update worker w here v).hand v = (worker v).hand v := by
    intro v
    by_cases mine : v = w
    · subst mine
      rw [Function.update_self, same]
    · rw [Function.update_of_ne mine]
  refine ⟨fun v d p took => ?_, fun v d at_ => ?_, fun v d at_ => ?_⟩
  · rw [equal] at took
    exact hands.hand v d p took
  · rw [equal]
    exact hands.held v d at_
  · rw [equal]
    exact hands.tested v d at_

/-- A case that goes to a place, and the worker that takes it there. -/
theorem Hands.move (hands : Hands place worker)
    (mine : ∀ v, v ≠ w → place c ≠ .held v ∧ place c ≠ .tested v)
    (only : ∀ d p, (worker w).hand w = some (d, p) → d = c)
    (took : ∀ d p, here.hand w = some (d, p) → d = c ∧ p = q)
    (gave : ∀ v, q = .held v ∨ q = .tested v → v = w ∧ here.hand w = some (c, q)) :
    Hands (Function.update place c q) (Function.update worker w here) := by
  have others : ∀ v d p, v ≠ w → (worker v).hand v = some (d, p) → d ≠ c := by
    rintro v d p other has rfl
    obtain ⟨notHeld, notTested⟩ := mine v other
    have at_ := hands.hand v d p has
    rcases Pc.hand_place has with rfl | rfl
    · exact notHeld at_
    · exact notTested at_
  refine ⟨fun v d p has => ?_, fun v d at_ => ?_, fun v d at_ => ?_⟩
  · by_cases me : v = w
    · subst me
      rw [Function.update_self] at has
      obtain ⟨rfl, rfl⟩ := took d p has
      exact Function.update_self ..
    · rw [Function.update_of_ne me] at has
      rw [Function.update_of_ne (others v d p me has)]
      exact hands.hand v d p has
  · by_cases same : d = c
    · subst same
      rw [Function.update_self] at at_
      obtain ⟨rfl, has⟩ := gave v (.inl at_)
      rw [Function.update_self, has, at_]
    · rw [Function.update_of_ne same] at at_
      have has := hands.held v d at_
      have other : v ≠ w := by
        rintro rfl
        exact same (only d _ has)
      rw [Function.update_of_ne other]
      exact has
  · by_cases same : d = c
    · subst same
      rw [Function.update_self] at at_
      obtain ⟨rfl, has⟩ := gave v (.inr at_)
      rw [Function.update_self, has, at_]
    · rw [Function.update_of_ne same] at at_
      have has := hands.tested v d at_
      have other : v ≠ w := by
        rintro rfl
        exact same (only d _ has)
      rw [Function.update_of_ne other]
      exact has

omit [DecidableEq Worker] [DecidableEq Case] in
/-- The case a worker has in hand is in no other's. -/
theorem mine_of_has {v : Worker} (other : v ≠ w)
    (has : place c = .held w ∨ place c = .tested w) : place c ≠ .held v ∧ place c ≠ .tested v := by
  rcases has with has | has <;> simp [has, Ne.symm other]

variable [Fintype Worker] [Fintype Case] {i lines : ℕ} {action : Action Worker}

omit [DecidableEq Worker] in
theorem Invariant.at_main (inv : Invariant cases s) {m : Main Case} (main : s.main = m) :
    s.Phase m ∧ ∀ c, m.allows (s.place c) = true := by
  subst main
  exact ⟨inv.phase, inv.allowed⟩

omit [DecidableEq Worker] in
theorem Invariant.of_main {m : Main Case} (main : s'.main = m) (common : Common cases s')
    (allowed : ∀ c, m.allows (s'.place c) = true) (phase : s'.Phase m) : Invariant cases s' := by
  subst main
  exact ⟨common, allowed, phase⟩

omit [DecidableEq Worker] in
/-- A worker that has not posted is at work while the runner waits. -/
theorem Invariant.joining (inv : Invariant cases s) (busy : s.worker w ≠ .done) :
    ∃ i, s.main = .join i ∧ Joining i s ∧
      ∀ c, (Main.join i : Main Case).allows (s.place c) = true := by
  cases main : s.main with
  | join i => exact ⟨i, rfl, (inv.at_main main).1, (inv.at_main main).2⟩
  | rearrange | collect | test c | record c | returned c =>
    exact absurd ((inv.at_main main).1.quiet w) busy

omit [DecidableEq Worker] in
/-- Where the case is that a worker has in hand. -/
theorem Invariant.place_of_hand (inv : Invariant cases s)
    (has : (s.worker w).hand w = some (c, p)) : s.place c = p := by
  have busy : s.worker w ≠ .done := by
    intro done
    rw [done] at has
    cases has
  obtain ⟨_, _, joining, _⟩ := inv.joining busy
  exact joining.hands.hand w c p has

omit [DecidableEq Case] [Fintype Case] in
/-- A worker that has not posted moves on to a place where it has not either. -/
theorem Joining.tokens_goto (joining : Joining i s) (before : (s.worker w).finished = false)
    (after : here.finished = false) :
    s.semlock + i = headcount Pc.finished (Function.update s.worker w here) :=
  joining.tokens.trans (headcount_update_same (after.trans before.symm)).symm

omit [DecidableEq Case] [Fintype Case] in
theorem Joining.past_goto (joining : Joining i s)
    (sure : here.past = true → s.ptestCase = none) (v : Worker)
    (past : (Function.update s.worker w here v).past = true) : s.ptestCase = none := by
  by_cases mine : v = w
  · subst mine
    rw [Function.update_self] at past
    exact sure past
  · rw [Function.update_of_ne mine] at past
    exact joining.past v past

/-- A worker that only moves on. -/
theorem Invariant.goto (inv : Invariant cases s) (main : s.main = .join i) (joining : Joining i s)
    (hand : here.hand w = (s.worker w).hand w) (before : (s.worker w).finished = false)
    (after : here.finished = false) (sure : here.past = true → s.ptestCase = none) :
    Invariant cases (s.goto w here) :=
  .of_main main (inv.common.congr rfl rfl rfl rfl rfl) (inv.at_main main).2
    ⟨joining.queue, joining.left, joining.fail, joining.hands.keep hand,
      joining.tokens_goto before after, joining.past_goto sure⟩

private theorem fetchSome_invariant (inv : Invariant cases s) (at_ : s.worker w = .fetch)
    (first : s.ptestCase = some c) :
    Invariant cases
      (({ s with ptestCase := s.next c }.put c (.held w)).goto w (.fetched (some c))) := by
  obtain ⟨i, main, joining, allowed⟩ := inv.joining (w := w) (by simp [at_])
  have queue := joining.queue
  rw [first] at queue
  obtain ⟨queued, rest⟩ := queue.popped (q := .held w) nofun
  have fine := inv.common.fine c
  rw [queued] at fine
  have common := inv.common.put (p := .held w) (by simp [queued]) nofun fine
  refine .of_main main (common.congr rfl rfl rfl rfl rfl)
    (allows_update allowed rfl) ⟨rest, ?_, ?_, ?_, ?_, ?_⟩
  · exact joining.left.moved (by simp [queued]) nofun
  · exact joining.fail.moved (by simp [queued]) nofun
  · apply joining.hands.move
    · intro v _
      simp [queued]
    · intro d p has
      simp [at_, Pc.hand] at has
    · intro d p has
      simp [Pc.hand] at has
      exact ⟨has.1.symm, has.2.symm⟩
    · intro v has
      simp at has
      exact ⟨has.symm, rfl⟩
  · exact joining.tokens_goto (by rw [at_]; rfl) rfl
  · intro v past
    have empty : s.ptestCase = none := by
      apply joining.past_goto ?_ v past
      exact nofun
    cases first.symm.trans empty

private theorem pushLeft_invariant (inv : Invariant cases s) (at_ : s.worker w = .pushLeft c) :
    Invariant cases (s.pushLeft w c) := by
  obtain ⟨i, main, joining, allowed⟩ := inv.joining (w := w) (by simp [at_])
  have held : s.place c = .held w := inv.place_of_hand (by rw [at_]; rfl)
  have fine := inv.common.fine c
  rw [held] at fine
  have common := inv.common.put (p := .left) (by simp [held]) nofun fine
  refine .of_main main (common.congr rfl rfl rfl rfl rfl)
    (allows_update allowed rfl) ⟨?_, ?_, ?_, ?_, ?_, ?_⟩
  · exact joining.queue.written (by simp [held]) nofun
  · exact joining.left.pushed (by simp [held])
  · exact joining.fail.written (by simp [held]) nofun
  · apply joining.hands.move
    · exact fun v other => mine_of_has other (.inl held)
    · intro d p has
      simp [at_, Pc.hand] at has
      exact has.1.symm
    · intro d p has
      cases has
    · rintro v (has | has) <;> cases has
  · exact joining.tokens_goto (by rw [at_]; rfl) rfl
  · exact joining.past_goto nofun

private theorem testFunc_invariant (inv : Invariant cases s) (at_ : s.worker w = .testFunc c) :
    Invariant cases (((s.testFunc (some w) c o).put c (.tested w)).goto w (.record c)) := by
  obtain ⟨i, main, joining, allowed⟩ := inv.joining (w := w) (by simp [at_])
  have held : s.place c = .held w := inv.place_of_hand (by rw [at_]; rfl)
  have fine := inv.common.fine c
  rw [held] at fine
  obtain ⟨uncalled, clear⟩ := fine
  have common : Common cases ((s.testFunc (some w) c o).put c (.tested w)) :=
    inv.common.testFunc (by simp [held]) nofun fun r n same =>
      ⟨by rw [uncalled], same.trans clear⟩
  refine .of_main main (common.congr rfl rfl rfl rfl rfl)
    (allows_update allowed rfl) ⟨?_, ?_, ?_, ?_, ?_, ?_⟩
  · exact joining.queue.moved (by simp [held]) nofun
  · exact joining.left.moved (by simp [held]) nofun
  · exact joining.fail.moved (by simp [held]) nofun
  · apply joining.hands.move
    · exact fun v other => mine_of_has other (.inl held)
    · intro d p has
      simp [at_, Pc.hand] at has
      exact has.1.symm
    · intro d p has
      simp [Pc.hand] at has
      exact ⟨has.1.symm, has.2.symm⟩
    · intro v has
      simp at has
      exact ⟨has.symm, rfl⟩
  · exact joining.tokens_goto (by rw [at_]; rfl) rfl
  · exact joining.past_goto nofun

private theorem record_invariant (inv : Invariant cases s) (at_ : s.worker w = .record c) :
    Invariant cases (s.record w c) := by
  obtain ⟨i, main, joining, allowed⟩ := inv.joining (w := w) (by simp [at_])
  have tested : s.place c = .tested w := inv.place_of_hand (by rw [at_]; rfl)
  have fine := inv.common.fine c
  rw [tested] at fine
  obtain ⟨called, clear⟩ := fine
  have hands {q : Place Worker} (gone : ∀ v, q ≠ .held v ∧ q ≠ .tested v) :
      Hands (Function.update s.place c q) (Function.update s.worker w .fetch) := by
    apply joining.hands.move
    · exact fun v other => mine_of_has other (.inr tested)
    · intro d p has
      simp [at_, Pc.hand] at has
      exact has.1.symm
    · intro d p has
      cases has
    · rintro v (has | has)
      · exact absurd has (gone v).1
      · exact absurd has (gone v).2
  unfold State.record
  cases fails : s.fails c with
  | true =>
    have common := inv.common.count (p := .failed) (by simp [tested]) nofun clear
      fun r flag failing => ⟨⟨w, called⟩, flag.trans fails, failing.trans fails⟩
    refine .of_main main (common.congr rfl rfl rfl rfl rfl)
      (allows_update allowed rfl) ⟨?_, ?_, ?_, hands (by simp), ?_, ?_⟩
    · exact joining.queue.written (by simp [tested]) nofun
    · exact joining.left.written (by simp [tested]) nofun
    · exact joining.fail.pushed (by simp [tested])
    · exact joining.tokens_goto (by rw [at_]; rfl) rfl
    · exact joining.past_goto nofun
  | false =>
    have common := inv.common.count (p := .passed) (by simp [tested]) nofun clear
      fun r flag failing => ⟨⟨w, called⟩, flag.trans fails, failing.trans fails⟩
    refine .of_main main (common.congr rfl rfl rfl rfl rfl)
      (allows_update allowed rfl) ⟨?_, ?_, ?_, hands (by simp), ?_, ?_⟩
    · exact joining.queue.moved (by simp [tested]) nofun
    · exact joining.left.moved (by simp [tested]) nofun
    · exact joining.fail.moved (by simp [tested]) nofun
    · exact joining.tokens_goto (by rw [at_]; rfl) rfl
    · exact joining.past_goto nofun

private theorem post_invariant (inv : Invariant cases s) (at_ : s.worker w = .post) :
    Invariant cases { s.goto w .done with semlock := s.semlock + 1 } := by
  obtain ⟨i, main, joining, allowed⟩ := inv.joining (w := w) (by simp [at_])
  have empty := joining.past w (by rw [at_]; rfl)
  refine .of_main main (inv.common.congr rfl rfl rfl rfl rfl) allowed
    ⟨joining.queue, joining.left, joining.fail, joining.hands.keep (by rw [at_]; rfl), ?_,
      joining.past_goto fun _ => empty⟩
  have moved := headcount_update Pc.finished s.worker w .done
  have tokens := joining.tokens
  rw [at_] at moved
  simp [Pc.finished] at moved
  change s.semlock + 1 + i = headcount Pc.finished (Function.update s.worker w .done)
  omega

omit [DecidableEq Worker] [DecidableEq Case] [Fintype Worker] [Fintype Case] in
private theorem allows_join (j : ℕ) :
    (Main.join i : Main Case).allows p = (Main.join j : Main Case).allows p := by
  cases p <;> rfl

omit [DecidableEq Worker] in
private theorem wait_invariant (inv : Invariant cases s) (main : s.main = .join i)
    (token : 0 < s.semlock) :
    Invariant cases { s with semlock := s.semlock - 1, main := .join (i + 1) } := by
  obtain ⟨⟨queue, left, fail, hands, tokens, past⟩, allowed⟩ := inv.at_main main
  refine ⟨inv.common.congr rfl rfl rfl rfl rfl, fun c => (allows_join i).trans (allowed c), queue,
    left, fail, hands, ?_, past⟩
  change s.semlock - 1 + (i + 1) = headcount Pc.finished s.worker
  omega

omit [DecidableEq Case] [Fintype Case] in
theorem Pc.eq_done (finished : here.finished = true) : here = .done := by
  cases here <;> first | rfl | cases finished

omit [DecidableEq Worker] in
private theorem joined_invariant [Nonempty Worker] (inv : Invariant cases s)
    (main : s.main = .join i)
    (all : Fintype.card Worker ≤ i) :
    Invariant cases { s with ptestCase := none, main := .rearrange } := by
  obtain ⟨⟨queue, left, fail, hands, tokens, past⟩, allowed⟩ := inv.at_main main
  have quiet : ∀ w, s.worker w = .done := fun w =>
    Pc.eq_done (all_of_card_le_headcount (by omega) w)
  have empty : s.ptestCase = none := by
    obtain ⟨w⟩ := ‹Nonempty Worker›
    exact past w (by rw [quiet w]; rfl)
  rw [empty] at queue
  have unheld : ∀ w c, s.place c ≠ .held w := by
    intro w c at_
    have has := hands.held w c at_
    rw [quiet w] at has
    cases has
  have untested : ∀ w c, s.place c ≠ .tested w := by
    intro w c at_
    have has := hands.tested w c at_
    rw [quiet w] at has
    cases has
  refine ⟨inv.common.congr rfl rfl rfl rfl rfl, fun c => ?_, quiet, .empty fun c at_ => ?_, left,
    fail⟩
  · have allowed := allowed c
    change Main.rearrange.allows (s.place c) = true
    cases at_ : s.place c with
    | queued => exact absurd at_ (queue.none_iff c)
    | held w => exact absurd at_ (unheld w c)
    | tested w => exact absurd at_ (untested w c)
    | absent | passed | left | failed => rfl
    | ready | testing | single | collected =>
      rw [at_] at allowed
      cases allowed
  · have allowed := allowed c
    rw [show s.place c = .ready from at_] at allowed
    cases allowed

omit [DecidableEq Worker] in
private theorem rearrange_invariant (inv : Invariant cases s) (main : s.main = .rearrange)
    (first : s.ptestLeft = some c) :
    Invariant cases ({ s with
      ptestLeft := s.next c
      next := Function.update s.next c s.ptestCase
      ptestCase := some c }.put c .ready) := by
  obtain ⟨⟨quiet, ready, left, fail⟩, allowed⟩ := inv.at_main main
  rw [first] at left
  obtain ⟨at_, rest⟩ := left.popped (q := .ready) nofun
  have fine := inv.common.fine c
  rw [at_] at fine
  have common := inv.common.put (p := .ready) (by simp [at_]) nofun fine
  exact .of_main main (common.congr rfl rfl rfl rfl rfl) (allows_update allowed rfl)
    ⟨quiet, ready.pushed (by simp [at_]), rest.frame (by simp), fail.written (by simp [at_]) nofun⟩

omit [DecidableEq Worker] in
private theorem rearranged_invariant (inv : Invariant cases s) (main : s.main = .rearrange)
    (empty : s.ptestLeft = none) : Invariant cases { s with main := .test s.ptestCase } := by
  obtain ⟨⟨quiet, ready, left, fail⟩, allowed⟩ := inv.at_main main
  rw [empty] at left
  refine ⟨inv.common.congr rfl rfl rfl rfl rfl, fun c => ?_, quiet, ?_, ready, fail⟩
  · have allowed := allowed c
    change (Main.test s.ptestCase).allows (s.place c) = true
    cases at_ : s.place c with
    | left => exact absurd at_ (left.none_iff c)
    | absent | passed | ready | failed => rfl
    | queued | held w | tested w | testing | single | collected =>
      rw [at_] at allowed
      cases allowed
  · refine ready.congr fun c => ⟨.inl, ?_⟩
    rintro (at_ | at_)
    · exact at_
    · have allowed := allowed c
      rw [at_] at allowed
      cases allowed

omit [DecidableEq Worker] in
/-- `SingleThreadTest` is at the end of its list. -/
theorem testEnd_invariant (inv : Invariant cases s) (main : s.main = .test none) :
    Invariant cases { s with main := .collect } := by
  obtain ⟨⟨quiet, tested, rest, fail⟩, allowed⟩ := inv.at_main main
  refine ⟨inv.common.congr rfl rfl rfl rfl rfl, fun c => ?_, quiet, ?_, fail⟩
  · have allowed := allowed c
    change Main.collect.allows (s.place c) = true
    cases at_ : s.place c with
    | ready => exact absurd at_ (rest.none_iff c)
    | absent | passed | single | failed => rfl
    | queued | held w | tested w | left | testing | collected =>
      rw [at_] at allowed
      cases allowed
  · refine tested.congr fun c => ⟨?_, ?_⟩
    · rintro (at_ | at_)
      · exact absurd at_ (rest.none_iff c)
      · exact .inl at_
    · rintro (at_ | at_)
      · exact .inr at_
      · have allowed := allowed c
        rw [at_] at allowed
        cases allowed

omit [DecidableEq Worker] in
private theorem singleTest_invariant (inv : Invariant cases s) (main : s.main = .test (some c)) :
    Invariant cases { (s.testFunc none c o).put c .testing with main := .record c } := by
  obtain ⟨⟨quiet, tested, rest, fail⟩, allowed⟩ := inv.at_main main
  obtain ⟨at_, later⟩ := rest.popped (q := .testing) nofun
  have fine := inv.common.fine c
  rw [at_] at fine
  obtain ⟨uncalled, clear⟩ := fine
  have common : Common cases ((s.testFunc none c o).put c .testing) :=
    inv.common.testFunc (by simp [at_]) nofun fun r n same =>
      ⟨by rw [uncalled], same.trans clear⟩
  have untesting : ∀ d, s.place d ≠ .testing := by
    intro d at_
    have allowed := allowed d
    rw [at_] at allowed
    cases allowed
  have entered : ∀ d, (Main.record c : Main Case).allows (s.place d) = true := by
    intro d
    have allowed := allowed d
    cases at_ : s.place d <;> rw [at_] at allowed <;> first | rfl | cases allowed
  refine ⟨common.congr rfl rfl rfl rfl rfl, allows_update entered rfl, quiet, fun d => ?_, ?_,
    later, fail.moved (by simp [at_]) nofun⟩
  · change Function.update s.place c .testing d = .testing ↔ d = c
    by_cases same : d = c
    · simp [same]
    · rw [Function.update_of_ne same]
      simp [same, untesting d]
  · refine tested.congr fun d => ?_
    change s.place d = .ready ∨ s.place d = .single ↔ Function.update s.place c .testing d = .ready ∨
      Function.update s.place c .testing d = .single ∨ Function.update s.place c .testing d = .testing
    by_cases same : d = c
    · subst same
      simp [at_]
    · rw [Function.update_of_ne same]
      simp [untesting d]

omit [DecidableEq Worker] in
private theorem singleRecord_invariant (inv : Invariant cases s) (main : s.main = .record c) :
    Invariant cases { (s.count c).put c .single with main := .test (s.next c) } := by
  obtain ⟨⟨quiet, this, tested, rest, fail⟩, allowed⟩ := inv.at_main main
  have at_ : s.place c = .testing := (this c).mpr rfl
  have fine := inv.common.fine c
  rw [at_] at fine
  obtain ⟨called, clear⟩ := fine
  have common := inv.common.count (p := .single) (by simp [at_]) nofun clear
    fun r flag failing => ⟨called, flag.trans failing.symm⟩
  refine ⟨common.congr rfl rfl rfl rfl rfl, fun d => ?_, quiet, ?_,
    rest.moved (by simp [at_]) nofun, fail.moved (by simp [at_]) nofun⟩
  · have allowed := allowed d
    change (Main.test (s.next c)).allows (Function.update s.place c .single d) = true
    by_cases same : d = c
    · subst same
      rw [Function.update_self]
      rfl
    · rw [Function.update_of_ne same]
      have other : s.place d ≠ .testing := fun at_ => same ((this d).mp at_)
      cases at_ : s.place d <;> rw [at_] at allowed other <;>
        first | exact absurd rfl other | rfl | cases allowed
  · refine tested.congr fun d => ?_
    change s.place d = .ready ∨ s.place d = .single ∨ s.place d = .testing ↔
      Function.update s.place c .single d = .ready ∨ Function.update s.place c .single d = .single
    by_cases same : d = c
    · subst same
      simp [at_]
    · rw [Function.update_of_ne same]
      have other : s.place d ≠ .testing := fun at_ => same ((this d).mp at_)
      simp [other]

omit [DecidableEq Worker] in
private theorem collect_invariant (inv : Invariant cases s) (main : s.main = .collect)
    (first : s.ptestFail = some c) :
    Invariant cases ({ s with
      ptestFail := s.next c
      next := Function.update s.next c s.ptestCase
      ptestCase := some c }.put c .collected) := by
  obtain ⟨⟨quiet, tested, fail⟩, allowed⟩ := inv.at_main main
  rw [first] at fail
  obtain ⟨at_, rest⟩ := fail.popped (q := .collected) nofun
  have fine := inv.common.fine c
  rw [at_] at fine
  have common := inv.common.put (p := .collected) (by simp [at_]) nofun fine
  refine .of_main main (common.congr rfl rfl rfl rfl rfl) (allows_update allowed rfl)
    ⟨quiet, ?_, rest.frame (by simp)⟩
  refine (tested.push (by simp [at_])).congr fun d => ?_
  change (s.place d = .single ∨ s.place d = .collected) ∨ d = c ↔
    Function.update s.place c .collected d = .single ∨
      Function.update s.place c .collected d = .collected
  by_cases same : d = c
  · subst same
    simp
  · rw [Function.update_of_ne same]
    simp [same]

omit [DecidableEq Worker] in
private theorem collected_invariant (inv : Invariant cases s) (main : s.main = .collect)
    (empty : s.ptestFail = none) : Invariant cases { s with main := .returned s.ptestCase } := by
  obtain ⟨⟨quiet, tested, fail⟩, allowed⟩ := inv.at_main main
  rw [empty] at fail
  refine ⟨inv.common.congr rfl rfl rfl rfl rfl, fun c => ?_, quiet, tested⟩
  have allowed := allowed c
  change (Main.returned s.ptestCase).allows (s.place c) = true
  cases at_ : s.place c with
  | failed => exact absurd at_ (fail.none_iff c)
  | absent | passed | single | collected => rfl
  | queued | held w | tested w | left | testing | ready =>
    rw [at_] at allowed
    cases allowed

omit [DecidableEq Worker] [Fintype Worker] [Fintype Case] in
/-- An iteration of `SingleThreadTest` ends the loop or goes on. -/
theorem State.singleRecord_eq (s : State Worker Case) (c : Case) :
    (((s.count c).put c .single).stops c = true ∧ s.singleRecord c =
      { (s.count c).put c .single with main := .collect, cut := s.cut || (s.next c).isSome }) ∨
    s.singleRecord c = { (s.count c).put c .single with main := .test (s.next c) } := by
  unfold State.singleRecord
  cases stops : ((s.count c).put c .single).stops c with
  | true => exact .inl ⟨rfl, if_pos stops⟩
  | false => exact .inr (if_neg (by simp [stops]))

/-- Nobody has broken off the run. -/
def State.Whole (s : State Worker Case) : Prop := s.breakout = false ∧ s.cut = false

omit [Fintype Worker] [Fintype Case] in
theorem Effect.whole (effect : Effect lines s action s') (whole : s'.Whole) : s.Whole := by
  obtain ⟨calm, uncut⟩ := whole
  cases effect with
  | record w c here =>
    refine ⟨?_, ?_⟩
    · unfold State.record at calm
      exact (Bool.or_eq_false_iff.mp calm).1
    · unfold State.record at uncut
      cases fails : s.fails c <;> rw [fails] at uncut <;> exact uncut
  | singleRecord c here =>
    rcases s.singleRecord_eq c with ⟨_, same⟩ | same <;> rw [same] at calm uncut
    · exact ⟨calm, (Bool.or_eq_false_iff.mp uncut).1⟩
    · exact ⟨calm, uncut⟩
  | _ => exact ⟨calm, uncut⟩

/-- One step, in a run that nobody breaks off. -/
theorem Effect.invariant [Nonempty Worker] (effect : Effect (Fintype.card Worker) s action s')
    (inv : Invariant cases s) (whole : s'.Whole) : Invariant cases s' := by
  have before := effect.whole whole
  cases effect with
  | fetchNone w here empty =>
    obtain ⟨i, main, joining, _⟩ := inv.joining (w := w) (by simp [here])
    exact inv.goto main joining (by rw [here]; rfl) (by rw [here]; rfl) rfl fun _ => empty
  | fetchSome w c here first => exact fetchSome_invariant inv here first
  | leave w c here last =>
    obtain ⟨i, main, joining, _⟩ := inv.joining (w := w) (by simp [here])
    rcases last with rfl | off
    · have empty := joining.past w (by rw [here]; rfl)
      exact inv.goto main joining (by rw [here]; rfl) (by rw [here]; rfl) rfl fun _ => empty
    · cases before.1.symm.trans off
  | sort w c here on =>
    obtain ⟨i, main, joining, _⟩ := inv.joining (w := w) (by simp [here])
    cases (s.result c).standalone <;>
      exact inv.goto main joining (by rw [here]; rfl) (by rw [here]; rfl) rfl nofun
  | pushLeft w c here => exact pushLeft_invariant inv here
  | testFunc w c o here => exact testFunc_invariant inv here
  | record w c here => exact record_invariant inv here
  | post w here => exact post_invariant inv here
  | wait i here more token => exact wait_invariant inv here token
  | joined i here all =>
    have onwards : (if s.breakout then Main.collect else Main.rearrange) = (.rearrange : Main Case) := by
      rw [before.1]
      rfl
    rw [onwards]
    exact joined_invariant inv here all
  | rearrange c here first => exact rearrange_invariant inv here first
  | rearranged here empty => exact rearranged_invariant inv here empty
  | testEnd here => exact testEnd_invariant inv here
  | singleTest c o here => exact singleTest_invariant inv here
  | singleRecord c here =>
    have recorded := singleRecord_invariant inv here
    rcases s.singleRecord_eq c with ⟨_, same⟩ | same <;> rw [same] at whole ⊢
    · have last : s.next c = none := by
        have uncut := (Bool.or_eq_false_iff.mp whole.2).2
        simpa using uncut
      have ended := testEnd_invariant recorded (by rw [last])
      rw [last, Option.isSome_none, Bool.or_false]
      exact ended
    · exact recorded
  | collect c here first => exact collect_invariant inv here first
  | collected here empty => exact collected_invariant inv here empty

end Prot.Test.Runner
