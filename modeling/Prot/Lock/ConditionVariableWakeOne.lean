import Prot.Lock.ConditionVariableWakeAll

/-! The token of a `WakeOne` is anonymous: a later waiter may take it, but only
in place of an earlier one that goes on waiting. -/

namespace Prot.Lock.ConditionVariable

open Concurrency Time

variable {Thread : Type} [DecidableEq Thread] [Fintype Thread]

/-- `WakeOne` is called only while there are fewer tokens than waiting threads. -/
def CalledForWaiter (s : State Thread) (action : Action Thread) : Prop :=
  match action with
  | .call _ .wakeOne => s.semap < headcount Pc.waiting s.pc
  | _ => True

instance (s : State Thread) (action : Action Thread) : Decidable (CalledForWaiter s action) := by
  unfold CalledForWaiter
  split <;> infer_instance

/-- A thread that registers after a `WakeOne` has returned 1 leaves `semap.Wait`
only after a further post, as long as a thread registered before that
`WakeOne` has not left it. -/
def NeverStolen (start : State Thread) (actions : List (Action Thread)) : Prop :=
  ∀ before during after w s₀ s₁ s₂ s₃ old newcomer,
    actions = before ++ .call w .wakeOne :: (during ++ .run w :: after) →
    (∀ call, .call w call ∉ during) →
    exec step start before = some s₀ → (s₀.pc old).registered = true →
    exec step s₀ (.call w .wakeOne :: during) = some s₁ → s₁.pc w = .oneFreeMtxi 1 →
    step s₁ (.run w) = some s₂ → exec step s₂ after = some s₃ → Meets step NoPost s₂ after →
    old ∉ trace step leaves s₀ (.call w .wakeOne :: (during ++ .run w :: after)) →
    (s₂.pc newcomer).registered = false → newcomer ∉ trace step leaves s₂ after

/-- The threads between `wait_count++` and the return of `semap.Wait`. -/
def waiters (s : State Thread) : Finset Thread :=
  Finset.univ.filter fun t => (s.pc t).waiting = true

/-- How many of the threads that waited in a state have not left since. -/
def stillWaiting (s : State Thread) (left : List Thread) : ℕ :=
  ((waiters s).filter fun t => t ∉ left).card

/-- How many returns from `semap.Wait` were not the first one of a thread that
waited in a state. -/
def newcomers (s : State Thread) (left : List Thread) : ℕ :=
  left.length - ((waiters s).filter fun t => t ∈ left).card

variable {s s' s₀ s₁ s₂ : State Thread} {action : Action Thread} {actions : List (Action Thread)}

omit [DecidableEq Thread] in
private theorem card_waiters (s : State Thread) : (waiters s).card = headcount Pc.waiting s.pc := by
  rw [waiters, Finset.card_filter, headcount]
  refine Finset.sum_congr rfl fun t _ => ?_
  cases (s.pc t).waiting <;> rfl

private theorem newcomers_add (s : State Thread) (left : List Thread) :
    newcomers s left + headcount Pc.waiting s.pc = left.length + stillWaiting s left := by
  have parts := Finset.card_filter_add_card_filter_not (s := waiters s) (fun t => t ∈ left)
  have some : ((waiters s).filter fun t => t ∈ left).card ≤ left.length := by
    refine le_trans (Finset.card_le_card ?_) (List.toFinset_card_le left)
    intro t member
    exact List.mem_toFinset.mpr (Finset.mem_filter.mp member).2
  rw [card_waiters] at parts
  unfold newcomers stillWaiting
  omega

omit [Fintype Thread] in
private theorem waiting_step {t : Thread} (waits : (s.pc t).waiting = true)
    (stays : leaves s action ≠ some t) (taken : step s action = some s') :
    (s'.pc t).waiting = true := by
  obtain ⟨p, moved, effect⟩ := step_effect taken
  rw [moved]
  by_cases same : t = action.thread
  · subst same
    rw [Function.update_self]
    have incr (u : TimeUnit) : s.pc action.thread ≠ .waitIncr u := by
      intro here
      rw [here] at waits
      cases waits
    have semap (u : TimeUnit) : s.pc action.thread ≠ .waitSemap u := by
      intro here
      simp [leaves, here] at stays
    rw [effect.waiting_eq incr semap]
    exact waits
  · rwa [Function.update_of_ne same]

omit [Fintype Thread] in
private theorem waiting_of_not_left {t : Thread} (waits : (s.pc t).waiting = true)
    (ran : exec step s actions = some s') (stays : t ∉ trace step leaves s actions) :
    (s'.pc t).waiting = true := by
  induction actions generalizing s with
  | nil =>
    cases ran
    exact waits
  | cons action rest ih =>
    obtain ⟨next, taken, continued⟩ := exec_cons_eq_some ran
    rw [trace_cons_some taken, List.mem_append, not_or] at stays
    refine ih (waiting_step waits (fun shown => ?_) taken) continued stays.2
    exact stays.1 (by simp [shown])

omit [Fintype Thread] in
private theorem registers_step {t : Thread} (outside : (s.pc t).waiting = false)
    (silent : registers s action ≠ some t) (taken : step s action = some s') :
    (s'.pc t).waiting = false := by
  obtain ⟨p, moved, effect⟩ := step_effect taken
  rw [moved]
  by_cases same : t = action.thread
  · subst same
    rw [Function.update_self]
    have incr (u : TimeUnit) : s.pc action.thread ≠ .waitIncr u := by
      intro here
      simp [registers, here] at silent
    have semap (u : TimeUnit) : s.pc action.thread ≠ .waitSemap u := by
      intro here
      rw [here] at outside
      cases outside
    rw [effect.waiting_eq incr semap]
    exact outside
  · rwa [Function.update_of_ne same]

omit [DecidableEq Thread] [Fintype Thread] in
private theorem leaves_waiting {t : Thread} (shown : leaves s action = some t) :
    (s.pc t).waiting = true := by
  unfold leaves at shown
  split at shown
  · rename_i here
    cases shown
    rw [here]
    rfl
  · cases shown

omit [Fintype Thread] in
private theorem registered_of_left {t : Thread} (outside : (s.pc t).waiting = false)
    (ran : exec step s actions = some s') (left : t ∈ trace step leaves s actions) :
    t ∈ trace step registers s actions := by
  induction actions generalizing s with
  | nil => cases left
  | cons action rest ih =>
    obtain ⟨next, taken, continued⟩ := exec_cons_eq_some ran
    rw [trace_cons_some taken, List.mem_append] at left ⊢
    by_cases shown : registers s action = some t
    · exact .inl (by simp [shown])
    · rcases left with now | later
      · have event : leaves s action = some t := by simpa using now
        cases outside.symm.trans (leaves_waiting event)
      · exact .inr (ih (registers_step outside shown taken) continued later)

private theorem noStaleToken_of_onePost {w : Thread} (posts : s.pc w = .onePost)
    (room : s.semap < headcount Pc.waiting s.pc) (posted : step s (.run w) = some s') :
    NoStaleToken s' := by
  simp only [step, State.next, posts, Option.some.injEq] at posted
  subst posted
  have same : headcount Pc.waiting (Function.update s.pc w (.oneFreeMtxi 1)) =
      headcount Pc.waiting s.pc := headcount_update_same (by rw [posts]; rfl)
  simp only [NoStaleToken, State.goto, same, post]
  split <;> omega

omit [Fintype Thread] in
theorem exec_timeout {lock : Bool} (untimed : ∀ action ∈ actions, action.untimed = true)
    (ran : exec step (init lock) actions = some s) :
    ∀ t u, (s.pc t).timeout = some u → u.infinitely = true := by
  have quiet : Meets step (fun _ (action : Action Thread) => action.untimed = true)
      (init lock) actions := .of_forall untimed
  exact exec_invariant_of_meets
    (fun s => ∀ t u, (s.pc t).timeout = some u → u.infinitely = true)
    (fun _ _ _ before untimed taken => step_timeout before untimed taken) nofun quiet ran

/-- From the post of a `WakeOne` until some further post, the returns of newcomers
from `semap.Wait` and the tokens left are those of the threads that waited before
and go on waiting, up to the tokens that were in excess. A post for a thread
without a token leaves no excess, so newcomers leave only in place of those. -/
theorem newcomers_le {lock : Bool} {before after : List (Action Thread)} {w : Thread}
    (untimed : ∀ action ∈ before ++ .run w :: after, action.untimed = true)
    (reached : exec step (init lock) before = some s₀) (posts : s₀.pc w = .onePost)
    (posted : step s₀ (.run w) = some s₁) (quiet : Meets step NoPost s₁ after)
    (ran : exec step s₁ after = some s₂) :
    newcomers s₁ (trace step leaves s₁ after) + s₂.semap =
        stillWaiting s₁ (trace step leaves s₁ after) + (s₁.semap - headcount Pc.waiting s₁.pc) ∧
      (s₀.semap < headcount Pc.waiting s₀.pc →
        newcomers s₁ (trace step leaves s₁ after) + s₂.semap ≤
          stillWaiting s₁ (trace step leaves s₁ after)) ∧
      (∀ t, (s₁.pc t).waiting = true → t ∉ trace step leaves s₁ after →
        (s₂.pc t).waiting = true) ∧
      ∀ t ∈ trace step leaves s₁ after, (s₁.pc t).waiting = false →
        t ∈ trace step registers s₁ after := by
  have patient : ∀ t u, (s₁.pc t).timeout = some u → u.infinitely = true := by
    have here : exec step (init lock) (before ++ [.run w]) = some s₁ :=
      exec_trans reached (by rw [exec_cons_some posted]; rfl)
    refine exec_timeout (fun action member => untimed action ?_) here
    rcases List.mem_append.mp member with early | now
    · exact List.mem_append_left _ early
    · exact List.mem_append_right _ (List.mem_singleton.mp now ▸ .head _)
  have silent : Meets step (fun _ (action : Action Thread) => action.untimed = true) s₁ after :=
    .of_forall fun action member => untimed action (List.mem_append_right _ (.tail _ member))
  have paid : s₂.semap + (trace step leaves s₁ after).length = s₁.semap :=
    trace_length (fun s => ∀ t u, (s.pc t).timeout = some u → u.infinitely = true)
      (fun _ _ _ patient fine taken => step_timeout patient fine.1 taken)
      (fun _ _ _ patient fine taken => leaves_pays patient fine.2 taken) patient
      (silent.and quiet) ran
  have parts := newcomers_add s₁ (trace step leaves s₁ after)
  refine ⟨by omega, fun room => ?_, fun t waits stays => waiting_of_not_left waits ran stays,
    fun t left outside => registered_of_left outside ran left⟩
  have fresh := noStaleToken_of_onePost posts room posted
  unfold NoStaleToken at fresh
  omega

def wokenRun : List (Action (Fin 3)) :=
  .call 0 (.wait .infinite) :: List.replicate 5 (.run 0)

def postingRun : List (Action (Fin 3)) := List.replicate 3 (.run 1)

def newcomerRun : List (Action (Fin 3)) :=
  .call 2 (.wait .infinite) :: List.replicate 6 (.run 2)

def stolenRun : List (Action (Fin 3)) :=
  wokenRun ++ .call 1 .wakeOne :: (postingRun ++ .run 1 :: newcomerRun)

/-- Every post of this run is made for a waiting thread without a token, and
yet the newcomer leaves with it while thread 0 goes on waiting. -/
theorem stolenRun_stolen : (∀ action ∈ stolenRun, action.untimed = true) ∧
    Meets step CalledForWaiter (init false) stolenRun ∧
    Meets step (fun s action => s.pc action.thread = .onePost →
      s.semap < headcount Pc.waiting s.pc) (init false) stolenRun ∧
    ¬ NeverStolen (init false) stolenRun := by
  refine ⟨by decide, by decide, by decide, fun never => ?_⟩
  have first : (exec step (init false) wokenRun).map (fun s => ((s.pc 0).registered,
      trace step leaves s (.call 1 .wakeOne :: (postingRun ++ .run 1 :: newcomerRun)))) =
        some (true, [2]) := by decide
  obtain ⟨s₀, ran₀, facts₀⟩ := Option.map_eq_some_iff.mp first
  obtain ⟨registered, left⟩ := Prod.mk.inj facts₀
  have second : (exec step (init false) (wokenRun ++ .call 1 .wakeOne :: postingRun)).map
      (fun s => s.pc 1) = some (.oneFreeMtxi 1) := by decide
  obtain ⟨s₁, whole₁, returns⟩ := Option.map_eq_some_iff.mp second
  obtain ⟨same₀, here₀, ran₁⟩ := exec_append_eq_some whole₁
  cases ran₀.symm.trans here₀
  have third : (exec step (init false) ((wokenRun ++ .call 1 .wakeOne :: postingRun) ++
      [.run 1])).map (fun s => ((s.pc 2).registered, trace step leaves s newcomerRun,
        decide (Meets step NoPost s newcomerRun), (exec step s newcomerRun).isSome)) =
      some (false, [2], true, true) := by decide
  obtain ⟨s₂, whole₂, facts₂⟩ := Option.map_eq_some_iff.mp third
  obtain ⟨same₁, here₁, last⟩ := exec_append_eq_some whole₂
  cases whole₁.symm.trans here₁
  obtain ⟨s₂', taken, ended⟩ := exec_cons_eq_some last
  cases ended
  obtain ⟨outside, leaves₂, quiet, done⟩ : (s₂.pc 2).registered = false ∧
      trace step leaves s₂ newcomerRun = [2] ∧ Meets step NoPost s₂ newcomerRun ∧
      (exec step s₂ newcomerRun).isSome = true := by simpa using facts₂
  obtain ⟨s₃, ran₃⟩ := Option.isSome_iff_exists.mp done
  have taken_by := never wokenRun postingRun newcomerRun 1 s₀ s₁ s₂ s₃ 0 2 rfl (by simp [postingRun]) ran₀
    registered ran₁ returns taken ran₃ quiet (by rw [left]; decide) outside
  rw [leaves₂] at taken_by
  exact taken_by (.head _)

theorem newcomers_le_newcomerRun : ∃ s₁ s₂ : State (Fin 3),
    exec step s₁ (.run 1 :: newcomerRun) = some s₂ ∧
    newcomers s₁ (trace step leaves s₁ (.run 1 :: newcomerRun)) + s₂.semap ≤
      stillWaiting s₁ (trace step leaves s₁ (.run 1 :: newcomerRun)) := by
  have first : (exec step (init false) (wokenRun ++ .call 1 .wakeOne :: List.replicate 2 (.run 1))).map
      (fun s => (s.pc 1, s.semap, headcount Pc.waiting s.pc)) = some (.onePost, 0, 1) := by decide
  obtain ⟨s₀, reached, facts⟩ := Option.map_eq_some_iff.mp first
  obtain ⟨posts, none, one⟩ : s₀.pc 1 = .onePost ∧ s₀.semap = 0 ∧ headcount Pc.waiting s₀.pc = 1 := by
    simpa using facts
  have second : (exec step (init false) ((wokenRun ++ .call 1 .wakeOne :: List.replicate 2 (.run 1)) ++
      [.run 1])).map (fun s => (decide (Meets step NoPost s (.run 1 :: newcomerRun)),
        (exec step s (.run 1 :: newcomerRun)).isSome)) = some (true, true) := by decide
  obtain ⟨s₁, whole, facts₁⟩ := Option.map_eq_some_iff.mp second
  obtain ⟨_, here, last⟩ := exec_append_eq_some whole
  cases reached.symm.trans here
  obtain ⟨s₁', posted, ended⟩ := exec_cons_eq_some last
  cases ended
  obtain ⟨quiet, done⟩ : Meets step NoPost s₁ (.run 1 :: newcomerRun) ∧
      (exec step s₁ (.run 1 :: newcomerRun)).isSome = true := by simpa using facts₁
  obtain ⟨s₂, ran⟩ := Option.isSome_iff_exists.mp done
  exact ⟨s₁, s₂, ran,
    (newcomers_le (by decide) reached posts posted quiet ran).2.1 (by rw [none, one]; decide)⟩

end Prot.Lock.ConditionVariable
