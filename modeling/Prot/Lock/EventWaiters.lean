import Prot.Lock.EventInvariant

/-! A set event strands no waiter: a manual-reset event leaves nobody blocked,
and an auto-reset event has somebody on the way to take its state. -/

namespace Prot.Lock.Event

open Concurrency Time

/-- The thread is on its way to test `state`, or to notify a thread that will. -/
def Pc.rescues (asleep : Bool) : Pc → Bool
  | .waitBlocked _ => !asleep
  | .waitExpired | .waitTest _ | .waitRead | .waitTake true | .setNotify => true
  | _ => false

variable {Thread : Type} [DecidableEq Thread]

/-- A thread that has been unblocked returns from its wait without an error. -/
def Undisturbed (s : State Thread) : Action Thread → Prop
  | .fail thread => (s.pc thread).waits = true → thread ∈ s.cond
  | _ => True

instance (s : State Thread) (action : Action Thread) : Decidable (Undisturbed s action) := by
  unfold Undisturbed
  split <;> infer_instance

/-- While a set event has blocked threads, the broadcast is still to come, or
somebody is about to take the state. -/
structure Attended (s : State Thread) : Prop where
  all : AllWait Pc.waits s.cond s.pc
  manual : s.manual = true → s.state = true → s.cond ≠ [] → ∃ t, s.pc t = .setNotify
  auto : s.manual = false → s.state = true → s.cond ≠ [] →
    ∃ t, (s.pc t).rescues (decide (t ∈ s.cond)) = true

variable {s s' start : State Thread} {action : Action Thread} {thread : Thread}
variable {manual fails v v' : Bool} {blocked after : List Thread} {here next : Pc}

omit [DecidableEq Thread] in
theorem Silent.rescues (edge : Silent here next) (asleep awake : Bool)
    (before : here.rescues asleep = true) : next.rescues awake = true := by
  cases edge with
  | call call => cases before
  | branch => cases before
  | expired => rfl
  | _ => cases before

omit [DecidableEq Thread] in
private theorem Silent.ne_setNotify (edge : Silent here next) : here ≠ .setNotify := by
  rintro rfl
  cases edge

omit [DecidableEq Thread] in
private theorem ne_nil_of_filter {keep : Thread → Bool} (asleep : blocked.filter keep ≠ []) :
    blocked ≠ [] := by
  rintro rfl
  exact asleep rfl

/-- Where somebody is blocked on a set manual-reset event after a step, its
broadcast is still to come. -/
theorem Effect.broadcast (effect : Effect true thread fails v blocked here v' after next)
    (set : v' = true) (asleep : after ≠ []) :
    next = .setNotify ∨ v = true ∧ blocked ≠ [] ∧ here ≠ .setNotify := by
  cases effect with
  | silent edge => exact .inr ⟨set, asleep, edge.ne_setNotify⟩
  | set => exact .inl rfl
  | reset | block => cases set
  | notify woken fine =>
    rcases notifies_cases fine with nobody | ⟨signal, _⟩
    · exact absurd nobody asleep
    · cases signal
  | expire | wake | fail => exact .inr ⟨set, ne_nil_of_filter asleep, nofun⟩
  | @take v blocked ok =>
    have kept : v = true := by simpa using set
    exact .inr ⟨kept, asleep, nofun⟩
  | _ => exact .inr ⟨set, asleep, nofun⟩

private theorem Effect.rescue (effect : Effect false thread fails v blocked here v' after next)
    (fine : fails = true → here.waits = true → thread ∈ blocked)
    (set : v' = true) (asleep : after ≠ []) :
    next.rescues (decide (thread ∈ after)) = true ∨ (∃ t ∈ blocked, t ∉ after ∧ here = .setNotify) ∨
      v = true ∧ blocked ≠ [] ∧ here.rescues (decide (thread ∈ blocked)) = false := by
  cases effect with
  | silent edge =>
    cases before : here.rescues (decide (thread ∈ blocked)) with
    | false => exact .inr (.inr ⟨set, asleep, rfl⟩)
    | true => exact .inl (edge.rescues _ _ before)
  | set | retest | expire => exact .inl rfl
  | reset | block => cases set
  | notify woken reached =>
    rcases notifies_cases reached with nobody | ⟨_, t, member, chosen⟩
    · exact absurd nobody asleep
    · exact .inr (.inl ⟨t, member, by simp [chosen], rfl⟩)
  | unclocked => exact .inr (.inr ⟨set, asleep, rfl⟩)
  | pass =>
    left
    split <;> rfl
  | wake =>
    left
    rw [decide_eq_false notMem_leave]
    rfl
  | fail =>
    have member := fine rfl rfl
    exact .inr (.inr ⟨set, List.ne_nil_of_mem member, by rw [decide_eq_true member]; rfl⟩)
  | read =>
    subst set
    exact .inl rfl
  | @take v blocked ok =>
    cases ok with
    | true => cases set
    | false => exact .inr (.inr ⟨set, asleep, rfl⟩)

private theorem Effect.blocked_of_ne (effect : Effect manual thread fails v blocked here v' after next)
    {other : Thread} (away : other ≠ thread) (member : other ∈ after) : other ∈ blocked := by
  cases effect with
  | notify | expire | wake | fail => exact (List.mem_filter.mp member).1
  | block => exact (List.mem_cons.mp member).resolve_left away
  | _ => exact member

omit [DecidableEq Thread] in
private theorem Pc.rescues_mono {p : Pc} {asleep awake : Bool} (before : p.rescues asleep = true)
    (fewer : awake = true → asleep = true) : p.rescues awake = true := by
  cases p with
  | waitBlocked timed =>
    cases awake with
    | false => rfl
    | true =>
      rw [fewer rfl] at before
      exact before
  | waitTake ok =>
    cases ok with
    | false => cases before
    | true => rfl
  | _ => first | rfl | cases before

theorem attended_step (attended : Attended s) (fine : Undisturbed s action)
    (taken : step s action = some s') : Attended s' := by
  obtain ⟨kind, p, moved, effect⟩ := step_effect taken
  have others (t : Thread) (away : t ≠ action.thread) : s'.pc t = s.pc t := by
    rw [moved, Function.update_of_ne away]
  have mine : s'.pc action.thread = p := by rw [moved, Function.update_self]
  refine ⟨step_allWait attended.all taken, fun manual set asleep => ?_, fun auto set asleep => ?_⟩
  · rw [kind] at manual
    rw [manual] at effect
    rcases effect.broadcast set asleep with comes | ⟨was, slept, elsewhere⟩
    · exact ⟨action.thread, mine.trans comes⟩
    · obtain ⟨t, here⟩ := attended.manual manual was slept
      have away : t ≠ action.thread := fun same => elsewhere (same ▸ here)
      exact ⟨t, (others t away).trans here⟩
  · rw [kind] at auto
    rw [auto] at effect
    have allowed : action.fails = true → (s.pc action.thread).waits = true →
        action.thread ∈ s.cond := by
      cases action with
      | fail thread => exact fun _ => fine
      | _ => exact nofun
    rcases effect.rescue allowed set asleep with me | ⟨t, member, free, notifying⟩ |
      ⟨was, slept, elsewhere⟩
    · exact ⟨action.thread, by rw [mine]; exact me⟩
    · have waiting := attended.all t member
      have away : t ≠ action.thread := by
        rintro rfl
        rw [notifying] at waiting
        cases waiting
      refine ⟨t, ?_⟩
      rw [others t away, decide_eq_false free]
      cases here : s.pc t with
      | waitBlocked timed => rfl
      | _ => rw [here] at waiting; cases waiting
    · obtain ⟨t, saves⟩ := attended.auto auto was slept
      have away : t ≠ action.thread := by
        rintro rfl
        cases elsewhere.symm.trans saves
      refine ⟨t, ?_⟩
      rw [others t away]
      refine Pc.rescues_mono saves fun still => ?_
      exact decide_eq_true (effect.blocked_of_ne away (of_decide_eq_true still))

theorem fresh_attended (manual v : Bool) : Attended (fresh manual v : State Thread) :=
  ⟨nofun, fun _ _ asleep => absurd rfl asleep, fun _ _ asleep => absurd rfl asleep⟩

/-- While the mutex is free, a set manual-reset event has nobody blocked on it,
and with somebody blocked on a set auto-reset event another thread has been
unblocked or timed out and has not tested `state` again. -/
theorem rescued_of_set {actions : List (Action Thread)}
    (undisturbed : Meets step Undisturbed (fresh manual v) actions)
    (ran : exec step (fresh manual v) actions = some s) (free : s.mutex = none)
    (set : s.state = true) :
    (s.manual = true → s.cond = []) ∧ (s.manual = false → s.cond ≠ [] →
      ∃ t, t ∉ s.cond ∧ ((∃ timed, s.pc t = .waitBlocked timed) ∨ s.pc t = .waitExpired)) := by
  have reached : Excludes s.mutex Pc.holds s.pc ∧ Attended s := by
    have initially : Excludes (fresh manual v : State Thread).mutex Pc.holds (fresh manual v).pc ∧
        Attended (fresh manual v : State Thread) :=
      ⟨fun t => by simp [fresh, Pc.holds], fresh_attended manual v⟩
    refine exec_invariant_of_meets
      (fun s => Excludes s.mutex Pc.holds s.pc ∧ Attended s) ?_ initially undisturbed ran
    rintro s action s' ⟨locked, attended⟩ fine taken
    exact ⟨step_mutex locked taken, attended_step attended fine taken⟩
  obtain ⟨locked, attended⟩ := reached
  rw [free] at locked
  constructor
  · intro manual
    by_contra asleep
    obtain ⟨t, here⟩ := attended.manual manual set asleep
    have outside := locked.outside_of_free t
    rw [here] at outside
    cases outside
  · intro auto asleep
    obtain ⟨t, saves⟩ := attended.auto auto set asleep
    have outside := locked.outside_of_free t
    refine ⟨t, ?_⟩
    cases here : s.pc t with
    | waitBlocked timed =>
      rw [here] at saves
      exact ⟨by simpa [Pc.rescues] using saves, .inl ⟨timed, rfl⟩⟩
    | waitExpired =>
      have awake : t ∉ s.cond := attended.all.notMem (by rw [here]; rfl)
      exact ⟨awake, .inr rfl⟩
    | setNotify | waitTest _ | waitRead | waitTake _ =>
      rw [here] at outside
      cases outside
    | _ =>
      rw [here] at saves
      cases saves

/-- Two threads sleep when a third one sets the event; the signal reaches the
one whose deadline passes. -/
def lateRun : List (Action (Fin 3)) :=
  .call 0 (.wait .infinite) :: List.replicate 3 (.run 0) ++
    .call 1 (.wait ⟨20000000⟩) :: List.replicate 3 (.run 1) ++
    .call 2 .set :: [.run 2, .run 2, .notify 2 [1], .run 2, .expire 1]

theorem rescued_lateRun : ∃ s, exec step (fresh false false) lateRun = some s ∧ s.cond = [0] ∧
    ∃ t, t ∉ s.cond ∧ ((∃ timed, s.pc t = .waitBlocked timed) ∨ s.pc t = .waitExpired) := by
  have there : (exec step (fresh false false) lateRun).map
      (fun s => (s.manual, s.state, s.mutex, s.cond)) = some (false, true, none, [0]) := by decide
  obtain ⟨s, ran, ends⟩ := Option.map_eq_some_iff.mp there
  obtain ⟨auto, set, free, asleep⟩ : s.manual = false ∧ s.state = true ∧ s.mutex = none ∧
      s.cond = [0] := by simpa using ends
  exact ⟨s, ran, asleep,
    (rescued_of_set (by decide) ran free set).2 auto (by rw [asleep]; exact nofun)⟩

end Prot.Lock.Event
