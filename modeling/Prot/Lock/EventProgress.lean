import Prot.Concurrency.Settling
import Prot.Lock.EventWaiters

/-! The calls on an event come to an end: what begins either returns, or waits
without a limit for an event that is not set. -/

namespace Prot.Lock.Event

open Concurrency Time

/-- The most steps a thread can still make in its call, among `n` threads, when
nobody is unblocked. -/
def Pc.rank (n : ℕ) : Pc → ℕ
  | .idle => 0
  | .setLock => 2 * n + 5
  | .setWrite => 2 * n + 4
  | .setNotify => 2 * n + 3
  | .setUnlock => 2
  | .setReturn => 1
  | .resetLock => 4
  | .resetWrite => 3
  | .resetUnlock => 2
  | .resetReturn => 1
  | .waitLock _ => 9
  | .waitBranch _ => 8
  | .waitTest _ => 7
  | .waitBlocked _ => 6
  | .waitExpired => 5
  | .waitFailed => 3
  | .waitRead => 4
  | .waitTake _ => 3
  | .waitUnlock _ => 2
  | .waitReturn _ => 1

/-- Neither the beginning of a call nor a spurious wake-up. -/
def Action.ends {Thread : Type} : Action Thread → Bool
  | .call _ _ | .wake _ => false
  | .run _ | .notify _ _ | .fail _ | .expire _ => true

/-- What the threads and the clock do without a failure. -/
def Action.usual {Thread : Type} : Action Thread → Bool
  | .call _ _ | .wake _ | .fail _ => false
  | .run _ | .notify _ _ | .expire _ => true

theorem Pc.rank_le (n : ℕ) (p : Pc) : p.rank n ≤ 2 * n + 9 := by
  cases p <;> simp only [Pc.rank] <;> omega

variable {Thread : Type} [DecidableEq Thread] {s s' : State Thread} {action : Action Thread}
variable {thread : Thread} {manual fails v v' : Bool} {blocked after : List Thread} {here next : Pc}

theorem rank_waitPath (n : ℕ) (t : TimeUnit) : (waitPath t).rank n ≤ 7 := by
  rw [waitPath]
  split <;> simp [Pc.rank]

theorem busy_of_ends (ends : action.ends = true) (taken : step s action = some s') :
    s.pc action.thread ≠ .idle := by
  intro idle
  cases action with
  | call thread call => cases ends
  | run thread => simp [step, State.next, show s.pc thread = .idle from idle] at taken
  | notify thread woken | fail thread | expire thread | wake thread =>
    simp [step, show s.pc thread = .idle from idle] at taken

/-- A thread that waits leaves its wait when it moves. -/
theorem leaves_of_ends (ends : action.ends = true) (taken : step s action = some s')
    (waits : (s.pc action.thread).waits = true) : (s'.pc action.thread).waits = false := by
  cases here : s.pc action.thread <;> rw [here] at waits <;> try cases waits
  case waitBlocked timed =>
    cases action with
    | call thread call => cases ends
    | wake thread => cases ends
    | run thread =>
      simp only [step, State.next, show s.pc thread = .waitBlocked timed from here] at taken
      split at taken
      · cases taken
      · obtain ⟨_, rfl⟩ := lock_eq_some taken
        simp [State.goto, Action.thread, Pc.waits]
    | notify thread woken => simp [step, show s.pc thread = .waitBlocked timed from here] at taken
    | fail thread =>
      simp only [step, show s.pc thread = .waitBlocked timed from here] at taken
      cases taken
      simp [State.leave, State.goto, Action.thread, Pc.waits]
    | expire thread =>
      simp only [step, show s.pc thread = .waitBlocked timed from here] at taken
      cases timed <;> cases taken
      simp [State.leave, State.goto, Action.thread, Pc.waits]

variable [Fintype Thread]

omit [DecidableEq Thread] in
theorem Silent.rank_lt (edge : Silent here next) (busy : here ≠ .idle) :
    next.rank (Fintype.card Thread) < here.rank (Fintype.card Thread) := by
  cases edge with
  | call call => exact absurd rfl busy
  | branch => exact Nat.lt_succ_of_le (rank_waitPath _ _)
  | _ => simp [Pc.rank]

theorem Effect.turn (effect : Effect manual thread fails v blocked here v' after next)
    (busy : here ≠ .idle) (leaves : here.waits = true → next.waits = false) :
    Turn (Pc.rank (Fintype.card Thread)) Pc.waits thread here blocked next after := by
  cases effect with
  | silent edge => exact .active edge.waits.1 edge.waits.2 (edge.rank_lt busy)
  | notify woken fine =>
    refine .notify woken ?_
    simp only [Pc.rank]
    omega
  | pass =>
    rename_i timed
    cases timed <;> exact .active rfl rfl (by simp [Pc.rank])
  | block => exact .block rfl (by simp [Pc.rank])
  | retest gone => exact .retest rfl gone rfl (by simp [Pc.rank])
  | expire | fail => exact .leave rfl (by simp [Pc.rank])
  | wake => cases leaves rfl
  | _ => exact .active rfl rfl (by simp [Pc.rank])

def State.rank (s : State Thread) : ℕ :=
  effort (Pc.rank (Fintype.card Thread)) Pc.waits s.cond s.pc

theorem State.rank_le (s : State Thread) :
    s.rank ≤ Fintype.card Thread * (2 * Fintype.card Thread + 11) :=
  effort_le fun t => (s.pc t).rank_le _

theorem step_rank_lt (ends : action.ends = true) (taken : step s action = some s') :
    s'.rank < s.rank := by
  obtain ⟨_, p, moved, effect⟩ := step_effect taken
  have leaves := leaves_of_ends ends taken
  rw [moved, Function.update_self] at leaves
  have turn := effect.turn (busy_of_ends ends taken) leaves
  unfold State.rank
  rw [moved]
  exact turn.effort_lt

/-- Every thread is outside, or sleeps without a limit on an event that is not set. -/
def Resting (s : State Thread) : Prop :=
  ∀ thread, s.pc thread = .idle ∨
    s.pc thread = .waitBlocked false ∧ thread ∈ s.cond ∧ s.state = false

omit [Fintype Thread] in
/-- Whoever holds the mutex can go on. -/
theorem free_of_stuck (locked : Excludes s.mutex Pc.holds s.pc)
    (stuck : ∀ action : Action Thread, action.usual = true → step s action = none) :
    s.mutex = none := by
  by_contra held
  obtain ⟨holder, held⟩ := Option.ne_none_iff_exists'.mp held
  have inside := (locked holder).mpr held
  have blocked := stuck (.run holder) rfl
  have silent := stuck (.notify holder s.cond) rfl
  cases here : s.pc holder <;> rw [here] at inside <;> try cases inside
  case setNotify => simp [step, here, notifies_self] at silent
  case waitTest =>
    simp only [step, State.next, here] at blocked
    split at blocked <;> cases blocked
  all_goals simp [step, State.next, here] at blocked

omit [Fintype Thread] in
/-- With the mutex free the others wait on `cond`. -/
theorem asleep_of_stuck (free : s.mutex = none)
    (locked : Excludes s.mutex Pc.holds s.pc)
    (stuck : ∀ action : Action Thread, action.usual = true → step s action = none) (thread : Thread) :
    s.pc thread = .idle ∨ s.pc thread = .waitBlocked false ∧ thread ∈ s.cond := by
  have outside := (free ▸ locked).outside_of_free thread
  have blocked := stuck (.run thread) rfl
  have patient := stuck (.expire thread) rfl
  have opens (p : Pc) : s.lock thread p ≠ none := by simp [State.lock, free, Mutex.lock]
  cases here : s.pc thread <;> rw [here] at outside <;> try cases outside
  case idle => exact .inl rfl
  case waitBlocked timed =>
    simp only [step, State.next, here] at blocked patient
    split at blocked
    · rename_i member
      cases timed with
      | false => exact .inr ⟨rfl, member⟩
      | true => cases patient
    · exact absurd blocked (opens _)
  case setLock | resetLock | waitLock | waitExpired | waitFailed =>
    simp only [step, State.next, here] at blocked
    exact absurd blocked (opens _)
  all_goals simp [step, State.next, here] at blocked

omit [Fintype Thread] in
theorem resting_of_stuck (locked : Excludes s.mutex Pc.holds s.pc) (attended : Attended s)
    (stuck : ∀ action : Action Thread, action.usual = true → step s action = none) : Resting s := by
  have sleeps := asleep_of_stuck (free_of_stuck locked stuck) locked stuck
  intro thread
  refine (sleeps thread).imp_right fun ⟨here, member⟩ => ⟨here, member, ?_⟩
  have nonempty : s.cond ≠ [] := List.ne_nil_of_mem member
  cases set : s.state with
  | false => rfl
  | true =>
    cases kind : s.manual with
    | false =>
      obtain ⟨t, saves⟩ := attended.auto kind set nonempty
      rcases sleeps t with idle | ⟨there, asleep⟩
      · rw [idle] at saves
        cases saves
      · rw [there, decide_eq_true asleep] at saves
        cases saves
    | true =>
      obtain ⟨t, there⟩ := attended.manual kind set nonempty
      rcases sleeps t with idle | ⟨other, _⟩
      · cases there.symm.trans idle
      · cases there.symm.trans other

omit [Fintype Thread] in
theorem stuck_of_resting (resting : Resting s) (usual : action.usual = true) : step s action = none := by
  cases action with
  | call thread call | wake thread | fail thread => cases usual
  | run thread =>
    rcases resting thread with idle | ⟨here, member, _⟩
    · simp [step, State.next, idle]
    · simp [step, State.next, here, member]
  | notify thread woken | expire thread =>
    rcases resting thread with idle | ⟨here, _, _⟩
    · simp [step, idle]
    · simp [step, here]

/-- Once no more calls of `Set`, `Reset` and `Wait` begin, those in progress come to an
end within 2n + 11 steps for each of the n threads. Nobody can move exactly when all
threads are outside or wait without a limit on an event that is not set. -/
theorem event_settles {actions : List (Action Thread)}
    (undisturbed : Meets step Undisturbed (fresh manual v) actions)
    (ran : exec step (fresh manual v) actions = some s) :
    (∀ rest last, (∀ action ∈ rest, action.ends = true) → exec step s rest = some last →
      rest.length ≤ Fintype.card Thread * (2 * Fintype.card Thread + 11)) ∧
    ((∀ action : Action Thread, action.usual = true → step s action = none) ↔ Resting s) := by
  refine ⟨fun rest last ends continued => ?_, fun stuck => ?_, fun resting _ => stuck_of_resting resting⟩
  · have meets : Meets step (fun _ action => action.ends = true) s rest := .of_forall ends
    have falls := exec_length_le State.rank (fun _ => True) (fun _ _ _ _ _ _ => trivial)
      (fun _ _ _ _ ends taken => step_rank_lt ends taken) trivial meets continued
    have most := s.rank_le
    omega
  · obtain ⟨locked, attended⟩ : Excludes s.mutex Pc.holds s.pc ∧ Attended s := by
      refine exec_invariant_of_meets (fun s : State Thread => Excludes s.mutex Pc.holds s.pc ∧ Attended s)
        (fun s action s' both fine taken => ?_) ?_ undisturbed ran
      · exact ⟨step_mutex both.1 taken, attended_step both.2 fine taken⟩
      · exact ⟨fun t => by simp [fresh, Pc.holds], fresh_attended manual v⟩
    exact resting_of_stuck locked attended stuck

def quietRun : List (Action (Fin 3)) := lateRun ++ List.replicate 5 (.run 1) ++ [.run 2]

theorem event_settles_quietRun : ∃ s, exec step (fresh false false) quietRun = some s ∧ s.cond = [0] ∧
    ∀ action : Action (Fin 3), action.usual = true → step s action = none := by
  have ends : (exec step (fresh false false) quietRun).map
      (fun s => (s.cond, s.state, s.pc 0, s.pc 1, s.pc 2)) =
        some ([0], false, .waitBlocked false, .idle, .idle) := by decide
  obtain ⟨s, ran, final⟩ := Option.map_eq_some_iff.mp ends
  simp only [Prod.mk.injEq] at final
  obtain ⟨asleep, clear, first, second, third⟩ := final
  refine ⟨s, ran, asleep, (event_settles (by decide) ran).2.mpr fun thread => ?_⟩
  match thread with
  | 0 => exact .inr ⟨first, by simp [asleep], clear⟩
  | 1 => exact .inl second
  | 2 => exact .inl third

end Prot.Lock.Event
