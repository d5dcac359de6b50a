import Prot.Concurrency.Settling
import Prot.Lock.SemaphoreWaiters

/-! The calls on a semaphore come to an end: what begins either returns, or waits
without a limit for a unit that is not there. -/

namespace Prot.Lock.Semaphore

open Concurrency Time

/-- The seconds a `Wait` without a clock may still poll. -/
def Pc.seconds : Pc → ℕ
  | .waitClock t => t.inSeconds.toInt.toNat
  | .tryLock (some left) | .tryTest (some left) | .tryUnlock (some left) _ => left.toNat
  | .pollLoop left => left.toNat
  | _ => 0

/-- The most steps a thread can still make in its call, among `n` threads, when
nobody is unblocked. -/
def Pc.rank (n : ℕ) : Pc → ℕ
  | .idle => 0
  | .waitClock t => 4 * t.inSeconds.toInt.toNat + 7
  | .tryLock none => 4
  | .tryTest none => 3
  | .tryUnlock none _ => 2
  | .tryLock (some left) => 4 * (left - 1).toNat + 5
  | .tryTest (some left) => 4 * (left - 1).toNat + 4
  | .tryUnlock (some left) _ => 4 * (left - 1).toNat + 3
  | .pollLoop left => 4 * left.toNat + 2
  | .waitLock _ => 6
  | .waitTest _ => 5
  | .waitBlocked _ => 4
  | .waitRelock => 3
  | .waitUnlock _ => 2
  | .waitReturn _ => 1
  | .postReadCurrent _ => 2 * n + 9
  | .postReadMaximum _ _ => 2 * n + 8
  | .postLock _ => 2 * n + 7
  | .postTest _ => 2 * n + 6
  | .postAdd _ _ _ => 2 * n + 5
  | .postNotify _ _ _ => 2 * n + 4
  | .postUndo _ _ _ => 3
  | .postUnlock _ _ => 2
  | .postReturn _ _ => 1
  | .setMaxWrite _ => 2
  | .setMaxReturn _ => 1
  | .currentRead => 2
  | .currentReturn _ => 1

def Action.ends {Thread : Type} : Action Thread → Bool
  | .call _ _ | .wake _ => false
  | .run _ | .notify _ _ | .fail _ | .expire _ => true

def Action.usual {Thread : Type} : Action Thread → Bool
  | .call _ _ | .wake _ | .fail _ => false
  | .run _ | .notify _ _ | .expire _ => true

theorem Pc.rank_le (n : ℕ) (p : Pc) : p.rank n ≤ 2 * n + 9 + 4 * p.seconds := by
  cases p with
  | tryLock left | tryTest left | tryUnlock left _ =>
    cases left <;> simp only [Pc.rank, Pc.seconds] <;> omega
  | _ => simp only [Pc.rank, Pc.seconds]; omega

variable {Thread : Type} [DecidableEq Thread] {s s' : State Thread} {action : Action Thread}
variable {thread : Thread} {blocked after : List Thread} {here next : Pc} {d d' : Data}

theorem rank_waitPath (n : ℕ) (t : TimeUnit) (answered : Bool) :
    (waitPath t answered).rank n < (Pc.waitClock t).rank n := by
  unfold waitPath
  split
  · simp only [Pc.rank]
    omega
  · split
    · simp only [Pc.rank]
      omega
    · split <;> simp only [Pc.rank] <;> omega

private theorem rank_afterTry (n : ℕ) (left : Option ℤ) (got : Bool) :
    (afterTry left got).rank n < (Pc.tryUnlock left got).rank n := by
  cases left with
  | none => simp [afterTry, Pc.rank]
  | some left =>
    simp only [afterTry]
    split <;> simp only [Pc.rank] <;> omega

theorem busy_of_ends (ends : action.ends = true) (taken : step s action = some s') :
    s.pc action.thread ≠ .idle := by
  intro idle
  cases action with
  | call thread call => cases ends
  | run thread => simp [step, State.next, show s.pc thread = .idle from idle] at taken
  | notify thread woken | fail thread | expire thread | wake thread =>
    simp [step, show s.pc thread = .idle from idle] at taken

/-- A thread that waits leaves its wait when it moves. -/
theorem leaves_of_ends (ends : action.ends = true) (taken : step s action = some s')
    (waits : (s.pc action.thread).waits = true) : (s'.pc action.thread).waits = false := by
  cases here : s.pc action.thread <;> rw [here] at waits <;> try cases waits
  case waitBlocked timed =>
    cases action with
    | call thread call => cases ends
    | wake thread => cases ends
    | run thread =>
      simp only [step, State.next, show s.pc thread = .waitBlocked timed from here] at taken
      split at taken
      · cases taken
      · obtain ⟨_, rfl⟩ := lock_eq_some taken
        simp [State.goto, Action.thread, Pc.waits]
    | notify thread woken => simp [step, show s.pc thread = .waitBlocked timed from here] at taken
    | fail thread =>
      simp only [step, show s.pc thread = .waitBlocked timed from here] at taken
      cases taken
      simp [State.goto, Action.thread, Pc.waits]
    | expire thread =>
      simp only [step, show s.pc thread = .waitBlocked timed from here] at taken
      cases timed <;> cases taken
      simp [State.goto, Action.thread, Pc.waits]

theorem Silent.rank_lt (edge : Silent here next) (n : ℕ) (busy : here ≠ .idle)
    (active : here.waits = false) : next.rank n < here.rank n := by
  cases edge with
  | call call => exact absurd rfl busy
  | clock answered => exact rank_waitPath n _ answered
  | @tryLocked left => cases left <;> simp [Pc.rank]
  | tryUnlocked => exact rank_afterTry n _ _
  | polled =>
    split <;> simp only [Pc.rank]
    · omega
    · omega
  | woken | spurious | gaveUp => cases active
  | _ => simp [Pc.rank]

theorem Effect.rank_lt (effect : Effect d here d' next) (n : ℕ) (busy : here ≠ .idle)
    (active : here.waits = false) : next.rank n < here.rank n := by
  cases effect with
  | silent edge => exact edge.rank_lt n busy active
  | tryTake | tryNone =>
    rename_i left _
    cases left <;> simp [Pc.rank]
  | _ => simp only [Pc.rank]; omega

variable [Fintype Thread]

theorem Stirs.turn (stirs : Stirs thread here blocked next after)
    (effect : Effect d here d' next) (busy : here ≠ .idle)
    (leaves : here.waits = true → next.waits = false) :
    Turn (Pc.rank (Fintype.card Thread)) Pc.waits thread here blocked next after := by
  cases stirs with
  | active was is calm => exact .active was is (effect.rank_lt _ busy was)
  | retest gone => exact .retest rfl gone rfl (by simp [Pc.rank])
  | block => exact .block rfl (by simp [Pc.rank])
  | leave asleep => exact .leave rfl (by simp [Pc.rank])
  | wake => cases leaves rfl
  | notify woken fine =>
    refine .notify woken ?_
    simp only [Pc.rank]
    omega

def State.rank (s : State Thread) : ℕ :=
  effort (Pc.rank (Fintype.card Thread)) Pc.waits s.cond s.pc

theorem State.rank_le (s : State Thread) : s.rank ≤
    Fintype.card Thread * (2 * Fintype.card Thread + 11) + 4 * total Pc.seconds s.pc := by
  have places : total (Pc.rank (Fintype.card Thread)) s.pc ≤
      ∑ thread, (2 * Fintype.card Thread + 9 + 4 * (s.pc thread).seconds) :=
    Finset.sum_le_sum fun t _ => (s.pc t).rank_le _
  have most : awake Pc.waits s.cond s.pc ≤ Fintype.card Thread := awake_le_card
  rw [Finset.sum_add_distrib, ← Finset.mul_sum, Finset.sum_const, Finset.card_univ,
    smul_eq_mul] at places
  unfold State.rank effort total at *
  rw [Nat.mul_add] at *
  omega

omit [Fintype Thread] in
private theorem gave_up (disturbed : ¬ Undisturbed s action) (taken : step s action = some s') :
    (s.pc action.thread).waits = true ∧ s'.pc = Function.update s.pc action.thread .waitRelock ∧
      s'.cond = s.cond.filter (· ≠ action.thread) := by
  cases action with
  | fail thread | expire thread =>
    have waits : (s.pc thread).waits = true := by
      by_contra awake
      exact disturbed fun waits => absurd waits awake
    cases here : s.pc thread with
    | waitBlocked timed =>
      simp only [step, here] at taken
      cases timed <;> cases taken <;> exact ⟨waits, rfl, rfl⟩
    | _ => rw [here] at waits; cases waits
  | _ => exact absurd trivial disturbed

theorem step_rank_lt (ends : action.ends = true) (taken : step s action = some s') :
    s'.rank < s.rank := by
  have leaves := leaves_of_ends ends taken
  by_cases fine : Undisturbed s action
  · obtain ⟨p, moved, stirs⟩ := step_stirs fine taken
    obtain ⟨q, same, effect⟩ := step_effect taken
    have equal : q = p := by simpa using congrFun (same.symm.trans moved) action.thread
    subst equal
    rw [moved, Function.update_self] at leaves
    have turn := stirs.turn effect (busy_of_ends ends taken) leaves
    unfold State.rank
    rw [moved]
    exact turn.effort_lt
  · obtain ⟨waits, moved, left⟩ := gave_up fine taken
    have less : Pc.waitRelock.rank (Fintype.card Thread) <
        (s.pc action.thread).rank (Fintype.card Thread) := by
      cases here : s.pc action.thread <;> rw [here] at waits <;> try cases waits
      case waitBlocked timed => simp [Pc.rank]
    unfold State.rank
    rw [moved, left]
    exact (Turn.leave rfl less).effort_lt

/-- Every thread is outside, or sleeps without a limit while there is no unit. -/
def Resting (s : State Thread) : Prop :=
  ∀ thread, s.pc thread = .idle ∨
    s.pc thread = .waitBlocked false ∧ thread ∈ s.cond ∧ s.current = 0

omit [Fintype Thread] in
/-- Whoever holds the mutex can go on. -/
theorem free_of_stuck (locked : Excludes s.mtx Pc.holds s.pc)
    (stuck : ∀ action : Action Thread, action.usual = true → step s action = none) :
    s.mtx = none := by
  by_contra held
  obtain ⟨holder, held⟩ := Option.ne_none_iff_exists'.mp held
  have inside := (locked holder).mpr held
  have blocked := stuck (.run holder) rfl
  have silent := stuck (.notify holder s.cond) rfl
  cases here : s.pc holder <;> rw [here] at inside <;> try cases inside
  case postNotify n c m =>
    simp [step, here, unblocks_eq, notifies_self] at silent
  case tryTest | waitTest =>
    simp only [step, State.next, here] at blocked
    split at blocked <;> cases blocked
  all_goals simp [step, State.next, here] at blocked

omit [Fintype Thread] in
/-- With the mutex free the others wait on `l_cond`. -/
theorem asleep_of_stuck (free : s.mtx = none) (locked : Excludes s.mtx Pc.holds s.pc)
    (stuck : ∀ action : Action Thread, action.usual = true → step s action = none) (thread : Thread) :
    s.pc thread = .idle ∨ s.pc thread = .waitBlocked false ∧ thread ∈ s.cond := by
  have outside := (free ▸ locked).outside_of_free thread
  have blocked := stuck (.run thread) rfl
  have patient := stuck (.expire thread) rfl
  have opens (p : Pc) : s.lock thread p ≠ none := by simp [State.lock, free, Mutex.lock]
  cases here : s.pc thread <;> rw [here] at outside <;> try cases outside
  case idle => exact .inl rfl
  case waitBlocked timed =>
    simp only [step, State.next, here] at blocked patient
    split at blocked
    · rename_i member
      cases timed with
      | false => exact .inr ⟨rfl, member⟩
      | true => cases patient
    · exact absurd blocked (opens _)
  case tryLock | waitLock | waitRelock | postLock =>
    simp only [step, State.next, here] at blocked
    exact absurd blocked (opens _)
  case setMaxWrite =>
    simp only [step, State.next, here] at blocked
    split at blocked <;> cases blocked
  all_goals simp [step, State.next, here] at blocked

private theorem reached_covered {i_set i_max : Int32} {start : State Thread}
    {actions : List (Action Thread)}
    (made : construct i_set i_max = some start) (fits : Meets step Fits start actions)
    (undisturbed : Meets step Undisturbed start actions) (ran : exec step start actions = some s) :
    Invariant s ∧ Exact i_set s ∧ Covered s := by
  refine exec_invariant_of_meets (fun s => Invariant s ∧ Exact i_set s ∧ Covered s) ?_
    ⟨construct_invariant made, construct_exact made, construct_covered made⟩ (fits.and undisturbed) ran
  rintro s action s' ⟨inv, exact, covered⟩ ⟨fits, fine⟩ taken
  exact ⟨step_invariant inv taken, (exact_step inv exact taken).mpr fits,
    covered_step inv exact covered fits fine taken⟩

theorem resting_of_stuck (locked : Excludes s.mtx Pc.holds s.pc) (nonneg : 0 ≤ s.current.toInt)
    (covered : Covered s)
    (stuck : ∀ action : Action Thread, action.usual = true → step s action = none) : Resting s := by
  have sleeps := asleep_of_stuck (free_of_stuck locked stuck) locked stuck
  have relieved : contributed Pc.relief s.pc = 0 := by
    refine contributed_eq_zero fun t => ?_
    rcases sleeps t with here | ⟨here, _⟩ <;> rw [here] <;> rfl
  have nobody : awake Pc.waits s.cond s.pc = 0 := by
    refine headcount_eq_zero_iff.mpr fun t => ?_
    rcases sleeps t with here | ⟨here, member⟩
    · simp [unblocked, here, Pc.waits]
    · simp [unblocked, member]
  intro thread
  rcases sleeps thread with idle | ⟨here, member⟩
  · exact .inl idle
  · have units := covered.units (List.ne_nil_of_mem member)
    have empty : s.current.toInt = 0 := by omega
    exact .inr ⟨here, member, Int32.toInt_inj.mp empty⟩

omit [Fintype Thread] in
theorem stuck_of_resting (resting : Resting s) (usual : action.usual = true) : step s action = none := by
  cases action with
  | call thread call | wake thread | fail thread => cases usual
  | run thread =>
    rcases resting thread with idle | ⟨here, member, _⟩
    · simp [step, State.next, idle]
    · simp [step, State.next, here, member]
  | notify thread woken | expire thread =>
    rcases resting thread with idle | ⟨here, _, _⟩
    · simp [step, idle]
    · simp [step, here]

/-- Once no more calls of `Wait`, `Post`, `SetMax` and `Current` begin, those in progress
come to an end within 2n + 11 steps for each of the n threads and four for each second
that a `Wait` without a clock polls. Nobody can move exactly when all threads are outside
or wait without a limit while there is no unit. -/
theorem semaphore_settles {i_set i_max : Int32} {start : State Thread}
    {actions : List (Action Thread)} (made : construct i_set i_max = some start)
    (fits : Meets step Fits start actions) (undisturbed : Meets step Undisturbed start actions)
    (ran : exec step start actions = some s) :
    (∀ rest last, (∀ action ∈ rest, action.ends = true) → exec step s rest = some last →
      rest.length ≤ Fintype.card Thread * (2 * Fintype.card Thread + 11) + 4 * total Pc.seconds s.pc) ∧
    ((∀ action : Action Thread, action.usual = true → step s action = none) ↔ Resting s) := by
  refine ⟨fun rest last ends continued => ?_, fun stuck => ?_, fun resting _ => stuck_of_resting resting⟩
  · have meets : Meets step (fun _ action => action.ends = true) s rest := .of_forall ends
    have falls := exec_length_le State.rank (fun _ => True) (fun _ _ _ _ _ _ => trivial)
      (fun _ _ _ _ ends taken => step_rank_lt ends taken) trivial meets continued
    have most := s.rank_le
    omega
  · obtain ⟨inv, exact, covered⟩ := reached_covered made fits undisturbed ran
    exact resting_of_stuck inv.mtx exact.range.1 covered stuck

def takenRun : List (Action (Fin 3)) := signalRun ++ .run 2 :: List.replicate 4 (.run 0)

theorem semaphore_settles_takenRun : ∃ s, exec step (fresh 0 1) takenRun = some s ∧ s.cond = [1] ∧
    ∀ action : Action (Fin 3), action.usual = true → step s action = none := by
  have ends : (exec step (fresh 0 1) takenRun).map
      (fun s => (s.cond, s.current, s.pc 0, s.pc 1, s.pc 2)) =
        some ([1], 0, .idle, .waitBlocked false, .idle) := by decide
  obtain ⟨s, ran, final⟩ := Option.map_eq_some_iff.mp ends
  simp only [Prod.mk.injEq] at final
  obtain ⟨asleep, empty, first, second, third⟩ := final
  have made : construct 0 1 = some (fresh 0 1 : State (Fin 3)) := rfl
  refine ⟨s, ran, asleep, (semaphore_settles made (by decide) (by decide) ran).2.mpr fun thread => ?_⟩
  match thread with
  | 0 => exact .inl first
  | 1 => exact .inr ⟨second, by simp [asleep], empty⟩
  | 2 => exact .inl third

end Prot.Lock.Semaphore
