import Prot.Concurrency.Waiting
import Prot.Lock.SemaphoreCount

/-! No unit of the semaphore stays unused while every waiter sleeps: the units
are covered by the threads that are on their way to test `current` and by the
notification that is still to come. -/

namespace Prot.Lock.Semaphore

open Concurrency Time

def Pc.waits : Pc → Bool
  | .waitBlocked _ => true
  | _ => false

/-- The units a thread inside the locked region will take, announce or take back. -/
def Pc.relief : Pc → ℤ
  | .waitTest _ => 1
  | .postNotify n _ _ | .postUndo n _ _ => n.toInt
  | _ => 0

/-- What a step does to the threads blocked on `l_cond`, with the place its
thread leaves and the place it reaches. -/
inductive Stirs {Thread : Type} [DecidableEq Thread] (thread : Thread) :
    Pc → List Thread → Pc → List Thread → Prop where
  | active {here next : Pc} (was : here.waits = false) (is : next.waits = false)
      (calm : ∀ n c m, here = .postNotify n c m → next = .postUndo n c m) :
      Stirs thread here blocked next blocked
  | retest (gone : thread ∉ blocked) : Stirs thread (.waitBlocked timed) blocked (.waitTest timed) blocked
  | block : Stirs thread (.waitTest timed) blocked (.waitBlocked timed) (thread :: blocked)
  | leave (asleep : thread ∈ blocked) :
      Stirs thread (.waitBlocked timed) blocked .waitRelock (blocked.filter (· ≠ thread))
  | wake : Stirs thread (.waitBlocked timed) blocked (.waitBlocked timed) (blocked.filter (· ≠ thread))
  | notify (woken : List Thread) (fine : unblocks n blocked woken = true) :
      Stirs thread (.postNotify n c m) blocked (.postUnlock n (some (c, m)))
        (blocked.filter (· ∉ woken))

variable {Thread : Type} [DecidableEq Thread] {s s' : State Thread} {action : Action Thread}
variable {thread : Thread} {here next : Pc} {blocked after : List Thread} {d d' : Data}

/-- A thread that has been unblocked returns 0 from its wait: it neither fails
nor runs into its deadline any more. -/
def Undisturbed (s : State Thread) : Action Thread → Prop
  | .fail thread | .expire thread => (s.pc thread).waits = true → thread ∈ s.cond
  | _ => True

instance (s : State Thread) : (action : Action Thread) → Decidable (Undisturbed s action)
  | .fail thread | .expire thread =>
    inferInstanceAs (Decidable ((s.pc thread).waits = true → thread ∈ s.cond))
  | .call .. | .run .. | .notify .. | .wake .. => .isTrue trivial

private theorem waits_waitPath (t : TimeUnit) (answered : Bool) :
    (waitPath t answered).waits = false := by
  rcases waitPath_cases t answered with path | ⟨_, path⟩ | ⟨_, _, path⟩ <;> rw [path] <;> rfl

private theorem next_stirs (taken : s.next thread = some s') :
    ∃ p, s'.pc = Function.update s.pc thread p ∧ Stirs thread (s.pc thread) s.cond p s'.cond := by
  cases here : s.pc thread <;> simp only [State.next, here] at taken
  case idle | postNotify => cases taken
  case tryLock | waitLock | waitRelock | postLock =>
    obtain ⟨_, rfl⟩ := lock_eq_some taken
    exact ⟨_, rfl, .active rfl rfl (by rintro _ _ _ ⟨⟩)⟩
  case waitBlocked =>
    split at taken
    · cases taken
    · rename_i gone
      obtain ⟨_, rfl⟩ := lock_eq_some taken
      exact ⟨_, rfl, .retest gone⟩
  case waitTest =>
    split at taken
    · cases taken
      exact ⟨_, rfl, .active rfl rfl (by rintro _ _ _ ⟨⟩)⟩
    · cases taken
      exact ⟨_, rfl, .block⟩
  case waitClock t =>
    cases taken
    exact ⟨_, rfl, .active rfl (waits_waitPath t true) (by rintro _ _ _ ⟨⟩)⟩
  case tryUnlock left got =>
    cases taken
    refine ⟨_, rfl, .active rfl ?_ (by rintro _ _ _ ⟨⟩)⟩
    cases left <;> cases got <;> rfl
  case tryTest | setMaxWrite =>
    split at taken <;> cases taken <;> exact ⟨_, rfl, .active rfl rfl (by rintro _ _ _ ⟨⟩)⟩
  case pollLoop | postReadCurrent | postReadMaximum | postTest =>
    cases taken
    refine ⟨_, rfl, .active rfl ?_ (by rintro _ _ _ ⟨⟩)⟩
    split <;> rfl
  all_goals cases taken; exact ⟨_, rfl, .active rfl rfl (by rintro _ _ _ ⟨⟩)⟩

theorem step_stirs (fine : Undisturbed s action) (taken : step s action = some s') :
    ∃ p, s'.pc = Function.update s.pc action.thread p ∧
      Stirs action.thread (s.pc action.thread) s.cond p s'.cond := by
  cases action with
  | call thread call =>
    simp only [step] at taken
    split at taken
    · rename_i idle
      cases taken
      have here : s.pc (Action.call thread call).thread = .idle := idle
      exact ⟨_, rfl, .active (by rw [here]; rfl) (by cases call <;> rfl)
        (by rw [here]; rintro _ _ _ ⟨⟩)⟩
    · cases taken
  | run thread => exact next_stirs taken
  | notify thread woken =>
    simp only [step] at taken
    split at taken
    · rename_i here
      split at taken
      · rename_i fine
        cases taken
        exact ⟨_, rfl, here ▸ .notify woken fine⟩
      · cases taken
    · cases taken
  | fail thread =>
    simp only [step] at taken
    split at taken
    · rename_i t here
      cases taken
      exact ⟨_, rfl, here ▸ .active rfl (waits_waitPath t false) (by rintro _ _ _ ⟨⟩)⟩
    · rename_i here
      cases taken
      exact ⟨_, rfl, here ▸ .leave (fine (by rw [here]; rfl))⟩
    · rename_i here
      cases taken
      refine ⟨_, rfl, here ▸ .active rfl rfl ?_⟩
      rintro n' c' m' same
      cases same
      rfl
    · cases taken
  | expire thread =>
    simp only [step] at taken
    split at taken
    · rename_i here
      cases taken
      exact ⟨_, rfl, here ▸ .leave (fine (by rw [here]; rfl))⟩
    · cases taken
  | wake thread =>
    simp only [step] at taken
    split at taken
    · rename_i here
      cases taken
      refine ⟨_, rfl, ?_⟩
      rw [show s.pc (Action.wake thread).thread = _ from here]
      exact .wake
    · cases taken

private theorem stirs_allWait (all : AllWait Pc.waits s.cond s.pc) (fine : Undisturbed s action)
    (taken : step s action = some s') :
    AllWait Pc.waits s'.cond s'.pc := by
  obtain ⟨p, moved, stirs⟩ := step_stirs fine taken
  rw [moved]
  generalize here : s.pc action.thread = place, s'.cond = after at stirs
  cases stirs with
  | active was is calm =>
    have absent : action.thread ∉ s.cond := all.notMem (here ▸ was)
    exact all.move (fun _ _ member => member) fun member => absurd member absent
  | retest gone => exact all.move (fun _ _ member => member) fun member => absurd member gone
  | block =>
    refine all.move (fun other away member => ?_) fun _ => rfl
    exact (List.mem_cons.mp member).resolve_left away
  | leave _ | wake =>
    refine all.move (fun other _ member => (List.mem_filter.mp member).1) fun member => ?_
    simpa using (List.mem_filter.mp member).2
  | notify woken fine =>
    have absent : action.thread ∉ s.cond := all.notMem (here ▸ rfl)
    exact all.move (fun other _ member => (List.mem_filter.mp member).1) fun member =>
      absurd (List.mem_filter.mp member).1 absent

variable [Fintype Thread] {i_set i_max : Int32} {start : State Thread}
variable {actions : List (Action Thread)}

/-- While a thread is blocked, every unit is covered. -/
structure Covered (s : State Thread) : Prop where
  all : AllWait Pc.waits s.cond s.pc
  units : s.cond ≠ [] →
    s.current.toInt ≤ awake Pc.waits s.cond s.pc + contributed Pc.relief s.pc

omit [DecidableEq Thread] in
private theorem relief_nonneg (inv : Invariant s) : 0 ≤ contributed Pc.relief s.pc := by
  refine Finset.sum_nonneg fun t _ => ?_
  have positive := inv.amount t
  cases here : s.pc t with
  | postNotify n c m | postUndo n c m =>
    have amount := Int32.lt_iff_toInt_lt.mp (positive n (by rw [here]; rfl))
    exact Int.le_of_lt amount
  | waitTest timed => exact Int.one_nonneg
  | _ => exact le_refl 0

theorem Silent.relief (edge : Silent here next) (active : here.waits = false) :
    here.relief ≤ next.relief := by
  cases edge.goes with
  | waitLocked => exact Int.one_nonneg
  | woken | spurious | gaveUp => cases active
  | _ => exact le_refl 0

/-- A step of a thread that is not blocked adds no unit that it does not cover. -/
theorem Effect.relief (effect : Effect d here d' next) (sound : Sound d here)
    (fits : ∀ n c m, here = .postAdd n c m → d.current.toInt + n.toInt < 2 ^ 31)
    (active : here.waits = false) (stays : next.waits = false)
    (calm : ∀ n c m, here = .postNotify n c m → next = .postUndo n c m) :
    d'.current.toInt + here.relief ≤ d.current.toInt + next.relief := by
  have nonneg := sound.range.1
  cases effect with
  | silent edge =>
    have more := edge.relief active
    omega
  | tryTake some | take some =>
    have less := (toInt_take nonneg some).1
    simp only [Pc.relief]
    omega
  | @add d n c m =>
    have sum := (sound.add (fits n c m rfl)).1
    simp only [Pc.relief]
    omega
  | @undo d n c m =>
    have difference := sound.undo.1
    simp only [Pc.relief]
    omega
  | block => cases stays
  | @notify d n c m => cases calm n c m rfl
  | _ => exact le_refl _

omit [Fintype Thread] in
theorem unblocks_eq (n : Int32) (blocked woken : List Thread) :
    unblocks n blocked woken = notifies (decide (n ≠ 1)) blocked woken := by
  by_cases one : n = 1 <;> simp [unblocks, notifies, one]

/-- What is covered before the step of a thread is covered after it. -/
theorem Stirs.units {place : Thread → Pc} (stirs : Stirs thread here blocked next after)
    (effect : Effect d here d' next) (standing : place thread = here) (sound : Sound d here)
    (fits : ∀ n c m, here = .postAdd n c m → d.current.toInt + n.toInt < 2 ^ 31)
    (nonneg : 0 ≤ contributed Pc.relief (Function.update place thread next))
    (all : AllWait Pc.waits blocked place) (asleep : after ≠ [])
    (units : blocked ≠ [] →
      d.current.toInt ≤ awake Pc.waits blocked place + contributed Pc.relief place) :
    d'.current.toInt ≤ awake Pc.waits after (Function.update place thread next) +
      contributed Pc.relief (Function.update place thread next) := by
  have change := contributed_update Pc.relief place thread next
  rw [standing] at change
  cases stirs with
  | active was is calm =>
    have same : awake Pc.waits blocked (Function.update place thread next) =
        awake Pc.waits blocked place := awake_move_same (standing ▸ was) is
    have more := effect.relief sound fits was is calm
    have before := units asleep
    omega
  | retest gone =>
    rename_i timed
    have fewer : awake Pc.waits blocked (Function.update place thread (.waitTest timed)) + 1 =
        awake Pc.waits blocked place := awake_retest (standing ▸ rfl) gone rfl
    have before := units asleep
    cases effect
    simp only [Pc.relief] at change
    omega
  | block =>
    cases effect with
    | silent edge => cases edge
    | block none =>
      have zero : d.current.toInt = 0 := by rw [none]; rfl
      omega
  | leave there =>
    have same : awake Pc.waits (blocked.filter (· ≠ thread)) (Function.update place thread .waitRelock)
        = awake Pc.waits blocked place := awake_leave there rfl
    have before := units (List.ne_nil_of_mem there)
    cases effect
    simp only [Pc.relief] at change
    omega
  | wake =>
    rename_i timed
    have more : awake Pc.waits blocked place ≤ awake Pc.waits (blocked.filter (· ≠ thread))
        (Function.update place thread (.waitBlocked timed)) := awake_wake rfl
    obtain ⟨t, member⟩ := List.exists_mem_of_ne_nil _ asleep
    have before := units (List.ne_nil_of_mem (List.mem_filter.mp member).1)
    cases effect
    simp only [Pc.relief] at change
    omega
  | notify woken fine =>
    rename_i n c m
    rw [unblocks_eq] at fine
    rcases notifies_cases fine with nobody | ⟨signal, t, member, chosen⟩
    · exact absurd nobody asleep
    · have signalled := awake_signal all member chosen
      have same : awake Pc.waits (blocked.filter (· ∉ woken))
          (Function.update place thread (.postUnlock n (some (c, m)))) =
          awake Pc.waits (blocked.filter (· ∉ woken)) place := awake_move_same (standing ▸ rfl) rfl
      have before := units (List.ne_nil_of_mem member)
      have one : n = 1 := by simpa using signal
      have single : n.toInt = 1 := by rw [one]; rfl
      cases effect with
      | silent edge => cases edge
      | notify =>
        simp only [Pc.relief] at change
        omega

theorem covered_step (inv : Invariant s) (exact : Exact i_set s) (covered : Covered s)
    (fits : Fits s action) (fine : Undisturbed s action) (taken : step s action = some s') :
    Covered s' := by
  refine ⟨stirs_allWait covered.all fine taken, fun asleep => ?_⟩
  have nonneg := relief_nonneg (step_invariant inv taken)
  obtain ⟨p, moved, stirs⟩ := step_stirs fine taken
  obtain ⟨q, same, effect⟩ := step_effect taken
  have equal : q = p := by simpa using congrFun (same.symm.trans moved) action.thread
  subst equal
  rw [moved] at nonneg ⊢
  exact stirs.units effect rfl (exact.sound inv action.thread) (fits_iff.mp fits) nonneg
    covered.all asleep covered.units

theorem construct_covered (made : construct i_set i_max = some s) : Covered s := by
  obtain ⟨_, rfl⟩ := construct_eq_some made
  exact ⟨nofun, fun asleep => absurd rfl asleep⟩

/-- While the mutex is free, units are left over only as far as threads that
have been unblocked have not tested `current` again. -/
theorem awake_of_blocked (made : construct i_set i_max = some start)
    (fits : Meets step Fits start actions) (undisturbed : Meets step Undisturbed start actions)
    (ran : exec step start actions = some s) (free : s.mtx = none) (asleep : s.cond ≠ []) :
    s.current.toInt ≤ awake Pc.waits s.cond s.pc := by
  have reached : Invariant s ∧ Exact i_set s ∧ Covered s := by
    refine exec_invariant_of_meets (fun s => Invariant s ∧ Exact i_set s ∧ Covered s) ?_
      ⟨construct_invariant made, construct_exact made, construct_covered made⟩
      (fits.and undisturbed) ran
    rintro s action s' ⟨inv, exact, covered⟩ ⟨fits, fine⟩ taken
    exact ⟨step_invariant inv taken, (exact_step inv exact taken).mpr fits,
      covered_step inv exact covered fits fine taken⟩
  obtain ⟨inv, _, covered⟩ := reached
  have outside : contributed Pc.relief s.pc = 0 := by
    refine contributed_eq_zero fun t => ?_
    have free := (free ▸ inv.mtx).outside_of_free t
    cases here : s.pc t with
    | waitTest _ | postNotify _ _ _ | postUndo _ _ _ => rw [here] at free; cases free
    | _ => rfl
  have units := covered.units asleep
  omega

/-- Two threads sleep when a third one posts a unit, and the signal reaches one of them. -/
def signalRun : List (Action (Fin 3)) :=
  .call 0 (.wait .infinite) :: List.replicate 3 (.run 0) ++
    .call 1 (.wait .infinite) :: List.replicate 3 (.run 1) ++
    .call 2 (.post 1) :: List.replicate 5 (.run 2) ++ [.notify 2 [0], .run 2]

theorem awake_signalRun : ∃ s, exec step (fresh 0 1) signalRun = some s ∧ s.cond = [1] ∧
    s.current = 1 ∧ s.current.toInt ≤ awake Pc.waits s.cond s.pc := by
  have there : (exec step (fresh 0 1) signalRun).map (fun s => (s.mtx, s.cond, s.current)) =
      some (none, [1], 1) := by decide
  obtain ⟨s, ran, ends⟩ := Option.map_eq_some_iff.mp there
  obtain ⟨free, asleep, unit⟩ : s.mtx = none ∧ s.cond = [1] ∧ s.current = 1 := by simpa using ends
  have made : construct 0 1 = some (fresh 0 1 : State (Fin 3)) := rfl
  exact ⟨s, ran, asleep, unit,
    awake_of_blocked made (by decide) (by decide) ran free (by rw [asleep]; exact nofun)⟩

end Prot.Lock.Semaphore
