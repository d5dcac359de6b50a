import Prot.Lock.ConditionVariableRendezvous

/-! A `ConditionVariable` together with the external lock it was given, as its
callers use the two: `Wait` is called with the lock held, and `WakeOne` and
`WakeAll` with or without it. The lock is a `SinglenterLock`. -/

namespace Prot.Lock.ConditionVariable

open Concurrency Time

/-- Whether a thread inside `Wait` holds the external lock. -/
def Pc.holdsLock : Pc → Option Bool
  | .waitGetMtxi _ | .waitGetMtxd _ | .waitIncr _ | .waitFreeMtxd _ => some true
  | .waitFreeMtxi _ | .waitFreeLock _ | .leaveReturn _ => some true
  | .waitSemap _ | .leaveGetMtxd _ | .leaveDecr _ | .leaveTestCount _ => some false
  | .leaveTestFlags _ | .leaveFreeMtxd _ _ | .leaveSet _ | .leaveGetLock _ => some false
  | _ => none

/-- Inside `Wait`, and not past `semap.Wait`. -/
def Pc.asleep : Pc → Bool
  | .waitGetMtxi _ | .waitGetMtxd _ | .waitIncr _ | .waitFreeMtxd _ => true
  | .waitFreeMtxi _ | .waitFreeLock _ | .waitSemap _ => true
  | _ => false

/-- Inside a `WakeOne` or `WakeAll` that is going to return 0. -/
def Pc.wakesNobody : Pc → Bool
  | .oneFreeMtxi n | .allRaise n | .allPost n | .allFreeMtxd n | .allRend n => n ≤ 0
  | .allReset n | .allClear n | .allFreeMtxi n => n ≤ 0
  | .allSkip => true
  | _ => false

theorem Effect.wakesNobody {d d' : Data} {here next : Pc} (effect : Effect d here d' next)
    (some : 0 < d.waitCount) (wakes : here.wakesNobody = false) : next.wakesNobody = false := by
  cases effect with
  | silent edge =>
    cases edge with
    | call call => cases call <;> rfl
    | waitFreedMtxi lock => cases lock <;> rfl
    | @leaveFreedMtxd rv rn lock => cases rn <;> cases lock <;> rfl
    | allSkipped => cases wakes
    | _ => first | rfl | exact wakes
  | set lock => cases lock <;> rfl
  | nobody none | skip none => exact absurd none (Int.ne_of_gt some)
  | read _ => exact decide_eq_false (Int.not_le.mpr some)
  | raise | wakeAll | meet | reset | clear => exact wakes
  | _ => rfl

namespace Monitor

/-- The condition variable and the holder of `p->lock`. -/
structure State (Thread : Type) where
  cv : ConditionVariable.State Thread
  lock : Mutex Thread

/-- A thread takes or frees the lock on its own account, or something happens
in the condition variable. -/
inductive Action (Thread : Type) where
  | get (thread : Thread)
  | free (thread : Thread)
  | cv (action : ConditionVariable.Action Thread)
  deriving DecidableEq, Repr

/-- The action belongs to a call that has begun. -/
def Action.inner {Thread : Type} : Action Thread → Bool
  | .get _ | .free _ | .cv (.call _ _) => false
  | .cv (.run _) | .cv (.expire _) => true

variable {Thread : Type} [DecidableEq Thread]

def start : State Thread := ⟨init true, none⟩

/-- What the next step of a thread does to the lock: `Wait` frees it once it has
registered, and gets it back before it returns. -/
def lockAfter (thread : Thread) (lock : Mutex Thread) : Pc → Option (Mutex Thread)
  | .waitFreeLock _ => some none
  | .leaveGetLock _ => Mutex.lock thread lock
  | _ => some lock

/-- `Wait` is for the holder of the lock. -/
def mayCall (lock : Mutex Thread) (thread : Thread) : Call → Bool
  | .wait _ => lock = some thread
  | .wakeOne | .wakeAll => true

def step (s : State Thread) : Action Thread → Option (State Thread)
  | .get thread =>
    if s.cv.pc thread = .idle then
      (Mutex.lock thread s.lock).map fun lock => { s with lock := lock }
    else none
  | .free thread =>
    if s.cv.pc thread = .idle ∧ s.lock = some thread then some { s with lock := none } else none
  | .cv (.call thread call) =>
    if mayCall s.lock thread call then
      (ConditionVariable.step s.cv (.call thread call)).map fun cv => { s with cv := cv }
    else none
  | .cv (.run thread) => (lockAfter thread s.lock (s.cv.pc thread)).bind fun lock =>
    (ConditionVariable.step s.cv (.run thread)).map fun cv => ⟨cv, lock⟩
  | .cv (.expire thread) =>
    (ConditionVariable.step s.cv (.expire thread)).map fun cv => { s with cv := cv }

/-- The post of a `WakeAll` is not refused for the limit of `semap`. -/
def PostsAccepted (s : State Thread) : Action Thread → Prop
  | .cv action => ConditionVariable.PostsAccepted s.cv action
  | .get _ | .free _ => True

instance (s : State Thread) : ∀ action, Decidable (PostsAccepted s action)
  | .cv action => inferInstanceAs (Decidable (ConditionVariable.PostsAccepted s.cv action))
  | .get _ | .free _ => inferInstanceAs (Decidable True)

variable {s s' : State Thread} {action : Action Thread} {thread other : Thread}

/-- What a step may do: to the lock alone, or to the condition variable and
what goes with it to the lock. -/
inductive Effect (s : State Thread) : Action Thread → State Thread → Prop where
  | get (thread : Thread) (outside : s.cv.pc thread = .idle) (free : s.lock = none) :
      Effect s (.get thread) { s with lock := some thread }
  | free (thread : Thread) (outside : s.cv.pc thread = .idle) (held : s.lock = some thread) :
      Effect s (.free thread) { s with lock := none }
  | call (thread : Thread) (call : Call) (cv : ConditionVariable.State Thread)
      (may : mayCall s.lock thread call = true)
      (taken : ConditionVariable.step s.cv (.call thread call) = some cv) :
      Effect s (.cv (.call thread call)) { s with cv := cv }
  | run (thread : Thread) (cv : ConditionVariable.State Thread) (lock : Mutex Thread)
      (locks : lockAfter thread s.lock (s.cv.pc thread) = some lock)
      (taken : ConditionVariable.step s.cv (.run thread) = some cv) :
      Effect s (.cv (.run thread)) ⟨cv, lock⟩
  | expire (thread : Thread) (cv : ConditionVariable.State Thread)
      (taken : ConditionVariable.step s.cv (.expire thread) = some cv) :
      Effect s (.cv (.expire thread)) { s with cv := cv }

theorem step_effect (taken : step s action = some s') : Effect s action s' := by
  match action with
  | .get thread =>
    simp only [step] at taken
    split at taken
    · rename_i outside
      obtain ⟨lock, locked, rfl⟩ := Option.map_eq_some_iff.mp taken
      obtain ⟨free, rfl⟩ := Mutex.lock_eq_some locked
      exact .get thread outside free
    · cases taken
  | .free thread =>
    simp only [step] at taken
    split at taken
    · rename_i may
      cases taken
      exact .free thread may.1 may.2
    · cases taken
  | .cv (.call thread call) =>
    simp only [step] at taken
    split at taken
    · rename_i may
      obtain ⟨cv, moved, rfl⟩ := Option.map_eq_some_iff.mp taken
      exact .call thread call cv may moved
    · cases taken
  | .cv (.run thread) =>
    obtain ⟨lock, locks, rest⟩ := Option.bind_eq_some_iff.mp taken
    obtain ⟨cv, moved, rfl⟩ := Option.map_eq_some_iff.mp rest
    exact .run thread cv lock locks moved
  | .cv (.expire thread) =>
    obtain ⟨cv, moved, rfl⟩ := Option.map_eq_some_iff.mp taken
    exact .expire thread cv moved

/-- A step of the monitor is one of the condition variable, or leaves it alone. -/
theorem Effect.cv_step (effect : Effect s action s') :
    s'.cv = s.cv ∨ ∃ inside, action = .cv inside ∧ ConditionVariable.step s.cv inside = some s'.cv := by
  cases effect with
  | get | free => exact .inl rfl
  | call thread call cv may taken => exact .inr ⟨_, rfl, taken⟩
  | run thread cv lock locks taken => exact .inr ⟨_, rfl, taken⟩
  | expire thread cv taken => exact .inr ⟨_, rfl, taken⟩

/-- Everybody inside `Wait` holds the lock or does not, as its place tells. -/
def Held (pc : Thread → Pc) (lock : Mutex Thread) : Prop :=
  ∀ thread b, (pc thread).holdsLock = some b → decide (lock = some thread) = b

/-- Moving one thread, the lock changes for that thread only. -/
theorem Held.update {pc : Thread → Pc} {lock lock' : Mutex Thread} {p : Pc} (held : Held pc lock)
    (mine : ∀ b, p.holdsLock = some b → decide (lock' = some thread) = b)
    (others : ∀ other, other ≠ thread → (lock' = some other ↔ lock = some other)) :
    Held (Function.update pc thread p) lock' := by
  intro other b tells
  by_cases same : other = thread
  · subst same
    rw [Function.update_self] at tells
    exact mine b tells
  · rw [Function.update_of_ne same] at tells
    rw [← held other b tells]
    exact decide_eq_decide.mpr (others other same)

theorem Held.stay {pc : Thread → Pc} {lock : Mutex Thread} {p : Pc} (held : Held pc lock)
    (same : p.holdsLock = none ∨ p.holdsLock = (pc thread).holdsLock) :
    Held (Function.update pc thread p) lock := by
  refine held.update (fun b tells => ?_) fun _ _ => Iff.rfl
  rcases same with nothing | same
  · rw [nothing] at tells
    cases tells
  · exact held thread b (same ▸ tells)

private theorem next_held {cv cv' : ConditionVariable.State Thread} {lock lock' : Mutex Thread}
    (external : cv.lock = true) (held : Held cv.pc lock)
    (locks : lockAfter thread lock (cv.pc thread) = some lock')
    (taken : cv.next thread = some cv') : cv'.lock = true ∧ Held cv'.pc lock' := by
  cases here : cv.pc thread <;> simp only [State.next, here] at taken <;>
    simp only [lockAfter, here] at locks
  case idle => cases taken
  case waitFreeLock =>
    cases taken
    cases locks
    have mine : lock = some thread := by simpa [here, Pc.holdsLock] using held thread
    refine ⟨external, held.update (fun b tells => ?_) fun other different => ?_⟩
    · cases tells
      rfl
    · simp [mine, Ne.symm different]
  case leaveGetLock =>
    cases taken
    obtain ⟨rfl, rfl⟩ := Mutex.lock_eq_some locks
    refine ⟨external, held.update (fun b tells => ?_) fun other different => ?_⟩
    · cases tells
      exact decide_eq_true rfl
    · simp [Ne.symm different]
  case waitGetMtxi | oneGetMtxi | allGetMtxi =>
    cases locks
    obtain ⟨_, _, rfl⟩ := getMtxi_eq_some taken
    exact ⟨external, held.stay (by simp [here, Pc.holdsLock])⟩
  case waitGetMtxd | leaveGetMtxd | allGetMtxd =>
    cases locks
    obtain ⟨_, _, rfl⟩ := getMtxd_eq_some taken
    exact ⟨external, held.stay (by simp [here, Pc.holdsLock])⟩
  case waitSemap | allRend =>
    cases locks
    split at taken
    · cases taken
      exact ⟨external, held.stay (by simp [here, Pc.holdsLock])⟩
    · cases taken
  case leaveFreeMtxd rv rn =>
    cases locks
    cases taken
    refine ⟨external, held.stay (.inr ?_)⟩
    cases rn <;> simp [here, external, Pc.holdsLock]
  case leaveTestCount | oneTest | allRead =>
    cases locks
    cases taken
    refine ⟨external, held.stay ?_⟩
    split <;> simp [here, Pc.holdsLock]
  all_goals
    cases locks
    cases taken
    exact ⟨external, held.stay (by simp [here, external, Pc.holdsLock])⟩

/-- What every run of the monitor keeps. -/
structure Invariant [Fintype Thread] (s : State Thread) : Prop where
  external : s.cv.lock = true
  cv : ConditionVariable.Invariant s.cv
  held : Held s.cv.pc s.lock

theorem Effect.held (effect : Effect s action s') (external : s.cv.lock = true)
    (held : Held s.cv.pc s.lock) : s'.cv.lock = true ∧ Held s'.cv.pc s'.lock := by
  cases effect with
  | get thread outside free =>
    refine ⟨external, fun other b tells => ?_⟩
    have before := held other b tells
    rw [free] at before
    rw [← before]
    refine decide_eq_decide.mpr ⟨fun same => ?_, fun same => by cases same⟩
    cases same
    simp [outside, Pc.holdsLock] at tells
  | free thread outside mine =>
    refine ⟨external, fun other b tells => ?_⟩
    have before := held other b tells
    rw [mine] at before
    rw [← before]
    refine decide_eq_decide.mpr ⟨fun same => (by cases same), fun same => ?_⟩
    cases same
    simp [outside, Pc.holdsLock] at tells
  | call thread call cv may taken =>
    simp only [ConditionVariable.step] at taken
    split at taken
    · rename_i idle
      cases taken
      refine ⟨external, held.update (fun b tells => ?_) fun _ _ => Iff.rfl⟩
      cases call with
      | wait t =>
        cases tells
        exact may
      | wakeOne => cases tells
      | wakeAll => cases tells
    · cases taken
  | run thread cv lock locks taken => exact next_held external held locks taken
  | expire thread cv taken =>
    simp only [ConditionVariable.step] at taken
    split at taken
    · rename_i here
      split at taken
      · cases taken
        exact ⟨external, held.stay (by simp [here, Pc.holdsLock])⟩
      · cases taken
    · cases taken

variable [Fintype Thread]

theorem start_invariant : Invariant (start : State Thread) :=
  ⟨rfl, init_invariant true, fun _ _ tells => by cases tells⟩

theorem step_invariant (inv : Invariant s) (taken : step s action = some s') : Invariant s' := by
  have effect := step_effect taken
  obtain ⟨external, held⟩ := effect.held inv.external inv.held
  rcases effect.cv_step with same | ⟨inside, rfl, moved⟩
  · exact ⟨external, same ▸ inv.cv, held⟩
  · exact ⟨external, ConditionVariable.step_invariant inv.cv moved, held⟩

theorem exec_step_invariant {actions : List (Action Thread)}
    (ran : exec step start actions = some s) : Invariant s :=
  exec_invariant Invariant (fun _ _ _ => step_invariant) start_invariant ran

/-! `Wait` frees the lock and begins to wait as one. -/

omit [Fintype Thread] in
private theorem registered_of_asleep (held : Held s.cv.pc s.lock) (owner : s.lock = some thread)
    (different : other ≠ thread) (asleep : (s.cv.pc other).asleep = true) :
    (s.cv.pc other).registered = true := by
  have tells := held other
  cases here : s.cv.pc other <;> simp [here, Pc.asleep] at asleep
  case waitSemap => rfl
  all_goals
    have mine := tells true (by rw [here]; rfl)
    rw [owner, decide_eq_true_eq] at mine
    exact absurd (Option.some.inj mine).symm different

/-- The step is not the `wait_count--` of the given thread. -/
def NotDecrOf (thread : Thread) (s : State Thread) : Action Thread → Prop
  | .cv action => ConditionVariable.NotDecrOf thread s.cv action
  | .get _ | .free _ => True

instance (thread : Thread) (s : State Thread) : ∀ action, Decidable (NotDecrOf thread s action)
  | .cv action => inferInstanceAs
      (Decidable (action.thread = thread → ∀ rv, s.cv.pc thread ≠ .leaveDecr rv))
  | .get _ | .free _ => inferInstanceAs (Decidable True)

/-- A waker that does not return 0, as long as a waiter is registered. -/
structure Finds (waker waiter : Thread) (cv : ConditionVariable.State Thread) : Prop where
  invariant : ConditionVariable.Invariant cv
  registered : (cv.pc waiter).registered = true
  wakes : (cv.pc waker).wakesNobody = false

private theorem finds_step {cv cv' : ConditionVariable.State Thread} {waker waiter : Thread}
    {inner : ConditionVariable.Action Thread} (finds : Finds waker waiter cv)
    (stays : ConditionVariable.NotDecrOf waiter cv inner)
    (taken : ConditionVariable.step cv inner = some cv') : Finds waker waiter cv' := by
  obtain ⟨inv, inside, wakes⟩ := finds
  obtain ⟨p, goes, effect⟩ := ConditionVariable.step_effect taken
  refine ⟨ConditionVariable.step_invariant inv taken, ?_, ?_⟩
  · rw [goes]
    by_cases same : waiter = inner.thread
    · subst same
      rw [Function.update_self]
      exact effect.registered inside (stays rfl)
    · rwa [Function.update_of_ne same]
  · rw [goes]
    by_cases same : waker = inner.thread
    · subst same
      rw [Function.update_self]
      have registered : 0 < headcount Pc.registered cv.pc := headcount_pos_iff.mpr ⟨waiter, inside⟩
      have counted := inv.counted
      have some : 0 < cv.data.waitCount := by
        change 0 < cv.waitCount
        omega
      exact effect.wakesNobody some wakes
    · rwa [Function.update_of_ne same]

/-- No wake-up is lost between the `Free` of the lock and the wait. Whoever has
got the lock while another thread is inside `Wait` and not yet woken returns at
least 1 from each `WakeOne` and `WakeAll`, until that thread has taken itself
off `wait_count`. -/
theorem wakes_somebody {actions later : List (Action Thread)} {last : State Thread}
    {waker waiter : Thread} (ran : exec step start actions = some s) (owner : s.lock = some waker)
    (different : waiter ≠ waker) (asleep : (s.cv.pc waiter).asleep = true)
    (fresh : (s.cv.pc waker).wakesNobody = false) (stays : Meets step (NotDecrOf waiter) s later)
    (continued : exec step s later = some last) : (last.cv.pc waker).wakesNobody = false := by
  have inv := exec_step_invariant ran
  have registered := registered_of_asleep inv.held owner different asleep
  have finds : Finds waker waiter last.cv := by
    refine exec_invariant_of_meets (fun s : State Thread => Finds waker waiter s.cv)
      (fun s action s' finds fine taken => ?_) ⟨inv.cv, registered, fresh⟩ stays continued
    rcases (step_effect taken).cv_step with same | ⟨inner, rfl, moved⟩
    · rwa [same]
    · exact finds_step finds fine moved
  exact finds.wakes

def lockedRun : List (Action (Fin 2)) :=
  [.get 0, .cv (.call 0 (.wait .infinite))] ++ List.replicate 6 (.cv (.run 0)) ++ [.get 1]

def signalRun : List (Action (Fin 2)) :=
  .cv (.call 1 .wakeOne) :: List.replicate 3 (.cv (.run 1))

theorem wakes_somebody_signalRun : ∃ s last, exec step start lockedRun = some s ∧
    exec step s signalRun = some last ∧ (last.cv.pc 1).wakesNobody = false := by
  obtain ⟨s, ran, owner, asleep, outside⟩ : ∃ s, exec step start lockedRun = some s ∧
      s.lock = some 1 ∧ s.cv.pc 0 = .waitSemap .infinite ∧ s.cv.pc 1 = .idle := by
    have ends : (exec step start lockedRun).map (fun s => (s.lock, s.cv.pc 0, s.cv.pc 1)) =
        some (some 1, .waitSemap .infinite, .idle) := by decide
    simpa [Option.map_eq_some_iff] using ends
  have both : (exec step start (lockedRun ++ signalRun)).isSome := by decide
  obtain ⟨last, whole⟩ := Option.isSome_iff_exists.mp both
  obtain ⟨middle, first, continued⟩ := exec_append_eq_some whole
  cases ran.symm.trans first
  have stays : Meets step (NotDecrOf 0) start (lockedRun ++ signalRun) := by decide
  refine ⟨s, last, ran, continued, ?_⟩
  exact wakes_somebody ran owner (by decide) (by rw [asleep]; rfl) (by rw [outside]; rfl)
    (stays.append ran).2 continued

end Monitor

end Prot.Lock.ConditionVariable
