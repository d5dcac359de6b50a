import Prot.Lock.ConditionVariableRendezvous
import Prot.Lock.ConditionVariableTokens

/-! What a `WakeAll` does between its `mtxd.Get` and its return: it wakes the
threads that are registered when it starts, each of them once, and nobody else. -/

namespace Prot.Lock.ConditionVariable

open Concurrency Time

variable {Thread : Type}

/-- Every `Wait` is called with an infinite timeout. -/
def Action.untimed : Action Thread → Bool
  | .call _ (.wait t) => t.infinitely
  | _ => true

/-- The timeout of a `Wait` that has not returned from `semap.Wait`. -/
def Pc.timeout : Pc → Option TimeUnit
  | .waitGetMtxi t | .waitGetMtxd t | .waitIncr t | .waitFreeMtxd t => some t
  | .waitFreeMtxi t | .waitFreeLock t | .waitSemap t => some t
  | _ => none

/-- What a `WakeAll` that has `mtxd` or has given it back will return. -/
def Pc.answers (waitCount : ℤ) : Pc → Option ℤ
  | .allRead => some waitCount
  | .allRaise n | .allPost n | .allFreeMtxd n | .allRend n => some n
  | .allReset n | .allClear n | .allFreeMtxi n => some n
  | .allSkip => some 0
  | _ => none

/-- The tokens it has still to post. -/
def Pc.owes (waitCount : ℤ) : Pc → ℤ
  | .allRead => waitCount
  | .allRaise n | .allPost n => n
  | _ => 0

/-- It has found nobody registered, or has seen them all leave. -/
def Pc.finished : Pc → Bool
  | .allSkip | .allFreeMtxi _ => true
  | _ => false

def registers (s : State Thread) (action : Action Thread) : Option Thread :=
  match s.pc action.thread with
  | .waitIncr _ => some action.thread
  | _ => none

/-- The thread that executes `wait_count--`, with the result of its `semap.Wait`. -/
def unregisters (s : State Thread) (action : Action Thread) : Option (Thread × Bool) :=
  match s.pc action.thread with
  | .leaveDecr rv => some (action.thread, rv)
  | _ => none

def leaves (s : State Thread) (action : Action Thread) : Option Thread :=
  match s.pc action.thread with
  | .waitSemap _ => some action.thread
  | _ => none

/-- The step is not the `mtxi.Free` at the end of the given thread's `WakeAll`. -/
def NotFreeMtxiOf (thread : Thread) (s : State Thread) (action : Action Thread) : Prop :=
  action.thread = thread → ∀ n, s.pc thread ≠ .allFreeMtxi n

instance [DecidableEq Thread] (thread : Thread) (s : State Thread) (action : Action Thread) :
    Decidable (NotFreeMtxiOf thread s action) := by
  unfold NotFreeMtxiOf
  cases s.pc thread with
  | allFreeMtxi n =>
    exact decidable_of_iff (action.thread ≠ thread) ⟨fun other own => absurd own other,
      fun never own => never own n rfl⟩
  | _ => exact .isTrue fun _ _ => nofun

/-- What a run without timeouts knows: no `Wait` gives up, and a `WakeAll` that
has found or seen nobody registered is right. -/
structure Untimed (s : State Thread) : Prop where
  timeout : ∀ t u, (s.pc t).timeout = some u → u.infinitely = true
  result : ∀ t, (s.pc t).result ≠ some false
  finished : ∀ t, (s.pc t).finished = true → s.waitCount = 0

variable [DecidableEq Thread] [Fintype Thread] {s s' : State Thread} {action : Action Thread}
variable {d d' : Data} {here next : Pc}

theorem Effect.timeout (effect : Effect d here d' next) (busy : here ≠ .idle) {u : TimeUnit}
    (asks : next.timeout = some u) : here.timeout = some u := by
  cases effect with
  | silent edge =>
    cases edge with
    | call => exact absurd rfl busy
    | waitFreedMtxi lock => cases lock <;> exact asks
    | @leaveFreedMtxd rv rn lock => cases rn <;> cases lock <;> cases asks
    | _ => exact asks
  | set lock => cases lock <;> cases asks
  | _ => first | exact asks | cases asks

private theorem Effect.result_false (effect : Effect d here d' next)
    (infinite : ∀ u, here.timeout = some u → u.infinitely = true)
    (result : next.result = some false) : here.result = some false := by
  cases effect with
  | silent edge =>
    cases edge with
    | call call => cases call <;> cases result
    | waitFreedMtxi lock => cases lock <;> cases result
    | @leaveFreedMtxd rv rn lock => cases rn <;> cases lock <;> exact result
    | _ => first | exact result | cases result
  | set lock => cases lock <;> exact result
  | expire _ finite => cases (infinite _ rfl).symm.trans finite
  | _ => first | exact result | cases result

theorem Effect.finished (effect : Effect d here d' next)
    (emptied : here.role = .clearing → d.waitCount = 0)
    (before : here.finished = true → d.waitCount = 0) (finished : next.finished = true) :
    d'.waitCount = 0 := by
  cases effect with
  | silent edge =>
    cases edge with
    | call call => cases call <;> cases finished
    | waitFreedMtxi lock => cases lock <;> cases finished
    | @leaveFreedMtxd rv rn lock => cases rn <;> cases lock <;> cases finished
    | allSkipped => exact before rfl
    | _ => cases finished
  | set lock => cases lock <;> cases finished
  | skip none => exact none
  | clear => exact emptied rfl
  | _ => cases finished

private theorem Pc.holdsMtxi_of_finished {p : Pc} (finished : p.finished = true) :
    p.holdsMtxi = true := by
  cases p <;> first | rfl | cases finished

private theorem Effect.waitCount_zero (effect : Effect d here d' next)
    (outside : here.holdsMtxi = false)
    (counted : here.registered = true → d.waitCount ≠ 0) (zero : d.waitCount = 0) :
    d'.waitCount = 0 := by
  cases effect with
  | incr => cases outside
  | decr => exact absurd zero (counted rfl)
  | _ => exact zero

omit [DecidableEq Thread] in
private theorem waitCount_ne_zero (inv : Invariant s) {t : Thread}
    (inside : (s.pc t).registered = true) :
    s.waitCount ≠ 0 := by
  have some : 0 < headcount Pc.registered s.pc := headcount_pos_iff.mpr ⟨t, inside⟩
  have counted := inv.counted
  omega

omit [Fintype Thread] in
private theorem call_timeout {u : TimeUnit} (untimed : action.untimed = true)
    (taken : step s action = some s') (idle : s.pc action.thread = .idle)
    (asks : (s'.pc action.thread).timeout = some u) : u.infinitely = true := by
  cases action with
  | call thread call =>
    simp only [step] at taken
    split at taken
    · cases taken
      simp only [Action.thread, State.goto, Function.update_self] at asks
      cases call with
      | wait t =>
        cases asks
        exact untimed
      | _ => cases asks
    · cases taken
  | run thread =>
    have here : s.pc thread = .idle := idle
    simp [step, State.next, here] at taken
  | expire thread =>
    have here : s.pc thread = .idle := idle
    simp [step, here] at taken

omit [Fintype Thread] in
theorem step_timeout (before : ∀ t u, (s.pc t).timeout = some u → u.infinitely = true)
    (untimed : action.untimed = true) (taken : step s action = some s') :
    ∀ t u, (s'.pc t).timeout = some u → u.infinitely = true := by
  obtain ⟨p, moved, effect⟩ := step_effect taken
  intro t u asks
  by_cases same : t = action.thread
  · subst same
    by_cases idle : s.pc action.thread = .idle
    · exact call_timeout untimed taken idle asks
    · rw [moved, Function.update_self] at asks
      exact before _ u (effect.timeout idle asks)
  · rw [moved, Function.update_of_ne same] at asks
    exact before t u asks

theorem step_untimed (inv : Invariant s) (rend : Rendezvous s.data (roster s.pc))
    (before : Untimed s) (untimed : action.untimed = true) (taken : step s action = some s') :
    Untimed s' := by
  obtain ⟨p, moved, effect⟩ := step_effect taken
  have mine : s'.pc action.thread = p := by rw [moved, Function.update_self]
  have others (t : Thread) (away : t ≠ action.thread) : s'.pc t = s.pc t := by
    rw [moved, Function.update_of_ne away]
  refine ⟨step_timeout before.timeout untimed taken, fun t result => ?_, fun t finished => ?_⟩
  · by_cases same : t = action.thread
    · subst same
      rw [mine] at result
      exact before.result _ (effect.result_false (before.timeout _) result)
    · rw [others t same] at result
      exact before.result t result
  · by_cases same : t = action.thread
    · subst same
      rw [mine] at finished
      refine effect.finished (fun clearing => ?_) (before.finished _) finished
      have present : 0 < roster s.pc .clearing := roster_pos clearing
      exact rend.emptied (by omega)
    · rw [others t same] at finished
      have outside : (s.pc action.thread).holdsMtxi = false := by
        by_contra inside
        exact same (inv.mtxi.unique (Pc.holdsMtxi_of_finished finished) (by simpa using inside))
      exact effect.waitCount_zero outside (waitCount_ne_zero inv) (before.finished t finished)

omit [DecidableEq Thread] [Fintype Thread] in
theorem init_untimed (lock : Bool) : Untimed (init lock : State Thread) :=
  ⟨nofun, fun _ => nofun, nofun⟩

/-- A thread inside a `WakeAll` that will return `n`. -/
structure Waking (w : Thread) (n : ℤ) (s : State Thread) : Prop where
  inv : Invariant s
  rend : Rendezvous s.data (roster s.pc)
  untimed : Untimed s
  answers : (s.pc w).answers s.waitCount = some n

/-- The steps of a run without timeouts and refused posts, up to the return of
the `WakeAll` of the given thread. -/
def Within (w : Thread) (s : State Thread) (action : Action Thread) : Prop :=
  action.untimed = true ∧ PostsAccepted s action ∧ NotFreeMtxiOf w s action

private theorem Pc.holdsMtxi_of_answers {p : Pc} {c n : ℤ} (answers : p.answers c = some n) :
    p.holdsMtxi = true := by
  cases p <;> first | rfl | cases answers

private theorem Pc.answers_of_unlocked {p : Pc} (c c' : ℤ) (unlocked : p.holdsMtxd = false) :
    p.answers c = p.answers c' ∧ p.owes c = p.owes c' := by
  cases p <;> first | exact ⟨rfl, rfl⟩ | cases unlocked

theorem Effect.answers (effect : Effect d here d' next) {n : ℤ}
    (answers : here.answers d.waitCount = some n) (stays : ∀ k, here ≠ .allFreeMtxi k) :
    next.answers d'.waitCount = some n := by
  cases effect with
  | silent edge =>
    cases edge with
    | call call => cases answers
    | allFreedMtxi => exact absurd rfl (stays _)
    | _ => first | exact answers | cases answers
  | skip none =>
    rw [none] at answers
    exact answers
  | _ => first | exact answers | cases answers

variable {w : Thread} {n : ℤ}

omit [DecidableEq Thread] in
/-- While a `WakeAll` is on its way no other thread is inside `mtxi`. -/
theorem Waking.outside (waking : Waking w n s) (other : action.thread ≠ w) :
    (s.pc action.thread).holdsMtxi = false := by
  by_contra inside
  exact other (waking.inv.mtxi.unique (by simpa using inside)
    (Pc.holdsMtxi_of_answers waking.answers))

/-- What another thread does changes neither the answer nor what is still to be posted. -/
theorem Waking.others (waking : Waking w n s) (other : action.thread ≠ w)
    (taken : step s action = some s') : s'.pc w = s.pc w ∧
      (s.pc w).answers s'.waitCount = (s.pc w).answers s.waitCount ∧
      (s.pc w).owes s'.waitCount = (s.pc w).owes s.waitCount := by
  obtain ⟨p, moved, effect⟩ := step_effect taken
  refine ⟨by rw [moved, Function.update_of_ne (Ne.symm other)], ?_⟩
  by_cases locked : (s.pc w).holdsMtxd = true
  · have unlocked : (s.pc action.thread).holdsMtxd = false := by
      by_contra inside
      exact other (waking.inv.mtxd.unique (by simpa using inside) locked)
    have same : s'.waitCount = s.waitCount := effect.waitCount_eq unlocked
    rw [same]
    exact ⟨rfl, rfl⟩
  · exact Pc.answers_of_unlocked _ _ (by simpa using locked)

private theorem waking_step (waking : Waking w n s) (within : Within w s action)
    (taken : step s action = some s') : Waking w n s' := by
  obtain ⟨untimed, accepted, stays⟩ := within
  refine ⟨step_invariant waking.inv taken, step_rendezvous waking.inv waking.rend accepted taken,
    step_untimed waking.inv waking.rend waking.untimed untimed taken, ?_⟩
  by_cases own : action.thread = w
  · obtain ⟨p, moved, effect⟩ := step_effect taken
    subst own
    rw [moved, Function.update_self]
    exact effect.answers waking.answers (stays rfl)
  · obtain ⟨place, answer, _⟩ := waking.others own taken
    rw [place, answer]
    exact waking.answers

/-- Nobody registers while a `WakeAll` is on its way. -/
theorem Waking.registers (waking : Waking w n s) : registers s action = none := by
  unfold ConditionVariable.registers
  split
  · rename_i t here
    by_cases own : action.thread = w
    · have answers := waking.answers
      rw [← own, here] at answers
      cases answers
    · have outside := waking.outside own
      rw [here] at outside
      cases outside
  · rfl

private theorem Waking.not_incr (waking : Waking w n s) (u : TimeUnit) :
    s.pc action.thread ≠ .waitIncr u := by
  intro here
  have none : ConditionVariable.registers s action = none := waking.registers
  simp [ConditionVariable.registers, here] at none

private theorem Effect.registered_eq (effect : Effect d here d' next)
    (incr : ∀ u, here ≠ .waitIncr u)
    (decr : ∀ rv, here ≠ .leaveDecr rv) : next.registered = here.registered := by
  cases effect with
  | silent edge => rw [Pc.registered, Pc.waiting, Pc.leaving, edge.role]; rfl
  | set lock => cases lock <;> rfl
  | testFlags => cases flags : d.waitFlags <;> rfl
  | incr => exact absurd rfl (incr _)
  | decr => exact absurd rfl (decr _)
  | _ => rfl

theorem Effect.waiting_eq (effect : Effect d here d' next) (incr : ∀ u, here ≠ .waitIncr u)
    (stays : ∀ u, here ≠ .waitSemap u) : next.waiting = here.waiting := by
  cases effect with
  | silent edge => rw [Pc.waiting, edge.role]; rfl
  | set lock => cases lock <;> rfl
  | testFlags => cases flags : d.waitFlags <;> rfl
  | incr => exact absurd rfl (incr _)
  | take | expire => exact absurd rfl (stays _)
  | _ => rfl

private theorem Effect.of_decr {rv : Bool} (effect : Effect d (.leaveDecr rv) d' next) :
    next = .leaveTestCount rv := by
  cases effect with
  | silent edge => cases edge
  | decr => rfl

private theorem Effect.of_waitSemap {u : TimeUnit} (effect : Effect d (.waitSemap u) d' next)
    (infinite : u.infinitely = true) :
    next = .leaveGetMtxd true ∧ d'.semap = d.semap - 1 := by
  cases effect with
  | silent edge => cases edge
  | take => exact ⟨rfl, rfl⟩
  | expire _ finite => cases infinite.symm.trans finite

omit [Fintype Thread] in
/-- A property of places that a step changes for its own thread at most. -/
theorem mark_eq (mark : Pc → Bool) {p : Pc} (moved : s'.pc = Function.update s.pc action.thread p)
    (same : mark p = mark (s.pc action.thread)) (t : Thread) :
    mark (s'.pc t) = mark (s.pc t) := by
  rw [moved]
  by_cases own : t = action.thread
  · subst own
    rw [Function.update_self, same]
  · rw [Function.update_of_ne own]

omit [Fintype Thread] in
private theorem mark_update (mark : Pc → Bool) {p : Pc}
    (moved : s'.pc = Function.update s.pc action.thread p) (off : mark p = false) :
    (fun t => mark (s'.pc t)) = Function.update (fun t => mark (s.pc t)) action.thread false := by
  funext t
  rw [moved]
  by_cases own : t = action.thread
  · subst own
    rw [Function.update_self, Function.update_self, off]
  · rw [Function.update_of_ne own, Function.update_of_ne own]

/-- The threads registered with a `Wait` that is going to return `rv`. -/
def registeredWith (s : State Thread) (mark : Thread × Bool) : Bool :=
  (s.pc mark.1).registered && mark.2

private theorem unregisters_silent (waking : Waking w n s) (taken : step s action = some s')
    (none : unregisters s action = none) : registeredWith s' = registeredWith s := by
  obtain ⟨p, moved, effect⟩ := step_effect taken
  have decr (rv : Bool) : s.pc action.thread ≠ .leaveDecr rv := by
    intro here
    simp [unregisters, here] at none
  funext ⟨t, rv⟩
  have same := mark_eq Pc.registered moved (effect.registered_eq waking.not_incr decr) t
  simp only [registeredWith, same]

private theorem unregisters_drains (waking : Waking w n s) (taken : step s action = some s')
    {event : Thread × Bool} (shown : unregisters s action = some event) :
    registeredWith s event = true ∧
      registeredWith s' = Function.update (registeredWith s) event false := by
  obtain ⟨p, moved, effect⟩ := step_effect taken
  unfold unregisters at shown
  split at shown
  · rename_i rv here
    cases shown
    rw [here] at effect
    have success : rv = true := by
      have result := waking.untimed.result action.thread
      rw [here] at result
      cases rv with
      | false => exact absurd rfl result
      | true => rfl
    subst success
    have off : p.registered = false := by rw [effect.of_decr]; rfl
    refine ⟨by rw [registeredWith, here]; rfl, ?_⟩
    have marks := mark_update Pc.registered moved off
    funext ⟨t, rv⟩
    have mine : (s'.pc t).registered =
        Function.update (fun t => (s.pc t).registered) action.thread false t := congrFun marks t
    rw [registeredWith, mine]
    by_cases own : t = action.thread
    · subst own
      cases rv <;> simp [registeredWith]
    · simp [registeredWith, own]
  · cases shown

private theorem leaves_silent (waking : Waking w n s) (taken : step s action = some s')
    (none : leaves s action = none) :
    (fun t => (s'.pc t).waiting) = fun t => (s.pc t).waiting := by
  obtain ⟨p, moved, effect⟩ := step_effect taken
  have stays (u : TimeUnit) : s.pc action.thread ≠ .waitSemap u := by
    intro here
    simp [leaves, here] at none
  funext t
  exact mark_eq Pc.waiting moved (effect.waiting_eq waking.not_incr stays) t

private theorem leaves_drains (waking : Waking w n s) (taken : step s action = some s') {t : Thread}
    (shown : leaves s action = some t) : (s.pc t).waiting = true ∧
      (fun t => (s'.pc t).waiting) = Function.update (fun t => (s.pc t).waiting) t false := by
  obtain ⟨p, moved, effect⟩ := step_effect taken
  unfold leaves at shown
  split at shown
  · rename_i u here
    cases shown
    have infinite := waking.untimed.timeout action.thread u (by rw [here]; rfl)
    rw [here] at effect
    obtain ⟨rfl, _⟩ := effect.of_waitSemap infinite
    exact ⟨by rw [here]; rfl, mark_update Pc.waiting moved rfl⟩
  · cases shown

/-- The `WakeAll` posts what it owes. -/
theorem Effect.owes (effect : Effect d here d' next) (answers : here.answers d.waitCount = some n)
    (accepted : ∀ k, here = .allPost k → 0 < k ∧ d.semap + k ≤ maximumCount) :
    d'.semap + next.owes d'.waitCount = d.semap + here.owes d.waitCount := by
  cases effect with
  | silent edge => cases edge <;> first | rfl | cases answers
  | skip none =>
    simp only [Pc.owes]
    omega
  | @wakeAll d k =>
    obtain ⟨positive, fits⟩ := accepted k rfl
    simp only [Pc.owes, post_accepted positive fits]
    omega
  | _ => first | rfl | cases answers

private theorem Effect.semap_eq (effect : Effect d here d' next) (one : here ≠ .onePost)
    (all : ∀ k, here ≠ .allPost k) (stays : ∀ u, here ≠ .waitSemap u) : d'.semap = d.semap := by
  cases effect with
  | take => exact absurd rfl (stays _)
  | wakeOne => exact absurd rfl one
  | wakeAll => exact absurd rfl (all _)
  | _ => rfl

/-- The steps that post no token. -/
def NoPost (s : State Thread) (action : Action Thread) : Prop :=
  s.pc action.thread ≠ .onePost ∧ ∀ n, s.pc action.thread ≠ .allPost n

instance (s : State Thread) (action : Action Thread) : Decidable (NoPost s action) :=
  decidable_of_iff ((match s.pc action.thread with
    | .onePost | .allPost _ => true
    | _ => false) = false) (by unfold NoPost; cases s.pc action.thread <;> simp)

omit [Fintype Thread] in
/-- Without a post each return from `semap.Wait` takes one token. -/
theorem leaves_pays (timeout : ∀ t u, (s.pc t).timeout = some u → u.infinitely = true)
    (quiet : NoPost s action) (taken : step s action = some s') :
    s'.semap + (leaves s action).toList.length = s.semap := by
  obtain ⟨p, moved, effect⟩ := step_effect taken
  cases shown : leaves s action with
  | none =>
    have stays (u : TimeUnit) : s.pc action.thread ≠ .waitSemap u := by
      intro here
      simp [leaves, here] at shown
    have same : s'.semap = s.semap := effect.semap_eq quiet.1 quiet.2 stays
    rw [same]
    exact add_zero _
  | some t =>
    unfold leaves at shown
    split at shown
    · rename_i u here
      have infinite := timeout action.thread u (by rw [here]; rfl)
      rw [here] at effect
      have less : s'.semap = s.semap - 1 := (effect.of_waitSemap infinite).2
      simp only [Option.toList_some, List.length_singleton]
      omega
    · cases shown

private theorem waking_pays (waking : Waking w n s) (accepted : PostsAccepted s action)
    (taken : step s action = some s') :
    s'.semap + (s'.pc w).owes s'.waitCount + (leaves s action).toList.length =
      s.semap + (s.pc w).owes s.waitCount := by
  obtain ⟨p, moved, effect⟩ := step_effect taken
  by_cases own : action.thread = w
  · subst own
    have answers := waking.answers
    have stays : leaves s action = none := by
      unfold leaves
      split
      · rename_i here
        rw [here] at answers
        cases answers
      · rfl
    have room (k : ℤ) (here : s.pc action.thread = .allPost k) :
        0 < k ∧ s.semap + k ≤ maximumCount := by
      obtain ⟨equal, nonzero⟩ := waking.inv.toPost _ k (by rw [here]; rfl)
      have counted := waking.inv.counted
      exact ⟨by omega, by simpa [PostsAccepted, here] using accepted⟩
    have posted := effect.owes answers room
    simp only [State.data] at posted
    rw [stays, moved, Function.update_self, posted]
    exact add_zero _
  · obtain ⟨place, _, owes⟩ := waking.others own taken
    have outside := waking.outside own
    have quiet : NoPost s action := by
      constructor
      · intro here
        rw [here] at outside
        cases outside
      · intro k here
        rw [here] at outside
        cases outside
    have paid := leaves_pays waking.untimed.timeout quiet taken
    rw [place, owes]
    omega

omit [DecidableEq Thread] in
private theorem nobody_registered (inv : Invariant s) (zero : s.waitCount = 0) (t : Thread) :
    (s.pc t).registered = false := by
  by_contra inside
  exact waitCount_ne_zero inv (by simpa using inside) zero

omit [DecidableEq Thread] in
private theorem waiting_false {p : Pc} (outside : p.registered = false) : p.waiting = false := by
  unfold Pc.registered at outside
  exact (Bool.or_eq_false_iff.mp outside).1

theorem exec_untimed {lock : Bool} {actions : List (Action Thread)}
    (untimed : ∀ action ∈ actions, action.untimed = true)
    (accepted : Meets step PostsAccepted (init lock) actions)
    (ran : exec step (init lock) actions = some s) :
    Invariant s ∧ Rendezvous s.data (roster s.pc) ∧ Untimed s := by
  have quiet : Meets step (fun _ (action : Action Thread) => action.untimed = true)
      (init lock) actions := .of_forall untimed
  refine exec_invariant_of_meets
    (fun s => Invariant s ∧ Rendezvous s.data (roster s.pc) ∧ Untimed s) ?_
    ⟨init_invariant lock, init_rendezvous lock, init_untimed lock⟩ (quiet.and accepted) ran
  rintro s action s' ⟨inv, rend, before⟩ ⟨untimed, accepted⟩ taken
  exact ⟨step_invariant inv taken, step_rendezvous inv rend accepted taken,
    step_untimed inv rend before untimed taken⟩

/-- A `WakeAll` that returns `n` has woken the `n` threads that were registered
when it read `wait_count`, each of them once and nobody else. -/
theorem wakeAll_releases {lock : Bool} {before during : List (Action Thread)} {s₀ s₁ : State Thread}
    (untimed : ∀ action ∈ before ++ during, action.untimed = true)
    (accepted : Meets step PostsAccepted (init lock) (before ++ during))
    (reached : exec step (init lock) before = some s₀) (reads : s₀.pc w = .allRead)
    (same : Meets step (NotFreeMtxiOf w) s₀ during) (ran : exec step s₀ during = some s₁)
    (returns : s₁.pc w = .allFreeMtxi n) :
    n = headcount Pc.registered s₀.pc ∧ (∀ t, (s₁.pc t).registered = false) ∧
    trace step registers s₀ during = [] ∧
    (trace step unregisters s₀ during).Nodup ∧
    (∀ t rv, (t, rv) ∈ trace step unregisters s₀ during ↔
      (s₀.pc t).registered = true ∧ rv = true) ∧
    (trace step leaves s₀ during).Nodup ∧
    (∀ t, t ∈ trace step leaves s₀ during ↔ (s₀.pc t).waiting = true) ∧
    s₁.semap = s₀.semap + n - (trace step leaves s₀ during).length := by
  obtain ⟨early, late⟩ := accepted.append reached
  obtain ⟨inv, rend, quiet⟩ :=
    exec_untimed (fun action member => untimed action (List.mem_append_left _ member)) early reached
  have start : Waking w s₀.waitCount s₀ := ⟨inv, rend, quiet, by rw [reads]; rfl⟩
  have silent : Meets step (fun _ (action : Action Thread) => action.untimed = true) s₀ during :=
    .of_forall fun action member => untimed action (List.mem_append_right _ member)
  have within : Meets step (Within w) s₀ during := silent.and (late.and same)
  have kept : ∀ s action s', Waking w s₀.waitCount s → Within w s action →
      step s action = some s' → Waking w s₀.waitCount s' := fun _ _ _ => waking_step
  have last : Waking w s₀.waitCount s₁ :=
    exec_invariant_of_meets (Waking w s₀.waitCount) kept start within ran
  have answer : n = s₀.waitCount := by
    have answers := last.answers
    rw [returns] at answers
    exact Option.some.inj answers
  have gone : ∀ t, (s₁.pc t).registered = false :=
    nobody_registered last.inv (last.untimed.finished w (by rw [returns]; rfl))
  have unmarked : ∀ mark, registeredWith s₁ mark = false := fun ⟨t, rv⟩ => by
    simp [registeredWith, gone t]
  have drained : ∀ t, (fun t => (s₁.pc t).waiting) t = false := fun t => waiting_false (gone t)
  obtain ⟨once, released⟩ := trace_drains (Waking w s₀.waitCount) kept
    (fun _ _ _ waking _ taken none => unregisters_silent waking taken none)
    (fun _ _ _ _ waking _ taken shown => unregisters_drains waking taken shown)
    start within ran unmarked
  obtain ⟨onceLeft, left⟩ := trace_drains (Waking w s₀.waitCount) kept
    (fun _ _ _ waking _ taken none => leaves_silent waking taken none)
    (fun _ _ _ _ waking _ taken shown => leaves_drains waking taken shown)
    start within ran drained
  have nobody : trace step registers s₀ during = [] :=
    trace_eq_nil (Waking w s₀.waitCount) kept (fun _ _ _ waking _ _ => waking.registers)
      start within ran
  have paid : (s₁.semap + (s₁.pc w).owes s₁.waitCount) + (trace step leaves s₀ during).length =
      s₀.semap + (s₀.pc w).owes s₀.waitCount :=
    trace_length (Waking w s₀.waitCount) kept
      (fun _ _ _ waking within taken => waking_pays waking within.2.1 taken) start within ran
  refine ⟨answer.trans inv.counted, gone, nobody, once, fun t rv => ?_, onceLeft, left, ?_⟩
  · rw [released, registeredWith, Bool.and_eq_true]
  · rw [returns, reads] at paid
    simp only [Pc.owes] at paid
    omega

def waitingRun : List (Action (Fin 2)) :=
  .call 0 (.wait .infinite) :: List.replicate 5 (.run 0) ++
    .call 1 .wakeAll :: List.replicate 2 (.run 1)

def wakingRun : List (Action (Fin 2)) :=
  List.replicate 4 (.run 1) ++ List.replicate 7 (.run 0) ++ List.replicate 3 (.run 1)

theorem wakeAll_releases_wakingRun : ∃ s₀ s₁, exec step (init false) waitingRun = some s₀ ∧
    exec step s₀ wakingRun = some s₁ ∧ s₁.pc 1 = .allFreeMtxi 1 ∧
    headcount Pc.registered s₀.pc = 1 ∧ trace step registers s₀ wakingRun = [] ∧
    ∀ t, t ∈ trace step leaves s₀ wakingRun ↔ (s₀.pc t).waiting = true := by
  have first : (exec step (init false) waitingRun).map (fun s => s.pc 1) = some .allRead := by decide
  obtain ⟨s₀, reached, reads⟩ := Option.map_eq_some_iff.mp first
  have second : (exec step (init false) (waitingRun ++ wakingRun)).map (fun s => s.pc 1) =
      some (.allFreeMtxi 1) := by decide
  obtain ⟨s₁, whole, returns⟩ := Option.map_eq_some_iff.mp second
  obtain ⟨middle, same, ran⟩ := exec_append_eq_some whole
  cases reached.symm.trans same
  have stays : Meets step (NotFreeMtxiOf 1) s₀ wakingRun := by
    have all : Meets step (NotFreeMtxiOf 1) (init false) (waitingRun ++ wakingRun) := by decide
    exact (all.append reached).2
  obtain ⟨count, _, nobody, _, _, _, left, _⟩ :=
    wakeAll_releases (by decide) (by decide) reached reads stays ran returns
  exact ⟨s₀, s₁, reached, ran, returns, by omega, nobody, left⟩

end Prot.Lock.ConditionVariable
