import Prot.Lock.Event

/-! What a step of the event can do, said once, and what its mutex protects. -/

namespace Prot.Lock.Event

open Concurrency Time

/-- Between `pthread_mutex_lock` and `pthread_mutex_unlock`, the wait on `cond`
left out. -/
def Pc.holds : Pc → Bool
  | .setWrite | .setNotify | .setUnlock | .resetWrite | .resetUnlock => true
  | .waitBranch _ | .waitTest _ | .waitRead | .waitTake _ | .waitUnlock _ => true
  | _ => false

/-- Inside `pthread_cond_wait` or `pthread_cond_timedwait`. -/
def Pc.waits : Pc → Bool
  | .waitBlocked _ => true
  | _ => false

/-- The moves of a thread that touch neither `state` nor `cond`. -/
inductive Silent : Pc → Pc → Prop where
  | call (call : Call) : Silent .idle call.entry
  | setLocked : Silent .setLock .setWrite
  | setUnlocked : Silent .setUnlock .setReturn
  | setReturned : Silent .setReturn .idle
  | resetLocked : Silent .resetLock .resetWrite
  | resetUnlocked : Silent .resetUnlock .resetReturn
  | resetReturned : Silent .resetReturn .idle
  | waitLocked : Silent (.waitLock t) (.waitBranch t)
  | branch : Silent (.waitBranch t) (waitPath t)
  | expired : Silent .waitExpired .waitRead
  | failed : Silent .waitFailed (.waitUnlock false)
  | waitUnlocked : Silent (.waitUnlock rv) (.waitReturn rv)
  | waitReturned : Silent (.waitReturn rv) .idle

/-- The step in which a call on the clock or on `cond` fails. -/
def Action.fails {Thread : Type} : Action Thread → Bool
  | .fail _ => true
  | _ => false

/-- What one step does to `state` and `cond`, with the place its thread leaves
and the place it reaches; the first index says whether a call fails in it. -/
inductive Effect {Thread : Type} [DecidableEq Thread] (manual : Bool) (thread : Thread) :
    Bool → Bool → List Thread → Pc → Bool → List Thread → Pc → Prop where
  | silent (edge : Silent here next) :
      Effect manual thread false v blocked here v blocked next
  | set : Effect manual thread false v blocked .setWrite true blocked .setNotify
  | reset : Effect manual thread false v blocked .resetWrite false blocked .resetUnlock
  | notify (woken : List Thread) (fine : notifies manual blocked woken = true) :
      Effect manual thread false v blocked .setNotify v (blocked.filter (· ∉ woken)) .setUnlock
  | unclocked : Effect manual thread true v blocked (.waitBranch t) v blocked (.waitTake false)
  | pass : Effect manual thread false true blocked (.waitTest timed) true blocked
      (if timed then .waitRead else .waitTake true)
  | block : Effect manual thread false false blocked (.waitTest timed) false (thread :: blocked)
      (.waitBlocked timed)
  | retest (gone : thread ∉ blocked) :
      Effect manual thread false v blocked (.waitBlocked timed) v blocked (.waitTest timed)
  | expire : Effect manual thread false v blocked (.waitBlocked true) v
      (blocked.filter (· ≠ thread)) .waitExpired
  | wake : Effect manual thread false v blocked (.waitBlocked timed) v
      (blocked.filter (· ≠ thread)) (.waitBlocked timed)
  | fail : Effect manual thread true v blocked (.waitBlocked timed) v
      (blocked.filter (· ≠ thread)) .waitFailed
  | read : Effect manual thread false v blocked .waitRead v blocked (.waitTake v)
  | take : Effect manual thread false v blocked (.waitTake ok)
      (if ok && !manual then false else v) blocked (.waitUnlock ok)

variable {Thread : Type} [DecidableEq Thread] {s s' : State Thread} {thread : Thread}
variable {action : Action Thread} {pc : Pc}

theorem lock_eq_some (taken : s.lock thread pc = some s') :
    s.mutex = none ∧ s' = { s with mutex := some thread }.goto thread pc := by
  obtain ⟨mutex, locked, same⟩ := Option.map_eq_some_iff.mp taken
  obtain ⟨free, rfl⟩ := Mutex.lock_eq_some locked
  exact ⟨free, same.symm⟩

/-- A thread's own step, in one of the ways of `Effect`. -/
theorem next_effect (taken : s.next thread = some s') :
    s'.manual = s.manual ∧ ∃ p, s'.pc = Function.update s.pc thread p ∧
      Effect s.manual thread false s.state s.cond (s.pc thread) s'.state s'.cond p := by
  cases here : s.pc thread <;> simp only [State.next, here] at taken
  case idle | setNotify => cases taken
  case setLock | resetLock | waitLock | waitExpired | waitFailed =>
    obtain ⟨_, rfl⟩ := lock_eq_some taken
    exact ⟨rfl, _, rfl, .silent (by constructor)⟩
  case setWrite => cases taken; exact ⟨rfl, _, rfl, .set⟩
  case resetWrite => cases taken; exact ⟨rfl, _, rfl, .reset⟩
  case waitTest timed =>
    split at taken
    · rename_i is
      cases taken
      refine ⟨rfl, _, rfl, ?_⟩
      simp only [State.goto, is]
      exact .pass
    · rename_i is
      cases taken
      refine ⟨rfl, _, rfl, ?_⟩
      simp only [State.goto, State.unlock, Bool.not_eq_true _ ▸ is]
      exact .block
  case waitBlocked =>
    split at taken
    · cases taken
    · rename_i gone
      obtain ⟨_, rfl⟩ := lock_eq_some taken
      exact ⟨rfl, _, rfl, .retest gone⟩
  case waitRead => cases taken; exact ⟨rfl, _, rfl, .read⟩
  case waitTake => cases taken; exact ⟨rfl, _, rfl, .take⟩
  all_goals cases taken; exact ⟨rfl, _, rfl, .silent (by constructor)⟩

/-- A step of the system moves one thread, in one of the ways of `Effect`. -/
theorem step_effect (taken : step s action = some s') :
    s'.manual = s.manual ∧ ∃ p, s'.pc = Function.update s.pc action.thread p ∧
      Effect s.manual action.thread action.fails s.state s.cond (s.pc action.thread)
        s'.state s'.cond p := by
  cases action with
  | call thread call =>
    simp only [step] at taken
    split at taken
    · rename_i idle
      cases taken
      exact ⟨rfl, _, rfl, idle ▸ .silent (.call call)⟩
    · cases taken
  | run thread => exact next_effect taken
  | notify thread woken =>
    simp only [step] at taken
    split at taken
    · rename_i here
      split at taken
      · rename_i fine
        cases taken
        exact ⟨rfl, _, rfl, here ▸ .notify woken fine⟩
      · cases taken
    · cases taken
  | fail thread =>
    simp only [step] at taken
    split at taken
    · rename_i here
      split at taken
      · cases taken
      · cases taken
        exact ⟨rfl, _, rfl, here ▸ .unclocked⟩
    · rename_i here
      cases taken
      exact ⟨rfl, _, rfl, here ▸ .fail⟩
    · cases taken
  | expire thread =>
    simp only [step] at taken
    split at taken
    · rename_i here
      cases taken
      exact ⟨rfl, _, rfl, here ▸ .expire⟩
    · cases taken
  | wake thread =>
    simp only [step] at taken
    split at taken
    · rename_i timed here
      cases taken
      have standing : s.pc (Action.wake thread).thread = .waitBlocked timed := here
      refine ⟨rfl, _, rfl, ?_⟩
      rw [standing]
      exact .wake
    · cases taken

private theorem holds_waitPath (t : TimeUnit) : (waitPath t).holds = true := by
  rw [waitPath]
  split <;> rfl

private theorem next_mutex (locked : Excludes s.mutex Pc.holds s.pc)
    (taken : s.next thread = some s') :
    Excludes s'.mutex Pc.holds s'.pc := by
  cases here : s.pc thread <;> simp only [State.next, here] at taken
  case idle | setNotify => cases taken
  case setLock | resetLock | waitLock | waitExpired | waitFailed =>
    obtain ⟨free, rfl⟩ := lock_eq_some taken
    rw [free] at locked
    exact locked.enter rfl
  case waitBlocked =>
    split at taken
    · cases taken
    · obtain ⟨free, rfl⟩ := lock_eq_some taken
      rw [free] at locked
      exact locked.enter rfl
  case setUnlock | resetUnlock | waitUnlock =>
    cases taken
    exact locked.leave (by rw [here]; rfl) rfl
  case waitTest timed =>
    split at taken
    · cases taken
      exact locked.stay (by rw [here]; cases timed <;> rfl)
    · cases taken
      exact locked.leave (by rw [here]; rfl) rfl
  case waitBranch t =>
    cases taken
    exact locked.stay (by rw [here, holds_waitPath]; rfl)
  all_goals cases taken; exact locked.stay (by rw [here]; rfl)

/-- The holder of the mutex is the thread inside the locked region. -/
theorem step_mutex (locked : Excludes s.mutex Pc.holds s.pc) (taken : step s action = some s') :
    Excludes s'.mutex Pc.holds s'.pc := by
  cases action with
  | call thread call =>
    simp only [step] at taken
    split at taken
    · rename_i idle
      cases taken
      exact locked.stay (by rw [idle]; cases call <;> rfl)
    · cases taken
  | run thread => exact next_mutex locked taken
  | notify thread woken =>
    simp only [step] at taken
    split at taken
    · rename_i here
      split at taken
      · cases taken
        exact locked.stay (by rw [here]; rfl)
      · cases taken
    · cases taken
  | fail thread =>
    simp only [step] at taken
    split at taken
    · rename_i here
      split at taken
      · cases taken
      · cases taken
        exact locked.stay (by rw [here]; rfl)
    · rename_i here
      cases taken
      exact locked.stay (by rw [here]; rfl)
    · cases taken
  | expire thread | wake thread =>
    simp only [step] at taken
    split at taken
    · rename_i here
      cases taken
      exact locked.stay (by simp [here, Pc.holds])
    · cases taken

variable {manual v v' : Bool} {blocked after woken : List Thread} {here next : Pc}

theorem Silent.waits (edge : Silent here next) : here.waits = false ∧ next.waits = false := by
  cases edge with
  | call call => cases call <;> exact ⟨rfl, rfl⟩
  | branch => exact ⟨rfl, by rw [waitPath]; split <;> rfl⟩
  | _ => exact ⟨rfl, rfl⟩

/-- Only threads inside a wait on `cond` are blocked on it. -/
theorem step_allWait (all : AllWait Pc.waits s.cond s.pc) (taken : step s action = some s') :
    AllWait Pc.waits s'.cond s'.pc := by
  obtain ⟨_, p, moved, effect⟩ := step_effect taken
  rw [moved]
  have active (was : (s.pc action.thread).waits = false) (kept : s'.cond ⊆ s.cond) :
      AllWait Pc.waits s'.cond (Function.update s.pc action.thread p) :=
    all.move (fun _ _ member => kept member) fun member => absurd (kept member) (all.notMem was)
  have left (gone : action.thread ∉ s'.cond) (kept : s'.cond ⊆ s.cond) :
      AllWait Pc.waits s'.cond (Function.update s.pc action.thread p) :=
    all.move (fun _ _ member => kept member) fun member => absurd member gone
  generalize here : s.pc action.thread = place, s'.cond = after at effect active left
  generalize s.state = v, s'.state = v', action.fails = fails at effect
  cases effect with
  | silent edge => exact active edge.waits.1 (List.Subset.refl _)
  | notify woken _ => exact active rfl List.filter_sublist.subset
  | block =>
    refine all.move (fun other away member => ?_) fun _ => rfl
    exact (List.mem_cons.mp member).resolve_left away
  | retest gone => exact left gone (List.Subset.refl _)
  | expire | wake | fail => exact left notMem_leave List.filter_sublist.subset
  | _ => exact active rfl (List.Subset.refl _)

end Prot.Lock.Event
