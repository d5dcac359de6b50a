import Prot.Lock.Semaphore

/-! What a step of the semaphore can do, said once, and what its lock protects. -/

namespace Prot.Lock.Semaphore

open Concurrency Time

/-- Between `pthread_mutex_lock` and `pthread_mutex_unlock`, the wait on
`l_cond` left out. -/
def Pc.holds : Pc → Bool
  | .tryTest _ | .tryUnlock _ _ | .waitTest _ | .waitUnlock _ => true
  | .postTest _ | .postAdd _ _ _ | .postNotify _ _ _ | .postUndo _ _ _ | .postUnlock _ _ => true
  | _ => false

/-- The counter, its limit and the results that have been returned. -/
structure Data where
  current : Int32
  maximum : Int32
  posted : ℤ
  waited : ℤ

/-- The moves of a thread that leave the data alone. -/
inductive Silent : Pc → Pc → Prop where
  | call (call : Call) : Silent .idle call.entry
  | clock (answered : Bool) : Silent (.waitClock t) (waitPath t answered)
  | tryLocked : Silent (.tryLock left) (.tryTest left)
  | tryUnlocked : Silent (.tryUnlock left got) (afterTry left got)
  | polled : Silent (.pollLoop left) (if 0 < left then .tryLock (some left) else .waitReturn false)
  | waitLocked : Silent (.waitLock timed) (.waitTest timed)
  | woken : Silent (.waitBlocked timed) (.waitTest timed)
  | spurious : Silent (.waitBlocked timed) (.waitBlocked timed)
  | gaveUp : Silent (.waitBlocked timed) .waitRelock
  | relocked : Silent .waitRelock (.waitUnlock false)
  | waitUnlocked : Silent (.waitUnlock rv) (.waitReturn rv)
  | postLocked : Silent (.postLock n) (.postTest n)
  | postUnlocked : Silent (.postUnlock n passed) (.postReturn n passed)
  | setMaxReturned : Silent (.setMaxReturn rv) .idle
  | currentReturned : Silent (.currentReturn c) .idle

/-- What one step does to the data, with the place its thread leaves and the
place it reaches. -/
inductive Effect : Data → Pc → Data → Pc → Prop where
  | silent (edge : Silent here next) : Effect d here d next
  | tryTake (some : d.current ≠ 0) :
      Effect d (.tryTest left) { d with current := d.current - 1 } (.tryUnlock left true)
  | tryNone (none : d.current = 0) : Effect d (.tryTest left) d (.tryUnlock left false)
  | take (some : d.current ≠ 0) :
      Effect d (.waitTest timed) { d with current := d.current - 1 } (.waitUnlock true)
  | block (none : d.current = 0) : Effect d (.waitTest timed) d (.waitBlocked timed)
  | waited : Effect d (.waitReturn rv)
      { d with waited := if rv then d.waited + 1 else d.waited } .idle
  | refuse (nothing : n ≤ 0) : Effect d (.postReadCurrent n) d (.postReturn n none)
  | readCurrent (some : 0 < n) :
      Effect d (.postReadCurrent n) d (.postReadMaximum n d.current)
  | exceeds (above : d.maximum < c + n) : Effect d (.postReadMaximum n c) d (.postReturn n none)
  | under (within : c + n ≤ d.maximum) : Effect d (.postReadMaximum n c) d (.postLock n)
  | pass (within : d.current + n ≤ d.maximum) :
      Effect d (.postTest n) d (.postAdd n d.current d.maximum)
  | full (above : d.maximum < d.current + n) : Effect d (.postTest n) d (.postUnlock n none)
  | add : Effect d (.postAdd n c m) { d with current := d.current + n } (.postNotify n c m)
  | notify : Effect d (.postNotify n c m) d (.postUnlock n (some (c, m)))
  | failNotify : Effect d (.postNotify n c m) d (.postUndo n c m)
  | undo : Effect d (.postUndo n c m) { d with current := d.current - n } (.postUnlock n none)
  | posted : Effect d (.postReturn n passed)
      { d with posted := if passed.isSome then d.posted + n.toInt else d.posted } .idle
  | setMax (positive : 0 < i) (within : i ≤ maximumCount) :
      Effect d (.setMaxWrite i) { d with maximum := i } (.setMaxReturn true)
  | badMax : Effect d (.setMaxWrite i) d (.setMaxReturn false)
  | readValue : Effect d .currentRead d (.currentReturn d.current)

variable {Thread : Type} [DecidableEq Thread] {s s' : State Thread} {thread : Thread}
variable {action : Action Thread}

def State.data (s : State Thread) : Data := ⟨s.current, s.maximum, s.posted, s.waited⟩

theorem lock_eq_some {pc : Pc} (taken : s.lock thread pc = some s') :
    s.mtx = none ∧ s' = { s with mtx := some thread }.goto thread pc := by
  obtain ⟨mtx, locked, same⟩ := Option.map_eq_some_iff.mp taken
  obtain ⟨free, rfl⟩ := Mutex.lock_eq_some locked
  exact ⟨free, same.symm⟩

/-- A thread's own step moves only that thread, in one of the ways of `Effect`. -/
theorem next_effect (taken : s.next thread = some s') :
    ∃ p, s'.pc = Function.update s.pc thread p ∧ Effect s.data (s.pc thread) s'.data p := by
  cases here : s.pc thread <;> simp only [State.next, here] at taken
  case idle | postNotify => cases taken
  case waitClock => cases taken; exact ⟨_, rfl, .silent (.clock true)⟩
  case tryLock =>
    obtain ⟨_, rfl⟩ := lock_eq_some taken
    exact ⟨_, rfl, .silent .tryLocked⟩
  case tryTest =>
    split at taken
    · rename_i some
      cases taken
      exact ⟨_, rfl, .tryTake some⟩
    · rename_i none
      cases taken
      exact ⟨_, rfl, .tryNone (not_not.mp none)⟩
  case tryUnlock => cases taken; exact ⟨_, rfl, .silent .tryUnlocked⟩
  case pollLoop => cases taken; exact ⟨_, rfl, .silent .polled⟩
  case waitLock =>
    obtain ⟨_, rfl⟩ := lock_eq_some taken
    exact ⟨_, rfl, .silent .waitLocked⟩
  case waitTest =>
    split at taken
    · rename_i some
      cases taken
      exact ⟨_, rfl, .take some⟩
    · rename_i none
      cases taken
      exact ⟨_, rfl, .block (not_not.mp none)⟩
  case waitBlocked =>
    split at taken
    · cases taken
    · obtain ⟨_, rfl⟩ := lock_eq_some taken
      exact ⟨_, rfl, .silent .woken⟩
  case waitRelock =>
    obtain ⟨_, rfl⟩ := lock_eq_some taken
    exact ⟨_, rfl, .silent .relocked⟩
  case waitUnlock => cases taken; exact ⟨_, rfl, .silent .waitUnlocked⟩
  case waitReturn => cases taken; exact ⟨_, rfl, .waited⟩
  case postReadCurrent =>
    cases taken
    refine ⟨_, rfl, ?_⟩
    split
    · rename_i nothing
      exact .refuse nothing
    · rename_i some
      exact .readCurrent (Int32.not_le.mp some)
  case postReadMaximum =>
    cases taken
    refine ⟨_, rfl, ?_⟩
    split
    · rename_i above
      exact .exceeds above
    · rename_i within
      exact .under (Int32.not_lt.mp within)
  case postLock =>
    obtain ⟨_, rfl⟩ := lock_eq_some taken
    exact ⟨_, rfl, .silent .postLocked⟩
  case postTest =>
    cases taken
    refine ⟨_, rfl, ?_⟩
    split
    · rename_i within
      exact .pass within
    · rename_i above
      exact .full (Int32.not_le.mp above)
  case postAdd => cases taken; exact ⟨_, rfl, .add⟩
  case postUndo => cases taken; exact ⟨_, rfl, .undo⟩
  case postUnlock => cases taken; exact ⟨_, rfl, .silent .postUnlocked⟩
  case postReturn => cases taken; exact ⟨_, rfl, .posted⟩
  case setMaxWrite =>
    split at taken
    · rename_i accepted
      cases taken
      exact ⟨_, rfl, .setMax accepted.1 accepted.2⟩
    · cases taken
      exact ⟨_, rfl, .badMax⟩
  case setMaxReturn => cases taken; exact ⟨_, rfl, .silent .setMaxReturned⟩
  case currentRead => cases taken; exact ⟨_, rfl, .readValue⟩
  case currentReturn => cases taken; exact ⟨_, rfl, .silent .currentReturned⟩

/-- A step of the system moves one thread, in one of the ways of `Effect`. -/
theorem step_effect (taken : step s action = some s') :
    ∃ p, s'.pc = Function.update s.pc action.thread p ∧
      Effect s.data (s.pc action.thread) s'.data p := by
  cases action with
  | call thread call =>
    simp only [step] at taken
    split at taken
    · rename_i idle
      cases taken
      exact ⟨_, rfl, idle ▸ .silent (.call call)⟩
    · cases taken
  | run thread => exact next_effect taken
  | notify thread woken =>
    simp only [step] at taken
    split at taken
    · rename_i here
      split at taken
      · cases taken
        exact ⟨_, rfl, here ▸ .notify⟩
      · cases taken
    · cases taken
  | fail thread =>
    simp only [step] at taken
    split at taken
    · rename_i here
      cases taken
      exact ⟨_, rfl, here ▸ .silent (.clock false)⟩
    · rename_i here
      cases taken
      exact ⟨_, rfl, here ▸ .silent .gaveUp⟩
    · rename_i here
      cases taken
      exact ⟨_, rfl, here ▸ .failNotify⟩
    · cases taken
  | expire thread =>
    simp only [step] at taken
    split at taken
    · rename_i here
      cases taken
      exact ⟨_, rfl, here ▸ .silent .gaveUp⟩
    · cases taken
  | wake thread =>
    simp only [step] at taken
    split at taken
    · rename_i here
      cases taken
      refine ⟨_, rfl, ?_⟩
      rw [show s.pc (Action.wake thread).thread = _ from here]
      exact .silent .spurious
    · cases taken

private theorem next_mtx (locked : Excludes s.mtx Pc.holds s.pc) (taken : s.next thread = some s') :
    Excludes s'.mtx Pc.holds s'.pc := by
  cases here : s.pc thread <;> simp only [State.next, here] at taken
  case idle | postNotify => cases taken
  case tryLock | waitLock | waitRelock | postLock =>
    obtain ⟨free, rfl⟩ := lock_eq_some taken
    rw [free] at locked
    exact locked.enter rfl
  case waitBlocked =>
    split at taken
    · cases taken
    · obtain ⟨free, rfl⟩ := lock_eq_some taken
      rw [free] at locked
      exact locked.enter rfl
  case tryUnlock left got =>
    cases taken
    refine locked.leave (by rw [here]; rfl) ?_
    cases left <;> cases got <;> rfl
  case waitUnlock | postUnlock =>
    cases taken
    exact locked.leave (by rw [here]; rfl) rfl
  case waitTest =>
    split at taken
    · cases taken
      exact locked.stay (by rw [here]; rfl)
    · cases taken
      exact locked.leave (by rw [here]; rfl) rfl
  case waitClock t =>
    cases taken
    refine locked.stay ?_
    rw [here, waitPath]
    split
    · rfl
    · split <;> rfl
  case tryTest | setMaxWrite =>
    split at taken <;> cases taken <;> exact locked.stay (by rw [here]; rfl)
  case pollLoop | postReadCurrent | postReadMaximum | postTest =>
    cases taken
    refine locked.stay ?_
    rw [here]
    split <;> rfl
  all_goals cases taken; exact locked.stay (by rw [here]; rfl)

theorem step_mtx (locked : Excludes s.mtx Pc.holds s.pc) (taken : step s action = some s') :
    Excludes s'.mtx Pc.holds s'.pc := by
  cases action with
  | call thread call =>
    simp only [step] at taken
    split at taken
    · rename_i idle
      cases taken
      exact locked.stay (by rw [idle]; cases call <;> rfl)
    · cases taken
  | run thread => exact next_mtx locked taken
  | notify thread woken =>
    simp only [step] at taken
    split at taken
    · rename_i here
      split at taken
      · cases taken
        exact locked.stay (by rw [here]; rfl)
      · cases taken
    · cases taken
  | fail thread =>
    simp only [step] at taken
    split at taken
    · rename_i t here
      cases taken
      refine locked.stay ?_
      rw [here, waitPath]
      split
      · rfl
      · split <;> rfl
    · rename_i here
      cases taken
      exact locked.stay (by rw [here]; rfl)
    · rename_i here
      cases taken
      exact locked.stay (by rw [here]; rfl)
    · cases taken
  | expire thread | wake thread =>
    simp only [step] at taken
    split at taken
    · rename_i here
      cases taken
      exact locked.stay (by simp [here, Pc.holds])
    · cases taken

/-- The number a `Post` past its first test wants to add. -/
def Pc.amount : Pc → Option Int32
  | .postReadMaximum n _ | .postLock n | .postTest n => some n
  | .postAdd n _ _ | .postNotify n _ _ | .postUndo n _ _ => some n
  | _ => none

/-- The value of `current` that a `Post` past the locked test relies on. -/
def Pc.expects : Pc → Option Int32
  | .postAdd _ c _ => some c
  | .postNotify n c _ | .postUndo n c _ => some (c + n)
  | _ => none

/-- A `Post` past the locked test has passed it, in 32-bit arithmetic. -/
def Pc.within : Pc → Prop
  | .postAdd n c m | .postNotify n c m | .postUndo n c m => c + n ≤ m ∧ m ≤ maximumCount
  | _ => True

/-- What every reachable state satisfies, whatever numbers are posted. -/
structure Invariant (s : State Thread) : Prop where
  mtx : Excludes s.mtx Pc.holds s.pc
  maximum : 0 < s.maximum ∧ s.maximum ≤ maximumCount
  amount : ∀ t n, (s.pc t).amount = some n → 0 < n
  expects : ∀ t v, (s.pc t).expects = some v → s.current = v
  within : ∀ t, (s.pc t).within

variable {d d' : Data} {here next : Pc}

private theorem Pc.holds_of_expects {p : Pc} {v : Int32} (expects : p.expects = some v) :
    p.holds = true := by
  cases p <;> first | rfl | cases expects

theorem waitPath_cases (t : TimeUnit) (answered : Bool) :
    waitPath t answered = .tryLock none ∨ (∃ timed, waitPath t answered = .waitLock timed) ∨
      answered = false ∧ ∃ left, waitPath t answered = .pollLoop left := by
  unfold waitPath
  split
  · exact .inl rfl
  · split
    · exact .inr (.inl ⟨_, rfl⟩)
    · cases answered with
      | true => exact .inr (.inl ⟨_, rfl⟩)
      | false => exact .inr (.inr ⟨rfl, _, rfl⟩)

/-- The places that a silent step leads to, one by one. -/
inductive Goes : Pc → Pc → Prop where
  | callWait {t : TimeUnit} : Goes .idle (.waitClock t)
  | callPost {n : Int32} : Goes .idle (.postReadCurrent n)
  | callSetMax {i : Int32} : Goes .idle (.setMaxWrite i)
  | callCurrent : Goes .idle .currentRead
  | clockTry {t : TimeUnit} : Goes (.waitClock t) (.tryLock none)
  | clockLock {t : TimeUnit} {timed : Bool} : Goes (.waitClock t) (.waitLock timed)
  | clockPoll {t : TimeUnit} {left : ℤ} : Goes (.waitClock t) (.pollLoop left)
  | tryLocked {left : Option ℤ} : Goes (.tryLock left) (.tryTest left)
  | tried {got : Bool} : Goes (.tryUnlock none got) (.waitReturn got)
  | pollTook {left : ℤ} : Goes (.tryUnlock (some left) true) (.waitReturn true)
  | pollSlept {left : ℤ} : Goes (.tryUnlock (some left) false) (.pollLoop (left - 1))
  | polls {left : ℤ} : Goes (.pollLoop left) (.tryLock (some left))
  | pollsOut {left : ℤ} : Goes (.pollLoop left) (.waitReturn false)
  | waitLocked {timed : Bool} : Goes (.waitLock timed) (.waitTest timed)
  | woken {timed : Bool} : Goes (.waitBlocked timed) (.waitTest timed)
  | spurious {timed : Bool} : Goes (.waitBlocked timed) (.waitBlocked timed)
  | gaveUp {timed : Bool} : Goes (.waitBlocked timed) .waitRelock
  | relocked : Goes .waitRelock (.waitUnlock false)
  | waitUnlocked {rv : Bool} : Goes (.waitUnlock rv) (.waitReturn rv)
  | postLocked {n : Int32} : Goes (.postLock n) (.postTest n)
  | postUnlocked {n : Int32} {passed : Option (Int32 × Int32)} :
      Goes (.postUnlock n passed) (.postReturn n passed)
  | setMaxReturned {rv : Bool} : Goes (.setMaxReturn rv) .idle
  | currentReturned {c : Int32} : Goes (.currentReturn c) .idle

theorem Silent.goes (edge : Silent here next) : Goes here next := by
  cases edge with
  | call call => cases call <;> constructor
  | @clock t answered =>
    rcases waitPath_cases t answered with path | ⟨_, path⟩ | ⟨_, _, path⟩ <;> rw [path] <;>
      constructor
  | @tryUnlocked left got => cases left <;> cases got <;> constructor
  | polled => split <;> constructor
  | _ => constructor

theorem Silent.amount (edge : Silent here next) {n : Int32} (amount : next.amount = some n) :
    here.amount = some n := by
  cases edge.goes with
  | postLocked => exact amount
  | _ => cases amount

theorem Silent.expects (edge : Silent here next) : next.expects = none := by
  cases edge.goes <;> rfl

theorem Silent.within (edge : Silent here next) : next.within := by
  cases edge.goes <;> trivial

theorem Effect.amount (effect : Effect d here d' next) {n : Int32}
    (amount : next.amount = some n) : here.amount = some n ∨ 0 < n := by
  cases effect with
  | silent edge => exact .inl (edge.amount amount)
  | readCurrent some =>
    cases amount
    exact .inr some
  | under | pass | add | failNotify => exact .inl amount
  | _ => cases amount

theorem Effect.expects (effect : Effect d here d' next)
    (before : ∀ v, here.expects = some v → d.current = v) {v : Int32}
    (expects : next.expects = some v) : d'.current = v := by
  cases effect with
  | silent edge => simp [edge.expects] at expects
  | pass => exact Option.some.inj expects
  | @add d n c m =>
    have same : d.current = c := before c rfl
    rw [← Option.some.inj expects, same]
  | failNotify => exact before v expects
  | _ => cases expects

theorem Effect.within (effect : Effect d here d' next) (maximum : d.maximum ≤ maximumCount)
    (before : here.within) : next.within := by
  cases effect with
  | silent edge => exact edge.within
  | pass fits => exact ⟨fits, maximum⟩
  | add | failNotify => exact before
  | _ => trivial

private theorem Effect.current_eq (effect : Effect d here d' next) (outside : here.holds = false) :
    d'.current = d.current := by
  cases effect <;> first | rfl | cases outside

theorem Effect.maximum (effect : Effect d here d' next)
    (before : 0 < d.maximum ∧ d.maximum ≤ maximumCount) :
    0 < d'.maximum ∧ d'.maximum ≤ maximumCount := by
  cases effect with
  | setMax positive within => exact ⟨positive, within⟩
  | _ => exact before

omit [DecidableEq Thread] in
theorem construct_eq_some {i_set i_max : Int32} (made : construct i_set i_max = some s) :
    (i_set ≤ i_max ∧ 0 ≤ i_set ∧ 0 < i_max ∧ i_max ≤ maximumCount) ∧ s = fresh i_set i_max := by
  unfold construct at made
  split at made
  · rename_i accepted
    exact ⟨accepted, (Option.some.inj made).symm⟩
  · cases made

omit [DecidableEq Thread] in
theorem construct_invariant {i_set i_max : Int32} (made : construct i_set i_max = some s) :
    Invariant s := by
  obtain ⟨⟨_, _, positive, below⟩, rfl⟩ := construct_eq_some made
  exact ⟨fun t => by simp [fresh, Pc.holds], ⟨positive, below⟩, nofun, nofun, fun _ => trivial⟩

theorem step_invariant (inv : Invariant s) (taken : step s action = some s') : Invariant s' := by
  obtain ⟨p, moved, effect⟩ := step_effect taken
  refine ⟨step_mtx inv.mtx taken, effect.maximum inv.maximum, ?_, ?_, ?_⟩
  · intro t n amount
    rw [moved] at amount
    by_cases same : t = action.thread
    · subst same
      rw [Function.update_self] at amount
      rcases effect.amount amount with before | positive
      · exact inv.amount _ n before
      · exact positive
    · rw [Function.update_of_ne same] at amount
      exact inv.amount t n amount
  · intro t v expects
    rw [moved] at expects
    by_cases same : t = action.thread
    · subst same
      rw [Function.update_self] at expects
      exact effect.expects (inv.expects _) expects
    · rw [Function.update_of_ne same] at expects
      have outside : (s.pc action.thread).holds = false := by
        by_contra inside
        exact same (inv.mtx.unique (Pc.holds_of_expects expects) (by simpa using inside))
      exact (effect.current_eq outside).trans (inv.expects t v expects)
  · intro t
    rw [moved]
    by_cases same : t = action.thread
    · subst same
      rw [Function.update_self]
      exact effect.within inv.maximum.2 (inv.within _)
    · rw [Function.update_of_ne same]
      exact inv.within t

end Prot.Lock.Semaphore
