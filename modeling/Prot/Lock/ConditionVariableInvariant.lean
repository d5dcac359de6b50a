import Prot.Lock.ConditionVariable

/-! What a step of the condition variable can do, said once, and what holds of
its two mutexes and of `wait_count` in every reachable state. -/

namespace Prot.Lock.ConditionVariable

open Concurrency Time

/-- Between `mtxi.Get` and `mtxi.Free`. -/
def Pc.holdsMtxi : Pc → Bool
  | .waitGetMtxd _ | .waitIncr _ | .waitFreeMtxd _ | .waitFreeMtxi _ => true
  | .oneTest | .onePost | .oneFreeMtxi _ => true
  | .allGetMtxd | .allRead | .allRaise _ | .allPost _ | .allFreeMtxd _ | .allRend _ => true
  | .allReset _ | .allClear _ | .allSkip | .allFreeMtxi _ => true
  | _ => false

def Pc.holdsMtxd : Pc → Bool
  | .waitIncr _ | .waitFreeMtxd _ => true
  | .leaveDecr _ | .leaveTestCount _ | .leaveTestFlags _ | .leaveFreeMtxd _ _ => true
  | .allRead | .allRaise _ | .allPost _ | .allFreeMtxd _ | .allSkip => true
  | _ => false

/-- The value of `wait_count` a `WakeAll` has read and not yet posted. -/
def Pc.toPost : Pc → Option ℤ
  | .allRaise n | .allPost n => some n
  | _ => none

/-- The shared data apart from the two mutexes. -/
structure Data where
  semap : ℤ
  mrend : Bool
  waitCount : ℤ
  waitFlags : Bool

/-- The part a thread plays in the rendezvous of `WakeAll`. -/
inductive Role where
  | bystander
  | waiting
  | leaving
  | testCount
  | testFlags
  | setter
  | posting
  | meeting
  | resetting
  | clearing
  deriving DecidableEq

def Pc.role : Pc → Role
  | .waitFreeMtxd _ | .waitFreeMtxi _ | .waitFreeLock _ | .waitSemap _ => .waiting
  | .leaveGetMtxd _ | .leaveDecr _ => .leaving
  | .leaveTestCount _ => .testCount
  | .leaveTestFlags _ => .testFlags
  | .leaveFreeMtxd _ true | .leaveSet _ => .setter
  | .allPost _ => .posting
  | .allFreeMtxd _ | .allRend _ => .meeting
  | .allReset _ => .resetting
  | .allClear _ => .clearing
  | _ => .bystander

/-- Has executed `wait_count++` and has not returned from `semap.Wait`. -/
def Pc.waiting (p : Pc) : Bool := decide (p.role = .waiting)

/-- Has returned from `semap.Wait` and has not executed `wait_count--`. -/
def Pc.leaving (p : Pc) : Bool := decide (p.role = .leaving)

def Pc.registered (p : Pc) : Bool := p.waiting || p.leaving

/-- The moves of a thread that touch no data but the mutexes. -/
inductive Silent : Pc → Pc → Prop where
  | call (call : Call) : Silent .idle call.entry
  | waitGotMtxi : Silent (.waitGetMtxi t) (.waitGetMtxd t)
  | waitGotMtxd : Silent (.waitGetMtxd t) (.waitIncr t)
  | waitFreedMtxd : Silent (.waitFreeMtxd t) (.waitFreeMtxi t)
  | waitFreedMtxi (lock : Bool) :
      Silent (.waitFreeMtxi t) (if lock then .waitFreeLock t else .waitSemap t)
  | waitFreedLock : Silent (.waitFreeLock t) (.waitSemap t)
  | leaveGotMtxd : Silent (.leaveGetMtxd rv) (.leaveDecr rv)
  | leaveFreedMtxd (lock : Bool) : Silent (.leaveFreeMtxd rv rn)
      (if rn then .leaveSet rv else if lock then .leaveGetLock rv else .leaveReturn rv)
  | leaveGotLock : Silent (.leaveGetLock rv) (.leaveReturn rv)
  | leaveReturned : Silent (.leaveReturn rv) .idle
  | oneGotMtxi : Silent .oneGetMtxi .oneTest
  | oneFreedMtxi : Silent (.oneFreeMtxi n) .idle
  | allGotMtxi : Silent .allGetMtxi .allGetMtxd
  | allGotMtxd : Silent .allGetMtxd .allRead
  | allFreedMtxd : Silent (.allFreeMtxd n) (.allRend n)
  | allSkipped : Silent .allSkip (.allFreeMtxi 0)
  | allFreedMtxi : Silent (.allFreeMtxi n) .idle

/-- What one step does to the shared data, with the place its thread leaves
and the place it reaches. -/
inductive Effect : Data → Pc → Data → Pc → Prop where
  | silent (edge : Silent here next) : Effect d here d next
  | incr : Effect d (.waitIncr t) { d with waitCount := d.waitCount + 1 } (.waitFreeMtxd t)
  | take (token : 0 < d.semap) :
      Effect d (.waitSemap t) { d with semap := d.semap - 1 } (.leaveGetMtxd true)
  | expire (empty : d.semap ≤ 0) (finite : t.infinitely = false) :
      Effect d (.waitSemap t) d (.leaveGetMtxd false)
  | decr : Effect d (.leaveDecr rv) { d with waitCount := d.waitCount - 1 } (.leaveTestCount rv)
  | last (zero : d.waitCount = 0) : Effect d (.leaveTestCount rv) d (.leaveTestFlags rv)
  | notLast (more : d.waitCount ≠ 0) : Effect d (.leaveTestCount rv) d (.leaveFreeMtxd rv false)
  | testFlags : Effect d (.leaveTestFlags rv) d (.leaveFreeMtxd rv d.waitFlags)
  | set (lock : Bool) : Effect d (.leaveSet rv) { d with mrend := true }
      (if lock then .leaveGetLock rv else .leaveReturn rv)
  | someone (some : d.waitCount ≠ 0) : Effect d .oneTest d .onePost
  | nobody (none : d.waitCount = 0) : Effect d .oneTest d (.oneFreeMtxi 0)
  | wakeOne : Effect d .onePost { d with semap := post d.semap 1 } (.oneFreeMtxi 1)
  | read (some : d.waitCount ≠ 0) : Effect d .allRead d (.allRaise d.waitCount)
  | skip (none : d.waitCount = 0) : Effect d .allRead d .allSkip
  | raise : Effect d (.allRaise n) { d with waitFlags := true } (.allPost n)
  | wakeAll : Effect d (.allPost n) { d with semap := post d.semap n } (.allFreeMtxd n)
  | meet (set : d.mrend = true) : Effect d (.allRend n) d (.allReset n)
  | reset : Effect d (.allReset n) { d with mrend := false } (.allClear n)
  | clear : Effect d (.allClear n) { d with waitFlags := false } (.allFreeMtxi n)

variable {Thread : Type} [DecidableEq Thread] {s s' : State Thread} {thread other : Thread}

def State.data (s : State Thread) : Data := ⟨s.semap, s.mrend, s.waitCount, s.waitFlags⟩

theorem getMtxi_eq_some {pc : Pc} (taken : s.getMtxi thread pc = some s') :
    ∃ mtxi, RecursiveMutex.lock thread s.mtxi = some mtxi ∧
      s' = { s with mtxi := mtxi }.goto thread pc := by
  obtain ⟨mtxi, locked, same⟩ := Option.map_eq_some_iff.mp taken
  exact ⟨mtxi, locked, same.symm⟩

theorem getMtxd_eq_some {pc : Pc} (taken : s.getMtxd thread pc = some s') :
    ∃ mtxd, RecursiveMutex.lock thread s.mtxd = some mtxd ∧
      s' = { s with mtxd := mtxd }.goto thread pc := by
  obtain ⟨mtxd, locked, same⟩ := Option.map_eq_some_iff.mp taken
  exact ⟨mtxd, locked, same.symm⟩

/-- A thread's own step moves only that thread, in one of the ways of `Effect`. -/
theorem next_effect (taken : s.next thread = some s') :
    ∃ p, s'.pc = Function.update s.pc thread p ∧ Effect s.data (s.pc thread) s'.data p := by
  cases here : s.pc thread <;> simp only [State.next, here] at taken
  case idle => cases taken
  case waitGetMtxi =>
    obtain ⟨_, _, rfl⟩ := getMtxi_eq_some taken
    exact ⟨_, rfl, .silent .waitGotMtxi⟩
  case waitGetMtxd =>
    obtain ⟨_, _, rfl⟩ := getMtxd_eq_some taken
    exact ⟨_, rfl, .silent .waitGotMtxd⟩
  case waitIncr => cases taken; exact ⟨_, rfl, .incr⟩
  case waitFreeMtxd => cases taken; exact ⟨_, rfl, .silent .waitFreedMtxd⟩
  case waitFreeMtxi => cases taken; exact ⟨_, rfl, .silent (.waitFreedMtxi s.lock)⟩
  case waitFreeLock => cases taken; exact ⟨_, rfl, .silent .waitFreedLock⟩
  case waitSemap =>
    split at taken
    · rename_i token
      cases taken
      exact ⟨_, rfl, .take token⟩
    · cases taken
  case leaveGetMtxd =>
    obtain ⟨_, _, rfl⟩ := getMtxd_eq_some taken
    exact ⟨_, rfl, .silent .leaveGotMtxd⟩
  case leaveDecr => cases taken; exact ⟨_, rfl, .decr⟩
  case leaveTestCount =>
    cases taken
    refine ⟨_, rfl, ?_⟩
    split
    · rename_i zero
      exact .last zero
    · rename_i more
      exact .notLast more
  case leaveTestFlags => cases taken; exact ⟨_, rfl, .testFlags⟩
  case leaveFreeMtxd => cases taken; exact ⟨_, rfl, .silent (.leaveFreedMtxd s.lock)⟩
  case leaveSet => cases taken; exact ⟨_, rfl, .set s.lock⟩
  case leaveGetLock => cases taken; exact ⟨_, rfl, .silent .leaveGotLock⟩
  case leaveReturn => cases taken; exact ⟨_, rfl, .silent .leaveReturned⟩
  case oneGetMtxi =>
    obtain ⟨_, _, rfl⟩ := getMtxi_eq_some taken
    exact ⟨_, rfl, .silent .oneGotMtxi⟩
  case oneTest =>
    cases taken
    refine ⟨_, rfl, ?_⟩
    split
    · rename_i some
      exact .someone some
    · rename_i none
      exact .nobody (not_not.mp none)
  case onePost => cases taken; exact ⟨_, rfl, .wakeOne⟩
  case oneFreeMtxi => cases taken; exact ⟨_, rfl, .silent .oneFreedMtxi⟩
  case allGetMtxi =>
    obtain ⟨_, _, rfl⟩ := getMtxi_eq_some taken
    exact ⟨_, rfl, .silent .allGotMtxi⟩
  case allGetMtxd =>
    obtain ⟨_, _, rfl⟩ := getMtxd_eq_some taken
    exact ⟨_, rfl, .silent .allGotMtxd⟩
  case allRead =>
    cases taken
    refine ⟨_, rfl, ?_⟩
    split
    · rename_i some
      exact .read some
    · rename_i none
      exact .skip (not_not.mp none)
  case allRaise => cases taken; exact ⟨_, rfl, .raise⟩
  case allPost => cases taken; exact ⟨_, rfl, .wakeAll⟩
  case allFreeMtxd => cases taken; exact ⟨_, rfl, .silent .allFreedMtxd⟩
  case allRend =>
    split at taken
    · rename_i set
      cases taken
      exact ⟨_, rfl, .meet set⟩
    · cases taken
  case allReset => cases taken; exact ⟨_, rfl, .reset⟩
  case allClear => cases taken; exact ⟨_, rfl, .clear⟩
  case allSkip => cases taken; exact ⟨_, rfl, .silent .allSkipped⟩
  case allFreeMtxi => cases taken; exact ⟨_, rfl, .silent .allFreedMtxi⟩

/-- A step of the system moves one thread, in one of the ways of `Effect`. -/
theorem step_effect {action : Action Thread} (taken : step s action = some s') :
    ∃ p, s'.pc = Function.update s.pc action.thread p ∧
      Effect s.data (s.pc action.thread) s'.data p := by
  cases action with
  | call thread call =>
    simp only [step] at taken
    split at taken
    · rename_i idle
      cases taken
      exact ⟨_, rfl, idle ▸ .silent (.call call)⟩
    · cases taken
  | run thread => exact next_effect taken
  | expire thread =>
    simp only [step] at taken
    split at taken
    · rename_i t here
      split at taken
      · rename_i gaveUp
        cases taken
        exact ⟨_, rfl, here ▸ .expire gaveUp.1 gaveUp.2⟩
      · cases taken
    · cases taken

private theorem next_mtxi (once : ExcludesOnce s.mtxi Pc.holdsMtxi s.pc)
    (taken : s.next thread = some s') :
    ExcludesOnce s'.mtxi Pc.holdsMtxi s'.pc := by
  cases here : s.pc thread <;> simp only [State.next, here] at taken
  case idle => cases taken
  case waitGetMtxi | oneGetMtxi | allGetMtxi =>
    obtain ⟨_, locked, rfl⟩ := getMtxi_eq_some taken
    exact once.enter (by simp [here, Pc.holdsMtxi]) rfl locked
  case waitGetMtxd | leaveGetMtxd | allGetMtxd =>
    obtain ⟨_, _, rfl⟩ := getMtxd_eq_some taken
    exact once.stay (by simp [here, Pc.holdsMtxi])
  case waitFreeMtxi =>
    cases taken
    exact once.leave (by simp [here, Pc.holdsMtxi]) (by split <;> rfl)
  case oneFreeMtxi | allFreeMtxi =>
    cases taken
    exact once.leave (by simp [here, Pc.holdsMtxi]) rfl
  case waitSemap | allRend =>
    split at taken
    · cases taken
      exact once.stay (by simp [here, Pc.holdsMtxi])
    · cases taken
  case leaveFreeMtxd rv rn =>
    cases taken
    refine once.stay ?_
    cases rn <;> cases s.lock <;> simp [here, Pc.holdsMtxi]
  case leaveTestCount | leaveSet | oneTest | allRead =>
    cases taken
    refine once.stay ?_
    split <;> simp [here, Pc.holdsMtxi]
  all_goals cases taken; exact once.stay (by simp [here, Pc.holdsMtxi])

private theorem next_mtxd (once : ExcludesOnce s.mtxd Pc.holdsMtxd s.pc)
    (taken : s.next thread = some s') :
    ExcludesOnce s'.mtxd Pc.holdsMtxd s'.pc := by
  cases here : s.pc thread <;> simp only [State.next, here] at taken
  case idle => cases taken
  case waitGetMtxd | leaveGetMtxd | allGetMtxd =>
    obtain ⟨_, locked, rfl⟩ := getMtxd_eq_some taken
    exact once.enter (by simp [here, Pc.holdsMtxd]) rfl locked
  case waitGetMtxi | oneGetMtxi | allGetMtxi =>
    obtain ⟨_, _, rfl⟩ := getMtxi_eq_some taken
    exact once.stay (by simp [here, Pc.holdsMtxd])
  case waitFreeMtxd | allFreeMtxd | allSkip =>
    cases taken
    exact once.leave (by simp [here, Pc.holdsMtxd]) rfl
  case leaveFreeMtxd rv rn =>
    cases taken
    refine once.leave (by simp [here, Pc.holdsMtxd]) ?_
    cases rn <;> cases s.lock <;> rfl
  case waitSemap | allRend =>
    split at taken
    · cases taken
      exact once.stay (by simp [here, Pc.holdsMtxd])
    · cases taken
  case waitFreeMtxi | leaveTestCount | leaveSet | oneTest | allRead =>
    cases taken
    refine once.stay ?_
    split <;> simp [here, Pc.holdsMtxd]
  all_goals cases taken; exact once.stay (by simp [here, Pc.holdsMtxd])

/-- What every reachable state satisfies, whatever the timeouts and wakes. -/
structure Invariant [Fintype Thread] (s : State Thread) : Prop where
  mtxi : ExcludesOnce s.mtxi Pc.holdsMtxi s.pc
  mtxd : ExcludesOnce s.mtxd Pc.holdsMtxd s.pc
  counted : s.waitCount = headcount Pc.registered s.pc
  toPost : ∀ thread n, (s.pc thread).toPost = some n → n = s.waitCount ∧ n ≠ 0
  tested : ∀ thread, (s.pc thread).role = .testFlags → s.waitCount = 0
  semap : 0 ≤ s.semap

private theorem post_nonneg {semap n : ℤ} (nonneg : 0 ≤ semap) : 0 ≤ post semap n := by
  unfold post
  split <;> omega

theorem step_mtxi {action : Action Thread} (once : ExcludesOnce s.mtxi Pc.holdsMtxi s.pc)
    (taken : step s action = some s') : ExcludesOnce s'.mtxi Pc.holdsMtxi s'.pc := by
  cases action with
  | call thread call =>
    simp only [step] at taken
    split at taken
    · rename_i idle
      cases taken
      exact once.stay (by cases call <;> simp [idle, Call.entry, Pc.holdsMtxi])
    · cases taken
  | run thread => exact next_mtxi once taken
  | expire thread =>
    simp only [step] at taken
    split at taken
    · rename_i here
      split at taken
      · cases taken
        exact once.stay (by simp [here, Pc.holdsMtxi])
      · cases taken
    · cases taken

theorem step_mtxd {action : Action Thread} (once : ExcludesOnce s.mtxd Pc.holdsMtxd s.pc)
    (taken : step s action = some s') : ExcludesOnce s'.mtxd Pc.holdsMtxd s'.pc := by
  cases action with
  | call thread call =>
    simp only [step] at taken
    split at taken
    · rename_i idle
      cases taken
      exact once.stay (by cases call <;> simp [idle, Call.entry, Pc.holdsMtxd])
    · cases taken
  | run thread => exact next_mtxd once taken
  | expire thread =>
    simp only [step] at taken
    split at taken
    · rename_i here
      split at taken
      · cases taken
        exact once.stay (by simp [here, Pc.holdsMtxd])
      · cases taken
    · cases taken

private theorem Pc.holdsMtxd_of_toPost {p : Pc} (reads : p.toPost = some n) :
    p.holdsMtxd = true := by
  cases p <;> simp_all [Pc.toPost, Pc.holdsMtxd]

private theorem Pc.holdsMtxd_of_testFlags {p : Pc} (role : p.role = .testFlags) :
    p.holdsMtxd = true := by
  cases p <;> simp_all [Pc.role, Pc.holdsMtxd]

variable {d d' : Data} {here next : Pc}

theorem Silent.role (edge : Silent here next) : next.role = here.role := by
  cases edge with
  | call call => cases call <;> rfl
  | waitFreedMtxi lock => cases lock <;> rfl
  | @leaveFreedMtxd rv rn lock => cases rn <;> cases lock <;> rfl
  | _ => rfl

theorem Silent.toPost (edge : Silent here next) : next.toPost = none := by
  cases edge with
  | call call => cases call <;> rfl
  | waitFreedMtxi lock => cases lock <;> rfl
  | @leaveFreedMtxd rv rn lock => cases rn <;> cases lock <;> rfl
  | _ => rfl

/-- `wait_count` changes exactly with the registration of the moving thread. -/
theorem Effect.waitCount (effect : Effect d here d' next) :
    d'.waitCount + here.registered.toNat = d.waitCount + next.registered.toNat := by
  cases effect with
  | silent edge => simp [Pc.registered, Pc.waiting, Pc.leaving, edge.role]
  | set lock => cases lock <;> simp [Pc.registered, Pc.waiting, Pc.leaving, Pc.role]
  | testFlags =>
    cases flags : d.waitFlags <;> simp [Pc.registered, Pc.waiting, Pc.leaving, Pc.role]
  | _ => simp [Pc.registered, Pc.waiting, Pc.leaving, Pc.role]

theorem Effect.waitCount_eq (effect : Effect d here d' next) (unlocked : here.holdsMtxd = false) :
    d'.waitCount = d.waitCount := by
  cases effect <;> simp_all [Pc.holdsMtxd]

private theorem Effect.semap_nonneg (effect : Effect d here d' next) (nonneg : 0 ≤ d.semap) :
    0 ≤ d'.semap := by
  cases effect with
  | take token => exact Int.sub_nonneg_of_le token
  | wakeOne => exact post_nonneg nonneg
  | wakeAll => exact post_nonneg nonneg
  | _ => exact nonneg

theorem Effect.toPost (effect : Effect d here d' next) (reads : next.toPost = some n) :
    d'.waitCount = d.waitCount ∧ ((n = d.waitCount ∧ n ≠ 0) ∨ here.toPost = some n) := by
  cases effect with
  | silent edge => simp [edge.toPost] at reads
  | set lock => cases lock <;> cases reads
  | read nonzero =>
    cases reads
    exact ⟨rfl, .inl ⟨rfl, nonzero⟩⟩
  | raise => exact ⟨rfl, .inr reads⟩
  | _ => cases reads

theorem Effect.tested (effect : Effect d here d' next) (role : next.role = .testFlags) :
    d'.waitCount = d.waitCount ∧ (d.waitCount = 0 ∨ here.role = .testFlags) := by
  cases effect with
  | silent edge => exact ⟨rfl, .inr (edge.role ▸ role)⟩
  | last zero => exact ⟨rfl, .inl zero⟩
  | testFlags =>
    cases flags : d.waitFlags <;> simp [flags, Pc.role] at role
  | set lock => cases lock <;> cases role
  | _ => simp_all [Pc.role]

variable [Fintype Thread]

omit [DecidableEq Thread] in
theorem init_invariant (lock : Bool) : Invariant (init lock : State Thread) where
  mtxi := ExcludesOnce.free fun _ => rfl
  mtxd := ExcludesOnce.free fun _ => rfl
  counted := by
    have nobody : headcount Pc.registered (init lock : State Thread).pc = 0 :=
      headcount_eq_zero_iff.mpr fun _ => rfl
    rw [nobody]
    rfl
  toPost := by simp [init, Pc.toPost]
  tested := by simp [init, Pc.role]
  semap := le_rfl

theorem step_invariant {action : Action Thread} (inv : Invariant s) (taken : step s action = some s') :
    Invariant s' := by
  obtain ⟨p, moved, effect⟩ := step_effect taken
  generalize action.thread = t at moved effect
  refine ⟨step_mtxi inv.mtxi taken, step_mtxd inv.mtxd taken, ?_, ?_, ?_, effect.semap_nonneg inv.semap⟩
  · have change := headcount_update Pc.registered s.pc t p
    have count := effect.waitCount
    have before := inv.counted
    simp only [State.data] at count
    rw [moved]
    omega
  · intro u n reads
    rw [moved] at reads
    by_cases same : u = t
    · subst same
      rw [Function.update_self] at reads
      obtain ⟨kept, now | before⟩ := effect.toPost reads
      · exact ⟨now.1.trans kept.symm, now.2⟩
      · obtain ⟨equal, nonzero⟩ := inv.toPost u n before
        exact ⟨equal.trans kept.symm, nonzero⟩
    · rw [Function.update_of_ne same] at reads
      have unlocked : (s.pc t).holdsMtxd = false := by
        by_contra locked
        exact same (inv.mtxd.unique (Pc.holdsMtxd_of_toPost reads) (by simpa using locked))
      obtain ⟨equal, nonzero⟩ := inv.toPost u n reads
      exact ⟨equal.trans (effect.waitCount_eq unlocked).symm, nonzero⟩
  · intro u role
    rw [moved] at role
    by_cases same : u = t
    · subst same
      rw [Function.update_self] at role
      obtain ⟨kept, now | before⟩ := effect.tested role
      · exact kept.trans now
      · exact kept.trans (inv.tested u before)
    · rw [Function.update_of_ne same] at role
      have unlocked : (s.pc t).holdsMtxd = false := by
        by_contra locked
        exact same (inv.mtxd.unique (Pc.holdsMtxd_of_testFlags role) (by simpa using locked))
      exact (effect.waitCount_eq unlocked).trans (inv.tested u role)

theorem exec_step_invariant {lock : Bool} {actions : List (Action Thread)}
    (ran : exec step (init lock) actions = some s) : Invariant s :=
  exec_invariant Invariant (fun _ _ _ => step_invariant) (init_invariant lock) ran

end Prot.Lock.ConditionVariable
