import Prot.Lock.ConditionVariableInvariant

/-! The rendezvous of `WakeAll` with the threads it wakes: one signal of
`mrend` for each `WakeAll`, set by the waiter that brings `wait_count` to 0. -/

namespace Prot.Lock.ConditionVariable

open Concurrency Time

variable {Thread : Type} [DecidableEq Thread] [Fintype Thread]
variable {s s' : State Thread} {action : Action Thread}
variable {d d' : Data} {here next : Pc} {before after : Role → ℕ}

/-- The number of threads playing each part. -/
def roster (pc : Thread → Pc) (role : Role) : ℕ :=
  headcount (fun p => decide (p.role = role)) pc

/-- The signals that the threads between `wait_count--` and the end of their
test will still send. -/
def pending (d : Data) (count : Role → ℕ) : ℕ :=
  if d.waitFlags = true ∧ d.waitCount = 0 then count .testCount + count .testFlags else 0

/-- The `WakeAll` calls that posted and whose waiters are not all gone. -/
def unanswered (d : Data) (count : Role → ℕ) : ℕ :=
  if d.waitCount = 0 then 0 else count .meeting

/-- Every `WakeAll` that has not consumed its signal of `mrend` is matched by
one signal that is set, on its way, or due once its waiters are gone. -/
structure Rendezvous (d : Data) (count : Role → ℕ) : Prop where
  flags : d.waitFlags.toNat =
    count .posting + count .meeting + count .resetting + count .clearing
  balance : d.mrend.toNat + count .setter + pending d count + unanswered d count =
    count .meeting + count .resetting
  resetting : 0 < count .resetting → d.mrend = true
  emptied : 0 < count .resetting + count .clearing → d.waitCount = 0
  tokens : 0 < count .meeting → (count .waiting : ℤ) ≤ d.semap

/-- The post of a `WakeAll` is not refused for the limit of `semap`. -/
def PostsAccepted (s : State Thread) (action : Action Thread) : Prop :=
  match s.pc action.thread with
  | .allPost n => s.semap + n ≤ maximumCount
  | _ => True

instance (s : State Thread) (action : Action Thread) : Decidable (PostsAccepted s action) := by
  unfold PostsAccepted
  split <;> infer_instance

theorem post_accepted {semap n : ℤ} (positive : 0 < n) (fits : semap + n ≤ maximumCount) :
    post semap n = semap + n := by
  unfold post
  split <;> omega

omit [DecidableEq Thread] in
private theorem counted_roles (pc : Thread → Pc) :
    headcount Pc.registered pc = roster pc .waiting + roster pc .leaving := by
  refine headcount_add fun p => ?_
  cases role : p.role <;> simp [Pc.registered, Pc.waiting, Pc.leaving, role]

private theorem roster_update (pc : Thread → Pc) (thread : Thread) (p : Pc) (role : Role) :
    roster (Function.update pc thread p) role + (decide ((pc thread).role = role)).toNat =
      roster pc role + (decide (p.role = role)).toNat :=
  headcount_update _ pc thread p

/-- In a region where only one thread can stand, that thread is the whole roster. -/
theorem roster_of_inside {holder : RecursiveMutex Thread} {holds : Pc → Bool} {pc : Thread → Pc}
    {thread : Thread} {role : Role} (once : ExcludesOnce holder holds pc)
    (inside : holds (pc thread) = true) (within : ∀ p : Pc, p.role = role → holds p = true) :
    roster pc role = (decide ((pc thread).role = role)).toNat := by
  unfold roster
  refine headcount_of_unique fun u plays => ?_
  exact once.unique (within (pc u) (by simpa using plays)) inside

/-- What the rendezvous needs to know of the moving thread's surroundings. -/
structure Surroundings (d : Data) (here : Pc) (count : Role → ℕ) : Prop where
  counted : d.waitCount = count .waiting + count .leaving
  semap : 0 ≤ d.semap
  toPost : ∀ n, here.toPost = some n → n = d.waitCount ∧ n ≠ 0
  tested : here.role = .testFlags → d.waitCount = 0
  accepted : ∀ n, here = .allPost n → d.semap + n ≤ maximumCount
  insideMtxi : here.holdsMtxi = true → ∀ role ∈ [Role.posting, .meeting, .resetting, .clearing],
    count role = (decide (here.role = role)).toNat
  insideMtxd : here.holdsMtxd = true → ∀ role ∈ [Role.posting, .testCount, .testFlags],
    count role = (decide (here.role = role)).toNat

private theorem pending_le (d : Data) (count : Role → ℕ) :
    pending d count ≤ count .testCount + count .testFlags := by
  unfold pending
  split <;> omega

theorem pending_of_more (more : d.waitCount ≠ 0) (count : Role → ℕ) : pending d count = 0 :=
  if_neg fun raised => more raised.2

theorem pending_of_zero (zero : d.waitCount = 0) (count : Role → ℕ) :
    pending d count = if d.waitFlags then count .testCount + count .testFlags else 0 := by
  simp [pending, zero]

theorem unanswered_le (d : Data) (count : Role → ℕ) : unanswered d count ≤ count .meeting := by
  unfold unanswered
  split <;> omega

theorem unanswered_of_more (more : d.waitCount ≠ 0) (count : Role → ℕ) :
    unanswered d count = count .meeting := if_neg more

theorem unanswered_of_zero (zero : d.waitCount = 0) (count : Role → ℕ) : unanswered d count = 0 :=
  if_pos zero

/-- How the roster changes when a thread leaves one part and joins another. -/
def Moved (leaves joins : Role) (before after : Role → ℕ) : Prop :=
  ∀ role, after role + (decide (leaves = role)).toNat = before role + (decide (joins = role)).toNat

theorem forall_role {holds : Role → Prop} : (∀ role, holds role) ↔
    holds .bystander ∧ holds .waiting ∧ holds .leaving ∧ holds .testCount ∧ holds .testFlags ∧
      holds .setter ∧ holds .posting ∧ holds .meeting ∧ holds .resetting ∧ holds .clearing := by
  refine ⟨fun all => by simp only [all, and_self], ?_⟩
  rintro ⟨_, _, _, _, _, _, _, _, _, _⟩ role
  cases role <;> assumption

theorem Moved.same {role : Role} (moved : Moved role role before after) : after = before := by
  funext other
  exact Nat.add_right_cancel (moved other)

theorem Moved.other {leaves joins role : Role} (moved : Moved leaves joins before after)
    (left : leaves ≠ role) (joined : joins ≠ role) : after role = before role := by
  simpa [left, joined] using moved role

/-- Between `wait_count--` and the next registration only the tokens matter. -/
theorem Rendezvous.frame (rend : Rendezvous d before) (flags : d'.waitFlags = d.waitFlags)
    (mrend : d'.mrend = d.mrend) (count : d'.waitCount = d.waitCount)
    (same : ∀ role, role ∉ [Role.bystander, .waiting, .leaving] → after role = before role)
    (tokens : 0 < before .meeting → (after .waiting : ℤ) ≤ d'.semap) : Rendezvous d' after := by
  have posting := same .posting (by decide)
  have meeting := same .meeting (by decide)
  have resetting := same .resetting (by decide)
  have clearing := same .clearing (by decide)
  have setter := same .setter (by decide)
  have due : pending d' after = pending d before := by
    simp only [pending, flags, count, same .testCount (by decide), same .testFlags (by decide)]
  have unmet : unanswered d' after = unanswered d before := by
    simp only [unanswered, count, meeting]
  refine ⟨?_, ?_, ?_, ?_, ?_⟩
  · rw [flags, posting, meeting, resetting, clearing]
    exact rend.flags
  · rw [mrend, setter, due, unmet, meeting, resetting]
    exact rend.balance
  · rw [resetting, mrend]
    exact rend.resetting
  · rw [resetting, clearing, count]
    exact rend.emptied
  · rw [meeting]
    exact tokens

/-- Inside `mtxi` the thread of the step is the only one between the post and
the end of a `WakeAll`. -/
theorem Surroundings.alone (around : Surroundings d here before) (inside : here.holdsMtxi = true) :
    before .posting = (decide (here.role = .posting)).toNat ∧
      before .meeting = (decide (here.role = .meeting)).toNat ∧
      before .resetting = (decide (here.role = .resetting)).toNat ∧
      before .clearing = (decide (here.role = .clearing)).toNat :=
  ⟨around.insideMtxi inside .posting (by simp), around.insideMtxi inside .meeting (by simp),
    around.insideMtxi inside .resetting (by simp), around.insideMtxi inside .clearing (by simp)⟩

/-- Inside `mtxd` it is the only one that posts or tests. -/
theorem Surroundings.tests (around : Surroundings d here before) (inside : here.holdsMtxd = true) :
    before .posting = (decide (here.role = .posting)).toNat ∧
      before .testCount = (decide (here.role = .testCount)).toNat ∧
      before .testFlags = (decide (here.role = .testFlags)).toNat :=
  ⟨around.insideMtxd inside .posting (by simp), around.insideMtxd inside .testCount (by simp),
    around.insideMtxd inside .testFlags (by simp)⟩

/-- A registration happens while no `WakeAll` is between its post and its end. -/
theorem Rendezvous.incr (rend : Rendezvous d before)
    (alone : before .posting = 0 ∧ before .meeting = 0 ∧ before .resetting = 0 ∧
      before .clearing = 0)
    (tests : before .testCount = 0 ∧ before .testFlags = 0)
    (moved : Moved .bystander .waiting before after) :
    Rendezvous { d with waitCount := d.waitCount + 1 } after := by
  simp [Moved, forall_role] at moved
  obtain ⟨_, waiting, leaving, testCount, testFlags, setter, posting, meeting, resetting, clearing⟩ :=
    moved
  have due := pending_le { d with waitCount := d.waitCount + 1 } after
  have unmet := unanswered_le { d with waitCount := d.waitCount + 1 } after
  have flags := rend.flags
  have balance := rend.balance
  refine ⟨?_, ?_, ?_, ?_, ?_⟩ <;> simp only <;> omega

/-- The thread that brings `wait_count` to 0 takes the open answer over. -/
theorem Rendezvous.decr (rend : Rendezvous d before) (some : d.waitCount ≠ 0)
    (tests : before .posting = 0 ∧ before .testCount = 0 ∧ before .testFlags = 0)
    (moved : Moved .leaving .testCount before after) :
    Rendezvous { d with waitCount := d.waitCount - 1 } after := by
  simp [Moved, forall_role] at moved
  obtain ⟨_, waiting, leaving, testCount, testFlags, setter, posting, meeting, resetting, clearing⟩ :=
    moved
  have flags := rend.flags
  have balance := rend.balance
  have emptied := rend.emptied
  rw [pending_of_more some, unanswered_of_more some] at balance
  have matched : pending { d with waitCount := d.waitCount - 1 } after +
      unanswered { d with waitCount := d.waitCount - 1 } after = before .meeting := by
    by_cases zero : d.waitCount - 1 = 0
    · rw [pending_of_zero zero, unanswered_of_zero zero]
      cases raised : d.waitFlags <;> simp [raised] at flags ⊢ <;> omega
    · rw [pending_of_more zero, unanswered_of_more zero]
      omega
  refine ⟨?_, ?_, ?_, ?_, ?_⟩
  · simp only
    omega
  · simp only
    omega
  · rw [resetting]
    exact rend.resetting
  · intro late
    exact absurd (emptied (by omega)) some
  · rw [meeting, waiting]
    exact rend.tokens

/-- A thread that has tested the count goes where the rendezvous does not count it. -/
theorem Rendezvous.tested {joins : Role} (rend : Rendezvous d before)
    (moved : Moved .testCount joins before after)
    (uncounted : joins ∉ [Role.waiting, .setter, .posting, .meeting, .resetting, .clearing])
    (same : pending d after = pending d before) : Rendezvous d after := by
  have kept (role : Role)
      (counted : role ∈ [Role.waiting, .setter, .posting, .meeting, .resetting, .clearing]) :
      after role = before role := by
    refine moved.other ?_ fun joined => uncounted (joined ▸ counted)
    rintro rfl
    simp at counted
  have meeting := kept .meeting (by decide)
  have unmet : unanswered d after = unanswered d before := by
    unfold unanswered
    rw [meeting]
  obtain ⟨flags, balance, set, emptied, tokens⟩ := rend
  constructor <;> simp only [kept .waiting (by decide), kept .setter (by decide),
    kept .posting (by decide), meeting, kept .resetting (by decide), kept .clearing (by decide),
    same, unmet] <;> assumption

theorem Rendezvous.last (rend : Rendezvous d before)
    (moved : Moved .testCount .testFlags before after) : Rendezvous d after := by
  refine rend.tested moved (by decide) ?_
  have testCount := moved .testCount
  have testFlags := moved .testFlags
  simp at testCount testFlags
  unfold pending
  split <;> omega

theorem Rendezvous.notLast (rend : Rendezvous d before) (more : d.waitCount ≠ 0)
    (moved : Moved .testCount .bystander before after) : Rendezvous d after := by
  refine rend.tested moved (by decide) ?_
  rw [pending_of_more more, pending_of_more more]

/-- Who finds the flag raised has to set `mrend`. -/
theorem Rendezvous.testFlags (rend : Rendezvous d before) (zero : d.waitCount = 0)
    (alone : before .testFlags = 1)
    (moved : Moved .testFlags (if d.waitFlags then .setter else .bystander) before after) :
    Rendezvous d after := by
  have balance := rend.balance
  rw [pending_of_zero zero, unanswered_of_zero zero] at balance
  have balance' : d.mrend.toNat + after .setter + pending d after + unanswered d after =
      after .meeting + after .resetting := by
    rw [pending_of_zero zero, unanswered_of_zero zero]
    cases raised : d.waitFlags <;> simp [raised, Moved, forall_role] at moved balance ⊢ <;> omega
  have kept (role : Role) (out : role ∉ [Role.bystander, .testFlags, .setter]) :
      after role = before role := by
    refine moved.other (by rintro rfl; simp at out) ?_
    split <;> rintro rfl <;> simp at out
  have waiting := kept .waiting (by decide)
  have posting := kept .posting (by decide)
  have meeting := kept .meeting (by decide)
  have resetting := kept .resetting (by decide)
  have clearing := kept .clearing (by decide)
  obtain ⟨flags, _, set, emptied, tokens⟩ := rend
  refine ⟨?_, balance', ?_, ?_, ?_⟩ <;>
    simp only [waiting, posting, meeting, resetting, clearing] <;> assumption

/-- Only one signal is owed at a time, so it is not set yet. -/
theorem Rendezvous.set (rend : Rendezvous d before)
    (moved : Moved .setter .bystander before after) : Rendezvous { d with mrend := true } after := by
  simp [Moved, forall_role] at moved
  obtain ⟨_, waiting, leaving, testCount, testFlags, setter, posting, meeting, resetting, clearing⟩ :=
    moved
  have same : pending { d with mrend := true } after = pending d before := by
    simp only [pending, testCount, testFlags]
  have unmet : unanswered { d with mrend := true } after = unanswered d before := by
    simp only [unanswered, meeting]
  have once := Bool.toNat_le d.waitFlags
  obtain ⟨flags, balance, _, emptied, tokens⟩ := rend
  refine ⟨?_, ?_, fun _ => rfl, ?_, ?_⟩
  · rw [posting, meeting, resetting, clearing]
    exact flags
  · simp only [same, unmet, Bool.toNat_true]
    omega
  · rw [resetting, clearing]
    exact emptied
  · rw [meeting, waiting]
    exact tokens

theorem Rendezvous.raise (rend : Rendezvous d before)
    (alone : before .posting = 0 ∧ before .meeting = 0 ∧ before .resetting = 0 ∧
      before .clearing = 0)
    (tests : before .testCount = 0 ∧ before .testFlags = 0)
    (moved : Moved .bystander .posting before after) :
    Rendezvous { d with waitFlags := true } after := by
  simp [Moved, forall_role] at moved
  obtain ⟨_, waiting, leaving, testCount, testFlags, setter, posting, meeting, resetting, clearing⟩ :=
    moved
  have due := pending_le { d with waitFlags := true } after
  have unmet := unanswered_le { d with waitFlags := true } after
  have balance := rend.balance
  refine ⟨?_, ?_, ?_, ?_, ?_⟩ <;> simp only [Bool.toNat_true] <;> omega

/-- The post leaves a token for each thread that is registered. -/
theorem Rendezvous.wakeAll (rend : Rendezvous d before) {n : ℤ} (some : d.waitCount ≠ 0)
    (enough : (before .waiting : ℤ) ≤ post d.semap n)
    (alone : before .posting = 1 ∧ before .meeting = 0 ∧ before .resetting = 0 ∧
      before .clearing = 0)
    (moved : Moved .posting .meeting before after) :
    Rendezvous { d with semap := post d.semap n } after := by
  simp [Moved, forall_role] at moved
  obtain ⟨_, waiting, leaving, testCount, testFlags, setter, posting, meeting, resetting, clearing⟩ :=
    moved
  have flags := rend.flags
  have balance := rend.balance
  rw [pending_of_more some, unanswered_of_more some] at balance
  refine ⟨?_, ?_, ?_, ?_, ?_⟩
  · simp only
    omega
  · have none := pending_of_more (d := { d with semap := post d.semap n }) some after
    have unmet := unanswered_of_more (d := { d with semap := post d.semap n }) some after
    simp only
    omega
  · omega
  · omega
  · simp only [waiting]
    exact fun _ => enough

/-- A `WakeAll` that finds `mrend` set has seen all its waiters go. -/
theorem Rendezvous.meet (rend : Rendezvous d before) (set : d.mrend = true)
    (alone : before .posting = 0 ∧ before .meeting = 1 ∧ before .resetting = 0 ∧
      before .clearing = 0)
    (moved : Moved .meeting .resetting before after) : Rendezvous d after := by
  simp [Moved, forall_role] at moved
  obtain ⟨_, waiting, leaving, testCount, testFlags, setter, posting, meeting, resetting, clearing⟩ :=
    moved
  have flags := rend.flags
  have balance := rend.balance
  rw [set, Bool.toNat_true] at balance
  have zero : d.waitCount = 0 := by
    by_contra more
    rw [unanswered_of_more more] at balance
    omega
  have same : pending d after = pending d before := by
    unfold pending
    rw [testCount, testFlags]
  rw [unanswered_of_zero zero] at balance
  refine ⟨?_, ?_, fun _ => set, fun _ => zero, ?_⟩
  · omega
  · rw [same, unanswered_of_zero zero, set, Bool.toNat_true]
    omega
  · omega

theorem Rendezvous.reset (rend : Rendezvous d before)
    (alone : before .posting = 0 ∧ before .meeting = 0 ∧ before .resetting = 1 ∧
      before .clearing = 0)
    (moved : Moved .resetting .clearing before after) :
    Rendezvous { d with mrend := false } after := by
  simp [Moved, forall_role] at moved
  obtain ⟨_, waiting, leaving, testCount, testFlags, setter, posting, meeting, resetting, clearing⟩ :=
    moved
  have flags := rend.flags
  have balance := rend.balance
  have zero : d.waitCount = 0 := rend.emptied (by omega)
  rw [rend.resetting (by omega), Bool.toNat_true, unanswered_of_zero zero] at balance
  have same : pending { d with mrend := false } after = pending d before := by
    simp only [pending, testCount, testFlags]
  refine ⟨?_, ?_, ?_, fun _ => zero, ?_⟩
  · simp only
    omega
  · have answered := unanswered_of_zero (d := { d with mrend := false }) zero after
    simp only [same, answered, Bool.toNat_false]
    omega
  · omega
  · omega

theorem Rendezvous.clear (rend : Rendezvous d before)
    (alone : before .posting = 0 ∧ before .meeting = 0 ∧ before .resetting = 0 ∧
      before .clearing = 1)
    (moved : Moved .clearing .bystander before after) :
    Rendezvous { d with waitFlags := false } after := by
  simp [Moved, forall_role] at moved
  obtain ⟨_, waiting, leaving, testCount, testFlags, setter, posting, meeting, resetting, clearing⟩ :=
    moved
  have balance := rend.balance
  have none : pending { d with waitFlags := false } after = 0 := by simp [pending]
  have unmet := unanswered_le { d with waitFlags := false } after
  refine ⟨?_, ?_, ?_, ?_, ?_⟩ <;> simp only [Bool.toNat_false, none] <;> omega

private theorem Effect.rendezvous (effect : Effect d here d' next)
    (around : Surroundings d here before)
    (rend : Rendezvous d before) (moved : Moved here.role next.role before after) :
    Rendezvous d' after := by
  have tokens := rend.tokens
  cases effect with
  | silent edge =>
    rw [edge.role] at moved
    rw [moved.same]
    exact rend
  | someone | nobody | read | skip =>
    rw [moved.same]
    exact rend
  | wakeOne =>
    rw [moved.same]
    refine rend.frame rfl rfl rfl (fun _ _ => rfl) fun meeting => ?_
    have more : d.semap ≤ post d.semap 1 := by
      unfold post
      split <;> omega
    exact (tokens meeting).trans more
  | take token =>
    have left : after .waiting + 1 = before .waiting := moved .waiting
    refine rend.frame rfl rfl rfl (fun role out => ?_) fun meeting => ?_
    · exact moved.other (by rintro rfl; simp [Pc.role] at out) (by rintro rfl; simp [Pc.role] at out)
    · have enough := tokens meeting
      simp only
      omega
  | expire empty finite =>
    have left : after .waiting + 1 = before .waiting := moved .waiting
    refine rend.frame rfl rfl rfl (fun role out => ?_) fun meeting => ?_
    · exact moved.other (by rintro rfl; simp [Pc.role] at out) (by rintro rfl; simp [Pc.role] at out)
    · have enough := tokens meeting
      omega
  | incr => exact rend.incr (around.alone rfl) (around.tests rfl).2 moved
  | decr =>
    have left : after .leaving + 1 = before .leaving := moved .leaving
    have counted := around.counted
    exact rend.decr (by omega) (around.tests rfl) moved
  | last zero => exact rend.last moved
  | notLast more => exact rend.notLast more moved
  | @testFlags _ rv =>
    have joins : (Pc.leaveFreeMtxd rv d.waitFlags).role =
        if d.waitFlags then .setter else .bystander := by
      cases d.waitFlags <;> rfl
    rw [joins] at moved
    exact rend.testFlags (around.tested rfl) (around.tests rfl).2.2 moved
  | @set _ rv lock =>
    have joins : (if lock then Pc.leaveGetLock rv else .leaveReturn rv).role = .bystander := by
      cases lock <;> rfl
    rw [joins] at moved
    exact rend.set moved
  | raise => exact rend.raise (around.alone rfl) (around.tests rfl).2 moved
  | @wakeAll _ n =>
    obtain ⟨equal, some⟩ := around.toPost n rfl
    have counted := around.counted
    have nonneg := around.semap
    have posted := post_accepted (show 0 < n by omega) (around.accepted n rfl)
    have enough : (before .waiting : ℤ) ≤ post d.semap n := by omega
    exact rend.wakeAll (equal ▸ some) enough (around.alone rfl) moved
  | meet set => exact rend.meet set (around.alone rfl) moved
  | reset => exact rend.reset (around.alone rfl) moved
  | clear => exact rend.clear (around.alone rfl) moved

private theorem Pc.holdsMtxi_of_role {p : Pc} {role : Role} (plays : p.role = role)
    (within : role ∈ [Role.posting, .meeting, .resetting, .clearing]) : p.holdsMtxi = true := by
  subst plays
  cases p with
  | leaveFreeMtxd rv rn => cases rn <;> simp [Pc.role] at within
  | _ => simp_all [Pc.role, Pc.holdsMtxi]

private theorem Pc.holdsMtxd_of_role {p : Pc} {role : Role} (plays : p.role = role)
    (within : role ∈ [Role.posting, .testCount, .testFlags]) : p.holdsMtxd = true := by
  subst plays
  cases p with
  | leaveFreeMtxd rv rn => rfl
  | _ => simp_all [Pc.role, Pc.holdsMtxd]

private theorem surroundings (inv : Invariant s) (accepted : PostsAccepted s action) :
    Surroundings s.data (s.pc action.thread) (roster s.pc) where
  counted := by
    have counted := inv.counted
    rw [counted_roles] at counted
    simpa [State.data] using counted
  semap := inv.semap
  toPost := inv.toPost action.thread
  tested := inv.tested action.thread
  accepted n here := by simpa [PostsAccepted, here, State.data] using accepted
  insideMtxi inside _ within := roster_of_inside inv.mtxi inside
    fun _ plays => Pc.holdsMtxi_of_role plays within
  insideMtxd inside _ within := roster_of_inside inv.mtxd inside
    fun _ plays => Pc.holdsMtxd_of_role plays within

theorem step_rendezvous (inv : Invariant s) (rend : Rendezvous s.data (roster s.pc))
    (accepted : PostsAccepted s action) (taken : step s action = some s') :
    Rendezvous s'.data (roster s'.pc) := by
  obtain ⟨p, moved, effect⟩ := step_effect taken
  rw [moved]
  exact effect.rendezvous (surroundings inv accepted) rend (roster_update s.pc action.thread p)

omit [DecidableEq Thread] in
theorem init_rendezvous (lock : Bool) :
    Rendezvous (init lock : State Thread).data (roster (init lock : State Thread).pc) := by
  have nobody (role : Role) (active : role ≠ .bystander) :
      roster (fun _ : Thread => Pc.idle) role = 0 :=
    headcount_eq_zero_iff.mpr fun _ => decide_eq_false (Ne.symm active)
  constructor <;> simp [init, State.data, pending, unanswered, nobody]

theorem exec_rendezvous {lock : Bool} {actions : List (Action Thread)}
    (accepted : Meets step PostsAccepted (init lock) actions)
    (ran : exec step (init lock) actions = some s) :
    Invariant s ∧ Rendezvous s.data (roster s.pc) := by
  refine exec_invariant_of_meets (fun s => Invariant s ∧ Rendezvous s.data (roster s.pc))
    ?_ ⟨init_invariant lock, init_rendezvous lock⟩ accepted ran
  rintro s action s' ⟨inv, rend⟩ fine taken
  exact ⟨step_invariant inv taken, step_rendezvous inv rend fine taken⟩

/-- Has brought `wait_count` to 0 under `CVFLAG_WAKE_ALL` and has not executed
`mrend.Set`. -/
def Pc.owesSet (d : Data) : Pc → Prop
  | .leaveTestCount _ | .leaveTestFlags _ => d.waitCount = 0 ∧ d.waitFlags = true
  | .leaveFreeMtxd _ rn => rn = true
  | .leaveSet _ => True
  | _ => False

/-- About to call `mtxi.Get` or `Get` of the external lock. -/
def Pc.needsOuterLock : Pc → Bool
  | .waitGetMtxi _ | .leaveGetLock _ | .oneGetMtxi | .allGetMtxi => true
  | _ => false

/-- The step is not the `wait_count--` of the given thread. -/
def NotDecrOf (thread : Thread) (s : State Thread) (action : Action Thread) : Prop :=
  action.thread = thread → ∀ rv, s.pc thread ≠ .leaveDecr rv

/-- Inside `WakeAll`, from its call to its return. -/
def Pc.inWakeAll : Pc → Bool
  | .allGetMtxi | .allGetMtxd | .allRead | .allRaise _ | .allPost _ | .allFreeMtxd _ => true
  | .allRend _ | .allReset _ | .allClear _ | .allSkip | .allFreeMtxi _ => true
  | _ => false

omit [DecidableEq Thread] in
theorem roster_pos {thread : Thread} {role : Role} (plays : (s.pc thread).role = role) :
    0 < roster s.pc role := headcount_pos_iff.mpr ⟨thread, by simpa using plays⟩

omit [DecidableEq Thread] in
theorem exists_of_roster_pos {role : Role} (present : 0 < roster s.pc role) :
    ∃ thread, (s.pc thread).role = role := by
  obtain ⟨thread, plays⟩ := headcount_pos_iff.mp present
  exact ⟨thread, by simpa using plays⟩

theorem Effect.registered (effect : Effect d here d' next) (inside : here.registered = true)
    (keeps : ∀ rv, here ≠ .leaveDecr rv) : next.registered = true := by
  cases effect with
  | silent edge => simpa [Pc.registered, Pc.waiting, Pc.leaving, edge.role] using inside
  | @decr d rv => exact absurd rfl (keeps rv)
  | _ => simp_all [Pc.registered, Pc.waiting, Pc.leaving, Pc.role]

theorem Pc.needsOuterLock_of_registered {p : Pc} (inside : p.registered = true) :
    p.needsOuterLock = false := by
  cases p <;> simp_all [Pc.registered, Pc.waiting, Pc.leaving, Pc.role, Pc.needsOuterLock]

omit [Fintype Thread] in
/-- A registered thread reaches its `wait_count--` without `mtxi` and without
the external lock. -/
theorem needsOuterLock_of_registered {actions : List (Action Thread)} {thread : Thread}
    (inside : (s.pc thread).registered = true)
    (before : Meets step (NotDecrOf thread) s actions) (ran : exec step s actions = some s') :
    (s'.pc thread).needsOuterLock = false := by
  apply Pc.needsOuterLock_of_registered
  refine exec_invariant_of_meets (fun s : State Thread => (s.pc thread).registered = true) ?_ inside before ran
  intro s action s' inside fine taken
  obtain ⟨p, moved, effect⟩ := step_effect taken
  rw [moved]
  by_cases same : thread = action.thread
  · subst same
    rw [Function.update_self]
    exact effect.registered inside (fine rfl)
  · rwa [Function.update_of_ne same]

private theorem Pc.eq_of_testCount {p : Pc} (plays : p.role = .testCount) :
    ∃ rv, p = .leaveTestCount rv := by
  cases p with
  | leaveTestCount rv => exact ⟨rv, rfl⟩
  | leaveFreeMtxd rv rn => cases rn <;> cases plays
  | _ => cases plays

private theorem Pc.eq_of_testFlags {p : Pc} (plays : p.role = .testFlags) :
    ∃ rv, p = .leaveTestFlags rv := by
  cases p with
  | leaveTestFlags rv => exact ⟨rv, rfl⟩
  | leaveFreeMtxd rv rn => cases rn <;> cases plays
  | _ => cases plays

private theorem Pc.eq_of_setter {p : Pc} (plays : p.role = .setter) :
    ∃ rv, p = .leaveFreeMtxd rv true ∨ p = .leaveSet rv := by
  cases p with
  | leaveSet rv => exact ⟨rv, .inr rfl⟩
  | leaveFreeMtxd rv rn =>
    cases rn with
    | false => cases plays
    | true => exact ⟨rv, .inl rfl⟩
  | _ => cases plays

omit [DecidableEq Thread] in
private theorem exists_owesSet (due : 0 < roster s.pc .setter + pending s.data (roster s.pc)) :
    ∃ u, (s.pc u).owesSet s.data := by
  by_cases some : 0 < roster s.pc .setter
  · obtain ⟨u, plays⟩ := exists_of_roster_pos some
    obtain ⟨rv, here | here⟩ := Pc.eq_of_setter plays
    · exact ⟨u, by simp [Pc.owesSet, here]⟩
    · exact ⟨u, by simp [Pc.owesSet, here]⟩
  · unfold pending at due
    split at due
    · rename_i raised
      obtain ⟨flag, zero⟩ := raised
      by_cases some : 0 < roster s.pc .testCount
      · obtain ⟨u, plays⟩ := exists_of_roster_pos some
        obtain ⟨rv, here⟩ := Pc.eq_of_testCount plays
        exact ⟨u, by simp [Pc.owesSet, here, zero, flag]⟩
      · obtain ⟨u, plays⟩ := exists_of_roster_pos (show 0 < roster s.pc .testFlags by omega)
        obtain ⟨rv, here⟩ := Pc.eq_of_testFlags plays
        exact ⟨u, by simp [Pc.owesSet, here, zero, flag]⟩
    · omega

/-- The state of a `WakeAll` blocked in `mrend.Wait`: the signal is set, or it
is on its way, or enough tokens are there for the threads that still have to
leave, none of which needs what the `WakeAll` or its caller may hold. -/
def Answered (s : State Thread) : Prop :=
  s.mrend = true ∨ (s.waitCount = 0 ∧ ∃ u, (s.pc u).owesSet s.data) ∨
    (0 < s.waitCount ∧ headcount Pc.waiting s.pc ≤ s.semap ∧
      ∀ u actions s', (s.pc u).registered = true → Meets step (NotDecrOf u) s actions →
        exec step s actions = some s' → (s'.pc u).needsOuterLock = false)

theorem answered {t : Thread} {n : ℤ} (inv : Invariant s)
    (rend : Rendezvous s.data (roster s.pc)) (waits : s.pc t = .allRend n) : Answered s := by
  have meeting : 0 < roster s.pc .meeting := roster_pos (by rw [waits]; rfl)
  have tokens := rend.tokens meeting
  have balance := rend.balance
  unfold Answered
  by_cases signal : s.mrend = true
  · exact .inl signal
  · by_cases zero : s.waitCount = 0
    · refine .inr (.inl ⟨zero, exists_owesSet ?_⟩)
      simp only [State.data, unanswered, zero, if_true] at balance
      have unset : s.mrend.toNat = 0 := by simpa using signal
      simp only [State.data, zero]
      omega
    · refine .inr (.inr ⟨?_, tokens, ?_⟩)
      · have counted := inv.counted
        omega
      · intro u actions s' inside before ran
        exact needsOuterLock_of_registered inside before ran

omit [DecidableEq Thread] in
private theorem unset_of_nobody (rend : Rendezvous s.data (roster s.pc))
    (outside : ∀ t, (s.pc t).inWakeAll = true → (s.pc t).holdsMtxi = false) :
    s.mrend = false ∧ s.waitFlags = false := by
  have nobody (role : Role) (within : role ∈ [Role.posting, .meeting, .resetting, .clearing]) :
      roster s.pc role = 0 := by
    refine headcount_eq_zero_iff.mpr fun t => ?_
    by_contra plays
    have plays : (s.pc t).role = role := by simpa using plays
    have inside := Pc.holdsMtxi_of_role plays within
    have all : (s.pc t).inWakeAll = true := by
      subst plays
      cases here : s.pc t with
      | leaveFreeMtxd rv rn => cases rn <;> simp [here, Pc.role] at within
      | _ => simp_all [Pc.role, Pc.inWakeAll]
    rw [outside t all] at inside
    cases inside
  obtain ⟨flags, balance, _, _, _⟩ := rend
  rw [nobody .posting (by simp), nobody .meeting (by simp), nobody .resetting (by simp),
    nobody .clearing (by simp)] at flags
  rw [nobody .meeting (by simp), nobody .resetting (by simp)] at balance
  constructor
  · exact Bool.toNat_eq_zero.mp (by simp only [State.data] at balance; omega)
  · exact Bool.toNat_eq_zero.mp flags

/-- A `WakeAll` blocked in `mrend.Wait` will be answered, and between two
`WakeAll` calls neither the signal nor the flag is left set. -/
theorem wakeAll_answered {lock : Bool} {actions : List (Action Thread)}
    (accepted : Meets step PostsAccepted (init lock) actions)
    (ran : exec step (init lock) actions = some s) :
    (∀ t n, s.pc t = .allRend n → Answered s) ∧
      ((∀ t, (s.pc t).inWakeAll = true → (s.pc t).holdsMtxi = false) →
        s.mrend = false ∧ s.waitFlags = false) := by
  obtain ⟨inv, rend⟩ := exec_rendezvous accepted ran
  constructor
  · intro t n waits
    exact answered inv rend waits
  · intro outside
    exact unset_of_nobody rend outside

/-- Thread 0 waits without a limit; thread 1 posts one token in `WakeAll` and
blocks in `mrend.Wait`. -/
def blockedRun : List (Action (Fin 2)) :=
  .call 0 (.wait .infinite) :: List.replicate 5 (.run 0) ++
    .call 1 .wakeAll :: List.replicate 6 (.run 1)

theorem wakeAll_answered_blockedRun :
    ∃ s, exec step (init false) blockedRun = some s ∧ s.pc 1 = .allRend 1 ∧ Answered s := by
  obtain ⟨s, ran, blocked⟩ : ∃ s, exec step (init false) blockedRun = some s ∧
      s.pc 1 = .allRend 1 := by
    have there : (exec step (init false) blockedRun).map (fun s => s.pc 1) =
        some (.allRend 1) := by decide
    simpa [Option.map_eq_some_iff] using there
  refine ⟨s, ran, blocked, ?_⟩
  exact (wakeAll_answered (by decide) ran).1 1 1 blocked

end Prot.Lock.ConditionVariable
