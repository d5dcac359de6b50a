import Prot.Lock.ConditionVariableInvariant

/-! The tokens in `semap` against the threads that can still take one: when a
wake leaves a token behind, and what that token does to a later `Wait`. -/

namespace Prot.Lock.ConditionVariable

open Concurrency Time

variable {Thread : Type} [DecidableEq Thread] [Fintype Thread]

/-- No more tokens than threads between `wait_count++` and the return of
`semap.Wait`. -/
def NoStaleToken (s : State Thread) : Prop := s.semap ≤ headcount Pc.waiting s.pc

/-- The wakes that cannot leave a token behind. `WakeOne` posts while some
waiting thread has no token yet; `WakeAll` posts while there is no token and
no thread has left `semap.Wait` without decrementing `wait_count`. A `Post`
that `semap` refuses for its limit does no harm. -/
def PostsForWaiters (s : State Thread) (action : Action Thread) : Prop :=
  match s.pc action.thread with
  | .onePost => s.semap < maximumCount → s.semap < headcount Pc.waiting s.pc
  | .allPost n => s.semap + n ≤ maximumCount → s.semap = 0 ∧ headcount Pc.leaving s.pc = 0
  | _ => True

/-- What a `Wait` that has left `semap.Wait` will return. -/
def Pc.result : Pc → Option Bool
  | .leaveGetMtxd rv | .leaveDecr rv | .leaveTestCount rv | .leaveTestFlags rv => some rv
  | .leaveFreeMtxd rv _ | .leaveSet rv | .leaveGetLock rv | .leaveReturn rv => some rv
  | _ => none

/-- Inside a `WakeOne` or `WakeAll` that holds `mtxi` and has not posted. -/
def Pc.wakes : Pc → Bool
  | .oneTest | .onePost | .allGetMtxd | .allRead | .allRaise _ | .allPost _ => true
  | _ => false

/-- The step is not the first one, `mtxi.Get`, of a `WakeOne` or a `WakeAll`. -/
def NoWakeStarts (s : State Thread) (action : Action Thread) : Prop :=
  s.pc action.thread ≠ .oneGetMtxi ∧ s.pc action.thread ≠ .allGetMtxi

/-- A run leaves no stale wake-up: tokens never outnumber the waiting threads,
and once no thread waits there is no token, and no `Wait` called afterwards
gets `True` unless a `WakeOne` or `WakeAll` starts first. -/
def NoStaleWakeUp (start : State Thread) (actions : List (Action Thread)) : Prop :=
  Always step NoStaleToken start actions ∧
    ∀ before after s s', actions = before ++ after → exec step start before = some s →
      exec step s after = some s' → headcount Pc.waiting s.pc = 0 →
      s.semap = 0 ∧ (Meets step NoWakeStarts s after →
        ∀ thread t, .call thread (.wait t) ∈ after → (s'.pc thread).result ≠ some true)

variable {s s' : State Thread} {action : Action Thread} {d d' : Data} {here next : Pc}

theorem Effect.waiting (effect : Effect d here d' next) (outside : here.holdsMtxi = false ∨
    here.holdsMtxd = false) : next.waiting = true → here.waiting = true := by
  cases effect with
  | silent edge => simp [Pc.waiting, edge.role]
  | set lock => cases lock <;> simp [Pc.waiting, Pc.role]
  | testFlags => cases flags : d.waitFlags <;> simp [Pc.waiting, Pc.role]
  | incr => simp [Pc.holdsMtxi, Pc.holdsMtxd] at outside
  | _ => simp [Pc.waiting, Pc.role]

private theorem post_le {semap n bound : ℤ} (nonneg : 0 < n) (kept : semap ≤ bound) :
    post semap n ≤ bound ↔ (semap + n ≤ maximumCount → semap + n ≤ bound) := by
  unfold post
  split
  · rename_i refused
    constructor
    · intro _ fits
      omega
    · intro _
      exact kept
  · rename_i accepted
    constructor
    · intro fits _
      exact fits
    · intro fits
      exact fits (by omega)

/-- A waiting thread that moves takes at most one token with it. -/
theorem Effect.tokens (effect : Effect d here d' next) (one : here ≠ .onePost)
    (all : ∀ n, here ≠ .allPost n) :
    d'.semap - d.semap ≤ (next.waiting.toNat : ℤ) - here.waiting.toNat ∨
      (d.semap ≤ 0 ∧ d'.semap = d.semap) := by
  cases effect with
  | silent edge => simp [Pc.waiting, edge.role]
  | set lock => cases lock <;> simp [Pc.waiting, Pc.role]
  | testFlags => cases flags : d.waitFlags <;> simp [Pc.waiting, Pc.role]
  | expire empty _ => exact .inr ⟨empty, rfl⟩
  | wakeOne => exact absurd rfl one
  | @wakeAll d n => exact absurd rfl (all n)
  | _ => simp [Pc.waiting, Pc.role]

private theorem Effect.semap_le (effect : Effect d here d' next) (one : here ≠ .onePost)
    (all : ∀ n, here ≠ .allPost n) : d'.semap ≤ d.semap := by
  cases effect with
  | take _ => exact Int.sub_le_self _ Int.one_nonneg
  | wakeOne => exact absurd rfl one
  | @wakeAll d n => exact absurd rfl (all n)
  | _ => exact le_rfl

private theorem Effect.of_onePost (effect : Effect d .onePost d' next) :
    d'.semap = post d.semap 1 ∧ next = .oneFreeMtxi 1 := by
  cases effect with
  | silent edge => cases edge
  | wakeOne => exact ⟨rfl, rfl⟩

private theorem Effect.of_allPost {n : ℤ} (effect : Effect d (.allPost n) d' next) :
    d'.semap = post d.semap n ∧ next = .allFreeMtxd n := by
  cases effect with
  | silent edge => cases edge
  | wakeAll => exact ⟨rfl, rfl⟩

omit [DecidableEq Thread] in
private theorem registered_parts (pc : Thread → Pc) :
    headcount Pc.registered pc = headcount Pc.waiting pc + headcount Pc.leaving pc := by
  refine headcount_add fun p => ?_
  by_cases waits : p.role = .waiting <;> by_cases leaves : p.role = .leaving <;>
    simp_all [Pc.registered, Pc.waiting, Pc.leaving]

private theorem noStaleToken_step (inv : Invariant s) (fine : NoStaleToken s)
    (taken : step s action = some s') : NoStaleToken s' ↔ PostsForWaiters s action := by
  obtain ⟨p, moved, effect⟩ := step_effect taken
  have change := headcount_update Pc.waiting s.pc action.thread p
  have parts := registered_parts s.pc
  have counted := inv.counted
  have nonneg := inv.semap
  unfold NoStaleToken at fine ⊢
  unfold PostsForWaiters
  rw [moved]
  by_cases one : s.pc action.thread = .onePost
  · rw [one] at effect
    obtain ⟨tokens, rfl⟩ := effect.of_onePost
    simp only [State.data] at tokens
    have same : headcount Pc.waiting (Function.update s.pc action.thread (.oneFreeMtxi 1)) =
        headcount Pc.waiting s.pc := headcount_update_same (by rw [one]; rfl)
    rw [same, tokens, post_le one_pos fine, one]
    constructor <;> intro fits below <;> have := fits (by omega) <;> omega
  · by_cases all : ∃ n, s.pc action.thread = .allPost n
    · obtain ⟨n, all⟩ := all
      obtain ⟨equal, nonzero⟩ := inv.toPost _ n (by rw [all]; rfl)
      rw [all] at effect
      obtain ⟨tokens, rfl⟩ := effect.of_allPost
      simp only [State.data] at tokens
      have same : headcount Pc.waiting (Function.update s.pc action.thread (.allFreeMtxd n)) =
          headcount Pc.waiting s.pc := headcount_update_same (by rw [all]; rfl)
      rw [same, tokens, post_le (by omega) fine, all]
      constructor <;> intro fits below <;> have := fits below <;> omega
    · have tokens := effect.tokens one (fun n here => all ⟨n, here⟩)
      simp only [State.data] at tokens
      constructor
      · intro _
        split
        · contradiction
        · rename_i n here
          exact absurd ⟨n, here⟩ all
        · trivial
      · intro _
        omega

/-- Nobody can be woken: there is no token, and a wake that has started finds
no waiting thread to post for. -/
structure Quiet (s : State Thread) : Prop where
  semap : s.semap = 0
  wakes : ∀ thread, (s.pc thread).wakes = true → headcount Pc.waiting s.pc = 0

theorem Effect.wakes (effect : Effect d here d' next) (wakes : next.wakes = true) :
    here.wakes = true ∨ here = .oneGetMtxi ∨ here = .allGetMtxi := by
  cases effect with
  | silent edge =>
    cases edge with
    | call call => cases call <;> cases wakes
    | waitFreedMtxi lock => cases lock <;> cases wakes
    | @leaveFreedMtxd rv rn lock => cases rn <;> cases lock <;> cases wakes
    | _ => simp_all [Pc.wakes]
  | set lock => cases lock <;> cases wakes
  | _ => simp_all [Pc.wakes]

theorem Effect.result (effect : Effect d here d' next) (empty : d.semap ≤ 0)
    (result : next.result = some true) : here.result = some true := by
  cases effect with
  | silent edge =>
    cases edge with
    | call call => cases call <;> cases result
    | waitFreedMtxi lock => cases lock <;> cases result
    | @leaveFreedMtxd rv rn lock => cases rn <;> cases lock <;> exact result
    | _ => simp_all [Pc.result]
  | set lock => cases lock <;> exact result
  | take token => omega
  | _ => simp_all [Pc.result]

private theorem Pc.holdsMtxi_of_wakes {p : Pc} (wakes : p.wakes = true) : p.holdsMtxi = true := by
  cases p <;> simp_all [Pc.wakes, Pc.holdsMtxi]

private theorem Pc.not_waiting_of_wakes {p : Pc} (wakes : p.wakes = true) : p.waiting = false := by
  cases p <;> simp_all [Pc.wakes, Pc.waiting, Pc.role]

theorem quiet_step (inv : Invariant s) (quiet : Quiet s) (posts : PostsForWaiters s action)
    (starts : NoWakeStarts s action) (taken : step s action = some s') : Quiet s' := by
  obtain ⟨p, moved, effect⟩ := step_effect taken
  have empty := quiet.semap
  have change := headcount_update Pc.waiting s.pc action.thread p
  constructor
  · by_cases one : s.pc action.thread = .onePost
    · have nobody := quiet.wakes _ (by rw [one]; rfl)
      simp [PostsForWaiters, one, empty, nobody, maximumCount] at posts
    · by_cases all : ∃ n, s.pc action.thread = .allPost n
      · obtain ⟨n, all⟩ := all
        have nobody := quiet.wakes _ (by rw [all]; rfl)
        obtain ⟨equal, nonzero⟩ := inv.toPost _ n (by rw [all]; rfl)
        have counted := inv.counted
        have parts := registered_parts s.pc
        rw [all] at effect
        have tokens := effect.of_allPost.1
        simp only [State.data, post, empty] at tokens
        simp only [PostsForWaiters, all, empty] at posts
        split at tokens
        · exact tokens
        · have := (posts (by omega)).2
          omega
      · have fewer := effect.semap_le one (fun n here => all ⟨n, here⟩)
        have nonneg := (step_invariant inv taken).semap
        simp only [State.data, empty] at fewer
        exact le_antisymm fewer nonneg
  · intro u wakes
    rw [moved] at wakes ⊢
    by_cases same : u = action.thread
    · rw [same, Function.update_self] at wakes
      rcases effect.wakes wakes with before | one | all
      · have nobody := quiet.wakes _ before
        rw [Pc.not_waiting_of_wakes before, Pc.not_waiting_of_wakes wakes] at change
        omega
      · exact absurd one starts.1
      · exact absurd all starts.2
    · rw [Function.update_of_ne same] at wakes
      have nobody := quiet.wakes u wakes
      have outside : (s.pc action.thread).holdsMtxi = false := by
        by_contra locked
        exact same (inv.mtxi.unique (Pc.holdsMtxi_of_wakes wakes) (by simpa using locked))
      have idle := headcount_eq_zero_iff.mp nobody action.thread
      have still : p.waiting = false := by
        by_contra waits
        simp [effect.waiting (.inl outside) (by simpa using waits)] at idle
      rw [idle, still] at change
      omega

private theorem result_step (quiet : Quiet s) (taken : step s action = some s') (thread : Thread)
    (result : (s'.pc thread).result = some true) : (s.pc thread).result = some true := by
  obtain ⟨p, moved, effect⟩ := step_effect taken
  rw [moved] at result
  by_cases same : thread = action.thread
  · rw [same] at result ⊢
    rw [Function.update_self] at result
    exact effect.result (le_of_eq quiet.semap) result
  · rwa [Function.update_of_ne same] at result

private theorem result_of_quiet {actions : List (Action Thread)} (inv : Invariant s)
    (quiet : Quiet s)
    (posts : Meets step PostsForWaiters s actions) (starts : Meets step NoWakeStarts s actions)
    (ran : exec step s actions = some s') (thread : Thread)
    (result : (s'.pc thread).result = some true) : (s.pc thread).result = some true := by
  induction actions generalizing s with
  | nil => cases ran; exact result
  | cons action rest ih =>
    obtain ⟨next, taken, continued⟩ := exec_cons_eq_some ran
    obtain ⟨post, laterPosts⟩ := posts next taken
    obtain ⟨start, laterStarts⟩ := starts next taken
    have before := ih (step_invariant inv taken) (quiet_step inv quiet post start taken)
      laterPosts laterStarts continued
    exact result_step quiet taken thread before

omit [Fintype Thread] in
private theorem result_of_call {thread : Thread} {t : TimeUnit}
    (taken : step s (.call thread (.wait t)) =
    some s') : (s'.pc thread).result = none := by
  simp only [step] at taken
  split at taken
  · cases taken
    simp [State.goto, Call.entry, Pc.result]
  · cases taken

private theorem no_result_of_quiet {actions : List (Action Thread)} (inv : Invariant s)
    (quiet : Quiet s)
    (posts : Meets step PostsForWaiters s actions) (starts : Meets step NoWakeStarts s actions)
    (ran : exec step s actions = some s') {thread : Thread} {t : TimeUnit}
    (called : .call thread (.wait t) ∈ actions) : (s'.pc thread).result ≠ some true := by
  induction actions generalizing s with
  | nil => cases called
  | cons action rest ih =>
    obtain ⟨next, taken, continued⟩ := exec_cons_eq_some ran
    obtain ⟨post, laterPosts⟩ := posts next taken
    obtain ⟨start, laterStarts⟩ := starts next taken
    have invNext := step_invariant inv taken
    have quietNext := quiet_step inv quiet post start taken
    rcases List.mem_cons.mp called with now | later
    · subst now
      intro result
      have before := result_of_quiet invNext quietNext laterPosts laterStarts continued thread
        result
      rw [result_of_call taken] at before
      cases before
    · exact ih invNext quietNext laterPosts laterStarts continued later

omit [DecidableEq Thread] in
/-- Without waiting threads there is no token, and a wake that has started
holds `mtxi` until it has posted for nobody. -/
theorem quiet_of_nobody (inv : Invariant s) (fine : NoStaleToken s)
    (nobody : headcount Pc.waiting s.pc = 0) : Quiet s := by
  unfold NoStaleToken at fine
  rw [nobody] at fine
  exact ⟨le_antisymm fine inv.semap, fun _ _ => nobody⟩

omit [DecidableEq Thread] in
private theorem noStaleToken_init (lock : Bool) : NoStaleToken (init lock : State Thread) := by
  simp [NoStaleToken, init]

theorem always_noStaleToken_iff (lock : Bool) (actions : List (Action Thread)) :
    Always step NoStaleToken (init lock) actions ↔ Meets step PostsForWaiters (init lock) actions :=
  always_iff_meets Invariant (fun _ _ _ => step_invariant)
    (fun _ _ _ inv fine taken => noStaleToken_step inv fine taken)
    (init_invariant lock) (noStaleToken_init lock)

/-- A run leaves no stale wake-up exactly when each of its posts is made for
threads that are waiting without a token. -/
theorem noStaleWakeUp_iff (lock : Bool) (actions : List (Action Thread)) :
    NoStaleWakeUp (init lock) actions ↔ Meets step PostsForWaiters (init lock) actions := by
  constructor
  · intro ⟨always, _⟩
    exact (always_noStaleToken_iff lock actions).mp always
  · intro meets
    refine ⟨(always_noStaleToken_iff lock actions).mpr meets, ?_⟩
    rintro before after s s' rfl ran continued nobody
    obtain ⟨first, second⟩ := meets.append ran
    have inv := exec_step_invariant ran
    have fine := ((always_noStaleToken_iff lock before).mpr first).final ran
    have quiet := quiet_of_nobody inv fine nobody
    refine ⟨quiet.semap, fun starts thread t called => ?_⟩
    exact no_result_of_quiet inv quiet second starts continued called

/-- Thread 0 waits with a limit and gives up; thread 1 reads `wait_count` in
`WakeAll` before thread 0 decrements it, and posts one token for it. -/
def staleRun : List (Action (Fin 2)) :=
  .call 0 (.wait ⟨1⟩) :: List.replicate 5 (.run 0) ++ [.expire 0] ++
    .call 1 .wakeAll :: List.replicate 5 (.run 1)

theorem staleRun_stale : ¬ NoStaleWakeUp (init false) staleRun := by
  intro ⟨always, _⟩
  obtain ⟨s, ran⟩ := Option.isSome_iff_exists.mp
    (show (exec step (init false) staleRun).isSome = true by decide)
  have counts : (exec step (init false) staleRun).map
      (fun s => (s.semap, headcount Pc.waiting s.pc)) = some (1, 0) := by decide
  have fine := always.final ran
  simp only [ran, Option.map_some, Option.some.injEq, Prod.mk.injEq] at counts
  simp [NoStaleToken, counts] at fine

end Prot.Lock.ConditionVariable
