import Prot.Lock.ConditionVariableRendezvous

/-! The wake-ups that are given out against those that arrive: none is lost on
the way and none arrives twice. -/

namespace Prot.Lock.ConditionVariable

open Concurrency Time

/-- What a call returns: a `WakeOne` or `WakeAll` the number of threads it has woken,
a `Wait` whether it was. -/
inductive Return where
  | woke (n : ℤ)
  | waited (rv : Bool)
  deriving DecidableEq, Repr

def Pc.returns : Pc → Option Return
  | .oneFreeMtxi n | .allFreeMtxi n => some (.woke n)
  | .leaveReturn rv => some (.waited rv)
  | _ => none

/-- The numbers that the wakes of a run have returned. -/
def Return.given : Return → Option ℤ
  | .woke n => some n
  | .waited _ => none

/-- Has taken a token, and is still to return `True`. -/
def Pc.woken : Pc → Bool
  | .leaveGetMtxd rv | .leaveDecr rv | .leaveTestCount rv | .leaveTestFlags rv => rv
  | .leaveFreeMtxd rv _ | .leaveSet rv | .leaveGetLock rv | .leaveReturn rv => rv
  | _ => false

/-- What a wake has posted, and is still to return. -/
def Pc.posted : Pc → ℤ
  | .oneFreeMtxi n | .allFreeMtxd n | .allRend n | .allReset n | .allClear n | .allFreeMtxi n => n
  | _ => 0

variable {Thread : Type} [DecidableEq Thread]

def observe (s : State Thread) (action : Action Thread) : Option Return :=
  (s.pc action.thread).returns

/-- The post of the step, of a `WakeOne` too, is not refused for the limit of `semap`. -/
def Posts (s : State Thread) (action : Action Thread) : Prop :=
  PostsAccepted s action ∧ (s.pc action.thread = .onePost → s.semap + 1 ≤ maximumCount)

instance (s : State Thread) (action : Action Thread) : Decidable (Posts s action) :=
  inferInstanceAs (Decidable (PostsAccepted s action ∧
    (s.pc action.thread = .onePost → s.semap + 1 ≤ maximumCount)))

/-- What a return takes from, or adds to, the wake-ups under way. -/
def Return.value : Return → ℤ
  | .woke n => n
  | .waited rv => -rv.toNat

variable {s s' : State Thread} {action : Action Thread} {d d' : Data} {here next : Pc}

/-- The tokens, what the thread of the step has taken of them, and what it has not
yet returned of those it has posted. -/
theorem Effect.balance (effect : Effect d here d' next)
    (one : here = .onePost → d.semap + 1 ≤ maximumCount)
    (all : ∀ n, here = .allPost n → 0 < n ∧ d.semap + n ≤ maximumCount) :
    d'.semap + next.woken.toNat - next.posted =
      d.semap + here.woken.toNat - here.posted + (here.returns.map Return.value).getD 0 := by
  cases effect with
  | silent edge =>
    cases edge with
    | call call => cases call <;> simp [Pc.woken, Pc.posted, Pc.returns, Call.entry]
    | waitFreedMtxi lock => cases lock <;> simp [Pc.woken, Pc.posted, Pc.returns]
    | @leaveFreedMtxd rv rn lock =>
      cases rn <;> cases lock <;> simp [Pc.woken, Pc.posted, Pc.returns]
    | _ => simp [Pc.woken, Pc.posted, Pc.returns, Return.value]
  | set lock => cases lock <;> simp [Pc.woken, Pc.posted, Pc.returns]
  | wakeOne =>
    have posted := post_accepted one_pos (one rfl)
    simp [Pc.woken, Pc.posted, Pc.returns, posted]
  | @wakeAll d n =>
    obtain ⟨some, fits⟩ := all n rfl
    simp [Pc.woken, Pc.posted, Pc.returns, post_accepted some fits]
  | _ => simp [Pc.woken, Pc.posted, Pc.returns]

variable [Fintype Thread]

/-- The tokens in `semap` and those that a `Wait` is bringing back, less those
that a wake is still to return. -/
def State.underWay (s : State Thread) : ℤ :=
  s.semap + headcount Pc.woken s.pc - contributed Pc.posted s.pc

private theorem underWay_step (inv : Invariant s) (posts : Posts s action)
    (taken : step s action = some s') :
    s'.underWay = s.underWay + ((observe s action).map Return.value).getD 0 := by
  obtain ⟨p, moved, effect⟩ := step_effect taken
  obtain ⟨all, one⟩ := posts
  have balance := effect.balance one (fun n here => by
    obtain ⟨equal, some⟩ := inv.toPost _ n (by rw [here]; rfl)
    have counted := inv.counted
    simp only [PostsAccepted, here] at all
    exact ⟨by omega, all⟩)
  have tokens : s.data.semap = s.semap := rfl
  have later : s'.data.semap = s'.semap := rfl
  have woken := headcount_move Pc.woken s.pc action.thread p
  have posted := contributed_update Pc.posted s.pc action.thread p
  unfold State.underWay observe
  rw [moved]
  omega

omit [DecidableEq Thread] in
private theorem underWay_init (lock : Bool) : (init lock : State Thread).underWay = 0 := by
  have woken : headcount Pc.woken (init lock : State Thread).pc = 0 :=
    headcount_eq_zero_iff.mpr fun _ => rfl
  have posted : contributed Pc.posted (init lock : State Thread).pc = 0 :=
    contributed_eq_zero fun _ => rfl
  rw [State.underWay, woken, posted]
  rfl

omit [DecidableEq Thread] in
private theorem underWay_of_idle (idle : ∀ thread, s.pc thread = .idle) : s.underWay = s.semap := by
  have woken : headcount Pc.woken s.pc = 0 :=
    headcount_eq_zero_iff.mpr fun thread => by rw [idle]; rfl
  have posted : contributed Pc.posted s.pc = 0 := contributed_eq_zero fun thread => by
    rw [idle]
    rfl
  rw [State.underWay, woken, posted]
  omega

private theorem sum_value (returns : List Return) : (returns.map Return.value).sum =
    (returns.filterMap Return.given).sum - returns.count (.waited true) := by
  induction returns with
  | nil => rfl
  | cons first rest ih =>
    rw [List.map_cons, List.sum_cons, ih]
    cases first with
    | woke n =>
      rw [List.filterMap_cons_some (show (Return.woke n).given = some n from rfl),
        List.sum_cons, List.count_cons_of_ne (by simp), Return.value]
      omega
    | waited rv =>
      rw [List.filterMap_cons_none rfl]
      cases rv with
      | false => simp [Return.value]
      | true =>
        simp only [Return.value, List.count_cons_self, Bool.toNat_true]
        omega

/-- In every run the numbers that the wakes return add up to the `Wait`s that return
`True`, but for the wake-ups under way; with no call in progress those are in `semap`. -/
theorem wakeups_conserved {lock : Bool} {actions : List (Action Thread)} {last : State Thread}
    (posts : Meets step Posts (init lock) actions)
    (ran : exec step (init lock) actions = some last) :
    ((trace step observe (init lock) actions).filterMap Return.given).sum =
      (trace step observe (init lock) actions).count (.waited true) + last.underWay ∧
    ((∀ thread, last.pc thread = .idle) → last.underWay = last.semap) := by
  have balance : last.underWay = (init lock : State Thread).underWay +
      ((trace step observe (init lock) actions).map Return.value).sum :=
    trace_sum Invariant (fun _ _ _ inv _ taken => step_invariant inv taken)
      (fun _ _ _ inv fine taken => underWay_step inv fine taken) (init_invariant lock) posts ran
  rw [underWay_init, sum_value] at balance
  exact ⟨by omega, underWay_of_idle⟩

/-- Thread 0 waits without a limit and thread 1 wakes it with `WakeOne`; both return. -/
def returnedRun : List (Action (Fin 2)) :=
  .call 0 (.wait .infinite) :: List.replicate 5 (.run 0) ++
    .call 1 .wakeOne :: List.replicate 4 (.run 1) ++ List.replicate 7 (.run 0)

theorem wakeups_conserved_returnedRun : ∃ last, exec step (init false) returnedRun = some last ∧
    trace step observe (init false) returnedRun = [.woke 1, .waited true] ∧ last.underWay = 0 := by
  obtain ⟨last, ran⟩ := Option.isSome_iff_exists.mp
    (show (exec step (init false) returnedRun).isSome = true by decide)
  have shows : trace step observe (init false) returnedRun = [.woke 1, .waited true] := by decide
  obtain ⟨conserved, -⟩ := wakeups_conserved (by decide) ran
  rw [shows] at conserved
  have equal : (1 : ℤ) = 1 + last.underWay := conserved
  exact ⟨last, ran, shows, by omega⟩

end Prot.Lock.ConditionVariable
