import Prot.System.PoolThreadIdle

/-! A `PoolThread` whose `Thread::Run` fails: `PTDFLAG_STARTING` stays set, so
no later `Run` tries again, and the next job goes to a worker that is not there. -/

namespace Prot.System.PoolThread

open Concurrency Time

variable {Arg : Type}

/-- No worker exists: none was created, or it has left. -/
def Worker.gone : Worker → Bool
  | .absent | .exited => true
  | _ => false

/-- From the return of `func` to `sig_out.Set`. -/
def Worker.reports : Worker → Bool
  | .resetIn | .readFlag | .writeFlag _ | .setOut => true
  | _ => false

/-- An accepted job that the worker has not reported as done. -/
def State.outstanding (s : State Arg) : Bool :=
  s.finished < s.accepted.length || s.worker.reports

/-- The pool thread, whether a `Thread::Run` has failed, and whether a `Run`
that found no worker has not tried to create one. -/
structure Trial (Arg : Type) where
  pool : State Arg
  failed : Bool
  skipped : Bool

def Action.fails : Action Arg → Bool
  | .createFails _ => true
  | _ => false

/-- A `Run` passes over the creation although there is no worker. -/
def State.skips (s : State Arg) : Action Arg → Bool
  | .owner => match s.owner with
    | .runTestStarting _ => s.flag.starting && s.worker.gone
    | _ => false
  | _ => false

def Trial.step (t : Trial Arg) (action : Action Arg) : Option (Trial Arg) :=
  (PoolThread.step t.pool action).map fun s =>
    ⟨s, t.failed || action.fails, t.skipped || t.pool.skips action⟩

/-- The owner keeps the object, and a failed `Thread::Run` leaves it offline. -/
def Action.kept : Action Arg → Bool
  | .call .destroy => false
  | .createFails online => !online
  | _ => true

/-- A failure leaves the pool thread as if never started. -/
structure Trial.Safe (t : Trial Arg) : Prop where
  tries : t.skipped = false
  returns : ∀ a, t.pool.owner = .runReturn a false → t.pool.outstanding = false →
    t.pool.sigOut = true ∧ t.pool.flag.activing = false
  waits : ∀ time, t.pool.owner = .waitOut time → time.infinitely = true →
    t.pool.worker.gone = true → t.pool.sigOut = true

/-- No `Run` after a failure; and of a worker that has left, which only a null
function makes it do, no `Run` and no `Wait` without limit. -/
def Trial.Allowed (t : Trial Arg) : Action Arg → Prop
  | .call (.wait time) => time.infinitely = true → t.pool.worker ≠ .exited
  | .owner => ∀ a, t.pool.owner = .runTestStarting a →
    t.failed = false ∧ t.pool.worker ≠ .exited
  | .worker => t.pool.worker = .returned → ∀ time, t.pool.owner = .waitOut time →
    time.infinitely = false
  | _ => True

def Worker.ended : Worker → Bool
  | .testHasExit | .delete | .returned | .exited => true
  | _ => false

def Worker.serves : Worker → Bool
  | .callFunc | .running | .resetIn | .readFlag | .writeFlag _ | .setOut => true
  | _ => false

variable {s s' : State Arg} {t t' : Trial Arg} {action : Action Arg}

/-- What `sig_out` tells while no creation has failed. -/
structure Signals (s : State Arg) : Prop where
  lowered : s.sigOut = false →
    s.owner.reset = true ∨ s.sigIn = true ∨ s.worker.reports = true
  ended : s.worker.ended = true → s.func = false
  serves : s.func = false → s.worker.serves = false
  null : s.func = false → s.owner.reset = true ∨ s.sigIn = true → s.sigOut = false

theorem init_signals (func : Bool) (args : Arg) : Signals (init func args) := by
  constructor <;> simp [init, Owner.reset, Owner.presents, Worker.ended, Worker.serves]

/-- The owner moves on and leaves all this alone. -/
theorem Signals.of_owner (signals : Signals s) (sigOut : s'.sigOut = s.sigOut)
    (sigIn : s'.sigIn = s.sigIn) (worker : s'.worker = s.worker) (func : s'.func = s.func)
    (reset : s'.owner.reset = s.owner.reset) : Signals s' where
  lowered := by rw [sigOut, sigIn, worker, reset]; exact signals.lowered
  ended := by rw [worker, func]; exact signals.ended
  serves := by rw [worker, func]; exact signals.serves
  null := by rw [sigOut, sigIn, func, reset]; exact signals.null

private theorem ownerNext_signals (flags : FlagInvariant s) (slot : Slot s) (signals : Signals s)
    (taken : s.ownerNext = some s') : Signals s' := by
  have destroys := slot.destroys
  cases here : s.owner <;> simp only [State.ownerNext, here] at taken destroys
  case idle => cases taken
  case destroyStatus | destroyDelete | destroyReadFlag | destroyWriteFlag | destroyFunc |
    destroySetIn | gone => cases destroys
  case waitOut =>
    split at taken
    · cases taken
      exact signals.of_owner rfl rfl rfl rfl (by rw [here]; rfl)
    · cases taken
  case runTestStarting | runTestActiving | statusThread =>
    cases taken
    refine signals.of_owner rfl rfl rfl rfl ?_
    rw [here]
    dsimp only
    split <;> rfl
  case runCreate a =>
    cases taken
    have absent := (flags.creating a here).1
    have lowered := signals.lowered
    have null := signals.null
    simp only [absent, here, Owner.reset, Owner.presents, Worker.reports] at lowered null
    exact ⟨lowered, by rintro ⟨⟩, fun _ => rfl, null⟩
  case runResetOut =>
    cases taken
    exact ⟨fun _ => .inl rfl, signals.ended, signals.serves, fun _ _ => rfl⟩
  case runSetIn =>
    cases taken
    refine ⟨fun _ => .inr (.inl rfl), signals.ended, signals.serves, fun off _ => ?_⟩
    exact signals.null off (.inl (by rw [here]; rfl))
  all_goals
    cases taken
    exact signals.of_owner rfl rfl rfl rfl (by rw [here]; rfl)

private theorem workerNext_signals (flags : FlagInvariant s) (slot : Slot s) (signals : Signals s)
    (taken : s.workerNext = some s') : Signals s' := by
  obtain ⟨lowered, ended, serves, null⟩ := signals
  have signalled := slot.signalled
  have detached := slot.detached flags
  cases here : s.worker <;>
    simp only [State.workerNext, here, detached] at taken lowered ended serves signalled
  case absent | exited => cases taken
  case test =>
    cases taken
    exact ⟨lowered, by rintro ⟨⟩, fun _ => rfl, null⟩
  case waitIn =>
    split at taken
    · rename_i set
      cases taken
      exact ⟨fun _ => .inr (.inl set), by rintro ⟨⟩, fun _ => rfl, null⟩
    · cases taken
  case readFunc =>
    cases taken
    have set := signalled rfl
    refine ⟨fun _ => .inr (.inl set), fun late => ?_, fun off => ?_, null⟩
    · dsimp only at late ⊢
      cases func : s.func with
      | false => rfl
      | true => simp [func, Worker.ended] at late
    · dsimp only at off ⊢
      rw [off]
      rfl
  case callFunc | running =>
    cases taken
    exact ⟨fun _ => .inr (.inl (signalled rfl)), by rintro ⟨⟩, serves, null⟩
  case resetIn =>
    cases taken
    exact ⟨fun _ => .inr (.inr rfl), by rintro ⟨⟩, serves, fun off => absurd (serves off)
      (by rintro ⟨⟩)⟩
  case readFlag | writeFlag =>
    cases taken
    exact ⟨fun _ => .inr (.inr rfl), by rintro ⟨⟩, serves, null⟩
  case setOut =>
    cases taken
    exact ⟨by rintro ⟨⟩, by rintro ⟨⟩, fun _ => rfl, fun off => absurd (serves off) (by rintro ⟨⟩)⟩
  case testHasExit =>
    cases taken
    refine ⟨fun _ => .inr (.inl (signalled rfl)), fun _ => ended rfl, fun _ => ?_, null⟩
    dsimp only
    split <;> rfl
  case delete | returned =>
    cases taken
    exact ⟨fun _ => .inr (.inl (signalled rfl)), fun _ => ended rfl, fun _ => rfl, null⟩

theorem step_signals (flags : FlagInvariant s) (slot : Slot s) (signals : Signals s)
    (plain : action.plain = true) (taken : step s action = some s') : Signals s' := by
  rcases step_cases taken with ⟨call, rfl, idle, rfl⟩ | ⟨rfl, moved⟩ | ⟨online, a, rfl, at_, rfl⟩ |
    ⟨time, rfl, at_, low, finite, rfl⟩ | ⟨rfl, moved⟩
  · refine signals.of_owner rfl rfl rfl rfl ?_
    rw [idle]
    cases call <;> rfl
  · exact ownerNext_signals flags slot signals moved
  · cases plain
  · exact signals.of_owner rfl rfl rfl rfl (by rw [at_]; rfl)
  · exact workerNext_signals flags slot signals moved

/-- A place of the owner that neither creates a worker nor relies on one. -/
def Owner.rests : Owner Arg → Bool
  | .idle | .runTestStarting _ | .runReturn _ false => true
  | .waitOut _ | .waitReturn _ | .statusThread | .statusFlag | .statusReturn _ => true
  | _ => false

/-- After a failure, while nobody tries again. -/
structure Unstarted (s : State Arg) : Prop where
  owner : s.owner.rests = true
  worker : s.worker = .absent
  starting : s.flag.starting = true
  activing : s.flag.activing = false
  sigOut : s.sigOut = true

/-- No creation has failed, or one has and nobody has tried again; or a `Run`
has already passed over the creation. -/
inductive Trial.Invariant (t : Trial Arg) : Prop where
  | skipped (skipped : t.skipped = true)
  | running (failed : t.failed = false) (jobs : JobInvariant t.pool) (signals : Signals t.pool)
  | unstarted (failed : t.failed = true) (unstarted : Unstarted t.pool)

theorem init_invariant (func : Bool) (args : Arg) :
    Trial.Invariant ⟨init func args, false, false⟩ :=
  .running rfl (init_jobInvariant func args) (init_signals func args)

private theorem unstarted_of_fails {a : Arg} (jobs : JobInvariant s) (signals : Signals s)
    (here : s.owner = .runCreate a) (online : Bool) :
    Unstarted { s with online := online, owner := .runReturn a false } := by
  obtain ⟨flags, slot, _⟩ := jobs
  obtain ⟨absent, starting⟩ := flags.creating a here
  have quiet := slot.absent absent
  refine ⟨rfl, absent, starting, ?_, ?_⟩
  · have activing := slot.activing
    rw [here, quiet, absent] at activing
    exact activing
  · by_contra low
    have lowered := signals.lowered (by simpa using low)
    rw [here, quiet, absent] at lowered
    simp [Owner.reset, Owner.presents, Worker.reports] at lowered

private theorem ownerNext_unstarted (unstarted : Unstarted s) (honest : s.skips .owner = false)
    (taken : s.ownerNext = some s') : Unstarted s' := by
  obtain ⟨rests, worker, starting, activing, sigOut⟩ := unstarted
  cases here : s.owner <;> rw [here] at rests <;> simp only [State.ownerNext, here] at taken
  case runTestStarting => simp [State.skips, here, starting, worker, Worker.gone] at honest
  case idle => cases taken
  case waitOut | statusThread =>
    split at taken <;> cases taken
    all_goals exact ⟨rfl, worker, starting, activing, sigOut⟩
  case runReturn | waitReturn | statusFlag | statusReturn =>
    cases taken
    exact ⟨rfl, worker, starting, activing, sigOut⟩
  all_goals cases rests

theorem step_unstarted (unstarted : Unstarted s) (kept : action.kept = true)
    (honest : s.skips action = false) (taken : step s action = some s') : Unstarted s' := by
  obtain ⟨rests, worker, starting, activing, sigOut⟩ := unstarted
  rcases step_cases taken with ⟨call, rfl, idle, rfl⟩ | ⟨rfl, moved⟩ | ⟨online, a, rfl, at_, rfl⟩ |
    ⟨time, rfl, at_, low, finite, rfl⟩ | ⟨rfl, moved⟩
  · refine ⟨?_, worker, starting, activing, sigOut⟩
    cases call <;> first | rfl | cases kept
  · exact ownerNext_unstarted ⟨rests, worker, starting, activing, sigOut⟩ honest moved
  · rw [at_] at rests
    cases rests
  · cases sigOut.symm.trans low
  · rw [State.workerNext, worker] at moved
    cases moved

theorem step_invariant (inv : t.Invariant) (kept : action.kept = true)
    (taken : t.step action = some t') : t'.Invariant := by
  obtain ⟨s', moved, rfl⟩ := Option.map_eq_some_iff.mp taken
  cases skips : t.skipped || t.pool.skips action with
  | true => exact .skipped rfl
  | false =>
    obtain ⟨before, honest⟩ := Bool.or_eq_false_iff.mp skips
    rcases inv with skipped | ⟨failed, jobs, signals⟩ | ⟨failed, unstarted⟩
    · cases before.symm.trans skipped
    · cases fails : action.fails with
      | false =>
        have plain : action.plain = true := by
          cases action with
          | call call => cases call <;> first | rfl | cases kept
          | createFails online => cases fails
          | _ => rfl
        exact .running (by rw [failed]; rfl) (step_jobInvariant jobs plain moved)
          (step_signals jobs.1 jobs.2.1 signals plain moved)
      | true =>
        refine .unstarted (Bool.or_true _) ?_
        rcases step_cases moved with ⟨call, rfl, _⟩ | ⟨rfl, _⟩ | ⟨online, a, rfl, at_, rfl⟩ |
          ⟨time, rfl, _⟩ | ⟨rfl, _⟩
        · cases fails
        · cases fails
        · exact unstarted_of_fails jobs signals at_ online
        · cases fails
        · cases fails
    · exact .unstarted (by rw [failed]; rfl) (step_unstarted unstarted kept honest moved)

private theorem Worker.reports_of_clears {worker : Worker} (clears : worker.clears = true) :
    worker.reports = true := by
  cases worker <;> first | rfl | cases clears

private theorem Worker.running_or_reports {worker : Worker} (busy : worker.busy = true) :
    worker = .running ∨ worker.reports = true := by
  cases worker <;> first | exact .inl rfl | exact .inr rfl | cases busy

private theorem outstanding_of_sigIn (ledger : Ledger s) (presents : s.owner.presents = none)
    (submits : s.owner.submits = none) (set : s.sigIn = true) : s.outstanding = true := by
  obtain ⟨order, finished, _⟩ := ledger
  have total := congrArg List.length order
  rw [List.length_append, State.submitted, submits, Option.toList_none, List.append_nil] at total
  rw [State.outstanding, Bool.or_eq_true, decide_eq_true_eq]
  cases busy : s.worker.busy with
  | false =>
    have one : s.unstarted.length = 1 := by simp [State.unstarted, presents, set, busy]
    exact .inl (by omega)
  | true =>
    rcases Worker.running_or_reports busy with running | reports
    · have begun : s.finished + 1 = s.called.length := by simpa [running] using finished
      exact .inl (by omega)
    · exact .inr reports

private theorem returns_of_running (slot : Slot s) (ledger : Ledger s) (signals : Signals s)
    {a : Arg}
    (here : s.owner = .runReturn a false) (none : s.outstanding = false) :
    s.sigOut = true ∧ s.flag.activing = false := by
  have reports : s.worker.reports = false := (Bool.or_eq_false_iff.mp none).2
  have quiet : s.sigIn = false := by
    by_contra set
    have pending := outstanding_of_sigIn ledger (by rw [here]; rfl) (by rw [here]; rfl)
      (by simpa using set)
    cases none.symm.trans pending
  have clears : s.worker.clears = false := by
    by_contra clears
    cases reports.symm.trans (Worker.reports_of_clears (by simpa using clears))
  constructor
  · by_contra low
    have lowered := signals.lowered (by simpa using low)
    rw [here, quiet, reports] at lowered
    simp [Owner.reset, Owner.presents] at lowered
  · rw [slot.activing, here, quiet, clears]
    rfl

/-- A worker that has left has not set `sig_out` since its job came. -/
theorem Signals.exited (signals : Signals s) (slot : Slot s) (exited : s.worker = .exited) :
    s.sigOut = false :=
  signals.null (signals.ended (by rw [exited]; rfl)) (.inr (slot.signalled (by rw [exited]; rfl)))

theorem Signals.waits (signals : Signals s) (slot : Slot s) {time : TimeUnit}
    (here : s.owner = .waitOut time) (absent : s.worker = .absent) : s.sigOut = true := by
  by_contra low
  have lowered := signals.lowered (by simpa using low)
  rw [here, slot.absent absent, absent] at lowered
  simp [Owner.reset, Owner.presents, Worker.reports] at lowered

private theorem ownerNext_not_waitOut (taken : s.ownerNext = some s') (time : TimeUnit) :
    s'.owner ≠ .waitOut time := by
  cases here : s.owner <;> simp only [State.ownerNext, here] at taken
  case idle | gone => cases taken
  case waitOut =>
    split at taken <;> cases taken
    rintro ⟨⟩
  all_goals
    cases taken
    first | (dsimp only; split <;> rintro ⟨⟩) | rintro ⟨⟩

private theorem workerNext_exited (taken : s.workerNext = some s') (exited : s'.worker = .exited) :
    s.worker = .returned := by
  cases here : s.worker <;> simp only [State.workerNext, here] at taken
  case absent | exited => cases taken
  case returned => rfl
  case waitIn =>
    split at taken <;> cases taken
    cases exited
  all_goals
    cases taken
    dsimp only at exited
    first | cases exited | (split at exited <;> cases exited)

private theorem not_waiting (allowed : t.Allowed action) (moved : step t.pool action = some s')
    {time : TimeUnit} (here : s'.owner = .waitOut time) (infinite : time.infinitely = true)
    (exited : s'.worker = .exited) : False := by
  rcases step_cases moved with ⟨call, rfl, idle, rfl⟩ | ⟨rfl, moved⟩ | ⟨online, a, rfl, at_, rfl⟩ |
    ⟨_, rfl, at_, low, finite, rfl⟩ | ⟨rfl, moved⟩
  · cases call <;> cases here
    exact allowed infinite exited
  · exact ownerNext_not_waitOut moved time here
  · cases here
  · cases here
  · have same := (workerNext_frame moved).1
    rw [same] at here
    cases (allowed (workerNext_exited moved exited) time here).symm.trans infinite

theorem safe_of_allowed (inv : t.Invariant) (inv' : t'.Invariant) (safe : t.Safe)
    (allowed : t.Allowed action) (taken : t.step action = some t') : t'.Safe := by
  obtain ⟨s', moved, rfl⟩ := Option.map_eq_some_iff.mp taken
  have honest : t.pool.skips action = false := by
    cases action with
    | owner =>
      cases here : t.pool.owner with
      | runTestStarting a =>
        obtain ⟨failed, inside⟩ := allowed a here
        rcases inv with skipped | ⟨_, ⟨flags, slot, _⟩, _⟩ | ⟨already, _⟩
        · cases safe.tries.symm.trans skipped
        · cases starting : t.pool.flag.starting with
          | false => simp [State.skips, here, starting]
          | true =>
            have present := slot.present starting (by rw [here]; rfl)
            cases worker : t.pool.worker <;>
              first | (simp [State.skips, here, worker, Worker.gone]; done) | contradiction
        · cases failed.symm.trans already
      | _ => simp [State.skips, here]
    | _ => rfl
  have tries : (t.skipped || t.pool.skips action) = false := by rw [safe.tries, honest]; rfl
  refine ⟨tries, fun a here none => ?_, fun time here infinite gone => ?_⟩
  · rcases inv' with skipped | ⟨_, ⟨_, slot, ledger⟩, signals⟩ | ⟨_, unstarted⟩
    · cases tries.symm.trans skipped
    · exact returns_of_running slot ledger signals here none
    · exact ⟨unstarted.sigOut, unstarted.activing⟩
  · rcases inv' with skipped | ⟨_, ⟨_, slot, _⟩, signals⟩ | ⟨_, unstarted⟩
    · cases tries.symm.trans skipped
    · cases worker : s'.worker <;> rw [worker] at gone
      case absent => exact signals.waits slot here worker
      case exited =>
        exact (not_waiting allowed moved here infinite worker).elim
      all_goals cases gone
    · exact unstarted.sigOut

theorem allowed_of_safe (inv : t.Invariant) (safe : t.Safe) (safe' : t'.Safe)
    (taken : t.step action = some t') : t.Allowed action := by
  obtain ⟨s', moved, rfl⟩ := Option.map_eq_some_iff.mp taken
  have honest : t.pool.skips action = false := (Bool.or_eq_false_iff.mp safe'.tries).2
  rcases inv with skipped | ⟨failed, ⟨flags, slot, _⟩, signals⟩ | ⟨_, unstarted⟩
  · cases safe.tries.symm.trans skipped
  · cases action with
    | call call =>
      cases call with
      | wait time =>
        intro infinite exited
        rcases step_cases moved with ⟨_, ⟨⟩, _, rfl⟩ | ⟨⟨⟩, _⟩ | ⟨_, _, ⟨⟩, _⟩ | ⟨_, ⟨⟩, _⟩ | ⟨⟨⟩, _⟩
        have high := safe'.waits time rfl infinite (by dsimp only; rw [exited]; rfl)
        cases (signals.exited slot exited).symm.trans high
      | _ => trivial
    | owner =>
      intro a here
      refine ⟨failed, fun exited => ?_⟩
      have starting := flags.started (by rw [exited]; exact nofun)
      simp [State.skips, here, starting, exited, Worker.gone] at honest
    | worker =>
      intro returned time here
      by_contra infinite
      have infinite : time.infinitely = true := by simpa using infinite
      simp only [step, State.workerNext, returned] at moved
      cases moved
      have high := safe'.waits time here infinite rfl
      have off := signals.ended (by rw [returned]; rfl)
      have low := signals.null off (.inr (slot.signalled (by rw [returned]; rfl)))
      cases low.symm.trans high
    | _ => trivial
  · cases action with
    | call call =>
      cases call with
      | wait time =>
        intro _ exited
        cases unstarted.worker.symm.trans exited
      | _ => trivial
    | owner =>
      intro a here
      simp [State.skips, here, unstarted.starting, unstarted.worker, Worker.gone] at honest
    | worker =>
      intro returned
      cases unstarted.worker.symm.trans returned
    | _ => trivial

theorem step_safe_iff (inv : t.Invariant) (kept : action.kept = true) (safe : t.Safe)
    (taken : t.step action = some t') : t'.Safe ↔ t.Allowed action :=
  ⟨fun safe' => allowed_of_safe inv safe safe' taken,
    fun allowed => safe_of_allowed inv (step_invariant inv kept taken) safe allowed taken⟩

theorem init_safe (func : Bool) (args : Arg) : Trial.Safe ⟨init func args, false, false⟩ :=
  ⟨rfl, nofun, nofun⟩

/-- A failed `Run` leaves the pool thread as if never started exactly as long
as it is never run again. -/
theorem safe_iff_allowed (func : Bool) (args : Arg) (actions : List (Action Arg))
    (kept : ∀ action ∈ actions, action.kept = true) :
    Always Trial.step Trial.Safe ⟨init func args, false, false⟩ actions ↔
      Meets Trial.step Trial.Allowed ⟨init func args, false, false⟩ actions :=
  always_iff_meets_of Trial.Invariant (fun _ _ _ inv kept => step_invariant inv kept)
    (fun _ _ _ inv kept safe => step_safe_iff inv kept safe) (init_invariant func args)
    (init_safe func args) (.of_forall kept)

instance (t : Trial Arg) (action : Action Arg) : Decidable (t.Allowed action) := by
  unfold Trial.Allowed
  split
  · infer_instance
  · cases here : t.pool.owner with
    | runTestStarting a =>
      exact decidable_of_iff (t.failed = false ∧ t.pool.worker ≠ .exited)
        ⟨fun fine _ _ => fine, fun fine => fine a rfl⟩
    | _ => exact .isTrue nofun
  · cases here : t.pool.owner with
    | waitOut time =>
      exact decidable_of_iff (t.pool.worker = .returned → time.infinitely = false)
        ⟨fun fine returned other same => by cases same; exact fine returned,
          fun fine returned => fine returned time rfl⟩
    | _ => exact .isTrue nofun
  · infer_instance

def failedRun : List (Action ℕ) :=
  [.call (.run 7), .owner, .owner, .createFails false, .owner]

def givenUpRun : List (Action ℕ) :=
  failedRun ++ [.call (.wait .infinite), .owner, .owner, .call .status, .owner, .owner]

theorem safe_givenUpRun :
    Always Trial.step Trial.Safe ⟨init true 0, false, false⟩ givenUpRun :=
  (safe_iff_allowed true 0 givenUpRun (by decide)).mpr (by decide)

/-- `Run` fails, the owner tries again and waits. -/
def triedAgainRun : List (Action ℕ) :=
  failedRun ++ .call (.run 8) :: List.replicate 9 .owner ++ [.call (.wait .infinite)]

/-- The second `Run` returns 0 without an attempt, and the owner then waits for
ever. -/
theorem triedAgainRun_blocked : (∀ action ∈ triedAgainRun, action.kept = true) ∧
    ∃ t, exec Trial.step ⟨init true 0, false, false⟩ triedAgainRun = some t ∧
      t.skipped = true ∧ t.pool.worker = .absent ∧ t.pool.accepted = [] ∧
      t.pool.flag.activing = true ∧ t.pool.owner = .waitOut .infinite ∧ t.pool.sigOut = false ∧
      ¬ t.Safe := by
  have ends : (exec Trial.step ⟨init true 0, false, false⟩ triedAgainRun).map (fun t =>
      (t.skipped, t.pool.worker, t.pool.accepted, t.pool.flag.activing, t.pool.owner,
        t.pool.sigOut)) =
      some (true, .absent, [], true, .waitOut .infinite, false) := rfl
  obtain ⟨t, ran, same⟩ := Option.map_eq_some_iff.mp ends
  simp only [Prod.mk.injEq] at same
  obtain ⟨skipped, worker, accepted, activing, owner, sigOut⟩ := same
  refine ⟨by decide, t, ran, skipped, worker, accepted, activing, owner, sigOut, fun safe => ?_⟩
  cases safe.tries.symm.trans skipped

end Prot.System.PoolThread
