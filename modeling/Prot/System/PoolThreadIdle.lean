import Prot.System.PoolThreadJobs

/-! When `PoolThread::Wait` tells the truth: the worker clears
`PTDFLAG_ACTIVING` before it sets `sig_out`, and a `Run` that comes between the
two resets `sig_out` too early. -/

namespace Prot.System.PoolThread

open Concurrency Time

variable {Arg : Type} {s s' : State Arg} {action : Action Arg}

def calls (actions : List (Action Arg)) : List (Call Arg) :=
  actions.filterMap fun
    | .call call => some call
    | _ => none

/-- Whenever `Wait` returns `True`, every accepted job has been run to its end,
a `Status` that follows directly is not `Running` and a `Run` that follows
directly is accepted. -/
def HonestWait (start : State Arg) (actions : List (Action Arg)) : Prop :=
  ∀ before after s s', actions = before ++ after → exec step start before = some s →
    exec step s after = some s' → s.owner = .waitReturn true →
    (s.called = s.accepted ∧ s.finished = s.accepted.length) ∧
      (calls after = [.status] → s'.owner ≠ .statusReturn .running) ∧
      ∀ a, calls after = [.run a] → s'.owner ≠ .runReturn a false

def Owner.resets : Owner Arg → Bool
  | .runResetOut _ => true
  | _ => false

/-- No `Run` executes `sig_out.Reset` while the worker stands between clearing
`PTDFLAG_ACTIVING` and `sig_out.Set`. -/
def ResetsLate (s : State Arg) (action : Action Arg) : Prop :=
  action = .owner → s.owner.resets = true → s.worker ≠ .setOut

instance [DecidableEq Arg] (s : State Arg) (action : Action Arg) : Decidable (ResetsLate s action) :=
  inferInstanceAs (Decidable (_ → _))

/-- A job whose `Run` has executed `sig_out.Reset` and not `sig_in.Set`. -/
def Owner.reset : Owner Arg → Bool
  | .runResetOut _ => false
  | owner => owner.presents.isSome

/-- No job is in the slot, as far as the worker can see. -/
def Calm (s : State Arg) : Prop := s.sigIn = false ∧ s.worker.busy = false

/-- `sig_out` is set, or about to be set, only while no job is in the slot. -/
structure Idle (s : State Arg) : Prop where
  sigOut : s.sigOut = true → Calm s ∧ s.owner.reset = false
  setOut : s.worker = .setOut → s.sigIn = false ∧ s.owner.reset = false
  waited : s.owner = .waitReturn true → Calm s

theorem init_idle (func : Bool) (args : Arg) : Idle (init func args) := by
  constructor <;> simp [init, Calm, Worker.busy, Owner.reset, Owner.presents]

private theorem ownerNext_idle (slot : Slot s) (idle : Idle s) (late : ResetsLate s .owner)
    (taken : s.ownerNext = some s') : Idle s' := by
  have presenting := slot.presenting
  have destroys := slot.destroys
  have late := late rfl
  obtain ⟨sigOut, setOut, waited⟩ := idle
  obtain ⟨func, args, flag, sigIn, signal, tid, online, deleted, owner, worker, accepted, called,
    finished⟩ := s
  cases owner with
  | idle | gone => cases taken
  | destroyStatus | destroyDelete | destroyReadFlag | destroyWriteFlag | destroyFunc
  | destroySetIn => cases destroys
  | waitOut t =>
    simp only [State.ownerNext] at taken
    split at taken
    · rename_i set
      cases taken
      exact ⟨sigOut, setOut, fun _ => (sigOut set).1⟩
    · cases taken
  | runCreate a =>
    cases taken
    exact ⟨fun set => ⟨⟨(sigOut set).1.1, rfl⟩, rfl⟩, by rintro ⟨⟩, by rintro ⟨⟩⟩
  | runResetOut a =>
    cases taken
    refine ⟨by rintro ⟨⟩, fun at_ => ?_, by rintro ⟨⟩⟩
    exact absurd at_ (late rfl)
  | runTestStarting a =>
    cases taken
    cases flag.starting with
    | false => exact ⟨sigOut, setOut, by rintro ⟨⟩⟩
    | true => exact ⟨sigOut, setOut, by rintro ⟨⟩⟩
  | runTestActiving a =>
    cases taken
    cases flag.activing with
    | false => exact ⟨sigOut, setOut, by rintro ⟨⟩⟩
    | true => exact ⟨sigOut, setOut, by rintro ⟨⟩⟩
  | statusThread =>
    cases taken
    cases online with
    | false => exact ⟨sigOut, setOut, by rintro ⟨⟩⟩
    | true => exact ⟨sigOut, setOut, by rintro ⟨⟩⟩
  | runSetIn a =>
    cases taken
    refine ⟨fun set => ?_, fun at_ => ?_, by rintro ⟨⟩⟩
    · cases (sigOut set).2
    · cases (setOut at_).2
  | _ =>
    cases taken
    exact ⟨sigOut, setOut, by rintro ⟨⟩⟩

/-- The worker starts nothing while no job is in the slot. -/
theorem workerNext_calm (slot : Slot s) (calm : Calm s) (taken : s.workerNext = some s') :
    Calm s' := by
  obtain ⟨quiet, free⟩ := calm
  have signalled := slot.signalled
  rw [quiet] at signalled
  cases here : s.worker <;> simp only [State.workerNext, here] at taken
  case absent | exited => cases taken
  case waitIn => simp [quiet] at taken
  case test | setOut =>
    cases taken
    refine ⟨quiet, ?_⟩
    first | rfl | (dsimp only; split <;> rfl)
  case running | resetIn | readFlag | writeFlag => simp [here, Worker.busy] at free
  all_goals simp [here, Worker.signalled] at signalled

/-- What a step of the worker does to the owner's side. -/
theorem workerNext_frame (taken : s.workerNext = some s') : s'.owner = s.owner ∧
    (s'.sigOut = true → s.sigOut = true ∨ s.worker = .setOut) ∧
    (s'.worker = .setOut → s.worker.clears = true ∧ s'.sigIn = s.sigIn) := by
  cases here : s.worker <;> simp only [State.workerNext, here] at taken
  case absent | exited => cases taken
  case waitIn =>
    split at taken
    · cases taken
      simp
    · cases taken
  case test | readFunc | testHasExit =>
    cases taken
    refine ⟨rfl, Or.inl, fun at_ => ?_⟩
    dsimp only at at_
    split at at_ <;> cases at_
  all_goals
    cases taken
    simp [Worker.clears]

private theorem workerNext_idle (slot : Slot s) (idle : Idle s) (taken : s.workerNext = some s') :
    Idle s' := by
  obtain ⟨owner, signal, reached⟩ := workerNext_frame taken
  constructor
  · intro set
    rw [owner]
    rcases signal set with before | at_
    · obtain ⟨calm, late⟩ := idle.sigOut before
      exact ⟨workerNext_calm slot calm taken, late⟩
    · obtain ⟨quiet, late⟩ := idle.setOut at_
      exact ⟨workerNext_calm slot ⟨quiet, by rw [at_]; rfl⟩ taken, late⟩
  · intro at_
    obtain ⟨clears, same⟩ := reached at_
    refine ⟨same.trans (slot.clears clears), ?_⟩
    rw [owner]
    by_contra reset
    have presents : s.owner.presents.isSome = true := by
      cases here : s.owner <;> simp_all [Owner.reset, Owner.presents]
    have resting := (slot.presenting presents).2
    cases (Worker.clears_of_rests resting).symm.trans clears
  · intro returns
    rw [owner] at returns
    exact workerNext_calm slot (idle.waited returns) taken

theorem step_idle (slot : Slot s) (idle : Idle s) (late : ResetsLate s action)
    (plain : action.plain = true) (taken : step s action = some s') : Idle s' := by
  rcases step_cases taken with ⟨call, rfl, here, rfl⟩ | ⟨rfl, moved⟩ |
    ⟨online, a, rfl, creates, rfl⟩ | ⟨t, rfl, waits, empty, finite, rfl⟩ | ⟨rfl, moved⟩
  · obtain ⟨sigOut, setOut, waited⟩ := idle
    rw [here] at sigOut setOut
    cases call with
    | destroy => cases plain
    | _ => exact ⟨sigOut, setOut, nofun⟩
  · exact ownerNext_idle slot idle late moved
  · cases plain
  · obtain ⟨sigOut, setOut, waited⟩ := idle
    rw [waits] at sigOut setOut
    exact ⟨sigOut, setOut, nofun⟩
  · exact workerNext_idle slot idle moved

/-- With no job in the slot, every accepted job has been run to its end. -/
theorem Calm.finished (inv : JobInvariant s) (calm : Calm s) (none : s.owner.submits = none) :
    s.called = s.accepted ∧ s.finished = s.accepted.length := by
  obtain ⟨_, _, ⟨order, count, _⟩⟩ := inv
  obtain ⟨quiet, free⟩ := calm
  have presents : s.owner.presents = Option.none := by
    cases here : s.owner <;> simp_all [Owner.presents, Owner.submits]
  have same : s.called = s.accepted := by
    simpa [State.unstarted, State.submitted, presents, quiet, none] using order
  refine ⟨same, ?_⟩
  have outside : s.worker ≠ .running := by
    intro running
    simp [running, Worker.busy] at free
  rw [← same, ← count]
  simp [outside]

/-- The owner's own steps, the worker's and time passing: neither a call nor a
failure of `Thread::Run`. -/
def Action.internal : Action Arg → Bool
  | .call _ | .createFails _ => false
  | _ => true

/-- After a `Wait` that returned `True`, before the next call. -/
def Rested (s : State Arg) : Prop := Calm s ∧ (s.owner = .waitReturn true ∨ s.owner = .idle)

def StatusRested (s : State Arg) : Prop := Calm s ∧
  (s.owner = .statusThread ∨ s.owner = .statusFlag ∨ s.owner = .statusReturn .offline ∨
    s.owner = .statusReturn .holding ∨ s.owner = .idle)

def RunRested (args : Arg) (s : State Arg) : Prop :=
  (Calm s ∧ (s.owner = .runTestStarting args ∨ s.owner = .runWriteStarting args ∨
    s.owner = .runCreate args ∨ s.owner = .runTestActiving args)) ∨
  s.owner.submits = some args ∨ s.owner = .idle

theorem Calm.activing (slot : Slot s) (calm : Calm s) (none : s.owner.sets = false) :
    s.flag.activing = false := by
  have clears : s.worker.clears = false := by
    have free := calm.2
    cases here : s.worker <;> simp_all [Worker.busy, Worker.clears]
  rw [slot.activing, none, calm.1, clears]
  rfl

theorem step_rested (slot : Slot s) (rested : Rested s) (internal : action.internal = true)
    (taken : step s action = some s') : Rested s' := by
  obtain ⟨calm, place⟩ := rested
  rcases step_cases taken with ⟨call, rfl, _, rfl⟩ | ⟨rfl, moved⟩ | ⟨_, a, rfl, _, rfl⟩ |
    ⟨t, rfl, waits, _, _, rfl⟩ | ⟨rfl, moved⟩
  · cases internal
  · rcases place with here | here <;> simp only [State.ownerNext, here] at moved
    · cases moved
      exact ⟨calm, .inr rfl⟩
    · cases moved
  · cases internal
  · simp [waits] at place
  · refine ⟨workerNext_calm slot calm moved, ?_⟩
    rwa [(workerNext_frame moved).1]

theorem step_statusRested (slot : Slot s) (rested : StatusRested s)
    (internal : action.internal = true) (taken : step s action = some s') : StatusRested s' := by
  obtain ⟨calm, place⟩ := rested
  rcases step_cases taken with ⟨call, rfl, _, rfl⟩ | ⟨rfl, moved⟩ | ⟨_, a, rfl, _, rfl⟩ |
    ⟨t, rfl, waits, _, _, rfl⟩ | ⟨rfl, moved⟩
  · cases internal
  · rcases place with here | here | here | here | here <;>
      simp only [State.ownerNext, here] at moved <;> cases moved
    · refine ⟨calm, ?_⟩
      cases s.online <;> simp
    · refine ⟨calm, ?_⟩
      simp [calm.activing slot (by rw [here]; rfl)]
    · exact ⟨calm, by simp⟩
    · exact ⟨calm, by simp⟩
  · cases internal
  · simp [waits] at place
  · refine ⟨workerNext_calm slot calm moved, ?_⟩
    rwa [(workerNext_frame moved).1]

private theorem ownerNext_runRested {args : Arg} (slot : Slot s) (rested : RunRested args s)
    (taken : s.ownerNext = some s') : RunRested args s' := by
  have relies := slot.relies
  have created := slot.tid
  rcases rested with ⟨calm, here | here | here | here⟩ | submits | here
  · simp only [State.ownerNext, here] at taken
    cases taken
    refine .inl ⟨calm, ?_⟩
    cases s.flag.starting <;> simp
  · simp only [State.ownerNext, here] at taken
    cases taken
    exact .inl ⟨calm, by simp⟩
  · simp only [State.ownerNext, here] at taken
    cases taken
    exact .inr (.inl rfl)
  · simp only [State.ownerNext, here, calm.activing slot (by rw [here]; rfl)] at taken
    cases taken
    exact .inr (.inl rfl)
  · right
    cases here : s.owner <;> simp only [here, Owner.submits] at submits <;>
      simp only [State.ownerNext, here] at taken
    case runGetId a =>
      cases taken
      have tid : s.tid = true := created (relies (by rw [here]; rfl))
      simpa [Owner.submits, tid] using submits
    case runReturn a tid =>
      cases taken
      exact .inr rfl
    all_goals first | (cases taken; exact .inl submits) | cases submits
  · simp [State.ownerNext, here] at taken

theorem step_runRested {args : Arg} (slot : Slot s) (rested : RunRested args s)
    (internal : action.internal = true) (taken : step s action = some s') : RunRested args s' := by
  rcases step_cases taken with ⟨call, rfl, _, rfl⟩ | ⟨rfl, moved⟩ | ⟨_, a, rfl, _, rfl⟩ |
    ⟨t, rfl, waits, _, _, rfl⟩ | ⟨rfl, moved⟩
  · cases internal
  · exact ownerNext_runRested slot rested moved
  · cases internal
  · simp [RunRested, waits, Owner.submits] at rested
  · unfold RunRested at rested ⊢
    rw [(workerNext_frame moved).1]
    rcases rested with ⟨calm, place⟩ | later
    · exact .inl ⟨workerNext_calm slot calm moved, place⟩
    · exact .inr later

private theorem calls_eq_singleton {actions : List (Action Arg)} {call : Call Arg}
    (only : calls actions = [call]) : ∃ first second, actions = first ++ .call call :: second ∧
      calls first = [] ∧ calls second = [] := by
  obtain ⟨first, action, second, split, silent, called, rest⟩ := List.filterMap_eq_cons_iff.mp only
  cases action with
  | call other =>
    cases called
    exact ⟨first, second, split, List.filterMap_eq_nil_iff.mpr silent, rest⟩
  | _ => cases called

private theorem internal_of_calls {actions : List (Action Arg)} (silent : calls actions = [])
    (plain : ∀ action ∈ actions, action.plain = true) :
    ∀ action ∈ actions, action.internal = true := by
  intro action member
  have none := List.filterMap_eq_nil_iff.mp silent action member
  have fine := plain action member
  cases action with
  | call call => cases none
  | createFails online => cases fine
  | _ => rfl

/-- What holds along the one operation that follows a `Wait` that returned
`True`, whatever it is. -/
theorem exec_of_rested (after : State Arg → Prop) {call : Call Arg} {actions : List (Action Arg)}
    (entered : ∀ s, Calm s → after { s with owner := call.entry })
    (kept : ∀ s action s', Slot s → after s → action.internal = true → step s action = some s' →
      after s')
    (inv : JobInvariant s) (rested : Rested s) (plain : ∀ action ∈ actions, action.plain = true)
    (only : calls actions = [call]) (ran : exec step s actions = some s') : after s' := by
  obtain ⟨first, second, rfl, silent, rest⟩ := calls_eq_singleton only
  have plainFirst : ∀ action ∈ first, action.plain = true := fun action member =>
    plain action (List.mem_append_left _ member)
  have plainSecond : ∀ action ∈ second, action.plain = true := fun action member =>
    plain action (List.mem_append_right _ (.tail _ member))
  have keeps {Q : State Arg → Prop} (step_kept : ∀ s action s', Slot s → Q s →
      action.internal = true → step s action = some s' → Q s') :
      ∀ s action s', JobInvariant s ∧ Q s → (action.plain = true ∧ action.internal = true) →
        step s action = some s' → JobInvariant s' ∧ Q s' := by
    rintro s action s' ⟨inv, holds⟩ ⟨fine, internal⟩ taken
    exact ⟨step_jobInvariant inv fine taken, step_kept s action s' inv.2.1 holds internal taken⟩
  have both {actions : List (Action Arg)} {start : State Arg} (silent : calls actions = [])
      (plain : ∀ action ∈ actions, action.plain = true) :
      Meets step (fun _ action => action.plain = true ∧ action.internal = true) start actions := by
    have each : ∀ action ∈ actions, action.plain = true ∧ action.internal = true :=
      fun action member => ⟨plain action member, internal_of_calls silent plain action member⟩
    exact .of_forall each
  obtain ⟨middle, before, later⟩ := exec_append_eq_some ran
  obtain ⟨next, called, onwards⟩ := exec_cons_eq_some later
  obtain ⟨invMiddle, calm, _⟩ := exec_invariant_of_meets (fun s => JobInvariant s ∧ Rested s) (keeps fun _ _ _ => step_rested)
    ⟨inv, rested⟩ (both silent plainFirst) before
  have plainCall : (Action.call call).plain = true := plain _ (by simp)
  have invNext := step_jobInvariant invMiddle plainCall called
  have entry : next = { middle with owner := call.entry } := by
    rcases step_cases called with ⟨other, same, _, result⟩ | ⟨same, _⟩ | ⟨_, _, same, _⟩ |
      ⟨_, same, _⟩ | ⟨same, _⟩ <;> cases same
    exact result
  exact (exec_invariant_of_meets (fun s => JobInvariant s ∧ after s) (keeps kept) ⟨invNext, entry ▸ entered middle calm⟩
    (both rest plainSecond) onwards).2

theorem exec_idle {func : Bool} {args : Arg} {actions : List (Action Arg)}
    (plain : ∀ action ∈ actions, action.plain = true)
    (late : Meets step ResetsLate (init func args) actions)
    (ran : exec step (init func args) actions = some s) : Idle s := by
  have meets : Meets step (fun _ action => action.plain = true) (init func args) actions :=
    .of_forall plain
  refine (exec_invariant_of_meets (fun s => JobInvariant s ∧ Idle s) ?_
    ⟨init_jobInvariant func args, init_idle func args⟩ (meets.and late) ran).2
  rintro s action s' ⟨inv, idle⟩ ⟨fine, late⟩ taken
  exact ⟨step_jobInvariant inv fine taken, step_idle inv.2.1 idle late fine taken⟩

private theorem honestWait_of_resetsLate {func : Bool} {args : Arg} {actions : List (Action Arg)}
    (plain : ∀ action ∈ actions, action.plain = true)
    (late : Meets step ResetsLate (init func args) actions) :
    HonestWait (init func args) actions := by
  rintro before after s s' rfl ran continued returns
  have plainBefore : ∀ action ∈ before, action.plain = true := fun action member =>
    plain action (List.mem_append_left _ member)
  have plainAfter : ∀ action ∈ after, action.plain = true := fun action member =>
    plain action (List.mem_append_right _ member)
  have inv := exec_jobInvariant plainBefore ran
  have calm := (exec_idle plainBefore (late.append ran).1 ran).waited returns
  have rested : Rested s := ⟨calm, .inl returns⟩
  refine ⟨calm.finished inv (by rw [returns]; rfl), fun only => ?_, fun a only => ?_⟩
  · have status := exec_of_rested StatusRested (fun _ calm => ⟨calm, .inl rfl⟩)
      (fun _ _ _ => step_statusRested) inv rested plainAfter only continued
    intro running
    simp [StatusRested, running] at status
  · have run := exec_of_rested (RunRested a) (fun _ calm => .inl ⟨calm, .inl rfl⟩)
      (fun _ _ _ => step_runRested) inv rested plainAfter only continued
    intro refused
    simp [RunRested, refused, Owner.submits] at run

def overtaken : List (Action Arg) :=
  List.replicate 7 .owner ++ [.worker, .call (.wait .infinite), .owner]

private theorem overtaken_wait {a : Arg} (inv : JobInvariant s) (resets : s.owner = .runResetOut a)
    (behind : s.worker = .setOut) : ∃ next, exec step s overtaken = some next ∧
      next.owner = .waitReturn true ∧ next.finished ≠ next.accepted.length := by
  obtain ⟨_, slot, ⟨order, finished, _⟩⟩ := inv
  have tid : s.tid = true := slot.tid (by rw [behind]; nofun)
  let raised : Flag := { s.flag with activing := true }
  let last : State Arg := { s with
    args := a
    flag := raised
    sigIn := true
    sigOut := true
    owner := .waitReturn true
    worker := .test
    accepted := s.accepted ++ [a] }
  refine ⟨last, ?_, rfl, ?_⟩
  · simp [overtaken, exec, step, State.ownerNext, State.workerNext, Call.entry, resets, behind, tid,
      last, raised]
  · have lengths := congrArg List.length order
    simp only [State.unstarted, State.submitted, resets, Owner.presents, Owner.submits, behind]
      at lengths finished
    simp at lengths finished
    change s.finished ≠ (s.accepted ++ [a]).length
    simp
    omega

/-- `Wait` is honest in the runs in which `Run` resets `sig_out` only after the
worker has set it; every other run can be cut and continued into one in which
`Wait` reports idle with a job outstanding. -/
theorem resetsLate_exact {func : Bool} {args : Arg} {actions : List (Action Arg)}
    (plain : ∀ action ∈ actions, action.plain = true) :
    (Meets step ResetsLate (init func args) actions → HonestWait (init func args) actions) ∧
    (¬ Meets step ResetsLate (init func args) actions → ∃ before more, before <+: actions ∧
      (∀ action ∈ more, action.plain = true) ∧ ¬ HonestWait (init func args) (before ++ more)) := by
  constructor
  · exact honestWait_of_resetsLate plain
  · intro early
    obtain ⟨before, action, rest, s, next, rfl, _, ran, taken, fails⟩ := exists_of_not_meets early
    obtain ⟨rfl, resets, behind⟩ : action = .owner ∧ s.owner.resets = true ∧ s.worker = .setOut := by
      simpa [ResetsLate] using fails
    obtain ⟨a, here⟩ : ∃ a, s.owner = .runResetOut a := by
      cases here : s.owner <;> simp_all [Owner.resets]
    have inv := exec_jobInvariant (fun action member => plain action (by simp [member])) ran
    obtain ⟨last, after, returns, unfinished⟩ := overtaken_wait inv here behind
    refine ⟨before, overtaken, List.prefix_append _ _, by simp [overtaken, Action.plain], ?_⟩
    intro honest
    obtain ⟨⟨_, all⟩, _⟩ := honest (before ++ overtaken) [] last last (by simp)
      (exec_trans ran after) rfl returns
    exact unfinished all

def waitRun : List (Action ℕ) :=
  .call (.run 7) :: List.replicate 10 .owner ++ List.replicate 9 .worker ++
    [.call (.wait .infinite), .owner]

theorem honestWait_waitRun : HonestWait (init true 0) waitRun :=
  (resetsLate_exact (by decide)).1 (by decide)

/-- The owner polls `Run` instead of waiting, and its second job overtakes the
`sig_out.Set` of the first one. -/
def overtakenRun : List (Action ℕ) :=
  .call (.run 1) :: List.replicate 10 .owner ++ List.replicate 8 .worker ++
    .call (.run 2) :: List.replicate 9 .owner ++ [.worker, .call (.wait .infinite), .owner]

theorem overtakenRun_dishonest : ¬ HonestWait (init true 0) overtakenRun := by
  intro honest
  have there : (exec step (init true 0) overtakenRun).map
      (fun s => (s.owner, s.finished, s.accepted)) = some (.waitReturn true, 1, [1, 2]) := by decide
  obtain ⟨s, ran, ends⟩ := Option.map_eq_some_iff.mp there
  simp only [Prod.mk.injEq] at ends
  obtain ⟨returns, finished, accepted⟩ := ends
  obtain ⟨⟨_, all⟩, _⟩ := honest overtakenRun [] s s (by simp) ran rfl returns
  simp [finished, accepted] at all

end Prot.System.PoolThread
