import Prot.System.PoolThreadIdle
import Prot.System.PoolThreadOwnership

/-! No job is forgotten and no `Wait` without a limit is left waiting: once the
owner makes no more calls, the pool thread comes to rest with all of them run. -/

namespace Prot.System.PoolThread

open Concurrency Time

variable {Arg : Type} {s s' : State Arg} {action : Action Arg}

def Owner.rank : Owner Arg → ℕ
  | .idle | .gone => 0
  | .runReturn _ _ | .waitReturn _ | .statusReturn _ | .destroyDelete => 1
  | .runGetId _ | .waitOut _ | .statusFlag => 2
  | .statusThread => 3
  | .destroySetIn => 13
  | .destroyFunc => 14
  | .destroyWriteFlag _ => 15
  | .destroyReadFlag => 16
  | .destroyStatus => 17
  | .runSetIn _ => 15
  | .runWriteFlag _ _ => 16
  | .runReadFlag _ => 17
  | .runWriteArgs _ => 18
  | .runResetOut _ => 19
  | .runTestActiving _ => 20
  | .runCreate _ => 24
  | .runWriteStarting _ => 25
  | .runTestStarting _ => 26

def Worker.rank : Worker → ℕ
  | .absent | .waitIn | .exited => 0
  | .returned => 1
  | .delete => 2
  | .testHasExit => 3
  | .test => 4
  | .setOut => 5
  | .writeFlag _ => 6
  | .readFlag => 7
  | .resetIn => 8
  | .running => 9
  | .callFunc => 10
  | .readFunc => 11

/-- A signal that the worker has not seen is one more round for it. -/
def State.rank (s : State Arg) : ℕ :=
  s.owner.rank + s.worker.rank + if s.sigIn = true ∧ s.worker.signalled = false then 12 else 0

theorem State.rank_le (s : State Arg) : s.rank ≤ 45 := by
  have owner : s.owner.rank ≤ 26 := by
    cases s.owner <;> simp [Owner.rank]
  have worker : s.worker.rank + (if s.sigIn = true ∧ s.worker.signalled = false then 12 else 0) ≤
      19 := by
    cases s.worker <;> simp [Worker.rank, Worker.signalled] <;> split <;> omega
  unfold State.rank
  omega

private theorem ownerNext_rank_lt (flags : FlagInvariant s) (taken : s.ownerNext = some s') :
    s'.rank < s.rank := by
  cases here : s.owner <;> simp only [State.ownerNext, here] at taken
  case idle | gone => cases taken
  case waitOut =>
    split at taken
    · cases taken
      simp [State.rank, here, Owner.rank]
    · cases taken
  case runSetIn | destroySetIn =>
    cases taken
    simp only [State.rank, here, Owner.rank]
    split <;> split <;> omega
  case runCreate a =>
    cases taken
    simp [State.rank, here, (flags.creating a here).1, Owner.rank, Worker.rank, Worker.signalled]
  case runTestStarting | runTestActiving | statusThread | destroyStatus =>
    cases taken
    simp only [State.rank, here]
    split <;> simp [Owner.rank]
  all_goals
    cases taken
    simp [State.rank, here, Owner.rank]

private theorem workerNext_rank_lt (taken : s.workerNext = some s') : s'.rank < s.rank := by
  cases here : s.worker <;> simp only [State.workerNext, here] at taken
  case absent | exited => cases taken
  case waitIn =>
    split at taken
    · rename_i signal
      cases taken
      simp [State.rank, here, Worker.rank, Worker.signalled, signal]
    · cases taken
  case test =>
    cases taken
    cases s.flag.detached with
    | true =>
      simp [State.rank, here, Worker.rank, Worker.signalled]
      omega
    | false => simp [State.rank, here, Worker.rank, Worker.signalled]
  case readFunc | testHasExit =>
    cases taken
    simp only [State.rank, here]
    split <;> simp [Worker.rank, Worker.signalled]
  all_goals
    cases taken
    simp [State.rank, here, Worker.rank, Worker.signalled]

/-- Every step but a call brings the end nearer. -/
theorem step_rank_lt (flags : FlagInvariant s) (internal : action.internal = true)
    (taken : step s action = some s') : s'.rank < s.rank := by
  rcases step_cases taken with ⟨call, rfl, _, rfl⟩ | ⟨rfl, moved⟩ | ⟨_, a, rfl, _, rfl⟩ |
    ⟨t, rfl, waits, _, _, rfl⟩ | ⟨rfl, moved⟩
  · cases internal
  · exact ownerNext_rank_lt flags moved
  · cases internal
  · simp [State.rank, waits, Owner.rank]
  · exact workerNext_rank_lt moved

/-- Between `sig_in.Reset` and `sig_out.Set`. -/
def Worker.owes : Worker → Bool
  | .readFlag | .writeFlag _ | .setOut => true
  | _ => false

/-- The worker stays in its loop, and `sig_out` is clear only while a job is in the slot
or the worker is still to set it. -/
structure Steady (s : State Arg) : Prop where
  func : s.func = true
  stays : s.worker.left = false
  owed : s.sigOut = false → s.owner.reset = true ∨ s.sigIn = true ∨ s.worker.owes = true

theorem init_steady (args : Arg) : Steady (init true args) :=
  ⟨rfl, rfl, fun clear => by cases clear⟩

private theorem ownerNext_steady (flags : FlagInvariant s) (slot : Slot s) (steady : Steady s)
    (taken : s.ownerNext = some s') : Steady s' := by
  obtain ⟨func, stays, owed⟩ := steady
  have destroys := slot.destroys
  cases here : s.owner <;>
    simp only [State.ownerNext, here] at taken destroys owed
  case idle | gone => cases taken
  case waitOut =>
    split at taken
    · cases taken
      exact ⟨func, stays, owed⟩
    · cases taken
  case runCreate a =>
    cases taken
    refine ⟨func, rfl, fun clear => ?_⟩
    rw [(flags.creating a here).1] at owed
    simpa [Owner.reset, Owner.presents, Worker.owes] using owed clear
  case runSetIn =>
    cases taken
    exact ⟨func, stays, fun _ => .inr (.inl rfl)⟩
  case destroyFunc | destroySetIn => cases destroys
  all_goals
    cases taken
    refine ⟨func, stays, fun clear => ?_⟩
    first
      | exact .inl rfl
      | exact .inr ((owed clear).resolve_left (by simp [Owner.reset, Owner.presents]))

private theorem workerNext_steady (flags : FlagInvariant s) (slot : Slot s) (steady : Steady s)
    (taken : s.workerNext = some s') : Steady s' := by
  obtain ⟨func, stays, owed⟩ := steady
  have detached := slot.detached flags
  cases here : s.worker <;> simp only [State.workerNext, here] at taken stays owed
  case absent | exited => cases taken
  case waitIn =>
    split at taken
    · cases taken
      exact ⟨func, rfl, owed⟩
    · cases taken
  case test =>
    rw [detached] at taken
    cases taken
    exact ⟨func, rfl, owed⟩
  case readFunc =>
    rw [if_pos func] at taken
    cases taken
    exact ⟨func, rfl, owed⟩
  case setOut =>
    cases taken
    exact ⟨func, rfl, fun clear => by cases clear⟩
  case testHasExit | delete | returned => cases stays
  all_goals
    cases taken
    refine ⟨func, rfl, fun clear => ?_⟩
    first
      | exact .inr (.inr rfl)
      | exact owed clear

theorem step_steady (flags : FlagInvariant s) (slot : Slot s) (steady : Steady s)
    (plain : action.plain = true) (taken : step s action = some s') : Steady s' := by
  rcases step_cases taken with ⟨call, rfl, idle, rfl⟩ | ⟨rfl, moved⟩ | ⟨_, a, rfl, _, rfl⟩ |
    ⟨t, rfl, waits, _, _, rfl⟩ | ⟨rfl, moved⟩
  · refine ⟨steady.func, steady.stays, fun clear => .inr ((steady.owed clear).resolve_left ?_)⟩
    simp [idle, Owner.reset, Owner.presents]
  · exact ownerNext_steady flags slot steady moved
  · cases plain
  · refine ⟨steady.func, steady.stays, fun clear => .inr ((steady.owed clear).resolve_left ?_)⟩
    simp [waits, Owner.reset, Owner.presents]
  · exact workerNext_steady flags slot steady moved

/-- The owner is back from its calls, every job that was accepted has been run to its
end, and the events say so. -/
structure Settled (s : State Arg) : Prop where
  owner : s.owner = .idle
  called : s.called = s.accepted
  finished : s.finished = s.accepted.length
  sigIn : s.sigIn = false
  sigOut : s.sigOut = true

private theorem ownerNext_eq_none (stuck : s.ownerNext = none) : s.owner = .idle ∨ s.owner = .gone ∨
    ∃ t, s.owner = .waitOut t ∧ s.sigOut = false := by
  cases here : s.owner <;> simp_all [State.ownerNext]

private theorem workerNext_eq_none (stuck : s.workerNext = none) : s.worker = .absent ∨
    s.worker = .exited ∨ s.worker = .waitIn ∧ s.sigIn = false := by
  cases here : s.worker <;> simp_all [State.workerNext]

private theorem Slot.calm_of_stuck (slot : Slot s) (steady : Steady s)
    (stuck : s.workerNext = none) :
    Calm s ∧ s.worker.owes = false := by
  rcases workerNext_eq_none stuck with absent | exited | ⟨waits, quiet⟩
  · exact ⟨⟨slot.absent absent, by rw [absent]; rfl⟩, by rw [absent]; rfl⟩
  · have stays := steady.stays
    rw [exited] at stays
    cases stays
  · exact ⟨⟨quiet, by rw [waits]; rfl⟩, by rw [waits]; rfl⟩

theorem settled_of_stuck (inv : JobInvariant s) (steady : Steady s) (owner : s.ownerNext = none)
    (worker : s.workerNext = none) : Settled s := by
  have slot := inv.2.1
  obtain ⟨calm, owes⟩ := slot.calm_of_stuck steady worker
  have set : s.owner.reset = false → s.sigOut = true := by
    intro past
    by_contra clear
    rcases steady.owed (by simpa using clear) with between | signal | still
    · cases past.symm.trans between
    · cases calm.1.symm.trans signal
    · cases owes.symm.trans still
  rcases ownerNext_eq_none owner with idle | gone | ⟨t, waits, clear⟩
  · obtain ⟨called, finished⟩ := calm.finished inv (by rw [idle]; rfl)
    exact ⟨idle, called, finished, calm.1, set (by rw [idle]; rfl)⟩
  · have destroys := slot.destroys
    rw [gone] at destroys
    cases destroys
  · cases clear.symm.trans (set (by rw [waits]; rfl))

/-- Once the owner makes no more calls, it and the worker come to rest within 45 steps,
in whatever order they take them, with every accepted job run and every `Wait` over. -/
theorem jobs_settle {args : Arg} {actions : List (Action Arg)}
    (plain : ∀ action ∈ actions, action.plain = true)
    (ran : exec step (init true args) actions = some s) :
    (∀ rest last, (∀ action ∈ rest, action.internal = true) → exec step s rest = some last →
      rest.length ≤ 45) ∧
    ((∀ action, action.internal = true → step s action = none) → Settled s) := by
  have meets : Meets step (fun _ action => action.plain = true) (init true args) actions :=
    .of_forall plain
  obtain ⟨inv, steady⟩ : JobInvariant s ∧ Steady s :=
    exec_invariant_of_meets (fun s : State Arg => JobInvariant s ∧ Steady s)
      (fun _ _ _ both plain taken => ⟨step_jobInvariant both.1 plain taken,
        step_steady both.1.1 both.1.2.1 both.2 plain taken⟩)
      ⟨init_jobInvariant true args, init_steady args⟩ meets ran
  refine ⟨fun rest last internal continued => ?_, fun stuck => ?_⟩
  · have inner : Meets step (fun _ action => action.internal = true) s rest := .of_forall internal
    have falls := exec_length_le State.rank FlagInvariant
      (fun _ _ _ flags _ taken => step_flags flags taken)
      (fun _ _ _ flags internal taken => step_rank_lt flags internal taken) inv.1 inner continued
    have most := s.rank_le
    omega
  · exact settled_of_stuck inv steady (stuck .owner rfl) (stuck .worker rfl)

def settledRun : List (Action ℕ) :=
  .call (.run 1) :: List.replicate 10 .owner ++ List.replicate 8 .worker ++
    .call (.run 2) :: List.replicate 9 .owner ++ .call (.wait .infinite) ::
    List.replicate 11 .worker ++ [.owner, .owner]

theorem jobs_settle_settledRun : ∃ s, exec step (init true 0) settledRun = some s ∧
    s.accepted = [1, 2] ∧ Settled s := by
  have there : (exec step (init true 0) settledRun).map
      (fun s => (s.accepted, s.owner, s.worker, s.sigIn)) =
        some ([1, 2], .idle, .waitIn, false) := by decide
  obtain ⟨s, ran, ends⟩ := Option.map_eq_some_iff.mp there
  simp only [Prod.mk.injEq] at ends
  obtain ⟨accepted, owner, worker, quiet⟩ := ends
  refine ⟨s, ran, accepted, (jobs_settle (by decide) ran).2 fun action internal => ?_⟩
  cases action with
  | call => cases internal
  | createFails => cases internal
  | owner => simp [step, State.ownerNext, owner]
  | expire => simp [step, owner]
  | worker => simp [step, State.workerNext, worker, quiet]

end Prot.System.PoolThread
