import Prot.System.PoolThread

/-! What a step of the pool thread can do, said once, and what holds of the
copies of `flag` that the owner and the worker carry between a read and the
write that follows. -/

namespace Prot.System.PoolThread

open Concurrency Time

variable {Arg : Type} {s s' : State Arg} {action : Action Arg}

theorem step_cases (taken : step s action = some s') :
    (∃ call, action = .call call ∧ s.owner = .idle ∧ s' = { s with owner := call.entry }) ∨
    (action = .owner ∧ s.ownerNext = some s') ∨
    (∃ online a, action = .createFails online ∧ s.owner = .runCreate a ∧
      s' = { s with online := online, owner := .runReturn a false }) ∨
    (∃ t, action = .expire ∧ s.owner = .waitOut t ∧ s.sigOut = false ∧ t.infinitely = false ∧
      s' = { s with owner := .waitReturn false }) ∨
    (action = .worker ∧ s.workerNext = some s') := by
  cases action with
  | call call =>
    cases here : s.owner <;> simp only [step, here] at taken
    case idle =>
      cases taken
      exact .inl ⟨call, rfl, rfl, rfl⟩
    all_goals cases taken
  | owner => exact .inr (.inl ⟨rfl, taken⟩)
  | createFails online =>
    cases here : s.owner <;> simp only [step, here] at taken
    case runCreate a =>
      cases taken
      exact .inr (.inr (.inl ⟨online, a, rfl, rfl, rfl⟩))
    all_goals cases taken
  | expire =>
    cases here : s.owner <;> simp only [step, here] at taken
    case waitOut t =>
      split at taken
      · rename_i gaveUp
        cases taken
        exact .inr (.inr (.inr (.inl ⟨t, rfl, rfl, gaveUp.1, gaveUp.2, rfl⟩)))
      · cases taken
    all_goals cases taken
  | worker => exact .inr (.inr (.inr (.inr ⟨rfl, taken⟩)))

/-- The destructor has written `PTDFLAG_DETACHED`. -/
def Owner.announced : Owner Arg → Bool
  | .destroyFunc | .destroySetIn | .gone => true
  | _ => false

/-- A copy of `flag` that may still be written back. -/
structure Flag.Agrees (f flag : Flag) : Prop where
  starting : f.starting = flag.starting
  hasExit : f.hasExit = flag.hasExit

/-- Neither copy of `flag` can lose `PTDFLAG_STARTING`, and `PTDFLAG_DETACHED`
is found only after the destructor has written it. -/
structure FlagInvariant (s : State Arg) : Prop where
  hasExit : s.flag.hasExit = false
  detached : s.flag.detached = true → s.owner.announced = true
  run : ∀ a f, s.owner = .runWriteFlag a f → f.Agrees s.flag ∧ f.detached = false
  destroy : ∀ f, s.owner = .destroyWriteFlag f → f.Agrees s.flag
  worker : ∀ f, s.worker = .writeFlag f →
    f.Agrees s.flag ∧ (f.detached = true → s.owner.announced = true)
  started : s.worker ≠ .absent → s.flag.starting = true
  writing : ∀ a, s.owner = .runWriteStarting a → s.flag.starting = false
  creating : ∀ a, s.owner = .runCreate a → s.worker = .absent ∧ s.flag.starting = true

theorem init_flags (func : Bool) (args : Arg) : FlagInvariant (init func args) := by
  constructor <;> simp [init]

/-- About to write back `flag`, or to write it for the first time. -/
def Owner.writes : Owner Arg → Bool
  | .runWriteFlag _ _ | .destroyWriteFlag _ | .runWriteStarting _ | .runCreate _ => true
  | _ => false

def Worker.writes : Worker → Bool
  | .writeFlag _ => true
  | _ => false

/-- The owner moves on to a place that does not write the flag. -/
theorem FlagInvariant.of_owner (flags : FlagInvariant s) (flag : s'.flag = s.flag)
    (worker : s'.worker = s.worker)
    (announced : s.owner.announced = true → s'.owner.announced = true)
    (quiet : s'.owner.writes = false) : FlagInvariant s' := by
  refine ⟨flag ▸ flags.hasExit, fun found => announced (flags.detached (flag ▸ found)), ?_, ?_,
    fun f at_ => ?_, fun there => ?_, ?_, ?_⟩
  · intro a f here
    rw [here] at quiet
    cases quiet
  · intro f here
    rw [here] at quiet
    cases quiet
  · obtain ⟨agrees, detached⟩ := flags.worker f (worker ▸ at_)
    exact ⟨flag ▸ agrees, fun found => announced (detached found)⟩
  · rw [flag]
    exact flags.started (worker ▸ there)
  · intro a here
    rw [here] at quiet
    cases quiet
  · intro a here
    rw [here] at quiet
    cases quiet

/-- The worker moves on to a place that does not write the flag. -/
theorem FlagInvariant.of_worker (flags : FlagInvariant s) (flag : s'.flag = s.flag)
    (owner : s'.owner = s.owner) (there : s.worker ≠ .absent)
    (quiet : s'.worker.writes = false) : FlagInvariant s' := by
  have started := flags.started there
  refine ⟨flag ▸ flags.hasExit, fun found => ?_, ?_, ?_, ?_, fun _ => flag ▸ started, ?_, ?_⟩
  · rw [owner]
    exact flags.detached (flag ▸ found)
  · rw [owner, flag]
    exact flags.run
  · rw [owner, flag]
    exact flags.destroy
  · intro f here
    rw [here] at quiet
    cases quiet
  · rw [owner, flag]
    exact flags.writing
  · intro a here
    exact absurd (flags.creating a (owner ▸ here)).1 there

theorem FlagInvariant.undetached (flags : FlagInvariant s) (early : s.owner.announced = false) :
    s.flag.detached = false := by
  by_contra found
  cases early.symm.trans (flags.detached (by simpa using found))

/-- A copy of `flag` the worker holds while the destructor has not written. -/
theorem FlagInvariant.copied (flags : FlagInvariant s) (early : s.owner.announced = false)
    (f : Flag) (at_ : s.worker = .writeFlag f) : f.Agrees s.flag ∧ f.detached = false := by
  obtain ⟨agrees, announced⟩ := flags.worker f at_
  refine ⟨agrees, ?_⟩
  by_contra found
  cases early.symm.trans (announced (by simpa using found))

private theorem ownerNext_flags (flags : FlagInvariant s) (taken : s.ownerNext = some s') :
    FlagInvariant s' := by
  have undetached := flags.undetached
  have copied := flags.copied
  cases here : s.owner <;> simp only [State.ownerNext, here] at taken undetached copied
  case idle | gone => cases taken
  case waitOut =>
    split at taken
    · cases taken
      exact flags.of_owner rfl rfl (by simp [here, Owner.announced]) rfl
    · cases taken
  case runTestStarting a =>
    cases taken
    cases starting : s.flag.starting with
    | true => exact flags.of_owner rfl rfl (by simp [here, Owner.announced]) (by simp [Owner.writes])
    | false =>
      refine ⟨flags.hasExit, fun found => ?_, by simp, by simp, fun f at_ => ?_, flags.started,
        fun _ _ => starting, by simp⟩
      · cases (undetached rfl).symm.trans found
      · obtain ⟨agrees, clear⟩ := copied rfl f at_
        exact ⟨agrees, fun found => nomatch clear.symm.trans found⟩
  case runWriteStarting a =>
    cases taken
    have absent : s.worker = .absent := by
      by_contra there
      cases (flags.started there).symm.trans (flags.writing a here)
    refine ⟨rfl, nofun, nofun, nofun, fun f at_ => ?_, fun _ => rfl, nofun, fun _ _ => ⟨absent, rfl⟩⟩
    cases absent.symm.trans at_
  case runCreate a =>
    cases taken
    refine ⟨flags.hasExit, fun found => ?_, nofun, nofun, nofun,
      fun _ => (flags.creating a here).2, nofun, nofun⟩
    cases (undetached rfl).symm.trans found
  case runReadFlag a =>
    cases taken
    refine ⟨flags.hasExit, fun found => ?_, ?_, nofun, fun f at_ => ?_, flags.started, nofun, nofun⟩
    · cases (undetached rfl).symm.trans found
    · rintro _ _ ⟨⟩
      exact ⟨⟨rfl, rfl⟩, undetached rfl⟩
    · obtain ⟨agrees, clear⟩ := copied rfl f at_
      exact ⟨agrees, fun found => nomatch clear.symm.trans found⟩
  case runWriteFlag a f =>
    cases taken
    obtain ⟨⟨starting, hasExit⟩, clear⟩ := flags.run a f here
    refine ⟨hasExit.trans flags.hasExit, fun found => ?_, nofun, nofun, fun g at_ => ?_,
      fun there => starting.trans (flags.started there), nofun, nofun⟩
    · cases clear.symm.trans found
    · obtain ⟨agrees, unset⟩ := copied rfl g at_
      exact ⟨⟨agrees.starting.trans starting.symm, agrees.hasExit.trans hasExit.symm⟩,
        fun found => nomatch unset.symm.trans found⟩
  case destroyReadFlag =>
    cases taken
    refine ⟨flags.hasExit, fun found => ?_, nofun, ?_, fun f at_ => ?_, flags.started, nofun, nofun⟩
    · cases (undetached rfl).symm.trans found
    · rintro _ ⟨⟩
      exact ⟨rfl, rfl⟩
    · obtain ⟨agrees, clear⟩ := copied rfl f at_
      exact ⟨agrees, fun found => nomatch clear.symm.trans found⟩
  case destroyWriteFlag f =>
    cases taken
    obtain ⟨starting, hasExit⟩ := flags.destroy f here
    refine ⟨hasExit.trans flags.hasExit, fun _ => rfl, nofun, nofun, fun g at_ => ?_,
      fun there => starting.trans (flags.started there), nofun, nofun⟩
    obtain ⟨agrees, _⟩ := copied rfl g at_
    exact ⟨⟨agrees.starting.trans starting.symm, agrees.hasExit.trans hasExit.symm⟩, fun _ => rfl⟩
  all_goals
    cases taken
    refine flags.of_owner rfl rfl (by simp [here, Owner.announced]) ?_
    first | rfl | (dsimp only; split <;> rfl)

private theorem workerNext_flags (flags : FlagInvariant s) (taken : s.workerNext = some s') :
    FlagInvariant s' := by
  cases here : s.worker <;> simp only [State.workerNext, here] at taken
  case absent | exited => cases taken
  case waitIn =>
    split at taken
    · cases taken
      exact flags.of_worker rfl rfl (by simp [here]) rfl
    · cases taken
  case readFlag =>
    cases taken
    have started := flags.started (by simp [here])
    refine ⟨flags.hasExit, flags.detached, flags.run, flags.destroy, ?_, fun _ => started,
      flags.writing, ?_⟩
    · rintro _ ⟨⟩
      exact ⟨⟨rfl, rfl⟩, flags.detached⟩
    · intro a at_
      cases here.symm.trans (flags.creating a at_).1
  case writeFlag f =>
    cases taken
    obtain ⟨⟨starting, hasExit⟩, announced⟩ := flags.worker f here
    have started := starting.trans (flags.started (by simp [here]))
    refine ⟨hasExit.trans flags.hasExit, announced, ?_, ?_, nofun, fun _ => started, ?_, ?_⟩
    · intro a g at_
      obtain ⟨agrees, undetached⟩ := flags.run a g at_
      exact ⟨⟨agrees.starting.trans starting.symm, agrees.hasExit.trans hasExit.symm⟩, undetached⟩
    · intro g at_
      have agrees := flags.destroy g at_
      exact ⟨agrees.starting.trans starting.symm, agrees.hasExit.trans hasExit.symm⟩
    · intro a at_
      exact starting.trans (flags.writing a at_)
    · intro a at_
      cases here.symm.trans (flags.creating a at_).1
  all_goals
    cases taken
    refine flags.of_worker rfl rfl (by simp [here]) ?_
    first | rfl | (dsimp only; split <;> rfl)

theorem step_flags (flags : FlagInvariant s) (taken : step s action = some s') :
    FlagInvariant s' := by
  rcases step_cases taken with ⟨call, rfl, idle, rfl⟩ | ⟨rfl, taken⟩ | ⟨online, a, rfl, at_, rfl⟩ |
    ⟨t, rfl, at_, empty, finite, rfl⟩ | ⟨rfl, taken⟩
  · refine flags.of_owner rfl rfl (by simp [idle, Owner.announced]) ?_
    cases call <;> rfl
  · exact ownerNext_flags flags taken
  · exact flags.of_owner rfl rfl (by simp [at_, Owner.announced]) rfl
  · exact flags.of_owner rfl rfl (by simp [at_, Owner.announced]) rfl
  · exact workerNext_flags flags taken

theorem exec_flags {func : Bool} {args : Arg} {actions : List (Action Arg)}
    (ran : exec step (init func args) actions = some s) : FlagInvariant s :=
  exec_invariant FlagInvariant (fun _ _ _ => step_flags) (init_flags func args) ran

end Prot.System.PoolThread
