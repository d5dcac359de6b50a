import Prot.System.PoolThreadInvariant

/-! Who deletes `PoolThreadData`: the destructor while there is no worker, or
the worker once the destructor has handed it over. -/

namespace Prot.System.PoolThread

open Concurrency Time

variable {Arg : Type} {s s' : State Arg} {action : Action Arg}

def Owner.touches : Owner Arg → Bool
  | .idle | .runCreate _ | .runGetId _ | .runReturn _ _ | .waitReturn _ => false
  | .statusThread | .statusReturn _ | .destroyStatus | .gone => false
  | _ => true

def Worker.touches : Worker → Bool
  | .absent | .returned | .exited => false
  | _ => true

/-- The step reads, writes or deletes `ptd`. -/
def State.touches (s : State Arg) : Action Arg → Bool
  | .call _ | .createFails _ => false
  | .owner | .expire => s.owner.touches
  | .worker => s.worker.touches

/-- No step uses `ptd` after it has been deleted, and it is deleted at most
once. -/
def UsedWhileAlive (start : State Arg) (actions : List (Action Arg)) : Prop :=
  Meets step (fun s action => s.touches action = true → s.deleted = 0) start actions ∧
    Always step (fun s => s.deleted ≤ 1) start actions

/-- The worker leaves its loop in this step: it finds `PTDFLAG_DETACHED` set or
`func` null. -/
def Exits (s : State Arg) (action : Action Arg) : Prop :=
  action = .worker ∧ ((s.worker = .test ∧ s.flag.detached = true) ∨
    (s.worker = .readFunc ∧ s.func = false))

/-- The worker does not leave its loop before the destructor has executed
`sig_in.Set`. -/
def ExitsLast (s : State Arg) (action : Action Arg) : Prop := Exits s action → s.owner = .gone

def Worker.left : Worker → Bool
  | .testHasExit | .delete | .returned | .exited => true
  | _ => false

def Worker.alive : Worker → Bool
  | .absent | .exited => false
  | _ => true

def Owner.handing : Owner Arg → Bool
  | .destroyReadFlag | .destroyWriteFlag _ | .destroyFunc | .destroySetIn => true
  | _ => false

structure Owned (s : State Arg) : Prop where
  once : s.deleted ≤ 1
  last : 0 < s.deleted → s.owner = .gone ∧ s.worker.touches = false
  free : s.owner = .destroyDelete → s.worker = .absent
  left : s.worker.left = true → s.owner = .gone
  online : s.worker.alive = true → s.online = true

theorem init_owned (func : Bool) (args : Arg) : Owned (init func args) := by
  constructor <;> simp [init, Worker.left, Worker.alive]

theorem Owned.intact (owned : Owned s) (before : s.owner ≠ .gone) : s.deleted = 0 := by
  by_contra deleted
  exact before (owned.last (Nat.pos_of_ne_zero deleted)).1

theorem Owned.not_left (owned : Owned s) (before : s.owner ≠ .gone) : s.worker.left = false := by
  by_contra left
  exact before (owned.left (by simpa using left))

private theorem Owned.absent_of_offline (owned : Owned s) (before : s.owner ≠ .gone)
    (offline : s.online = false) : s.worker = .absent := by
  have inside := owned.not_left before
  have dead : s.worker.alive ≠ true := fun alive => by
    cases offline.symm.trans (owned.online alive)
  cases here : s.worker <;> rw [here] at inside dead <;> simp [Worker.left, Worker.alive] at inside dead

/-- The owner moves on and neither deletes `ptd` nor starts the worker. -/
theorem Owned.of_owner (owned : Owned s) (before : s.owner ≠ .gone)
    (deleted : s'.deleted = s.deleted) (worker : s'.worker = s.worker)
    (online : s'.online = s.online)
    (free : s'.owner = .destroyDelete → s.worker = .absent) : Owned s' := by
  have intact := deleted.trans (owned.intact before)
  have inside := owned.not_left before
  refine ⟨by omega, fun gone => ?_, fun here => worker.trans (free here), fun left => ?_, ?_⟩
  · omega
  · rw [worker, inside] at left
    cases left
  · rw [worker, online]
    exact owned.online

private theorem ownerNext_owned (owned : Owned s) (taken : s.ownerNext = some s') : Owned s' := by
  have inside := owned.not_left
  have intact := owned.intact
  cases here : s.owner <;> simp only [State.ownerNext, here] at taken
  case idle | gone => cases taken
  case waitOut =>
    split at taken
    · cases taken
      exact owned.of_owner (by simp [here]) rfl rfl rfl (by rintro ⟨⟩)
    · cases taken
  case runCreate a =>
    cases taken
    have zero := intact (by simp [here])
    exact ⟨by simp [zero], fun gone => by simp [zero] at gone, by rintro ⟨⟩, by rintro ⟨⟩,
      fun _ => rfl⟩
  case destroyStatus =>
    cases taken
    have offline := owned.absent_of_offline (by simp [here])
    cases online : s.online with
    | true => exact owned.of_owner (by simp [here]) rfl rfl online.symm (by rintro ⟨⟩)
    | false => exact owned.of_owner (by simp [here]) rfl rfl online.symm fun _ => offline online
  case destroyDelete =>
    cases taken
    have absent := owned.free here
    have zero := intact (by simp [here])
    exact ⟨by simp [zero], fun _ => ⟨rfl, by simp [absent, Worker.touches]⟩, by rintro ⟨⟩,
      fun _ => rfl,
      owned.online⟩
  case runTestStarting | runTestActiving | statusThread =>
    cases taken
    refine owned.of_owner (by simp [here]) rfl rfl rfl fun deletes => ?_
    dsimp only at deletes
    split at deletes <;> cases deletes
  all_goals
    cases taken
    exact owned.of_owner (by simp [here]) rfl rfl rfl (by rintro ⟨⟩)

theorem Owned.intact_of_touches (owned : Owned s) (touching : s.worker.touches = true) :
    s.deleted = 0 := by
  by_contra gone
  cases (owned.last (Nat.pos_of_ne_zero gone)).2.symm.trans touching

theorem Worker.alive_of_touches {worker : Worker} (touching : worker.touches = true) :
    worker.alive = true := by
  cases worker <;> first | rfl | cases touching

/-- The worker moves on and neither deletes `ptd` nor ends. -/
theorem Owned.of_worker (owned : Owned s) (touching : s.worker.touches = true)
    (deleted : s'.deleted = s.deleted) (owner : s'.owner = s.owner) (online : s'.online = s.online)
    (left : s'.worker.left = true → s.owner = .gone) : Owned s' := by
  have intact := owned.intact_of_touches touching
  have alive := Worker.alive_of_touches touching
  refine ⟨by omega, fun gone => by omega, fun here => ?_, fun l => owner.trans (left l),
    fun _ => online.trans (owned.online alive)⟩
  rw [owned.free (owner ▸ here)] at touching
  cases touching

private theorem workerNext_owned (owned : Owned s) (exits : ExitsLast s .worker)
    (taken : s.workerNext = some s') : Owned s' := by
  have left := owned.left
  cases here : s.worker <;> simp only [State.workerNext, here] at taken left
  case absent | exited => cases taken
  case waitIn =>
    split at taken
    · cases taken
      exact owned.of_worker (by rw [here]; rfl) rfl rfl rfl (by rintro ⟨⟩)
    · cases taken
  case test =>
    cases taken
    cases detached : s.flag.detached with
    | true =>
      exact owned.of_worker (by rw [here]; rfl) rfl rfl rfl
        fun _ => exits ⟨rfl, .inl ⟨here, detached⟩⟩
    | false => exact owned.of_worker (by rw [here]; rfl) rfl rfl rfl (by rintro ⟨⟩)
  case readFunc =>
    cases taken
    cases func : s.func with
    | true => exact owned.of_worker (by rw [here]; rfl) rfl rfl rfl (by rintro ⟨⟩)
    | false =>
      exact owned.of_worker (by rw [here]; rfl) rfl rfl rfl fun _ => exits ⟨rfl, .inr ⟨here, func⟩⟩
  case testHasExit =>
    cases taken
    exact owned.of_worker (by rw [here]; rfl) rfl rfl rfl fun _ => left rfl
  case delete =>
    cases taken
    have gone := left rfl
    have intact := owned.intact_of_touches (by rw [here]; rfl)
    have online := owned.online (by rw [here]; rfl)
    exact ⟨by simp [intact], fun _ => ⟨gone, rfl⟩, (fun frees => by cases gone.symm.trans frees),
      fun _ => gone, fun _ => online⟩
  case returned =>
    cases taken
    have gone := left rfl
    exact ⟨owned.once, fun _ => ⟨gone, rfl⟩, (fun frees => by cases gone.symm.trans frees),
      fun _ => gone, by rintro ⟨⟩⟩
  all_goals
    cases taken
    exact owned.of_worker (by rw [here]; rfl) rfl rfl rfl (by rintro ⟨⟩)

theorem step_owned (flags : FlagInvariant s) (owned : Owned s) (exits : ExitsLast s action)
    (taken : step s action = some s') : Owned s' := by
  rcases step_cases taken with ⟨call, rfl, idle, rfl⟩ | ⟨rfl, taken⟩ |
    ⟨online, a, rfl, creates, rfl⟩ | ⟨t, rfl, waits, empty, finite, rfl⟩ | ⟨rfl, taken⟩
  · obtain ⟨once, last, free, left, online⟩ := owned
    constructor <;> cases call <;> simp_all [Call.entry]
  · exact ownerNext_owned owned taken
  · obtain ⟨once, last, free, left, on⟩ := owned
    have absent := (flags.creating a creates).1
    constructor <;> simp_all [Worker.alive, Worker.left]
  · obtain ⟨once, last, free, left, online⟩ := owned
    constructor <;> simp_all
  · exact workerNext_owned owned exits taken

/-- What `PoolThreadData` has been through once the destructor is done. -/
structure Freed (s : State Arg) : Prop where
  worker : s.worker = .returned ∨ s.worker = .exited → s.deleted = 1
  handing : s.owner.handing = true → s.worker = .absent → s.online = true
  owner : s.owner = .gone → s.online = false → s.deleted = 1

theorem init_freed (func : Bool) (args : Arg) : Freed (init func args) := by
  constructor <;> simp [init, Owner.handing]

/-- The owner moves on inside its life, with `ptd` not deleted. -/
theorem Freed.of_owner (owned : Owned s) (before : s.owner ≠ .gone) (worker : s'.worker = s.worker)
    (online : s'.online = s.online)
    (handing : s'.owner.handing = true → s.worker = .absent → s.online = true)
    (after : s'.owner ≠ .gone) : Freed s' := by
  have inside := owned.not_left before
  refine ⟨fun done => ?_, ?_, fun gone => absurd gone after⟩
  · rw [worker] at done
    rcases done with done | done <;> rw [done] at inside <;> cases inside
  · rw [worker, online]
    exact handing

private theorem ownerNext_freed (owned : Owned s) (freed : Freed s)
    (taken : s.ownerNext = some s') :
    Freed s' := by
  have handing := freed.handing
  have inside := owned.not_left
  cases here : s.owner <;> simp only [State.ownerNext, here] at taken handing
  case idle | gone => cases taken
  case waitOut =>
    split at taken
    · cases taken
      exact .of_owner owned (by simp [here]) rfl rfl (by rintro ⟨⟩) (by rintro ⟨⟩)
    · cases taken
  case runCreate a =>
    cases taken
    exact ⟨by simp, by rintro ⟨⟩, by rintro ⟨⟩⟩
  case destroyStatus =>
    cases taken
    cases online : s.online with
    | true =>
      exact .of_owner owned (by simp [here]) rfl online.symm (fun _ _ => online) (by rintro ⟨⟩)
    | false => exact .of_owner owned (by simp [here]) rfl online.symm (by rintro ⟨⟩) (by rintro ⟨⟩)
  case destroyDelete =>
    cases taken
    have absent := owned.free here
    have intact := owned.intact (by simp [here])
    exact ⟨by simp [absent], by rintro ⟨⟩, fun _ _ => by simp [intact]⟩
  case destroySetIn =>
    cases taken
    have unleft := inside (by simp [here])
    refine ⟨fun done => ?_, by rintro ⟨⟩, fun _ offline => ?_⟩
    · rcases done with done | done <;> rw [done] at unleft <;> cases unleft
    · have absent := owned.absent_of_offline (by simp [here]) offline
      cases offline.symm.trans (handing rfl absent)
  case destroyReadFlag | destroyWriteFlag | destroyFunc =>
    cases taken
    exact .of_owner owned (by simp [here]) rfl rfl (fun _ => handing rfl) (by rintro ⟨⟩)
  case runTestStarting | runTestActiving | statusThread =>
    cases taken
    refine .of_owner owned (by simp [here]) rfl rfl (fun hands => ?_) fun gone => ?_
    · dsimp only at hands
      split at hands <;> cases hands
    · dsimp only at gone
      split at gone <;> cases gone
  all_goals
    cases taken
    exact .of_owner owned (by simp [here]) rfl rfl (by rintro ⟨⟩) (by rintro ⟨⟩)

/-- The worker moves on inside its life. -/
theorem Freed.of_worker (owned : Owned s) (alive : s.worker.alive = true)
    (online : s'.online = s.online) (still : s'.worker ≠ .absent)
    (done : s'.worker = .returned ∨ s'.worker = .exited → s'.deleted = 1) : Freed s' := by
  refine ⟨done, fun _ gone => absurd gone still, fun _ offline => ?_⟩
  cases offline.symm.trans (online.trans (owned.online alive))

private theorem workerNext_freed (flags : FlagInvariant s) (owned : Owned s) (freed : Freed s)
    (taken : s.workerNext = some s') : Freed s' := by
  have hasExit := flags.hasExit
  cases here : s.worker <;> simp only [State.workerNext, here, hasExit] at taken
  case absent | exited => cases taken
  case waitIn =>
    split at taken
    · cases taken
      exact .of_worker owned (by rw [here]; rfl) rfl (by rintro ⟨⟩) (by simp)
    · cases taken
  case test | readFunc =>
    cases taken
    refine .of_worker owned (by rw [here]; rfl) rfl ?_ ?_ <;> split <;> simp
  case delete =>
    cases taken
    have intact := owned.intact_of_touches (by rw [here]; rfl)
    exact .of_worker owned (by rw [here]; rfl) rfl (by rintro ⟨⟩) fun _ => by simp [intact]
  case returned =>
    cases taken
    have once := freed.worker (.inl here)
    exact ⟨fun _ => once, by rintro _ ⟨⟩, fun _ _ => once⟩
  all_goals
    cases taken
    exact .of_worker owned (by rw [here]; rfl) rfl (by rintro ⟨⟩) (by simp)

theorem step_freed (flags : FlagInvariant s) (owned : Owned s) (freed : Freed s)
    (taken : step s action = some s') : Freed s' := by
  rcases step_cases taken with ⟨call, rfl, idle, rfl⟩ | ⟨rfl, taken⟩ |
    ⟨online, a, rfl, creates, rfl⟩ | ⟨t, rfl, waits, empty, finite, rfl⟩ | ⟨rfl, taken⟩
  · obtain ⟨worker, handing, owner⟩ := freed
    constructor <;> cases call <;> simp_all [Call.entry, Owner.handing]
  · exact ownerNext_freed owned freed taken
  · obtain ⟨worker, handing, owner⟩ := freed
    have absent := (flags.creating a creates).1
    constructor <;> simp_all [Owner.handing]
  · obtain ⟨worker, handing, owner⟩ := freed
    constructor <;> simp_all [Owner.handing]
  · exact workerNext_freed flags owned freed taken

/-- The invariant of the runs in which the worker leaves its loop last. -/
def OwnedInvariant (s : State Arg) : Prop := FlagInvariant s ∧ Owned s ∧ Freed s

theorem step_ownedInvariant (inv : OwnedInvariant s) (exits : ExitsLast s action)
    (taken : step s action = some s') : OwnedInvariant s' := by
  obtain ⟨flags, owned, freed⟩ := inv
  exact ⟨step_flags flags taken, step_owned flags owned exits taken,
    step_freed flags owned freed taken⟩

theorem init_ownedInvariant (func : Bool) (args : Arg) : OwnedInvariant (init func args) :=
  ⟨init_flags func args, init_owned func args, init_freed func args⟩

theorem alive_of_touches (owned : Owned s) (touches : s.touches action = true) :
    s.deleted = 0 := by
  by_contra deleted
  obtain ⟨gone, still⟩ := owned.last (Nat.pos_of_ne_zero deleted)
  cases action <;> simp [State.touches, Owner.touches, gone, still] at touches

private theorem usedWhileAlive_of_exitsLast {func : Bool} {args : Arg} {actions : List (Action Arg)}
    (exits : Meets step ExitsLast (init func args) actions) :
    UsedWhileAlive (init func args) actions := by
  constructor
  · exact exits.of_invariant OwnedInvariant (fun _ _ _ => step_ownedInvariant)
      (fun _ _ _ inv _ _ => alive_of_touches inv.2.1) (init_ownedInvariant func args)
  · exact .of_invariant OwnedInvariant (fun _ _ _ => step_ownedInvariant)
      (fun _ inv => inv.2.1.once) (init_ownedInvariant func args) exits

/-- With a job function, `func` is null only once the destructor has made it so. -/
def FuncInvariant (s : State Arg) : Prop := s.func = false → s.owner = .destroySetIn ∨ s.owner = .gone

theorem step_func (inv : FuncInvariant s) (taken : step s action = some s') : FuncInvariant s' := by
  unfold FuncInvariant at inv ⊢
  rcases step_cases taken with ⟨call, rfl, idle, rfl⟩ | ⟨rfl, moved⟩ |
    ⟨online, a, rfl, creates, rfl⟩ | ⟨t, rfl, waits, empty, finite, rfl⟩ | ⟨rfl, moved⟩
  · simp_all
  · cases here : s.owner <;> simp only [State.ownerNext, here] at moved
    case waitOut =>
      split at moved
      · cases moved
        simp_all
      · cases moved
    case idle | gone => cases moved
    all_goals cases moved; simp_all
  · simp_all
  · simp_all
  · cases here : s.worker <;> simp only [State.workerNext, here] at moved
    case waitIn =>
      split at moved
      · cases moved
        exact inv
      · cases moved
    case absent | exited => cases moved
    all_goals cases moved; exact inv

private theorem unsafe_of_exits (flags : FlagInvariant s) (func : FuncInvariant s)
    (exits : Exits s action) (early : s.owner ≠ .gone) :
    ∃ next, exec step s [.worker, .worker, .worker] = some next ∧ 0 < next.deleted ∧
      next.touches .owner = true ∧ (step next .owner).isSome = true := by
  obtain ⟨rfl, leaves⟩ := exits
  have hasExit := flags.hasExit
  have detached := flags.detached
  unfold FuncInvariant at func
  have handing : s.owner = .destroyFunc ∨ s.owner = .destroySetIn := by
    rcases leaves with ⟨_, found⟩ | ⟨_, null⟩
    · have announced := detached found
      cases here : s.owner <;> simp_all [Owner.announced]
    · rcases func null with setting | gone
      · exact .inr setting
      · exact absurd gone early
  refine ⟨{ s with deleted := s.deleted + 1, worker := .returned }, ?_, Nat.succ_pos _, ?_, ?_⟩
  · rcases leaves with ⟨here, found⟩ | ⟨here, null⟩
    · simp [exec, step, State.workerNext, here, found, hasExit]
    · simp [exec, step, State.workerNext, here, null, hasExit]
  · rcases handing with here | here <;> simp [State.touches, Owner.touches, here]
  · rcases handing with here | here <;> simp [step, State.ownerNext, here]

/-- `ptd` is used only while it is alive in the runs in which the worker leaves
its loop last, and then it is deleted when owner and worker are done; every
other run can be cut and continued into one that uses `ptd` after its deletion. -/
theorem exitsLast_exact (args : Arg) (actions : List (Action Arg)) :
    (Meets step ExitsLast (init true args) actions → UsedWhileAlive (init true args) actions ∧
      ∀ s, exec step (init true args) actions = some s → s.owner = .gone → s.online = false →
        s.deleted = 1) ∧
    (¬ Meets step ExitsLast (init true args) actions → ∃ before more, before <+: actions ∧
      ¬ UsedWhileAlive (init true args) (before ++ more)) := by
  constructor
  · intro exits
    refine ⟨usedWhileAlive_of_exitsLast exits, fun s ran gone offline => ?_⟩
    have inv := exec_invariant_of_meets OwnedInvariant (fun _ _ _ => step_ownedInvariant)
      (init_ownedInvariant true args) exits ran
    exact inv.2.2.owner gone offline
  · intro early
    obtain ⟨before, action, rest, s, next, rfl, _, ran, taken, leaves⟩ := exists_of_not_meets early
    obtain ⟨exits, early⟩ : Exits s action ∧ s.owner ≠ .gone := by
      simpa [ExitsLast] using leaves
    have flags := exec_flags ran
    have func : FuncInvariant s :=
      exec_invariant FuncInvariant (fun _ _ _ => step_func) (by simp [FuncInvariant, init]) ran
    obtain ⟨last, after, deleted, touches, enabled⟩ := unsafe_of_exits flags func exits early
    obtain ⟨final, moved⟩ := Option.isSome_iff_exists.mp enabled
    refine ⟨before, [.worker, .worker, .worker, .owner], List.prefix_append _ _, ?_⟩
    rintro ⟨alive, _⟩
    rw [List.append_cons, List.append_cons, List.append_cons] at alive
    have reached : exec step (init true args)
        (before ++ [.worker] ++ [.worker] ++ [.worker]) = some last := by
      simpa using exec_trans ran after
    have zero := ((alive.append reached).2 final moved).1 touches
    omega

/-- The destructor has written `PTDFLAG_DETACHED`; the worker, at its first
loop test, finds it and deletes `ptd` while `ptd->func = Null` is still to come. -/
def earlyRun : List (Action Unit) :=
  .call (.run ()) :: List.replicate 10 .owner ++ .call .destroy :: List.replicate 3 .owner ++
    [.worker, .worker, .worker, .owner]

theorem earlyRun_unsafe : ¬ UsedWhileAlive (init true ()) earlyRun := by
  rintro ⟨alive, _⟩
  revert alive
  decide

end Prot.System.PoolThread
