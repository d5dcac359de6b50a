import Prot.System.PoolThreadInvariant

/-! The jobs an owner hands to the worker: the one slot of `PoolThreadData`
holds at most one of them, and the worker calls `func` on each of them once. -/

namespace Prot.System.PoolThread

open Concurrency Time

variable {Arg : Type} {s s' : State Arg} {action : Action Arg}

/-- The argument of a `Run` in progress that has found `PTDFLAG_ACTIVING` clear
and will return non-zero. -/
def Owner.submits : Owner Arg → Option Arg
  | .runResetOut a | .runWriteArgs a | .runReadFlag a | .runWriteFlag a _ => some a
  | .runSetIn a | .runGetId a | .runReturn a true => some a
  | _ => none

/-- The argument of such a `Run` whose `sig_in.Set` is still to come. -/
def Owner.presents : Owner Arg → Option Arg
  | .runResetOut a | .runWriteArgs a | .runReadFlag a | .runWriteFlag a _ | .runSetIn a => some a
  | _ => none

def Owner.destroys : Owner Arg → Bool
  | .destroyStatus | .destroyDelete | .destroyReadFlag | .destroyWriteFlag _ => true
  | .destroyFunc | .destroySetIn | .gone => true
  | _ => false

/-- From the call of `func` to the write that clears `PTDFLAG_ACTIVING`. -/
def Worker.busy : Worker → Bool
  | .running | .resetIn | .readFlag | .writeFlag _ => true
  | _ => false

/-- Past `sig_in.Wait` and not yet past `sig_in.Reset`. -/
def Worker.signalled : Worker → Bool
  | .readFunc | .callFunc | .running | .resetIn => true
  | .testHasExit | .delete | .returned | .exited => true
  | _ => false

/-- Between `sig_in.Reset` and the write that clears `PTDFLAG_ACTIVING`. -/
def Worker.clears : Worker → Bool
  | .readFlag | .writeFlag _ => true
  | _ => false

/-- The jobs accepted so far, with that of a `Run` about to return non-zero. -/
def State.submitted (s : State Arg) : List Arg := s.accepted ++ s.owner.submits.toList

def State.unstarted (s : State Arg) : List Arg :=
  match s.owner.presents with
  | some a => [a]
  | none => if s.sigIn = true ∧ s.worker.busy = false then [s.args] else []

/-- The owner's actions when it neither destroys the object nor sees
`Thread::Run` fail. -/
def Action.plain : Action Arg → Bool
  | .call .destroy | .createFails _ => false
  | _ => true

def Owner.sets : Owner Arg → Bool
  | .runSetIn _ => true
  | _ => false

def Owner.creates : Owner Arg → Bool
  | .runCreate _ => true
  | _ => false

/-- At a step of `Run` that needs the worker to be there. -/
def Owner.relies : Owner Arg → Bool
  | .runTestActiving _ | .runGetId _ => true
  | owner => owner.presents.isSome

def Worker.rests : Worker → Bool
  | .test | .waitIn | .setOut => true
  | _ => false

theorem Worker.clears_of_rests {worker : Worker} (rests : worker.rests = true) :
    worker.clears = false := by
  cases worker <;> first | rfl | cases rests

private theorem Worker.busy_of_rests {worker : Worker} (rests : worker.rests = true) :
    worker.busy = false := by
  cases worker <;> first | rfl | cases rests

private theorem Owner.presents_of_sets {owner : Owner Arg} (sets : owner.sets = true) :
    owner.presents.isSome = true := by
  cases owner <;> first | rfl | cases sets

/-- How the flag and `sig_in` follow the one job slot through its life. -/
structure Slot (s : State Arg) : Prop where
  presenting : s.owner.presents.isSome = true → s.sigIn = false ∧ s.worker.rests = true
  signalled : s.worker.signalled = true → s.sigIn = true
  clears : s.worker.clears = true → s.sigIn = false
  cleared : ∀ f, s.worker = .writeFlag f → f.activing = false
  raised : ∀ a f, s.owner = .runWriteFlag a f → f.activing = true
  activing : s.flag.activing = (s.owner.sets || s.sigIn || s.worker.clears)
  destroys : s.owner.destroys = false
  present : s.flag.starting = true → s.owner.creates = false → s.worker ≠ .absent
  relies : s.owner.relies = true → s.worker ≠ .absent
  absent : s.worker = .absent → s.sigIn = false
  tid : s.worker ≠ .absent → s.tid = true

theorem init_slot (func : Bool) (args : Arg) : Slot (init func args) := by
  constructor <;> simp [init, Owner.presents, Owner.sets, Owner.relies, Worker.signalled,
    Worker.clears, Owner.destroys]

/-- A worker between two jobs, as far as `sig_in` and the flag tell. -/
theorem Slot.rests (slot : Slot s) (started : s.worker ≠ .absent)
    (clear : s.flag.activing = false) : s.sigIn = false ∧ s.worker.rests = true := by
  have signalled := slot.signalled
  have activing := slot.activing
  rw [clear, Bool.or_assoc, eq_comm, Bool.or_eq_false_iff, Bool.or_eq_false_iff] at activing
  obtain ⟨_, quiet, past⟩ := activing
  rw [quiet] at signalled
  cases here : s.worker <;> rw [here] at started signalled past <;>
    first | contradiction | exact ⟨quiet, rfl⟩

/-- The owner moves on and leaves the flag, `sig_in` and the worker alone. -/
theorem Slot.of_owner (slot : Slot s) (flag : s'.flag = s.flag) (sigIn : s'.sigIn = s.sigIn)
    (worker : s'.worker = s.worker) (tid : s'.tid = s.tid)
    (presenting : s'.owner.presents.isSome = true → s.sigIn = false ∧ s.worker.rests = true)
    (raised : ∀ a f, s'.owner = .runWriteFlag a f → f.activing = true)
    (sets : s'.owner.sets = s.owner.sets) (creates : s.owner.creates = false)
    (destroys : s'.owner.destroys = false)
    (relies : s'.owner.relies = true → s.worker ≠ .absent) : Slot s' where
  presenting := by rw [sigIn, worker]; exact presenting
  signalled := by rw [sigIn, worker]; exact slot.signalled
  clears := by rw [sigIn, worker]; exact slot.clears
  cleared := by rw [worker]; exact slot.cleared
  raised := raised
  activing := by rw [flag, sets, sigIn, worker]; exact slot.activing
  destroys := destroys
  present starting _ := by
    rw [worker]
    rw [flag] at starting
    exact slot.present starting creates
  relies := by rw [worker]; exact relies
  absent := by rw [worker, sigIn]; exact slot.absent
  tid := by rw [worker, tid]; exact slot.tid

/-- The same for a step to a place where nothing is presented to the worker. -/
theorem Slot.of_owner_quiet (slot : Slot s) (flag : s'.flag = s.flag) (sigIn : s'.sigIn = s.sigIn)
    (worker : s'.worker = s.worker) (tid : s'.tid = s.tid) (presents : s'.owner.presents = none)
    (sets : s.owner.sets = false) (creates : s.owner.creates = false)
    (destroys : s'.owner.destroys = false)
    (relies : s'.owner.relies = true → s.worker ≠ .absent) : Slot s' := by
  refine slot.of_owner flag sigIn worker tid (fun some_ => ?_) (fun a f writes => ?_) ?_ creates
    destroys relies
  · rw [presents] at some_
    cases some_
  · rw [writes] at presents
    cases presents
  · rw [sets, Bool.eq_false_iff]
    intro sets'
    have some_ := Owner.presents_of_sets sets'
    rw [presents] at some_
    cases some_

private theorem ownerNext_slot (flags : FlagInvariant s) (slot : Slot s)
    (taken : s.ownerNext = some s') :
    Slot s' := by
  have presenting := slot.presenting
  have relies := slot.relies
  have destroys := slot.destroys
  cases here : s.owner <;> simp only [State.ownerNext, here] at taken presenting relies destroys
  case idle | gone => cases taken
  case destroyStatus | destroyDelete | destroyReadFlag | destroyWriteFlag | destroyFunc |
    destroySetIn => cases destroys
  case waitOut =>
    split at taken
    · cases taken
      exact slot.of_owner_quiet rfl rfl rfl rfl rfl (by rw [here]; rfl) (by rw [here]; rfl) rfl
        (by rintro ⟨⟩)
    · cases taken
  case runTestStarting a =>
    cases taken
    cases starting : s.flag.starting with
    | true =>
      exact slot.of_owner_quiet rfl rfl rfl rfl rfl (by rw [here]; rfl) (by rw [here]; rfl) rfl
        (fun _ => slot.present starting (by rw [here]; rfl))
    | false =>
      exact slot.of_owner_quiet rfl rfl rfl rfl rfl (by rw [here]; rfl) (by rw [here]; rfl) rfl
        (by rintro ⟨⟩)
  case runWriteStarting a =>
    cases taken
    have gone : s.worker = .absent := by
      by_contra present
      cases (flags.started present).symm.trans (flags.writing a here)
    have quiet := slot.absent gone
    constructor <;> simp [Owner.presents, Owner.sets, Owner.creates, Owner.relies, Owner.destroys,
      Worker.signalled, Worker.clears, gone, quiet]
  case runCreate a =>
    cases taken
    obtain ⟨gone, _⟩ := flags.creating a here
    have quiet := slot.absent gone
    have clear : s.flag.activing = false := by
      rw [slot.activing, here, quiet, gone]
      rfl
    constructor <;> simp [clear, quiet, Owner.sets, Owner.creates, Owner.destroys,
      Worker.signalled, Worker.clears, Worker.rests]
  case runTestActiving a =>
    cases taken
    have there := relies rfl
    cases activing : s.flag.activing with
    | true =>
      exact slot.of_owner_quiet rfl rfl rfl rfl rfl (by rw [here]; rfl) (by rw [here]; rfl) rfl
        (by rintro ⟨⟩)
    | false =>
      exact slot.of_owner rfl rfl rfl rfl (fun _ => slot.rests there activing) (by rintro _ _ ⟨⟩)
        (by rw [here]; rfl) (by rw [here]; rfl) rfl (fun _ => there)
  case runReadFlag a =>
    cases taken
    refine slot.of_owner rfl rfl rfl rfl (fun _ => presenting rfl) ?_ (by rw [here]; rfl)
      (by rw [here]; rfl) rfl (fun _ => relies rfl)
    rintro _ _ ⟨⟩
    rfl
  case runWriteFlag a f =>
    cases taken
    obtain ⟨quiet, resting⟩ := presenting rfl
    have there := relies rfl
    exact ⟨fun _ => ⟨quiet, resting⟩, slot.signalled, slot.clears, slot.cleared, by rintro _ _ ⟨⟩,
      (slot.raised a f here).trans (by simp [Owner.sets]), rfl, fun _ _ => there, fun _ => there,
      slot.absent, slot.tid⟩
  case runSetIn a =>
    cases taken
    obtain ⟨_, resting⟩ := presenting rfl
    have there := relies rfl
    refine ⟨by rintro ⟨⟩, fun _ => rfl, fun clears => ?_, slot.cleared, by rintro _ _ ⟨⟩, ?_, rfl,
      fun _ _ => there, fun _ => there, fun gone => absurd gone there, slot.tid⟩
    · cases (Worker.clears_of_rests resting).symm.trans clears
    · rw [slot.activing, here]
      rfl
  case runResetOut | runWriteArgs =>
    cases taken
    exact slot.of_owner rfl rfl rfl rfl (fun _ => presenting rfl) (by rintro _ _ ⟨⟩)
      (by rw [here]; rfl)
      (by rw [here]; rfl) rfl (fun _ => relies rfl)
  case statusThread =>
    cases taken
    cases online : s.online <;>
      exact slot.of_owner_quiet rfl rfl rfl rfl rfl (by rw [here]; rfl) (by rw [here]; rfl) rfl
        (by rintro ⟨⟩)
  all_goals
    cases taken
    exact slot.of_owner_quiet rfl rfl rfl rfl rfl (by rw [here]; rfl) (by rw [here]; rfl) rfl
      (by rintro ⟨⟩)

theorem Slot.detached (slot : Slot s) (flags : FlagInvariant s) : s.flag.detached = false := by
  have destroys := slot.destroys
  cases found : s.flag.detached with
  | false => rfl
  | true =>
    have announced := flags.detached found
    cases here : s.owner <;> simp [here, Owner.announced, Owner.destroys] at announced destroys

/-- The worker moves on and leaves the flag, `sig_in` and the owner alone. -/
theorem Slot.of_worker (slot : Slot s) (flag : s'.flag = s.flag) (sigIn : s'.sigIn = s.sigIn)
    (owner : s'.owner = s.owner) (tid : s'.tid = s.tid)
    (there : s.worker ≠ .absent) (still : s'.worker ≠ .absent)
    (rests : s.sigIn = false → s.worker.rests = true → s'.worker.rests = true)
    (signalled : s'.worker.signalled = true → s.sigIn = true)
    (clears : s'.worker.clears = s.worker.clears)
    (cleared : ∀ f, s'.worker = .writeFlag f → f.activing = false) : Slot s' where
  presenting presents := by
    rw [owner] at presents
    obtain ⟨quiet, resting⟩ := slot.presenting presents
    exact ⟨sigIn.trans quiet, rests quiet resting⟩
  signalled := by rw [sigIn]; exact signalled
  clears := by rw [clears, sigIn]; exact slot.clears
  cleared := cleared
  raised := by rw [owner]; exact slot.raised
  activing := by rw [flag, owner, sigIn, clears]; exact slot.activing
  destroys := by rw [owner]; exact slot.destroys
  present _ _ := still
  relies _ := still
  absent gone := absurd gone still
  tid _ := tid.trans (slot.tid there)

/-- The same for a worker that has been given a job. -/
theorem Slot.of_worker_set (slot : Slot s) (flag : s'.flag = s.flag) (sigIn : s'.sigIn = s.sigIn)
    (owner : s'.owner = s.owner) (tid : s'.tid = s.tid) (there : s.worker ≠ .absent)
    (still : s'.worker ≠ .absent) (set : s.sigIn = true)
    (clears : s'.worker.clears = s.worker.clears)
    (cleared : ∀ f, s'.worker = .writeFlag f → f.activing = false) : Slot s' := by
  refine slot.of_worker flag sigIn owner tid there still (fun unset => ?_) (fun _ => set) clears
    cleared
  cases set.symm.trans unset

private theorem Slot.sets_of_clears (slot : Slot s) (clears : s.worker.clears = true) :
    s.owner.sets = false := by
  by_contra sets
  obtain ⟨_, resting⟩ := slot.presenting (Owner.presents_of_sets (by simpa using sets))
  cases (Worker.clears_of_rests resting).symm.trans clears

private theorem workerNext_slot (flags : FlagInvariant s) (slot : Slot s)
    (taken : s.workerNext = some s') :
    Slot s' := by
  have detached := slot.detached flags
  have signalled := slot.signalled
  have clears := slot.clears
  have quiet := slot.sets_of_clears
  cases here : s.worker <;>
    simp only [State.workerNext, here, detached] at taken signalled clears quiet
  case absent | exited => cases taken
  case waitIn =>
    split at taken
    · rename_i set
      cases taken
      exact slot.of_worker_set rfl rfl rfl rfl (by simp [here]) (by rintro ⟨⟩) set
        (by rw [here]; rfl) (by rintro _ ⟨⟩)
    · cases taken
  case resetIn =>
    cases taken
    have set := signalled rfl
    have waits : s.owner.presents.isSome ≠ true := fun presents => by
      cases set.symm.trans (slot.presenting presents).1
    refine ⟨fun presents => absurd presents waits, by rintro ⟨⟩, fun _ => rfl, by rintro _ ⟨⟩,
      slot.raised, ?_, slot.destroys, fun _ _ => by rintro ⟨⟩, fun _ => by rintro ⟨⟩, by rintro ⟨⟩,
      fun _ => slot.tid (by simp [here])⟩
    rw [slot.activing, set]
    simp [Worker.clears]
  case readFlag =>
    cases taken
    refine slot.of_worker rfl rfl rfl rfl (by simp [here]) (by rintro ⟨⟩)
      (by rw [here]; rintro _ ⟨⟩) (by rintro ⟨⟩) (by rw [here]; rfl) ?_
    rintro _ ⟨⟩
    rfl
  case writeFlag f =>
    cases taken
    have unset := clears rfl
    have starting := (flags.worker f here).1.starting
    refine ⟨fun presents => ⟨unset, rfl⟩, by rintro ⟨⟩, by rintro ⟨⟩, by rintro _ ⟨⟩, slot.raised,
      ?_, slot.destroys, fun _ _ => by rintro ⟨⟩, fun _ => by rintro ⟨⟩, by rintro ⟨⟩,
      fun _ => slot.tid (by simp [here])⟩
    rw [slot.cleared f here, quiet rfl, unset]
    rfl
  case test | setOut =>
    cases taken
    exact slot.of_worker rfl rfl rfl rfl (by simp [here]) (by rintro ⟨⟩) (fun _ _ => rfl)
      (by rintro ⟨⟩) (by rw [here]; rfl) (by rintro _ ⟨⟩)
  case readFunc =>
    cases taken
    have set := signalled rfl
    cases s.func <;>
      exact slot.of_worker_set rfl rfl rfl rfl (by simp [here]) (by rintro ⟨⟩) set
        (by rw [here]; rfl) (by rintro _ ⟨⟩)
  case testHasExit =>
    cases taken
    have set := signalled rfl
    cases s.flag.hasExit <;>
      exact slot.of_worker_set rfl rfl rfl rfl (by simp [here]) (by rintro ⟨⟩) set
        (by rw [here]; rfl) (by rintro _ ⟨⟩)
  all_goals
    cases taken
    have set := signalled rfl
    exact slot.of_worker_set rfl rfl rfl rfl (by simp [here]) (by rintro ⟨⟩) set
      (by rw [here]; rfl) (by rintro _ ⟨⟩)

theorem step_slot (flags : FlagInvariant s) (slot : Slot s) (plain : action.plain = true)
    (taken : step s action = some s') : Slot s' := by
  rcases step_cases taken with ⟨call, rfl, idle, rfl⟩ | ⟨rfl, moved⟩ |
    ⟨online, a, rfl, creates, rfl⟩ | ⟨t, rfl, waits, empty, finite, rfl⟩ | ⟨rfl, moved⟩
  · obtain ⟨presenting, signalled, clears, cleared, raised, activing, destroys, present, relies,
      absent, tid⟩ := slot
    rw [idle] at activing present
    cases call with
    | destroy => cases plain
    | _ => exact ⟨nofun, signalled, clears, cleared, nofun, activing, rfl, present, nofun, absent, tid⟩
  · exact ownerNext_slot flags slot moved
  · cases plain
  · obtain ⟨presenting, signalled, clears, cleared, raised, activing, destroys, present, relies,
      absent, tid⟩ := slot
    rw [waits] at activing present
    exact ⟨nofun, signalled, clears, cleared, nofun, activing, rfl, present, nofun, absent, tid⟩
  · exact workerNext_slot flags slot moved

/-- The argument of a `Run` that has written it to `args` and not yet set
`sig_in`. -/
def Owner.written : Owner Arg → Option Arg
  | .runReadFlag a | .runWriteFlag a _ | .runSetIn a => some a
  | _ => none

/-- Every job is unstarted or called, and every called one finished or running. -/
structure Ledger (s : State Arg) : Prop where
  order : s.called ++ s.unstarted = s.submitted
  finished : s.finished + (decide (s.worker = .running)).toNat = s.called.length
  args : ∀ a, s.owner.written = some a → s.args = a

theorem init_ledger (func : Bool) (args : Arg) : Ledger (init func args) := by
  constructor <;> simp [init, State.unstarted, State.submitted, Owner.presents, Owner.submits,
    Owner.written]

private theorem ownerNext_ledger (flags : FlagInvariant s) (slot : Slot s) (ledger : Ledger s)
    (taken : s.ownerNext = some s') : Ledger s' := by
  have rests := slot.rests
  have presenting := slot.presenting
  have relies := slot.relies
  have started := slot.tid
  have absent := slot.absent
  have destroys := slot.destroys
  have creating := flags.creating
  obtain ⟨order, finished, written⟩ := ledger
  obtain ⟨func, args, flag, sigIn, sigOut, tid, online, deleted, owner, worker, accepted, called,
    count⟩ := s
  cases owner with
  | idle | gone => cases taken
  | destroyStatus | destroyDelete | destroyReadFlag | destroyWriteFlag | destroyFunc
  | destroySetIn => cases destroys
  | waitOut =>
    simp only [State.ownerNext] at taken
    split at taken
    · cases taken
      exact ⟨order, finished, by rintro _ ⟨⟩⟩
    · cases taken
  | runCreate a =>
    cases taken
    obtain ⟨gone, _⟩ : worker = .absent ∧ flag.starting = true := creating a rfl
    subst gone
    have quiet : sigIn = false := absent rfl
    subst quiet
    have none : called ++ [] = accepted ++ [] := order
    refine ⟨?_, finished, by rintro _ ⟨⟩⟩
    change called ++ [a] = accepted ++ [a]
    simpa using none
  | runTestActiving a =>
    cases taken
    cases clear : flag.activing with
    | true => exact ⟨order, finished, by rintro _ ⟨⟩⟩
    | false =>
      obtain ⟨quiet, _⟩ := rests (relies rfl) clear
      subst quiet
      have none : called ++ [] = accepted ++ [] := order
      refine ⟨?_, finished, by rintro _ ⟨⟩⟩
      change called ++ [a] = accepted ++ [a]
      simpa using none
  | runSetIn a =>
    cases taken
    obtain ⟨_, resting⟩ : sigIn = false ∧ worker.rests = true := presenting rfl
    have same : args = a := written a rfl
    refine ⟨?_, finished, by rintro _ ⟨⟩⟩
    have free : worker.busy = false := Worker.busy_of_rests resting
    have one : called ++ [a] = accepted ++ [a] := order
    simpa [State.unstarted, State.submitted, Owner.presents, Owner.submits, free, same] using one
  | runGetId a =>
    cases taken
    have created : tid = true := started (relies rfl)
    subst created
    exact ⟨order, finished, by rintro _ ⟨⟩⟩
  | runReturn a tid =>
    cases taken
    refine ⟨?_, finished, by rintro _ ⟨⟩⟩
    cases tid with
    | false => exact order
    | true => simpa [State.unstarted, State.submitted, Owner.presents, Owner.submits] using order
  | runTestStarting a =>
    cases taken
    cases flag.starting with
    | false => exact ⟨order, finished, by rintro _ ⟨⟩⟩
    | true => exact ⟨order, finished, by rintro _ ⟨⟩⟩
  | statusThread =>
    cases taken
    cases online with
    | false => exact ⟨order, finished, by rintro _ ⟨⟩⟩
    | true => exact ⟨order, finished, by rintro _ ⟨⟩⟩
  | runWriteArgs a =>
    cases taken
    exact ⟨order, finished, fun _ same => Option.some.inj same⟩
  | runReadFlag a | runWriteFlag a flag =>
    cases taken
    exact ⟨order, finished, written⟩
  | _ =>
    cases taken
    exact ⟨order, finished, by rintro _ ⟨⟩⟩

private theorem workerNext_ledger (flags : FlagInvariant s) (slot : Slot s) (ledger : Ledger s)
    (taken : s.workerNext = some s') : Ledger s' := by
  have detached := slot.detached flags
  have presenting := slot.presenting
  have signalled := slot.signalled
  have clears := slot.clears
  obtain ⟨order, finished, written⟩ := ledger
  obtain ⟨func, args, flag, sigIn, sigOut, tid, online, deleted, owner, worker, accepted, called,
    count⟩ := s
  cases worker with
  | absent | exited => cases taken
  | waitIn =>
    simp only [State.workerNext] at taken
    split at taken
    · cases taken
      exact ⟨order, finished, written⟩
    · cases taken
  | callFunc =>
    cases taken
    have set : sigIn = true := signalled rfl
    subst set
    have none : owner.presents = none := by
      cases presents : owner.presents with
      | none => rfl
      | some a => cases (presenting (by simp [presents])).1
    have one : called ++ [args] = accepted ++ owner.submits.toList := by
      simpa [State.unstarted, State.submitted, none, Worker.busy] using order
    refine ⟨?_, ?_, written⟩
    · simpa [State.unstarted, State.submitted, none, Worker.busy] using one
    · have same : count + 0 = called.length := finished
      simp [← same]
  | running =>
    cases taken
    refine ⟨order, ?_, written⟩
    have same : count + 1 = called.length := finished
    exact same
  | resetIn =>
    cases taken
    have set : sigIn = true := signalled rfl
    subst set
    refine ⟨?_, finished, written⟩
    simpa [State.unstarted, State.submitted, Worker.busy] using order
  | writeFlag written =>
    cases taken
    have quiet : sigIn = false := clears rfl
    subst quiet
    refine ⟨?_, finished, by assumption⟩
    simpa [State.unstarted, State.submitted, Worker.busy] using order
  | test =>
    cases taken
    have same : flag.detached = false := detached
    simp only [same]
    exact ⟨order, finished, written⟩
  | readFunc =>
    cases taken
    cases func with
    | false => exact ⟨order, finished, written⟩
    | true => exact ⟨order, finished, written⟩
  | testHasExit =>
    cases taken
    cases flag.hasExit with
    | false => exact ⟨order, finished, written⟩
    | true => exact ⟨order, finished, written⟩
  | _ =>
    cases taken
    exact ⟨order, finished, written⟩

theorem step_ledger (flags : FlagInvariant s) (slot : Slot s) (ledger : Ledger s)
    (plain : action.plain = true) (taken : step s action = some s') : Ledger s' := by
  rcases step_cases taken with ⟨call, rfl, idle, rfl⟩ | ⟨rfl, moved⟩ |
    ⟨online, a, rfl, creates, rfl⟩ | ⟨t, rfl, waits, empty, finite, rfl⟩ | ⟨rfl, moved⟩
  · obtain ⟨order, finished, written⟩ := ledger
    simp only [State.unstarted, State.submitted, idle] at order
    cases call with
    | destroy => cases plain
    | _ => exact ⟨order, finished, nofun⟩
  · exact ownerNext_ledger flags slot ledger moved
  · cases plain
  · obtain ⟨order, finished, written⟩ := ledger
    simp only [State.unstarted, State.submitted, waits] at order
    exact ⟨order, finished, nofun⟩
  · exact workerNext_ledger flags slot ledger moved

/-- The invariant of the runs of an owner whose threads start and who keeps
the object. -/
def JobInvariant (s : State Arg) : Prop := FlagInvariant s ∧ Slot s ∧ Ledger s

theorem init_jobInvariant (func : Bool) (args : Arg) : JobInvariant (init func args) :=
  ⟨init_flags func args, init_slot func args, init_ledger func args⟩

theorem step_jobInvariant (inv : JobInvariant s) (plain : action.plain = true)
    (taken : step s action = some s') : JobInvariant s' := by
  obtain ⟨flags, slot, ledger⟩ := inv
  exact ⟨step_flags flags taken, step_slot flags slot plain taken,
    step_ledger flags slot ledger plain taken⟩

theorem exec_jobInvariant {func : Bool} {args : Arg} {actions : List (Action Arg)}
    (plain : ∀ action ∈ actions, action.plain = true)
    (ran : exec step (init func args) actions = some s) : JobInvariant s := by
  have meets : Meets step (fun _ action => action.plain = true) (init func args) actions :=
    .of_forall plain
  exact exec_invariant_of_meets JobInvariant (fun _ _ _ => step_jobInvariant) (init_jobInvariant func args)
    meets ran

private theorem unstarted_length (s : State Arg) : s.unstarted.length ≤ 1 := by
  unfold State.unstarted
  split
  · exact Nat.le_refl 1
  · split
    · exact Nat.le_refl 1
    · exact Nat.zero_le 1

private theorem Slot.unstarted_of_running (slot : Slot s) (running : s.worker = .running) :
    s.unstarted = [] := by
  have set : s.sigIn = true := slot.signalled (by rw [running]; rfl)
  have none : s.owner.presents = none := by
    cases presents : s.owner.presents with
    | none => rfl
    | some a =>
      have quiet := (slot.presenting (by simp [presents])).1
      cases quiet.symm.trans set
  simp [State.unstarted, none, running, Worker.busy]

private theorem exists_signal (pending : s.unstarted ≠ []) :
    s.sigIn = true ∨ ∃ a, s.owner.presents = some a := by
  cases presents : s.owner.presents with
  | some a => exact .inr ⟨a, rfl⟩
  | none =>
    simp only [State.unstarted, presents] at pending
    split at pending
    · rename_i set
      exact .inl set.1
    · exact absurd rfl pending

/-- What the owner and the worker have done with the jobs: `func` was called
with the arguments of the accepted `Run` calls, in order and each once, the
`Run` in progress included; at most one of them is unfinished, and one that is
unstarted is announced by `sig_in` or about to be. -/
structure InOrder (s : State Arg) : Prop where
  called : s.called <+: s.submitted
  returned : s.owner.submits = none → s.called <+: s.accepted
  unfinished : s.submitted.length ≤ s.finished + 1
  announced : s.called.length < s.submitted.length →
    s.sigIn = true ∨ ∃ a, s.owner.presents = some a

theorem JobInvariant.inOrder (inv : JobInvariant s) : InOrder s := by
  obtain ⟨_, slot, ⟨order, finished, _⟩⟩ := inv
  have lengths := congrArg List.length order
  rw [List.length_append] at lengths
  have called : s.called <+: s.submitted := ⟨s.unstarted, order⟩
  refine ⟨called, ?_, ?_, ?_⟩
  · intro none
    simpa [State.submitted, none] using called
  · by_cases running : s.worker = .running
    · rw [slot.unstarted_of_running running, List.length_nil] at lengths
      simp only [running, decide_true, Bool.toNat_true] at finished
      omega
    · have one := unstarted_length s
      simp only [running, decide_false, Bool.toNat_false] at finished
      omega
  · intro fewer
    refine exists_signal fun empty => ?_
    rw [empty, List.length_nil] at lengths
    omega

/-- Every job an owner hands over is run in order, exactly once and with its
own argument. -/
theorem jobs_inOrder {func : Bool} {args : Arg} {actions : List (Action Arg)}
    (plain : ∀ action ∈ actions, action.plain = true)
    (ran : exec step (init func args) actions = some s) : InOrder s :=
  (exec_jobInvariant plain ran).inOrder

def quickRun : List (Action ℕ) :=
  .call (.run 7) :: List.replicate 8 .owner ++ List.replicate 4 .worker

theorem jobs_inOrder_quickRun :
    ∃ s, exec step (init true 0) quickRun = some s ∧ s.submitted = [7] ∧ InOrder s := by
  obtain ⟨s, ran, submitted⟩ : ∃ s, exec step (init true 0) quickRun = some s ∧
      s.submitted = [7] := by
    have there : (exec step (init true 0) quickRun).map State.submitted = some [7] := by decide
    simpa [Option.map_eq_some_iff] using there
  exact ⟨s, ran, submitted, jobs_inOrder (by decide) ran⟩

theorem called_not_prefix_accepted :
    ¬ ∀ s, exec step (init true 0) quickRun = some s → s.called <+: s.accepted := by
  intro claimed
  have there : (exec step (init true 0) quickRun).map (fun s => (s.called, s.accepted)) =
      some ([7], []) := by decide
  obtain ⟨s, ran, both⟩ := Option.map_eq_some_iff.mp there
  have within := claimed s ran
  rw [Prod.mk.injEq] at both
  rw [both.1, both.2] at within
  cases List.prefix_nil.mp within

end Prot.System.PoolThread
