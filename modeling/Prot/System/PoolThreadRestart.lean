import Prot.System.PoolThreadIdle
import Prot.System.PoolThreadKill
import Mathlib.Data.List.Infix

/-! A pool thread that is run again after `Kill`. The dead worker may have left
`sig_in` set; the new one keeps to the jobs of the new `Run` calls as long as it
does not use that signal before `Run` has stored the argument, nor reset it
before `Run` has set it. -/

namespace Prot.System.PoolThread

open Concurrency Time

/-- Before the call of `func` for the next job. -/
def Worker.fresh : Worker → Bool
  | .test | .waitIn | .readFunc | .callFunc => true
  | _ => false

def Worker.inside : Worker → Bool
  | .running | .resetIn => true
  | _ => false

def Worker.closing : Worker → Bool
  | .readFlag | .writeFlag _ | .setOut => true
  | _ => false

def Worker.dead : Worker → Bool
  | .absent | .exited => true
  | _ => false

/-- Between `sig_in.Wait` and the call of `func`. -/
def Worker.entered : Worker → Bool
  | .readFunc | .callFunc => true
  | _ => false

private theorem Worker.fresh_of_dead {worker : Worker} (dead : worker.dead = true) :
    worker.fresh = false := by
  cases worker <;> first | rfl | cases dead

theorem Worker.inside_of_fresh {worker : Worker} (fresh : worker.fresh = true) :
    worker.inside = false := by
  cases worker <;> first | rfl | cases fresh

private theorem Worker.closing_of_fresh {worker : Worker} (fresh : worker.fresh = true) :
    worker.closing = false := by
  cases worker <;> first | rfl | cases fresh

/-- The owner has just seen the last job settled. -/
def Owner.trusts {Arg : Type} : Owner Arg → Bool
  | .waitReturn true | .runTestStarting _ | .runTestActiving _ | .runWriteStarting _
  | .runCreate _ => true
  | _ => false

def Owner.recreates {Arg : Type} : Owner Arg → Bool
  | .runWriteStarting _ | .runCreate _ => true
  | _ => false

def Owner.employs {Arg : Type} : Owner Arg → Bool
  | .runTestActiving _ => true
  | owner => owner.submits.isSome

/-- Not about to hand over a job: outside `Run`, before its decision, or in a
`Run` that is refused. -/
def Owner.blank {Arg : Type} : Owner Arg → Bool
  | .idle | .waitOut _ | .waitReturn _ | .statusThread | .statusFlag | .statusReturn _
  | .runTestStarting _ | .runTestActiving _ | .runWriteStarting _ | .runReturn _ false => true
  | _ => false

def Owner.runs {Arg : Type} : Owner Arg → Bool
  | .idle | .waitOut _ | .waitReturn _ | .statusThread | .statusFlag | .statusReturn _ => false
  | _ => true

def Kill.past : Kill → Bool
  | .writeFlag | .setOut | .return _ => true
  | _ => false

def Kill.wrote : Kill → Bool
  | .setOut | .return _ => true
  | _ => false

namespace Killable

variable {Arg : Type} {c c' : Killable Arg} {action : KillAction Arg} {o : Owner Arg}

/-- The argument of the job that no worker has called `func` with yet, for an
owner at the place `o`. -/
def unstarted (c : Killable Arg) (o : Owner Arg) : List Arg :=
  match o.presents with
  | some a => if c.pool.worker.inside then [] else [a]
  | none => if c.pool.worker.fresh ∧ c.pool.sigIn then [c.pool.args] else []

/-- No worker is there, or it waits for the next job and nothing is signalled. -/
def Quiet (c : Killable Arg) : Prop :=
  c.pool.worker.dead = true ∨ c.pool.worker.fresh = true ∧ c.pool.sigIn = false

/-- A `Kill` was successful after the last accepted `Run`. -/
def KilledSince (c : Killable Arg) : Prop :=
  ∃ mark ∈ c.kills, mark.1 = c.pool.accepted.length

/-- The owner calls `Run` first or after a `Wait` that returned `True`, calls
`Kill` while the worker is inside `func`, keeps the object, and its threads start. -/
def Orderly (c : Killable Arg) : KillAction Arg → Prop
  | .pool (.call (.run _)) => c.ready = true
  | .pool (.call .destroy) | .pool (.createFails _) => False
  | .kill => c.pool.worker = .running
  | _ => True

/-- No worker calls `func` while a `Run` has still to store its argument, none
resets `sig_in` while a `Run` has still to set it, and `Thread::Kill` waits until
the thread is gone. -/
def Unhurried (c : Killable Arg) : KillAction Arg → Prop
  | .pool .worker => match c.pool.worker with
    | .callFunc => c.pool.owner.presents.isSome = true → c.pool.owner.written.isSome = true
    | .resetIn => c.pool.owner.presents.isSome = false
    | _ => True
  | .killNext => c.kill = .await → c.pool.online = false
  | _ => True

instance (c : Killable Arg) (action : KillAction Arg) : Decidable (Orderly c action) := by
  unfold Orderly
  split <;> infer_instance

instance (c : Killable Arg) (action : KillAction Arg) : Decidable (Unhurried c action) := by
  unfold Unhurried
  split
  · split <;> infer_instance
  · infer_instance
  · infer_instance

/-- What holds of the worker, the events and the records. -/
structure Shared (c : Killable Arg) : Prop where
  func : c.pool.func = true
  detached : c.pool.flag.detached = false
  copy : ∀ f, c.pool.worker = .writeFlag f →
    f.starting = c.pool.flag.starting ∧ f.detached = false
  live : (c.pool.worker.dead || c.pool.worker.fresh || c.pool.worker.inside ||
    c.pool.worker.closing) = true
  online : c.pool.online = !c.pool.worker.dead
  tid : c.pool.worker ≠ .absent → c.pool.tid = true
  absent : c.pool.worker = .absent → c.pool.accepted = []
  signalled : (c.pool.worker.entered || c.pool.worker.inside) = true → c.pool.sigIn = true
  reset : c.pool.worker.closing = true → c.pool.sigIn = false
  ready : c.ready = true → c.Quiet
  lengths : c.returned.length = c.pool.called.length
  began : c.pool.worker.inside = true → c.returned ≠ []
  marks : ∀ mark ∈ c.kills, mark.1 = mark.2
  cancelled : c.cancelled = true → c.kill = .await ∧ c.pool.worker.dead = false
  born : c.kill ≠ .none → c.pool.worker ≠ .absent
  cancel : c.kill = .cancel → c.pool.worker.dead = false
  past : c.kill.past = true → c.pool.worker = .exited
  wrote : c.kill.wrote = true → c.pool.flag.starting = false
  honest : c.kill ≠ .return false
  exited : c.pool.worker = .exited → c.kill = .none → c.KilledSince

/-- What holds of an owner at the place `o`. -/
structure Stands (c : Killable Arg) (o : Owner Arg) : Prop where
  destroys : o.destroys = false
  copy : ∀ a f, o = .runWriteFlag a f → f.starting = c.pool.flag.starting ∧ f.detached = false
  recreates : o.recreates = true → c.pool.worker.dead = true
  employs : o.employs = true → c.pool.worker.dead = false
  starting : c.kill = .none → o.creates = false → c.pool.flag.starting = !c.pool.worker.dead
  creates : o.creates = true → c.pool.flag.starting = true
  presents : o.presents.isSome = true → c.pool.worker.closing = false ∧
    (c.pool.worker.inside = true → o.written.isSome = true)
  written : ∀ a, o.written = some a → c.pool.args = a
  trusts : o.trusts = true → c.Quiet
  sigOut : c.pool.sigOut = true → o.resets = true ∨ o.presents = none ∧ c.Quiet
  order : c.pool.called ++ c.unstarted o = c.pool.accepted ++ o.submits.toList
  returned : c.pool.worker ≠ .running → c.pool.worker.dead = false → c.unstarted o = [] →
    c.returned.getLast? ≠ some false
  kill : c.kill ≠ .none → o = .idle ∧ c.unstarted o = []
  unready : o.runs = true → c.ready = false

/-- The invariant of an orderly owner whose workers are not hurried. -/
structure Restart (c : Killable Arg) : Prop where
  shared : Shared c
  stands : Stands c c.pool.owner

theorem init_restart (args : Arg) : Restart (init args) := by
  constructor <;> constructor <;>
    simp [init, PoolThread.init, Worker.dead, Worker.fresh, Worker.inside, Worker.closing,
      Worker.entered, Kill.past, Kill.wrote, Quiet, Owner.destroys, Owner.recreates,
      Owner.employs, Owner.submits, Owner.presents, Owner.written, Owner.trusts, Owner.runs,
      Owner.creates, unstarted]

theorem Restart.move {ready : Bool} (restart : Restart c)
    (stands : Stands { c with ready := ready } o) (quiet : ready = true → c.Quiet) :
    Restart { c with pool := { c.pool with owner := o }, ready := ready } where
  shared := { restart.shared with ready := quiet }
  stands := { stands with }

/-- The parts of the invariant that are about the hand-over of a job ask nothing
of a blank place. -/
structure Blank (o : Owner Arg) : Prop where
  destroys : o.destroys = false
  creates : o.creates = false
  resets : o.resets = false
  submits : o.submits = none
  presents : o.presents = none
  written : o.written = none
  copy : ∀ a f, o ≠ .runWriteFlag a f

private theorem blank_of (blank : o.blank = true) : Blank o := by
  cases o with
  | runReturn a tid =>
    cases tid with
    | false => exact ⟨rfl, rfl, rfl, rfl, rfl, rfl, nofun⟩
    | true => cases blank
  | idle | waitOut | waitReturn | statusThread | statusFlag | statusReturn | runTestStarting
  | runTestActiving | runWriteStarting => exact ⟨rfl, rfl, rfl, rfl, rfl, rfl, nofun⟩
  | _ => cases blank

/-- The owner goes from one blank place to another. -/
theorem Stands.blank {o' : Owner Arg} {ready : Bool} (stands : Stands c o) (before : o.blank = true)
    (none : c.kill = .none) (after : o'.blank = true)
    (recreates : o'.recreates = true → c.pool.worker.dead = true)
    (employs : o'.employs = true → c.pool.worker.dead = false)
    (trusts : o'.trusts = true → c.Quiet) (unready : o'.runs = true → ready = false) :
    Stands { c with ready := ready } o' := by
  have blank := blank_of before
  have blank' := blank_of after
  have same : c.unstarted o' = c.unstarted o := by
    simp only [unstarted, blank.presents, blank'.presents]
  refine {
    destroys := blank'.destroys, copy := fun a f there => absurd there (blank'.copy a f)
    recreates := recreates, employs := employs
    starting := fun _ _ => stands.starting none blank.creates, creates := by simp [blank'.creates]
    presents := by simp [blank'.presents], written := by simp [blank'.written]
    trusts := trusts, sigOut := fun set => ?_, order := ?_, returned := ?_
    kill := fun busy => absurd none busy, unready := unready }
  · rcases stands.sigOut set with reset | ⟨_, quiet⟩
    · cases blank.resets.symm.trans reset
    · exact .inr ⟨blank'.presents, quiet⟩
  · change c.pool.called ++ c.unstarted o' = _
    rw [same, blank'.submits, ← blank.submits]
    exact stands.order
  · change _ → _ → c.unstarted o' = [] → _
    rw [same]
    exact stands.returned

/-- The same, to a place of which nothing is asked. -/
theorem Restart.moveBlank {o' : Owner Arg} {ready : Bool} (restart : Restart c) (stands : Stands c o)
    (before : o.blank = true) (none : c.kill = .none) (after : o'.blank = true)
    (plain : o'.recreates = false ∧ o'.employs = false ∧ o'.trusts = false)
    (unready : o'.runs = true → ready = false) (quiet : ready = true → c.Quiet) :
    Restart { c with pool := { c.pool with owner := o' }, ready := ready } := by
  obtain ⟨recreates, employs, trusts⟩ := plain
  refine restart.move (stands.blank before none after ?_ ?_ ?_ unready) quiet
  · rw [recreates]
    rintro ⟨⟩
  · rw [employs]
    rintro ⟨⟩
  · rw [trusts]
    rintro ⟨⟩

theorem quiet_unstarted (quiet : c.Quiet) (presents : o.presents = none) : c.unstarted o = [] := by
  have unused : ¬ (c.pool.worker.fresh = true ∧ c.pool.sigIn = true) := by
    rintro ⟨fresh, set⟩
    rcases quiet with dead | ⟨_, unset⟩
    · cases fresh.symm.trans (Worker.fresh_of_dead dead)
    · cases set.symm.trans unset
  simp only [unstarted, presents, if_neg unused]

private theorem restart_call (restart : Restart c) (none : c.kill = .none)
    (idle : c.pool.owner = .idle)
    {call : Call Arg} (orderly : Orderly c (.pool (.call call))) :
    Restart { c with
      pool := { c.pool with owner := call.entry }, ready := c.readyAfter (.call call) } := by
  have stands := restart.stands
  rw [idle] at stands
  cases call with
  | run a =>
    exact restart.move (stands.blank rfl none rfl nofun nofun
      (fun _ => restart.shared.ready orderly) fun _ => rfl) nofun
  | wait t => exact restart.moveBlank stands rfl none rfl ⟨rfl, rfl, rfl⟩ nofun restart.shared.ready
  | status => exact restart.moveBlank stands rfl none rfl ⟨rfl, rfl, rfl⟩ nofun restart.shared.ready
  | destroy => cases orderly

private theorem unstarted_presents {a : Arg} (presents : o.presents = some a)
    (outside : c.pool.worker.inside = false) : c.unstarted o = [a] := by
  simp [unstarted, presents, outside]

private theorem Restart.writeStarting {a : Arg} (restart : Restart c) (none : c.kill = .none)
    (here : c.pool.owner = .runWriteStarting a) : Restart { c with
      pool := { c.pool with flag := ⟨true, false, false, false⟩, owner := .runCreate a }
      ready := false } := by
  obtain ⟨shared, stands⟩ := restart
  rw [here] at stands
  have dead := stands.recreates rfl
  refine ⟨{ shared with detached := rfl, copy := ?_, ready := nofun, wrote := ?_ },
    { stands with
      copy := nofun, starting := nofun, creates := fun _ => rfl
      kill := fun busy => absurd none busy, unready := fun _ => rfl }⟩
  · intro f writes
    rw [writes] at dead
    cases dead
  · rw [none]
    exact nofun

/-- The new worker finds all jobs done. -/
theorem Restart.create {a : Arg} (restart : Restart c) (none : c.kill = .none)
    (here : c.pool.owner = .runCreate a) : Restart { c with
      pool := { c.pool with tid := true, online := true, worker := .test, owner := .runResetOut a }
      ready := false } := by
  obtain ⟨shared, stands⟩ := restart
  rw [here] at stands
  have settled := stands.trusts rfl
  have same : c.pool.called = c.pool.accepted := by
    have order := stands.order
    rw [quiet_unstarted settled rfl] at order
    simpa [Owner.submits] using order
  refine ⟨{ shared with
      copy := by rintro _ ⟨⟩, live := rfl, online := rfl, tid := fun _ => rfl
      absent := by rintro ⟨⟩
      signalled := by rintro ⟨⟩, reset := by rintro ⟨⟩, ready := by rintro ⟨⟩, began := by rintro ⟨⟩
      cancelled := fun set => ⟨(shared.cancelled set).1, rfl⟩, born := fun _ => (by rintro ⟨⟩)
      cancel := fun _ => rfl, past := ?_, exited := by rintro ⟨⟩ },
    { destroys := rfl, copy := by rintro _ _ ⟨⟩, recreates := by rintro ⟨⟩, employs := fun _ => rfl
      starting := fun _ _ => stands.creates rfl, creates := by rintro ⟨⟩
      presents := fun _ => ⟨rfl, by rintro ⟨⟩⟩, written := by rintro _ ⟨⟩, trusts := by rintro ⟨⟩
      sigOut := fun _ => .inl rfl, order := ?_, returned := by rintro _ _ ⟨⟩
      kill := fun busy => absurd none busy, unready := fun _ => rfl }⟩
  · rw [none]
    rintro ⟨⟩
  · change c.pool.called ++ [a] = c.pool.accepted ++ [a]
    rw [same]

private theorem Restart.goOn {a : Arg} (restart : Restart c) (none : c.kill = .none)
    (here : c.pool.owner = .runTestActiving a) : Restart { c with
      pool := { c.pool with owner := .runResetOut a }
      ready := false } := by
  have stands := restart.stands
  rw [here] at stands
  have settled := stands.trusts rfl
  have alive := stands.employs rfl
  obtain ⟨fresh, _⟩ := settled.resolve_left (by simp [alive])
  have outside := Worker.inside_of_fresh fresh
  have handed : c.unstarted (.runResetOut a) = [a] := unstarted_presents rfl outside
  refine restart.move {
    destroys := rfl, copy := nofun, recreates := nofun, employs := fun _ => alive
    starting := fun _ _ => stands.starting none rfl, creates := nofun
    presents := fun _ => ⟨Worker.closing_of_fresh fresh, fun inside => ?_⟩
    written := nofun, trusts := nofun, sigOut := fun _ => .inl rfl, order := ?_
    returned := fun _ _ empty => ?_
    kill := fun busy => absurd none busy, unready := fun _ => rfl } nofun
  · cases outside.symm.trans inside
  · have order := stands.order
    rw [quiet_unstarted settled rfl] at order
    change c.pool.called ++ c.unstarted (.runResetOut a) = c.pool.accepted ++ [a]
    rw [handed]
    simpa [Owner.submits] using order
  · cases handed.symm.trans empty

theorem Restart.writeFlag {a : Arg} {f : Flag} (restart : Restart c) (none : c.kill = .none)
    (here : c.pool.owner = .runWriteFlag a f) : Restart { c with
      pool := { c.pool with flag := f, owner := .runSetIn a }
      ready := false } := by
  obtain ⟨shared, stands⟩ := restart
  rw [here] at stands
  obtain ⟨starting, detached⟩ := stands.copy a f rfl
  refine ⟨{ shared with detached := detached, copy := ?_, ready := nofun, wrote := ?_ },
    { stands with
      copy := nofun, starting := fun _ _ => starting.trans (stands.starting none rfl)
      creates := nofun, kill := fun busy => absurd none busy, unready := fun _ => rfl }⟩
  · intro g writes
    have early := (stands.presents rfl).1
    rw [writes] at early
    cases early
  · rw [none]
    exact nofun

private theorem Restart.setIn {a : Arg} (restart : Restart c) (none : c.kill = .none)
    (here : c.pool.owner = .runSetIn a) : Restart { c with
      pool := { c.pool with sigIn := true, owner := .runGetId a }
      ready := false } := by
  obtain ⟨shared, stands⟩ := restart
  rw [here] at stands
  have alive := stands.employs rfl
  obtain ⟨closing, _⟩ := stands.presents rfl
  have same : c.pool.args = a := stands.written a rfl
  have moves : unstarted { c with
      pool := { c.pool with sigIn := true, owner := .runGetId a } } (.runGetId a) =
      c.unstarted (.runSetIn a) := by
    have live := shared.live
    rw [alive, closing, Bool.false_or, Bool.or_false] at live
    simp only [unstarted, Owner.presents, and_true, same]
    cases fresh : c.pool.worker.fresh with
    | true => simp [Worker.inside_of_fresh fresh]
    | false =>
      rw [fresh, Bool.false_or] at live
      simp [live]
  refine ⟨{ shared with signalled := fun _ => rfl, reset := ?_, ready := by rintro ⟨⟩ },
    { stands with
      copy := by rintro _ _ ⟨⟩, presents := by rintro ⟨⟩, written := by rintro _ ⟨⟩
      trusts := by rintro ⟨⟩, sigOut := ?_, order := ?_
      returned := ?_, kill := fun busy => absurd none busy, unready := fun _ => rfl }⟩
  · intro after
    cases closing.symm.trans after
  · intro set
    rcases stands.sigOut set with reset | ⟨presents, _⟩
    · cases reset
    · cases presents
  · exact (congrArg (c.pool.called ++ ·) moves).trans stands.order
  · exact fun out working empty => stands.returned out working (moves.symm.trans empty)

private theorem Restart.accept {a : Arg} (restart : Restart c) (none : c.kill = .none)
    (here : c.pool.owner = .runReturn a true) : Restart { c with
      pool := { c.pool with accepted := c.pool.accepted ++ [a], owner := .idle }
      ready := false } := by
  obtain ⟨shared, stands⟩ := restart
  rw [here] at stands
  have alive := stands.employs rfl
  refine ⟨{ shared with absent := ?_, ready := nofun, exited := ?_ }, { stands with
    copy := nofun, employs := nofun, order := ?_
    kill := fun busy => absurd none busy, unready := fun _ => rfl }⟩
  · intro absent
    rw [absent] at alive
    cases alive
  · intro exited
    rw [exited] at alive
    cases alive
  · have order : c.pool.called ++ c.unstarted (.runReturn a true) = c.pool.accepted ++ [a] :=
      stands.order
    change c.pool.called ++ c.unstarted (.runReturn a true) = (c.pool.accepted ++ [a]) ++ []
    rw [order, List.append_nil]

private theorem restart_owner (restart : Restart c) (none : c.kill = .none) {pool : State Arg}
    (taken : c.pool.ownerNext = some pool) :
    Restart { c with pool := pool, ready := c.readyAfter .owner } := by
  have shared := restart.shared
  have stands := restart.stands
  have quiet : c.readyAfter .owner = true → c.Quiet := by
    simp only [readyAfter]
    split
    · rintro ⟨⟩
    · rename_i here
      exact fun _ => stands.trusts (by rw [here]; rfl)
    · exact shared.ready
  cases here : c.pool.owner <;> simp only [State.ownerNext, here] at taken <;> rw [here] at stands
  case idle | gone => cases taken
  case destroyStatus | destroyDelete | destroyReadFlag | destroyWriteFlag | destroyFunc |
    destroySetIn => cases stands.destroys
  case waitOut t =>
    split at taken
    · rename_i set
      cases taken
      rcases stands.sigOut set with reset | ⟨_, settled⟩
      · cases reset
      · exact restart.move (stands.blank rfl none rfl (by rintro ⟨⟩) (by rintro ⟨⟩)
          (fun _ => settled) (by rintro ⟨⟩)) quiet
    · cases taken
  case waitReturn | statusReturn | statusFlag =>
    cases taken
    exact restart.moveBlank stands rfl none rfl ⟨rfl, rfl, rfl⟩ (by rintro ⟨⟩) quiet
  case statusThread =>
    cases taken
    split <;> exact restart.moveBlank stands rfl none rfl ⟨rfl, rfl, rfl⟩ (by rintro ⟨⟩) quiet
  all_goals
    have unready : c.readyAfter .owner = false := by
      simpa [readyAfter, here] using stands.unready rfl
    rw [unready]
  case runTestStarting a =>
    cases taken
    have starting := stands.starting none rfl
    have settled := stands.trusts rfl
    cases begun : c.pool.flag.starting with
    | true =>
      have alive : c.pool.worker.dead = false := by simpa [begun] using starting.symm
      exact restart.move (stands.blank rfl none rfl (by rintro ⟨⟩) (fun _ => alive)
        (fun _ => settled) fun _ => rfl) (by rintro ⟨⟩)
    | false =>
      have dead : c.pool.worker.dead = true := by simpa [begun] using starting.symm
      exact restart.move (stands.blank rfl none rfl (fun _ => dead) (by rintro ⟨⟩)
        (fun _ => settled) fun _ => rfl) (by rintro ⟨⟩)
  case runWriteStarting a =>
    cases taken
    exact restart.writeStarting none here
  case runCreate a =>
    cases taken
    exact restart.create none here
  case runTestActiving a =>
    cases taken
    split
    · exact restart.moveBlank stands rfl none rfl ⟨rfl, rfl, rfl⟩ (fun _ => rfl) (by rintro ⟨⟩)
    · exact restart.goOn none here
  case runResetOut a =>
    cases taken
    exact ⟨{ shared with ready := by rintro ⟨⟩ }, { stands with
      copy := by rintro _ _ ⟨⟩, sigOut := by rintro ⟨⟩
      kill := fun busy => absurd none busy, unready := fun _ => rfl }⟩
  case runWriteArgs a =>
    cases taken
    exact ⟨{ shared with ready := by rintro ⟨⟩ }, { stands with
      copy := by rintro _ _ ⟨⟩, presents := fun _ => ⟨(stands.presents rfl).1, fun _ => rfl⟩
      written := fun _ same => Option.some.inj same
      kill := fun busy => absurd none busy, unready := fun _ => rfl }⟩
  case runReadFlag a =>
    cases taken
    refine ⟨{ shared with ready := by rintro ⟨⟩ }, { stands with
      copy := ?_, kill := fun busy => absurd none busy, unready := fun _ => rfl }⟩
    rintro _ _ ⟨⟩
    exact ⟨rfl, shared.detached⟩
  case runWriteFlag a f =>
    cases taken
    exact restart.writeFlag none here
  case runSetIn a =>
    cases taken
    exact restart.setIn none here
  case runGetId a =>
    cases taken
    have alive := stands.employs rfl
    have created : c.pool.tid = true := shared.tid fun absent => by
      rw [absent] at alive
      cases alive
    have moved : Stands { c with ready := false } (.runReturn a c.pool.tid) := by
      rw [created]
      exact { stands with
        copy := by rintro _ _ ⟨⟩, kill := fun busy => absurd none busy, unready := fun _ => rfl }
    exact restart.move moved (by rintro ⟨⟩)
  case runReturn a tid =>
    cases taken
    cases tid with
    | false => exact restart.moveBlank stands rfl none rfl ⟨rfl, rfl, rfl⟩ (fun _ => rfl) (by rintro ⟨⟩)
    | true => exact restart.accept none here

/-- A worker that is there makes a step and stays there. -/
theorem Shared.work {worker : Worker} {flag : Flag} {sigIn sigOut : Bool} {called : List Arg}
    {finished : ℕ} {returned : List Bool} (shared : Shared c) (alive : c.pool.worker.dead = false)
    (still : worker.dead = false) (live : (worker.fresh || worker.inside || worker.closing) = true)
    (starting : flag.starting = c.pool.flag.starting) (detached : flag.detached = false)
    (copy : ∀ f, worker = .writeFlag f → f.starting = flag.starting ∧ f.detached = false)
    (signalled : (worker.entered || worker.inside) = true → sigIn = true)
    (reset : worker.closing = true → sigIn = false)
    (ready : c.ready = true → worker.fresh = true ∧ sigIn = false)
    (lengths : returned.length = called.length) (began : worker.inside = true → returned ≠ []) :
    Shared { c with
      pool := { c.pool with
        worker := worker, flag := flag, sigIn := sigIn, sigOut := sigOut, called := called
        finished := finished }
      returned := returned } where
  func := shared.func
  detached := detached
  copy := copy
  live := by
    change (worker.dead || worker.fresh || worker.inside || worker.closing) = true
    rw [still, Bool.false_or]
    exact live
  online := by
    change c.pool.online = !worker.dead
    rw [shared.online, alive, still]
  tid _ := shared.tid fun absent => by
    rw [absent] at alive
    cases alive
  absent absent := by
    have gone : worker = .absent := absent
    rw [gone] at still
    cases still
  signalled := signalled
  reset := reset
  ready set := .inr (ready set)
  lengths := lengths
  began := began
  marks := shared.marks
  cancelled set := ⟨(shared.cancelled set).1, still⟩
  born _ absent := by
    have gone : worker = .absent := absent
    rw [gone] at still
    cases still
  cancel _ := still
  past after := by
    have gone := shared.past after
    rw [gone] at alive
    cases alive
  wrote after := starting.trans (shared.wrote after)
  honest := shared.honest
  exited exited := by
    have gone : worker = .exited := exited
    rw [gone] at still
    cases still

/-- What the owner finds after such a step. -/
theorem Stands.work {worker : Worker} {flag : Flag} {sigIn sigOut : Bool} {called : List Arg}
    {finished : ℕ} {returned : List Bool} (stands : Stands c o) (alive : c.pool.worker.dead = false)
    (still : worker.dead = false) (starting : flag.starting = c.pool.flag.starting)
    (presents : o.presents.isSome = true → worker.closing = false ∧
      (worker.inside = true → o.written.isSome = true))
    (trusts : o.trusts = true → worker.fresh = true ∧ sigIn = false)
    (signal : sigOut = true → o.resets = true ∨ o.presents = none ∧ worker.fresh = true ∧
      sigIn = false)
    {left : List Arg} (remains : unstarted { c with
      pool := { c.pool with worker := worker, sigIn := sigIn } } o = left)
    (order : called ++ left = c.pool.accepted ++ o.submits.toList)
    (settled : worker ≠ .running → left = [] → returned.getLast? ≠ some false)
    (killing : c.unstarted o = [] → left = []) :
    Stands { c with
      pool := { c.pool with
        worker := worker, flag := flag, sigIn := sigIn, sigOut := sigOut, called := called
        finished := finished }
      returned := returned } o where
  destroys := stands.destroys
  copy a f here := by
    obtain ⟨same, detached⟩ := stands.copy a f here
    exact ⟨same.trans starting.symm, detached⟩
  recreates making := by cases alive.symm.trans (stands.recreates making)
  employs _ := still
  starting none other := by
    change flag.starting = !worker.dead
    rw [starting, stands.starting none other, alive, still]
  creates making := starting.trans (stands.creates making)
  presents := presents
  written := stands.written
  trusts trusting := .inr (trusts trusting)
  sigOut set := by
    rcases signal set with reset | ⟨none, quiet⟩
    · exact .inl reset
    · exact .inr ⟨none, .inr quiet⟩
  order := by
    change called ++ unstarted { c with
      pool := { c.pool with worker := worker, sigIn := sigIn } } o = _
    rw [remains]
    exact order
  returned out _ empty := settled out (remains.symm.trans empty)
  kill busy := by
    obtain ⟨idle, none⟩ := stands.kill busy
    exact ⟨idle, remains.trans (killing none)⟩
  unready := stands.unready

theorem Quiet.unset (quiet : c.Quiet) (alive : c.pool.worker.dead = false) :
    c.pool.worker.fresh = true ∧ c.pool.sigIn = false :=
  quiet.resolve_left (by simp [alive])

/-- A worker that uses a signal, or has used it, is not quiet. -/
theorem Quiet.absurd (quiet : c.Quiet) (alive : c.pool.worker.dead = false)
    (set : c.pool.sigIn = true) : False := by
  cases set.symm.trans (quiet.unset alive).2

private theorem Stands.presents_none (stands : Stands c o)
    (closing : c.pool.worker.closing = true) :
    o.presents = none := by
  cases presents : o.presents with
  | none => rfl
  | some a => cases closing.symm.trans (stands.presents (by simp [presents])).1

/-- A worker that is called already, or through with its job, leaves no job unstarted. -/
theorem unstarted_nil (none : o.presents = none ∨ c.pool.worker.inside = true)
    (stale : c.pool.worker.fresh = false ∨ c.pool.sigIn = false) : c.unstarted o = [] := by
  have unused : ¬ (c.pool.worker.fresh = true ∧ c.pool.sigIn = true) := by
    rintro ⟨fresh, set⟩
    rcases stale with other | unset
    · cases fresh.symm.trans other
    · cases set.symm.trans unset
  simp only [unstarted, if_neg unused]
  rcases none with none | inside
  · simp [none]
  · simp only [inside, if_true]
    split <;> rfl

/-- The worker goes on before the call of `func`. -/
theorem Restart.fresh (restart : Restart c) (worker : Worker) (before : c.pool.worker.fresh = true)
    (after : worker.fresh = true) (alive : c.pool.worker.dead = false) (still : worker.dead = false)
    (signalled : worker.entered = true → c.pool.sigIn = true) :
    Restart { c with pool := { c.pool with worker := worker } } := by
  obtain ⟨shared, stands⟩ := restart
  have outside := Worker.inside_of_fresh after
  have closing := Worker.closing_of_fresh after
  have same : unstarted { c with pool := { c.pool with worker := worker } } c.pool.owner =
      c.unstarted c.pool.owner := by
    simp only [unstarted, before, after, outside, Worker.inside_of_fresh before]
  refine ⟨shared.work alive still (by simp [after]) rfl shared.detached ?_ ?_ ?_ ?_ shared.lengths ?_,
    stands.work alive still rfl ?_ ?_ ?_ same stands.order ?_ id⟩
  · rintro f rfl
    cases after
  · rw [outside, Bool.or_false]
    exact signalled
  · intro through
    cases closing.symm.trans through
  · exact fun set => ⟨after, ((shared.ready set).unset alive).2⟩
  · intro inside
    cases outside.symm.trans inside
  · refine fun _ => ⟨closing, fun inside => ?_⟩
    cases outside.symm.trans inside
  · exact fun trusting => ⟨after, ((stands.trusts trusting).unset alive).2⟩
  · intro set
    rcases stands.sigOut set with reset | ⟨none, quiet⟩
    · exact .inl reset
    · exact .inr ⟨none, after, (quiet.unset alive).2⟩
  · refine fun _ => stands.returned (fun running => ?_) alive
    rw [running] at before
    cases before

private theorem presents_of_written {a : Arg} (written : o.written = some a) :
    o.presents = some a := by
  cases o with
  | runReadFlag | runWriteFlag | runSetIn => exact written
  | _ => cases written

/-- The worker is through with its job and goes on to `sig_out.Set`. -/
theorem Restart.close {flag : Flag} {sigIn : Bool} (restart : Restart c) (worker : Worker)
    (alive : c.pool.worker.dead = false) (busy : c.pool.worker.fresh = false)
    (closing : worker.closing = true) (starting : flag.starting = c.pool.flag.starting)
    (detached : flag.detached = false) (unset : sigIn = false)
    (copy : ∀ f, worker = .writeFlag f → f.starting = flag.starting ∧ f.detached = false)
    (presents : c.pool.owner.presents = none) (last : c.returned.getLast? ≠ some false) :
    Restart { c with pool := { c.pool with worker := worker, flag := flag, sigIn := sigIn } } := by
  obtain ⟨shared, stands⟩ := restart
  have unquiet (quiet : c.Quiet) : False := by
    cases busy.symm.trans (quiet.unset alive).1
  have places : worker.dead = false ∧ worker.inside = false ∧ worker.entered = false := by
    cases worker <;> first | exact ⟨rfl, rfl, rfl⟩ | cases closing
  obtain ⟨still, outside, before⟩ := places
  have none : c.unstarted c.pool.owner = [] := unstarted_nil (.inl presents) (.inl busy)
  have order := stands.order
  rw [none] at order
  refine ⟨shared.work alive still (by simp [closing]) starting detached copy ?_ (fun _ => unset) ?_
      shared.lengths ?_,
    stands.work alive still starting ?_ ?_ ?_ (unstarted_nil (.inl presents) (.inr unset)) order
      (fun _ _ => last) fun _ => rfl⟩
  · simp [outside, before]
  · exact fun ready => (unquiet (shared.ready ready)).elim
  · simp [outside]
  · simp [presents]
  · exact fun trusting => (unquiet (stands.trusts trusting)).elim
  · intro out
    rcases stands.sigOut out with reset | ⟨_, quiet⟩
    · exact .inl reset
    · exact (unquiet quiet).elim

/-- The call of `func` takes the job that has been stored. -/
theorem Restart.callFunc (restart : Restart c) (here : c.pool.worker = .callFunc)
    (unhurried : c.pool.owner.presents.isSome = true → c.pool.owner.written.isSome = true) :
    Restart { c with
      pool := { c.pool with called := c.pool.called ++ [c.pool.args], worker := .running }
      returned := c.returned ++ [false] } := by
  obtain ⟨shared, stands⟩ := restart
  have alive : c.pool.worker.dead = false := by rw [here]; rfl
  have set : c.pool.sigIn = true := shared.signalled (by rw [here]; rfl)
  have job : c.unstarted c.pool.owner = [c.pool.args] := by
    cases presents : c.pool.owner.presents with
    | none => simp [unstarted, presents, here, set, Worker.fresh]
    | some a =>
      obtain ⟨b, written⟩ := Option.isSome_iff_exists.mp (unhurried (by simp [presents]))
      have same : b = a := Option.some.inj ((presents_of_written written).symm.trans presents)
      rw [unstarted_presents presents (by rw [here]; rfl), ← same, stands.written b written]
  have order := stands.order
  rw [job] at order
  refine ⟨shared.work alive rfl rfl rfl shared.detached nofun (fun _ => set) nofun ?_ ?_ ?_,
    stands.work alive rfl rfl (fun presents => ⟨rfl, fun _ => unhurried presents⟩) ?_ ?_
      (unstarted_nil (.inr rfl) (.inl rfl)) ?_ ?_ fun _ => rfl⟩
  · exact fun ready => ((shared.ready ready).absurd alive set).elim
  · simp [shared.lengths]
  · simp
  · exact fun trusting => ((stands.trusts trusting).absurd alive set).elim
  · intro out
    rcases stands.sigOut out with reset | ⟨_, quiet⟩
    · exact .inl reset
    · exact (quiet.absurd alive set).elim
  · simpa using order
  · exact fun out => absurd rfl out

private theorem Restart.funcReturns (restart : Restart c) (here : c.pool.worker = .running) :
    Restart { c with
      pool := { c.pool with finished := c.pool.finished + 1, worker := .resetIn }
      returned := c.returned.dropLast ++ [true] } := by
  obtain ⟨shared, stands⟩ := restart
  have alive : c.pool.worker.dead = false := by rw [here]; rfl
  have set : c.pool.sigIn = true := shared.signalled (by rw [here]; rfl)
  have began := shared.began (by rw [here]; rfl)
  have none : c.unstarted c.pool.owner = [] :=
    unstarted_nil (.inr (by rw [here]; rfl)) (.inl (by rw [here]; rfl))
  have order := stands.order
  rw [none] at order
  refine ⟨shared.work alive rfl rfl rfl shared.detached nofun (fun _ => set) nofun ?_ ?_ ?_,
    stands.work alive rfl rfl ?_ ?_ ?_ (unstarted_nil (.inr rfl) (.inl rfl)) order ?_ fun _ => rfl⟩
  · exact fun ready => ((shared.ready ready).absurd alive set).elim
  · have some := List.length_pos_iff.mpr began
    have lengths := shared.lengths
    simp only [List.length_append, List.length_dropLast, List.length_singleton]
    omega
  · simp
  · exact fun presents => ⟨rfl, fun _ => (stands.presents presents).2 (by rw [here]; rfl)⟩
  · exact fun trusting => ((stands.trusts trusting).absurd alive set).elim
  · intro out
    rcases stands.sigOut out with reset | ⟨_, quiet⟩
    · exact .inl reset
    · exact (quiet.absurd alive set).elim
  · simp

private theorem restart_worker (restart : Restart c) (unhurried : Unhurried c (.pool .worker))
    {pool : State Arg} (taken : c.pool.workerNext = some pool) :
    Restart { c with pool := pool, returned := c.returnedAfter .worker } := by
  have shared := restart.shared
  have stands := restart.stands
  have signalled := shared.signalled
  have reset := shared.reset
  cases here : c.pool.worker <;>
    simp only [State.workerNext, here, Unhurried] at taken unhurried <;>
    simp only [here] at signalled reset
  case absent | exited => cases taken
  case testHasExit | delete | returned =>
    have live := shared.live
    rw [here] at live
    cases live
  all_goals
    have alive : c.pool.worker.dead = false := by rw [here]; rfl
  case test =>
    have goes : (if c.pool.flag.detached then .testHasExit else .waitIn : Worker) = .waitIn := by
      rw [shared.detached]
      rfl
    rw [goes] at taken
    cases taken
    simp only [returnedAfter, here]
    exact restart.fresh _ (by rw [here]; rfl) rfl alive rfl signalled
  case waitIn =>
    split at taken
    · cases taken
      simp only [returnedAfter, here]
      exact restart.fresh _ (by rw [here]; rfl) rfl alive rfl fun _ => ‹_›
    · cases taken
  case readFunc =>
    have calls : (if c.pool.func then .callFunc else .testHasExit : Worker) = .callFunc := by
      rw [shared.func]
      rfl
    rw [calls] at taken
    cases taken
    simp only [returnedAfter, here]
    exact restart.fresh _ (by rw [here]; rfl) rfl alive rfl signalled
  case callFunc =>
    cases taken
    simp only [returnedAfter, here]
    exact restart.callFunc here unhurried
  case running =>
    cases taken
    simp only [returnedAfter, here]
    exact restart.funcReturns here
  case resetIn =>
    cases taken
    have presents : c.pool.owner.presents = none := by simpa using unhurried
    have none : c.unstarted c.pool.owner = [] :=
      unstarted_nil (.inl presents) (.inl (by rw [here]; rfl))
    have last := stands.returned (by rw [here]; rintro ⟨⟩) alive none
    simp only [returnedAfter, here]
    exact restart.close _ alive (by rw [here]; rfl) rfl rfl shared.detached rfl (by rintro _ ⟨⟩)
      presents last
  all_goals
    have presents : c.pool.owner.presents = none := stands.presents_none (by rw [here]; rfl)
    have none : c.unstarted c.pool.owner = [] :=
      unstarted_nil (.inl presents) (.inl (by rw [here]; rfl))
    have last := stands.returned (by rw [here]; rintro ⟨⟩) alive none
    have unset : c.pool.sigIn = false := reset rfl
    simp only [returnedAfter, here]
  case readFlag =>
    cases taken
    refine restart.close _ alive (by rw [here]; rfl) rfl rfl shared.detached unset ?_ presents last
    rintro _ ⟨⟩
    exact ⟨rfl, shared.detached⟩
  case writeFlag f =>
    cases taken
    obtain ⟨starting, detached⟩ := shared.copy f here
    exact restart.close _ alive (by rw [here]; rfl) rfl starting detached unset (by rintro _ ⟨⟩)
      presents last
  case setOut =>
    cases taken
    have unquiet (quiet : c.Quiet) : False := by
      have fresh := (quiet.unset alive).1
      rw [here] at fresh
      cases fresh
    have order := stands.order
    rw [none] at order
    refine ⟨shared.work alive rfl rfl rfl shared.detached (by rintro _ ⟨⟩) (by rintro ⟨⟩)
      (by rintro ⟨⟩) ?_ shared.lengths (by rintro ⟨⟩),
      stands.work alive rfl rfl (fun _ => ⟨rfl, by rintro ⟨⟩⟩)
        ?_ (fun _ => .inr ⟨presents, rfl, unset⟩)
        (unstarted_nil (.inl presents) (.inr unset)) order (fun _ _ => last) fun _ => rfl⟩
    · exact fun ready => (unquiet (shared.ready ready)).elim
    · exact fun trusting => (unquiet (stands.trusts trusting)).elim

private theorem restart_kill (restart : Restart c) (running : c.pool.worker = .running)
    (none : c.kill = .none) (idle : c.pool.owner = .idle) : Restart { c with kill := .cancel } := by
  obtain ⟨shared, stands⟩ := restart
  have called : c.unstarted c.pool.owner = [] :=
    unstarted_nil (.inr (by rw [running]; rfl)) (.inl (by rw [running]; rfl))
  refine ⟨{ shared with
      cancelled := ?_, born := ?_, cancel := ?_, past := nofun, wrote := nofun, honest := nofun
      exited := fun _ => nofun },
    { stands with starting := nofun, kill := fun _ => ⟨idle, called⟩ }⟩
  · intro set
    cases none.symm.trans (shared.cancelled set).1
  · intro _ absent
    cases running.symm.trans absent
  · intro _
    rw [running]
    rfl

/-- The owner finds nothing new while it is in `Kill`. -/
theorem Stands.in_kill {kill : Kill} {cancelled : Bool} (stands : Stands c o)
    (busy : c.kill ≠ .none) (still : kill ≠ .none) :
    Stands { c with kill := kill, cancelled := cancelled } o :=
  { stands with
    starting := fun none => absurd none still
    kill := fun _ => stands.kill busy }

/-- `Thread::Kill` returns when the thread is gone. -/
theorem Restart.await (restart : Restart c) (here : c.kill = .await) (offline : c.pool.online = false) :
    Restart { c with kill := .writeFlag } := by
  obtain ⟨shared, stands⟩ := restart
  have inKill : c.kill ≠ .none := by rw [here]; exact nofun
  have born := shared.born inKill
  have dead : c.pool.worker.dead = true := by
    have online := shared.online
    rw [offline] at online
    simpa using online
  have exited : c.pool.worker = .exited := by
    cases worker : c.pool.worker <;> rw [worker] at dead born <;>
      first | rfl | contradiction
  refine ⟨{ shared with
      cancelled := ?_, born := fun _ => born, cancel := nofun, past := fun _ => exited
      wrote := nofun, honest := nofun, exited := fun _ => nofun },
    stands.in_kill inKill nofun⟩
  intro set
  cases dead.symm.trans (shared.cancelled set).2

/-- No cancellation is pending once `Thread::Kill` has returned. -/
theorem Shared.calm (shared : Shared c) (late : c.kill.past = true) : c.cancelled = false := by
  cases set : c.cancelled with
  | false => rfl
  | true =>
    rw [(shared.cancelled set).1] at late
    cases late

private theorem Restart.killFlag (restart : Restart c) (here : c.kill = .writeFlag) :
    Restart { c with
      pool := { c.pool with flag := ⟨false, true, false, false⟩ }, kill := .setOut } := by
  obtain ⟨shared, stands⟩ := restart
  have inKill : c.kill ≠ .none := by rw [here]; exact nofun
  have exited := shared.past (by rw [here]; rfl)
  have calm := shared.calm (by rw [here]; rfl)
  obtain ⟨idle, empty⟩ := stands.kill inKill
  refine ⟨{ shared with
      detached := rfl, copy := ?_, cancelled := ?_, born := fun _ => shared.born inKill
      cancel := nofun, past := fun _ => exited, wrote := fun _ => rfl, honest := nofun
      exited := fun _ => nofun },
    { stands with
      copy := ?_, starting := nofun, creates := ?_, kill := fun _ => ⟨idle, empty⟩ }⟩
  · intro f writes
    cases exited.symm.trans writes
  · intro set
    cases calm.symm.trans set
  · intro a f writes
    cases idle.symm.trans writes
  · intro creates
    rw [idle] at creates
    cases creates

private theorem Restart.killOut (restart : Restart c) (here : c.kill = .setOut) :
    Restart { c with pool := { c.pool with sigOut := true }, kill := .return true } := by
  obtain ⟨shared, stands⟩ := restart
  have inKill : c.kill ≠ .none := by rw [here]; exact nofun
  have exited := shared.past (by rw [here]; rfl)
  have calm := shared.calm (by rw [here]; rfl)
  have gone : c.Quiet := .inl (by rw [exited]; rfl)
  obtain ⟨idle, empty⟩ := stands.kill inKill
  refine ⟨{ shared with
      cancelled := ?_, born := fun _ => shared.born inKill, cancel := nofun
      past := fun _ => exited, wrote := fun _ => shared.wrote (by rw [here]; rfl), honest := nofun
      exited := fun _ => nofun },
    { stands with
      starting := nofun, sigOut := fun _ => .inr ⟨by rw [idle]; rfl, gone⟩
      kill := fun _ => ⟨idle, empty⟩ }⟩
  intro set
  cases calm.symm.trans set

/-- `Kill` returns `True`: all jobs have been called, and the next `Run` starts a worker. -/
theorem Restart.killed (restart : Restart c) (here : c.kill = .return true) :
    Restart { c with
      kill := .none, kills := c.kills ++ [(c.pool.accepted.length, c.pool.called.length)] } := by
  obtain ⟨shared, stands⟩ := restart
  have inKill : c.kill ≠ .none := by rw [here]; rintro ⟨⟩
  have exited := shared.past (by rw [here]; rfl)
  have calm := shared.calm (by rw [here]; rfl)
  obtain ⟨idle, empty⟩ := stands.kill inKill
  have same : c.pool.called = c.pool.accepted := by
    have order := stands.order
    rw [empty, idle] at order
    simpa [Owner.submits] using order
  have started : c.pool.flag.starting = !c.pool.worker.dead := by
    rw [exited]
    exact shared.wrote (by rw [here]; rfl)
  refine ⟨{ shared with
      marks := ?_, cancelled := ?_, born := fun out => absurd rfl out
      cancel := by rintro ⟨⟩, past := by rintro ⟨⟩, wrote := by rintro ⟨⟩, honest := by rintro ⟨⟩
      exited := fun _ _ => ?_ },
    { stands with starting := fun _ _ => started, kill := fun out => absurd rfl out }⟩
  · intro mark member
    rcases List.mem_append.mp member with old | new
    · exact shared.marks mark old
    · rw [List.mem_singleton.mp new, same]
  · intro set
    cases calm.symm.trans set
  · exact ⟨_, List.mem_append_right _ (List.mem_singleton_self _), rfl⟩

private theorem restart_killNext (restart : Restart c) (unhurried : Unhurried c .killNext)
    (taken : c.killNext = some c') : Restart c' := by
  have shared := restart.shared
  cases here : c.kill <;> simp only [killNext, here] at taken
  case none => cases taken
  case cancel =>
    have inKill : c.kill ≠ .none := by rw [here]; exact nofun
    have alive := shared.cancel here
    have online : c.pool.online = true := by
      rw [shared.online, alive]
      rfl
    rw [if_pos online] at taken
    cases taken
    exact ⟨{ shared with
        cancelled := fun _ => ⟨rfl, alive⟩, born := fun _ => shared.born inKill, cancel := nofun
        past := nofun, wrote := nofun, honest := nofun, exited := fun _ => nofun },
      restart.stands.in_kill inKill nofun⟩
  case await =>
    cases taken
    exact restart.await here (unhurried here)
  case writeFlag =>
    cases taken
    exact restart.killFlag here
  case setOut =>
    cases taken
    exact restart.killOut here
  case «return» rv =>
    cases rv with
    | false => exact absurd here shared.honest
    | true =>
      cases taken
      exact restart.killed here

private theorem restart_die (restart : Restart c) (cancelled : c.cancelled = true) :
    Restart { c with
      pool := { c.pool with worker := .exited, online := false }, cancelled := false } := by
  obtain ⟨shared, stands⟩ := restart
  obtain ⟨await, alive⟩ := shared.cancelled cancelled
  have inKill : c.kill ≠ .none := by rw [await]; exact nofun
  obtain ⟨idle, empty⟩ := stands.kill inKill
  rw [idle] at stands empty
  have order := stands.order
  rw [empty] at order
  refine ⟨{ shared with
      copy := nofun, live := rfl, online := rfl, tid := fun _ => ?_, absent := nofun
      signalled := nofun, reset := nofun, ready := fun _ => .inl rfl, began := nofun
      cancelled := nofun, born := fun _ => nofun, cancel := ?_, past := ?_, exited := ?_ }, ?_⟩
  · exact shared.tid (shared.born inKill)
  · intro cancel
    cases await.symm.trans cancel
  · intro past
    cases (congrArg Kill.past await).symm.trans past
  · exact fun _ none => absurd none inKill
  · change Stands _ c.pool.owner
    rw [idle]
    refine {
      destroys := rfl, copy := nofun, recreates := nofun, employs := nofun
      starting := fun none => absurd none inKill, creates := nofun, presents := nofun
      written := nofun, trusts := nofun, sigOut := fun _ => .inr ⟨rfl, .inl rfl⟩, order := ?_
      returned := nofun, kill := fun _ => ⟨rfl, ?_⟩, unready := nofun }
    · exact order
    · rfl

private theorem kill_none_of_permits (permitted : c.permits .owner = true) : c.kill = .none := by
  simp only [permits] at permitted
  split at permitted
  · assumption
  · assumption
  · cases permitted

theorem step_restart (restart : Restart c) (orderly : Orderly c action)
    (unhurried : Unhurried c action) (taken : step c action = some c') : Restart c' := by
  cases action with
  | pool action =>
    simp only [step] at taken
    split at taken
    · rename_i permitted
      obtain ⟨pool, moved, rfl⟩ := Option.map_eq_some_iff.mp taken
      rcases step_cases moved with ⟨call, rfl, idle, rfl⟩ | ⟨rfl, moved⟩ |
        ⟨online, a, rfl, creates, rfl⟩ | ⟨t, rfl, waits, empty, finite, rfl⟩ | ⟨rfl, moved⟩
      · have none : c.kill = .none := by simpa [permits] using permitted
        exact restart_call restart none idle orderly
      · exact restart_owner restart (kill_none_of_permits permitted) moved
      · cases orderly
      · have none : c.kill = .none := by simpa [permits] using permitted
        have stands := restart.stands
        rw [waits] at stands
        exact restart.moveBlank stands rfl none rfl ⟨rfl, rfl, rfl⟩ nofun restart.shared.ready
      · exact restart_worker restart unhurried moved
    · cases taken
  | kill =>
    simp only [step] at taken
    split at taken
    · cases taken
      exact restart_kill restart orderly ‹_› ‹_›
    · cases taken
  | killNext => exact restart_killNext restart unhurried taken
  | die =>
    simp only [step] at taken
    split at taken
    · cases taken
      exact restart_die restart ‹_›
    · cases taken

/-- After every successful `Kill` the workers call `func` with the arguments of
the `Run` calls accepted since then, in order and each once, the `Run` in
progress included; and when `Wait` returns `True` with no `Kill` since the last
accepted `Run`, the call of `func` for that one has returned. -/
structure Clean (c : Killable Arg) : Prop where
  since : ∀ mark ∈ c.kills,
    c.pool.called.drop mark.2 <+: c.pool.submitted.drop mark.1
  settled : c.pool.owner = .waitReturn true → ¬ c.KilledSince → c.pool.accepted ≠ [] →
    c.pool.called = c.pool.accepted ∧ c.returned.length = c.pool.called.length ∧
      c.returned.getLast? = some true

theorem Restart.clean (restart : Restart c) : Clean c := by
  obtain ⟨shared, stands⟩ := restart
  have order : c.pool.called ++ c.unstarted c.pool.owner = c.pool.submitted := stands.order
  refine ⟨fun mark member => ?_, fun returns spared some => ?_⟩
  · rw [shared.marks mark member]
    have called : c.pool.called <+: c.pool.submitted := ⟨_, order⟩
    exact called.drop mark.2
  · rw [returns] at stands
    have settled := stands.trusts rfl
    have none := quiet_unstarted settled (o := .waitReturn true) rfl
    have same : c.pool.called = c.pool.accepted := by
      have order := stands.order
      rw [none] at order
      simpa [Owner.submits] using order
    have alive : c.pool.worker.dead = false := by
      cases worker : c.pool.worker with
      | absent => exact absurd (shared.absent worker) some
      | exited =>
        by_cases idle : c.kill = .none
        · exact absurd (shared.exited worker idle) spared
        · cases (stands.kill idle).1
      | _ => rfl
    have last := stands.returned (fun running => ?_) alive none
    · refine ⟨same, shared.lengths, ?_⟩
      cases final : c.returned.getLast? with
      | none =>
        have empty := shared.lengths
        rw [List.getLast?_eq_none_iff.mp final, same] at empty
        exact absurd (List.length_eq_zero_iff.mp empty.symm) some
      | some rv =>
        cases rv with
        | true => rfl
        | false => exact absurd final last
    · have fresh := (settled.unset alive).1
      rw [running] at fresh
      cases fresh

/-- An orderly owner whose new workers do not run ahead of `Run` may kill the
worker and go on. -/
theorem restarts_clean {args : Arg} {actions : List (KillAction Arg)}
    (orderly : Meets step Orderly (init args) actions)
    (unhurried : Meets step Unhurried (init args) actions)
    (ran : exec step (init args) actions = some c) : Clean c := by
  have preserved : ∀ (c : Killable Arg) action c', Restart c →
      (Orderly c action ∧ Unhurried c action) → step c action = some c' → Restart c' :=
    fun _ _ _ restart fine => step_restart restart fine.1 fine.2
  have restart : Restart c :=
    exec_invariant_of_meets Restart preserved (init_restart args) (orderly.and unhurried) ran
  exact restart.clean

def killRun : List (KillAction ℕ) :=
  .pool (.call (.run 1)) :: List.replicate 10 (.pool .owner) ++ List.replicate 4 (.pool .worker) ++
    [.kill, .killNext, .die] ++ List.replicate 4 .killNext ++
    .pool (.call (.wait .infinite)) :: List.replicate 2 (.pool .owner)

def restartRun : List (KillAction ℕ) :=
  killRun ++ .pool (.call (.run 2)) :: List.replicate 10 (.pool .owner) ++
    List.replicate 9 (.pool .worker) ++ [.pool (.call (.wait .infinite)), .pool .owner]

theorem clean_restartRun : ∃ c, exec step (init 0) restartRun = some c ∧
    c.pool.called = [1, 2] ∧ c.kills = [(1, 1)] ∧ Clean c := by
  have ends : (exec step (init 0) restartRun).map (fun c => (c.pool.called, c.kills)) =
      some ([1, 2], [(1, 1)]) := by decide
  obtain ⟨c, ran, both⟩ := Option.map_eq_some_iff.mp ends
  rw [Prod.mk.injEq] at both
  exact ⟨c, ran, both.1, both.2, restarts_clean (by decide) (by decide) ran⟩

/-- The new worker is faster than the `Run` that starts it. -/
def hurriedRun : List (KillAction ℕ) :=
  killRun ++ .pool (.call (.run 2)) :: List.replicate 3 (.pool .owner) ++
    List.replicate 4 (.pool .worker)

/-- It calls `func` with the argument of the killed job. -/
theorem hurriedRun_stale : Meets step Orderly (init 0) hurriedRun ∧
    ∃ c, exec step (init 0) hurriedRun = some c ∧ (1, 1) ∈ c.kills ∧
      ¬ c.pool.called.drop 1 <+: c.pool.submitted.drop 1 := by
  have ends : (exec step (init 0) hurriedRun).map (fun c =>
      (c.kills, c.pool.called, c.pool.submitted)) = some ([(1, 1)], [1, 1], [1, 2]) := by decide
  obtain ⟨c, ran, both⟩ := Option.map_eq_some_iff.mp ends
  rw [Prod.mk.injEq, Prod.mk.injEq] at both
  obtain ⟨kills, called, submitted⟩ := both
  refine ⟨by decide, c, ran, ?_, ?_⟩
  · simp [kills]
  · rw [called, submitted]
    decide

end Killable

end Prot.System.PoolThread
