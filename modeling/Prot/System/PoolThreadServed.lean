import Prot.System.PoolThreadJobs
import Prot.System.PoolThreadRefinement

/-! The jobs of a `PoolThread` by what its owner and `func` see of it: the order of
`PoolThreadJobs` said about the calls and returns alone. -/

namespace Prot.System.PoolThread

open Concurrency Time

variable {Arg : Type} {s s' : State Arg} {action : Action Arg} {actions : List (Action Arg)}

def Shown.begins : Shown Arg → Option Arg
  | .began args => some args
  | _ => none

def Shown.ends : Shown Arg → Bool
  | .ended => true
  | _ => false

def begun (shown : List (Shown Arg)) : List Arg := shown.filterMap Shown.begins

def finished (shown : List (Shown Arg)) : ℕ := shown.countP Shown.ends

/-- The arguments of the `Run` calls that have returned non-zero, and last that of the
one in progress; `asked` is the one in progress so far. -/
def served : Option Arg → List (Shown Arg) → List Arg
  | asked, [] => asked.toList
  | _, .called (.run args) :: rest => served (some args) rest
  | asked, .ran accepted :: rest => (if accepted then asked.toList else []) ++ served none rest
  | asked, _ :: rest => served asked rest

/-- `func` has been called with the jobs of `Run` in their order, with each once and one
at a time. -/
structure Serves (shown : List (Shown Arg)) : Prop where
  order : begun shown <+: served none shown
  returned : finished shown ≤ (begun shown).length
  single : (begun shown).length ≤ finished shown + 1

def Owner.asks : Owner Arg → Option Arg
  | .runTestStarting a | .runWriteStarting a | .runCreate a | .runTestActiving a => some a
  | .runResetOut a | .runWriteArgs a | .runReadFlag a | .runWriteFlag a _ => some a
  | .runSetIn a | .runGetId a | .runReturn a _ => some a
  | _ => none

private theorem Owner.asks_of_submits {owner : Owner Arg} {a : Arg}
    (submits : owner.submits = some a) :
    owner.asks = some a := by
  cases owner with
  | runReturn b tid =>
    cases tid with
    | true => exact submits
    | false => cases submits
  | _ => first | exact submits | cases submits

/-- What a step tells of the jobs is what it does to them. -/
structure Told (s s' : State Arg) (shown : List (Shown Arg)) : Prop where
  called : s'.called = s.called ++ begun shown
  finished : s'.finished = s.finished + finished shown
  accepted : ∀ rest, s.accepted ++ served s.owner.asks (shown ++ rest) =
    s'.accepted ++ served s'.owner.asks rest

/-- A step that neither shows nor changes anything of the jobs. -/
theorem told_of_same {event : Option (Shown Arg)} (quiet : event = none) (called : s'.called = s.called)
    (ended : s'.finished = s.finished) (accepted : s'.accepted = s.accepted)
    (asks : s'.owner.asks = s.owner.asks) : Told s s' event.toList := by
  subst quiet
  refine ⟨by rw [called]; simp [begun], by rw [ended]; simp [finished], fun rest => ?_⟩
  rw [accepted, asks]
  rfl

private theorem ownerNext_told (taken : s.ownerNext = some s') :
    Told s s' (observe s .owner).toList := by
  cases here : s.owner <;> simp only [State.ownerNext, here] at taken
  case runReturn a tid =>
    cases taken
    refine ⟨by simp [observe, here, begun, Shown.begins], by simp [observe, here, finished, Shown.ends],
      fun rest => ?_⟩
    cases tid <;> simp [observe, here, Owner.asks, served]
  case waitReturn | statusReturn =>
    cases taken
    exact ⟨by simp [observe, here, begun, Shown.begins], by simp [observe, here, finished, Shown.ends],
      fun rest => by simp [observe, here, Owner.asks, served]⟩
  case idle | gone => cases taken
  case runTestStarting | runTestActiving | waitOut | statusThread | destroyStatus =>
    split at taken <;> cases taken
    all_goals exact told_of_same (by simp [observe, here]) rfl rfl rfl (by simp [here, Owner.asks])
  all_goals cases taken
  all_goals exact told_of_same (by simp [observe, here]) rfl rfl rfl (by simp [here, Owner.asks])

private theorem workerNext_told (taken : s.workerNext = some s') :
    Told s s' (observe s .worker).toList := by
  cases here : s.worker <;> simp only [State.workerNext, here] at taken
  case absent | exited => cases taken
  case callFunc | running =>
    cases taken
    exact ⟨by simp [observe, here, begun, Shown.begins], by simp [observe, here, finished, Shown.ends],
      fun rest => by simp [observe, here, served]⟩
  case waitIn =>
    split at taken <;> cases taken
    exact told_of_same (by simp [observe, here]) rfl rfl rfl rfl
  all_goals cases taken
  all_goals exact told_of_same (by simp [observe, here]) rfl rfl rfl rfl

theorem step_told (taken : step s action = some s') : Told s s' (observe s action).toList := by
  rcases step_cases taken with ⟨call, rfl, idle, rfl⟩ | ⟨rfl, moved⟩ | ⟨online, a, rfl, at_, rfl⟩ |
    ⟨time, rfl, at_, _, _, rfl⟩ | ⟨rfl, moved⟩
  · refine ⟨by simp [observe, begun, Shown.begins], by simp [observe, finished, Shown.ends], fun rest => ?_⟩
    cases call <;> simp [observe, idle, Call.entry, Owner.asks, served]
  · exact ownerNext_told moved
  · exact told_of_same rfl rfl rfl rfl (by simp [at_, Owner.asks])
  · exact told_of_same rfl rfl rfl rfl (by simp [at_, Owner.asks])
  · exact workerNext_told moved

theorem exec_told (ran : exec step s actions = some s') : Told s s' (trace step observe s actions) := by
  induction actions generalizing s with
  | nil =>
    cases ran
    exact ⟨by simp [trace, begun], by simp [trace, finished], fun _ => rfl⟩
  | cons action rest ih =>
    obtain ⟨next, taken, continued⟩ := exec_cons_eq_some ran
    obtain ⟨called, ended, accepted⟩ := step_told taken
    obtain ⟨called', ended', accepted'⟩ := ih continued
    rw [trace_cons_some taken]
    refine ⟨?_, ?_, fun later => ?_⟩
    · rw [called', called, begun, begun, begun, List.filterMap_append, List.append_assoc]
    · rw [ended', ended, finished, finished, finished, List.countP_append, Nat.add_assoc]
    · rw [List.append_assoc, accepted, accepted']

/-- No worker has been started, and none will be. -/
structure Barren (s : State Arg) : Prop where
  worker : s.worker = .absent
  starting : s.flag.starting = true
  writing : ∀ a, s.owner ≠ .runWriteStarting a
  creating : ∀ a, s.owner ≠ .runCreate a

theorem step_barren (flags : FlagInvariant s) (barren : Barren s) (taken : step s action = some s') :
    Barren s' := by
  obtain ⟨worker, starting, writing, creating⟩ := barren
  rcases step_cases taken with ⟨call, rfl, idle, rfl⟩ | ⟨rfl, moved⟩ | ⟨online, a, rfl, at_, rfl⟩ |
    ⟨time, rfl, at_, _, _, rfl⟩ | ⟨rfl, moved⟩
  · refine ⟨worker, starting, fun a => ?_, fun a => ?_⟩ <;> cases call <;> rintro ⟨⟩
  · cases here : s.owner <;> simp only [State.ownerNext, here] at moved
    case idle | gone => cases moved
    case runWriteStarting a => exact absurd here (writing a)
    case runCreate a => exact absurd here (creating a)
    case runTestStarting =>
      rw [if_pos starting] at moved
      cases moved
      exact ⟨worker, starting, by rintro _ ⟨⟩, by rintro _ ⟨⟩⟩
    case runWriteFlag a flag =>
      cases moved
      exact ⟨worker, (flags.run a flag here).1.starting.trans starting, by rintro _ ⟨⟩, by rintro _ ⟨⟩⟩
    case destroyWriteFlag flag =>
      cases moved
      exact ⟨worker, (flags.destroy flag here).starting.trans starting, by rintro _ ⟨⟩, by rintro _ ⟨⟩⟩
    case runTestActiving | waitOut | statusThread | destroyStatus =>
      split at moved <;> cases moved
      all_goals exact ⟨worker, starting, by rintro _ ⟨⟩, by rintro _ ⟨⟩⟩
    all_goals cases moved
    all_goals exact ⟨worker, starting, by rintro _ ⟨⟩, by rintro _ ⟨⟩⟩
  · exact absurd at_ (creating a)
  · exact ⟨worker, starting, by rintro _ ⟨⟩, by rintro _ ⟨⟩⟩
  · rw [State.workerNext, worker] at moved
    cases moved

/-- Before the first worker `func` is not called. -/
def Untouched (s : State Arg) : Prop := s.worker = .absent → s.called = [] ∧ s.finished = 0

theorem step_untouched (untouched : Untouched s) (taken : step s action = some s') : Untouched s' := by
  rcases step_cases taken with ⟨call, rfl, idle, rfl⟩ | ⟨rfl, moved⟩ | ⟨online, a, rfl, at_, rfl⟩ |
    ⟨time, rfl, at_, _, _, rfl⟩ | ⟨rfl, moved⟩
  · exact untouched
  · cases here : s.owner <;> simp only [State.ownerNext, here] at moved
    case idle | gone => cases moved
    case runCreate =>
      cases moved
      rintro ⟨⟩
    case waitOut =>
      split at moved <;> cases moved
      exact untouched
    all_goals cases moved
    all_goals exact untouched
  · exact untouched
  · exact untouched
  · intro absent
    cases here : s.worker <;> simp only [State.workerNext, here] at moved
    case absent | exited => cases moved
    case waitIn =>
      split at moved
      · cases moved
        cases absent
      · cases moved
    case test | readFunc | testHasExit =>
      cases moved
      dsimp only at absent
      split at absent <;> cases absent
    all_goals
      cases moved
      cases absent

/-- The invariant of the runs of an owner who keeps the object, whether or not a thread
starts. -/
structure Kept (s : State Arg) : Prop where
  flags : FlagInvariant s
  untouched : Untouched s
  jobs : JobInvariant s ∨ Barren s

theorem init_kept (func : Bool) (args : Arg) : Kept (init func args) :=
  ⟨init_flags func args, fun _ => ⟨rfl, rfl⟩, .inl (init_jobInvariant func args)⟩

theorem step_kept (kept : Kept s) (spares : action.spares = true) (taken : step s action = some s') :
    Kept s' := by
  refine ⟨step_flags kept.flags taken, step_untouched kept.untouched taken, ?_⟩
  obtain jobs | barren := kept.jobs
  · cases plain : action.plain with
    | true => exact .inl (step_jobInvariant jobs plain taken)
    | false =>
      rcases step_cases taken with ⟨call, rfl, _⟩ | ⟨rfl, _⟩ | ⟨online, a, rfl, at_, rfl⟩ |
        ⟨_, rfl, _⟩ | ⟨rfl, _⟩
      · cases call with
        | destroy => cases spares
        | _ => cases plain
      · cases plain
      · obtain ⟨absent, starting⟩ := kept.flags.creating a at_
        exact .inr ⟨absent, starting, by rintro _ ⟨⟩, by rintro _ ⟨⟩⟩
      · cases plain
      · cases plain
  · exact .inr (step_barren kept.flags barren taken)

/-- The calls and returns of an owner who keeps the object show its jobs served. -/
theorem served_of_exec {func : Bool} {args : Arg}
    (spares : Meets step (fun _ action => action.spares = true) (init func args) actions)
    (ran : exec step (init func args) actions = some s) :
    Serves (trace step observe (init func args) actions) := by
  have kept : Kept s := exec_invariant_of_meets Kept (fun _ _ _ kept spares taken => step_kept kept spares taken)
    (init_kept func args) spares ran
  obtain ⟨called, ended, accepted⟩ := exec_told ran
  have called : s.called = begun (trace step observe (init func args) actions) := called
  have ended : s.finished = finished (trace step observe (init func args) actions) := by
    simpa [init] using ended
  have accepted : served none (trace step observe (init func args) actions) =
      s.accepted ++ s.owner.asks.toList := by
    simpa [init, Owner.asks, served] using accepted []
  obtain jobs | barren := kept.jobs
  · have submitted : s.submitted <+: s.accepted ++ s.owner.asks.toList := by
      rw [State.submitted]
      cases submits : s.owner.submits with
      | none => simp
      | some a => rw [Owner.asks_of_submits submits]
    have counts := jobs.2.2.finished
    refine ⟨?_, ?_, ?_⟩
    · rw [← called, accepted]
      exact jobs.inOrder.called.trans submitted
    · rw [← called, ← ended]
      omega
    · rw [← called, ← ended]
      have most := Bool.toNat_le (decide (s.worker = .running))
      omega
  · obtain ⟨none, zero⟩ := kept.untouched barren.worker
    refine ⟨?_, ?_, ?_⟩
    · rw [← called, none]
      exact List.nil_prefix
    · rw [← called, ← ended, none, zero]
      rfl
    · rw [← called, none]
      exact Nat.zero_le _

end Prot.System.PoolThread
