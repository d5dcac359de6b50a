import Mathlib.Algebra.Ring.Int.Defs
import Mathlib.Algebra.GroupWithZero.Nat
import Mathlib.Data.Int.Notation
import Mathlib.Data.List.Basic
import Mathlib.Logic.Function.Basic

/-! Labelled machines whose actions resolve every choice, so that a run is a
list of actions and every reached state is computed from it. -/

namespace Prot.Concurrency

universe u v w
variable {State : Type u} {Action : Type v} {Event : Type w}

/-- The numbers of one, two and three threads. -/
instance oneThread : NeZero 1 := ⟨Nat.succ_ne_zero 0⟩

instance twoThreads : NeZero 2 := ⟨Nat.succ_ne_zero 1⟩

instance threeThreads : NeZero 3 := ⟨Nat.succ_ne_zero 2⟩

/-- Execute a list of actions; `none` as soon as one of them is not enabled. -/
def exec (step : State → Action → Option State) : State → List Action → Option State
  | start, [] => some start
  | start, action :: rest => (step start action).bind fun next => exec step next rest

/-- Every step taken along the run meets a condition on the state before it. -/
def Meets (step : State → Action → Option State) (allowed : State → Action → Prop) :
    State → List Action → Prop
  | _, [] => True
  | start, action :: rest => ∀ next, step start action = some next →
      allowed start action ∧ Meets step allowed next rest

instance Meets.decidable (step : State → Action → Option State) (allowed : State → Action → Prop)
    [∀ state action, Decidable (allowed state action)] :
    ∀ start actions, Decidable (Meets step allowed start actions)
  | _, [] => .isTrue trivial
  | start, action :: rest => match taken : step start action with
    | none => .isTrue fun next same => by simp [taken] at same
    | some next =>
      have := Meets.decidable step allowed next rest
      decidable_of_iff (allowed start action ∧ Meets step allowed next rest)
        (by simp [Meets, taken])

/-- Every state visited along the run is safe. -/
def Always (step : State → Action → Option State) (safe : State → Prop) :
    State → List Action → Prop
  | start, [] => safe start
  | start, action :: rest => safe start ∧ ∀ next, step start action = some next →
      Always step safe next rest

def trace (step : State → Action → Option State) (observe : State → Action → Option Event) :
    State → List Action → List Event
  | _, [] => []
  | start, action :: rest => (observe start action).toList ++
      ((step start action).elim [] fun next => trace step observe next rest)

variable {step : State → Action → Option State} {allowed : State → Action → Prop}
variable {safe : State → Prop} {observe : State → Action → Option Event}
variable {start next last : State} {action : Action} {rest first second actions : List Action}

@[simp] theorem exec_nil : exec step start [] = some start := rfl

theorem exec_cons : exec step start (action :: rest) =
    (step start action).bind fun next => exec step next rest := rfl

theorem exec_cons_some (taken : step start action = some next) :
    exec step start (action :: rest) = exec step next rest := by
  simp [exec_cons, taken]

theorem exec_cons_eq_some (ran : exec step start (action :: rest) = some last) :
    ∃ next, step start action = some next ∧ exec step next rest = some last := by
  simpa [exec_cons, Option.bind_eq_some_iff] using ran

theorem exec_append (start : State) (first second : List Action) :
    exec step start (first ++ second) =
      (exec step start first).bind fun middle => exec step middle second := by
  induction first generalizing start with
  | nil => rfl
  | cons action rest ih =>
    simp only [List.cons_append, exec_cons]
    cases step start action with
    | none => rfl
    | some next => exact ih next

theorem exec_append_eq_some (ran : exec step start (first ++ second) = some last) :
    ∃ middle, exec step start first = some middle ∧ exec step middle second = some last := by
  simpa [exec_append, Option.bind_eq_some_iff] using ran

theorem exec_trans (before : exec step start first = some next)
    (after : exec step next second = some last) :
    exec step start (first ++ second) = some last := by
  simp [exec_append, before, after]

/-- An inductive invariant holds in the last state of every run. -/
theorem exec_invariant (invariant : State → Prop)
    (preserved : ∀ start action next, invariant start → step start action = some next →
      invariant next)
    (initially : invariant start) (ran : exec step start actions = some last) :
    invariant last := by
  induction actions generalizing start with
  | nil => cases ran; exact initially
  | cons action rest ih =>
    obtain ⟨next, taken, continued⟩ := exec_cons_eq_some ran
    exact ih (preserved start action next initially taken) continued

/-- An invariant that only the allowed steps keep holds along the runs that
take no other step. -/
theorem exec_invariant_of_meets (invariant : State → Prop)
    (preserved : ∀ start action next, invariant start → allowed start action →
      step start action = some next → invariant next)
    (initially : invariant start) (meets : Meets step allowed start actions)
    (ran : exec step start actions = some last) : invariant last := by
  induction actions generalizing start with
  | nil => cases ran; exact initially
  | cons action rest ih =>
    obtain ⟨next, taken, continued⟩ := exec_cons_eq_some ran
    obtain ⟨fine, onwards⟩ := meets next taken
    exact ih (preserved start action next initially fine taken) onwards continued

theorem Meets.of_forall {allowed : Action → Prop} (fine : ∀ action ∈ actions, allowed action) :
    Meets step (fun _ action => allowed action) start actions := by
  induction actions generalizing start with
  | nil => trivial
  | cons action rest ih =>
    intro next _
    exact ⟨fine action List.mem_cons_self, ih fun other later => fine other (.tail _ later)⟩

theorem Meets.and {other : State → Action → Prop} (meets : Meets step allowed start actions)
    (also : Meets step other start actions) :
    Meets step (fun state action => allowed state action ∧ other state action) start actions := by
  induction actions generalizing start with
  | nil => trivial
  | cons action rest ih =>
    intro next taken
    obtain ⟨first, onwards⟩ := meets next taken
    obtain ⟨second, further⟩ := also next taken
    exact ⟨⟨first, second⟩, ih onwards further⟩

/-- What an invariant of the allowed steps says of each of them. -/
theorem Meets.of_invariant (invariant : State → Prop) {other : State → Action → Prop}
    (preserved : ∀ start action next, invariant start → allowed start action →
      step start action = some next → invariant next)
    (implies : ∀ state action next, invariant state → allowed state action →
      step state action = some next → other state action)
    (initially : invariant start) (meets : Meets step allowed start actions) :
    Meets step other start actions := by
  induction actions generalizing start with
  | nil => trivial
  | cons action rest ih =>
    intro next taken
    obtain ⟨fine, onwards⟩ := meets next taken
    exact ⟨implies start action next initially fine taken,
      ih (preserved start action next initially fine taken) onwards⟩

theorem Always.of_invariant (invariant : State → Prop)
    (preserved : ∀ start action next, invariant start → allowed start action →
      step start action = some next → invariant next)
    (implies : ∀ state, invariant state → safe state)
    (initially : invariant start) (meets : Meets step allowed start actions) :
    Always step safe start actions := by
  induction actions generalizing start with
  | nil => exact implies start initially
  | cons action rest ih =>
    refine ⟨implies start initially, fun next taken => ?_⟩
    obtain ⟨fine, onwards⟩ := meets next taken
    exact ih (preserved start action next initially fine taken) onwards

/-- What no step brings back holds all along a run that it holds after. -/
theorem Meets.of_final (backwards : ∀ start action next, step start action = some next →
      safe next → safe start)
    (ran : exec step start actions = some last) (ends : safe last) :
    safe start ∧ Meets step (fun state action => ∀ next, step state action = some next → safe next)
      start actions := by
  induction actions generalizing start with
  | nil =>
    cases ran
    exact ⟨ends, trivial⟩
  | cons action rest ih =>
    obtain ⟨middle, taken, continued⟩ := exec_cons_eq_some ran
    obtain ⟨safeNext, onwards⟩ := ih continued
    refine ⟨backwards start action middle taken safeNext, ?_⟩
    intro next same
    cases taken.symm.trans same
    refine ⟨?_, onwards⟩
    intro other equal
    cases taken.symm.trans equal
    exact safeNext

/-- Where every allowed step lowers a rank, a run has no more steps than the
rank falls. -/
theorem exec_length_le (rank : State → ℕ) (invariant : State → Prop)
    (preserved : ∀ start action next, invariant start → allowed start action →
      step start action = some next → invariant next)
    (lowers : ∀ start action next, invariant start → allowed start action →
      step start action = some next → rank next < rank start)
    (initially : invariant start) (meets : Meets step allowed start actions)
    (ran : exec step start actions = some last) : actions.length + rank last ≤ rank start := by
  induction actions generalizing start with
  | nil =>
    cases ran
    exact Nat.le_of_eq (Nat.zero_add _)
  | cons action rest ih =>
    obtain ⟨next, taken, continued⟩ := exec_cons_eq_some ran
    obtain ⟨fine, onwards⟩ := meets next taken
    have lower := lowers start action next initially fine taken
    have further := ih (preserved start action next initially fine taken) onwards continued
    rw [List.length_cons]
    omega

theorem Meets.append (meets : Meets step allowed start (first ++ second))
    (ran : exec step start first = some next) :
    Meets step allowed start first ∧ Meets step allowed next second := by
  induction first generalizing start with
  | nil => cases ran; exact ⟨trivial, meets⟩
  | cons action rest ih =>
    obtain ⟨middle, taken, continued⟩ := exec_cons_eq_some ran
    obtain ⟨fine, onwards⟩ := meets middle taken
    obtain ⟨before, after⟩ := ih onwards continued
    refine ⟨?_, after⟩
    intro other same
    cases taken.symm.trans same
    exact ⟨fine, before⟩

/-- The first step that is not allowed, with the run before it. -/
theorem exists_of_not_meets (fails : ¬ Meets step allowed start actions) :
    ∃ before action rest state next, actions = before ++ action :: rest ∧
      Meets step allowed start before ∧ exec step start before = some state ∧
      step state action = some next ∧ ¬ allowed state action := by
  induction actions generalizing start with
  | nil => exact absurd trivial fails
  | cons action rest ih =>
    simp only [Meets, not_forall] at fails
    obtain ⟨next, taken, fails⟩ := fails
    by_cases fine : allowed start action
    · obtain ⟨before, other, after, state, last, split, meets, ran, moved, bad⟩ :=
        ih fun onwards => fails ⟨fine, onwards⟩
      refine ⟨action :: before, other, after, state, last, by rw [split]; rfl, ?_, ?_, moved, bad⟩
      · intro same equal
        cases taken.symm.trans equal
        exact ⟨fine, meets⟩
      · rwa [exec_cons_some taken]
    · exact ⟨[], action, rest, start, next, rfl, trivial, rfl, taken, fine⟩

theorem Always.initial (always : Always step safe start actions) : safe start := by
  cases actions with
  | nil => exact always
  | cons action rest => exact always.1

theorem Always.final (always : Always step safe start actions)
    (ran : exec step start actions = some last) : safe last := by
  induction actions generalizing start with
  | nil => cases ran; exact always
  | cons action rest ih =>
    obtain ⟨next, taken, continued⟩ := exec_cons_eq_some ran
    exact ih (always.2 next taken) continued

theorem Always.imp {other : State → Prop} (implies : ∀ state, safe state → other state)
    (always : Always step safe start actions) : Always step other start actions := by
  induction actions generalizing start with
  | nil => exact implies start always
  | cons action rest ih =>
    exact ⟨implies start always.1, fun next taken => ih (always.2 next taken)⟩

/-- Where an invariant is kept by every usual step, safety of the states that a
usual run visits is exactly the condition that every step keeps it safe. -/
theorem always_iff_meets_of {usual : State → Action → Prop} (invariant : State → Prop)
    (preserved : ∀ start action next, invariant start → usual start action →
      step start action = some next → invariant next)
    (exact_step : ∀ start action next, invariant start → usual start action → safe start →
      step start action = some next → (safe next ↔ allowed start action))
    (initially : invariant start) (safeStart : safe start)
    (usually : Meets step usual start actions) :
    Always step safe start actions ↔ Meets step allowed start actions := by
  induction actions generalizing start with
  | nil => exact ⟨fun _ => trivial, fun _ => safeStart⟩
  | cons action rest ih =>
    constructor
    · intro always next taken
      obtain ⟨plain, onwards⟩ := usually next taken
      have safeNext := (always.2 next taken).initial
      have fine := (exact_step start action next initially plain safeStart taken).mp safeNext
      exact ⟨fine, (ih (preserved _ _ _ initially plain taken) safeNext onwards).mp
        (always.2 next taken)⟩
    · intro meets
      refine ⟨safeStart, fun next taken => ?_⟩
      obtain ⟨plain, usually⟩ := usually next taken
      obtain ⟨fine, onwards⟩ := meets next taken
      have safeNext := (exact_step start action next initially plain safeStart taken).mpr fine
      exact (ih (preserved _ _ _ initially plain taken) safeNext usually).mpr onwards

/-- Where a usual step ends safe exactly when it begins safe and is allowed, a usual
run ends safe exactly when it begins safe and all its steps are allowed. -/
theorem final_iff_meets {usual : State → Action → Prop} (invariant : State → Prop)
    (preserved : ∀ start action next, invariant start → usual start action →
      step start action = some next → invariant next)
    (exact_step : ∀ start action next, invariant start → usual start action →
      step start action = some next → (safe next ↔ safe start ∧ allowed start action))
    (initially : invariant start) (usually : Meets step usual start actions)
    (ran : exec step start actions = some last) :
    safe last ↔ safe start ∧ Meets step allowed start actions := by
  induction actions generalizing start with
  | nil =>
    cases ran
    exact ⟨fun safeEnd => ⟨safeEnd, trivial⟩, And.left⟩
  | cons action rest ih =>
    obtain ⟨next, taken, continued⟩ := exec_cons_eq_some ran
    obtain ⟨plain, onwards⟩ := usually next taken
    rw [ih (preserved _ _ _ initially plain taken) onwards continued,
      exact_step _ _ _ initially plain taken, and_assoc, Meets]
    refine and_congr_right fun _ => ⟨?_, fun meets => meets next taken⟩
    rintro meets other same
    cases taken.symm.trans same
    exact meets

theorem Meets.true : Meets step (fun _ _ => True) start actions := by
  induction actions generalizing start with
  | nil => trivial
  | cons action rest ih => exact fun next _ => ⟨trivial, ih⟩

/-- Where an invariant is kept by every step, safety of the visited states is
exactly the condition that every step keeps it safe. -/
theorem always_iff_meets (invariant : State → Prop)
    (preserved : ∀ start action next, invariant start → step start action = some next →
      invariant next)
    (exact_step : ∀ start action next, invariant start → safe start →
      step start action = some next → (safe next ↔ allowed start action))
    (initially : invariant start) (safeStart : safe start) :
    Always step safe start actions ↔ Meets step allowed start actions :=
  always_iff_meets_of invariant (fun _ _ _ inv _ => preserved _ _ _ inv)
    (fun _ _ _ inv _ => exact_step _ _ _ inv) initially safeStart .true

/-- Two conditions that agree wherever an invariant allows a step agree along
every run. -/
theorem meets_iff_meets {required : State → Action → Prop} (invariant : State → Prop)
    (preserved : ∀ start action next, invariant start → step start action = some next →
      invariant next)
    (agree : ∀ start action next, invariant start → step start action = some next →
      (allowed start action ↔ required start action))
    (initially : invariant start) :
    Meets step allowed start actions ↔ Meets step required start actions := by
  induction actions generalizing start with
  | nil => exact Iff.rfl
  | cons action rest ih =>
    refine forall_congr' fun next => imp_congr_right fun taken => ?_
    have agreed := agree start action next initially taken
    exact and_congr agreed (ih (preserved start action next initially taken))

/-- Where related states of two machines take the same actions into related states,
so do their runs. -/
theorem exec_related {Model : Type _} {spec : Model → Action → Option Model} {model : Model}
    (related : State → Model → Prop)
    (agree : ∀ start model action, related start model →
      (∀ next, step start action = some next → allowed start action) →
      Option.Rel related (step start action) (spec model action))
    (initially : related start model) (meets : Meets step allowed start actions) :
    Option.Rel related (exec step start actions) (exec spec model actions) := by
  induction actions generalizing start model with
  | nil => exact .some initially
  | cons action rest ih =>
    have both := agree start model action initially fun next taken => (meets next taken).1
    rw [exec_cons, exec_cons]
    cases taken : step start action <;> cases answer : spec model action <;>
      rw [taken, answer] at both <;> cases both
    case none.none => exact .none
    case some.some.some next _ alike => exact ih alike (meets next taken).2

theorem trace_cons_some (taken : step start action = some next) :
    trace step observe start (action :: rest) =
      (observe start action).toList ++ trace step observe next rest := by
  simp [trace, taken]

/-- A step shows one event at most. -/
theorem trace_length_le (start : State) (actions : List Action) :
    (trace step observe start actions).length ≤ actions.length := by
  induction actions generalizing start with
  | nil => exact Nat.le_refl _
  | cons action rest ih =>
    have one : (observe start action).toList.length ≤ 1 := Option.length_toList_le
    rw [trace, List.length_append, List.length_cons]
    cases step start action with
    | none => exact Nat.le_trans one (by omega)
    | some next => exact Nat.le_trans (Nat.add_le_add one (ih next)) (by omega)

/-- Where every event takes the mark off what it names and nothing else changes
the marks, a run that ends without marks names each marked thing once. -/
theorem trace_drains [DecidableEq Event] {mark : State → Event → Bool} (invariant : State → Prop)
    (preserved : ∀ start action next, invariant start → allowed start action →
      step start action = some next → invariant next)
    (silent : ∀ start action next, invariant start → allowed start action →
      step start action = some next → observe start action = none → mark next = mark start)
    (drains : ∀ start action next event, invariant start → allowed start action →
      step start action = some next → observe start action = some event →
      mark start event = true ∧ mark next = Function.update (mark start) event false)
    (initially : invariant start) (meets : Meets step allowed start actions)
    (ran : exec step start actions = some last) (drained : ∀ event, mark last event = false) :
    (trace step observe start actions).Nodup ∧
      ∀ event, event ∈ trace step observe start actions ↔ mark start event = true := by
  induction actions generalizing start with
  | nil =>
    cases ran
    exact ⟨List.nodup_nil, fun event => by simp [trace, drained event]⟩
  | cons action rest ih =>
    obtain ⟨next, taken, continued⟩ := exec_cons_eq_some ran
    obtain ⟨fine, onwards⟩ := meets next taken
    obtain ⟨once, names⟩ := ih (preserved _ _ _ initially fine taken) onwards continued
    rw [trace_cons_some taken]
    cases shown : observe start action with
    | none =>
      rw [silent _ _ _ initially fine taken shown] at names
      exact ⟨once, names⟩
    | some event =>
      obtain ⟨marked, after⟩ := drains _ _ _ _ initially fine taken shown
      rw [after] at names
      refine ⟨List.nodup_cons.mpr ⟨fun again => ?_, once⟩, fun other => ?_⟩
      · simpa using (names event).mp again
      · by_cases same : other = event
        · subst same
          simp [marked]
        · simp [same, names other]

/-- Where every event lowers a measure by one and nothing else changes it, the
events are what the measure falls by. -/
theorem trace_length {measure : State → ℤ} (invariant : State → Prop)
    (preserved : ∀ start action next, invariant start → allowed start action →
      step start action = some next → invariant next)
    (pays : ∀ start action next, invariant start → allowed start action →
      step start action = some next →
      measure next + (observe start action).toList.length = measure start)
    (initially : invariant start) (meets : Meets step allowed start actions)
    (ran : exec step start actions = some last) :
    measure last + (trace step observe start actions).length = measure start := by
  induction actions generalizing start with
  | nil =>
    cases ran
    exact Int.add_zero _
  | cons action rest ih =>
    obtain ⟨next, taken, continued⟩ := exec_cons_eq_some ran
    obtain ⟨fine, onwards⟩ := meets next taken
    have later := ih (preserved _ _ _ initially fine taken) onwards continued
    have now := pays _ _ _ initially fine taken
    rw [trace_cons_some taken, List.length_append]
    omega

/-- Where each step changes a measure by the value of the event it shows, the values
of the events add up to what the measure changes by. -/
theorem trace_sum {measure : State → ℤ} {value : Event → ℤ} (invariant : State → Prop)
    (preserved : ∀ start action next, invariant start → allowed start action →
      step start action = some next → invariant next)
    (pays : ∀ start action next, invariant start → allowed start action →
      step start action = some next →
      measure next = measure start + ((observe start action).map value).getD 0)
    (initially : invariant start) (meets : Meets step allowed start actions)
    (ran : exec step start actions = some last) :
    measure last = measure start + ((trace step observe start actions).map value).sum := by
  induction actions generalizing start with
  | nil =>
    cases ran
    exact (Int.add_zero _).symm
  | cons action rest ih =>
    obtain ⟨next, taken, continued⟩ := exec_cons_eq_some ran
    obtain ⟨fine, onwards⟩ := meets next taken
    have later := ih (preserved _ _ _ initially fine taken) onwards continued
    have now := pays _ _ _ initially fine taken
    rw [trace_cons_some taken, later, now, List.map_append, List.sum_append, ← Int.add_assoc]
    cases observe start action with
    | none =>
      simp only [Option.toList_none, List.map_nil, List.sum_nil, Option.map_none, Option.getD_none]
    | some event =>
      simp only [Option.toList_some, List.map_cons, List.map_nil, List.sum_cons, List.sum_nil,
        Int.add_zero, Option.map_some, Option.getD_some]

/-- A run whose steps show nothing has no events. -/
theorem trace_eq_nil (invariant : State → Prop)
    (preserved : ∀ start action next, invariant start → allowed start action →
      step start action = some next → invariant next)
    (silent : ∀ start action next, invariant start → allowed start action →
      step start action = some next → observe start action = none)
    (initially : invariant start) (meets : Meets step allowed start actions)
    (ran : exec step start actions = some last) : trace step observe start actions = [] := by
  induction actions generalizing start with
  | nil => rfl
  | cons action rest ih =>
    obtain ⟨next, taken, continued⟩ := exec_cons_eq_some ran
    obtain ⟨fine, onwards⟩ := meets next taken
    rw [trace_cons_some taken, silent _ _ _ initially fine taken]
    exact ih (preserved _ _ _ initially fine taken) onwards continued

end Prot.Concurrency
