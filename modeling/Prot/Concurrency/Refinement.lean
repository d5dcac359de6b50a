import Prot.Concurrency.Machine

/-! A machine that refines another one: each of its steps is a step of the other one
that shows the same, or one that shows nothing and that the other one does not take. -/

namespace Prot.Concurrency

universe u v w x y
variable {State : Type u} {Action : Type v} {Model : Type w} {Move : Type x} {Event : Type y}

/-- A step that ends in `next` and shows `shown`, as the other machine sees it. -/
inductive Seen (spec : Model → Move → Option Model) (watch : Model → Move → Option Event)
    (usual : Model → Move → Prop) (related : State → Model → Prop) (next : State) (model : Model)
    (shown : Option Event) : Prop where
  | hidden (silent : shown = none) (same : related next model)
  | move (move : Move) (after : Model) (plain : usual model move) (moved : spec model move = some after)
      (shows : watch model move = shown) (same : related next after)

variable {step : State → Action → Option State} {spec : Model → Move → Option Model}
variable {observe : State → Action → Option Event} {watch : Model → Move → Option Event}
variable {allowed : State → Action → Prop} {usual : Model → Move → Prop}
variable {related : State → Model → Prop} {start last : State} {model : Model} {actions : List Action}

/-- What holds of the other machine after its own steps may be used of it. -/
theorem Seen.invariant {invariant : Model → Prop} {next : State} {shown : Option Event}
    (preserved : ∀ model move after, invariant model → usual model move →
      spec model move = some after → invariant after)
    (before : invariant model) (seen : Seen spec watch usual related next model shown) :
    Seen spec watch usual (fun state model => related state model ∧ invariant model) next model shown := by
  cases seen with
  | hidden silent same => exact .hidden silent ⟨same, before⟩
  | move move after plain moved shows same =>
    exact .move move after plain moved shows ⟨same, preserved _ _ _ before plain moved⟩

/-- Every run of the machine shows what some run of the other one shows. -/
theorem exec_refines
    (seen : ∀ start action next model, related start model → allowed start action →
      step start action = some next → Seen spec watch usual related next model (observe start action))
    (initially : related start model) (meets : Meets step allowed start actions)
    (ran : exec step start actions = some last) :
    ∃ moves after, exec spec model moves = some after ∧ Meets spec usual model moves ∧
      related last after ∧ trace spec watch model moves = trace step observe start actions := by
  induction actions generalizing start model with
  | nil =>
    cases ran
    exact ⟨[], model, rfl, trivial, initially, rfl⟩
  | cons action rest ih =>
    obtain ⟨next, taken, continued⟩ := exec_cons_eq_some ran
    obtain ⟨fine, onwards⟩ := meets next taken
    rw [trace_cons_some taken]
    cases seen _ _ _ _ initially fine taken with
    | hidden silent same =>
      obtain ⟨moves, after, ran', usually, ends, shown⟩ := ih same onwards continued
      exact ⟨moves, after, ran', usually, ends, by rw [silent, shown]; rfl⟩
    | move move middle plain moved shows same =>
      obtain ⟨moves, after, ran', usually, ends, shown⟩ := ih same onwards continued
      refine ⟨move :: moves, after, by rw [exec_cons_some moved, ran'], ?_, ends, ?_⟩
      · intro other equal
        cases moved.symm.trans equal
        exact ⟨plain, usually⟩
      · rw [trace_cons_some moved, shows, shown]

end Prot.Concurrency
