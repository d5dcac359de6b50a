import Prot.Concurrency.Machine
import Mathlib.Logic.Function.Basic

/-! Linearizability: the calls and returns of a run are those of an atomic
object whose every operation acts at one instant between its call and its
return. The rule below is a backward simulation that is local to the thread
that moves, so that the instant of an operation may be settled after it. -/

namespace Prot.Concurrency

universe u v w x y z
variable {Thread : Type u} {Op : Type v} {Res : Type w} {Value : Type x}

inductive Event (Thread : Type u) (Op : Type v) (Res : Type w) where
  | call (thread : Thread) (op : Op)
  | ret (thread : Thread) (res : Res)

/-- How far a thread is with its operation on the atomic object. -/
inductive Status (Op : Type v) (Res : Type w) where
  | idle
  | called (op : Op)
  | acted (res : Res)

structure AtomicState (Thread : Type u) (Op : Type v) (Res : Type w) (Value : Type x) where
  value : Value
  status : Thread → Status Op Res

section Runs

variable [DecidableEq Thread] (acts : Value → Op → Res → Value → Prop)

/-- The runs of the atomic object with the calls and returns they show. -/
inductive AtomicRun : AtomicState Thread Op Res Value → List (Event Thread Op Res) →
    AtomicState Thread Op Res Value → Prop where
  | nil {a : AtomicState Thread Op Res Value} : AtomicRun a [] a
  | call {a b : AtomicState Thread Op Res Value} {thread : Thread} {op : Op}
      {rest : List (Event Thread Op Res)} (idle : a.status thread = .idle)
      (later : AtomicRun ⟨a.value, Function.update a.status thread (.called op)⟩ rest b) :
      AtomicRun a (.call thread op :: rest) b
  | act {a b : AtomicState Thread Op Res Value} {thread : Thread} {op : Op} {res : Res}
      {value : Value} {rest : List (Event Thread Op Res)} (called : a.status thread = .called op)
      (effect : acts a.value op res value)
      (later : AtomicRun ⟨value, Function.update a.status thread (.acted res)⟩ rest b) :
      AtomicRun a rest b
  | ret {a b : AtomicState Thread Op Res Value} {thread : Thread} {res : Res}
      {rest : List (Event Thread Op Res)} (acted : a.status thread = .acted res)
      (later : AtomicRun ⟨a.value, Function.update a.status thread .idle⟩ rest b) :
      AtomicRun a (.ret thread res :: rest) b

/-- The history is one the atomic object can give, starting from `value`. -/
def Linearizable (value : Value) (history : List (Event Thread Op Res)) : Prop :=
  ∃ last, AtomicRun acts ⟨value, fun _ => .idle⟩ history last

variable {acts}

theorem AtomicRun.trans {a b c : AtomicState Thread Op Res Value}
    {first second : List (Event Thread Op Res)} (before : AtomicRun acts a first b)
    (after : AtomicRun acts b second c) : AtomicRun acts a (first ++ second) c := by
  induction before with
  | nil => exact after
  | call idle _ ih => exact .call idle (ih after)
  | act called effect _ ih => exact .act called effect (ih after)
  | ret acted _ ih => exact .ret acted (ih after)

/-- What the instants of the operations keep still holds when the next call of
the history is made. -/
theorem AtomicRun.call_inv {a b : AtomicState Thread Op Res Value} {thread : Thread} {op : Op}
    {rest : List (Event Thread Op Res)} (run : AtomicRun acts a (.call thread op :: rest) b)
    (stage : AtomicState Thread Op Res Value → Prop) (now : stage a)
    (acting : ∀ a t op res value, stage a → a.status t = .called op →
      acts a.value op res value → stage ⟨value, Function.update a.status t (.acted res)⟩) :
    ∃ a', stage a' ∧
      AtomicRun acts ⟨a'.value, Function.update a'.status thread (.called op)⟩ rest b := by
  generalize whole : (Event.call thread op :: rest) = history at run
  induction run with
  | nil => cases whole
  | call idle later =>
    cases whole
    exact ⟨_, now, later⟩
  | act called effect later ih => exact ih (acting _ _ _ _ _ now called effect) whole
  | ret => cases whole

/-- The same for the next return, whose operation must have had its instant. -/
theorem AtomicRun.ret_inv {a b : AtomicState Thread Op Res Value} {thread : Thread} {res : Res}
    {rest : List (Event Thread Op Res)} (run : AtomicRun acts a (.ret thread res :: rest) b)
    (stage : AtomicState Thread Op Res Value → Prop) (now : stage a)
    (acting : ∀ a t op res value, stage a → a.status t = .called op →
      acts a.value op res value → stage ⟨value, Function.update a.status t (.acted res)⟩) :
    ∃ a', stage a' ∧ a'.status thread = .acted res ∧
      AtomicRun acts ⟨a'.value, Function.update a'.status thread .idle⟩ rest b := by
  generalize whole : (Event.ret thread res :: rest) = history at run
  induction run with
  | nil => cases whole
  | call => cases whole
  | act called effect later ih => exact ih (acting _ _ _ _ _ now called effect) whole
  | ret acted later =>
    cases whole
    exact ⟨_, now, acted, later⟩

end Runs

/-- What one thread does to the atomic object in one step: at most one of its
call, its instant and its return. -/
inductive Local (acts : Value → Op → Res → Value → Prop) (thread : Thread) :
    Value → Status Op Res → Option (Event Thread Op Res) → Status Op Res → Value → Prop where
  | stay {value : Value} {status : Status Op Res} : Local acts thread value status none status value
  | call {value : Value} (op : Op) :
      Local acts thread value .idle (some (.call thread op)) (.called op) value
  | act {value value' : Value} {op : Op} {res : Res} (effect : acts value op res value') :
      Local acts thread value (.called op) none (.acted res) value'
  | ret {value : Value} (res : Res) :
      Local acts thread value (.acted res) (some (.ret thread res)) .idle value

variable [DecidableEq Thread] {acts : Value → Op → Res → Value → Prop} {thread : Thread}

omit [DecidableEq Thread] in
/-- An operation that has been called acts now or later. -/
theorem Local.of_called {value value' : Value} {op : Op} {event : Option (Event Thread Op Res)}
    {after : Status Op Res} (own : Local acts thread value (.called op) event after value') :
    after = .called op ∧ value' = value ∨ ∃ res, after = .acted res ∧ acts value op res value' := by
  cases own with
  | stay => exact .inl ⟨rfl, rfl⟩
  | act effect => exact .inr ⟨_, rfl, effect⟩

omit [DecidableEq Thread] in
/-- One that has acted has only to return. -/
theorem Local.of_acted {value value' : Value} {res : Res} {event : Option (Event Thread Op Res)}
    {after : Status Op Res} (own : Local acts thread value (.acted res) event after value') :
    value' = value ∧ (after = .acted res ∨ after = .idle ∧ event = some (.ret thread res)) := by
  cases own with
  | stay => exact ⟨rfl, .inl rfl⟩
  | ret => exact ⟨rfl, .inr ⟨rfl, rfl⟩⟩

private theorem Local.atomicRun {value value' : Value} {before after : Status Op Res}
    {event : Option (Event Thread Op Res)} {status : Thread → Status Op Res}
    (own : Local acts thread value before event after value') (now : status thread = after) :
    AtomicRun acts ⟨value, Function.update status thread before⟩ event.toList ⟨value', status⟩ := by
  have back : Function.update (Function.update status thread before) thread after = status := by
    rw [Function.update_idem, ← now, Function.update_eq_self]
  have goal : AtomicRun acts ⟨value', Function.update (Function.update status thread before)
      thread after⟩ [] ⟨value', status⟩ := by
    rw [back]
    exact .nil
  cases own with
  | stay =>
    rw [← now, Function.update_eq_self]
    exact .nil
  | call op => exact .call (Function.update_self ..) goal
  | act effect => exact .act (Function.update_self ..) effect goal
  | ret res => exact .ret (Function.update_self ..) goal

section Simulation

variable {State : Type y} {Action : Type z} {Place : Type*}
variable {step : State → Action → Option State} {allowed : State → Action → Prop}
variable {observe : State → Action → Option (Event Thread Op Res)}
variable {invariant : State → Prop} {value : State → Value} {place : State → Thread → Place}
variable {compatible : Place → Status Op Res → Prop} {start last : State} {actions : List Action}

/-- The atomic states a concrete state may stand for. -/
def Matches (value : State → Value) (place : State → Thread → Place)
    (compatible : Place → Status Op Res → Prop) (s : State)
    (a : AtomicState Thread Op Res Value) : Prop :=
  a.value = value s ∧ ∀ thread, compatible (place s thread) (a.status thread)

/-- One step of the program moves one thread, and every status the thread may
have after it comes from a status it may have before it. -/
def StepsBack (acts : Value → Op → Res → Value → Prop) (value : State → Value)
    (place : State → Thread → Place) (compatible : Place → Status Op Res → Prop)
    (s s' : State) (event : Option (Event Thread Op Res)) : Prop :=
  ∃ thread p, place s' = Function.update (place s) thread p ∧
    ∀ after, compatible p after → ∃ before, compatible (place s thread) before ∧
      Local acts thread (value s) before event after (value s')

private theorem StepsBack.matches {s s' : State} {event : Option (Event Thread Op Res)}
    (back : StepsBack acts value place compatible s s' event)
    {a' : AtomicState Thread Op Res Value} (related : Matches value place compatible s' a') :
    ∃ a, Matches value place compatible s a ∧ AtomicRun acts a event.toList a' := by
  obtain ⟨thread, p, moved, local_⟩ := back
  obtain ⟨same, all⟩ := related
  have mine := all thread
  rw [moved, Function.update_self] at mine
  obtain ⟨before, compat, own⟩ := local_ (a'.status thread) mine
  refine ⟨⟨value s, Function.update a'.status thread before⟩, ⟨rfl, fun other => ?_⟩, ?_⟩
  · by_cases equal : other = thread
    · subst equal
      simpa using compat
    · have theirs := all other
      rw [moved, Function.update_of_ne equal] at theirs
      simpa [equal] using theirs
  · rw [← same] at own
    exact own.atomicRun rfl

private theorem atomicRun_of_stepsBack
    (preserved : ∀ s action s', invariant s → allowed s action → step s action = some s' →
      invariant s')
    (back : ∀ s action s', invariant s → allowed s action → step s action = some s' →
      StepsBack acts value place compatible s s' (observe s action))
    (initially : invariant start) (meets : Meets step allowed start actions)
    (ran : exec step start actions = some last) {b : AtomicState Thread Op Res Value}
    (related : Matches value place compatible last b) :
    ∃ a, Matches value place compatible start a ∧
      AtomicRun acts a (trace step observe start actions) b := by
  induction actions generalizing start with
  | nil =>
    cases ran
    exact ⟨b, related, .nil⟩
  | cons action rest ih =>
    obtain ⟨next, taken, continued⟩ := exec_cons_eq_some ran
    obtain ⟨fine, onwards⟩ := meets next taken
    obtain ⟨middle, relatedMiddle, later⟩ :=
      ih (preserved _ _ _ initially fine taken) onwards continued
    obtain ⟨a, relatedStart, first⟩ := (back _ _ _ initially fine taken).matches relatedMiddle
    refine ⟨a, relatedStart, ?_⟩
    rw [trace_cons_some taken]
    exact first.trans later

/-- A program whose steps all simulate backwards is linearizable. -/
theorem linearizable_of_stepsBack
    (preserved : ∀ s action s', invariant s → allowed s action → step s action = some s' →
      invariant s')
    (back : ∀ s action s', invariant s → allowed s action → step s action = some s' →
      StepsBack acts value place compatible s s' (observe s action))
    (possible : ∀ p, ∃ status, compatible p status)
    (fresh : ∀ thread status, compatible (place start thread) status → status = .idle)
    (initially : invariant start) (meets : Meets step allowed start actions)
    (ran : exec step start actions = some last) :
    Linearizable acts (value start) (trace step observe start actions) := by
  choose some_status some_compatible using possible
  have related : Matches value place compatible last
      ⟨value last, fun thread => some_status (place last thread)⟩ :=
    ⟨rfl, fun thread => some_compatible (place last thread)⟩
  obtain ⟨⟨first, status⟩, ⟨same, all⟩, run⟩ :=
    atomicRun_of_stepsBack preserved back initially meets ran related
  have idle : status = fun _ => .idle := funext fun thread => fresh thread _ (all thread)
  subst idle
  cases same
  exact ⟨_, run⟩

/-- A sequence of operations, with their results, that the object carries out
one after another. -/
inductive Sequential (acts : Value → Op → Res → Value → Prop) :
    Value → List (Op × Res) → Value → Prop where
  | nil {v : Value} : Sequential acts v [] v
  | cons {v v' v'' : Value} {op : Op} {res : Res} {rest : List (Op × Res)}
      (effect : acts v op res v') (later : Sequential acts v' rest v'') :
      Sequential acts v ((op, res) :: rest) v''

omit [DecidableEq Thread] in
theorem Sequential.append_inv {acts : Value → Op → Res → Value → Prop} {v w : Value}
    {first second : List (Op × Res)} (both : Sequential acts v (first ++ second) w) :
    ∃ middle, Sequential acts v first middle ∧ Sequential acts middle second w := by
  induction first generalizing v with
  | nil => exact ⟨v, .nil, both⟩
  | cons head rest ih =>
    cases both with
    | cons effect later =>
      obtain ⟨middle, before, after⟩ := ih later
      exact ⟨middle, .cons effect before, after⟩

omit [DecidableEq Thread] in
/-- Where every step is the instant of at most one operation, the instants of a
run are a sequence the object carries out. -/
theorem sequential_of_instants {instant : State → Action → Option (Op × Res)}
    (preserved : ∀ s action s', invariant s → allowed s action → step s action = some s' →
      invariant s')
    (silent : ∀ s action s', invariant s → allowed s action → step s action = some s' →
      instant s action = none → value s' = value s)
    (effect : ∀ s action s' op res, invariant s → allowed s action → step s action = some s' →
      instant s action = some (op, res) → acts (value s) op res (value s'))
    (initially : invariant start) (meets : Meets step allowed start actions)
    (ran : exec step start actions = some last) :
    Sequential acts (value start) (trace step instant start actions) (value last) := by
  induction actions generalizing start with
  | nil =>
    cases ran
    exact .nil
  | cons action rest ih =>
    obtain ⟨next, taken, continued⟩ := exec_cons_eq_some ran
    obtain ⟨fine, onwards⟩ := meets next taken
    have later := ih (preserved _ _ _ initially fine taken) onwards continued
    rw [trace_cons_some taken]
    cases shown : instant start action with
    | none =>
      rw [← silent _ _ _ initially fine taken shown]
      exact later
    | some happened => exact .cons (effect _ _ _ _ _ initially fine taken shown) later

end Simulation

end Prot.Concurrency
