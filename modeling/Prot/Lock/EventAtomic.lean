import Prot.Concurrency.Atomic
import Prot.Concurrency.Threads
import Prot.Lock.EventInvariant

/-! The event against an atomic Boolean: `Set` and `Reset` act where they write
`state`, a `Wait` acts where it leaves the lock region with its answer. -/

namespace Prot.Lock.Event

open Concurrency Time

inductive Op where
  | set
  | reset
  | wait
  deriving DecidableEq

inductive Res where
  | done
  | answer (rv : Bool)
  deriving DecidableEq

/-- How an operation acts on the Boolean, and what it returns. -/
inductive Acts (manual : Bool) : Bool → Op → Res → Bool → Prop where
  | set {v : Bool} : Acts manual v .set .done true
  | reset {v : Bool} : Acts manual v .reset .done false
  | waitTrue : Acts manual true .wait (.answer true) manual
  | waitFalse : Acts manual false .wait (.answer false) false

def Call.op : Call → Op
  | .set => .set
  | .reset => .reset
  | .wait _ => .wait

def Pc.returns {Thread : Type} (thread : Thread) : Pc → Option (Event Thread Op Res)
  | .setReturn | .resetReturn => some (.ret thread .done)
  | .waitReturn rv => some (.ret thread (.answer rv))
  | _ => none

variable {Thread : Type}

def observe (s : State Thread) (action : Action Thread) : Option (Event Thread Op Res) :=
  match action with
  | .call thread call => some (.call thread call.op)
  | action => (s.pc action.thread).returns action.thread

/-- The operation that acts in the next step of a thread, with its result. -/
def Pc.instant : Pc → Option (Op × Res)
  | .setWrite => some (.set, .done)
  | .resetWrite => some (.reset, .done)
  | .waitTake stat_ok => some (.wait, .answer stat_ok)
  | _ => none

/-- The instants of a run, one for each operation that has acted. -/
def instant (s : State Thread) (action : Action Thread) : Option (Op × Res) :=
  (s.pc action.thread).instant

def Pc.status : Pc → Status Op Res
  | .idle => .idle
  | .setLock | .setWrite => .called .set
  | .setNotify | .setUnlock | .setReturn => .acted .done
  | .resetLock | .resetWrite => .called .reset
  | .resetUnlock | .resetReturn => .acted .done
  | .waitLock _ | .waitBranch _ | .waitTest _ | .waitBlocked _ => .called .wait
  | .waitExpired | .waitFailed | .waitRead | .waitTake _ => .called .wait
  | .waitUnlock rv | .waitReturn rv => .acted (.answer rv)

/-- What a `Wait` has read and not yet acted on. -/
def Pc.read : Pc → Option Bool
  | .waitTake stat_ok => some stat_ok
  | _ => none

/-- What a run without failures keeps: the answer of a `Wait` is still the
state when it acts. -/
structure Settled (s : State Thread) : Prop where
  mutex : Excludes s.mutex Pc.holds s.pc
  sound : ∀ t, s.pc t ≠ .waitFailed
  read : ∀ t v, (s.pc t).read = some v → s.state = v

variable [DecidableEq Thread] {s s' last : State Thread} {action : Action Thread}
variable {manual v v' : Bool} {thread : Thread} {blocked after : List Thread} {here next : Pc}

theorem Silent.read (edge : Silent here next) : next.read = none := by
  cases edge with
  | call call => cases call <;> rfl
  | branch => rw [waitPath]; split <;> rfl
  | _ => rfl

theorem Silent.sound (edge : Silent here next) : next ≠ .waitFailed := by
  cases edge with
  | call call => cases call <;> rintro ⟨⟩
  | branch => rw [waitPath]; split <;> rintro ⟨⟩
  | _ => rintro ⟨⟩

theorem Effect.sound (effect : Effect manual thread false v blocked here v' after next) :
    next ≠ .waitFailed := by
  cases effect with
  | silent edge => exact edge.sound
  | pass => split <;> exact nofun
  | _ => exact nofun

/-- What a `Wait` reads is the state. -/
theorem Effect.reads (effect : Effect manual thread false v blocked here v' after next) {rv : Bool}
    (read : next.read = some rv) : v' = rv := by
  cases effect with
  | silent edge => cases edge.read.symm.trans read
  | @pass _ timed =>
    cases timed with
    | true => cases read
    | false => exact Option.some.inj read
  | read => exact Option.some.inj read
  | _ => cases read

private theorem Effect.state_eq (effect : Effect manual thread false v blocked here v' after next)
    (outside : here.holds = false) : v' = v := by
  cases effect <;> first | rfl | cases outside

private theorem Pc.holds_of_read {p : Pc} {rv : Bool} (read : p.read = some rv) :
    p.holds = true := by
  cases p <;> first | rfl | cases read

theorem step_settled (settled : Settled s) (succeeds : action.fails = false)
    (taken : step s action = some s') : Settled s' := by
  obtain ⟨_, p, moved, effect⟩ := step_effect taken
  rw [succeeds] at effect
  refine ⟨step_mutex settled.mutex taken, fun t => ?_, fun t rv read => ?_⟩
  · rw [moved]
    by_cases same : t = action.thread
    · subst same
      rw [Function.update_self]
      exact effect.sound
    · rw [Function.update_of_ne same]
      exact settled.sound t
  · rw [moved] at read
    by_cases same : t = action.thread
    · subst same
      rw [Function.update_self] at read
      exact effect.reads read
    · rw [Function.update_of_ne same] at read
      have outside : (s.pc action.thread).holds = false := by
        by_contra inside
        exact same (settled.mutex.unique (Pc.holds_of_read read) (by simpa using inside))
      exact (effect.state_eq outside).trans (settled.read t rv read)

private theorem Effect.silent_of_instant (effect : Effect manual thread false v blocked here v' after next)
    (none : here.instant = none) : v' = v := by
  cases effect <;> first | rfl | cases none

private theorem Effect.acts_of_instant (effect : Effect manual thread false v blocked here v' after next)
    (read : ∀ rv, here.read = some rv → v = rv) {op : Op} {res : Res}
    (happens : here.instant = some (op, res)) : Acts manual v op res v' := by
  cases effect with
  | silent edge => cases edge <;> cases happens
  | set =>
    cases happens
    exact .set
  | reset =>
    cases happens
    exact .reset
  | @take _ _ ok =>
    have same : v = ok := read ok rfl
    cases happens
    subst same
    cases v with
    | false => exact .waitFalse
    | true => cases manual <;> exact .waitTrue
  | _ => cases happens

/-- A step that does not fail is one of an operation that acts at one instant. -/
theorem Effect.own (effect : Effect manual thread false v blocked here v' after next)
    (busy : here ≠ .idle) (sound : here ≠ .waitFailed) (read : ∀ rv, here.read = some rv → v = rv) :
    Local (Acts manual) thread v here.status (here.returns thread) next.status v' := by
  have acts {op : Op} {res : Res} (happens : here.instant = some (op, res)) :
      Acts manual v op res v' := effect.acts_of_instant read happens
  cases effect with
  | silent edge =>
    cases edge with
    | call => exact absurd rfl busy
    | setReturned | resetReturned => exact .ret _
    | failed => exact absurd rfl sound
    | waitReturned => exact .ret _
    | branch =>
      rw [waitPath]
      split <;> exact .stay
    | _ => exact .stay
  | set => exact .act (acts rfl)
  | reset => exact .act (acts rfl)
  | pass => split <;> exact .stay
  | take => exact .act (acts rfl)
  | _ => exact .stay

theorem call_of_idle (taken : step s action = some s') (idle : s.pc action.thread = .idle) :
    ∃ call, action = .call action.thread call ∧ s' = s.goto action.thread call.entry := by
  cases action with
  | call thread call =>
    simp only [step] at taken
    split at taken
    · cases taken
      exact ⟨call, rfl, rfl⟩
    · cases taken
  | _ =>
    simp only [Action.thread] at idle
    simp [step, State.next, idle] at taken

theorem observe_of_not_idle (taken : step s action = some s')
    (busy : s.pc action.thread ≠ .idle) :
    observe s action = (s.pc action.thread).returns action.thread := by
  cases action with
  | call thread call =>
    simp only [step] at taken
    split at taken
    · rename_i idle
      exact absurd idle busy
    · cases taken
  | _ => rfl

theorem step_back (settled : Settled s) (succeeds : action.fails = false)
    (taken : step s action = some s') :
    StepsBack (Acts s.manual) State.state State.pc (fun p status => status = p.status) s s'
      (observe s action) := by
  by_cases idle : s.pc action.thread = .idle
  · obtain ⟨call, same, rfl⟩ := call_of_idle taken idle
    generalize action.thread = thread at same idle
    subst same
    refine ⟨thread, call.entry, rfl, ?_⟩
    rintro _ rfl
    refine ⟨_, rfl, ?_⟩
    rw [idle]
    cases call <;> exact .call _
  · obtain ⟨_, p, moved, effect⟩ := step_effect taken
    rw [succeeds] at effect
    rw [observe_of_not_idle taken idle]
    refine ⟨action.thread, p, moved, ?_⟩
    rintro _ rfl
    exact ⟨_, rfl, effect.own idle (settled.sound _) (settled.read _)⟩

omit [DecidableEq Thread] in
theorem fresh_settled (manual v : Bool) : Settled (fresh manual v : State Thread) :=
  ⟨fun t => by simp [fresh, Pc.holds], fun _ => nofun, nofun⟩

theorem step_regular (s : State Thread) (action : Action Thread) (s' : State Thread)
    (run : s.manual = manual ∧ Settled s) (succeeds : action.fails = false)
    (taken : step s action = some s') : s'.manual = manual ∧ Settled s' :=
  ⟨(step_effect taken).1.trans run.1, step_settled run.2 succeeds taken⟩

/-- Every run without failing calls is linearizable to the atomic Boolean. -/
theorem linearizable_boolean {actions : List (Action Thread)}
    (succeeds : ∀ action ∈ actions, action.fails = false)
    (ran : exec step (fresh manual v) actions = some last) :
    Linearizable (Acts manual) v (trace step observe (fresh manual v) actions) := by
  have meets : Meets step (fun _ (action : Action Thread) => action.fails = false)
      (fresh manual v) actions := .of_forall succeeds
  have back : ∀ (s : State Thread) action s', s.manual = manual ∧ Settled s →
      action.fails = false → step s action = some s' → StepsBack (Acts manual) State.state State.pc
        (fun p status => status = p.status) s s' (observe s action) := by
    rintro s action s' ⟨rfl, settled⟩ succeeds taken
    exact step_back settled succeeds taken
  refine linearizable_of_stepsBack step_regular back (fun p => ⟨p.status, rfl⟩) ?_
    ⟨rfl, fresh_settled manual v⟩ meets ran
  rintro t _ rfl
  rfl

private theorem sequential {actions : List (Action Thread)}
    (succeeds : ∀ action ∈ actions, action.fails = false)
    (ran : exec step (fresh manual v) actions = some last) :
    Sequential (Acts manual) v (trace step instant (fresh manual v) actions) last.state := by
  have meets : Meets step (fun _ (action : Action Thread) => action.fails = false)
      (fresh manual v) actions := .of_forall succeeds
  have acted : ∀ (s : State Thread) action s', s.manual = manual ∧ Settled s →
      action.fails = false → step s action = some s' →
      (instant s action = none → s'.state = s.state) ∧ ∀ op res,
        instant s action = some (op, res) → Acts manual s.state op res s'.state := by
    rintro s action s' ⟨rfl, settled⟩ succeeds taken
    obtain ⟨_, _, _, effect⟩ := step_effect taken
    rw [succeeds] at effect
    exact ⟨effect.silent_of_instant, fun op res => effect.acts_of_instant (settled.read _)⟩
  exact sequential_of_instants step_regular
    (fun s action s' run succeeds taken => (acted s action s' run succeeds taken).1)
    (fun s action s' op res run succeeds taken => (acted s action s' run succeeds taken).2 op res)
    ⟨rfl, fresh_settled manual v⟩ meets ran

def answers (history : List (Event Thread Op Res)) : ℕ :=
  history.countP fun event => match event with
    | .ret _ (.answer rv) => rv
    | _ => false

def sets (history : List (Event Thread Op Res)) : ℕ :=
  history.countP fun event => match event with
    | .call _ .set => true
    | _ => false

/-- An operation that may still make the Boolean true, or a success that has
not been returned yet. -/
def owes : Status Op Res → Bool
  | .called .set => true
  | .acted (.answer rv) => rv
  | _ => false

private theorem acts_owes {op : Op} {res : Res} (effect : Acts false v op res v') :
    v'.toNat + (owes (.acted res)).toNat ≤ v.toNat + (owes (.called op)).toNat := by
  cases effect <;> simp [owes]

private theorem answers_le [Fintype Thread] {a b : AtomicState Thread Op Res Bool}
    {history : List (Event Thread Op Res)} (run : AtomicRun (Acts false) a history b) :
    answers history ≤ sets history + a.value.toNat + headcount owes a.status := by
  induction run with
  | nil => exact Nat.zero_le _
  | @call a _ thread op rest idle _ ih =>
    have moved := headcount_update owes a.status thread (.called op)
    have quiet : owes (a.status thread) = false := by rw [idle]; rfl
    have heard : answers (.call thread op :: rest) = answers rest := rfl
    have asked : sets (.call thread op :: rest) = sets rest + (owes (.called op)).toNat := by
      rw [sets, List.countP_cons]
      cases op <;> rfl
    rw [quiet] at moved
    simp only [Bool.toNat_false] at moved ih
    omega
  | @act a _ thread op res value rest called effect _ ih =>
    have moved := headcount_update owes a.status thread (.acted res)
    have paid := acts_owes effect
    rw [called] at moved
    simp only at ih
    omega
  | @ret a _ thread res rest acted _ ih =>
    have moved := headcount_update owes a.status thread .idle
    have heard : answers (.ret thread res :: rest) = answers rest + (owes (.acted res)).toNat := by
      rw [answers, List.countP_cons]
      cases res with
      | done => rfl
      | answer rv => cases rv <;> rfl
    have asked : sets (.ret thread res :: rest) = sets rest := rfl
    have quiet : owes .idle = false := rfl
    rw [acted, quiet] at moved
    simp only [Bool.toNat_false] at moved ih
    omega

private theorem set_of_true {happened : List (Op × Res)}
    (run : Sequential (Acts manual) v happened v')
    (off : v = false) (on : v' = true) : (.set, .done) ∈ happened := by
  induction run with
  | nil => cases off.symm.trans on
  | cons effect _ ih =>
    cases effect with
    | set => exact .head _
    | reset | waitFalse => exact .tail _ (ih rfl on)
    | waitTrue => cases off

private theorem set_between {before between after : List (Op × Res)}
    (run : Sequential (Acts false) v (before ++ (.wait, .answer true) :: (between ++
      (.wait, .answer true) :: after)) v') : (.set, .done) ∈ between := by
  obtain ⟨_, _, first⟩ := run.append_inv
  cases first with
  | cons took later =>
    obtain ⟨_, within, second⟩ := later.append_inv
    cases second with
    | cons takes _ =>
      cases took
      cases takes
      exact set_of_true within rfl rfl

/-- The event is an atomic Boolean. For an auto-reset event no `Set` is good
for two successful `Wait` calls. -/
theorem refines_boolean [Fintype Thread] {actions : List (Action Thread)}
    (succeeds : ∀ action ∈ actions, action.fails = false)
    (ran : exec step (fresh manual v) actions = some last) :
    Linearizable (Acts manual) v (trace step observe (fresh manual v) actions) ∧
    Sequential (Acts manual) v (trace step instant (fresh manual v) actions) last.state ∧
    (manual = false → answers (trace step observe (fresh manual v) actions) ≤
      sets (trace step observe (fresh manual v) actions) + v.toNat) ∧
    (manual = false → ∀ before between after, trace step instant (fresh manual v) actions =
      before ++ (.wait, .answer true) :: (between ++ (.wait, .answer true) :: after) →
      (.set, .done) ∈ between) := by
  have atomic := linearizable_boolean succeeds ran
  have happened := sequential succeeds ran
  refine ⟨atomic, happened, ?_, ?_⟩
  · rintro rfl
    obtain ⟨_, run⟩ := atomic
    have idle : headcount owes (fun _ : Thread => Status.idle) = 0 :=
      headcount_eq_zero_iff.mpr fun _ => rfl
    have bound := answers_le run
    simp only [idle] at bound
    exact bound
  · rintro rfl before between after split
    exact set_between (split ▸ happened)

def oneSetRun : List (Action (Fin 3)) :=
  .call 0 (.wait .infinite) :: List.replicate 3 (.run 0) ++
    .call 1 (.wait ⟨20000000⟩) :: List.replicate 3 (.run 1) ++
    .call 2 .set :: [.run 2, .run 2, .notify 2 [0], .run 2, .run 2] ++
    .expire 1 :: List.replicate 5 (.run 1) ++ List.replicate 2 (.run 0)

theorem refines_oneSetRun : answers (trace step observe (fresh false false) oneSetRun) ≤ 1 := by
  obtain ⟨last, ran⟩ := Option.isSome_iff_exists.mp
    (show (exec step (fresh false false) oneSetRun).isSome = true by decide)
  have counted := (refines_boolean (by decide) ran).2.2.1 rfl
  have once : sets (trace step observe (fresh false false) oneSetRun) = 1 := by decide
  rw [once] at counted
  exact counted

end Prot.Lock.Event
