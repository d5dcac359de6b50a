import Prot.System.PoolThreadLayers
import Prot.System.ThreadData

/-! What a cancelled worker leaves behind: a mutex that it owned stays locked,
and in `pthread_cond_wait` of `sig_in` it takes that mutex before it exits. -/

namespace Prot.System.PoolThread.Layers

open Concurrency Time Lock

variable {Arg : Type} {s s' : State Arg} {action : Action Arg} {k : ℕ}

/-- No worker that has terminated owns the mutex of an event. -/
def Unowned (s : State Arg) : Prop :=
  ∀ k, terminated (s.thread.place k) = true → ∀ side, (s.sig side).mutex ≠ some (.worker k)

/-- No `Kill` that returned `True` has left such a mutex. -/
def Unpoisoned (s : State Arg) : Prop := 0 < s.kills → Unowned s

/-- A cancellation is acted on outside `pthread_cond_wait` and between no lock
and unlock of an event's mutex. -/
def CleanDeath (s : State Arg) : Action Arg → Prop
  | .thread (.cancel k) => ∀ side, ((s.sig side).pc (.worker k)).holds = false
  | .cancelWait _ => False
  | _ => True

/-- What a step inside the `Thread` does to the places of its threads. -/
inductive Placed (t t' : Thread.State Unit Unit) (action : Thread.Action Unit Unit) : Prop where
  | same (place : t'.place = t.place) (born : t'.born = t.born)
  | starts (place : t'.place = Function.update t.place t.born .setSpecific)
      (born : t'.born = t.born + 1)
  | moves (k : ℕ) (q : Thread.Place Unit) (place : t'.place = Function.update t.place k q)
      (born : t'.born = t.born) (there : t.place k ≠ .unborn)
      (stays : terminated (t.place k) = true → terminated q = true)
      (ends : terminated q = true → terminated (t.place k) = true ∨ action = .cancel k ∨
        action = .thread k ∧ inFunc (t.place k) = true)

variable {t t' : Thread.State Unit Unit} {inner : Thread.Action Unit Unit}

private theorem threadNext_placed (taken : t.threadNext k = some t') : Placed t t' (.thread k) := by
  cases here : t.place k <;> simp only [Thread.State.threadNext, here] at taken
  case unborn | ended => cases taken
  case exitLock =>
    obtain ⟨mutex, _, rfl⟩ := Option.map_eq_some_iff.mp taken
    exact .moves k _ rfl rfl (by rw [here]; rintro ⟨⟩) (fun _ => rfl)
      (fun _ => .inl (by rw [here]; rfl))
  case running =>
    cases taken
    exact .moves k _ rfl rfl (by rw [here]; rintro ⟨⟩) (fun _ => rfl)
      (fun _ => .inr (.inr ⟨rfl, by rw [here]; rfl⟩))
  case exitUnlock shouldFree =>
    cases taken
    refine .moves k _ rfl rfl (by rw [here]; rintro ⟨⟩) (fun _ => ?_)
      (fun _ => .inl (by rw [here]; rfl))
    cases shouldFree <;> rfl
  case setSpecific | setCancelType | readFunc | readArgs =>
    cases taken
    exact .moves k _ rfl rfl (by rw [here]; rintro ⟨⟩)
      (fun late => by rw [here] at late; cases late)
      (by rintro ⟨⟩)
  all_goals
    cases taken
    exact .moves k _ rfl rfl (by rw [here]; rintro ⟨⟩) (fun _ => rfl)
      (fun _ => .inl (by rw [here]; rfl))

private theorem next_placed (taken : t.next () = some t') : Placed t t' inner := by
  obtain ⟨p, _, _, life⟩ := Thread.next_moves taken
  generalize t.pc () = here at life
  cases life with
  | create _ _ place born => exact .starts place born
  | free _ place born => exact .same place born
  | early _ _ _ frame => exact .same frame.place frame.born
  | mark _ frame | test _ frame | unlock _ frame => exact .same frame.place frame.born

theorem step_placed (taken : Thread.step t inner = some t') : Placed t t' inner := by
  cases inner with
  | run caller => exact next_placed taken
  | thread k => exact threadNext_placed taken
  | cancel k =>
    simp only [Thread.step] at taken
    split at taken
    · rename_i cancelled
      cases taken
      refine .moves k .exitLock rfl rfl ?_ (fun _ => rfl) (fun _ => .inr (.inl rfl))
      intro unborn
      rw [unborn] at cancelled
      cases cancelled.2
    · cases taken
  | elsewhere =>
    cases taken
    exact .same rfl rfl
  | state caller offline =>
    simp only [Thread.step] at taken
    split at taken
    · split at taken <;> cases taken
      exact .same rfl rfl
    · cases taken
  | _ =>
    simp only [Thread.step] at taken
    split at taken <;> cases taken <;> exact .same rfl rfl

/-- A worker on its way into, inside or out of an operation of `side`. -/
structure Uses (s s' : State Arg) (k : ℕ) (side : Side) (e : Event.State Party) : Prop where
  alive : inFunc (s.thread.place k) = true
  before : (s.worker k).side = none ∨ (s.worker k).side = some side
  after : (s'.worker k).side = some side ∨ e.pc (.worker k) = .idle

/-- A step, by the layer it is taken in. -/
inductive Layered (s s' : State Arg) : Action Arg → Prop where
  | own {action : Action Arg} (clean : CleanDeath s action)
      (place : s'.thread.place = s.thread.place) (born : s'.thread.born = s.thread.born)
      (sig : s'.sig = s.sig)
      (quiet : ∀ k, s'.worker k = s.worker k ∨ (s.worker k).side = none) : Layered s s' action
  | event {action : Action Arg} (clean : CleanDeath s action) (thread : s'.thread = s.thread)
      (side : Side) (inner : Event.Action Party) (e : Event.State Party)
      (taken : Event.step (s.sig side) inner = some e)
      (sig : s'.sig = Function.update s.sig side e)
      (uses : ∀ k, inner.thread = .worker k → Uses s s' k side e)
      (others : ∀ k, inner.thread ≠ .worker k → s'.worker k = s.worker k) : Layered s s' action
  | thread (inner : Thread.Action Unit Unit) (permitted : s.permits inner = true)
      (taken : Thread.step s.thread inner = some s'.thread) (sig : s'.sig = s.sig)
      (worker : s'.worker = s.worker) : Layered s s' (.thread inner)
  | dies (k : ℕ) (e e' : Event.State Party)
      (wakes : Event.step (s.sig .sigIn) (.wake (.worker k)) = some e)
      (locks : Event.step e (.run (.worker k)) = some e')
      (taken : Thread.step s.thread (.cancel k) = some s'.thread)
      (sig : s'.sig = Function.update s.sig .sigIn e') (worker : s'.worker = s.worker) :
      Layered s s' (.cancelWait k)

/-- The owner begins an operation of an event. -/
theorem Layered.enters {side : Side} {call : Event.Call} {sig : Side → Event.State Party}
    {owner : Owner Arg} (clean : CleanDeath s action)
    (entered : s.enter side .owner call = some sig) :
    Layered s { s with sig := sig, owner := owner } action := by
  obtain ⟨e, taken, rfl⟩ := Option.map_eq_some_iff.mp entered
  exact .event clean rfl side _ e taken rfl nofun fun _ _ => rfl

/-- A worker does. -/
theorem Layered.begins {side : Side} {call : Event.Call} {sig : Side → Event.State Party}
    {worker : Worker} (clean : CleanDeath s action) (alive : inFunc (s.thread.place k) = true)
    (entered : s.enter side (.worker k) call = some sig) (outside : (s.worker k).side = none)
    (inside : worker.side = some side) :
    Layered s ({ s with sig := sig }.moveTo k worker) action := by
  obtain ⟨e, taken, rfl⟩ := Option.map_eq_some_iff.mp entered
  refine .event clean rfl side _ e taken rfl ?_ fun j other => ?_
  · rintro _ ⟨⟩
    exact ⟨alive, .inl outside, .inl (by simpa [State.moveTo] using inside)⟩
  · exact Function.update_of_ne (fun same => other (congrArg Party.worker same.symm)) ..

theorem Layered.enterThread {call : Thread.Call Unit} {owner : Owner Arg}
    (clean : CleanDeath s action) (entered : s.enterThread call owner = some s') :
    Layered s s' action := by
  obtain ⟨t, taken, rfl⟩ := Option.map_eq_some_iff.mp entered
  simp only [Thread.step] at taken
  split at taken <;> cases taken
  exact .own clean rfl rfl rfl fun _ => .inl rfl

private theorem ownerNext_layered (taken : s.ownerNext = some s') : Layered s s' .owner := by
  cases here : s.owner <;> simp only [State.ownerNext, here] at taken
  case runResetOut | runSetIn | waitOut | killSetOut =>
    obtain ⟨sig, entered, rfl⟩ := Option.map_eq_some_iff.mp taken
    exact .enters trivial entered
  case runThread | runGetId | statusThread | killThread => exact .enterThread trivial taken
  case idle | inThreadRun | inResetOut | inSetIn | inGetId | inWaitOut | inStatus | inKill |
    inKillSetOut => cases taken
  all_goals
    cases taken
    exact .own trivial rfl rfl rfl fun _ => .inl rfl

/-- A worker moves on in `pthread.cc`. -/
theorem Layered.moves {worker : Worker} (outside : (s.worker k).side = none)
    (thread : s'.thread = s.thread) (sig : s'.sig = s.sig)
    (moved : s'.worker = Function.update s.worker k worker) : Layered s s' (.worker k) := by
  refine .own trivial (by rw [thread]) (by rw [thread]) sig fun j => ?_
  by_cases same : j = k
  · exact .inr (same ▸ outside)
  · exact .inl (by rw [moved, Function.update_of_ne same])

private theorem workerNext_layered (alive : inFunc (s.thread.place k) = true)
    (taken : s.workerNext k = some s') : Layered s s' (.worker k) := by
  cases here : s.worker k <;> simp only [State.workerNext, here] at taken
  case waitIn | resetIn | setOut =>
    obtain ⟨sig, entered, rfl⟩ := Option.map_eq_some_iff.mp taken
    exact .begins trivial alive entered (by rw [here]; rfl) rfl
  case inWaitIn | inResetIn | inSetOut | returned => cases taken
  all_goals
    cases taken
    exact .moves (by rw [here]; rfl) rfl rfl rfl

private theorem eventNext_layered {side : Side} {inner : Event.Action Party}
    (taken : s.eventNext side inner = some s') : Layered s s' (.event side inner) := by
  unfold State.eventNext at taken
  split at taken
  · cases taken
  cases own : inner.thread with
  | owner =>
    rw [own] at taken
    simp only [State.ownerEvent] at taken
    split at taken
    · obtain ⟨e, moved, rfl⟩ := Option.map_eq_some_iff.mp taken
      exact .event trivial rfl side inner e moved rfl (fun k same => by cases own.symm.trans same)
        fun _ _ => rfl
    · cases taken
  | worker k =>
    rw [own] at taken
    simp only [State.workerEvent] at taken
    split at taken
    · rename_i inside
      obtain ⟨e, moved, rfl⟩ := Option.map_eq_some_iff.mp taken
      refine .event trivial rfl side inner e moved rfl (fun j same => ?_) fun j other => ?_
      · cases own.symm.trans same
        refine ⟨inside.2, .inr inside.1, ?_⟩
        by_cases returns : e.pc (.worker k) = .idle
        · exact .inr returns
        · exact .inl (by simp [State.moveTo, returns, inside.1])
      · refine Function.update_of_ne (fun same => other ?_) ..
        rw [own, same]
    · cases taken

private theorem threadNext_layered {inner : Thread.Action Unit Unit}
    (taken : s.threadNext inner = some s') :
    Layered s s' (.thread inner) := by
  unfold State.threadNext at taken
  split at taken
  · rename_i permitted
    obtain ⟨t, moved, rfl⟩ := Option.map_eq_some_iff.mp taken
    exact .thread inner permitted moved rfl rfl
  · cases taken

private theorem cancelWait_layered (taken : s.cancelWait k = some s') :
    Layered s s' (.cancelWait k) := by
  unfold State.cancelWait at taken
  split at taken
  · obtain ⟨e, wakes, taken⟩ := Option.bind_eq_some_iff.mp taken
    obtain ⟨e', locks, taken⟩ := Option.bind_eq_some_iff.mp taken
    obtain ⟨t, dies, rfl⟩ := Option.map_eq_some_iff.mp taken
    exact .dies k e e' wakes locks dies rfl rfl
  · cases taken

theorem step_layered (taken : step s action = some s') : Layered s s' action := by
  cases action with
  | call call =>
    simp only [step] at taken
    split at taken <;> cases taken
    exact .own trivial rfl rfl rfl fun _ => .inl rfl
  | owner => exact ownerNext_layered taken
  | worker k =>
    simp only [step] at taken
    split at taken
    · exact workerNext_layered ‹_› taken
    · cases taken
  | event side inner => exact eventNext_layered taken
  | thread inner => exact threadNext_layered taken
  | cancelWait k => exact cancelWait_layered taken

/-- The mutexes are held where they should be, a worker outside an event is idle
there, and no thread has more than one life. -/
structure Invariant (s : State Arg) : Prop where
  excludes : ∀ side, Excludes (s.sig side).mutex Event.Pc.holds (s.sig side).pc
  idle : ∀ k side, terminated (s.thread.place k) = false → (s.worker k).side ≠ some side →
    (s.sig side).pc (.worker k) = .idle
  unborn : ∀ k, s.thread.born ≤ k → s.thread.place k = .unborn

theorem construct_invariant (func : Bool) (args : Arg) (clockSet : Bool) (tidMax : UInt32) :
    Invariant (construct func args clockSet tidMax) := by
  refine ⟨?_, ?_, fun _ _ => rfl⟩
  · rintro (_ | _) p <;> simp [construct, Event.fresh, Event.Pc.holds]
  · rintro k (_ | _) _ _ <;> rfl

theorem event_pc {before after : Event.State Party} {inner : Event.Action Party} {party : Party}
    (taken : Event.step before inner = some after) (other : inner.thread ≠ party) :
    after.pc party = before.pc party := by
  obtain ⟨_, p, moved, _⟩ := Event.step_effect taken
  rw [moved, Function.update_of_ne (Ne.symm other)]

private theorem inFunc_not_terminated {Arg : Type} {place : Thread.Place Arg}
    (alive : inFunc place = true) : terminated place = false := by
  cases place <;> first | rfl | cases alive

/-- No thread comes back after its exit. -/
theorem Placed.terminated (placed : Placed t t' inner)
    (unborn : ∀ k, t.born ≤ k → t.place k = .unborn) (k : ℕ)
    (alive : Layers.terminated (t'.place k) = false) : Layers.terminated (t.place k) = false := by
  rcases placed with ⟨place, _⟩ | ⟨place, _⟩ | ⟨j, q, place, _, _, stays, _⟩
  · rwa [place] at alive
  · by_cases same : k = t.born
    · rw [same, unborn _ (Nat.le_refl _)]
      rfl
    · rwa [place, Function.update_of_ne same] at alive
  · by_cases same : k = j
    · subst same
      rw [place, Function.update_self] at alive
      by_contra late
      cases alive.symm.trans (stays (by simpa using late))
    · rwa [place, Function.update_of_ne same] at alive

theorem Placed.unborn (placed : Placed t t' inner)
    (unborn : ∀ k, t.born ≤ k → t.place k = .unborn) (k : ℕ) (late : t'.born ≤ k) :
    t'.place k = .unborn := by
  rcases placed with ⟨place, born⟩ | ⟨place, born⟩ | ⟨j, q, place, born, there, _, _⟩
  · rw [place]
    exact unborn k (born ▸ late)
  · rw [born] at late
    rw [place, Function.update_of_ne (by omega)]
    exact unborn k (by omega)
  · rw [born] at late
    rw [place, Function.update_of_ne ?_]
    · exact unborn k late
    · rintro rfl
      exact there (unborn k late)

theorem cancel_place (taken : Thread.step t (.cancel k) = some t') :
    t'.place = Function.update t.place k .exitLock := by
  simp only [Thread.step] at taken
  split at taken <;> cases taken
  rfl

theorem step_invariant (inv : Invariant s) (taken : step s action = some s') : Invariant s' := by
  obtain ⟨excludes, idle, unborn⟩ := inv
  cases step_layered taken with
  | own _ place born sig quiet =>
    refine ⟨by rw [sig]; exact excludes, fun k side alive outside => ?_, by rw [place, born]; exact unborn⟩
    rw [place] at alive
    rw [sig]
    rcases quiet k with same | none
    · exact idle k side alive (same ▸ outside)
    · exact idle k side alive (by rw [none]; exact nofun)
  | event _ thread side inner e moved sig uses others =>
    refine ⟨fun side' => ?_, fun k side' alive outside => ?_, by rw [thread]; exact unborn⟩
    · rw [sig]
      by_cases same : side' = side
      · subst same
        rw [Function.update_self]
        exact Event.step_mutex (excludes _) moved
      · rw [Function.update_of_ne same]
        exact excludes side'
    · rw [thread] at alive
      rw [sig]
      by_cases own : inner.thread = .worker k
      · obtain ⟨_, before, after⟩ := uses k own
        by_cases same : side' = side
        · subst same
          rw [Function.update_self]
          exact after.resolve_left outside
        · rw [Function.update_of_ne same]
          refine idle k side' alive fun inside => ?_
          rcases before with none | there
          · cases none.symm.trans inside
          · exact same (Option.some.inj (inside.symm.trans there))
      · rw [others k own] at outside
        by_cases same : side' = side
        · subst same
          rw [Function.update_self, event_pc moved own]
          exact idle k _ alive outside
        · rw [Function.update_of_ne same]
          exact idle k side' alive outside
  | thread inner _ moved sig worker =>
    have placed := step_placed moved
    refine ⟨by rw [sig]; exact excludes, fun k side alive outside => ?_, placed.unborn unborn⟩
    rw [worker] at outside
    rw [sig]
    exact idle k side (placed.terminated unborn k alive) outside
  | dies k e e' wakes locks moved sig worker =>
    have placed := step_placed moved
    refine ⟨fun side' => ?_, fun j side' alive outside => ?_, placed.unborn unborn⟩
    · rw [sig]
      by_cases same : side' = .sigIn
      · subst same
        rw [Function.update_self]
        exact Event.step_mutex (Event.step_mutex (excludes _) wakes) locks
      · rw [Function.update_of_ne same]
        exact excludes side'
    · rw [worker] at outside
      have before := idle j side' (placed.terminated unborn j alive) outside
      have other : Party.worker k ≠ .worker j := by
        rintro ⟨⟩
        rw [cancel_place moved, Function.update_self] at alive
        cases alive
      rw [sig]
      by_cases same : side' = .sigIn
      · subst same
        rw [Function.update_self, event_pc locks other, event_pc wakes other]
        exact before
      · rw [Function.update_of_ne same]
        exact before

private theorem Invariant.unowned_iff (inv : Invariant s) : Unowned s ↔
    ∀ k, terminated (s.thread.place k) = true → ∀ side,
      ((s.sig side).pc (.worker k)).holds = false := by
  refine forall_congr' fun k => imp_congr_right fun _ => forall_congr' fun side => ?_
  have owner := inv.excludes side (.worker k)
  rw [ne_eq, ← owner, Bool.not_eq_true]

/-- A worker that is woken in `pthread_cond_wait` and goes on owns the mutex. -/
theorem relocked {before left after : Event.State Party} {party : Party}
    (wakes : Event.step before (.wake party) = some left)
    (locks : Event.step left (.run party) = some after) : after.mutex = some party := by
  simp only [Event.step] at wakes
  split at wakes
  · rename_i timed _
    cases wakes
    have blocked : ((before.leave party (.waitBlocked timed)).pc party) = .waitBlocked timed :=
      Function.update_self ..
    simp only [Event.step, Event.State.next, blocked] at locks
    split at locks
    · cases locks
    · obtain ⟨_, rfl⟩ := Event.lock_eq_some locks
      rfl
  · cases wakes

/-- What keeps the terminated workers and where they stand keeps them unowned. -/
theorem Unowned.keep (before : ∀ k, terminated (s.thread.place k) = true → ∀ side,
      ((s.sig side).pc (.worker k)).holds = false)
    (place : s'.thread.place = s.thread.place)
    (pc : ∀ k, terminated (s.thread.place k) = true → ∀ side,
      (s'.sig side).pc (.worker k) = (s.sig side).pc (.worker k)) :
    ∀ k, terminated (s'.thread.place k) = true → ∀ side,
      ((s'.sig side).pc (.worker k)).holds = false := by
  intro k ended side
  rw [place] at ended
  rw [pc k ended side]
  exact before k ended side

theorem step_unowned_iff (inv : Invariant s) (unowned : Unowned s)
    (taken : step s action = some s') : Unowned s' ↔ CleanDeath s action := by
  have inv' := step_invariant inv taken
  have before := inv.unowned_iff.mp unowned
  rw [inv'.unowned_iff]
  cases step_layered taken with
  | own clean place _ sig _ =>
    exact iff_of_true (Unowned.keep before place fun _ _ _ => by rw [sig]) clean
  | event clean thread side inner e moved sig uses _ =>
    refine iff_of_true (Unowned.keep before (by rw [thread]) fun k ended side' => ?_) clean
    have other : inner.thread ≠ .worker k := by
      intro own
      cases (inFunc_not_terminated (uses k own).alive).symm.trans ended
    rw [sig]
    by_cases same : side' = side
    · subst same
      rw [Function.update_self, event_pc moved other]
    · rw [Function.update_of_ne same]
  | thread inner permitted moved sig worker =>
    rw [sig]
    constructor
    · intro after
      cases inner with
      | cancel k =>
        refine after k ?_
        rw [cancel_place moved, Function.update_self]
        rfl
      | _ => trivial
    · intro clean k ended side
      rcases step_placed moved with ⟨place, _⟩ | ⟨place, _⟩ | ⟨j, q, place, _, _, _, ends⟩
      · exact before k (place ▸ ended) side
      · by_cases same : k = s.thread.born
        · rw [same, place, Function.update_self] at ended
          cases ended
        · rw [place, Function.update_of_ne same] at ended
          exact before k ended side
      · by_cases same : k = j
        · subst same
          rw [place, Function.update_self] at ended
          rcases ends ended with already | rfl | ⟨rfl, inside⟩
          · exact before k already side
          · exact clean side
          · have returned : s.worker k = .returned := by
              simpa [State.permits, inside] using permitted
            have idle := inv.idle k side (inFunc_not_terminated inside)
              (by rw [returned]; exact nofun)
            rw [idle]
            rfl
        · rw [place, Function.update_of_ne same] at ended
          exact before k ended side
  | dies k e e' wakes locks moved sig _ =>
    refine iff_of_false (fun after => ?_) id
    have free := after k (by rw [cancel_place moved, Function.update_self]; rfl) .sigIn
    have owner := (inv'.excludes .sigIn (.worker k)).mpr (by
      rw [sig, Function.update_self]
      exact relocked wakes locks)
    cases free.symm.trans owner

private theorem construct_unowned (func : Bool) (args : Arg) (clockSet : Bool) (tidMax : UInt32) :
    Unowned (construct func args clockSet tidMax) := by
  rintro k ⟨⟩

/-- No worker ever leaves a mutex of an event locked exactly if every
cancellation is acted on where the worker holds none and does not wait in
`pthread_cond_wait`; and then no `Kill` that returned `True` has left one. -/
theorem unpoisoned_of_cleanDeath (func : Bool) (args : Arg) (clockSet : Bool) (tidMax : UInt32)
    (actions : List (Action Arg)) :
    (Always step Unowned (construct func args clockSet tidMax) actions ↔
      Meets step CleanDeath (construct func args clockSet tidMax) actions) ∧
    (Meets step CleanDeath (construct func args clockSet tidMax) actions →
      Always step Unpoisoned (construct func args clockSet tidMax) actions) := by
  have exactly : Always step Unowned (construct func args clockSet tidMax) actions ↔
      Meets step CleanDeath (construct func args clockSet tidMax) actions :=
    always_iff_meets Invariant (fun _ _ _ => step_invariant) (fun _ _ _ => step_unowned_iff)
      (construct_invariant func args clockSet tidMax) (construct_unowned func args clockSet tidMax)
  exact ⟨exactly, fun clean => (exactly.mpr clean).imp fun _ unowned _ => unowned⟩

instance (s : State Arg) (action : Action Arg) : Decidable (CleanDeath s action) := by
  unfold CleanDeath
  split
  · rename_i k
    exact decidable_of_iff
      (((s.sig .sigIn).pc (.worker k)).holds = false ∧ ((s.sig .sigOut).pc (.worker k)).holds = false)
      ⟨fun both side => by cases side; exacts [both.1, both.2], fun all => ⟨all .sigIn, all .sigOut⟩⟩
  · infer_instance
  · infer_instance

/-- Steps of the owner inside the `Thread`. -/
def threadSteps (n : ℕ) : List (Action ℕ) := List.replicate n (.thread (.run ()))

def eventSteps (side : Side) (party : Party) (n : ℕ) : List (Action ℕ) :=
  List.replicate n (.event side (.run party))

def setSteps (side : Side) (party : Party) : List (Action ℕ) :=
  eventSteps side party 2 ++ .event side (.notify party []) :: eventSteps side party 2

def firstRun : List (Action ℕ) :=
  .call (.run 7) :: List.replicate 3 .owner ++ threadSteps 8 ++ .owner ::
    eventSteps .sigOut .owner 4 ++ List.replicate 4 .owner ++ setSteps .sigIn .owner ++ .owner ::
      threadSteps 2 ++ [.owner]

def workedRun : List (Action ℕ) :=
  List.replicate 4 (.thread (.thread 0)) ++ List.replicate 2 (.worker 0) ++
    eventSteps .sigIn (.worker 0) 6 ++ List.replicate 2 (.worker 0)

def doneRun : List (Action ℕ) :=
  List.replicate 2 (.worker 0) ++ eventSteps .sigIn (.worker 0) 4 ++
    List.replicate 3 (.worker 0) ++ setSteps .sigOut (.worker 0) ++ List.replicate 2 (.worker 0)

def heldRun : List (Action ℕ) := doneRun ++ eventSteps .sigIn (.worker 0) 3

/-- `Kill`, with this death of the worker. -/
def killedBy (death : Action ℕ) : List (Action ℕ) :=
  .call .kill :: .owner :: threadSteps 4 ++ death :: List.replicate 5 (.thread (.thread 0)) ++
    threadSteps 3 ++ List.replicate 2 .owner ++ setSteps .sigOut .owner ++ [.owner]

def secondRun : List (Action ℕ) :=
  .call (.run 8) :: List.replicate 3 .owner ++ threadSteps 12 ++ .owner ::
    eventSteps .sigOut .owner 4 ++ List.replicate 4 .owner

/-- The worker that holds is killed before it has locked the mutex of `sig_in`, and
the owner runs the next job. -/
def cleanRun : List (Action ℕ) :=
  firstRun ++ workedRun ++ doneRun ++ killedBy (.thread (.cancel 0)) ++ secondRun

set_option maxRecDepth 10000 in
theorem unpoisoned_cleanRun : ∃ s, exec step (construct true 0 true 1) cleanRun = some s ∧
    s.kills = 1 ∧ s.owner = .inSetIn ∧ (s.sig .sigIn).mutex = none ∧
      Always step Unpoisoned (construct true 0 true 1) cleanRun := by
  have ends : (exec step (construct true 0 true 1) cleanRun).map
      (fun s => (s.kills, s.owner, (s.sig .sigIn).mutex)) = some (1, .inSetIn, none) := rfl
  obtain ⟨s, ran, same⟩ := Option.map_eq_some_iff.mp ends
  simp only [Prod.mk.injEq] at same
  exact ⟨s, ran, same.1, same.2.1, same.2.2,
    (unpoisoned_of_cleanDeath true 0 true 1 cleanRun).2 (by decide)⟩

set_option maxRecDepth 10000 in
/-- A worker that waits for its next job is killed: `Kill` returns `True`, the
dead worker owns the mutex of `sig_in`, and the next `Run` blocks on it. -/
theorem holding_kill_poisons : ∃ held s,
    exec step (construct true 0 true 1) (firstRun ++ workedRun ++ heldRun) = some held ∧
      held.condWaits 0 = true ∧ exec step held (killedBy (.cancelWait 0) ++ secondRun) = some s ∧
      s.kills = 1 ∧ s.thread.place 0 = .ended ∧ (s.sig .sigIn).mutex = some (.worker 0) ∧
      s.owner = .inSetIn ∧ (step s (.event .sigIn (.run .owner))).isNone = true ∧
      ¬ Unpoisoned s := by
  have ends : ((exec step (construct true 0 true 1) (firstRun ++ workedRun ++ heldRun)).bind
      fun held => (exec step held (killedBy (.cancelWait 0) ++ secondRun)).map fun s =>
        (held.condWaits 0, s.kills, s.thread.place 0, (s.sig .sigIn).mutex, s.owner,
          (step s (.event .sigIn (.run .owner))).isNone)) =
      some (true, 1, .ended, some (.worker 0), .inSetIn, true) := rfl
  obtain ⟨held, ran, ends⟩ := Option.bind_eq_some_iff.mp ends
  obtain ⟨s, killed, same⟩ := Option.map_eq_some_iff.mp ends
  simp only [Prod.mk.injEq] at same
  obtain ⟨waits, kills, place, mutex, owner, blocked⟩ := same
  refine ⟨held, s, ran, waits, killed, kills, place, mutex, owner, blocked, fun fine => ?_⟩
  exact fine (by omega) 0 (by rw [place]; rfl) .sigIn mutex

end Prot.System.PoolThread.Layers
