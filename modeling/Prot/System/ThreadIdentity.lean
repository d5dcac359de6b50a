import Prot.System.ThreadFailure

/-! `ThisThread::GetID` in the started threads, against what `Run` returns to
the owner who started them. -/

namespace Prot.System.Thread

open Concurrency Time

/-- The `Thread` and what has been learnt of ids: the thread that the `Run`
under way has started, the id taken for each thread, the ids that `Run` has
returned for them, and those that `ThisThread::GetID` has returned in them. -/
structure Identity (Caller Arg : Type) where
  state : State Caller Arg
  making : Option ℕ
  drawn : ℕ → UInt32
  returned : List (ℕ × UInt32)
  seen : List (ℕ × UInt32)

variable {Caller Arg : Type} [DecidableEq Caller]

/-- What a step of a caller that stands here adds to the history. -/
def Identity.learn (h : Identity Caller Arg) (s : State Caller Arg) :
    Pc Arg → Identity Caller Arg
  | .runCreate tid => { h with
      state := s, making := some h.state.born, drawn := Function.update h.drawn h.state.born tid }
  | .runReturn id => { h with
      state := s, making := none
      returned := (h.making.toList.map fun k => (k, id)) ++ h.returned }
  | _ => { h with state := s }

def Identity.step (h : Identity Caller Arg) (action : Action Caller Arg) :
    Option (Identity Caller Arg) :=
  (Thread.step h.state action).map fun s => match action with
    | .run caller => h.learn s (h.state.pc caller)
    | .getId k => { h with state := s, seen := (k, h.state.data.tid) :: h.seen }
    | _ => { h with state := s }

def Identity.construct (func : Bool) (args : Arg) (clockSet : Bool) (tidMax : UInt32) :
    Identity Caller Arg :=
  ⟨Thread.construct func args clockSet tidMax, none, fun _ => 0, [], []⟩

/-- Each id a thread has seen is not 0, and is what `Run` returns for the thread. -/
def SeesOwnId (h : Identity Caller Arg) : Prop :=
  ∀ k v, (k, v) ∈ h.seen → v ≠ 0 ∧ ∀ id, (k, id) ∈ h.returned → v = id

/-- Only the owner calls `Run`, and never takes the id 0. -/
def Owned (owner : Caller) (h : Identity Caller Arg) : Action Caller Arg → Prop
  | .call caller (.run _) => caller = owner
  | .run caller => h.state.pc caller = .runNextTid → h.state.tidMax ≠ 0
  | _ => True

/-- Between `pthread_create` and the write of the id. -/
def Pc.publishes : Pc Arg → Bool
  | .runWriteTid _ => true
  | _ => false

/-- No thread asks for its id while the owner has not written it. -/
def Published (owner : Caller) (h : Identity Caller Arg) : Action Caller Arg → Prop
  | .getId _ => (h.state.pc owner).publishes = false
  | _ => True

def Place.alive : Place Arg → Bool
  | .setSpecific | .setCancelType | .readFunc | .readArgs | .running _ | .exitLock
  | .exitMark => true
  | _ => false

structure View where
  tid : UInt32
  hasExit : Bool
  alive : ℕ → Bool
  born : ℕ
  making : Option ℕ
  drawn : ℕ → UInt32

def Identity.view (h : Identity Caller Arg) : View where
  tid := h.state.data.tid
  hasExit := h.state.data.flag.hasExit
  alive k := (h.state.place k).alive
  born := h.state.born
  making := h.making
  drawn := h.drawn

/-- No thread, no id, no mark of an exit. -/
structure Blank (v : View) : Prop where
  tid : v.tid = 0
  hasExit : v.hasExit = false
  dead : ∀ k, v.alive k = false

/-- There is an id, and the thread that lives will see its own. -/
structure Named (v : View) : Prop where
  tid : v.tid ≠ 0
  alive : ∀ k, v.alive k = true → v.tid = v.drawn k

/-- What the owner's place goes with. -/
def Stage (v : View) : Pc Arg → Prop
  | .runTestExit _ => v.making = none ∧ Named v
  | .runClearTid _ => v.making = none ∧ v.hasExit = true
  | .runClearThread _ | .runClearFlag _ => v.making = none ∧ v.hasExit = true ∧ v.tid = 0
  | .runWriteArgs _ | .runNextTid => v.making = none ∧ Blank v
  | .runCreate tid => v.making = none ∧ Blank v ∧ tid ≠ 0
  | .runWriteTid tid => v.tid = 0 ∧ ∃ k, v.making = some k ∧ k + 1 = v.born ∧ v.drawn k = tid
  | .runReadTid => v.making = none ∧ Blank v ∨
    Named v ∧ ∃ k, v.making = some k ∧ v.drawn k = v.tid
  | .runReturn id => (Blank v ∨ Named v) ∧ ∀ k, v.making = some k → v.drawn k = id
  | _ => v.making = none ∧ (Blank v ∨ Named v)

/-- One thread lives at a time, and each has an id of its own. -/
structure View.Sound (v : View) : Prop where
  last : ∀ k, v.alive k = true → k + 1 = v.born ∧ v.hasExit = false
  drawn : ∀ k, k < v.born → v.drawn k ≠ 0
  making : ∀ k, v.making = some k → k < v.born

inductive Turn : View → Pc Arg → View → Pc Arg → Prop where
  | away {v : View} {p q : Pc Arg} (before : p.inRun = false) (after : q.inRun = false) :
      Turn v p v q
  | enters {v : View} {a : Arg} : Turn v .idle v (.runTestFunc a)
  | func {v : View} {a : Arg} : Turn v (.runTestFunc a) v (.runTestTid a)
  | noFunc {v : View} {a : Arg} : Turn v (.runTestFunc a) v (.runReturn 0)
  | hasTid {v : View} {a : Arg} (tid : v.tid ≠ 0) : Turn v (.runTestTid a) v (.runTestExit a)
  | noTid {v : View} {a : Arg} (tid : v.tid = 0) : Turn v (.runTestTid a) v (.runWriteArgs a)
  | exited {v : View} {a : Arg} (exit : v.hasExit = true) :
      Turn v (.runTestExit a) v (.runClearTid a)
  | refused {v : View} {a : Arg} : Turn v (.runTestExit a) v (.runReturn 0)
  | clearTid {v : View} {a : Arg} :
      Turn v (.runClearTid a) { v with tid := 0 } (.runClearThread a)
  | clearThread {v : View} {a : Arg} : Turn v (.runClearThread a) v (.runClearFlag a)
  | clearFlag {v : View} {a : Arg} :
      Turn v (.runClearFlag a) { v with hasExit := false } (.runWriteArgs a)
  | writeArgs {v : View} {a : Arg} : Turn v (.runWriteArgs a) v .runNextTid
  | nextTid {v : View} {tid : UInt32} (some : tid ≠ 0) : Turn v .runNextTid v (.runCreate tid)
  | create {v : View} {tid : UInt32} : Turn v (.runCreate tid)
      { v with
        alive := Function.update v.alive v.born true, born := v.born + 1, making := some v.born
        drawn := Function.update v.drawn v.born tid } (.runWriteTid tid)
  | fails {v : View} {tid : UInt32} : Turn v (.runCreate tid) v .runReadTid
  | writeTid {v : View} {tid : UInt32} : Turn v (.runWriteTid tid) { v with tid := tid } .runReadTid
  | readTid {v : View} : Turn v .runReadTid v (.runReturn v.tid)
  | returns {v : View} {id : UInt32} : Turn v (.runReturn id) { v with making := none } .idle

section Views

variable {v v' : View} {p q : Pc Arg}

omit [DecidableEq Caller] in
theorem Stage.away (outside : p.inRun = false) :
    Stage v p ↔ v.making = none ∧ (Blank v ∨ Named v) := by
  cases p <;> first | exact Iff.rfl | cases outside

/-- After an exit nothing lives. -/
theorem View.Sound.dead (sound : v.Sound) (exit : v.hasExit = true) (k : ℕ) :
    v.alive k = false := by
  cases alive : v.alive k with
  | false => rfl
  | true =>
    rw [(sound.last k alive).2] at exit
    cases exit

theorem Turn.stage (turn : Turn v p v' q) (sound : v.Sound) (stage : Stage v p) :
    Stage v' q := by
  cases turn with
  | away before after => exact (Stage.away after).mpr ((Stage.away before).mp stage)
  | enters | func => exact stage
  | noFunc =>
    refine ⟨stage.2, fun k made => ?_⟩
    rw [stage.1] at made
    cases made
  | hasTid tid =>
    obtain ⟨made, blank | named⟩ := stage
    · exact absurd blank.tid tid
    · exact ⟨made, named⟩
  | noTid tid =>
    obtain ⟨made, blank | named⟩ := stage
    · exact ⟨made, blank⟩
    · exact absurd tid named.tid
  | exited exit => exact ⟨stage.1, exit⟩
  | refused =>
    refine ⟨.inr stage.2, fun k made => ?_⟩
    rw [stage.1] at made
    cases made
  | clearTid => exact ⟨stage.1, stage.2, rfl⟩
  | clearThread | writeArgs => exact stage
  | clearFlag =>
    obtain ⟨made, exit, tid⟩ := stage
    exact ⟨made, tid, rfl, sound.dead exit⟩
  | nextTid some => exact ⟨stage.1, stage.2, some⟩
  | create =>
    obtain ⟨_, blank, _⟩ := stage
    exact ⟨blank.tid, v.born, rfl, rfl, Function.update_self ..⟩
  | fails => exact .inl ⟨stage.1, stage.2.1⟩
  | writeTid =>
    obtain ⟨_, k, made, latest, rfl⟩ := stage
    have nonzero := sound.drawn k (by omega)
    refine .inr ⟨⟨nonzero, fun j alive => ?_⟩, k, made, rfl⟩
    have last := (sound.last j alive).1
    obtain rfl : j = k := by omega
    rfl
  | readTid =>
    rcases stage with ⟨made, blank⟩ | ⟨named, k, made, same⟩
    · refine ⟨.inl blank, fun k made' => ?_⟩
      rw [made] at made'
      cases made'
    · refine ⟨.inr named, fun j made' => ?_⟩
      cases made.symm.trans made'
      exact same
  | returns =>
    obtain ⟨blank | named, _⟩ := stage
    · exact ⟨rfl, .inl ⟨blank.tid, blank.hasExit, blank.dead⟩⟩
    · exact ⟨rfl, .inr ⟨named.tid, named.alive⟩⟩

theorem Turn.sound (turn : Turn v p v' q) (sound : v.Sound) (stage : Stage v p) : v'.Sound := by
  cases turn with
  | clearTid | writeTid => exact ⟨sound.last, sound.drawn, sound.making⟩
  | clearFlag =>
    refine ⟨fun k alive => ⟨(sound.last k alive).1, rfl⟩, sound.drawn, sound.making⟩
  | returns => exact ⟨sound.last, sound.drawn, nofun⟩
  | create =>
    obtain ⟨_, blank, nonzero⟩ := stage
    refine ⟨fun k alive => ?_, fun k old => ?_, fun k made => ?_⟩
    · by_cases new : k = v.born
      · exact ⟨congrArg (· + 1) new, blank.hasExit⟩
      · simp only [Function.update_of_ne new, blank.dead k] at alive
        cases alive
    · by_cases new : k = v.born
      · subst new
        simpa using nonzero
      · simp only [Function.update_of_ne new]
        exact sound.drawn k (by simp at old; omega)
    · cases made
      exact Nat.lt_succ_self _
  | _ => exact sound

/-- A started thread does nothing that matters, or it marks its exit. -/
inductive Passes : View → View → Prop where
  | stays {v : View} : Passes v v
  | exits {v : View} {k : ℕ} (alive : v.alive k = true) :
      Passes v { v with alive := Function.update v.alive k false, hasExit := true }

theorem Passes.stage (passes : Passes v v') (sound : v.Sound) (stage : Stage v p) :
    Stage v' p := by
  cases passes with
  | stays => exact stage
  | @exits k alive =>
    have running := (sound.last k alive).2
    have blank (none : Blank v) : False := by
      rw [none.dead k] at alive
      cases alive
    have named (some : Named v) :
        Named { v with alive := Function.update v.alive k false, hasExit := true } := by
      refine ⟨some.tid, fun j alive => some.alive j ?_⟩
      by_cases same : j = k
      · simp [same] at alive
      · simpa [same] using alive
    cases p with
    | runTestExit => exact ⟨stage.1, named stage.2⟩
    | runClearTid => exact ⟨stage.1, rfl⟩
    | runClearThread | runClearFlag => exact ⟨stage.1, rfl, stage.2.2⟩
    | runWriteArgs | runNextTid => exact (blank stage.2).elim
    | runCreate => exact (blank stage.2.1).elim
    | runWriteTid => exact stage
    | runReadTid => exact .inr ((stage.resolve_left fun none => blank none.2).imp_left named)
    | runReturn => exact ⟨.inr (named (stage.1.resolve_left blank)), stage.2⟩
    | _ => exact ⟨stage.1, .inr (named (stage.2.resolve_left blank))⟩

theorem Passes.sound (passes : Passes v v') (sound : v.Sound) : v'.Sound := by
  cases passes with
  | stays => exact sound
  | @exits k alive =>
    refine ⟨fun j living => ?_, sound.drawn, sound.making⟩
    -- the last thread was the only one
    have first := (sound.last k alive).1
    by_cases same : j = k
    · simp [same] at living
    · have second := (sound.last j (by simpa [same] using living)).1
      exact absurd (Nat.add_right_cancel (second.trans first.symm)) same

end Views

variable {s s' : State Caller Arg} {h h' : Identity Caller Arg} {caller owner : Caller}
variable {action : Action Caller Arg} {p q : Pc Arg}

omit [DecidableEq Caller] in
theorem alive_update (place : ℕ → Place Arg) (k : ℕ) (p : Place Arg) :
    (fun j => (Function.update place k p j).alive) =
      Function.update (fun j => (place j).alive) k p.alive := by
  funext j
  simp only [Function.update_apply]
  split <;> rfl

/-- What a caller outside `Run` leaves alone. -/
structure Still (s s' : State Caller Arg) : Prop where
  tid : s'.data.tid = s.data.tid
  hasExit : s'.data.flag.hasExit = s.data.flag.hasExit
  place : s'.place = s.place
  born : s'.born = s.born

private theorem lock_still (taken : s.lock caller q = some s') :
    s'.pc = Function.update s.pc caller q ∧ Still s s' := by
  obtain ⟨_, rfl⟩ := lock_eq_some taken
  exact ⟨rfl, rfl, rfl, rfl, rfl⟩

private theorem next_still (outside : (s.pc caller).inRun = false)
    (taken : s.next caller = some s') :
    ∃ q, s'.pc = Function.update s.pc caller q ∧ q.inRun = false ∧ Still s s' := by
  cases here : s.pc caller <;> rw [here] at outside <;> simp only [State.next, here] at taken
  case idle | gone | waitState => cases taken
  case waitLock | killLock | relock | destroyLock =>
    obtain ⟨pc, still⟩ := lock_still taken
    exact ⟨_, pc, rfl, still⟩
  case blocked waiter =>
    split at taken
    · cases taken
    · obtain ⟨pc, still⟩ := lock_still taken
      exact ⟨_, pc, by cases waiter <;> rfl, still⟩
  case waitJudge ret => cases ret <;> cases taken <;> exact ⟨_, rfl, rfl, rfl, rfl, rfl, rfl⟩
  case waitTest t =>
    cases taken
    refine ⟨_, rfl, ?_, rfl, rfl, rfl, rfl⟩
    split
    · exact waitPath_outside t
    · rfl
  case killTest | statusThread | destroyUnlock =>
    cases taken
    refine ⟨_, rfl, ?_, rfl, rfl, rfl, rfl⟩
    split <;> rfl
  case runTestFunc | runTestTid | runTestExit | runClearTid | runClearThread | runClearFlag |
      runWriteArgs | runNextTid | runCreate | runWriteTid | runReadTid | runReturn =>
    cases outside
  all_goals
    cases taken
    exact ⟨_, rfl, rfl, rfl, rfl, rfl, rfl⟩

omit [DecidableEq Caller] in
theorem Still.view (still : Still h.state s') : ({ h with state := s' } : Identity _ _).view = h.view := by
  simp [Identity.view, still.tid, still.hasExit, still.place, still.born]

omit [DecidableEq Caller] in
@[simp] theorem learn_state : (h.learn s p).state = s := by
  cases p <;> rfl

omit [DecidableEq Caller] in
@[simp] theorem learn_seen : (h.learn s p).seen = h.seen := by
  cases p <;> rfl

omit [DecidableEq Caller] in
private theorem learn_away (outside : p.inRun = false) : h.learn s p = { h with state := s } := by
  cases p <;> first | rfl | cases outside

omit [DecidableEq Caller] in
private theorem learn_create {tid : UInt32} (same : s.data.tid = h.state.data.tid)
    (exit : s.data.flag.hasExit = h.state.data.flag.hasExit) (born : s.born = h.state.born + 1)
    (place : s.place = Function.update h.state.place h.state.born .setSpecific) :
    (h.learn s (.runCreate tid)).view = { h.view with
      alive := Function.update h.view.alive h.view.born true, born := h.view.born + 1
      making := some h.view.born, drawn := Function.update h.view.drawn h.view.born tid } := by
  simp only [Identity.learn, Identity.view, same, exit, born, place, alive_update]
  rfl

private theorem next_turn (fresh : h.state.pc caller = .runNextTid → h.state.tidMax ≠ 0)
    (taken : h.state.next caller = some s') :
    ∃ q, s'.pc = Function.update h.state.pc caller q ∧
      Turn h.view (h.state.pc caller) (h.learn s' (h.state.pc caller)).view q := by
  by_cases outside : (h.state.pc caller).inRun = false
  · obtain ⟨q, pc, after, still⟩ := next_still outside taken
    refine ⟨q, pc, ?_⟩
    rw [learn_away outside, still.view]
    exact .away outside after
  · cases here : h.state.pc caller <;> simp only [State.next, here] at taken
    case runTestFunc a =>
      cases taken
      refine ⟨_, rfl, ?_⟩
      split
      · exact .func
      · exact .noFunc
    case runTestTid a =>
      cases taken
      refine ⟨_, rfl, ?_⟩
      split
      · exact .hasTid ‹_›
      · exact .noTid (Decidable.not_not.mp ‹_›)
    case runTestExit a =>
      cases taken
      refine ⟨_, rfl, ?_⟩
      split
      · exact .exited ‹_›
      · exact .refused
    case runClearTid => cases taken; exact ⟨_, rfl, .clearTid⟩
    case runClearThread => cases taken; exact ⟨_, rfl, .clearThread⟩
    case runClearFlag => cases taken; exact ⟨_, rfl, .clearFlag⟩
    case runWriteArgs => cases taken; exact ⟨_, rfl, .writeArgs⟩
    case runNextTid => cases taken; exact ⟨_, rfl, .nextTid (fresh here)⟩
    case runCreate tid =>
      cases taken
      refine ⟨_, rfl, ?_⟩
      rw [learn_create]
      · exact .create
      all_goals rfl
    case runWriteTid => cases taken; exact ⟨_, rfl, .writeTid⟩
    case runReadTid => cases taken; exact ⟨_, rfl, .readTid⟩
    case runReturn => cases taken; exact ⟨_, rfl, .returns⟩
    all_goals exact absurd (by rw [here]; rfl) outside

omit [DecidableEq Caller] in
private theorem move_view {k : ℕ} {d : Data Caller Arg} {place : Place Arg}
    (tid : d.tid = h.state.data.tid) (exit : d.flag.hasExit = h.state.data.flag.hasExit)
    (same : place.alive = (h.state.place k).alive) :
    ({ h with state := h.state.move k d place } : Identity Caller Arg).view = h.view := by
  have alive := alive_update h.state.place k place
  rw [same, Function.update_eq_self] at alive
  simp only [Identity.view, State.move, tid, exit, alive]

omit [DecidableEq Caller] in
private theorem thread_passes {k : ℕ} (taken : h.state.threadNext k = some s') :
    s'.pc = h.state.pc ∧ Passes h.view ({ h with state := s' } : Identity Caller Arg).view := by
  have stays {d : Data Caller Arg} {place : Place Arg} (tid : d.tid = h.state.data.tid)
      (exit : d.flag.hasExit = h.state.data.flag.hasExit)
      (same : place.alive = (h.state.place k).alive) : Passes h.view
        ({ h with state := h.state.move k d place } : Identity Caller Arg).view := by
    rw [move_view tid exit same]
    exact .stays
  cases here : h.state.place k <;> simp only [State.threadNext, here] at taken
  case unborn | ended => cases taken
  case exitLock =>
    obtain ⟨mutex, _, rfl⟩ := Option.map_eq_some_iff.mp taken
    exact ⟨rfl, stays rfl rfl (by rw [here]; rfl)⟩
  case exitMark =>
    cases taken
    refine ⟨rfl, ?_⟩
    have view : ({ h with state := h.state.move k { h.state.data with
        flag := { h.state.data.flag with hasExit := true } } .exitTest } : Identity Caller Arg).view =
        { h.view with alive := Function.update h.view.alive k false, hasExit := true } := by
      simp only [Identity.view, State.move, alive_update]
      rfl
    rw [view]
    exact .exits (by simp [Identity.view, here, Place.alive])
  case exitUnlock shouldFree =>
    cases taken
    exact ⟨rfl, stays rfl rfl (by rw [here]; cases shouldFree <;> rfl)⟩
  all_goals
    cases taken
    exact ⟨rfl, stays rfl rfl (by rw [here]; rfl)⟩

/-- What has been learnt of the ids of the threads so far. -/
structure Learnt (v : View) (returned seen : List (ℕ × UInt32)) : Prop where
  returned : ∀ k id, (k, id) ∈ returned → k < v.born ∧ id = v.drawn k
  seen : ∀ k id, (k, id) ∈ seen → k < v.born ∧ (id = 0 ∨ id = v.drawn k)

/-- One thread lives at a time, and what has been learnt of ids is true, but for
what was asked too early. -/
structure Known (owner : Caller) (h : Identity Caller Arg) : Prop where
  alone : ∀ c, c ≠ owner → (h.state.pc c).inRun = false
  stage : Stage h.view (h.state.pc owner)
  sound : h.view.Sound
  learnt : Learnt h.view h.returned h.seen

omit [DecidableEq Caller] in
theorem construct_known {func clockSet : Bool} {args : Arg} {tidMax : UInt32} :
    Known owner (Identity.construct func args clockSet tidMax) where
  alone := fun _ _ => rfl
  stage := ⟨rfl, .inl ⟨rfl, rfl, fun _ => rfl⟩⟩
  sound := ⟨nofun, nofun, nofun⟩
  learnt := ⟨nofun, nofun⟩

omit [DecidableEq Caller] in
/-- Past threads keep their ids. -/
theorem Learnt.keeps {v v' : View} {returned seen : List (ℕ × UInt32)}
    (learnt : Learnt v returned seen) (born : v.born ≤ v'.born)
    (drawn : ∀ k, k < v.born → v'.drawn k = v.drawn k) : Learnt v' returned seen where
  returned k id listed := by
    obtain ⟨old, same⟩ := learnt.returned k id listed
    exact ⟨Nat.lt_of_lt_of_le old born, same.trans (drawn k old).symm⟩
  seen k id listed := by
    obtain ⟨old, same⟩ := learnt.seen k id listed
    exact ⟨Nat.lt_of_lt_of_le old born, same.imp_right fun same => same.trans (drawn k old).symm⟩

omit [DecidableEq Caller] in
theorem Turn.older {v v' : View} (turn : Turn v p v' q) :
    v.born ≤ v'.born ∧ ∀ k, k < v.born → v'.drawn k = v.drawn k := by
  cases turn with
  | create => exact ⟨Nat.le_succ _, fun k old => Function.update_of_ne (Nat.ne_of_lt old) ..⟩
  | _ => exact ⟨Nat.le_refl _, fun _ _ => rfl⟩

omit [DecidableEq Caller] in
theorem Passes.older {v v' : View} (passes : Passes v v') :
    v.born ≤ v'.born ∧ ∀ k, k < v.born → v'.drawn k = v.drawn k := by
  cases passes <;> exact ⟨Nat.le_refl _, fun _ _ => rfl⟩

omit [DecidableEq Caller] in
private theorem learn_learnt (turn : Turn h.view p (h.learn s p).view q) (stage : Stage h.view p)
    (sound : h.view.Sound) (learnt : Learnt h.view h.returned h.seen) :
    Learnt (h.learn s p).view (h.learn s p).returned (h.learn s p).seen := by
  obtain ⟨born, drawn⟩ := turn.older
  have kept := learnt.keeps born drawn
  cases p with
  | runReturn id =>
    refine ⟨fun k value listed => ?_, kept.seen⟩
    rcases List.mem_append.mp listed with now | before
    · obtain ⟨j, member, same⟩ := List.mem_map.mp now
      cases same
      have made : h.view.making = some k := Option.mem_toList.mp member
      have old := sound.making k made
      exact ⟨Nat.lt_of_lt_of_le old born, ((drawn k old).trans (stage.2 k made)).symm⟩
    · exact kept.returned k value before
  | _ => exact kept

/-- Who asks while its thread lives sees its own id, or 0 if the owner has not
written it. -/
theorem Stage.sees {v : View} {k : ℕ} (stage : Stage v p) (sound : v.Sound)
    (alive : v.alive k = true) :
    v.tid = 0 ∧ p.publishes = true ∨ v.tid = v.drawn k ∧ v.tid ≠ 0 ∧ p.publishes = false := by
  have running := (sound.last k alive).2
  have notBlank (blank : Blank v) : False := by
    rw [blank.dead k] at alive
    cases alive
  have exited (exit : v.hasExit = true) : False := by
    rw [running] at exit
    cases exit
  have fine (named : Named v) (quiet : p.publishes = false) : v.tid = 0 ∧ p.publishes = true ∨
      v.tid = v.drawn k ∧ v.tid ≠ 0 ∧ p.publishes = false :=
    .inr ⟨named.alive k alive, named.tid, quiet⟩
  cases p with
  | runWriteTid => exact .inl ⟨stage.1, rfl⟩
  | runTestExit => exact fine stage.2 rfl
  | runClearTid => exact (exited stage.2).elim
  | runClearThread | runClearFlag => exact (exited stage.2.1).elim
  | runWriteArgs | runNextTid => exact (notBlank stage.2).elim
  | runCreate => exact (notBlank stage.2.1).elim
  | runReadTid => exact fine (stage.resolve_left fun none => notBlank none.2).1 rfl
  | runReturn => exact fine (stage.1.resolve_left notBlank) rfl
  | _ => exact fine (stage.2.resolve_left notBlank) rfl

theorem Known.turns (known : Known owner h)
    (pc : h'.state.pc = Function.update h.state.pc owner q)
    (turn : Turn h.view (h.state.pc owner) h'.view q)
    (learnt : Learnt h'.view h'.returned h'.seen) : Known owner h' where
  alone c other := by
    rw [pc, Function.update_of_ne other]
    exact known.alone c other
  stage := by
    rw [pc, Function.update_self]
    exact turn.stage known.sound known.stage
  sound := turn.sound known.sound known.stage
  learnt := learnt

/-- A caller outside `Run` does not disturb the owner. -/
theorem Known.aside (known : Known owner h)
    (pc : s'.pc = Function.update h.state.pc caller q)
    (before : (h.state.pc caller).inRun = false) (after : q.inRun = false)
    (view : ({ h with state := s' } : Identity Caller Arg).view = h.view) :
    Known owner { h with state := s' } := by
  refine ⟨fun c other => ?_, ?_, view ▸ known.sound, view ▸ known.learnt⟩
  · change (s'.pc c).inRun = false
    rw [pc, Function.update_apply]
    split
    · exact after
    · exact known.alone c other
  · change Stage _ (s'.pc owner)
    rw [view, pc, Function.update_apply]
    split
    · rename_i same
      subst same
      exact (Stage.away after).mpr ((Stage.away before).mp known.stage)
    · exact known.stage

omit [DecidableEq Caller] in
/-- No caller moves. -/
theorem Known.elsewhere (known : Known owner h) (pc : s'.pc = h.state.pc)
    (passes : Passes h.view ({ h with state := s' } : Identity Caller Arg).view) :
    Known owner { h with state := s' } where
  alone c other := by
    change (s'.pc c).inRun = false
    rw [pc]
    exact known.alone c other
  stage := by
    change Stage _ (s'.pc owner)
    rw [pc]
    exact passes.stage known.sound known.stage
  sound := passes.sound known.sound
  learnt := known.learnt.keeps passes.older.1 passes.older.2

theorem step_known (known : Known owner h) (owned : Owned owner h action)
    (taken : h.step action = some h') : Known owner h' := by
  obtain ⟨s', moved, rfl⟩ := Option.map_eq_some_iff.mp taken
  cases action with
  | call caller call =>
    simp only [Thread.step] at moved
    split at moved
    · rename_i here
      cases moved
      cases call with
      | run args =>
        obtain rfl : caller = owner := owned
        exact known.turns rfl (here ▸ .enters) known.learnt
      | _ => exact known.aside rfl (by rw [here]; rfl) rfl rfl
    · cases moved
  | run caller =>
    by_cases same : caller = owner
    · subst same
      obtain ⟨q, pc, turn⟩ := next_turn owned moved
      exact known.turns ((congrArg State.pc learn_state).trans pc) turn
        (learn_learnt turn known.stage known.sound known.learnt)
    · have outside := known.alone caller same
      obtain ⟨q, pc, after, still⟩ := next_still outside moved
      simp only [learn_away outside]
      exact known.aside pc outside after still.view
  | createFails caller left =>
    simp only [Thread.step] at moved
    split at moved
    · rename_i tid here
      cases moved
      obtain rfl : caller = owner := by
        by_contra other
        have outside := known.alone caller other
        rw [here] at outside
        cases outside
      exact known.turns rfl (here ▸ .fails) known.learnt
    · cases moved
  | fail caller =>
    simp only [Thread.step] at moved
    split at moved
    case h_3 => cases moved
    all_goals
      rename_i here
      cases moved
      exact known.aside rfl (by rw [here]; rfl) rfl rfl
  | expire caller | wake caller =>
    simp only [Thread.step] at moved
    split at moved
    · rename_i here
      cases moved
      exact known.aside rfl (by rw [here]; rfl) rfl rfl
    · cases moved
  | state caller offline =>
    simp only [Thread.step] at moved
    split at moved
    · rename_i here
      split at moved
      · cases moved
      · cases moved
        exact known.aside rfl (by rw [here]; rfl) rfl rfl
    · cases moved
  | thread k =>
    obtain ⟨pc, passes⟩ := thread_passes moved
    exact known.elsewhere pc passes
  | cancel k =>
    simp only [Thread.step] at moved
    split at moved
    · rename_i cancelled
      cases moved
      refine known.elsewhere rfl ?_
      rw [move_view rfl rfl]
      · exact .stays
      · cases here : h.state.place k <;> simp_all [Place.cancellable, Place.alive]
    · cases moved
  | getId k =>
    simp only [Thread.step] at moved
    split at moved
    · rename_i here
      cases moved
      have alive : h.view.alive k = true := by simp [Identity.view, here, Place.alive]
      have old : k < h.view.born := Nat.lt_of_succ_le (Nat.le_of_eq (known.sound.last k alive).1)
      refine ⟨known.alone, known.stage, known.sound, known.learnt.returned, fun j id listed => ?_⟩
      rcases List.mem_cons.mp listed with now | before
      · cases now
        rcases known.stage.sees known.sound alive with ⟨zero, _⟩ | ⟨own, _⟩
        · exact ⟨old, .inl zero⟩
        · exact ⟨old, .inr own⟩
      · exact known.learnt.seen j id before
    · cases moved
  | elsewhere =>
    cases moved
    exact known.elsewhere rfl .stays

omit [DecidableEq Caller] in
/-- Nothing false but zeros has been seen. -/
theorem Known.seesOwnId_iff (known : Known owner h) :
    SeesOwnId h ↔ ∀ k v, (k, v) ∈ h.seen → v ≠ 0 := by
  refine ⟨fun sees k v listed => (sees k v listed).1, fun nonzero k v listed => ?_⟩
  have some := nonzero k v listed
  refine ⟨some, fun id returned => ?_⟩
  have own := (known.learnt.seen k v listed).2.resolve_left some
  exact own.trans (known.learnt.returned k id returned).2.symm

theorem step_sees_iff (known : Known owner h) (owned : Owned owner h action) (sees : SeesOwnId h)
    (taken : h.step action = some h') : SeesOwnId h' ↔ Published owner h action := by
  have after := (step_known known owned taken).seesOwnId_iff
  have before := known.seesOwnId_iff.mp sees
  obtain ⟨s', moved, rfl⟩ := Option.map_eq_some_iff.mp taken
  rw [after]
  cases action with
  | getId k =>
    simp only [Thread.step] at moved
    split at moved
    · rename_i here
      cases moved
      have alive : h.view.alive k = true := by simp [Identity.view, here, Place.alive]
      constructor
      · intro nonzero
        have some : h.view.tid ≠ 0 := nonzero k h.state.data.tid List.mem_cons_self
        rcases known.stage.sees known.sound alive with ⟨zero, _⟩ | ⟨_, _, published⟩
        · exact absurd zero some
        · exact published
      · intro published j v listed
        rcases List.mem_cons.mp listed with now | earlier
        · cases now
          rcases known.stage.sees known.sound alive with ⟨_, early⟩ | ⟨_, some, _⟩
          · exact absurd (early.symm.trans published) (by decide)
          · exact some
        · exact before j v earlier
    · cases moved
  | run caller =>
    simp only [learn_seen]
    exact iff_of_true before trivial
  | _ => exact iff_of_true before trivial

/-- As long as `Run` takes no id 0, the threads see the ids that `Run` returns
exactly if none asks while the owner stands between `pthread_create` and the
write of the id. -/
theorem sees_iff_published (owner : Caller) (func clockSet : Bool) (args : Arg) (tidMax : UInt32)
    (actions : List (Action Caller Arg))
    (owned : Meets Identity.step (Owned owner) (.construct func args clockSet tidMax) actions) :
    Always Identity.step SeesOwnId (.construct func args clockSet tidMax) actions ↔
      Meets Identity.step (Published owner) (.construct func args clockSet tidMax) actions :=
  always_iff_meets_of (Known owner) (fun _ _ _ known owned => step_known known owned)
    (fun _ _ _ known owned sees => step_sees_iff known owned sees) construct_known nofun owned

instance (here : Pc Arg) : Decidable (here = .runNextTid) :=
  decidable_of_iff ((match here with | .runNextTid => true | _ => false) = true)
    (by cases here <;> simp)

instance (owner : Unit) (h : Identity Unit Arg) :
    (action : Action Unit Arg) → Decidable (Owned owner h action)
  | .call caller (.run _) => inferInstanceAs (Decidable (caller = owner))
  | .run caller => inferInstanceAs (Decidable (h.state.pc caller = .runNextTid → h.state.tidMax ≠
      0))
  | .call _ (.wait _) | .call _ .kill | .call _ .status | .call _ .getId | .call _ .destroy
  | .createFails .. | .fail _ | .expire _ | .wake _ | .state .. | .thread _ | .cancel _ | .getId _
  | .elsewhere => .isTrue trivial

instance (owner : Caller) (h : Identity Caller Arg) :
    (action : Action Caller Arg) → Decidable (Published owner h action)
  | .getId _ => inferInstanceAs (Decidable ((h.state.pc owner).publishes = false))
  | .call .. | .run _ | .createFails .. | .fail _ | .expire _ | .wake _ | .state .. | .thread _
  | .cancel _ | .elsewhere => .isTrue trivial

def startedRun : List (Action Unit ℕ) :=
  .call () (.run 7) :: List.replicate 5 (.run ()) ++ List.replicate 4 (.thread 0)

/-- The thread asks after the owner has written the id, ends, and is run again. -/
def askingRun : List (Action Unit ℕ) :=
  startedRun ++ .run () :: .getId 0 :: List.replicate 2 (.run ()) ++ .getId 0 ::
    List.replicate 6 (.thread 0) ++ .call () (.run 8) :: List.replicate 10 (.run ()) ++
      List.replicate 4 (.thread 1) ++ .getId 1 :: List.replicate 2 (.run ())

theorem sees_askingRun :
    Always Identity.step SeesOwnId (.construct true 0 true 1) askingRun :=
  (sees_iff_published () true true 0 1 askingRun (by decide)).mpr (by decide)

/-- A thread that asks at once gets 0, and `Run` returns 1. -/
theorem early_zero : ∃ h, exec Identity.step (.construct true 0 true 1)
      (startedRun ++ .getId 0 :: List.replicate 3 (.run ())) = some h ∧
    h.seen = [(0, 0)] ∧ h.returned = [(0, 1)] ∧ ¬ SeesOwnId h := by
  have ends : (exec Identity.step (.construct true 0 true 1)
      (startedRun ++ .getId 0 :: List.replicate 3 (.run ()))).map
        (fun h => (h.seen, h.returned)) = some ([(0, 0)], [(0, 1)]) := by decide
  obtain ⟨h, ran, same⟩ := Option.map_eq_some_iff.mp ends
  simp only [Prod.mk.injEq] at same
  refine ⟨h, ran, same.1, same.2, fun sees => ?_⟩
  exact (sees 0 0 (by simp [same.1])).1 rfl

end Prot.System.Thread
