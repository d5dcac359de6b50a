import Prot.System.ThreadWin32

/-! The life of `THREAD_DATA` and of the handles under one owner. The destructor
waits for `TDFLAG_STARTING` alone: a thread that has raised it has read what it
needs and does not come back to `THREAD_DATA`. -/

namespace Prot.System.ThreadWin32

open Concurrency Time

variable {Arg : Type}

def Place.past : Place Arg → Bool
  | .running _ | .ended => true
  | _ => false

def Place.early : Place Arg → Bool
  | .readFunc | .readArgs => true
  | _ => false

/-- The argument for `func` that a thread has read. -/
def Place.args : Place Arg → Option Arg
  | .readFlag a | .writeFlag a | .running a => some a
  | _ => none

def Pc.touches : Pc Arg → Bool
  | .idle | .gone | .runCreate _ => false
  | .runReturn _ | .waitReturn _ | .killReturn _ | .statusReturn _ | .getIdReturn _ => false
  | _ => true

def Place.touches : Place Arg → Bool
  | .readFunc | .readArgs | .readFlag _ | .writeFlag _ => true
  | _ => false

def touches (s : State Arg) : Action Arg → Bool
  | .call _ | .created _ | .createFails _ => false
  | .run | .waited _ | .terminated _ => s.pc.touches
  | .thread k => (s.place k).touches

def Pc.usesHandle : Pc Arg → Bool
  | .runState _ | .runClose _ | .waitSingle _ | .waitState | .killTerminate | .killClose => true
  | .statusState | .destroyClose => true
  | _ => false

def usesHandle (s : State Arg) : Action Arg → Bool
  | .run | .waited _ | .terminated _ => s.pc.usesHandle
  | _ => false

/-- Every thread has ended, and its handle is closed. -/
def World.Done (s : World Arg) : Prop := ∀ k < s.created, s.place k = .ended ∧ s.closed k = 1

/-- The `k`-th thread is the last, and its handle alone is open. -/
structure Open (s : World Arg) (k : ℕ) : Prop where
  created : s.created = k + 1
  earlier : ∀ j < k, s.place j = .ended ∧ s.closed j = 1
  closed : s.closed k = 0

/-- It has not been terminated: what it has done shows in `THREAD_DATA`. -/
structure Live (s : World Arg) (k : ℕ) : Prop extends Open s k where
  born : s.place k ≠ .unborn
  flag : (s.place k).past = s.data.starting
  early : (s.place k).early = true → s.asked k = some s.data.args

/-- There is no thread to care for. -/
structure Fresh (s : World Arg) : Prop where
  done : s.Done
  thread : s.data.thread = 0
  tid : s.data.tid = 0
  starting : s.data.starting = false

def World.Holding (s : World Arg) : Prop :=
  ∃ k, Live s k ∧ s.data.thread = k + 1 ∧ s.data.tid ≠ 0

def World.Steady (s : World Arg) : Prop := Fresh s ∨ s.Holding

/-- The last thread has ended, and its handle is still open. -/
def World.Closing (s : World Arg) : Prop :=
  ∃ k, Open s k ∧ s.data.thread = k + 1 ∧ s.place k = .ended

def World.Made (s : World Arg) (thread : ℕ) (nTid : UInt32) : Prop :=
  thread = 0 ∧ s.Done ∧ s.data.starting = false ∨ ∃ k, thread = k + 1 ∧ Live s k ∧ nTid ≠ 0

def World.Quiet (s : World Arg) : Prop := ∀ k, (s.place k).live = false

/-- Nothing is left but a thread that is in `func`, if it has not ended. -/
def World.Left (s : World Arg) : Prop :=
  (∀ k < s.created, (s.place k).past = true ∧ s.closed k = 1) ∧
    ∀ k, k + 1 < s.created → s.place k = .ended

/-- What holds by where the owner stands. -/
def World.Stage (s : World Arg) : Pc Arg → Prop
  | .runState _ | .waitSingle _ | .waitState | .killTerminate | .statusState => s.Holding
  | .destroySpin => s.Holding
  | .runClearTid _ | .killClearTid => s.Closing
  | .runClose _ | .killClose => s.Closing ∧ s.data.tid = 0
  | .runClearThread _ | .killClearThread => s.Done ∧ s.data.tid = 0
  | .runClearFlag _ | .killClearFlag => s.Done ∧ s.data.tid = 0 ∧ s.data.thread = 0
  | .runWriteArgs _ => Fresh s
  | .runCreate a => Fresh s ∧ s.data.args = a
  | .runWriteThread thread nTid => s.data.tid = 0 ∧ s.Made thread nTid
  | .runTestThread nTid => s.data.tid = 0 ∧ s.Made s.data.thread nTid
  | .runWriteTid nTid => s.data.thread ≠ 0 ∧ s.Made s.data.thread nTid
  | .waitReturn rv | .killReturn rv => s.Steady ∧ (rv = true → s.Quiet)
  | .statusReturn running => s.Steady ∧ (running = false → s.Quiet)
  | .destroyClose => s.Holding ∧ s.data.starting = true
  | .destroyFree | .gone => s.Left
  | _ => s.Steady

def Pc.freed : Pc Arg → ℕ
  | .gone => 1
  | _ => 0

/-- What holds wherever the owner stands. -/
structure Common (s : World Arg) : Prop where
  unborn : ∀ k, s.created ≤ k → s.place k = .unborn ∧ s.closed k = 0
  args : ∀ k a, (s.place k).args = some a → s.asked k = some a
  once : ∀ k, s.closed k ≤ 1

structure Life (s : State Arg) : Prop where
  common : Common s.toWorld
  freed : s.freed = s.pc.freed
  stage : s.Stage s.pc

variable {w : World Arg} {s s' : State Arg} {k j : ℕ} {a : Arg} {p q : Place Arg} {pc : Pc Arg}

theorem Life.at (life : Life s) (here : s.pc = pc) : s.Stage pc := here ▸ life.stage

theorem World.Quiet.false (quiet : w.Quiet) (moves : (w.place k).live = true) : False := by
  cases (quiet k).symm.trans moves

theorem Common.quiet_of_done (common : Common w) (done : w.Done) : w.Quiet := by
  intro k
  by_cases within : k < w.created
  · rw [(done k within).1]
    rfl
  · rw [(common.unborn k (by omega)).1]
    rfl

theorem Common.quiet_of_open (common : Common w) (last : Open w k)
    (ended : (w.place k).live = false) : w.Quiet := by
  intro j
  rcases Nat.lt_trichotomy j k with before | rfl | after
  · rw [(last.earlier j before).1]
    rfl
  · exact ended
  · rw [(common.unborn j (by rw [last.created]; omega)).1]
    rfl

theorem Common.write (common : Common w) (data : Data Arg) : Common { w with data := data } :=
  ⟨common.unborn, common.args, common.once⟩

theorem Open.write (last : Open w k) (data : Data Arg) : Open { w with data := data } k :=
  ⟨last.created, last.earlier, last.closed⟩

/-- A write that leaves `args` and `flag` as they are. -/
theorem Live.write (live : Live w k) {data : Data Arg} (args : data.args = w.data.args)
    (starting : data.starting = w.data.starting) : Live { w with data := data } k :=
  ⟨live.toOpen.write data, live.born, live.flag.trans starting.symm,
    fun early => (live.early early).trans (congrArg some args.symm)⟩

theorem World.Steady.thread_eq_zero (steady : w.Steady) (none_ : w.data.thread = 0) : Fresh w := by
  rcases steady with fresh | ⟨k, _, thread, _⟩
  · exact fresh
  · omega

theorem World.Steady.holding (steady : w.Steady) (some_ : w.data.thread ≠ 0) : w.Holding := by
  rcases steady with fresh | holding
  · exact absurd fresh.thread some_
  · exact holding

private theorem World.Steady.of_tid (steady : w.Steady) :
    if w.data.tid ≠ 0 then w.Holding else Fresh w := by
  split
  · rename_i some_
    rcases steady with fresh | holding
    · exact absurd fresh.tid some_
    · exact holding
  · rename_i none_
    rcases steady with fresh | ⟨_, _, _, tid⟩
    · exact fresh
    · exact absurd tid none_

theorem Live.active (live : Live w k) (thread : w.data.thread = k + 1) :
    w.active w.data.thread = (w.place k).live := by
  rw [thread]
  simp [World.active, live.closed]

theorem Live.ended (live : Live w k) (dead : (w.place k).live = false) : w.place k = .ended := by
  have born := live.born
  cases here : w.place k with
  | unborn => exact absurd here born
  | ended => rfl
  | _ =>
    rw [here] at dead
    cases dead

/-- The last thread has been found to have ended. -/
theorem World.Holding.quiet (common : Common w) (holding : w.Holding)
    (inactive : w.active w.data.thread = false) : w.Quiet := by
  obtain ⟨k, live, thread, _⟩ := holding
  exact common.quiet_of_open live.toOpen ((live.active thread).symm.trans inactive)

theorem World.Holding.closing (holding : w.Holding) (inactive : w.active w.data.thread = false) :
    w.Closing := by
  obtain ⟨k, live, thread, _⟩ := holding
  exact ⟨k, live.toOpen, thread, live.ended ((live.active thread).symm.trans inactive)⟩

/-- Closing the handle of the last thread closes all. -/
theorem close_last (last : Open w k) (thread : w.data.thread = k + 1) :
    ∀ j < w.created, (j = k ∨ w.place j = .ended) ∧
      (if w.data.thread = j + 1 then w.closed j + 1 else w.closed j) = 1 := by
  intro j within
  rcases Nat.lt_or_eq_of_le (Nat.lt_succ_iff.mp (last.created ▸ within)) with before | rfl
  · obtain ⟨ended, closed⟩ := last.earlier j before
    rw [if_neg (by omega)]
    exact ⟨.inr ended, closed⟩
  · rw [if_pos thread, last.closed]
    exact ⟨.inl rfl, rfl⟩

/-- The handle of the last thread is the only one that is closed. -/
theorem close_common {pc : Pc Arg} (common : Common s.toWorld) (last : Open s.toWorld k)
    (thread : s.data.thread = k + 1) : Common (s.close pc).toWorld := by
  refine ⟨fun j outside => ?_, common.args, fun j => ?_⟩
  · obtain ⟨unborn, unclosed⟩ := common.unborn j outside
    have later : s.data.thread ≠ j + 1 := by
      have := last.created
      change s.created ≤ j at outside
      omega
    exact ⟨unborn, (if_neg later).trans unclosed⟩
  · change (if s.data.thread = j + 1 then s.closed j + 1 else s.closed j) ≤ 1
    split
    · have same : j = k := by omega
      have unclosed : s.closed k = 0 := last.closed
      rw [same, unclosed]
    · exact common.once j

private theorem next_life (life : Life s) (taken : s.next = some s') : Life s' := by
  obtain ⟨common, freed, stage⟩ := life
  cases here : s.pc <;> simp only [State.next, here] at taken <;> rw [here] at freed stage
  case idle | gone | runCreate | waitSingle | killTerminate => cases taken
  case runReturn | getIdReturn | runReadTid | getIdRead =>
    cases taken
    exact ⟨common, freed, stage⟩
  case waitReturn | killReturn | statusReturn =>
    cases taken
    exact ⟨common, freed, stage.1⟩
  case runTestFunc a =>
    cases taken
    split <;> exact ⟨common, freed, stage⟩
  case runTestTid a =>
    cases taken
    have known := World.Steady.of_tid stage
    split at known
    · rename_i some_
      rw [if_pos some_]
      exact ⟨common, freed, known⟩
    · rename_i none_
      rw [if_neg none_]
      exact ⟨common, freed, known⟩
  case runState a =>
    cases taken
    cases active : s.active s.data.thread with
    | true => exact ⟨common, freed, .inr stage⟩
    | false => exact ⟨common, freed, World.Holding.closing stage active⟩
  case runClearTid a | killClearTid =>
    cases taken
    obtain ⟨k, last, thread, ended⟩ := stage
    exact ⟨common.write _, freed, ⟨k, last.write _, thread, ended⟩, rfl⟩
  case runClose a | killClose =>
    cases taken
    obtain ⟨⟨k, last, thread, ended⟩, tid⟩ := stage
    refine ⟨close_common common last thread, freed, fun j within => ?_, tid⟩
    obtain ⟨rfl | dead, closed⟩ := close_last last thread j within
    · exact ⟨ended, closed⟩
    · exact ⟨dead, closed⟩
  case runClearThread a | killClearThread =>
    cases taken
    exact ⟨common.write _, freed, stage.1, stage.2, rfl⟩
  case runClearFlag a =>
    cases taken
    exact ⟨common.write _, freed, stage.1, stage.2.2, stage.2.1, rfl⟩
  case killClearFlag =>
    cases taken
    exact ⟨common.write _, freed, .inl ⟨stage.1, stage.2.2, stage.2.1, rfl⟩,
      fun _ => common.quiet_of_done stage.1⟩
  case runWriteArgs a =>
    cases taken
    exact ⟨common.write _, freed, ⟨stage.done, stage.thread, stage.tid, stage.starting⟩, rfl⟩
  case runWriteThread thread nTid =>
    cases taken
    obtain ⟨tid, made⟩ := stage
    refine ⟨common.write _, freed, tid, ?_⟩
    rcases made with none_ | ⟨k, some_, live, id⟩
    · exact .inl none_
    · exact .inr ⟨k, some_, live.write rfl rfl, id⟩
  case runTestThread nTid =>
    cases taken
    obtain ⟨tid, made⟩ := stage
    by_cases some_ : s.data.thread ≠ 0
    · rw [if_pos some_]
      exact ⟨common, freed, some_, made⟩
    · rw [if_neg some_]
      rcases made with ⟨none_, done, starting⟩ | ⟨k, held, _⟩
      · exact ⟨common, freed, .inl ⟨done, none_, tid, starting⟩⟩
      · exact absurd (by omega) some_
  case runWriteTid nTid =>
    cases taken
    obtain ⟨some_, ⟨none_, _⟩ | ⟨k, held, live, id⟩⟩ := stage
    · exact absurd none_ some_
    · exact ⟨common.write _, freed, .inr ⟨k, live.write rfl rfl, held, id⟩⟩
  case waitTest t =>
    cases taken
    by_cases some_ : s.data.thread ≠ 0
    · rw [if_pos some_]
      exact ⟨common, freed, World.Steady.holding stage some_⟩
    · rw [if_neg some_]
      have fresh := World.Steady.thread_eq_zero stage (not_not.mp some_)
      exact ⟨common, freed, .inl fresh, fun _ => common.quiet_of_done fresh.done⟩
  case waitState =>
    cases taken
    refine ⟨common, freed, .inr stage, fun dead => ?_⟩
    have inactive : s.active s.data.thread = false := by simpa using dead
    exact World.Holding.quiet common stage inactive
  case killTest =>
    cases taken
    by_cases some_ : s.data.thread ≠ 0
    · rw [if_pos some_]
      exact ⟨common, freed, World.Steady.holding stage some_⟩
    · rw [if_neg some_]
      exact ⟨common, freed, stage, fun dead => by cases dead⟩
  case statusTest =>
    cases taken
    by_cases some_ : s.data.thread ≠ 0
    · rw [if_pos some_]
      exact ⟨common, freed, World.Steady.holding stage some_⟩
    · rw [if_neg some_]
      have fresh := World.Steady.thread_eq_zero stage (not_not.mp some_)
      exact ⟨common, freed, .inl fresh, fun _ => common.quiet_of_done fresh.done⟩
  case statusState =>
    cases taken
    exact ⟨common, freed, .inr stage, World.Holding.quiet common stage⟩
  case destroyTest =>
    cases taken
    by_cases some_ : s.data.thread ≠ 0
    · rw [if_pos some_]
      exact ⟨common, freed, World.Steady.holding stage some_⟩
    · rw [if_neg some_]
      have fresh := World.Steady.thread_eq_zero stage (not_not.mp some_)
      refine ⟨common, freed, fun k within => ?_, fun k within =>
        (fresh.done k (Nat.lt_of_succ_lt within)).1⟩
      obtain ⟨ended, closed⟩ := fresh.done k within
      exact ⟨congrArg Place.past ended, closed⟩
  case destroySpin =>
    cases taken
    cases starting : s.data.starting with
    | true => exact ⟨common, freed, stage, starting⟩
    | false => exact ⟨common, freed, stage⟩
  case destroyClose =>
    cases taken
    obtain ⟨⟨k, live, thread, _⟩, starting⟩ := stage
    have created : s.created = k + 1 := live.created
    have earlier : ∀ j, j + 1 < s.created → s.place j = .ended := fun j within =>
      (live.earlier j (by omega)).1
    refine ⟨close_common common live.toOpen thread, freed, fun j within => ?_, earlier⟩
    obtain ⟨rfl | dead, closed⟩ := close_last live.toOpen thread j within
    · exact ⟨live.flag.trans starting, closed⟩
    · exact ⟨congrArg Place.past dead, closed⟩
  case destroyFree =>
    cases taken
    exact ⟨⟨common.unborn, common.args, common.once⟩, congrArg (· + 1) freed, stage⟩

private theorem created_life (life : Life s) (here : s.pc = .runCreate a) {nTid : UInt32}
    (id : nTid ≠ 0) :
    Life { s with
      created := s.created + 1
      place := Function.update s.place s.created .readFunc
      asked := Function.update s.asked s.created (some a)
      pc := .runWriteThread (s.created + 1) nTid } := by
  obtain ⟨fresh, args⟩ := life.at here
  have freed := life.freed
  rw [here] at freed
  obtain ⟨unborn, known, once⟩ := life.common
  refine ⟨⟨fun k outside => ?_, fun k b has => ?_, once⟩, freed, fresh.tid, .inr ⟨s.created, rfl, ⟨⟨rfl,
    fun j before => ?_, (unborn s.created (Nat.le_refl _)).2⟩, ?_, ?_, fun _ => ?_⟩, id⟩⟩
  · have later : k ≠ s.created := by
      rintro rfl
      exact absurd outside (Nat.not_succ_le_self _)
    change Function.update s.place s.created .readFunc k = .unborn ∧ s.closed k = 0
    rw [Function.update_of_ne later]
    exact unborn k (Nat.le_of_succ_le outside)
  · change (Function.update s.place s.created .readFunc k).args = some b at has
    change Function.update s.asked s.created (some a) k = some b
    by_cases this : k = s.created
    · subst this
      rw [Function.update_self] at has
      cases has
    · rw [Function.update_of_ne this] at has ⊢
      exact known k b has
  · change Function.update s.place s.created .readFunc j = .ended ∧ s.closed j = 1
    rw [Function.update_of_ne (Nat.ne_of_lt before)]
    exact fresh.done j before
  · change Function.update s.place s.created .readFunc s.created ≠ .unborn
    rw [Function.update_self]
    exact fun same => by cases same
  · change (Function.update s.place s.created Place.readFunc s.created).past = s.data.starting
    rw [Function.update_self, fresh.starting]
    rfl
  · change Function.update s.asked s.created (some a) s.created = some s.data.args
    rw [Function.update_self, args]

private theorem waited_life (life : Life s) {t : TimeUnit} (here : s.pc = .waitSingle t)
    {status : Status}
    (taken : s.waited status = some s') : Life s' := by
  have holding : s.Holding := life.at here
  have freed := life.freed
  rw [here] at freed
  cases status with
  | object0 =>
    simp only [State.waited] at taken
    split at taken
    · cases taken
    · rename_i dead
      cases taken
      refine ⟨life.common, freed, .inr holding, fun _ => ?_⟩
      exact World.Holding.quiet life.common holding (Bool.not_eq_true _ ▸ dead)
  | timeout =>
    simp only [State.waited] at taken
    split at taken
    · cases taken
      exact ⟨life.common, freed, .inr holding, fun dead => by cases dead⟩
    · cases taken
  | failed =>
    cases taken
    exact ⟨life.common, freed, holding⟩

private theorem terminated_life (life : Life s) (here : s.pc = .killTerminate) (rv : Bool) :
    Life (s.terminated rv) := by
  have holding : s.Holding := life.at here
  have freed := life.freed
  rw [here] at freed
  cases rv with
  | false => exact ⟨life.common, freed, .inr holding, fun dead => by cases dead⟩
  | true =>
    obtain ⟨k, live, thread, _⟩ := holding
    have created : s.created = k + 1 := live.created
    refine ⟨⟨fun j outside => ?_, fun j b has => ?_, life.common.once⟩, freed, k, ⟨live.created,
      fun j before => ?_,
      live.closed⟩, thread, if_pos thread⟩
    · obtain ⟨unborn, unclosed⟩ := life.common.unborn j outside
      change s.created ≤ j at outside
      refine ⟨(if_neg ?_).trans unborn, unclosed⟩
      omega
    · by_cases this : s.data.thread = j + 1
      · rw [show (s.terminated true).place j = .ended from if_pos this] at has
        cases has
      · rw [show (s.terminated true).place j = s.place j from if_neg this] at has
        exact life.common.args j b has
    · obtain ⟨ended, closed⟩ := live.earlier j before
      refine ⟨(if_neg ?_).trans ended, closed⟩
      omega

structure Runs (s s' : State Arg) (k : ℕ) (q : Place Arg) : Prop where
  pc : s'.pc = s.pc
  created : s'.created = s.created
  closed : s'.closed = s.closed
  freed : s'.freed = s.freed
  asked : s'.asked = s.asked
  place : s'.place = Function.update s.place k q
  data : s'.data = { s.data with starting := s'.data.starting }
  live : (s.place k).live = true
  born : q ≠ .unborn
  flag : (s.place k).past = s.data.starting → q.past = s'.data.starting
  kept : (s.place k).past = true → q.past = true ∧ s'.data.starting = s.data.starting
  early : q.early = true → (s.place k).early = true
  args : ∀ a, q.args = some a →
    (s.place k).args = some a ∨ (s.place k).early = true ∧ a = s.data.args

theorem threadNext_runs (taken : s.threadNext k = some s') : ∃ q, Runs s s' k q := by
  cases here : s.place k <;> simp only [State.threadNext, here] at taken
  case unborn | ended => cases taken
  all_goals
    cases taken
    refine ⟨_, rfl, rfl, rfl, rfl, rfl, rfl, rfl, ?_, ?_, ?_, ?_, ?_, ?_⟩ <;>
      simp [here, Place.live, Place.past, Place.early, Place.args, State.move]

/-- The thread that can take a step is the last. -/
theorem Live.unique (common : Common w) (live : Live w k) (moves : (w.place j).live = true) :
    j = k := by
  rcases Nat.lt_trichotomy j k with before | same | after
  · rw [(live.earlier j before).1] at moves
    cases moves
  · exact same
  · rw [(common.unborn j (by rw [live.created]; omega)).1] at moves
    cases moves

section Threads

variable (runs : Runs s s' k q)
include runs

theorem Runs.fields : s'.data.tid = s.data.tid ∧ s'.data.thread = s.data.thread ∧
    s'.data.args = s.data.args := by
  rw [runs.data]
  exact ⟨rfl, rfl, rfl⟩

theorem Runs.not_quiet (quiet : s.Quiet) : False := quiet.false runs.live

theorem Runs.keeps (live : Live s.toWorld k) : Live s'.toWorld k := by
  have same : s'.place k = q := by rw [runs.place, Function.update_self]
  refine ⟨⟨runs.created.trans live.created, fun j before => ?_, ?_⟩, ?_, ?_, fun early => ?_⟩
  · rw [runs.place, runs.closed, Function.update_of_ne (Nat.ne_of_lt before)]
    exact live.earlier j before
  · rw [runs.closed]
    exact live.closed
  · rw [same]
    exact runs.born
  · rw [same]
    exact runs.flag live.flag
  · rw [same] at early
    rw [runs.asked, runs.fields.2.2]
    exact live.early (runs.early early)

theorem Runs.holding (common : Common s.toWorld) (holding : s.Holding) : s'.Holding := by
  obtain ⟨j, live, thread, tid⟩ := holding
  obtain rfl := live.unique common runs.live
  obtain ⟨sameTid, sameThread, _⟩ := runs.fields
  exact ⟨k, runs.keeps live, sameThread.trans thread, by rwa [sameTid]⟩

theorem Runs.steady (common : Common s.toWorld) (steady : s.Steady) : s'.Steady := by
  rcases steady with fresh | holding
  · exact (runs.not_quiet (common.quiet_of_done fresh.done)).elim
  · exact .inr (runs.holding common holding)

theorem Runs.made (common : Common s.toWorld) {thread : ℕ} {nTid : UInt32}
    (made : s.Made thread nTid) : s'.Made thread nTid := by
  rcases made with ⟨_, done, _⟩ | ⟨j, same, live, id⟩
  · exact (runs.not_quiet (common.quiet_of_done done)).elim
  · obtain rfl := live.unique common runs.live
    exact .inr ⟨k, same, runs.keeps live, id⟩

theorem Runs.left (left : s.Left) : s'.Left := by
  obtain ⟨all, earlier⟩ := left
  refine ⟨fun j within => ?_, fun j within => ?_⟩ <;> rw [runs.created] at within <;> rw [runs.place]
  · obtain ⟨past, closed⟩ := all j within
    refine ⟨?_, by rwa [runs.closed]⟩
    by_cases this : j = k
    · subst this
      rw [Function.update_self]
      exact (runs.kept past).1
    · rwa [Function.update_of_ne this]
  · have ended := earlier j within
    have other : j ≠ k := by
      rintro rfl
      have live := runs.live
      rw [ended] at live
      cases live
    rwa [Function.update_of_ne other]

/-- A thread changes nothing that the owner goes by. -/
theorem Runs.stage (common : Common s.toWorld) (stage : s.Stage pc) : s'.Stage pc := by
  obtain ⟨tid, thread, args⟩ := runs.fields
  cases pc with
  | runState | waitSingle | waitState | killTerminate | statusState | destroySpin =>
    exact runs.holding common stage
  | runClearTid | killClearTid =>
    obtain ⟨j, last, _, ended⟩ := stage
    exact (runs.not_quiet (common.quiet_of_open last (by rw [ended]; rfl))).elim
  | runClose | killClose =>
    obtain ⟨⟨j, last, _, ended⟩, _⟩ := stage
    exact (runs.not_quiet (common.quiet_of_open last (by rw [ended]; rfl))).elim
  | runClearThread | killClearThread | runClearFlag | killClearFlag =>
    exact (runs.not_quiet (common.quiet_of_done stage.1)).elim
  | runWriteArgs => exact (runs.not_quiet (common.quiet_of_done stage.done)).elim
  | runCreate => exact (runs.not_quiet (common.quiet_of_done stage.1.done)).elim
  | runWriteThread => exact ⟨tid.trans stage.1, runs.made common stage.2⟩
  | runTestThread nTid =>
    refine ⟨tid.trans stage.1, ?_⟩
    rw [thread]
    exact runs.made common stage.2
  | runWriteTid nTid =>
    change s'.data.thread ≠ 0 ∧ s'.Made s'.data.thread nTid
    rw [thread]
    exact ⟨stage.1, runs.made common stage.2⟩
  | waitReturn | killReturn | statusReturn =>
    exact ⟨runs.steady common stage.1, fun rv => (runs.not_quiet (stage.2 rv)).elim⟩
  | destroyClose =>
    obtain ⟨holding, starting⟩ := stage
    refine ⟨runs.holding common holding, ?_⟩
    obtain ⟨j, live, _⟩ := holding
    obtain rfl := live.unique common runs.live
    exact (runs.kept (live.flag.trans starting)).2.trans starting
  | destroyFree | gone => exact runs.left stage
  | _ => exact runs.steady common stage

end Threads

section Last

variable (common : Common w) (moves : (w.place k).live = true)
include common moves

theorem World.Holding.last (holding : w.Holding) : Live w k := by
  obtain ⟨j, live, _⟩ := holding
  exact live.unique common moves ▸ live

theorem World.Steady.last (steady : w.Steady) : Live w k := by
  rcases steady with fresh | holding
  · exact ((common.quiet_of_done fresh.done).false moves).elim
  · exact holding.last common moves

theorem World.Made.last {thread : ℕ} {nTid : UInt32} (made : w.Made thread nTid) : Live w k := by
  rcases made with ⟨_, done, _⟩ | ⟨j, _, live, _⟩
  · exact ((common.quiet_of_done done).false moves).elim
  · exact live.unique common moves ▸ live

/-- A thread that can take a step is the last, or nothing but such threads is left. -/
theorem stage_last (stage : w.Stage pc) : Live w k ∨ w.Left := by
  have closing (closing : w.Closing) : False := by
    obtain ⟨j, last, _, ended⟩ := closing
    exact (common.quiet_of_open last (by rw [ended]; rfl)).false moves
  cases pc with
  | runState | waitSingle | waitState | killTerminate | statusState | destroySpin =>
    exact .inl (World.Holding.last common moves stage)
  | runClearTid | killClearTid => exact (closing stage).elim
  | runClose | killClose => exact (closing stage.1).elim
  | runClearThread | killClearThread | runClearFlag | killClearFlag =>
    exact ((common.quiet_of_done stage.1).false moves).elim
  | runWriteArgs => exact ((common.quiet_of_done stage.done).false moves).elim
  | runCreate => exact ((common.quiet_of_done stage.1.done).false moves).elim
  | runWriteThread | runTestThread | runWriteTid =>
    exact .inl (World.Made.last common moves stage.2)
  | waitReturn | killReturn | statusReturn => exact .inl (World.Steady.last common moves stage.1)
  | destroyClose => exact .inl (World.Holding.last common moves stage.1)
  | destroyFree | gone => exact .inr stage
  | _ => exact .inl (World.Steady.last common moves stage)

end Last

/-- A thread that has not yet read its argument finds it in `THREAD_DATA`. -/
theorem Life.early (life : Life s) (moves : (s.place k).live = true)
    (early : (s.place k).early = true) : s.asked k = some s.data.args := by
  rcases stage_last life.common moves life.stage with live | left
  · exact live.early early
  · by_cases within : k < s.created
    · have past := (left.1 k within).1
      cases here : s.place k <;> rw [here] at past early <;> 
        first | (cases past; done) | cases early
    · rw [(life.common.unborn k (by omega)).1] at moves
      cases moves

private theorem thread_life (life : Life s) (taken : s.threadNext k = some s') : Life s' := by
  obtain ⟨q, runs⟩ := threadNext_runs taken
  refine ⟨⟨fun j outside => ?_, fun j a has => ?_, ?_⟩, ?_, ?_⟩
  · rw [runs.created] at outside
    obtain ⟨unborn, unclosed⟩ := life.common.unborn j outside
    rw [runs.place, runs.closed]
    by_cases this : j = k
    · subst this
      have live := runs.live
      rw [unborn] at live
      cases live
    · rw [Function.update_of_ne this]
      exact ⟨unborn, unclosed⟩
  · rw [runs.place] at has
    rw [runs.asked]
    by_cases this : j = k
    · subst this
      rw [Function.update_self] at has
      rcases runs.args a has with already | ⟨early, rfl⟩
      · exact life.common.args j a already
      · exact life.early runs.live early
    · rw [Function.update_of_ne this] at has
      exact life.common.args j a has
  · rw [runs.closed]
    exact life.common.once
  · rw [runs.freed, runs.pc]
    exact life.freed
  · rw [runs.pc]
    exact runs.stage life.common life.stage

theorem construct_life (func : Bool) (args : Arg) : Life (construct func args) := by
  refine ⟨⟨fun k _ => ⟨rfl, rfl⟩, fun k a has => (by cases has),
    fun k => Nat.zero_le 1⟩, rfl, .inl ⟨fun k within => ?_, rfl,
    rfl, rfl⟩⟩
  exact absurd within (Nat.not_lt_zero k)

theorem step_life {action : Action Arg} (life : Life s) (taken : step s action = some s') :
    Life s' := by
  cases action with
  | run => exact next_life life taken
  | thread k => exact thread_life life taken
  | call call =>
    simp only [step] at taken
    split at taken
    · rename_i here
      cases taken
      have freed := life.freed
      have stage : s.Steady := life.at here
      rw [here] at freed
      cases call <;> exact ⟨life.common, freed, stage⟩
    · cases taken
  | created nTid =>
    simp only [step] at taken
    split at taken
    · rename_i a here
      split at taken
      · cases taken
      · rename_i id
        cases taken
        exact created_life life here id
    · cases taken
  | createFails nTid =>
    simp only [step] at taken
    split at taken
    · rename_i a here
      cases taken
      have freed := life.freed
      obtain ⟨fresh, _⟩ : Fresh s.toWorld ∧ s.data.args = a := life.at here
      rw [here] at freed
      exact ⟨life.common, freed, fresh.tid, .inl ⟨rfl, fresh.done, fresh.starting⟩⟩
    · cases taken
  | waited status =>
    simp only [step] at taken
    split at taken
    · rename_i t here
      exact waited_life life here taken
    · cases taken
  | terminated rv =>
    simp only [step] at taken
    split at taken
    · rename_i here
      cases taken
      exact terminated_life life here rv
    · cases taken

/-- A handle that is passed to the system is open. -/
theorem Life.handle (life : Life s) (uses : s.pc.usesHandle = true) :
    ∃ k, s.data.thread = k + 1 ∧ s.closed k = 0 := by
  have stage := life.stage
  cases here : s.pc <;> rw [here] at uses stage
  case runState | waitSingle | waitState | killTerminate | statusState =>
    obtain ⟨k, live, thread, _⟩ := stage
    exact ⟨k, thread, live.closed⟩
  case runClose | killClose =>
    obtain ⟨⟨k, last, thread, _⟩, _⟩ := stage
    exact ⟨k, thread, last.closed⟩
  case destroyClose =>
    obtain ⟨⟨k, live, thread, _⟩, _⟩ := stage
    exact ⟨k, thread, live.closed⟩
  all_goals cases uses

/-- When the memory has been freed nobody is left to access it. -/
theorem Life.untouched {action : Action Arg} (life : Life s) (touching : touches s action = true) :
    s.freed = 0 := by
  have freed := life.freed
  by_cases dead : s.pc = .gone
  · exfalso
    have left : s.Left := life.at dead
    cases action with
    | call | created | createFails => cases touching
    | run | waited | terminated =>
      simp only [touches, dead] at touching
      cases touching
    | thread k =>
      change (s.place k).touches = true at touching
      by_cases within : k < s.created
      · have past := (left.1 k within).1
        cases here : s.place k <;> rw [here] at past touching <;>
          first | (cases past; done) | cases touching
      · rw [(life.common.unborn k (by omega)).1] at touching
        cases touching
  · rw [freed]
    cases here : s.pc with
    | gone => exact absurd here dead
    | _ => rfl

/-- No more than one thread of the object can take steps. -/
theorem Life.alone (life : Life s) (first : (s.place j).live = true)
    (second : (s.place k).live = true) : j = k := by
  rcases stage_last life.common second life.stage with live | left
  · exact live.unique life.common first
  · have last : ∀ i, (s.place i).live = true → i + 1 = s.created := by
      intro i live
      by_contra other
      by_cases within : i < s.created
      · rw [left.2 i (by omega)] at live
        cases live
      · rw [(life.common.unborn i (by omega)).1] at live
        cases live
    have := last j first
    have := last k second
    omega

/-- What a run makes of `THREAD_DATA`, the handles and the threads. -/
structure Clean (start : State Arg) (actions : List (Action Arg)) (last : State Arg) : Prop where
  untouched : Meets step (fun s action => touches s action = true → s.freed = 0) start actions
  handles : Meets step (fun s action => usesHandle s action = true →
    ∃ k, s.data.thread = k + 1 ∧ s.closed k = 0) start actions
  once : last.freed ≤ 1 ∧ ∀ k, last.closed k ≤ 1
  gone : last.pc = .gone → last.freed = 1 ∧ ∀ k < last.created, last.closed k = 1
  alone : ∀ j k, (last.place j).live = true → (last.place k).live = true → j = k
  args : ∀ k a, last.place k = .running a → last.asked k = some a
  truthful : last.pc = .waitReturn true ∨ last.pc = .killReturn true ∨
    last.pc = .statusReturn false → last.Quiet
  spins : last.pc = .destroySpin → last.data.starting = true ∨
    ∃ k s', (last.place k).past = false ∧ step last (.thread k) = some s'

private theorem Life.truthful (life : Life s) (returns : s.pc = .waitReturn true ∨
    s.pc = .killReturn true ∨ s.pc = .statusReturn false) : s.Quiet := by
  rcases returns with here | here | here
  · exact (life.at here).2 rfl
  · exact (life.at here).2 rfl
  · exact (life.at here).2 rfl

/-- While the destructor waits for the flag, there is a thread that has to raise it. -/
theorem Life.spins (life : Life s) (here : s.pc = .destroySpin) : s.data.starting = true ∨
    ∃ k s', (s.place k).past = false ∧ step s (.thread k) = some s' := by
  obtain ⟨k, live, _⟩ := life.at here
  cases starting : s.data.starting with
  | true => exact .inl rfl
  | false =>
    have waiting : (s.place k).past = false := live.flag.trans starting
    refine .inr ⟨k, ?_⟩
    have born : s.place k ≠ .unborn := live.born
    cases at_ : s.place k <;> rw [at_] at waiting born
    case unborn => exact absurd rfl born
    case running | ended => cases waiting
    all_goals exact ⟨_, rfl, by rw [step, State.threadNext, at_]⟩

/-- Whatever the owner does with a `Thread`, its memory is freed once and not used
after, every handle is closed once and not used after, and every thread runs alone
and on the argument of its own `Run`. -/
theorem thread_clean {func : Bool} {args : Arg} {actions : List (Action Arg)} {last : State Arg}
    (ran : exec step (construct func args) actions = some last) :
    Clean (construct func args) actions last := by
  have initially : Life (construct func args) := construct_life func args
  have life : Life last := exec_invariant Life (fun _ _ _ => step_life) initially ran
  have free : Meets step (fun _ _ => True) (construct func args) actions :=
    Meets.of_forall fun _ _ => trivial
  refine ⟨?_, ?_, ⟨?_, life.common.once⟩, fun gone => ⟨?_, fun k within => ?_⟩,
    fun j k => life.alone, fun k a runs => life.common.args k a (by rw [runs]; rfl), life.truthful,
    life.spins⟩
  · exact Meets.of_invariant Life (fun _ _ _ life _ taken => step_life life taken)
      (fun _ _ _ life _ _ touching => life.untouched touching) initially free
  · refine Meets.of_invariant Life (fun _ _ _ life _ taken => step_life life taken) ?_ initially free
    intro s action s' life _ _ uses
    cases action with
    | run | waited | terminated => exact life.handle uses
    | call | created | createFails | thread => cases uses
  · rw [life.freed]
    cases last.pc <;> first | exact Nat.le_refl 1 | exact Nat.zero_le 1
  · rw [life.freed, gone]
    rfl
  · have left : last.Left := life.at gone
    exact (left.1 k within).2

/-- The owner kills its first thread, runs a second one and leaves it in `func`. -/
def killedRun : List (Action ℕ) :=
  .call (.run 7) :: List.replicate 3 .run ++ [.created 5] ++ List.replicate 5 .run ++
    .thread 0 :: .call .kill :: [.run, .terminated true] ++ List.replicate 5 .run ++
    .call (.run 8) :: List.replicate 3 .run ++ [.created 6] ++ List.replicate 5 .run ++
    .call .destroy :: [.run, .run] ++ List.replicate 4 (.thread 1) ++ List.replicate 3 .run

theorem thread_clean_killedRun : ∃ last, exec step (construct true 0) killedRun = some last ∧
    last.pc = .gone ∧ last.place 1 = .running 8 ∧ Clean (construct true 0) killedRun last := by
  have ends : (exec step (construct true 0) killedRun).map (fun s => (s.pc, s.place 1)) =
      some (.gone, .running 8) := by decide
  obtain ⟨last, ran, same⟩ := Option.map_eq_some_iff.mp ends
  simp only [Prod.mk.injEq] at same
  exact ⟨last, ran, same.1, same.2, thread_clean ran⟩

end Prot.System.ThreadWin32
