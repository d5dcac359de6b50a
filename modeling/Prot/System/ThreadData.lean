import Prot.System.ThreadWait
import Mathlib.Data.Sum.Basic

/-! The life of `THREAD_DATA` under one owner: who frees it. The destructor and
the exit of a started thread look at each other's bit under `mutex`; that comes
to one `_FreeThreadData` when exactly one of them is left to do it. -/

namespace Prot.System.Thread

open Concurrency Time

/-- Inside the critical section of `mutex`. -/
def Pc.locked {Arg : Type} : Pc Arg → Bool
  | .waitTest _ | .waitClock _ | .waitJudge _ | .waitState | .waitUnlock _ | .condWait _ => true
  | .killTest | .killCancel | .killUnlock _ => true
  | .destroyMark | .destroyTest | .destroyUnlock _ => true
  | _ => false

def Place.locked {Arg : Type} : Place Arg → Bool
  | .exitMark | .exitTest | .exitBroadcast _ | .exitUnlock _ => true
  | _ => false

def Pc.detachesNext {Arg : Type} : Pc Arg → Bool
  | .destroyMark => true
  | _ => false

def Pc.detaches {Arg : Type} : Pc Arg → Bool
  | .destroyTest | .destroyUnlock _ | .destroyFree | .gone => true
  | _ => false

/-- The destructor is going to free. -/
def Pc.owes {Arg : Type} (hasExit : Bool) : Pc Arg → Bool
  | .destroyTest => hasExit
  | .destroyUnlock shouldFree => shouldFree
  | .destroyFree => true
  | _ => false

/-- The exiting thread is going to free. -/
def Place.owes {Arg : Type} (detached : Bool) : Place Arg → Bool
  | .exitTest => detached
  | .exitBroadcast shouldFree | .exitUnlock shouldFree => shouldFree
  | .exitFree => true
  | _ => false

/-- Not running: never started, or past its exit. -/
def Place.done {Arg : Type} : Place Arg → Bool
  | .unborn | .ended => true
  | _ => false

def Pc.touches {Arg : Type} : Pc Arg → Bool
  | .idle | .runNextTid | .gone => false
  | .runReturn _ | .waitReturn _ | .killReturn _ | .statusReturn _ | .getIdReturn _ => false
  | _ => true

def Place.touches {Arg : Type} : Place Arg → Bool
  | .unborn | .setSpecific | .setCancelType | .running _ | .ended => false
  | _ => true

/-- The actions that access `THREAD_DATA`. -/
def touches {Caller Arg : Type} (s : State Caller Arg) : Action Caller Arg → Bool
  | .call _ _ | .cancel _ | .elsewhere => false
  | .run caller | .createFails caller _ | .fail caller => (s.pc caller).touches
  | .expire caller | .wake caller | .state caller _ => (s.pc caller).touches
  | .thread k => (s.place k).touches
  | .getId _ => true

section Locking

variable {Caller Arg : Type} [DecidableEq Caller] {s s' : State Caller Arg}
variable {action : Action Caller Arg} {caller : Caller} {k : ℕ} {p : Pc Arg} {q : Place Arg}
variable {d : Data Caller Arg}

def State.locked (s : State Caller Arg) : Caller ⊕ ℕ → Bool :=
  Sum.elim (fun caller => (s.pc caller).locked) fun k => (s.place k).locked

/-- The holder of `mutex` is the one inside the critical section. -/
def Exclusive (s : State Caller Arg) : Prop := Excludes s.data.mutex id s.locked

private theorem locked_caller (pc : s'.pc = Function.update s.pc caller p)
    (place : ∀ k, (s'.place k).locked = (s.place k).locked) :
    s'.locked = Function.update s.locked (.inl caller) p.locked := by
  rw [State.locked, State.locked, Sum.update_elim_inl, pc]
  congr 1
  · funext c
    simp only [Function.update_apply]
    split <;> rfl
  · exact funext place

private theorem locked_thread (pc : s'.pc = s.pc) (place : s'.place = Function.update s.place k q) :
    s'.locked = Function.update s.locked (.inr k) q.locked := by
  rw [State.locked, State.locked, Sum.update_elim_inr, pc, place]
  congr 1
  funext j
  simp only [Function.update_apply]
  split <;> rfl

/-- `THREAD_DATA` is not freed, and no thread is born. -/
structure Frame (s s' : State Caller Arg) : Prop where
  place : s'.place = s.place
  born : s'.born = s.born
  freed : s'.freed = s.freed

/-- What a step of the owner does for the life of `THREAD_DATA`, by the places
before and after it. -/
inductive OwnerStep (s s' : State Caller Arg) : Pc Arg → Pc Arg → Prop where
  | early {here p : Pc Arg} (before : here.detaches = false) (after : p.detaches = false)
      (detached : s'.data.flag.detached = true → s.data.flag.detached = true)
      (frame : Frame s s') : OwnerStep s s' here p
  | create {tid : UInt32} (flag : s'.data.flag = s.data.flag) (freed : s'.freed = s.freed)
      (place : s'.place = Function.update s.place s.born .setSpecific)
      (born : s'.born = s.born + 1) : OwnerStep s s' (.runCreate tid) (.runWriteTid tid)
  | mark (flag : s'.data.flag = { s.data.flag with detached := true }) (frame : Frame s s') :
      OwnerStep s s' .destroyMark .destroyTest
  | test (flag : s'.data.flag = s.data.flag) (frame : Frame s s') :
      OwnerStep s s' .destroyTest (.destroyUnlock s.data.flag.hasExit)
  | unlock {shouldFree : Bool} (flag : s'.data.flag = s.data.flag) (frame : Frame s s') :
      OwnerStep s s' (.destroyUnlock shouldFree) (if shouldFree then .destroyFree else .gone)
  | free (flag : s'.data.flag = s.data.flag) (place : s'.place = s.place) (born : s'.born = s.born)
      (freed : s'.freed = s.freed + 1) : OwnerStep s s' .destroyFree .gone

structure Moves (s s' : State Caller Arg) (caller : Caller) (p : Pc Arg) : Prop where
  pc : s'.pc = Function.update s.pc caller p
  locks : Locks (.inl caller) s.data.mutex (s.pc caller).locked s'.data.mutex p.locked
  life : OwnerStep s s' (s.pc caller) p

theorem lock_moves (outside : (s.pc caller).locked = false) (inside : p.locked = true)
    (before : (s.pc caller).detaches = false) (after : p.detaches = false)
    (taken : s.lock caller p = some s') : Moves s s' caller p := by
  obtain ⟨free, rfl⟩ := lock_eq_some taken
  refine ⟨rfl, ?_, .early before after id ⟨rfl, rfl, rfl⟩⟩
  change Locks _ s.data.mutex _ (some (Sum.inl caller)) _
  rw [free, outside, inside]
  exact .enter

theorem unlock_moves (inside : (s.pc caller).locked = true) (outside : p.locked = false)
    (life : OwnerStep s (s.unlock caller p) (s.pc caller) p) :
    Moves s (s.unlock caller p) caller p := by
  refine ⟨rfl, ?_, life⟩
  change Locks _ _ _ none _
  rw [inside, outside]
  exact .leave

theorem goto_moves (same : p.locked = (s.pc caller).locked)
    (before : (s.pc caller).detaches = false) (after : p.detaches = false) :
    Moves s (s.goto caller p) caller p := by
  refine ⟨rfl, ?_, .early before after id ⟨rfl, rfl, rfl⟩⟩
  rw [same]
  exact .stay

theorem next_moves (taken : s.next caller = some s') : ∃ p, Moves s s' caller p := by
  cases here : s.pc caller <;> simp only [State.next, here] at taken
  case idle | gone | waitState => cases taken
  case waitLock | killLock | relock | destroyLock =>
    exact ⟨_, lock_moves (by rw [here]; rfl) rfl (by rw [here]; rfl) rfl taken⟩
  case blocked waiter =>
    split at taken
    · cases taken
    · refine ⟨_, lock_moves (by rw [here]; rfl) ?_ (by rw [here]; rfl) ?_ taken⟩ <;>
        cases waiter <;> rfl
  case waitUnlock | killUnlock =>
    cases taken
    exact ⟨_, unlock_moves (by rw [here]; rfl) rfl
      (.early (by rw [here]; rfl) rfl id ⟨rfl, rfl, rfl⟩)⟩
  case condWait waiter => 
    cases taken
    refine ⟨.blocked waiter, rfl, ?_, .early (by rw [here]; rfl) rfl id ⟨rfl, rfl, rfl⟩⟩
    rw [here]
    exact .leave
  case runTestFunc | runTestTid | runTestExit | statusThread =>
    cases taken
    refine ⟨_, goto_moves ?_ (by rw [here]; rfl) ?_⟩ <;> split <;> first | rfl | (rw [here]; rfl)
  case waitTest t =>
    cases taken
    have path : ((if s.data.online then waitPath t else .waitUnlock true) : Pc Arg).locked = true ∧
        ((if s.data.online then waitPath t else .waitUnlock true) : Pc Arg).detaches = false := by
      split
      · rcases @waitPath_cases Arg t with path | path | path <;> rw [path] <;> exact ⟨rfl, rfl⟩
      · exact ⟨rfl, rfl⟩
    exact ⟨_, goto_moves (by rw [here]; exact path.1) (by rw [here]; rfl) path.2⟩
  case killTest =>
    cases taken
    refine ⟨_, goto_moves ?_ (by rw [here]; rfl) ?_⟩ <;> split <;> first | rfl | (rw [here]; rfl)
  case waitJudge ret =>
    cases ret <;> cases taken <;> exact ⟨_, goto_moves (by rw [here]; rfl) (by rw [here]; rfl) rfl⟩
  case runClearTid | runClearThread | runWriteArgs | runWriteTid | runNextTid | killCancel =>
    cases taken
    refine ⟨_, rfl, ?_, .early (by rw [here]; rfl) rfl id ⟨rfl, rfl, rfl⟩⟩
    rw [here]
    exact .stay
  case runClearFlag a =>
    cases taken
    refine ⟨.runWriteArgs a, rfl, ?_, .early (by rw [here]; rfl) rfl (by rintro ⟨⟩) ⟨rfl, rfl, rfl⟩⟩
    rw [here]
    exact .stay
  case runCreate tid =>
    cases taken
    refine ⟨.runWriteTid tid, rfl, ?_, ?_⟩ <;> rw [here]
    · exact .stay
    · exact .create rfl rfl rfl rfl
  case destroyMark =>
    cases taken
    refine ⟨.destroyTest, rfl, ?_, ?_⟩ <;> rw [here]
    · exact .stay
    · exact .mark rfl ⟨rfl, rfl, rfl⟩
  case destroyTest =>
    cases taken
    refine ⟨.destroyUnlock s.data.flag.hasExit, rfl, ?_, ?_⟩ <;> rw [here]
    · exact .stay
    · exact .test rfl ⟨rfl, rfl, rfl⟩
  case destroyUnlock shouldFree =>
    cases taken
    refine ⟨_, unlock_moves (by rw [here]; rfl) (by cases shouldFree <;> rfl) ?_⟩
    rw [here]
    exact .unlock rfl ⟨rfl, rfl, rfl⟩
  case destroyFree =>
    cases taken
    refine ⟨.gone, rfl, ?_, ?_⟩ <;> rw [here]
    · exact .stay
    · exact .free rfl rfl rfl rfl
  all_goals
    cases taken
    exact ⟨_, goto_moves (by rw [here]; rfl) (by rw [here]; rfl) rfl⟩

/-- What a step of a started thread does for the life of `THREAD_DATA`, by the
places before and after it. -/
inductive ThreadStep (s s' : State Caller Arg) : Place Arg → Place Arg → Prop where
  | within {here q : Place Arg} (unmarked : here.unmarked = true) (still : q.unmarked = true)
      (flag : s'.data.flag = s.data.flag) (freed : s'.freed = s.freed) : ThreadStep s s' here q
  | mark (flag : s'.data.flag = { s.data.flag with hasExit := true }) (freed : s'.freed = s.freed) :
      ThreadStep s s' .exitMark .exitTest
  | test (flag : s'.data.flag = s.data.flag) (freed : s'.freed = s.freed) :
      ThreadStep s s' .exitTest (.exitBroadcast s.data.flag.detached)
  | broadcast {shouldFree : Bool} (flag : s'.data.flag = s.data.flag) (freed : s'.freed = s.freed) :
      ThreadStep s s' (.exitBroadcast shouldFree) (.exitUnlock shouldFree)
  | unlock {shouldFree : Bool} (flag : s'.data.flag = s.data.flag) (freed : s'.freed = s.freed) :
      ThreadStep s s' (.exitUnlock shouldFree) (if shouldFree then .exitFree else .ended)
  | free (flag : s'.data.flag = s.data.flag) (freed : s'.freed = s.freed + 1) :
      ThreadStep s s' .exitFree .ended

structure Runs (s s' : State Caller Arg) (k : ℕ) (q : Place Arg) : Prop where
  place : s'.place = Function.update s.place k q
  pc : s'.pc = s.pc
  born : s'.born = s.born
  locks : Locks (.inr k) s.data.mutex (s.place k).locked s'.data.mutex q.locked
  life : ThreadStep s s' (s.place k) q

omit [DecidableEq Caller] in
theorem threadNext_runs (taken : s.threadNext k = some s') : ∃ q, Runs s s' k q := by
  cases here : s.place k <;> simp only [State.threadNext, here] at taken
  case unborn | ended => cases taken
  case exitLock =>
    obtain ⟨mutex, locked, rfl⟩ := Option.map_eq_some_iff.mp taken
    obtain ⟨free, rfl⟩ := Mutex.lock_eq_some locked
    refine ⟨.exitMark, rfl, rfl, rfl, ?_, ?_⟩ <;> rw [here]
    · rw [free]
      exact .enter
    · exact .within rfl rfl rfl rfl
  case exitUnlock shouldFree =>
    cases taken
    refine ⟨_, rfl, rfl, rfl, ?_, ?_⟩ <;> rw [here]
    · cases shouldFree <;> exact .leave
    · exact .unlock rfl rfl
  case exitMark => 
    cases taken
    refine ⟨.exitTest, rfl, rfl, rfl, ?_, ?_⟩ <;> rw [here]
    · exact .stay
    · exact .mark rfl rfl
  case exitTest =>
    cases taken
    refine ⟨_, rfl, rfl, rfl, ?_, ?_⟩ <;> rw [here]
    · exact .stay
    · exact .test rfl rfl
  case exitBroadcast =>
    cases taken
    refine ⟨_, rfl, rfl, rfl, ?_, ?_⟩ <;> rw [here]
    · exact .stay
    · exact .broadcast rfl rfl
  case exitFree =>
    cases taken
    refine ⟨.ended, rfl, rfl, rfl, ?_, ?_⟩ <;> rw [here]
    · exact .stay
    · exact .free rfl rfl
  all_goals
    cases taken
    refine ⟨_, rfl, rfl, rfl, ?_, ?_⟩ <;> rw [here]
    · exact .stay
    · exact .within rfl rfl rfl rfl

/-- Every step is one of a caller, of a started thread, or leaves all of this alone. -/
theorem step_life (taken : step s action = some s') :
    (∃ caller p, Moves s s' caller p ∧
        (action = .run caller ∨ (s.pc caller).detachesNext = false)) ∨ (∃ k q, Runs s s' k q) ∨
      s'.pc = s.pc ∧ s'.data = s.data ∧ Frame s s' := by
  cases action with
  | call caller call =>
    left
    simp only [step] at taken
    split at taken
    · rename_i here
      cases taken
      refine ⟨caller, call.entry, goto_moves ?_ (by rw [here]; rfl) ?_, .inr (by rw [here]; rfl)⟩
      · rw [here]
        cases call <;> rfl
      · cases call <;> rfl
    · cases taken
  | run caller =>
    obtain ⟨p, moved⟩ := next_moves taken
    exact .inl ⟨caller, p, moved, .inl rfl⟩
  | createFails caller left =>
    left
    simp only [step] at taken
    split at taken
    · rename_i here
      cases taken
      refine ⟨caller, .runReadTid, ⟨rfl, ?_, .early (by rw [here]; rfl) rfl id ⟨rfl, rfl, rfl⟩⟩,
        .inr (by rw [here]; rfl)⟩
      rw [here]
      exact .stay
    · cases taken
  | fail caller =>
    left
    simp only [step] at taken
    split at taken
    · rename_i here
      cases taken
      exact ⟨caller, _, goto_moves (by rw [here]; rfl) (by rw [here]; rfl) rfl,
        .inr (by rw [here]; rfl)⟩
    · rename_i here
      cases taken
      exact ⟨caller, _, goto_moves (by rw [here]; rfl) (by rw [here]; rfl) rfl,
        .inr (by rw [here]; rfl)⟩
    · cases taken
  | expire caller | wake caller =>
    left
    simp only [step] at taken
    split at taken
    · rename_i here
      cases taken
      refine ⟨caller, _, ⟨rfl, ?_, .early (by rw [here]; rfl) rfl id ⟨rfl, rfl, rfl⟩⟩,
        .inr (by rw [here]; rfl)⟩
      rw [here]
      exact .stay
    · cases taken
  | state caller offline =>
    left
    simp only [step] at taken
    split at taken
    · rename_i here
      split at taken
      · cases taken
      · cases taken
        exact ⟨caller, _, goto_moves (by rw [here]; rfl) (by rw [here]; rfl) rfl,
          .inr (by rw [here]; rfl)⟩
    · cases taken
  | thread k => exact .inr (.inl ⟨k, threadNext_runs taken⟩)
  | cancel k =>
    right
    left
    simp only [step] at taken
    split at taken
    · rename_i pending
      cases taken
      have inside := pending.2
      have here : (s.place k).unmarked = true ∧ (s.place k).locked = false := by
        cases place : s.place k <;> rw [place] at inside <;>
          first | exact ⟨rfl, rfl⟩ | cases inside
      refine ⟨k, .exitLock, rfl, rfl, rfl, ?_, .within here.1 rfl rfl rfl⟩
      rw [here.2]
      exact .stay
    · cases taken
  | getId k =>
    right
    right
    simp only [step] at taken
    split at taken
    · cases taken
      exact ⟨rfl, rfl, rfl, rfl, rfl⟩
    · cases taken
  | elsewhere =>
    cases taken
    exact .inr (.inr ⟨rfl, rfl, rfl, rfl, rfl⟩)

theorem Moves.exclusive {p : Pc Arg} (exclusive : Exclusive s)
    (place : ∀ k, (s'.place k).locked = (s.place k).locked) (moved : Moves s s' caller p) :
    Exclusive s' := by
  rw [Exclusive, locked_caller moved.pc place]
  exact Excludes.locks exclusive moved.locks

theorem Runs.exclusive {q : Place Arg} (exclusive : Exclusive s) (moved : Runs s s' k q) :
    Exclusive s' := by
  rw [Exclusive, locked_thread moved.pc moved.place]
  exact Excludes.locks exclusive moved.locks

omit [DecidableEq Caller] in
/-- A caller and a started thread are not inside together. -/
theorem Exclusive.outside (exclusive : Exclusive s) (inside : (s.pc caller).locked = true) (k : ℕ) :
    (s.place k).locked = false := by
  cases also : (s.place k).locked with
  | false => rfl
  | true =>
    have same : (Sum.inl caller : Caller ⊕ ℕ) = .inr k := Excludes.unique exclusive inside also
    cases same

end Locking

variable {Arg : Type} {s s' : State Unit Arg} {action : Action Unit Arg} {k : ℕ}
variable {p : Pc Arg} {q : Place Arg}

/-- Before the destructor's write of `TDFLAG_DETACHED` nobody frees. -/
structure Early (s : State Unit Arg) : Prop where
  detached : s.data.flag.detached = false
  freed : s.freed = 0
  owes : ∀ k, (s.place k).owes false = false

/-- Who frees after it: a thread still to write `TDFLAG_HAS_EXIT`, the
destructor, an exiting thread that has seen `TDFLAG_DETACHED`, or nobody any
more. In each case nobody else is left. -/
inductive Left (s : State Unit Arg) : Prop where
  | alive (k : ℕ) (freed : s.freed = 0) (unmarked : (s.place k).unmarked = true)
      (owner : (s.pc ()).owes s.data.flag.hasExit = false)
      (others : ∀ j, j ≠ k → (s.place j).done = true)
  | owner (freed : s.freed = 0) (owes : (s.pc ()).owes s.data.flag.hasExit = true)
      (others : ∀ j, (s.place j).done = true)
  | thread (k : ℕ) (freed : s.freed = 0) (owes : (s.place k).owes true = true)
      (gone : s.pc () = .gone) (others : ∀ j, j ≠ k → (s.place j).done = true)
  | freed (once : s.freed = 1) (gone : s.pc () = .gone) (others : ∀ j, (s.place j).done = true)

/-- The life of `THREAD_DATA`. -/
structure Life (s : State Unit Arg) : Prop where
  exclusive : Exclusive s
  unborn : ∀ k, s.born ≤ k → s.place k = .unborn
  early : (s.pc ()).detaches = false → Early s
  late : (s.pc ()).detaches = true → s.data.flag.detached = true ∧ Left s

/-- When the destructor sets `TDFLAG_DETACHED`, either `TDFLAG_HAS_EXIT` is set
and no started thread is still to set it, or it is clear and exactly one is. -/
def Attended (s : State Unit Arg) : Action Unit Arg → Prop
  | .run caller => (s.pc caller).detachesNext = true →
      s.data.flag.hasExit = true ∧ (∀ k < s.born, (s.place k).unmarked = false) ∨
      s.data.flag.hasExit = false ∧ ∃ k < s.born, (s.place k).unmarked = true ∧
        ∀ j < s.born, j ≠ k → (s.place j).unmarked = false
  | _ => True

instance (s : State Unit Arg) (action : Action Unit Arg) : Decidable (Attended s action) := by
  unfold Attended
  split <;> infer_instance

private theorem owes_of_unmarked {here : Place Arg} {detached : Bool}
    (unmarked : here.unmarked = true) :
    here.owes detached = false := by
  cases here <;> first | rfl | cases unmarked

private theorem done_of_unmarked {here : Place Arg} (unmarked : here.unmarked = true) :
    here.done = false := by
  cases here <;> first | rfl | cases unmarked

private theorem owes_of_done {here : Place Arg} {detached : Bool} (done : here.done = true) :
    here.owes detached = false := by
  cases here <;> first | rfl | cases done

private theorem place_done {here : Place Arg} (unmarked : here.unmarked = false)
    (outside : here.locked = false) (owes : here.owes false = false) : here.done = true := by
  cases here with
  | unborn | ended => rfl
  | exitFree => cases owes
  | exitTest | exitBroadcast | exitUnlock => cases outside
  | _ => cases unmarked

theorem construct_life (func : Bool) (args : Arg) (clockSet : Bool) (tidMax : UInt32) :
    Life (construct func args clockSet tidMax : State Unit Arg) where
  exclusive := by
    intro who
    cases who <;> exact ⟨nofun, nofun⟩
  unborn _ _ := rfl
  early _ := ⟨rfl, rfl, fun _ => rfl⟩
  late := nofun

/-- The owner's step that sets `TDFLAG_DETACHED`. -/
theorem Life.mark (life : Life s) (here : s.pc () = .destroyMark) (fine : Attended s (.run ()))
    (pc : s'.pc () = .destroyTest) (flag : s'.data.flag = { s.data.flag with detached := true })
    (frame : Frame s s') : Left s' := by
  obtain ⟨_, freed, owes⟩ := life.early (by rw [here]; rfl)
  have outside := life.exclusive.outside (show (s.pc ()).locked = true by rw [here]; rfl)
  have done (j : ℕ) (past : j < s.born → (s.place j).unmarked = false) :
      (s'.place j).done = true := by
    rw [frame.place]
    by_cases born : j < s.born
    · exact place_done (past born) (outside j) (owes j)
    · rw [life.unborn j (by omega)]
      rfl
  rcases fine (by rw [here]; rfl) with ⟨exit, past⟩ | ⟨alive, k, _, unmarked, past⟩
  · refine .owner (frame.freed.trans freed) ?_ fun j => done j (past j)
    rw [pc, flag]
    exact exit
  · refine .alive k (frame.freed.trans freed) ?_ ?_ fun j other => done j fun born => past j born other
    · rw [frame.place]
      exact unmarked
    · rw [pc, flag]
      exact alive

private theorem Early.of_frame (early : Early s) (frame : Frame s s')
    (detached : s'.data.flag.detached = true → s.data.flag.detached = true) : Early s' where
  detached := by
    cases set : s'.data.flag.detached with
    | false => rfl
    | true => cases early.detached.symm.trans (detached set)
  freed := frame.freed.trans early.freed
  owes k := by
    rw [frame.place]
    exact early.owes k

private theorem Left.owner_step (left : Left s) (life : OwnerStep s s' (s.pc ()) p)
    (pc : s'.pc () = p)
    (late : (s.pc ()).detaches = true) : Left s' := by
  generalize here : s.pc () = place at life late
  cases life with
  | early before => cases before.symm.trans late
  | create | mark => cases late
  | test flag frame =>
    cases left with
    | alive k freed unmarked owner others =>
      rw [here] at owner
      refine .alive k (frame.freed.trans freed) ?_ ?_ ?_
      · rw [frame.place]; exact unmarked
      · rw [pc]; exact owner
      · rw [frame.place]; exact others
    | owner freed owes others =>
      rw [here] at owes
      refine .owner (frame.freed.trans freed) ?_ ?_
      · rw [pc]; exact owes
      · rw [frame.place]; exact others
    | thread _ _ _ gone => cases here.symm.trans gone
    | freed _ gone => cases here.symm.trans gone
  | @unlock shouldFree flag frame =>
    cases left with
    | alive k freed unmarked owner others =>
      rw [here] at owner
      cases shouldFree with
      | true => cases owner
      | false =>
        refine .alive k (frame.freed.trans freed) ?_ ?_ ?_
        · rw [frame.place]; exact unmarked
        · rw [pc]; rfl
        · rw [frame.place]; exact others
    | owner freed owes others =>
      rw [here] at owes
      cases shouldFree with
      | false => cases owes
      | true =>
        refine .owner (frame.freed.trans freed) ?_ ?_
        · rw [pc]; rfl
        · rw [frame.place]; exact others
    | thread _ _ _ gone => cases here.symm.trans gone
    | freed _ gone => cases here.symm.trans gone
  | free flag place born freed =>
    cases left with
    | alive k _ _ owner =>
      rw [here] at owner
      cases owner
    | owner none owes others =>
      refine .freed (by rw [freed, none]) pc ?_
      rw [place]
      exact others
    | thread _ _ _ gone => cases here.symm.trans gone
    | freed _ gone => cases here.symm.trans gone

private theorem moves_life (life : Life s) (fine : Attended s (.run ())) (moved : Moves s s' () p) :
    Life s' := by
  have pc : s'.pc () = p := by rw [moved.pc, Function.update_self]
  have kept (late : (s.pc ()).detaches = true) : Left s' :=
    (life.late late).2.owner_step moved.life pc late
  have step := moved.life
  generalize here : s.pc () = place at step
  cases step with
  | early before after detached frame =>
    refine ⟨moved.exclusive life.exclusive (fun k => by rw [frame.place]), ?_, fun _ => ?_, fun late => ?_⟩
    · rw [frame.born, frame.place]
      exact life.unborn
    · rw [← here] at before
      exact (life.early before).of_frame frame detached
    · rw [pc] at late
      cases after.symm.trans late
  | create flag freed place born =>
    obtain ⟨detached, none, owes⟩ := life.early (by rw [here]; rfl)
    have unborn := life.unborn s.born (Nat.le_refl _)
    refine ⟨moved.exclusive life.exclusive fun j => ?_, fun j above => ?_, fun _ => ⟨?_, ?_, ?_⟩,
      fun late => ?_⟩
    · rw [place, Function.update_apply]
      split
      · rename_i same
        rw [same, unborn]
        rfl
      · rfl
    · rw [born] at above
      rw [place, Function.update_of_ne (by omega)]
      exact life.unborn j (by omega)
    · rw [flag]
      exact detached
    · exact freed.trans none
    · intro j
      rw [place, Function.update_apply]
      split
      · rfl
      · exact owes j
    · rw [pc] at late
      cases late
  | mark flag frame =>
    refine ⟨moved.exclusive life.exclusive (fun k => by rw [frame.place]), ?_, fun early => ?_, fun _ => ⟨?_, ?_⟩⟩
    · rw [frame.born, frame.place]
      exact life.unborn
    · rw [pc] at early
      cases early
    · rw [flag]
    · exact life.mark here fine pc flag frame
  | test flag frame | unlock flag frame =>
    have late : (s.pc ()).detaches = true := by rw [here]; rfl
    refine ⟨moved.exclusive life.exclusive (fun k => by rw [frame.place]), ?_, fun early => ?_, fun _ => ⟨?_, kept late⟩⟩
    · rw [frame.born, frame.place]
      exact life.unborn
    · rw [pc] at early
      first | cases early | (split at early <;> cases early)
    · rw [flag]
      exact (life.late late).1
  | free flag place born freed =>
    have late : (s.pc ()).detaches = true := by rw [here]; rfl
    refine ⟨moved.exclusive life.exclusive (fun k => by rw [place]), ?_, fun early => ?_, fun _ => ⟨?_, kept late⟩⟩
    · rw [born, place]
      exact life.unborn
    · rw [pc] at early
      cases early
    · rw [flag]
      exact (life.late late).1

theorem Early.thread_step (early : Early s) (life : ThreadStep s s' (s.place k) q)
    (place : s'.place = Function.update s.place k q) : Early s' := by
  obtain ⟨detached, freed, owes⟩ := early
  have mine := owes k
  have others (own : q.owes false = false) : ∀ j, (s'.place j).owes false = false := by
    intro j
    rw [place, Function.update_apply]
    split
    · exact own
    · exact owes j
  generalize s.place k = here at life mine
  cases life with
  | within unmarked still flag same =>
    exact ⟨by rw [flag]; exact detached, same.trans freed, others (owes_of_unmarked still)⟩
  | mark flag same => exact ⟨by rw [flag]; exact detached, same.trans freed, others rfl⟩
  | test flag same =>
    exact ⟨by rw [flag]; exact detached, same.trans freed, others detached⟩
  | broadcast flag same => exact ⟨by rw [flag]; exact detached, same.trans freed, others mine⟩
  | @unlock shouldFree flag same =>
    refine ⟨by rw [flag]; exact detached, same.trans freed, others ?_⟩
    cases shouldFree with
    | true => cases mine
    | false => rfl
  | free => cases mine

private theorem ThreadStep.not_done (life : ThreadStep s s' (s.place k) q) :
    (s.place k).done = false := by
  generalize s.place k = here at life
  cases life with
  | within unmarked => cases here <;> first | rfl | cases unmarked
  | _ => rfl

private theorem gone_of_outside (late : (s.pc ()).detaches = true)
    (outside : (s.pc ()).locked = false)
    (owner : (s.pc ()).owes s.data.flag.hasExit = false) : s.pc () = .gone := by
  generalize s.pc () = here at late outside owner
  cases here with
  | gone => rfl
  | destroyTest | destroyUnlock => cases outside
  | destroyFree => cases owner
  | _ => cases late

theorem others_update {j : ℕ} (others : ∀ j, j ≠ k → (s.place j).done = true)
    (place : s'.place = Function.update s.place k q) (other : j ≠ k) : (s'.place j).done = true := by
  rw [place, Function.update_of_ne other]
  exact others j other

/-- The steps of a started thread after the write of `TDFLAG_DETACHED`. -/
theorem Left.thread_step (left : Left s) (exclusive : Exclusive s)
    (detached : s.data.flag.detached = true) (late : (s.pc ()).detaches = true)
    (life : ThreadStep s s' (s.place k) q) (place : s'.place = Function.update s.place k q)
    (pc : s'.pc = s.pc) : s'.data.flag.detached = true ∧ Left s' := by
  have running := life.not_done
  have own : s'.place k = q := by rw [place, Function.update_self]
  cases left with
  | alive a freed unmarked owner others =>
    obtain rfl : k = a := by
      by_contra other
      cases running.symm.trans (others k other)
    have outside : (s.place k).locked = true → (s.pc ()).locked = false := fun inside => by
      cases also : (s.pc ()).locked with
      | false => rfl
      | true => cases inside.symm.trans (exclusive.outside also k)
    generalize here : s.place k = spot at life
    cases life with
    | within _ still flag same =>
      refine ⟨by rw [flag]; exact detached, .alive k (same.trans freed) ?_ ?_ fun j other =>
        others_update others place other⟩
      · rw [own]; exact still
      · rw [pc, flag]; exact owner
    | mark flag same =>
      have gone := gone_of_outside late (outside (by rw [here]; rfl)) owner
      refine ⟨by rw [flag]; exact detached, .thread k (same.trans freed) ?_ ?_ fun j other =>
        others_update others place other⟩
      · rw [own]; rfl
      · rw [pc]; exact gone
    | _ =>
      rw [here] at unmarked
      cases unmarked
  | owner _ _ others => cases running.symm.trans (others k)
  | thread a freed owes gone others =>
    obtain rfl : k = a := by
      by_contra other
      cases running.symm.trans (others k other)
    have still := gone
    rw [← pc] at still
    generalize s.place k = spot at life owes
    cases life with
    | within unmarked => cases owes.symm.trans (owes_of_unmarked unmarked)
    | mark => cases owes
    | test flag same =>
      refine ⟨by rw [flag]; exact detached, .thread k (same.trans freed) ?_ still fun j other =>
        others_update others place other⟩
      rw [own]
      exact detached
    | broadcast flag same =>
      refine ⟨by rw [flag]; exact detached, .thread k (same.trans freed) ?_ still fun j other =>
        others_update others place other⟩
      rw [own]
      exact owes
    | @unlock shouldFree flag same =>
      refine ⟨by rw [flag]; exact detached, .thread k (same.trans freed) ?_ still fun j other =>
        others_update others place other⟩
      rw [own]
      cases shouldFree with
      | true => rfl
      | false => cases owes
    | free flag same =>
      refine ⟨by rw [flag]; exact detached, .freed (by rw [same, freed]) still fun j => ?_⟩
      by_cases mine : j = k
      · rw [mine, own]
        rfl
      · exact others_update others place mine
  | freed _ _ others => cases running.symm.trans (others k)

theorem runs_life (life : Life s) (moved : Runs s s' k q) : Life s' where
  exclusive := moved.exclusive life.exclusive
  unborn j above := by
    rw [moved.born] at above
    have unborn := life.unborn j above
    rw [moved.place, Function.update_of_ne ?_]
    · exact unborn
    · rintro rfl
      have running := moved.life.not_done
      rw [unborn] at running
      cases running
  early early := by
    rw [moved.pc] at early
    exact (life.early early).thread_step moved.life moved.place
  late late := by
    rw [moved.pc] at late
    obtain ⟨detached, left⟩ := life.late late
    exact left.thread_step life.exclusive detached late moved.life moved.place moved.pc

theorem Attended.run (fine : Attended s action)
    (who : action = .run () ∨ (s.pc ()).detachesNext = false) : Attended s (.run ()) := by
  rcases who with rfl | elsewhere
  · exact fine
  · intro here
    cases elsewhere.symm.trans here

theorem step_kept (life : Life s) (fine : Attended s action) (taken : step s action = some s') :
    Life s' := by
  rcases step_life taken with ⟨caller, p, moved, who⟩ | ⟨k, q, moved⟩ | ⟨pc, data, frame⟩
  · exact moves_life life (fine.run who) moved
  · exact runs_life life moved
  · obtain ⟨exclusive, unborn, early, late⟩ := life
    refine ⟨?_, ?_, fun before => ?_, fun after => ?_⟩
    · rw [Exclusive, State.locked, pc, data, frame.place]
      exact exclusive
    · rw [frame.born, frame.place]
      exact unborn
    · rw [pc] at before
      exact (early before).of_frame frame (by rw [data]; exact id)
    · rw [pc] at after
      obtain ⟨detached, left⟩ := late after
      rw [data]
      refine ⟨detached, ?_⟩
      cases left with
      | alive k freed unmarked owner others =>
        exact .alive k (frame.freed.trans freed) (by rw [frame.place]; exact unmarked)
          (by rw [pc, data]; exact owner) (by rw [frame.place]; exact others)
      | owner freed owes others =>
        exact .owner (frame.freed.trans freed) (by rw [pc, data]; exact owes)
          (by rw [frame.place]; exact others)
      | thread k freed owes gone others =>
        exact .thread k (frame.freed.trans freed) (by rw [frame.place]; exact owes)
          (by rw [pc]; exact gone) (by rw [frame.place]; exact others)
      | freed once gone others =>
        exact .freed (frame.freed.trans once) (by rw [pc]; exact gone)
          (by rw [frame.place]; exact others)

/-- After the only `_FreeThreadData` nobody is left to touch `THREAD_DATA`. -/
theorem Life.freed_cases (life : Life s) : s.freed = 0 ∨
    s.freed = 1 ∧ s.pc () = .gone ∧ ∀ j, (s.place j).done = true := by
  cases when : (s.pc ()).detaches with
  | false => exact .inl (life.early when).freed
  | true =>
    cases (life.late when).2 with
    | alive _ none | owner none | thread _ none => exact .inl none
    | freed once gone others => exact .inr ⟨once, gone, others⟩

theorem Life.untouched (life : Life s) (taken : step s action = some s')
    (touching : touches s action = true) : s.freed = 0 := by
  rcases life.freed_cases with none | ⟨_, gone, others⟩
  · exact none
  · exfalso
    have place (k : ℕ) : s.place k = .unborn ∨ s.place k = .ended := by
      have past := others k
      generalize s.place k = here at past
      cases here with
      | unborn => exact .inl rfl
      | ended => exact .inr rfl
      | _ => cases past
    cases action with
    | call | cancel | elsewhere => cases touching
    | run | createFails | fail | expire | wake | state =>
      simp only [touches, gone] at touching
      cases touching
    | thread k =>
      rcases place k with here | here <;> simp only [touches, here] at touching <;> cases touching
    | getId k =>
      rcases place k with here | here <;> simp [step, here] at taken

/-- `THREAD_DATA` is never touched after it was freed, is freed at most once,
and is freed when the object is destroyed and no thread of it runs any more. -/
structure FreedOnce (s : State Unit Arg) (actions : List (Action Unit Arg))
    (last : State Unit Arg) : Prop where
  untouched : Meets step (fun s action => touches s action = true → s.freed = 0) s actions
  once : last.freed ≤ 1
  freed : last.pc () = .gone → (∀ k, (last.place k).done = true) → last.freed = 1

/-- In every run whose destructor leaves exactly one party to free
`THREAD_DATA`, it is freed exactly once and not used after. -/
theorem freed_once {func : Bool} {args : Arg} {clockSet : Bool} {tidMax : UInt32}
    {last : State Unit Arg} {actions : List (Action Unit Arg)}
    (attended : Meets step Attended (construct func args clockSet tidMax) actions)
    (ran : exec step (construct func args clockSet tidMax) actions = some last) :
    FreedOnce (construct func args clockSet tidMax) actions last := by
  have initially : Life (construct func args clockSet tidMax : State Unit Arg) :=
    construct_life func args clockSet tidMax
  have life : Life last :=
    exec_invariant_of_meets Life (fun _ _ _ => step_kept) initially attended ran
  refine ⟨?_, ?_, fun gone done => ?_⟩
  · exact Meets.of_invariant Life (fun _ _ _ => step_kept)
      (fun _ _ _ life _ taken => life.untouched taken) initially attended
  · rcases life.freed_cases with none | ⟨once, _⟩ <;> omega
  · have late := life.late (by rw [gone]; rfl)
    cases late.2 with
    | alive k _ unmarked => cases (done k).symm.trans (done_of_unmarked unmarked)
    | owner _ owes =>
      rw [gone] at owes
      cases owes
    | thread k _ owes => cases owes.symm.trans (owes_of_done (done k))
    | freed once => exact once

/-- The owner runs the object, destroys it while the thread is in `func`, and
the thread frees. -/
def detachedRun : List (Action Unit ℕ) :=
  .call () (.run 7) :: List.replicate 8 (.run ()) ++ List.replicate 4 (.thread 0) ++
    .call () .destroy :: List.replicate 4 (.run ()) ++ List.replicate 7 (.thread 0)

theorem freed_once_detachedRun : ∃ last,
    exec step (construct true 0 true 1) detachedRun = some last ∧
      FreedOnce (construct true 0 true 1) detachedRun last := by
  obtain ⟨last, ran⟩ := Option.isSome_iff_exists.mp
    (show (exec step (construct true 0 true 1) detachedRun).isSome = true by decide)
  exact ⟨last, ran, freed_once (by decide) ran⟩

def unusedRun : List (Action Unit ℕ) := .call () .destroy :: List.replicate 4 (.run ())

theorem unusedRun_leaks : ∃ last, exec step (construct true 0 true 1) unusedRun = some last ∧
    last.pc () = .gone ∧ (∀ k, (last.place k).done = true) ∧ last.freed = 0 :=
  ⟨_, rfl, rfl, fun _ => rfl, rfl⟩

end Prot.System.Thread
