import Prot.System.Thread

/-! What `Wait` and `Kill` report of a started thread: they answer `True` once
the thread has set `TDFLAG_HAS_EXIT`, as long as their one wait on `exited`
returns 0 for no other reason and no clock fails. -/

namespace Prot.System.Thread

open Concurrency Time

/-- Started and before the write of `TDFLAG_HAS_EXIT`. -/
def Place.unmarked {Arg : Type} : Place Arg → Bool
  | .setSpecific | .setCancelType | .readFunc | .readArgs | .running _ | .exitLock
  | .exitMark => true
  | _ => false

def Place.marked {Arg : Type} : Place Arg → Bool
  | .exitTest | .exitBroadcast _ | .exitUnlock _ | .exitFree | .ended => true
  | _ => false

/-- `Wait` or `Kill` is going to return `True`. -/
def Pc.decided {Arg : Type} : Pc Arg → Bool
  | .waitJudge .ok | .waitUnlock true | .waitReturn true => true
  | .killUnlock true | .killReturn true => true
  | _ => false

def Pc.isBlocked {Arg : Type} : Pc Arg → Bool
  | .blocked _ => true
  | _ => false

def Pc.asksClock {Arg : Type} : Pc Arg → Bool
  | .waitClock _ => true
  | _ => false

/-- Neither in `Run` nor in the destructor. -/
def Pc.watches {Arg : Type} : Pc Arg → Bool
  | .runTestFunc _ | .runTestTid _ | .runTestExit _ | .runClearTid _ | .runClearThread _ => false
  | .runClearFlag _ | .runWriteArgs _ | .runNextTid | .runCreate _ | .runWriteTid _ => false
  | .runReadTid | .runReturn _ => false
  | .destroyLock | .destroyMark | .destroyTest | .destroyUnlock _ | .destroyFree | .gone => false
  | _ => true

/-- The callers neither run the object again nor destroy it. -/
def Action.watches {Caller Arg : Type} : Action Caller Arg → Bool
  | .call _ (.run _) | .call _ .destroy => false
  | _ => true

variable {Caller Arg : Type} {s s' : State Caller Arg} {action : Action Caller Arg}
variable {caller : Caller} {k : ℕ}

/-- A started object whose handle is that of thread `k`; the threads of earlier
runs are past their exits. -/
structure Watched (k : ℕ) (s : State Caller Arg) : Prop where
  handle : s.data.thread = k + 1
  born : s.place k ≠ .unborn
  exit : s.data.flag.hasExit = (s.place k).marked
  others : ∀ j, j ≠ k → (s.place j).unmarked = false
  watches : ∀ c, (s.pc c).watches = true

/-- Whoever is going to report an exit is right: the thread has set
`TDFLAG_HAS_EXIT`. -/
def Reported (k : ℕ) (s : State Caller Arg) : Prop :=
  ∀ c, (s.pc c).decided = true → s.data.flag.hasExit = true ∧ (s.place k).marked = true

variable [DecidableEq Caller]

/-- The steps by which a wait on `exited` returns 0, and those by which a clock
fails, are taken after the exit. -/
def Prompt (s : State Caller Arg) : Action Caller Arg → Prop
  | .run caller => (s.pc caller).isBlocked = true → s.data.flag.hasExit = true
  | .fail caller => (s.pc caller).asksClock = true → s.data.flag.hasExit = true
  | _ => True

instance (s : State Caller Arg) (action : Action Caller Arg) : Decidable (Prompt s action) := by
  unfold Prompt
  split <;> infer_instance

/-- What a step of a caller that only watches adds to what it reports: nothing
that it has no reason for, or that which the step relies on. -/
inductive Verdict (s : State Caller Arg) (action : Action Caller Arg) (caller : Caller)
    (p : Pc Arg) : Prop where
  | sound (quiet : Prompt s action) (reason : p.decided = true →
      (s.pc caller).decided = true ∨ s.data.online = false ∨ s.there s.data.thread = false)
  | relies (decided : p.decided = true)
      (prompt : Prompt s action ↔ s.data.flag.hasExit = true)

omit [DecidableEq Caller] in
theorem Verdict.quiet {p : Pc Arg} (quiet : Prompt s action) (undecided : p.decided ≠ true) :
    Verdict s action caller p :=
  .sound quiet fun decided => absurd decided undecided

theorem lock_eq_some {p : Pc Arg} (taken : s.lock caller p = some s') :
    s.data.mutex = none ∧
      s' = s.write caller { s.data with mutex := some (.inl caller) } p := by
  obtain ⟨mutex, locked, rfl⟩ := Option.map_eq_some_iff.mp taken
  obtain ⟨free, rfl⟩ := Mutex.lock_eq_some locked
  exact ⟨free, rfl⟩

omit [DecidableEq Caller] in
theorem waitPath_cases (t : TimeUnit) :
    (waitPath t : Pc Arg) = .condWait (.wait false) ∨ (waitPath t : Pc Arg) = .waitJudge .other ∨
      (waitPath t : Pc Arg) = .waitClock t := by
  unfold waitPath
  split
  · exact .inl rfl
  · split
    · exact .inr (.inl rfl)
    · exact .inr (.inr rfl)

/-- A caller that only watches changes nothing but the mutex, the waiters and
its own place. -/
structure Watches (s s' : State Caller Arg) (caller : Caller) (p : Pc Arg) : Prop where
  pc : s'.pc = Function.update s.pc caller p
  place : s'.place = s.place
  thread : s'.data.thread = s.data.thread
  flag : s'.data.flag = s.data.flag
  watches : p.watches = true

private theorem next_watches (watches : (s.pc caller).watches = true)
    (taken : s.next caller = some s') :
    ∃ p, Watches s s' caller p ∧ Verdict s (.run caller) caller p := by
  have awake (awake : (s.pc caller).isBlocked = false) : Prompt s (.run caller) :=
    fun blocked => absurd blocked (by simp [awake])
  cases here : s.pc caller <;> simp only [State.next, here] at taken <;> rw [here] at watches
  case idle | waitState => cases taken
  case runTestFunc | runTestTid | runTestExit | runClearTid | runClearThread | runClearFlag |
    runWriteArgs | runNextTid | runCreate | runWriteTid | runReadTid | runReturn => cases watches
  case destroyLock | destroyMark | destroyTest | destroyUnlock | destroyFree | gone => cases watches
  case blocked waiter =>
    split at taken
    · cases taken
    · obtain ⟨_, rfl⟩ := lock_eq_some taken
      refine ⟨_, ⟨rfl, rfl, rfl, rfl, ?_⟩, .relies ?_ ?_⟩
      · cases waiter <;> rfl
      · cases waiter <;> rfl
      · exact ⟨fun prompt => prompt (by rw [here]; rfl), fun exit _ => exit⟩
  all_goals have quiet := awake (by rw [here]; rfl)
  case waitLock | killLock | relock =>
    obtain ⟨_, rfl⟩ := lock_eq_some taken
    exact ⟨_, ⟨rfl, rfl, rfl, rfl, rfl⟩, .quiet quiet nofun⟩
  case waitTest t =>
    cases taken
    cases tested : s.data.online with
    | false => exact ⟨_, ⟨rfl, rfl, rfl, rfl, rfl⟩, .sound quiet fun _ => .inr (.inl tested)⟩
    | true =>
      rcases @waitPath_cases Arg t with path | path | path <;>
        exact ⟨_, ⟨rfl, rfl, rfl, rfl, by rw [path]; rfl⟩, .quiet quiet (by rw [path]; exact nofun)⟩
  case killTest =>
    cases taken
    cases s.data.online <;> exact ⟨_, ⟨rfl, rfl, rfl, rfl, rfl⟩, .quiet quiet nofun⟩
  case waitJudge ret =>
    cases ret <;> cases taken
    · exact ⟨_, ⟨rfl, rfl, rfl, rfl, rfl⟩, .sound quiet fun _ => .inl (by rw [here]; rfl)⟩
    · exact ⟨_, ⟨rfl, rfl, rfl, rfl, rfl⟩, .quiet quiet nofun⟩
    · exact ⟨_, ⟨rfl, rfl, rfl, rfl, rfl⟩, .quiet quiet nofun⟩
  case waitUnlock rv | killUnlock rv =>
    cases taken
    cases rv
    · exact ⟨_, ⟨rfl, rfl, rfl, rfl, rfl⟩, .quiet quiet nofun⟩
    · exact ⟨_, ⟨rfl, rfl, rfl, rfl, rfl⟩, .sound quiet fun _ => .inl (by rw [here]; rfl)⟩
  case statusThread =>
    cases taken
    split <;> exact ⟨_, ⟨rfl, rfl, rfl, rfl, rfl⟩, .quiet quiet nofun⟩
  all_goals
    cases taken
    exact ⟨_, ⟨rfl, rfl, rfl, rfl, rfl⟩, .quiet quiet nofun⟩

/-- A started thread moves on; only one write sets `TDFLAG_HAS_EXIT`. -/
structure Advance (s s' : State Caller Arg) (j : ℕ) (p : Place Arg) : Prop where
  place : s'.place = Function.update s.place j p
  pc : s'.pc = s.pc
  thread : s'.data.thread = s.data.thread
  born : p ≠ .unborn
  exits : (p.unmarked = (s.place j).unmarked ∧ p.marked = (s.place j).marked ∧
      s'.data.flag = s.data.flag) ∨
    s.place j = .exitMark ∧ p = .exitTest ∧
      s'.data.flag = { s.data.flag with hasExit := true }

omit [DecidableEq Caller] in
private theorem threadNext_advance {j : ℕ} (taken : s.threadNext j = some s') :
    ∃ p, Advance s s' j p := by
  cases here : s.place j <;> simp only [State.threadNext, here] at taken
  case unborn | ended => cases taken
  case exitLock =>
    obtain ⟨mutex, _, rfl⟩ := Option.map_eq_some_iff.mp taken
    exact ⟨_, rfl, rfl, rfl, nofun, .inl (by rw [here]; exact ⟨rfl, rfl, rfl⟩)⟩
  case exitMark =>
    cases taken
    exact ⟨_, rfl, rfl, rfl, nofun, .inr ⟨here, rfl, rfl⟩⟩
  case exitUnlock free =>
    cases taken
    refine ⟨_, rfl, rfl, rfl, ?_, .inl ?_⟩
    · cases free <;> exact nofun
    · rw [here]
      cases free <;> exact ⟨rfl, rfl, rfl⟩
  all_goals
    cases taken
    exact ⟨_, rfl, rfl, rfl, nofun, .inl (by rw [here]; exact ⟨rfl, rfl, rfl⟩)⟩

/-- A step of a run that only watches is one of a caller, of a started thread,
or none of the object's. -/
theorem step_watches (inv : Watched k s) (plain : action.watches = true)
    (taken : step s action = some s') :
    (∃ caller p, Watches s s' caller p ∧ Verdict s action caller p) ∨
      Prompt s action ∧ ((∃ j p, Advance s s' j p) ∨
        s'.pc = s.pc ∧ s'.place = s.place ∧ s'.data = s.data) := by
  cases action with
  | call caller call =>
    left
    simp only [step] at taken
    split at taken
    · cases taken
      refine ⟨caller, call.entry, ⟨rfl, rfl, rfl, rfl, ?_⟩, .quiet trivial ?_⟩
      · cases call <;> first | rfl | cases plain
      · cases call <;> exact nofun
    · cases taken
  | run caller => exact .inl ⟨caller, next_watches (inv.watches caller) taken⟩
  | createFails caller left =>
    have watches := inv.watches caller
    simp only [step] at taken
    split at taken
    · rename_i here
      rw [here] at watches
      cases watches
    · cases taken
  | fail caller =>
    left
    simp only [step] at taken
    split at taken
    · rename_i t here
      cases taken
      refine ⟨caller, _, ⟨rfl, rfl, rfl, rfl, rfl⟩, .relies rfl ?_⟩
      exact ⟨fun prompt => prompt (by rw [here]; rfl), fun exit _ => exit⟩
    · rename_i here
      cases taken
      refine ⟨caller, _, ⟨rfl, rfl, rfl, rfl, rfl⟩, .quiet ?_ nofun⟩
      intro asks
      rw [here] at asks
      cases asks
    · cases taken
  | expire caller | wake caller =>
    left
    simp only [step] at taken
    split at taken
    · cases taken
      exact ⟨caller, _, ⟨rfl, rfl, rfl, rfl, rfl⟩, .quiet trivial nofun⟩
    · cases taken
  | state caller offline =>
    left
    simp only [step] at taken
    split at taken
    · split at taken
      · cases taken
      · rename_i answer
        cases taken
        refine ⟨caller, _, ⟨rfl, rfl, rfl, rfl, rfl⟩, .sound trivial fun decided => .inr (.inr ?_)⟩
        cases offline with
        | true => simpa using answer
        | false => cases decided
    · cases taken
  | thread j => exact .inr ⟨trivial, .inl ⟨j, threadNext_advance taken⟩⟩
  | cancel j =>
    right
    simp only [step] at taken
    split at taken
    · rename_i pending
      cases taken
      refine ⟨trivial, .inl ⟨j, .exitLock, rfl, rfl, rfl, nofun, .inl ?_⟩⟩
      have inside := pending.2
      cases here : s.place j <;> rw [here] at inside <;>
        first | exact ⟨rfl, rfl, rfl⟩ | cases inside
    · cases taken
  | getId j =>
    right
    simp only [step] at taken
    split at taken
    · cases taken
      exact ⟨trivial, .inr ⟨rfl, rfl, rfl⟩⟩
    · cases taken
  | elsewhere =>
    cases taken
    exact .inr ⟨trivial, .inr ⟨rfl, rfl, rfl⟩⟩

theorem Watched.keep (inv : Watched k s) {p : Pc Arg} (moved : Watches s s' caller p) :
    Watched k s' where
  handle := moved.thread.trans inv.handle
  born := by rw [moved.place]; exact inv.born
  exit := by rw [moved.flag, moved.place]; exact inv.exit
  others := by rw [moved.place]; exact inv.others
  watches c := by
    rw [moved.pc, Function.update_apply]
    split
    · exact moved.watches
    · exact inv.watches c

omit [DecidableEq Caller] in
theorem Watched.advance (inv : Watched k s) {j : ℕ} {p : Place Arg} (moved : Advance s s' j p) :
    Watched k s' := by
  obtain ⟨place, pc, thread, born, exits⟩ := moved
  have watches : ∀ c, (s'.pc c).watches = true := by
    rw [pc]
    exact inv.watches
  rcases exits with ⟨unmarked, marked, flag⟩ | ⟨here, rfl, flag⟩
  · refine ⟨thread.trans inv.handle, ?_, ?_, ?_, watches⟩
    · rw [place, Function.update_apply]
      split
      · exact born
      · exact inv.born
    · rw [flag, inv.exit, place, Function.update_apply]
      split
      · rename_i same
        rw [marked, same]
      · rfl
    · intro i other
      rw [place, Function.update_apply]
      split
      · rename_i same
        rw [unmarked, ← same]
        exact inv.others i other
      · exact inv.others i other
  · -- only the thread of the last `Run` is still before its exit
    have own : j = k := by
      by_contra other
      have past := inv.others j other
      rw [here] at past
      cases past
    subst own
    refine ⟨thread.trans inv.handle, ?_, ?_, ?_, watches⟩
    · rw [place, Function.update_self]
      exact nofun
    · rw [flag, place, Function.update_self]
      rfl
    · intro i other
      rw [place, Function.update_of_ne other]
      exact inv.others i other

theorem step_watched (inv : Watched k s) (plain : action.watches = true)
    (taken : step s action = some s') : Watched k s' := by
  rcases step_watches inv plain taken with ⟨caller, p, moved, _⟩ | ⟨_, ⟨j, p, moved⟩ | same⟩
  · exact inv.keep moved
  · exact inv.advance moved
  · obtain ⟨pc, place, data⟩ := same
    refine ⟨by rw [data]; exact inv.handle, by rw [place]; exact inv.born, ?_, ?_, ?_⟩
    · rw [data, place]
      exact inv.exit
    · rw [place]
      exact inv.others
    · rw [pc]
      exact inv.watches

omit [DecidableEq Caller] in
/-- Once set, `TDFLAG_HAS_EXIT` stays set. -/
theorem Advance.hasExit {j : ℕ} {p : Place Arg} (moved : Advance s s' j p)
    (exit : s.data.flag.hasExit = true) : s'.data.flag.hasExit = true := by
  rcases moved.exits with ⟨_, _, flag⟩ | ⟨_, _, flag⟩
  · rw [flag]
    exact exit
  · rw [flag]

omit [DecidableEq Caller] in
private theorem Watched.reported_iff (inv : Watched k s) :
    Reported k s ↔ ∀ c, (s.pc c).decided = true → s.data.flag.hasExit = true := by
  have exit := inv.exit
  constructor
  · exact fun reported c decided => (reported c decided).1
  · intro reported c decided
    have set := reported c decided
    exact ⟨set, exit.symm.trans set⟩

omit [DecidableEq Caller] in
/-- An object that is not online, or whose thread is not there, has seen the exit. -/
theorem Watched.exited (inv : Watched k s)
    (gone : s.data.online = false ∨ s.there s.data.thread = false) : s.data.flag.hasExit = true := by
  have handle := inv.handle
  have born := inv.born
  rcases gone with offline | absent
  · simpa [Data.online, handle] using offline
  · rw [inv.exit]
    rw [handle] at absent
    simp only [State.there] at absent
    split at absent
    · contradiction
    · rename_i ended
      rw [ended]
      rfl
    · cases absent

theorem step_reported_iff (inv : Watched k s) (plain : action.watches = true)
    (reported : Reported k s) (taken : step s action = some s') :
    Reported k s' ↔ Prompt s action := by
  rw [(step_watched inv plain taken).reported_iff]
  rw [inv.reported_iff] at reported
  rcases step_watches inv plain taken with ⟨caller, p, moved, verdict⟩ |
    ⟨prompt, ⟨j, p, moved⟩ | ⟨pc, _, data⟩⟩
  · have others : (p.decided = true → s.data.flag.hasExit = true) ↔
        ∀ c, (s'.pc c).decided = true → s'.data.flag.hasExit = true := by
      rw [moved.pc, moved.flag]
      constructor
      · intro mine c
        rw [Function.update_apply]
        split
        · exact mine
        · exact reported c
      · intro all
        simpa using all caller
    rw [← others]
    cases verdict with
    | sound quiet reason =>
      refine iff_of_true (fun decided => ?_) quiet
      rcases reason decided with before | gone
      · exact reported caller before
      · exact inv.exited gone
    | relies decided prompt =>
      rw [prompt]
      exact ⟨fun exit => exit decided, fun exit _ => exit⟩
  · refine iff_of_true (fun c decided => ?_) prompt
    rw [moved.pc] at decided
    exact moved.hasExit (reported c decided)
  · refine iff_of_true (fun c decided => ?_) prompt
    rw [pc] at decided
    rw [data]
    exact reported c decided

/-- A started object that nobody is using: the last `Run` has returned, and the
threads of earlier ones are past their exits. -/
structure Started (k : ℕ) (s : State Caller Arg) : Prop where
  handle : s.data.thread = k + 1
  born : s.place k ≠ .unborn
  exit : s.data.flag.hasExit = (s.place k).marked
  others : ∀ j, j ≠ k → (s.place j).unmarked = false
  idle : ∀ c, s.pc c = .idle

def State.launched (s : State Caller Arg) (args : Arg) : State Caller Arg where
  data := ⟨s.data.func, args, s.tidMax, s.born + 1, s.data.mutex, s.data.exited,
    ⟨false, false, s.data.flag.tickLock⟩⟩
  tidMax := s.tidMax + 3
  pc := s.pc
  born := s.born + 1
  place := Function.update s.place s.born .setSpecific
  cancelled := s.cancelled
  freed := s.freed

theorem exec_run_succ {n : ℕ} {next : State Caller Arg} (taken : s.next caller = some next) :
    exec step s (List.replicate (n + 1) (.run caller)) =
      exec step next (List.replicate n (.run caller)) :=
  exec_cons_some taken

/-- `Run` on an object that was never started, or whose thread has exited. -/
theorem exec_launched (idle : ∀ c, s.pc c = .idle) (func : s.data.func = true)
    (ready : if s.data.tid = 0 then s.data.flag.hasExit = false ∧ s.data.flag.detached = false
      else s.data.flag.hasExit = true) (args : Arg) :
    ∃ n, exec step s (.call caller (.run args) :: List.replicate n (.run caller)) =
      some (s.launched args) := by
  have back : Function.update s.pc caller .idle = s.pc := by
    rw [← idle caller, Function.update_eq_self]
  by_cases fresh : s.data.tid = 0
  · obtain ⟨exit, detached⟩ := (if_pos fresh).mp ready
    have same : s.data.flag = ⟨false, false, s.data.flag.tickLock⟩ :=
      congrArg₂ (fun exit detached => Flag.mk exit detached s.data.flag.tickLock) exit detached
    refine ⟨8, ?_⟩
    simp only [exec_cons, step, idle, Option.bind_some, Call.entry]
    iterate 8
      rw [exec_run_succ (by
        simp only [State.next, State.goto, State.write, Function.update_self, Function.update_idem,
          func, fresh, if_true, ne_eq, not_true_eq_false, if_false]
        rfl)]
    simp only [List.replicate, exec_nil, back, State.launched, func]
    rw [← same]
  · have exit := (if_neg fresh).mp ready
    refine ⟨12, ?_⟩
    simp only [exec_cons, step, idle, Option.bind_some, Call.entry]
    iterate 12
      rw [exec_run_succ (by
        simp only [State.next, State.goto, State.write, Function.update_self, Function.update_idem,
          func, fresh, exit, if_true, ne_eq, not_false_eq_true, if_true]
        rfl)]
    simp only [List.replicate, exec_nil, back, State.launched, func]

omit [DecidableEq Caller] in
theorem launched_started (idle : ∀ c, s.pc c = .idle) (past : ∀ j, (s.place j).unmarked = false)
    (args : Arg) : Started s.born (s.launched args) := by
  have own : (s.launched args).place s.born = .setSpecific := Function.update_self ..
  refine ⟨rfl, ?_, ?_, ?_, idle⟩
  · rw [own]
    exact nofun
  · rw [own]
    rfl
  · intro j other
    have same : (s.launched args).place j = s.place j := Function.update_of_ne other ..
    rw [same]
    exact past j

/-- For every number of callers of `Wait` and `Kill`: they report exits only
after the exit, exactly if no wait on `exited` returns 0 and no clock fails
before it. -/
theorem reported_iff_prompt (started : Started k s) {actions : List (Action Caller Arg)}
    (watching : ∀ action ∈ actions, action.watches = true) :
    Always step (Reported k) s actions ↔ Meets step Prompt s actions := by
  obtain ⟨handle, born, exit, others, idle⟩ := started
  have inv : Watched k s := ⟨handle, born, exit, others, fun c => by rw [idle c]; rfl⟩
  have fresh : Reported k s := by
    intro c decided
    rw [idle c] at decided
    cases decided
  have usual : Meets step (fun _ action => action.watches = true) s actions := .of_forall watching
  exact always_iff_meets_of (Watched k) (fun _ _ _ inv plain => step_watched inv plain)
    (fun _ _ _ inv plain => step_reported_iff inv plain) inv fresh usual

def fresh : State (Fin 2) ℕ := construct true 0 true 1

def started : State (Fin 2) ℕ := fresh.launched 7

theorem started_started : Started 0 started :=
  have idle : ∀ c, fresh.pc c = .idle := fun _ => rfl
  have past : ∀ j, (fresh.place j).unmarked = false := fun _ => rfl
  launched_started idle past 7

/-- `Wait` blocks, and the thread exits; `Kill` comes too late. -/
def exitRun : List (Action (Fin 2) ℕ) :=
  .call 0 (.wait .infinite) :: List.replicate 3 (.run 0) ++ List.replicate 10 (.thread 0) ++
    List.replicate 4 (.run 0) ++ .call 1 .kill :: List.replicate 4 (.run 1)

theorem reported_exitRun : Always step (Reported 0) started exitRun :=
  (reported_iff_prompt started_started (by decide)).mpr (by decide)

def spuriousRun : List (Action (Fin 2) ℕ) :=
  .call 0 (.wait .infinite) :: List.replicate 3 (.run 0) ++ .wake 0 :: List.replicate 3 (.run 0)

/-- `Wait` is about to return `True` while the thread, started by a successful
`Run`, has not even begun. -/
theorem spuriousRun_unexited :
    (∃ n, exec step fresh (.call 0 (.run 7) :: List.replicate n (.run 0)) = some started) ∧
      (∀ action ∈ spuriousRun, action.watches = true) ∧
      ∃ s, exec step started spuriousRun = some s ∧ s.pc 0 = .waitReturn true ∧
        s.place 0 = .setSpecific ∧ s.data.flag.hasExit = false := by
  have launches : ∃ n, exec step fresh (.call 0 (.run 7) :: List.replicate n (.run 0)) =
      some started :=
    exec_launched (fun _ => rfl) rfl (by decide) 7
  have ends : (exec step started spuriousRun).map (fun s =>
      (s.pc 0, s.place 0, s.data.flag.hasExit)) =
      some (.waitReturn true, .setSpecific, false) := by decide
  obtain ⟨s, ran, same⟩ := Option.map_eq_some_iff.mp ends
  rw [Prod.mk.injEq, Prod.mk.injEq] at same
  exact ⟨launches, by decide, s, ran, same⟩

end Prot.System.Thread
