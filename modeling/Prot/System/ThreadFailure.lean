import Prot.System.ThreadWait

/-! A `Run` whose `pthread_create` fails: what the other operations then make of
the `Thread`, until a later `Run` succeeds. Any number of callers wait, kill and
ask, but no two of them are in `Run` at a time. -/

namespace Prot.System.Thread

open Concurrency Time

/-- The `Thread`, and whether the last call of `pthread_create` failed. -/
structure History (Caller Arg : Type) where
  state : State Caller Arg
  failed : Bool

def Pc.inRun {Arg : Type} : Pc Arg → Bool
  | .runTestFunc _ | .runTestTid _ | .runTestExit _ | .runClearTid _ | .runClearThread _
  | .runClearFlag _ | .runWriteArgs _ | .runNextTid | .runCreate _ | .runWriteTid _
  | .runReadTid | .runReturn _ => true
  | _ => false

/-- In `Run`, past the test of `func`. -/
def Pc.hasFunc {Arg : Type} : Pc Arg → Bool
  | .runTestTid _ | .runTestExit _ | .runClearTid _ | .runClearThread _ | .runClearFlag _
  | .runWriteArgs _ | .runNextTid | .runCreate _ => true
  | _ => false

/-- In `Run`, with no id until `pthread_create` has returned. -/
def Pc.noTid {Arg : Type} : Pc Arg → Bool
  | .runClearThread _ | .runClearFlag _ | .runWriteArgs _ | .runNextTid | .runCreate _ => true
  | _ => false

/-- In `Run`, where it clears what an earlier thread has left or writes the new id. -/
def Pc.rewrites {Arg : Type} : Pc Arg → Bool
  | .runTestExit _ | .runClearTid _ | .runClearThread _ | .runClearFlag _
  | .runWriteTid _ => true
  | _ => false

def Pc.creates {Arg : Type} : Pc Arg → Bool
  | .runCreate _ => true
  | _ => false

variable {Caller Arg : Type} [DecidableEq Caller]

def outcome (h : History Caller Arg) : Action Caller Arg → Bool
  | .createFails _ _ => true
  | .run caller => !(h.state.pc caller).creates && h.failed
  | _ => h.failed

def History.step (h : History Caller Arg) (action : Action Caller Arg) :
    Option (History Caller Arg) :=
  (Thread.step h.state action).map fun s => ⟨s, outcome h action⟩

/-- A caller is outside, and nobody has locked the mutex. -/
def State.rested (s : State Caller Arg) (caller : Caller) : State Caller Arg :=
  { s with data.mutex := none }.goto caller .idle

/-- The caller's own steps come to this. -/
def Comes (s : State Caller Arg) (caller : Caller) (done : State Caller Arg → Prop) : Prop :=
  ∃ n last, exec step s (List.replicate n (.run caller)) = some last ∧ done last

/-- A call made now comes to this without waiting for anybody. -/
def Answers (s : State Caller Arg) (caller : Caller) (call : Call Arg)
    (done : State Caller Arg → Prop) : Prop :=
  ∃ next, step (s.rested caller) (.call caller call) = some next ∧ Comes next caller done

/-- To a caller the `Thread` behaves as one without a thread. -/
structure NotCreated (s : State Caller Arg) (caller : Caller) : Prop where
  status : Answers s caller .status fun last => last.pc caller = .statusReturn false
  wait : ∀ t, Answers s caller (.wait t) fun last => last.pc caller = .waitReturn true
  kill : Answers s caller .kill fun last =>
    last.pc caller = .killReturn false ∧ last.cancelled = s.cancelled
  run : ∀ args, Answers s caller (.run args) fun last => ∃ tid, last.pc caller = .runCreate tid

/-- Since the last call of `pthread_create` failed, there is no thread. -/
def Safe (h : History Caller Arg) : Prop :=
  h.failed = true → ∀ caller, NotCreated h.state caller

/-- No `Run` is called while another caller is in `Run`. -/
def Alone (h : History Caller Arg) : Action Caller Arg → Prop
  | .call _ (.run _) => ∀ c, (h.state.pc c).inRun = false
  | _ => True

/-- A failing `pthread_create` leaves no handle, or an earlier thread has exited
and its mark is still there. -/
def Leaves (h : History Caller Arg) : Action Caller Arg → Prop
  | .createFails _ left => left = 0 ∨ h.state.data.flag.hasExit = true
  | _ => True

variable {s s' : State Caller Arg} {h h' : History Caller Arg} {caller : Caller}
variable {action : Action Caller Arg}

@[simp] theorem goto_pc (p : Pc Arg) : (s.goto caller p).pc caller = p := Function.update_self ..

omit [DecidableEq Caller] in
@[simp] theorem goto_goto [DecidableEq Caller] (p q : Pc Arg) :
    (s.goto caller p).goto caller q = s.goto caller q := by
  simp [State.goto]

@[simp] theorem goto_data (p : Pc Arg) : (s.goto caller p).data = s.data := rfl

@[simp] theorem goto_cancelled (p : Pc Arg) : (s.goto caller p).cancelled = s.cancelled := rfl

@[simp] theorem rested_thread : (s.rested caller).data.thread = s.data.thread := rfl

@[simp] theorem rested_flag : (s.rested caller).data.flag = s.data.flag := rfl

@[simp] theorem rested_tid : (s.rested caller).data.tid = s.data.tid := rfl

@[simp] theorem rested_func : (s.rested caller).data.func = s.data.func := rfl

variable {done : State Caller Arg → Prop}

theorem Comes.here (answer : done s) : Comes s caller done := ⟨0, s, rfl, answer⟩

theorem Comes.next (s' : State Caller Arg) (taken : s.next caller = some s')
    (onwards : Comes s' caller done) : Comes s caller done := by
  obtain ⟨n, last, ran, answer⟩ := onwards
  exact ⟨n + 1, last, (exec_run_succ taken).trans ran, answer⟩

theorem Comes.cases (comes : Comes s caller done) :
    done s ∨ ∃ s', s.next caller = some s' ∧ Comes s' caller done := by
  obtain ⟨n, last, ran, answer⟩ := comes
  cases n with
  | zero =>
    cases ran
    exact .inl answer
  | succ n =>
    obtain ⟨next, taken, continued⟩ := exec_cons_eq_some ran
    exact .inr ⟨next, taken, n, last, continued, answer⟩

/-- What is not here yet comes after the next step. -/
theorem Comes.after (comes : Comes s caller done) (s' : State Caller Arg)
    (taken : s.next caller = some s') (notYet : ¬ done s) : Comes s' caller done := by
  rcases comes.cases with answer | ⟨next, same, onwards⟩
  · exact absurd answer notYet
  · cases taken.symm.trans same
    exact onwards

theorem Answers.of_comes {call : Call Arg}
    (comes : Comes ((s.rested caller).goto caller call.entry) caller done) :
    Answers s caller call done := by
  refine ⟨_, ?_, comes⟩
  simp [step, State.rested]

def State.held (s : State Caller Arg) (caller : Caller) : State Caller Arg :=
  { s with data.mutex := some (.inl caller) }

omit [DecidableEq Caller] in
@[simp] theorem held_online : (s.held caller).data.online = s.data.online := rfl

@[simp] theorem rested_cancelled : (s.rested caller).cancelled = s.cancelled := rfl

@[simp] theorem rested_lock (p q : Pc Arg) :
    ((s.rested caller).goto caller p).lock caller q = some ((s.held caller).goto caller q) := by
  simp [State.lock, State.rested, State.held, State.write, State.goto, Mutex.lock]

@[simp] theorem held_unlock (p q : Pc Arg) :
    ((s.held caller).goto caller p).unlock caller q = (s.rested caller).goto caller q := by
  simp [State.unlock, State.rested, State.held, State.write, State.goto]

/-- Without an id `Run` creates a thread. -/
theorem creates_of_noTid (tid : s.data.tid = 0) (func : s.data.func = true) (args : Arg) :
    Answers s caller (.run args) fun last => ∃ tid, last.pc caller = .runCreate tid := by
  refine .of_comes (.next ((s.rested caller).goto caller (.runTestTid args)) ?_
    (.next ((s.rested caller).goto caller (.runWriteArgs args)) ?_
      (.next ({ s.rested caller with data.args := args }.goto caller .runNextTid) ?_
        (.next ({ s.rested caller with data.args := args, tidMax := s.tidMax + 3 }.goto caller
          (.runCreate s.tidMax)) ?_ (.here ⟨s.tidMax, ?_⟩)))))
  · simp [State.next, Call.entry, func]
  · simp [State.next, tid]
  · simp [State.next, State.write, State.goto]
  · simp [State.next, State.rested, State.goto]
  · simp

/-- Without a handle, or past the exit, and without an id, the `Thread` behaves
as one without a thread. -/
theorem notCreated_of_offline (offline : s.data.online = false) (tid : s.data.tid = 0)
    (func : s.data.func = true) : NotCreated s caller where
  status := by
    refine .of_comes ?_
    by_cases none : s.data.thread = 0
    · refine .next ((s.rested caller).goto caller (.statusReturn false)) ?_ (.here ?_)
      · simp [State.next, Call.entry, none]
      · simp
    · have exit : s.data.flag.hasExit = true := by simpa [Data.online, none] using offline
      refine .next ((s.rested caller).goto caller .statusFlag) ?_
        (.next ((s.rested caller).goto caller (.statusReturn false)) ?_ (.here ?_))
      · simp [State.next, Call.entry, none]
      · simp [State.next, exit]
      · simp
  wait t := by
    refine .of_comes (.next ((s.held caller).goto caller (.waitTest t)) ?_
      (.next ((s.held caller).goto caller (.waitUnlock true)) ?_
        (.next ((s.rested caller).goto caller (.waitReturn true)) ?_ (.here ?_))))
    · simp [State.next, Call.entry]
    · simp [State.next, offline]
    · simp [State.next]
    · simp
  kill := by
    refine .of_comes (.next ((s.held caller).goto caller .killTest) ?_
      (.next ((s.held caller).goto caller (.killUnlock false)) ?_
        (.next ((s.rested caller).goto caller (.killReturn false)) ?_ (.here ⟨?_, ?_⟩))))
    · simp [State.next, Call.entry]
    · simp [State.next, offline]
    · simp [State.next]
    · simp
    · simp
  run args := creates_of_noTid tid func args

/-- `Status` alone tells whether there is a thread. -/
theorem NotCreated.offline (notCreated : NotCreated s caller) : s.data.online = false := by
  obtain ⟨next, called, comes⟩ := notCreated.status
  have entered : next = (s.rested caller).goto caller .statusThread := by
    simpa [step, State.rested, Call.entry] using called.symm
  subst entered
  by_contra online
  obtain ⟨handle, running⟩ : s.data.thread ≠ 0 ∧ s.data.flag.hasExit = false := by
    simpa [Data.online] using online
  have second := comes.after ((s.rested caller).goto caller .statusFlag)
    (by simp [State.next, handle]) (by simp)
  have third := second.after ((s.rested caller).goto caller (.statusReturn true))
    (by simp [State.next, running]) (by simp)
  have last := third.after ((s.rested caller).goto caller .idle)
    (by simp [State.next]) (by simp)
  rcases last.cases with answer | ⟨after, taken, _⟩
  · simp at answer
  · simp [State.next] at taken

/-- A step that brings back neither an id nor a thread. -/
structure Keeps (s s' : State Caller Arg) : Prop where
  func : s'.data.func = s.data.func
  tid : s'.data.tid = s.data.tid
  offline : s.data.online = false → s'.data.online = false

structure Tries (s s' : State Caller Arg) (p q : Pc Arg) : Prop where
  func : s'.data.func = s.data.func
  inRun : q.inRun = true → p.inRun = true
  hasFunc : q.hasFunc = true → p.hasFunc = true ∨ s.data.func = true
  noTid : q.noTid = true → s'.data.tid = 0 ∨ p.noTid = true ∧ s'.data.tid = s.data.tid
  rewrites : q.rewrites = true → p.rewrites = true ∨ p.creates = true ∨ s.data.tid ≠ 0
  keeps : p.rewrites = true ∨ p.creates = true ∨ Keeps s s'

/-- The places outside `Run` have none of its marks. -/
theorem Pc.unmarked {Arg : Type} {p : Pc Arg} (outside : p.inRun = false) :
    p.hasFunc = false ∧ p.noTid = false ∧ p.rewrites = false ∧ p.creates = false := by
  cases p <;> first | exact ⟨rfl, rfl, rfl, rfl⟩ | cases outside

omit [DecidableEq Caller] in
theorem Tries.outside {p q : Pc Arg} (keeps : Keeps s s') (outside : q.inRun = false) :
    Tries s s' p q where
  func := keeps.func
  inRun := by simp [outside]
  hasFunc := by simp [Pc.unmarked outside]
  noTid := by simp [Pc.unmarked outside]
  rewrites := by simp [Pc.unmarked outside]
  keeps := .inr (.inr keeps)

omit [DecidableEq Caller] in
theorem Tries.kept {p q : Pc Arg} (tries : Tries s s' p q) (still : p.rewrites = false)
    (plain : p.creates = false) : Keeps s s' := by
  rcases tries.keeps with rewrites | creates | keeps
  · rw [still] at rewrites
    cases rewrites
  · rw [plain] at creates
    cases creates
  · exact keeps

private theorem lock_keeps {q : Pc Arg} (taken : s.lock caller q = some s') :
    s'.pc = Function.update s.pc caller q ∧ Keeps s s' := by
  obtain ⟨_, rfl⟩ := lock_eq_some taken
  exact ⟨rfl, rfl, rfl, id⟩

omit [DecidableEq Caller] in
theorem waitPath_outside (t : TimeUnit) : (waitPath t : Pc Arg).inRun = false := by
  rcases @waitPath_cases Arg t with path | path | path <;> rw [path] <;> rfl

private theorem next_tries (taken : s.next caller = some s') :
    ∃ q, s'.pc = Function.update s.pc caller q ∧ Tries s s' (s.pc caller) q := by
  cases here : s.pc caller <;> simp only [State.next, here] at taken
  case idle | gone | waitState => cases taken
  case waitLock | killLock | relock | destroyLock =>
    obtain ⟨pc, keeps⟩ := lock_keeps taken
    exact ⟨_, pc, .outside keeps rfl⟩
  case blocked waiter =>
    split at taken
    · cases taken
    · obtain ⟨pc, keeps⟩ := lock_keeps taken
      exact ⟨_, pc, .outside keeps (by cases waiter <;> rfl)⟩
  case waitJudge ret => cases ret <;> cases taken <;> exact ⟨_, rfl, .outside ⟨rfl, rfl, id⟩ rfl⟩
  case waitTest t =>
    cases taken
    refine ⟨_, rfl, .outside ⟨rfl, rfl, id⟩ ?_⟩
    split
    · exact waitPath_outside t
    · rfl
  case killTest | statusThread | destroyUnlock =>
    cases taken
    refine ⟨_, rfl, .outside ⟨rfl, rfl, id⟩ ?_⟩
    split <;> rfl
  case runTestFunc args =>
    cases taken
    refine ⟨_, rfl, rfl, fun _ => rfl, ?_, ?_, ?_, .inr (.inr ⟨rfl, rfl, id⟩)⟩
    · split
      · exact fun _ => .inr ‹_›
      · rintro ⟨⟩
    · split <;> rintro ⟨⟩
    · split <;> rintro ⟨⟩
  case runTestTid args =>
    cases taken
    refine ⟨_, rfl, rfl, fun _ => rfl, fun _ => .inl rfl, ?_, ?_, .inr (.inr ⟨rfl, rfl, id⟩)⟩
    · split
      · rintro ⟨⟩
      · exact fun _ => .inl (Decidable.not_not.mp ‹_›)
    · split
      · exact fun _ => .inr (.inr ‹_›)
      · rintro ⟨⟩
  case runTestExit args =>
    cases taken
    refine ⟨_, rfl, rfl, fun _ => rfl, fun _ => .inl rfl, ?_, fun _ => .inl rfl, .inl rfl⟩
    split <;> rintro ⟨⟩
  case runClearTid args =>
    cases taken
    exact ⟨_, rfl, rfl, fun _ => rfl, fun _ => .inl rfl, fun _ => .inl rfl, fun _ => .inl rfl, .inl rfl⟩
  case runClearThread | runClearFlag =>
    cases taken
    exact ⟨_, rfl, rfl, fun _ => rfl, fun _ => .inl rfl, fun _ => .inr ⟨rfl, rfl⟩, fun _ => .inl rfl,
      .inl rfl⟩
  case runWriteArgs | runNextTid =>
    cases taken
    exact ⟨_, rfl, rfl, fun _ => rfl, fun _ => .inl rfl, fun _ => .inr ⟨rfl, rfl⟩, by rintro ⟨⟩,
      .inr (.inr ⟨rfl, rfl, id⟩)⟩
  case runCreate tid =>
    cases taken
    exact ⟨_, rfl, rfl, fun _ => rfl, by rintro ⟨⟩, by rintro ⟨⟩, fun _ => .inr (.inl rfl),
      .inr (.inl rfl)⟩
  case runWriteTid tid =>
    cases taken
    exact ⟨_, rfl, rfl, fun _ => rfl, by rintro ⟨⟩, by rintro ⟨⟩, by rintro ⟨⟩, .inl rfl⟩
  case runReadTid =>
    cases taken
    exact ⟨_, rfl, rfl, fun _ => rfl, by rintro ⟨⟩, by rintro ⟨⟩, by rintro ⟨⟩,
      .inr (.inr ⟨rfl, rfl, id⟩)⟩
  all_goals
    cases taken
    exact ⟨_, rfl, .outside ⟨rfl, rfl, id⟩ rfl⟩

omit [DecidableEq Caller] in
private theorem threadNext_keeps {k : ℕ} (taken : s.threadNext k = some s') :
    s'.pc = s.pc ∧ Keeps s s' := by
  cases here : s.place k <;> simp only [State.threadNext, here] at taken
  case unborn | ended => cases taken
  case exitLock =>
    obtain ⟨mutex, _, rfl⟩ := Option.map_eq_some_iff.mp taken
    exact ⟨rfl, rfl, rfl, id⟩
  case exitMark =>
    cases taken
    exact ⟨rfl, rfl, rfl, fun _ => by simp [State.move, Data.online]⟩
  all_goals
    cases taken
    exact ⟨rfl, rfl, rfl, id⟩

/-- A step of the history: a caller moves on, enters `Run`, or has
`pthread_create` fail, or no caller moves. -/
inductive Recorded (h h' : History Caller Arg) (action : Action Caller Arg) : Prop where
  | moves (caller : Caller) (q : Pc Arg)
      (pc : h'.state.pc = Function.update h.state.pc caller q)
      (tries : Tries h.state h'.state (h.state.pc caller) q)
      (failed : h'.failed = (!(h.state.pc caller).creates && h.failed))
      (leaves : Leaves h action)
  | enters (caller : Caller) (args : Arg)
      (pc : h'.state.pc = Function.update h.state.pc caller (.runTestFunc args))
      (alone : ∀ c, (h.state.pc c).inRun = false) (keeps : Keeps h.state h'.state)
      (failed : h'.failed = h.failed) (leaves : Leaves h action)
  | fails (caller : Caller) (tid : UInt32) (left : ℕ) (here : h.state.pc caller = .runCreate tid)
      (same : action = .createFails caller left)
      (next : h' = ⟨h.state.write caller { h.state.data with thread := left } .runReadTid, true⟩)
  | elsewhere (pc : h'.state.pc = h.state.pc) (keeps : Keeps h.state h'.state)
      (failed : h'.failed = h.failed) (leaves : Leaves h action)

/-- A step of a caller outside `Run`, to a place outside it. -/
theorem Recorded.outside {q : Pc Arg} (taken : s' = h.state.write caller s'.data q)
    (keeps : Keeps h.state s') (outside : q.inRun = false)
    (plain : (h.state.pc caller).creates = false) (leaves : Leaves h action) :
    Recorded h ⟨s', h.failed⟩ action := by
  refine .moves caller q ?_ (.outside keeps outside) ?_ leaves
  · rw [taken]
    rfl
  · rw [plain]
    rfl

theorem step_recorded (alone : Alone h action) (taken : h.step action = some h') :
    Recorded h h' action := by
  obtain ⟨s', moved, rfl⟩ := Option.map_eq_some_iff.mp taken
  cases action with
  | call caller call =>
    simp only [Thread.step] at moved
    split at moved
    · rename_i here
      cases moved
      have plain : (h.state.pc caller).creates = false := by
        rw [here]
        rfl
      cases call with
      | run args => exact .enters caller args rfl alone ⟨rfl, rfl, id⟩ rfl trivial
      | _ => exact .outside rfl ⟨rfl, rfl, id⟩ rfl plain trivial
    · cases moved
  | run caller =>
    obtain ⟨q, pc, tries⟩ := next_tries moved
    exact .moves caller q pc tries rfl trivial
  | createFails caller left =>
    simp only [Thread.step] at moved
    split at moved
    · rename_i tid here
      cases moved
      exact .fails caller tid left here rfl rfl
    · cases moved
  | fail caller =>
    simp only [Thread.step] at moved
    split at moved
    case h_3 => cases moved
    all_goals
      rename_i here
      cases moved
      exact .outside rfl ⟨rfl, rfl, id⟩ rfl (by rw [here]; rfl) trivial
  | expire caller | wake caller =>
    simp only [Thread.step] at moved
    split at moved
    · rename_i here
      cases moved
      exact .outside rfl ⟨rfl, rfl, id⟩ rfl (by rw [here]; rfl) trivial
    · cases moved
  | state caller offline =>
    simp only [Thread.step] at moved
    split at moved
    · rename_i here
      split at moved
      · cases moved
      · cases moved
        exact .outside rfl ⟨rfl, rfl, id⟩ rfl (by rw [here]; rfl) trivial
    · cases moved
  | thread k =>
    obtain ⟨pc, keeps⟩ := threadNext_keeps moved
    exact .elsewhere pc keeps rfl trivial
  | cancel k =>
    simp only [Thread.step] at moved
    split at moved
    · cases moved
      exact .elsewhere rfl ⟨rfl, rfl, id⟩ rfl trivial
    · cases moved
  | getId k =>
    simp only [Thread.step] at moved
    split at moved
    · cases moved
      exact .elsewhere rfl ⟨rfl, rfl, id⟩ rfl trivial
    · cases moved
  | elsewhere =>
    cases moved
    exact .elsewhere rfl ⟨rfl, rfl, id⟩ rfl trivial

/-- Which fields the places in `Run` go with; at most one caller is there. -/
structure Tried (h : History Caller Arg) : Prop where
  one : ∀ c c', (h.state.pc c).inRun = true → (h.state.pc c').inRun = true → c = c'
  hasFunc : ∀ c, (h.state.pc c).hasFunc = true → h.state.data.func = true
  noTid : ∀ c, (h.state.pc c).noTid = true → h.state.data.tid = 0
  func : h.failed = true → h.state.data.func = true
  tid : h.failed = true → h.state.data.tid = 0
  quiet : h.failed = true → ∀ c, (h.state.pc c).rewrites = false

omit [DecidableEq Caller] in
private theorem construct_tried {func : Bool} {args : Arg} {clockSet : Bool} {tidMax : UInt32} :
    Tried (⟨construct func args clockSet tidMax, false⟩ : History Caller Arg) where
  one := fun _ _ inside => by cases inside
  hasFunc := fun _ inside => by cases inside
  noTid := fun _ inside => by cases inside
  func := nofun
  tid := nofun
  quiet := nofun

omit [DecidableEq Caller] in
/-- Who is in `Run` does not see another caller change what it goes by. -/
theorem Tried.undisturbed (tried : Tried h) {q : Pc Arg} {c : Caller} (other : c ≠ caller)
    (inside : (h.state.pc c).inRun = true)
    (tries : Tries h.state h'.state (h.state.pc caller) q) : Keeps h.state h'.state := by
  have outside : (h.state.pc caller).inRun = false := by
    by_contra both
    exact other (tried.one c caller inside (by simpa using both))
  obtain ⟨_, _, still, plain⟩ := Pc.unmarked outside
  exact tries.kept still plain

theorem Tried.moves (tried : Tried h) {q : Pc Arg}
    (pc : h'.state.pc = Function.update h.state.pc caller q)
    (tries : Tries h.state h'.state (h.state.pc caller) q)
    (failed : h'.failed = (!(h.state.pc caller).creates && h.failed)) : Tried h' := by
  have self : h'.state.pc caller = q := by rw [pc, Function.update_self]
  have others (c : Caller) (other : c ≠ caller) : h'.state.pc c = h.state.pc c := by
    rw [pc, Function.update_of_ne other]
  have back (c : Caller) (inside : (h'.state.pc c).inRun = true) :
      (h.state.pc c).inRun = true := by
    by_cases same : c = caller
    · rw [same, self] at inside
      exact same ▸ tries.inRun inside
    · rwa [others c same] at inside
  have before (now : h'.failed = true) : (h.state.pc caller).creates = false ∧ h.failed = true := by
    simpa [failed] using now
  have kept (now : h'.failed = true) : Keeps h.state h'.state := by
    obtain ⟨plain, earlier⟩ := before now
    exact tries.kept (tried.quiet earlier caller) plain
  refine ⟨fun c c' first second => tried.one c c' (back c first) (back c' second), ?_, ?_, ?_, ?_, ?_⟩
  · intro c inside
    rw [tries.func]
    by_cases same : c = caller
    · rw [same, self] at inside
      exact (tries.hasFunc inside).elim (tried.hasFunc caller) id
    · rw [others c same] at inside
      exact tried.hasFunc c inside
  · intro c inside
    by_cases same : c = caller
    · rw [same, self] at inside
      rcases tries.noTid inside with none | ⟨already, still⟩
      · exact none
      · exact still.trans (tried.noTid caller already)
    · rw [others c same] at inside
      have inRun : (h.state.pc c).inRun = true := by
        by_contra outside
        rw [(Pc.unmarked (by simpa using outside)).2.1] at inside
        cases inside
      exact (tried.undisturbed same inRun tries).tid.trans (tried.noTid c inside)
  · exact fun now => tries.func.trans (tried.func (before now).2)
  · exact fun now => (kept now).tid.trans (tried.tid (before now).2)
  · intro now c
    obtain ⟨plain, earlier⟩ := before now
    by_cases same : c = caller
    · rw [same, self]
      by_contra rewrites
      rcases tries.rewrites (by simpa using rewrites) with already | creates | tid
      · rw [tried.quiet earlier] at already
        cases already
      · rw [plain] at creates
        cases creates
      · exact tid (tried.tid earlier)
    · rw [others c same]
      exact tried.quiet earlier c

theorem Tried.enters (tried : Tried h) {args : Arg}
    (pc : h'.state.pc = Function.update h.state.pc caller (.runTestFunc args))
    (alone : ∀ c, (h.state.pc c).inRun = false) (keeps : Keeps h.state h'.state)
    (failed : h'.failed = h.failed) : Tried h' := by
  have others (c : Caller) (other : c ≠ caller) : h'.state.pc c = h.state.pc c := by
    rw [pc, Function.update_of_ne other]
  have entered : h'.state.pc caller = .runTestFunc args := by rw [pc, Function.update_self]
  have inside (c : Caller) (inRun : (h'.state.pc c).inRun = true) : c = caller := by
    by_contra other
    rw [others c other, alone c] at inRun
    cases inRun
  have quiet (c : Caller) : (h'.state.pc c).hasFunc = false ∧ (h'.state.pc c).noTid = false ∧
      (h'.state.pc c).rewrites = false := by
    by_cases same : c = caller
    · rw [same, entered]
      exact ⟨rfl, rfl, rfl⟩
    · obtain ⟨hasFunc, noTid, still, _⟩ := Pc.unmarked (alone c)
      rw [others c same]
      exact ⟨hasFunc, noTid, still⟩
  refine ⟨fun c c' first second => (inside c first).trans (inside c' second).symm, ?_, ?_, ?_, ?_, ?_⟩
  · intro c hasFunc
    rw [(quiet c).1] at hasFunc
    cases hasFunc
  · intro c noTid
    rw [(quiet c).2.1] at noTid
    cases noTid
  · exact fun now => keeps.func.trans (tried.func (failed ▸ now))
  · exact fun now => keeps.tid.trans (tried.tid (failed ▸ now))
  · exact fun _ c => (quiet c).2.2

theorem Tried.fails (tried : Tried h) {tid : UInt32} {left : ℕ}
    (here : h.state.pc caller = .runCreate tid) :
    Tried ⟨h.state.write caller { h.state.data with thread := left } .runReadTid, true⟩ := by
  have hasFunc := tried.hasFunc caller (by rw [here]; rfl)
  have noTid := tried.noTid caller (by rw [here]; rfl)
  have inRun : (h.state.pc caller).inRun = true := by
    rw [here]
    rfl
  have outside (c : Caller) (other : c ≠ caller) : (h.state.pc c).inRun = false := by
    by_contra both
    exact other (tried.one c caller (by simpa using both) inRun)
  have others (c : Caller) (other : c ≠ caller) :
      Function.update h.state.pc caller .runReadTid c = h.state.pc c :=
    Function.update_of_ne other ..
  refine ⟨fun c c' first second => ?_, fun _ _ => hasFunc, fun _ _ => noTid, fun _ => hasFunc,
    fun _ => noTid, fun _ c => ?_⟩
  · have inside (c : Caller) (there : (Function.update h.state.pc caller .runReadTid c).inRun = true) :
        c = caller := by
      by_contra other
      rw [others c other, outside c other] at there
      cases there
    exact (inside c first).trans (inside c' second).symm
  · change (Function.update h.state.pc caller .runReadTid c).rewrites = false
    by_cases same : c = caller
    · rw [same, Function.update_self]
      rfl
    · rw [others c same]
      exact (Pc.unmarked (outside c same)).2.2.1

omit [DecidableEq Caller] in
theorem Tried.elsewhere (tried : Tried h) (pc : h'.state.pc = h.state.pc)
    (keeps : Keeps h.state h'.state) (failed : h'.failed = h.failed) : Tried h' := by
  refine ⟨?_, ?_, ?_, ?_, ?_, ?_⟩
  · rw [pc]
    exact tried.one
  · rw [pc, keeps.func]
    exact tried.hasFunc
  · rw [pc, keeps.tid]
    exact tried.noTid
  · exact fun now => keeps.func.trans (tried.func (failed ▸ now))
  · exact fun now => keeps.tid.trans (tried.tid (failed ▸ now))
  · rw [pc, failed]
    exact tried.quiet

theorem step_tried (tried : Tried h) (alone : Alone h action) (taken : h.step action = some h') :
    Tried h' := by
  rcases step_recorded alone taken with ⟨caller, q, pc, tries, failed, _⟩ |
    ⟨caller, args, pc, outside, keeps, failed, _⟩ | ⟨caller, tid, left, here, _, rfl⟩ |
    ⟨pc, keeps, failed, _⟩
  · exact tried.moves pc tries failed
  · exact tried.enters pc outside keeps failed
  · exact tried.fails here
  · exact tried.elsewhere pc keeps failed

/-- What keeps the id and the exit keeps the `Thread` without a thread. -/
theorem Tried.safe (tried : Tried h') (safe : Safe h)
    (before : h'.failed = true → h.failed = true)
    (offline : h'.failed = true → h.state.data.online = false → h'.state.data.online = false) :
    Safe h' := fun now caller =>
  notCreated_of_offline (offline now (safe (before now) caller).offline) (tried.tid now)
    (tried.func now)

theorem step_safe_iff (tried : Tried h) (alone : Alone h action) (safe : Safe h)
    (taken : h.step action = some h') : Safe h' ↔ Leaves h action := by
  have next := step_tried tried alone taken
  rcases step_recorded alone taken with ⟨caller, q, pc, tries, failed, leaves⟩ |
    ⟨caller, args, pc, outside, keeps, failed, leaves⟩ | ⟨caller, tid, left, here, rfl, rfl⟩ |
    ⟨pc, keeps, failed, leaves⟩
  · refine iff_of_true (next.safe safe (fun now => ?_) fun now offline => ?_) leaves
    · simpa using (Bool.and_eq_true_iff.mp (failed ▸ now)).2
    · have before : (h.state.pc caller).creates = false ∧ h.failed = true := by
        simpa [failed] using now
      exact (tries.kept (tried.quiet before.2 caller) before.1).offline offline
  · exact iff_of_true (next.safe safe (fun now => failed ▸ now) fun _ => keeps.offline) leaves
  · have told : Data.online { h.state.data with thread := left } = false ↔
        Leaves h (.createFails caller left) := by
      simp [Leaves, Data.online, Decidable.or_iff_not_imp_left]
    constructor
    · exact fun fine => told.mp (fine rfl caller).offline
    · exact fun leaves _ _ => notCreated_of_offline (told.mpr leaves) (next.tid rfl) (next.func rfl)
  · exact iff_of_true (next.safe safe (fun now => failed ▸ now) fun _ => keeps.offline) leaves

/-- After a failed `Run` the `Thread` behaves as one without a thread, until a
`Run` succeeds, exactly if `pthread_create` leaves no handle where it fails. -/
theorem safe_iff_leaves (func clockSet : Bool) (args : Arg) (tidMax : UInt32)
    (actions : List (Action Caller Arg))
    (alone : Meets History.step Alone ⟨construct func args clockSet tidMax, false⟩ actions) :
    Always History.step Safe ⟨construct func args clockSet tidMax, false⟩ actions ↔
      Meets History.step Leaves ⟨construct func args clockSet tidMax, false⟩ actions :=
  always_iff_meets_of Tried (fun _ _ _ tried alone => step_tried tried alone)
    (fun _ _ _ tried alone safe => step_safe_iff tried alone safe) construct_tried nofun alone

instance (h : History Unit Arg) : (action : Action Unit Arg) → Decidable (Alone h action)
  | .call _ (.run _) => decidable_of_iff ((h.state.pc ()).inRun = false)
      ⟨fun outside _ => outside, fun outside => outside ()⟩
  | .call _ (.wait _) | .call _ .kill | .call _ .status | .call _ .getId | .call _ .destroy | .run _
  | .createFails .. | .fail _ | .expire _ | .wake _ | .state .. | .thread _ | .cancel _ | .getId _
  | .elsewhere => .isTrue trivial

instance (h : History Caller Arg) : (action : Action Caller Arg) → Decidable (Leaves h action)
  | .createFails _ left => inferInstanceAs (Decidable (left = 0 ∨ h.state.data.flag.hasExit = true))
  | .call .. | .run _ | .fail _ | .expire _ | .wake _ | .state .. | .thread _ | .cancel _ | .getId _
  | .elsewhere => .isTrue trivial

def failedRun (left : ℕ) : List (Action Unit ℕ) :=
  .call () (.run 7) :: List.replicate 4 (.run ()) ++ .createFails () left ::
    List.replicate 2 (.run ())

/-- `Run` fails, succeeds at the second try, and fails again after the exit. -/
def retriedRun : List (Action Unit ℕ) :=
  failedRun 0 ++ .call () (.run 8) :: List.replicate 7 (.run ()) ++
    List.replicate 10 (.thread 0) ++ .call () (.run 9) :: List.replicate 8 (.run ()) ++
      [.createFails () 0, .run ()]

theorem safe_retriedRun : Always History.step Safe ⟨construct true 0 true 1, false⟩ retriedRun :=
  (safe_iff_leaves true true 0 1 retriedRun (by decide)).mpr (by decide)

/-- `Run` returned 0, and `Status` says that the thread runs. -/
theorem failedRun_running : ∃ h,
    exec History.step ⟨construct true 0 true 1, false⟩ (failedRun 5) = some h ∧
      h.failed = true ∧ h.state.pc () = .idle ∧ h.state.data.tid = 0 ∧
      Answers h.state () .status (fun last => last.pc () = .statusReturn true) ∧ ¬ Safe h := by
  have ends : (exec History.step ⟨construct true 0 true 1, false⟩ (failedRun 5)).map (fun h =>
      (h.failed, h.state.pc (), h.state.data.tid, h.state.data.thread,
        h.state.data.flag.hasExit)) = some (true, .idle, 0, 5, false) := by decide
  obtain ⟨h, ran, same⟩ := Option.map_eq_some_iff.mp ends
  simp only [Prod.mk.injEq] at same
  obtain ⟨failed, idle, tid, handle, running⟩ := same
  refine ⟨h, ran, failed, idle, tid, ?_, fun safe => ?_⟩
  · refine .of_comes (.next ((h.state.rested ()).goto () .statusFlag) ?_
      (.next ((h.state.rested ()).goto () (.statusReturn true)) ?_ (.here ?_)))
    · simp [State.next, Call.entry, handle]
    · simp [State.next, running]
    · simp
  · have offline := (safe failed ()).offline
    simp [Data.online, handle, running] at offline

end Prot.System.Thread
