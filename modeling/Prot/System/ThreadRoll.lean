import Prot.System.ThreadIdentity
import Prot.System.TidRoll

/-! The ids of the roll in `Thread::Run`, which takes each of them in one step,
and what becomes of the id 0. -/

namespace Prot.System.Thread

open Concurrency TidRoll

variable {Caller Arg : Type} [DecidableEq Caller] {s s' last : State Caller Arg}
variable {h h' : Identity Caller Arg} {caller owner : Caller} {args : Arg}
variable {action : Action Caller Arg} {actions : List (Action Caller Arg)}

/-- The step takes an id for this `Thread` or for another one. -/
def State.takes (s : State Caller Arg) : Action Caller Arg → Bool
  | .run caller => match s.pc caller with
    | .runNextTid => true
    | _ => false
  | .elsewhere => true
  | _ => false

def ids (h : Identity Caller Arg) (actions : List (Action Caller Arg)) : List UInt32 :=
  trace Identity.step (fun h action => if h.state.takes action then some h.state.tidMax else none)
    h actions

/-- A step that leaves the function, and takes an id or does not. -/
structure Rolls (s s' : State Caller Arg) (takes : Bool) : Prop where
  func : s'.data.func = s.data.func
  tidMax : s'.tidMax = if takes then s.tidMax + 3 else s.tidMax

private theorem lock_rolls {p : Pc Arg} (taken : s.lock caller p = some s') : Rolls s s' false := by
  obtain ⟨mutex, _, rfl⟩ := Option.map_eq_some_iff.mp taken
  exact ⟨rfl, rfl⟩

private theorem next_rolls (taken : s.next caller = some s') :
    Rolls s s' (s.takes (.run caller)) := by
  cases here : s.pc caller <;> simp only [State.next, here] at taken <;>
    simp only [State.takes, here]
  case idle | gone | waitState => cases taken
  case waitLock | killLock | relock | destroyLock => exact lock_rolls taken
  case blocked waiter =>
    split at taken
    · cases taken
    · exact lock_rolls taken
  case waitJudge ret => cases ret <;> cases taken <;> exact ⟨rfl, rfl⟩
  all_goals
    cases taken
    exact ⟨rfl, rfl⟩

omit [DecidableEq Caller] in
private theorem threadNext_rolls {k : ℕ} (taken : s.threadNext k = some s') : Rolls s s' false := by
  cases here : s.place k <;> simp only [State.threadNext, here] at taken
  case unborn | ended => cases taken
  case exitLock =>
    obtain ⟨mutex, _, rfl⟩ := Option.map_eq_some_iff.mp taken
    exact ⟨rfl, rfl⟩
  all_goals
    cases taken
    exact ⟨rfl, rfl⟩

theorem step_rolls (taken : step s action = some s') : Rolls s s' (s.takes action) := by
  cases action with
  | run caller => exact next_rolls taken
  | thread k => exact threadNext_rolls taken
  | elsewhere =>
    cases taken
    exact ⟨rfl, rfl⟩
  | state caller offline =>
    simp only [step] at taken
    split at taken
    · split at taken <;> cases taken
      exact ⟨rfl, rfl⟩
    · cases taken
  | _ =>
    simp only [step] at taken
    split at taken <;> cases taken <;> exact ⟨rfl, rfl⟩

/-- What is learnt of the ids changes nothing in the `Thread`. -/
theorem Identity.step_state (taken : h.step action = some h') :
    Thread.step h.state action = some h'.state := by
  obtain ⟨s, moved, rfl⟩ := Option.map_eq_some_iff.mp taken
  rw [moved]
  cases action <;> simp

/-- Whatever is done with a `Thread`, the process is as far in the roll as ids have
been taken. -/
theorem run_rolls {n : ℕ} (start : h.state.tidMax = nth n)
    (ran : exec Identity.step h actions = some h') :
    h'.state.tidMax = nth (n + (ids h actions).length) ∧
      h'.state.data.func = h.state.data.func := by
  induction actions generalizing h n with
  | nil =>
    cases ran
    exact ⟨start, rfl⟩
  | cons action rest ih =>
    obtain ⟨middle, taken, continued⟩ := exec_cons_eq_some ran
    obtain ⟨func, tidMax⟩ := step_rolls (Identity.step_state taken)
    have split : ids h (action :: rest) =
        (if h.state.takes action then some h.state.tidMax else none).toList ++ ids middle rest :=
      trace_cons_some taken
    rw [split, List.length_append]
    cases takes : h.state.takes action with
    | false =>
      obtain ⟨same, kept⟩ := ih (n := n) (by rw [tidMax, takes]; exact start) continued
      simpa [func] using And.intro same kept
    | true =>
      obtain ⟨same, kept⟩ := ih (n := n + 1)
        (by rw [tidMax, takes, if_pos rfl, start]; rfl) continued
      have count : n + 1 + (ids middle rest).length = n + (1 + (ids middle rest).length) := by omega
      rw [count] at same
      exact ⟨same, kept.trans func⟩

private theorem comes_started (here : s.pc caller = .runNextTid) :
    Comes s caller fun last => last.pc caller = .runReturn s.tidMax ∧
      last.data.tid = s.tidMax ∧ last.data.func = s.data.func ∧
      last.data.flag = s.data.flag ∧ last.place s.born = .setSpecific := by
  refine ⟨4, ?_⟩
  simp [exec, step, State.next, State.write, State.goto, List.replicate, here]

/-- While a thread has not exited, `Run` creates another one only for want of an id. -/
theorem creates_iff (func : s.data.func = true) (running : s.data.flag.hasExit = false) (args : Arg) :
    (Answers s caller (.run args) fun last => ∃ tid, last.pc caller = .runCreate tid) ↔
      s.data.tid = 0 := by
  refine ⟨fun answers => ?_, fun tid => creates_of_noTid tid func args⟩
  obtain ⟨next, called, comes⟩ := answers
  have entered : next = (s.rested caller).goto caller (.runTestFunc args) := by
    simpa [step, State.rested, Call.entry] using called.symm
  subst entered
  by_contra tid
  have second := comes.after ((s.rested caller).goto caller (.runTestTid args))
    (by simp [State.next, func]) (by simp)
  have third := second.after ((s.rested caller).goto caller (.runTestExit args))
    (by simp [State.next, tid]) (by simp)
  have fourth := third.after ((s.rested caller).goto caller (.runReturn 0))
    (by simp [State.next, running]) (by simp)
  have last := fourth.after ((s.rested caller).goto caller .idle) (by simp [State.next]) (by simp)
  rcases last.cases with answer | ⟨after, taken, _⟩
  · simp at answer
  · simp [State.next] at taken

/-- In every run from the start of a process, in which the owner alone has called `Run`
and taken no id 0 yet: the `Run` that takes the `n`-th id starts a thread where there
is none and returns that id, and before that thread has exited another `Run` starts a
second one exactly if `n` is 1431655765 modulo 2 ^ 32, for which alone it returns 0. -/
theorem second_thread_iff (owner : Caller) (clockSet : Bool) (args again : Arg)
    (actions : List (Action Caller Arg))
    (owned : Meets Identity.step (Owned owner) (.construct true args clockSet 1) actions)
    (ran : exec Identity.step (.construct true args clockSet 1) actions = some h)
    (here : h.state.pc owner = .runNextTid) :
    (∀ k, (h.state.place k).alive = false) ∧
      (nth (ids (.construct true args clockSet 1) actions).length = 0 ↔
        (ids (.construct true args clockSet 1) actions).length % 2 ^ 32 = 1431655765) ∧
      Comes h.state owner fun last =>
        last.pc owner = .runReturn (nth (ids (.construct true args clockSet 1) actions).length) ∧
        (last.place h.state.born).alive = true ∧
        ((Answers last owner (.run again) fun after => ∃ tid, after.pc owner = .runCreate tid) ↔
          (ids (.construct true args clockSet 1) actions).length % 2 ^ 32 = 1431655765) := by
  have known : Known owner h := exec_invariant_of_meets (Known owner)
    (fun _ _ _ known owned taken => step_known known owned taken) construct_known owned ran
  have start : (.construct true args clockSet 1 : Identity Caller Arg).state.tidMax = nth 0 := rfl
  obtain ⟨rolled, func⟩ := run_rolls start ran
  rw [Nat.zero_add] at rolled
  have stage := known.stage
  rw [here] at stage
  obtain ⟨_, _, hasExit, dead⟩ := stage
  refine ⟨dead, nth_eq_zero_iff, ?_⟩
  obtain ⟨n, last, run, returns, tid, kept, flag, place⟩ := comes_started here
  refine ⟨n, last, run, rolled ▸ returns, by rw [place]; rfl, ?_⟩
  rw [creates_iff (kept.trans func) (by rw [flag]; exact hasExit), tid, rolled]
  exact nth_eq_zero_iff

/-- A process in which others have taken ids. -/
def Identity.after (h : Identity Caller Arg) (n : ℕ) : Identity Caller Arg :=
  { h with state := { h.state with tidMax := nth n } }

private theorem exec_elsewhere (n k : ℕ) :
    exec Identity.step (h.after n) (List.replicate k .elsewhere) = some (h.after (n + k)) := by
  induction k generalizing n with
  | zero => rfl
  | succ k ih =>
    have next : n + (k + 1) = n + 1 + k := by omega
    rw [List.replicate_succ, next, ← ih (n + 1)]
    rfl

private theorem meets_elsewhere (n k : ℕ)
    (rest : Meets Identity.step (Owned owner) (h.after (n + k)) actions) :
    Meets Identity.step (Owned owner) (h.after n) (List.replicate k .elsewhere ++ actions) := by
  induction k generalizing n with
  | zero => exact rest
  | succ k ih =>
    rw [List.replicate_succ, List.cons_append]
    intro next taken
    obtain rfl : h.after (n + 1) = next := Option.some.inj taken
    refine ⟨trivial, ih (n + 1) ?_⟩
    have count : n + 1 + k = n + (k + 1) := by omega
    rwa [count]

/-- As many ids are taken as there are before 0, and then the owner calls `Run`. -/
def zeroRun : List (Action Unit ℕ) :=
  List.replicate 1431655765 .elsewhere ++ .call () (.run 7) :: List.replicate 3 (.run ())

theorem second_thread_zero : ∃ h : Identity Unit ℕ,
    exec Identity.step (.construct true 0 true 1) zeroRun = some h ∧
      Comes h.state () fun last => last.pc () = .runReturn 0 ∧
        (last.place h.state.born).alive = true ∧
        Answers last () (.run 8) fun after => ∃ tid, after.pc () = .runCreate tid := by
  have start : (Identity.construct true 0 true 1 : Identity Unit ℕ) =
      (Identity.construct true 0 true 0).after 0 := rfl
  have zero : (Identity.construct true 0 true 0 : Identity Unit ℕ).after (0 + 1431655765) =
      .construct true 0 true 0 := by
    rw [Identity.after, Nat.zero_add, nth_inverse]
    rfl
  have ends : (exec Identity.step (.construct true 0 true 0 : Identity Unit ℕ)
      (.call () (.run 7) :: List.replicate 3 (.run ()))).map
        (fun h => (decide (h.state.pc () = .runNextTid), h.state.tidMax)) = some (true, 0) := by decide
  obtain ⟨h, onwards, same⟩ := Option.map_eq_some_iff.mp ends
  simp only [Prod.mk.injEq, decide_eq_true_eq] at same
  have ran : exec Identity.step (.construct true 0 true 1) zeroRun = some h := by
    refine exec_trans ?_ onwards
    rw [start, exec_elsewhere, zero]
  have owned : Meets Identity.step (Owned ()) (.construct true 0 true 1) zeroRun := by
    rw [start]
    refine meets_elsewhere 0 _ ?_
    rw [zero]
    decide
  obtain ⟨_, nth_zero, n, last, run, returns, alive, creates⟩ :=
    second_thread_iff () true 0 8 zeroRun owned ran same.1
  have rolled := (run_rolls (n := 0) (h := (Identity.construct true 0 true 1 : Identity Unit ℕ))
    rfl ran).1
  rw [same.2, Nat.zero_add] at rolled
  exact ⟨h, ran, n, last, run, rolled ▸ returns, alive, creates.mpr (nth_zero.mp rolled.symm)⟩

end Prot.System.Thread
