import Prot.Concurrency.Mutex
import Prot.Lock.CriticalSection

/-! `RecursiveLock` of `lock_win32.cpp` and `lock_posix.cpp`: a critical section or a
recursive mutex, which its owner may take again. Each call of the system is one step. -/

namespace Prot.Lock.RecursiveLock

open Concurrency CriticalSection

inductive Pc where
  | idle
  | getLock
  | getReturn
  | tryGetLock
  | tryGetReturn (rv : Bool)
  | freeUnlock
  | freeReturn
  deriving DecidableEq, Repr

structure State (Thread : Type) where
  syo : RecursiveMutex Thread
  pc : Thread → Pc

inductive Call where
  | get
  | tryGet
  | free
  deriving DecidableEq, Repr

inductive Action (Thread : Type) where
  | call (thread : Thread) (call : Call)
  | run (thread : Thread)
  deriving DecidableEq, Repr

def Action.thread {Thread : Type} : Action Thread → Thread
  | .call thread _ | .run thread => thread

def Call.entry : Call → Pc
  | .get => .getLock
  | .tryGet => .tryGetLock
  | .free => .freeUnlock

variable {Thread : Type} [DecidableEq Thread]

def fresh : State Thread where
  syo := none
  pc := fun _ => .idle

def State.goto (s : State Thread) (thread : Thread) (pc : Pc) : State Thread :=
  { s with pc := Function.update s.pc thread pc }

/-- The step a thread executes next; `Get` waits while another thread is the owner. -/
def State.next (s : State Thread) (thread : Thread) : Option (State Thread) :=
  match s.pc thread with
  | .idle => none
  | .getLock =>
    (s.syo.lock thread).map fun syo => { s with syo := syo }.goto thread .getReturn
  | .getReturn => some (s.goto thread .idle)
  | .tryGetLock =>
    match s.syo.lock thread with
    | none => some (s.goto thread (.tryGetReturn false))
    | some syo => some ({ s with syo := syo }.goto thread (.tryGetReturn true))
  | .tryGetReturn _ => some (s.goto thread .idle)
  | .freeUnlock => some ({ s with syo := s.syo.unlock thread }.goto thread .freeReturn)
  | .freeReturn => some (s.goto thread .idle)

def step (s : State Thread) : Action Thread → Option (State Thread)
  | .call thread call => if s.pc thread = .idle then some (s.goto thread call.entry) else none
  | .run thread => s.next thread

/-- The lock has been taken once more and the call is still to return, or it is still
to be given back once. -/
def Pc.held : Pc → Bool
  | .getReturn | .freeUnlock => true
  | .tryGetReturn rv => rv
  | _ => false

def Pc.acquires : Pc → Bool
  | .getReturn => true
  | .tryGetReturn rv => rv
  | _ => false

def lock (Thread : Type) [DecidableEq Thread] [Fintype Thread] : ILock Thread where
  State := State Thread
  Action := Action Thread
  step := step
  get thread := .call thread .get
  tryGet thread := .call thread .tryGet
  free thread := .call thread .free
  inner _ action := match action with
    | .call _ _ => false
    | .run _ => true
  acquired s action := if (s.pc action.thread).acquires then some action.thread else none
  available s := if s.syo.isNone then 1 else 0
  held s := headcount Pc.held s.pc

variable {s s' : State Thread} {thread other : Thread} {call : Call}

/-- How often a thread has the lock, apart from the call it is in. -/
def State.deep (s : State Thread) (thread : Thread) : ℤ :=
  s.syo.depth thread - (s.pc thread).held.toNat

/-- What a step of `thread` does to how often the threads have the lock. -/
structure Moves (s s' : State Thread) (thread : Thread) (change : ℤ) : Prop where
  self : s'.deep thread = s.deep thread + change
  others : ∀ other, other ≠ thread → s'.deep other = s.deep other

theorem goto_moves {pc : Pc} {change : ℤ}
    (same : (pc.held.toNat : ℤ) + change = (s.pc thread).held.toNat) :
    Moves s (s.goto thread pc) thread change where
  self := by
    simp only [State.deep, State.goto, Function.update_self]
    omega
  others other apart := by simp only [State.deep, State.goto, Function.update_of_ne apart]

theorem lock_moves {syo : RecursiveMutex Thread} {pc : Pc} (taken : s.syo.lock thread = some syo)
    (before : (s.pc thread).held = false) (after : pc.held = true) :
    Moves s ({ s with syo := syo }.goto thread pc) thread 0 where
  self := by
    simp only [State.deep, State.goto, Function.update_self, before, after,
      RecursiveMutex.depth_lock_self taken, Bool.toNat_true, Bool.toNat_false]
    omega
  others other apart := by
    simp only [State.deep, State.goto, Function.update_of_ne apart,
      RecursiveMutex.depth_lock_of_ne taken apart]

theorem unlock_moves (here : s.pc thread = .freeUnlock) (owns : 0 < s.syo.depth thread) :
    Moves s ({ s with syo := s.syo.unlock thread }.goto thread .freeReturn) thread 0 where
  self := by
    simp only [State.deep, State.goto, Function.update_self, here, Pc.held,
      RecursiveMutex.depth_unlock_self, Bool.toNat_true, Bool.toNat_false]
    omega
  others other apart := by
    simp only [State.deep, State.goto, Function.update_of_ne apart,
      RecursiveMutex.depth_unlock_of_ne apart]

private theorem call_moves (taken : step s (.call thread call) = some s') :
    Moves s s' thread (-call.entry.held.toNat) := by
  simp only [step] at taken
  split at taken
  · rename_i idle
    cases taken
    refine goto_moves ?_
    rw [idle]
    have none : Pc.idle.held.toNat = 0 := rfl
    omega
  · cases taken

/-- A thread has the lock once more when its call returns `True`. -/
theorem run_moves (counted : 0 ≤ s.deep thread) (taken : s.next thread = some s') :
    Moves s s' thread (s.pc thread).acquires.toNat := by
  cases here : s.pc thread <;> simp only [State.next, here] at taken
  case idle => cases taken
  case getLock =>
    obtain ⟨syo, locked, rfl⟩ := Option.map_eq_some_iff.mp taken
    exact lock_moves locked (by rw [here]; rfl) rfl
  case tryGetLock =>
    split at taken
    · cases taken
      exact goto_moves (by rw [here]; rfl)
    · rename_i syo locked
      cases taken
      exact lock_moves locked (by rw [here]; rfl) rfl
  case freeUnlock =>
    cases taken
    refine unlock_moves here ?_
    simp only [State.deep, here, Pc.held, Bool.toNat_true] at counted
    omega
  case getReturn | freeReturn | tryGetReturn =>
    cases taken
    refine goto_moves ?_
    rw [here]
    simp [Pc.held, Pc.acquires]

private theorem next_of_alone (here : s.pc thread ≠ .idle)
    (alone : ∀ other, 0 < s.syo.depth other → other = thread) : ∃ s', s.next thread = some s' := by
  obtain ⟨syo, locked⟩ := RecursiveMutex.lock_isSome alone
  cases place : s.pc thread <;> simp_all [State.next]

/-- The lock and the owners' accounts move together. -/
theorem Moves.counts {owned owned' : Thread → ℕ} {change : ℤ} (moves : Moves s s' thread change)
    (counts : ∀ other, s.deep other = owned other) (self : (owned' thread : ℤ) = owned thread + change)
    (others : ∀ other, other ≠ thread → owned' other = owned other) (other : Thread) :
    s'.deep other = owned' other := by
  by_cases same : other = thread
  · subst same
    rw [moves.self, counts, self]
  · rw [moves.others other same, counts, others other same]

section Nested

variable [Fintype Thread] {Data : Type} {first : Data}
variable {c c' : CriticalSection.State (lock Thread) Data}

/-- What holds along a run: every thread has the lock as often as it has got it and not
freed it. -/
structure Nested (first : Data) (c : CriticalSection.State (lock Thread) Data) : Prop where
  deep : ∀ thread, State.deep c.client.inside thread = c.client.owned thread
  kept : Kept first c

theorem Nested.alone (nested : Nested first c) : Alone c := by
  intro thread other owns too
  have depth (t : Thread) (got : 0 < c.client.owned t) :
      0 < RecursiveMutex.depth (State.syo c.client.inside) t := by
    have deep := nested.deep t
    unfold State.deep at deep
    omega
  exact RecursiveMutex.depth_unique (depth thread owns) (depth other too)

private theorem use_counts {use : ILock.Use (lock Thread)} {client : ILock.Client (lock Thread)}
    (leaves : c.leaves use = true)
    (deep : ∀ thread, State.deep c.client.inside thread = c.client.owned thread)
    (taken : c.client.step use = some client) (thread : Thread) :
    State.deep client.inside thread = client.owned thread := by
  cases use with
  | get caller | tryGet caller =>
    obtain ⟨inside, moved, rfl⟩ := Option.map_eq_some_iff.mp taken
    exact (call_moves moved).counts deep (add_zero _).symm (fun _ _ => rfl) thread
  | free caller owner =>
    simp only [State.leaves, Bool.and_eq_true, decide_eq_true_eq] at leaves
    obtain ⟨rfl, _⟩ := leaves
    simp only [ILock.Client.step] at taken
    split at taken
    · rename_i owns
      obtain ⟨inside, moved, rfl⟩ := Option.map_eq_some_iff.mp taken
      refine (call_moves moved).counts deep ?_ (fun other apart => Function.update_of_ne apart ..) thread
      change ((Function.update c.client.owned caller (c.client.owned caller - 1) caller : ℕ) : ℤ) = _
      rw [Function.update_self]
      have one : Call.free.entry.held.toNat = 1 := rfl
      omega
    · cases taken
  | inner action =>
    simp only [ILock.Client.step] at taken
    split at taken
    · rename_i inner
      obtain ⟨inside, moved, rfl⟩ := Option.map_eq_some_iff.mp taken
      cases action with
      | call caller call => cases inner
      | run caller =>
        have counted : 0 ≤ State.deep c.client.inside caller := deep caller ▸ Int.natCast_nonneg _
        refine (run_moves counted moved).counts deep ?_ (fun other apart => ?_) thread
        · cases returns : (c.client.inside.pc caller).acquires <;>
            simp [lock, ILock.credit, Action.thread, returns]
        · cases returns : (c.client.inside.pc caller).acquires <;>
            simp [lock, ILock.credit, Action.thread, returns, apart]
    · cases taken

theorem step_nested {action : CriticalSection.Action (lock Thread) Data} (nested : Nested first c)
    (taken : CriticalSection.step c action = some c') : Nested first c' := by
  refine ⟨?_, step_kept nested.alone nested.kept taken⟩
  rcases step_client taken with same | ⟨use, leaves, moved⟩
  · rw [same]
    exact nested.deep
  · exact use_counts leaves nested.deep moved

theorem run_nested {actions : List (CriticalSection.Action (lock Thread) Data)}
    (ran : exec CriticalSection.step (start fresh first) actions = some c) : Nested first c :=
  exec_invariant (Nested first) (fun _ _ _ nested taken => step_nested nested taken)
    ⟨fun _ => rfl, start_kept _⟩ ran

/-- Under a recursive lock the threads change the data one after another too, however
deep their uses of it are nested. A thread has the lock as often as it has got it and
not freed it, and a call waits only for another thread that has the lock. -/
theorem nested_serialized {actions : List (CriticalSection.Action (lock Thread) Data)}
    (ran : exec CriticalSection.step (start fresh first) actions = some c) :
    Serial first c ∧
      (∀ thread, c.client.inside.syo.depth thread =
        c.client.owned thread + (c.client.inside.pc thread).held.toNat) ∧
      ∀ thread, c.client.inside.pc thread ≠ .idle → State.next c.client.inside thread = none →
        ∃ other, other ≠ thread ∧ 0 < c.client.inside.syo.depth other := by
  have nested := run_nested ran
  refine ⟨nested.kept.serial nested.alone, fun thread => ?_, fun thread here waits => ?_⟩
  · have deep := nested.deep thread
    unfold State.deep at deep
    omega
  · by_contra nobody
    have alone : ∀ other, 0 < c.client.inside.syo.depth other → other = thread := by
      intro other has
      by_contra apart
      exact nobody ⟨other, apart, has⟩
    obtain ⟨_, moves⟩ := next_of_alone (s := c.client.inside) here alone
    rw [waits] at moves
    cases moves

/-- The first thread gets the lock a second time inside its change; the other one is
refused, and let in when the first has freed it twice. -/
def nestedRun : List (CriticalSection.Action (lock (Fin 2)) ℕ) :=
  [.use (.get 0), .use (.inner (.run 0)), .use (.inner (.run 0)),
    .use (.get 0), .use (.inner (.run 0)), .use (.inner (.run 0)), .read 0, .write 0 (· + 1),
    .use (.free 0 0), .use (.inner (.run 0)), .use (.inner (.run 0)),
    .use (.tryGet 1), .use (.inner (.run 1)), .use (.inner (.run 1)), .read 0, .write 0 (· + 1),
    .use (.free 0 0), .use (.inner (.run 0)), .use (.inner (.run 0)),
    .use (.tryGet 1), .use (.inner (.run 1)), .use (.inner (.run 1)), .read 1, .write 1 (· * 5)]

theorem nested_serialized_nestedRun :
    ∃ c, exec CriticalSection.step (start fresh 0) nestedRun = some c ∧ c.shared = 10 ∧
      Serial 0 c ∧ RecursiveMutex.depth (State.syo c.client.inside) 1 = 1 := by
  have there : (exec CriticalSection.step (start fresh 0) nestedRun).map (fun c =>
      (c.shared, c.client.owned 1, (State.pc c.client.inside 1).held)) = some (10, 1, false) := by
    decide
  obtain ⟨c, ran, final⟩ := Option.map_eq_some_iff.mp there
  obtain ⟨serial, depth, _⟩ := nested_serialized ran
  simp only [Prod.mk.injEq] at final
  obtain ⟨shared, owned, held⟩ := final
  exact ⟨c, ran, shared, serial, by rw [depth, owned, held]; rfl⟩

end Nested

end Prot.Lock.RecursiveLock
