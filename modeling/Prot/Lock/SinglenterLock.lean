import Prot.Lock.ILock

/-! `SinglenterLock` of `lock_win32.cpp` and `lock_posix.cpp`: a kernel event that
resets itself, or a normal mutex. Either way each call of the system is one step. -/

namespace Prot.Lock.SinglenterLock

open Concurrency

inductive Pc where
  | idle
  | getWait
  | getReturn
  | tryGetWait
  | tryGetReturn (rv : Bool)
  | freeSet
  | freeReturn
  deriving DecidableEq, Repr

/-- Whether the event is signaled, or the mutex free, and the threads. -/
structure State (Thread : Type) where
  syo : Bool
  pc : Thread → Pc

inductive Call where
  | get
  | tryGet
  | free
  deriving DecidableEq, Repr

inductive Action (Thread : Type) where
  | call (thread : Thread) (call : Call)
  | run (thread : Thread)
  deriving DecidableEq, Repr

def Action.thread {Thread : Type} : Action Thread → Thread
  | .call thread _ | .run thread => thread

def Call.entry : Call → Pc
  | .get => .getWait
  | .tryGet => .tryGetWait
  | .free => .freeSet

variable {Thread : Type} [DecidableEq Thread]

def fresh : State Thread where
  syo := true
  pc := fun _ => .idle

def State.goto (s : State Thread) (thread : Thread) (pc : Pc) : State Thread :=
  { s with pc := Function.update s.pc thread pc }

/-- The step a thread executes next; `Get` waits without a limit. -/
def State.next (s : State Thread) (thread : Thread) : Option (State Thread) :=
  match s.pc thread with
  | .idle => none
  | .getWait => if s.syo then some ({ s with syo := false }.goto thread .getReturn) else none
  | .getReturn => some (s.goto thread .idle)
  | .tryGetWait => some ({ s with syo := false }.goto thread (.tryGetReturn s.syo))
  | .tryGetReturn _ => some (s.goto thread .idle)
  | .freeSet => some ({ s with syo := true }.goto thread .freeReturn)
  | .freeReturn => some (s.goto thread .idle)

def step (s : State Thread) : Action Thread → Option (State Thread)
  | .call thread call => if s.pc thread = .idle then some (s.goto thread call.entry) else none
  | .run thread => s.next thread

def Pc.held : Pc → Bool
  | .getReturn | .freeSet => true
  | .tryGetReturn rv => rv
  | _ => false

def Pc.acquires : Pc → Bool
  | .getReturn => true
  | .tryGetReturn rv => rv
  | _ => false

def lock (Thread : Type) [DecidableEq Thread] [Fintype Thread] : ILock Thread where
  State := State Thread
  Action := Action Thread
  step := step
  get thread := .call thread .get
  tryGet thread := .call thread .tryGet
  free thread := .call thread .free
  inner _ action := match action with
    | .call _ _ => false
    | .run _ => true
  acquired s action := if (s.pc action.thread).acquires then some action.thread else none
  available s := s.syo.toNat
  held s := headcount Pc.held s.pc

variable [Fintype Thread] {s s' : State Thread} {thread : Thread} {call : Call}

omit [DecidableEq Thread] in
theorem fresh_held : headcount Pc.held (fresh : State Thread).pc = 0 :=
  headcount_eq_zero_iff.mpr fun _ => rfl

theorem call_held (taken : step s (.call thread call) = some s') :
    (s'.syo.toNat + headcount Pc.held s'.pc : ℤ) =
      s.syo.toNat + headcount Pc.held s.pc + call.entry.held.toNat := by
  simp only [step] at taken
  split at taken
  · rename_i idle
    cases taken
    simp only [State.goto, headcount_move, idle]
    have none : (Pc.idle.held).toNat = 0 := rfl
    omega
  · cases taken

theorem run_held (within : (s.syo.toNat + headcount Pc.held s.pc : ℤ) ≤ 1)
    (taken : s.next thread = some s') :
    (s'.syo.toNat + headcount Pc.held s'.pc + (s.pc thread).acquires.toNat : ℤ) =
      s.syo.toNat + headcount Pc.held s.pc := by
  cases here : s.pc thread <;> simp only [State.next, here] at taken
  case idle => cases taken
  case getWait =>
    split at taken
    · rename_i signaled
      cases taken
      simp only [State.goto, headcount_move, here, signaled, Pc.held, Pc.acquires, Bool.toNat_true,
        Bool.toNat_false]
      omega
    · cases taken
  case tryGetWait =>
    cases taken
    have got : (Pc.tryGetReturn s.syo).held.toNat = s.syo.toNat := rfl
    simp only [State.goto, headcount_move, here, got]
    simp only [Pc.held, Pc.acquires, Bool.toNat_false]
    omega
  case freeSet =>
    -- the lock is taken as long as somebody is still to free it
    have holding : 0 < headcount Pc.held s.pc := headcount_pos_iff.mpr ⟨thread, by rw [here]; rfl⟩
    cases taken
    simp only [State.goto, headcount_move, here, Pc.held, Pc.acquires, Bool.toNat_true,
      Bool.toNat_false]
    omega
  case tryGetReturn rv =>
    cases taken
    have same : (Pc.tryGetReturn rv).acquires = (Pc.tryGetReturn rv).held := rfl
    have none : Pc.idle.held.toNat = 0 := rfl
    simp only [State.goto, headcount_move, here, same]
    omega
  case getReturn | freeReturn =>
    cases taken
    simp only [State.goto, headcount_move, here, Pc.held, Pc.acquires, Bool.toNat_true,
      Bool.toNat_false]
    omega

/-- The lock neither loses its permit nor makes a second one. -/
theorem conserves (Thread : Type) [DecidableEq Thread] [Fintype Thread] :
    (lock Thread).Conserves 1 (fun _ => True) where
  nonneg s _ := Int.natCast_nonneg _
  get s thread s' _ taken := by
    refine ⟨trivial, ?_⟩
    rcases taken with got | tried
    · exact (call_held got).trans (add_zero _)
    · exact (call_held tried).trans (add_zero _)
  free s thread s' _ taken := ⟨trivial, call_held taken⟩
  inner s action s' _ within allowed taken := by
    refine ⟨trivial, ?_⟩
    cases action with
    | call thread call => cases allowed
    | run thread =>
      have kept := run_held within taken
      cases returns : (s.pc thread).acquires <;> simp [lock, Action.thread, returns] at kept ⊢ <;>
        exact kept

end Prot.Lock.SinglenterLock
