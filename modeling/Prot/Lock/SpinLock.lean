import Prot.Lock.ILock

/-! `lock_posix.cpp`, the spin lock on the `xchg` path: every step on the lock
word is one atomic exchange. -/

namespace Prot.Lock.SpinLock

open Concurrency

inductive Pc where
  | idle
  | getXchg
  | getSleep
  | getReturn
  | tryGetXchg
  | tryGetReturn (a : Int32)
  | freeXchg
  | freeReturn
  deriving DecidableEq, Repr

/-- The lock word `_syo` and the threads. -/
structure State (Thread : Type) where
  syo : Int32
  pc : Thread → Pc

inductive Call where
  | get
  | tryGet
  | free
  deriving DecidableEq, Repr

inductive Action (Thread : Type) where
  | call (thread : Thread) (call : Call)
  | run (thread : Thread)
  deriving DecidableEq, Repr

def Action.thread {Thread : Type} : Action Thread → Thread
  | .call thread _ | .run thread => thread

def Call.entry : Call → Pc
  | .get => .getXchg
  | .tryGet => .tryGetXchg
  | .free => .freeXchg

variable {Thread : Type} [DecidableEq Thread]

def fresh : State Thread where
  syo := 0
  pc := fun _ => .idle

def State.goto (s : State Thread) (thread : Thread) (pc : Pc) : State Thread :=
  { s with pc := Function.update s.pc thread pc }

def State.next (s : State Thread) (thread : Thread) : Option (State Thread) :=
  match s.pc thread with
  | .idle => none
  | .getXchg => some ({ s with syo := 1 }.goto thread (if s.syo = 0 then .getReturn else .getSleep))
  | .getSleep => some (s.goto thread .getXchg)
  | .getReturn => some (s.goto thread .idle)
  | .tryGetXchg => some ({ s with syo := 1 }.goto thread (.tryGetReturn s.syo))
  | .tryGetReturn _ => some (s.goto thread .idle)
  | .freeXchg => some ({ s with syo := 0 }.goto thread .freeReturn)
  | .freeReturn => some (s.goto thread .idle)

def step (s : State Thread) : Action Thread → Option (State Thread)
  | .call thread call => if s.pc thread = .idle then some (s.goto thread call.entry) else none
  | .run thread => s.next thread

/-- The word has been taken and the call is still to return, or it is still to
be given back. -/
def Pc.held : Pc → Bool
  | .getReturn | .freeXchg => true
  | .tryGetReturn a => a == 0
  | _ => false

def Pc.acquires : Pc → Bool
  | .getReturn => true
  | .tryGetReturn a => a == 0
  | _ => false

/-- The permits a lock word stands for. -/
def permits (syo : Int32) : ℕ := (syo == 0).toNat

def lock (Thread : Type) [DecidableEq Thread] [Fintype Thread] : ILock Thread where
  State := State Thread
  Action := Action Thread
  step := step
  get thread := .call thread .get
  tryGet thread := .call thread .tryGet
  free thread := .call thread .free
  inner _ action := match action with
    | .call _ _ => false
    | .run _ => true
  acquired s action := if (s.pc action.thread).acquires then some action.thread else none
  available s := permits s.syo
  held s := headcount Pc.held s.pc

variable [Fintype Thread] {s s' : State Thread} {thread : Thread} {call : Call}

theorem call_held (taken : step s (.call thread call) = some s') :
    (permits s'.syo + headcount Pc.held s'.pc : ℤ) =
      permits s.syo + headcount Pc.held s.pc + call.entry.held.toNat := by
  simp only [step] at taken
  split at taken
  · rename_i idle
    cases taken
    simp only [State.goto, headcount_move, idle]
    have none : (Pc.idle.held).toNat = 0 := rfl
    omega
  · cases taken

theorem run_held (within : (permits s.syo + headcount Pc.held s.pc : ℤ) ≤ 1)
    (taken : s.next thread = some s') :
    (permits s'.syo + headcount Pc.held s'.pc + (s.pc thread).acquires.toNat : ℤ) =
      permits s.syo + headcount Pc.held s.pc := by
  have used : permits 1 = 0 := rfl
  have free : permits 0 = 1 := rfl
  cases here : s.pc thread <;> simp only [State.next, here] at taken
  case idle => cases taken
  case getXchg =>
    cases taken
    have got : (if s.syo = 0 then Pc.getReturn else .getSleep).held.toNat = permits s.syo := by
      unfold permits
      by_cases zero : s.syo = 0
      · rw [if_pos zero, zero]
        rfl
      · rw [if_neg zero, beq_eq_false_iff_ne.mpr zero]
        rfl
    simp only [State.goto, headcount_move, here, got, used]
    simp only [Pc.held, Pc.acquires, Bool.toNat_false]
    omega
  case tryGetXchg =>
    cases taken
    have got : (Pc.tryGetReturn s.syo).held.toNat = permits s.syo := rfl
    simp only [State.goto, headcount_move, here, got, used]
    simp only [Pc.held, Pc.acquires, Bool.toNat_false]
    omega
  case freeXchg =>
    -- the word is taken as long as somebody is still to free it
    have holding : 0 < headcount Pc.held s.pc := headcount_pos_iff.mpr ⟨thread, by rw [here]; rfl⟩
    have taken_word : permits s.syo = 0 := by omega
    cases taken
    simp only [State.goto, headcount_move, here, taken_word, free, Pc.held, Pc.acquires,
      Bool.toNat_true, Bool.toNat_false]
    omega
  case tryGetReturn a =>
    cases taken
    have same : (Pc.tryGetReturn a).acquires = (Pc.tryGetReturn a).held := rfl
    have none : Pc.idle.held.toNat = 0 := rfl
    simp only [State.goto, headcount_move, here, same]
    omega
  case getReturn | getSleep | freeReturn =>
    cases taken
    simp only [State.goto, headcount_move, here, Pc.held, Pc.acquires, Bool.toNat_true,
      Bool.toNat_false]
    omega

/-- The spin lock neither loses its permit nor makes a second one. -/
theorem conserves (Thread : Type) [DecidableEq Thread] [Fintype Thread] :
    (lock Thread).Conserves 1 (fun _ => True) where
  nonneg s _ := Int.natCast_nonneg _
  get s thread s' _ taken := by
    refine ⟨trivial, ?_⟩
    rcases taken with got | tried
    · exact (call_held got).trans (add_zero _)
    · exact (call_held tried).trans (add_zero _)
  free s thread s' _ taken := ⟨trivial, call_held taken⟩
  inner s action s' _ within allowed taken := by
    refine ⟨trivial, ?_⟩
    cases action with
    | call thread call => cases allowed
    | run thread =>
      have kept := run_held within taken
      cases returns : (s.pc thread).acquires <;> simp [lock, Action.thread, returns] at kept ⊢ <;>
        exact kept

end Prot.Lock.SpinLock
