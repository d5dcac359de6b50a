import Prot.Lock.ILock
import Prot.Lock.EventAtomic

/-! An auto-reset event used as a lock: the set state is its one permit. -/

namespace Prot.Lock.Event

open Concurrency Time

def Pc.held : Pc → Bool
  | .waitUnlock rv | .waitReturn rv => rv
  | .setLock | .setWrite => true
  | _ => false

def Pc.acquires : Pc → Bool
  | .waitReturn rv => rv
  | _ => false

/-- Inside a call of `Reset`, which no user of a lock makes. -/
def Pc.resets : Pc → Bool
  | .resetLock | .resetWrite | .resetUnlock | .resetReturn => true
  | _ => false

variable {Thread : Type} [DecidableEq Thread] [Fintype Thread]

def lock (Thread : Type) [DecidableEq Thread] [Fintype Thread] : ILock Thread where
  State := State Thread
  Action := Action Thread
  step := step
  get thread := .call thread (.wait .infinite)
  tryGet thread := .call thread (.wait .zero)
  free thread := .call thread .set
  inner _ action := match action with
    | .call _ _ | .fail _ => false
    | _ => true
  acquired s action := if (s.pc action.thread).acquires then some action.thread else none
  available s := s.state.toNat
  held s := headcount Pc.held s.pc

variable {s s' : State Thread} {thread : Thread} {action : Action Thread} {v v' : Bool}
variable {blocked after : List Thread} {here next : Pc}

omit [Fintype Thread] in
/-- The state, what the thread of the step holds of it and what it has returned. -/
theorem Effect.permit (effect : Effect false thread false v blocked here v' after next)
    (busy : here ≠ .idle) (sound : here ≠ .waitFailed) (read : ∀ rv, here.read = some rv → v = rv)
    (unreset : here.resets = false) (room : here.held = true → v = false) :
    v'.toNat + next.held.toNat + here.acquires.toNat = v.toNat + here.held.toNat := by
  cases effect with
  | silent edge =>
    cases edge with
    | call => exact absurd rfl busy
    | failed => exact absurd rfl sound
    | branch =>
      rw [waitPath]
      split <;> rfl
    | waitReturned => exact Nat.add_right_comm _ _ _
    | _ => rfl
  | set =>
    have off : v = false := room rfl
    subst off
    rfl
  | reset => cases unreset
  | pass => split <;> rfl
  | @take _ _ ok =>
    have same : v = ok := read ok rfl
    subst same
    cases v <;> rfl
  | _ => rfl

omit [Fintype Thread] in
theorem Effect.unreset (effect : Effect false thread false v blocked here v' after next)
    (busy : here ≠ .idle) (unreset : here.resets = false) : next.resets = false := by
  cases effect with
  | silent edge =>
    cases edge with
    | call => exact absurd rfl busy
    | branch =>
      rw [waitPath]
      split <;> rfl
    | _ => first | rfl | exact unreset
  | pass => split <;> rfl
  | reset => cases unreset
  | _ => rfl

structure Shared (s : State Thread) : Prop where
  auto : s.manual = false
  settled : Settled s
  unreset : ∀ t, (s.pc t).resets = false

theorem shared_call {call : Call} (shared : Shared s) (entry : call.entry.resets = false)
    (taken : step s (.call thread call) = some s') :
    Shared s' ∧ (s'.state.toNat + headcount Pc.held s'.pc : ℤ) =
      s.state.toNat + headcount Pc.held s.pc + call.entry.held.toNat := by
  have settled := step_settled shared.settled rfl taken
  simp only [step] at taken
  split at taken
  · rename_i idle
    cases taken
    refine ⟨⟨shared.auto, settled, fun t => ?_⟩, ?_⟩
    · by_cases same : t = thread
      · subst same
        simpa [State.goto] using entry
      · simpa [State.goto, same] using shared.unreset t
    · simp only [State.goto, headcount_move, idle]
      have none : (Pc.idle.held).toNat = 0 := rfl
      omega
  · cases taken

theorem shared_inner (shared : Shared s)
    (within : (s.state.toNat + headcount Pc.held s.pc : ℤ) ≤ 1) (succeeds : action.fails = false)
    (busy : s.pc action.thread ≠ .idle) (taken : step s action = some s') :
    Shared s' ∧ (s'.state.toNat + headcount Pc.held s'.pc +
      (s.pc action.thread).acquires.toNat : ℤ) = s.state.toNat + headcount Pc.held s.pc := by
  obtain ⟨kind, p, moved, effect⟩ := step_effect taken
  have settled := step_settled shared.settled succeeds taken
  rw [succeeds, shared.auto] at effect
  have room (holds : (s.pc action.thread).held = true) : s.state = false := by
    have some : 0 < headcount Pc.held s.pc := headcount_pos_iff.mpr ⟨_, holds⟩
    apply Bool.toNat_eq_zero.mp
    omega
  refine ⟨⟨kind.trans shared.auto, settled, fun t => ?_⟩, ?_⟩
  · rw [moved]
    by_cases same : t = action.thread
    · subst same
      rw [Function.update_self]
      exact effect.unreset busy (shared.unreset _)
    · rw [Function.update_of_ne same]
      exact shared.unreset t
  · have kept := effect.permit busy (shared.settled.sound _) (shared.settled.read _)
      (shared.unreset _) room
    rw [moved, headcount_move]
    omega

/-- An auto-reset event neither loses its permit nor makes a second one. -/
theorem conserves (Thread : Type) [DecidableEq Thread] [Fintype Thread] :
    (lock Thread).Conserves 1 Shared where
  nonneg s _ := Int.natCast_nonneg _
  get s thread s' shared taken := by
    rcases taken with got | tried
    · obtain ⟨kept, same⟩ := shared_call shared rfl got
      exact ⟨kept, same.trans (add_zero _)⟩
    · obtain ⟨kept, same⟩ := shared_call shared rfl tried
      exact ⟨kept, same.trans (add_zero _)⟩
  free s thread s' shared taken := shared_call shared rfl taken
  inner s action s' shared within allowed taken := by
    have succeeds : action.fails = false := by
      cases action with
      | fail => cases allowed
      | _ => rfl
    have busy : s.pc action.thread ≠ .idle := by
      intro idle
      obtain ⟨call, same, _⟩ := call_of_idle taken idle
      rw [same] at allowed
      cases allowed
    obtain ⟨kept, same⟩ := shared_inner shared within succeeds busy taken
    refine ⟨kept, ?_⟩
    cases returns : (s.pc action.thread).acquires <;> simp [lock, returns] at same ⊢ <;> exact same

end Prot.Lock.Event
