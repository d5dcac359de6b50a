import Prot.Concurrency.Waiting

/-! How many steps are left to threads that stop to begin new calls, around a
condition variable: a notification gives each thread that it unblocks two more, to
lock the mutex and to look at its condition again. -/

namespace Prot.Concurrency

universe u v
variable {Thread : Type u} [DecidableEq Thread] [Fintype Thread] {Place : Type v}

/-- The steps left at each place, and two for each thread that has been unblocked. -/
def effort (rank : Place → ℕ) (waits : Place → Bool) (blocked : List Thread)
    (place : Thread → Place) : ℕ :=
  total rank place + 2 * awake waits blocked place

/-- What a step of `thread` does to the places and the blocked threads, where it
brings all of them nearer to their ends. -/
inductive Turn (rank : Place → ℕ) (waits : Place → Bool) (thread : Thread) :
    Place → List Thread → Place → List Thread → Prop where
  | active (was : waits here = false) (is : waits next = false) (less : rank next < rank here) :
      Turn rank waits thread here blocked next blocked
  | block (was : waits here = false) (less : rank next < rank here) :
      Turn rank waits thread here blocked next (thread :: blocked)
  | retest (was : waits here = true) (gone : thread ∉ blocked) (is : waits next = false)
      (once : rank next ≤ rank here + 1) : Turn rank waits thread here blocked next blocked
  | leave (is : waits next = false) (less : rank next < rank here) :
      Turn rank waits thread here blocked next (blocked.filter (· ≠ thread))
  | notify (woken : List Thread) (less : rank next + 2 * Fintype.card Thread < rank here) :
      Turn rank waits thread here blocked next (blocked.filter (· ∉ woken))

variable {rank : Place → ℕ} {waits : Place → Bool} {blocked after : List Thread}
variable {place : Thread → Place} {thread : Thread} {here next : Place}

omit [Fintype Thread] in
/-- A notification may unblock everybody. -/
theorem notifies_self (broadcast : Bool) (blocked : List Thread) :
    notifies broadcast blocked blocked = true := by
  cases broadcast with
  | true => exact List.all_eq_true.mpr fun t member => decide_eq_true member
  | false => cases blocked <;> simp [notifies]

theorem awake_le_card : awake waits blocked place ≤ Fintype.card Thread := by
  have most : awake waits blocked place ≤ ∑ _ : Thread, 1 :=
    Finset.sum_le_sum fun _ _ => Bool.toNat_le _
  simpa using most

private theorem awake_turn_le (turn : Turn rank waits thread (place thread) blocked next after) :
    rank next + 2 * awake waits after (Function.update place thread next) <
      rank (place thread) + 2 * awake waits blocked place := by
  generalize standing : place thread = here at turn
  cases turn with
  | active was is less =>
    have same : awake waits blocked (Function.update place thread next) = awake waits blocked place :=
      awake_move_same (standing ▸ was) is
    omega
  | block was less =>
    have elsewhere : ∀ other, other ≠ thread → (other ∈ thread :: blocked ↔ other ∈ blocked) :=
      fun other apart => by simp [apart]
    have moved : awake waits (thread :: blocked) (Function.update place thread next) + _ = _ :=
      awake_move elsewhere
    have outside : unblocked waits blocked place thread = false := by
      simp [unblocked, standing, was]
    rw [outside] at moved
    simp only [List.mem_cons_self, not_true_eq_false, decide_false, Bool.and_false,
      Bool.toNat_false] at moved
    omega
  | retest was gone is once =>
    have fewer : awake waits blocked (Function.update place thread next) + 1 =
        awake waits blocked place := awake_retest (standing ▸ was) gone is
    omega
  | leave is less =>
    have moved : awake waits (blocked.filter (· ≠ thread)) (Function.update place thread next) + _ = _ :=
      awake_move mem_leave
    rw [is, Bool.false_and, Bool.toNat_false] at moved
    omega
  | notify woken less =>
    have most : awake waits (blocked.filter (· ∉ woken)) (Function.update place thread next) ≤
        Fintype.card Thread := awake_le_card
    omega

/-- Each such step leaves fewer of them. -/
theorem Turn.effort_lt (turn : Turn rank waits thread (place thread) blocked next after) :
    effort rank waits after (Function.update place thread next) < effort rank waits blocked place := by
  have fewer := awake_turn_le turn
  have change := total_update rank place thread next
  unfold effort
  omega

omit [DecidableEq Thread] in
private theorem total_le {bound : ℕ} (each : ∀ thread, rank (place thread) ≤ bound) :
    total rank place ≤ Fintype.card Thread * bound := by
  have most : total rank place ≤ ∑ _ : Thread, bound := Finset.sum_le_sum fun t _ => each t
  simpa using most

theorem effort_le {bound : ℕ} (each : ∀ thread, rank (place thread) ≤ bound) :
    effort rank waits blocked place ≤ Fintype.card Thread * (bound + 2) := by
  have places : total rank place ≤ _ := total_le each
  have most : awake waits blocked place ≤ _ := awake_le_card
  rw [Nat.mul_add]
  unfold effort
  omega

end Prot.Concurrency
