import Prot.Concurrency.Threads

/-! A condition variable as the list of the threads blocked on it. A thread
that stands at a waiting place without being in the list has been unblocked,
and looks at its condition again when it runs. -/

namespace Prot.Concurrency

universe u v
variable {Thread : Type u} [DecidableEq Thread] {Place : Type v}

/-- A signal unblocks at least one blocked thread if there is one, a broadcast
all of them. -/
def notifies (broadcast : Bool) (blocked woken : List Thread) : Bool :=
  if broadcast then blocked.all (· ∈ woken) else blocked.isEmpty || blocked.any (· ∈ woken)

/-- The thread has been unblocked and has not moved since. -/
def unblocked (waits : Place → Bool) (blocked : List Thread) (place : Thread → Place)
    (thread : Thread) : Bool :=
  waits (place thread) && decide (thread ∉ blocked)

/-- The number of threads that have been unblocked and have not moved since. -/
def awake [Fintype Thread] (waits : Place → Bool) (blocked : List Thread)
    (place : Thread → Place) : ℕ :=
  headcount id (unblocked waits blocked place)

/-- Only threads that wait are blocked. -/
def AllWait (waits : Place → Bool) (blocked : List Thread) (place : Thread → Place) : Prop :=
  ∀ thread ∈ blocked, waits (place thread) = true

variable {waits : Place → Bool} {blocked after woken : List Thread} {place : Thread → Place}
variable {thread : Thread} {next : Place}

/-- A notification leaves nobody blocked, or is a signal that unblocks someone. -/
theorem notifies_cases {broadcast : Bool} (fine : notifies broadcast blocked woken = true) :
    blocked.filter (· ∉ woken) = [] ∨ broadcast = false ∧ ∃ t ∈ blocked, t ∈ woken := by
  cases broadcast with
  | false =>
    rcases Bool.or_eq_true_iff.mp fine with empty | found
    · left
      rw [List.isEmpty_iff.mp empty]
      rfl
    · obtain ⟨t, member, chosen⟩ := List.any_eq_true.mp found
      exact .inr ⟨rfl, t, member, of_decide_eq_true chosen⟩
  | true =>
    left
    apply List.filter_eq_nil_iff.mpr
    intro t member kept
    have chosen := of_decide_eq_true (List.all_eq_true.mp fine t member)
    exact of_decide_eq_true kept chosen

/-- A thread that moves to a place where it may be blocked leaves the others alone. -/
theorem AllWait.move (all : AllWait waits blocked place)
    (elsewhere : ∀ other, other ≠ thread → other ∈ after → other ∈ blocked)
    (mine : thread ∈ after → waits next = true) :
    AllWait waits after (Function.update place thread next) := by
  intro other member
  by_cases same : other = thread
  · subst same
    rw [Function.update_self]
    exact mine member
  · rw [Function.update_of_ne same]
    exact all other (elsewhere other same member)

omit [DecidableEq Thread] in
theorem AllWait.notMem (all : AllWait waits blocked place) (active : waits (place thread) = false) :
    thread ∉ blocked := by
  intro member
  cases active.symm.trans (all thread member)

private theorem unblocked_move (elsewhere : ∀ other, other ≠ thread → (other ∈ after ↔ other ∈ blocked)) :
    unblocked waits after (Function.update place thread next) =
      Function.update (unblocked waits blocked place) thread
        (waits next && decide (thread ∉ after)) := by
  funext other
  by_cases same : other = thread
  · subst same
    simp [unblocked]
  · simp [unblocked, same, elsewhere other same]

variable [Fintype Thread]

/-- One thread that moves, or becomes blocked or unblocked, changes the number
of awake threads by its own part. -/
theorem awake_move (elsewhere : ∀ other, other ≠ thread → (other ∈ after ↔ other ∈ blocked)) :
    awake waits after (Function.update place thread next) +
        (unblocked waits blocked place thread).toNat =
      awake waits blocked place + (waits next && decide (thread ∉ after)).toNat := by
  rw [awake, unblocked_move elsewhere]
  exact headcount_update id _ thread _

/-- A move between places where no thread waits changes nothing. -/
theorem awake_move_same (active : waits (place thread) = false) (goes : waits next = false) :
    awake waits blocked (Function.update place thread next) = awake waits blocked place := by
  have moved : awake waits blocked (Function.update place thread next) + _ = _ :=
    awake_move fun _ _ => Iff.rfl
  simpa [unblocked, active, goes] using moved

/-- An awake thread that runs is no longer counted. -/
theorem awake_retest (waiting : waits (place thread) = true) (gone : thread ∉ blocked)
    (goes : waits next = false) :
    awake waits blocked (Function.update place thread next) + 1 = awake waits blocked place := by
  have moved : awake waits blocked (Function.update place thread next) + _ = _ :=
    awake_move fun _ _ => Iff.rfl
  simpa [unblocked, waiting, gone, goes] using moved

omit [Fintype Thread] in
theorem mem_leave (other : Thread) (away : other ≠ thread) :
    other ∈ blocked.filter (· ≠ thread) ↔ other ∈ blocked := by
  simp [away]

omit [Fintype Thread] in
theorem notMem_leave : thread ∉ blocked.filter (· ≠ thread) := by
  simp

/-- A blocked thread that gives up was not counted and is not counted. -/
theorem awake_leave (asleep : thread ∈ blocked) (goes : waits next = false) :
    awake waits (blocked.filter (· ≠ thread)) (Function.update place thread next) =
      awake waits blocked place := by
  have moved : awake waits (blocked.filter (· ≠ thread)) (Function.update place thread next) + _ = _ :=
    awake_move mem_leave
  simpa [unblocked, asleep, goes] using moved

/-- A thread that leaves the list but not its place is awake. -/
theorem awake_wake (goes : waits next = true) :
    awake waits blocked place ≤
      awake waits (blocked.filter (· ≠ thread)) (Function.update place thread next) := by
  have moved : awake waits (blocked.filter (· ≠ thread)) (Function.update place thread next) + _ = _ :=
    awake_move mem_leave
  have one := Bool.toNat_le (unblocked waits blocked place thread)
  rw [goes, decide_eq_true notMem_leave, Bool.true_and, Bool.toNat_true] at moved
  omega

private theorem awake_unblock (all : AllWait waits blocked place) :
    awake waits (blocked.filter (· ∉ woken)) place =
      awake waits blocked place + headcount id fun thread => decide (thread ∈ blocked ∧ thread ∈ woken) := by
  rw [awake, awake, headcount, headcount, headcount, ← Finset.sum_add_distrib]
  refine Finset.sum_congr rfl fun thread _ => ?_
  by_cases member : thread ∈ blocked
  · by_cases chosen : thread ∈ woken <;> simp [unblocked, member, chosen, all thread member]
  · simp [unblocked, member]

/-- A notification that unblocks a blocked thread adds an awake one. -/
theorem awake_signal (all : AllWait waits blocked place) (member : thread ∈ blocked)
    (chosen : thread ∈ woken) :
    awake waits blocked place + 1 ≤ awake waits (blocked.filter (· ∉ woken)) place := by
  have some : 0 < headcount id fun t => decide (t ∈ blocked ∧ t ∈ woken) :=
    headcount_pos_iff.mpr ⟨thread, by simp [member, chosen]⟩
  rw [awake_unblock all]
  omega

end Prot.Concurrency
