import Prot.Lock.Permits
import Prot.Lock.SinglenterLock

/-! What the locks are for: data that threads read and write only between a
`Get` or `TryGet` that returned `True` and their `Free` of it. -/

namespace Prot.Lock.CriticalSection

open Concurrency ILock

variable {Thread : Type}

/-- The lock, the data it guards, what each thread has read of them and not yet
written back, and the changes that have been written, in their order. -/
structure State (lock : ILock Thread) (Data : Type) where
  client : Client lock
  shared : Data
  seen : Thread → Option Data
  changes : List (Data → Data)

/-- A thread uses the lock, reads the data, or writes back what it makes of them. -/
inductive Action (lock : ILock Thread) (Data : Type) where
  | use (use : Use lock)
  | read (thread : Thread)
  | write (thread : Thread) (change : Data → Data)

variable {Data : Type} [DecidableEq Thread] {lock : ILock Thread}

def start (inside : lock.State) (shared : Data) : State lock Data :=
  ⟨Client.start inside, shared, fun _ => none, []⟩

/-- A thread frees what it has got itself, and not in the middle of a change. -/
def State.leaves (s : State lock Data) : Use lock → Bool
  | .free thread owner => thread = owner && (s.seen thread).isNone
  | _ => true

def step (s : State lock Data) : Action lock Data → Option (State lock Data)
  | .use use =>
    if s.leaves use then (s.client.step use).map fun client => { s with client := client } else none
  | .read thread =>
    if 0 < s.client.owned thread then
      some { s with seen := Function.update s.seen thread (some s.shared) }
    else none
  | .write thread change => (s.seen thread).map fun x =>
    { s with
      shared := change x
      seen := Function.update s.seen thread none
      changes := s.changes ++ [change] }

/-- The threads had the data one after another: nobody is inside with another one,
and the data are what all the changes make of the first. -/
structure Serial (first : Data) (s : State lock Data) : Prop where
  alone : ∀ thread other, 0 < s.client.owned thread → 0 < s.client.owned other → thread = other
  seen : ∀ thread x, s.seen thread = some x → x = s.shared
  shared : s.shared = s.changes.foldl (fun x change => change x) first

variable {first : Data} {s s' : State lock Data}

/-- A thread in the middle of a change has got the lock and has read the data as they
are. -/
structure Kept (first : Data) (s : State lock Data) : Prop where
  owner : ∀ thread x, s.seen thread = some x → 0 < s.client.owned thread ∧ x = s.shared
  shared : s.shared = s.changes.foldl (fun x change => change x) first

/-- No two threads have got the lock. -/
def Alone (s : State lock Data) : Prop :=
  ∀ thread other, 0 < s.client.owned thread → 0 < s.client.owned other → thread = other

omit [DecidableEq Thread] in
theorem start_kept (inside : lock.State) : Kept first (start inside first : State lock Data) :=
  ⟨fun thread x reads => (by cases reads), rfl⟩

omit [DecidableEq Thread] in
theorem Kept.serial (kept : Kept first s) (alone : Alone s) : Serial first s :=
  ⟨alone, fun thread x reads => (kept.owner thread x reads).2, kept.shared⟩

private theorem owns_after {use : Use lock} {client : Client lock} {thread : Thread} {x : Data}
    (leaves : s.leaves use = true) (taken : s.client.step use = some client)
    (reads : s.seen thread = some x) (owns : 0 < s.client.owned thread) :
    0 < client.owned thread := by
  cases use with
  | get | tryGet =>
    obtain ⟨_, _, rfl⟩ := Option.map_eq_some_iff.mp taken
    exact owns
  | free caller owner =>
    simp only [State.leaves, Bool.and_eq_true, decide_eq_true_eq] at leaves
    obtain ⟨rfl, nothing⟩ := leaves
    simp only [Client.step] at taken
    split at taken
    · obtain ⟨_, _, rfl⟩ := Option.map_eq_some_iff.mp taken
      have other : thread ≠ caller := by
        rintro rfl
        rw [reads] at nothing
        cases nothing
      change 0 < Function.update s.client.owned caller _ thread
      rwa [Function.update_of_ne other]
    · cases taken
  | inner action =>
    simp only [Client.step] at taken
    split at taken
    · obtain ⟨_, _, rfl⟩ := Option.map_eq_some_iff.mp taken
      cases lock.acquired s.client.inside action with
      | none => exact owns
      | some acquirer =>
        by_cases same : thread = acquirer
        · subst same
          simp [credit]
        · simpa [credit, Function.update_of_ne same] using owns
    · cases taken

/-- The data are kept right by every step while one thread at most has the lock. -/
theorem step_kept {action : Action lock Data} (alone : Alone s) (kept : Kept first s)
    (taken : step s action = some s') : Kept first s' := by
  obtain ⟨owner, shared⟩ := kept
  cases action with
  | use use =>
    simp only [step] at taken
    split at taken
    · rename_i leaves
      obtain ⟨client, moved, rfl⟩ := Option.map_eq_some_iff.mp taken
      refine ⟨fun thread x reads => ?_, shared⟩
      obtain ⟨owns, same⟩ := owner thread x reads
      exact ⟨owns_after leaves moved reads owns, same⟩
    · cases taken
  | read thread =>
    simp only [step] at taken
    split at taken
    · rename_i owns
      cases taken
      refine ⟨fun other x reads => ?_, shared⟩
      change Function.update s.seen thread (some s.shared) other = some x at reads
      by_cases same : other = thread
      · subst same
        rw [Function.update_self] at reads
        exact ⟨owns, (Option.some.inj reads).symm⟩
      · rw [Function.update_of_ne same] at reads
        exact owner other x reads
    · cases taken
  | write thread change =>
    obtain ⟨x, reads, rfl⟩ := Option.map_eq_some_iff.mp taken
    obtain ⟨owns, rfl⟩ := owner thread x reads
    refine ⟨fun other y also_ => ?_, ?_⟩
    · change Function.update s.seen thread none other = some y at also_
      by_cases same : other = thread
      · subst same
        rw [Function.update_self] at also_
        cases also_
      · rw [Function.update_of_ne same] at also_
        exact absurd (alone other thread (owner other y also_).1 owns) same
    · change change s.shared = (s.changes ++ [change]).foldl (fun x change => change x) first
      rw [List.foldl_append, ← shared]
      rfl

/-- What a step does to the use of the lock. -/
theorem step_client {action : Action lock Data} (taken : step s action = some s') :
    s'.client = s.client ∨
      ∃ use, s.leaves use = true ∧ s.client.step use = some s'.client := by
  cases action with
  | use use =>
    simp only [step] at taken
    split at taken
    · rename_i leaves
      obtain ⟨client, moved, rfl⟩ := Option.map_eq_some_iff.mp taken
      exact .inr ⟨use, leaves, moved⟩
    · cases taken
  | read thread =>
    simp only [step] at taken
    split at taken
    · cases taken
      exact .inl rfl
    · cases taken
  | write thread change =>
    obtain ⟨x, _, rfl⟩ := Option.map_eq_some_iff.mp taken
    exact .inl rfl

variable [Fintype Thread] {invariant : lock.State → Prop}

structure Guarded (invariant : lock.State → Prop) (first : Data) (s : State lock Data) : Prop where
  inside : invariant s.client.inside
  permit : lock.available s.client.inside + s.client.holding = 1
  kept : Kept first s

omit [DecidableEq Thread] in
private theorem owner_unique {owned : Thread → ℕ} (one : total id owned ≤ 1) {thread other : Thread}
    (owns : 0 < owned thread) (too : 0 < owned other) : thread = other := by
  classical
  by_contra different
  have without := total_update id owned thread 0
  have rest : owned other ≤ total id (Function.update owned thread 0) := by
    have least := Finset.single_le_sum (f := Function.update owned thread 0) (fun _ _ => Nat.zero_le _)
      (Finset.mem_univ other)
    rwa [Function.update_of_ne (Ne.symm different)] at least
  simp only [id] at without
  omega

omit [DecidableEq Thread] in
theorem Guarded.alone (guarded : Guarded invariant first s) (law : lock.Conserves 1 invariant)
    (held : ∀ inside, 0 ≤ lock.held inside) : Alone s := by
  have available := law.nonneg _ guarded.inside
  have calls := held s.client.inside
  have permit := guarded.permit
  unfold Client.holding at permit
  exact fun thread other => owner_unique (by omega)

theorem step_guarded {action : Action lock Data} (law : lock.Conserves 1 invariant)
    (held : ∀ inside, 0 ≤ lock.held inside) (guarded : Guarded invariant first s)
    (taken : step s action = some s') : Guarded invariant first s' := by
  have kept := step_kept (guarded.alone law held) guarded.kept taken
  rcases step_client taken with same | ⟨use, _, moved⟩
  · exact ⟨same ▸ guarded.inside, same ▸ guarded.permit, kept⟩
  · obtain ⟨inside, permit⟩ := step_conserves law guarded.inside guarded.permit moved
    exact ⟨inside, permit, kept⟩

/-- Under a lock of one permit the threads have the data one after another. -/
theorem exec_serial (law : lock.Conserves 1 invariant) (held : ∀ inside, 0 ≤ lock.held inside)
    {inside : lock.State} (inv : invariant inside)
    (permit : lock.available inside + lock.held inside = 1) {actions : List (Action lock Data)}
    (ran : exec step (start inside first) actions = some s) : Serial first s := by
  have initially : Guarded invariant first (start inside first : State lock Data) := by
    refine ⟨inv, ?_, start_kept inside⟩
    simpa [start, Client.holding, Client.start, total] using permit
  have guarded := exec_invariant (Guarded invariant first)
    (fun _ _ _ guarded taken => step_guarded law held guarded taken) initially ran
  exact guarded.kept.serial (guarded.alone law held)

/-- A spin lock, a `SinglenterLock`, an auto-reset event that starts set and a semaphore
of one unit all let the threads change what they guard one after another: no
change is lost and none is made to data that have been changed since they were read. -/
theorem changes_serialized (first : Data) :
    (∀ (actions : List (Action (SpinLock.lock Thread) Data)) s,
      exec step (start SpinLock.fresh first) actions = some s → Serial first s) ∧
    (∀ (actions : List (Action (SinglenterLock.lock Thread) Data)) s,
      exec step (start SinglenterLock.fresh first) actions = some s → Serial first s) ∧
    (∀ (actions : List (Action (Event.lock Thread) Data)) s,
      exec step (start (Event.fresh false true) first) actions = some s → Serial first s) ∧
    ∀ (m : Int32) (inside : Semaphore.State Thread), Semaphore.construct 1 m = some inside →
      ∀ (actions : List (Action (Semaphore.lock Thread) Data)) s,
      exec step (start inside first) actions = some s → Serial first s := by
  refine ⟨fun actions s ran => ?_, fun actions s ran => ?_, fun actions s ran => ?_,
    fun m inside made actions s ran => ?_⟩
  · have none : (headcount SpinLock.Pc.held (SpinLock.fresh : SpinLock.State Thread).pc : ℤ) = 0 :=
      congrArg Nat.cast SpinLock.fresh_held
    exact exec_serial (SpinLock.conserves Thread) (fun _ => Int.natCast_nonneg _) trivial
      (congrArg (1 + ·) none) ran
  · have none : (headcount SinglenterLock.Pc.held
        (SinglenterLock.fresh : SinglenterLock.State Thread).pc : ℤ) = 0 :=
      congrArg Nat.cast SinglenterLock.fresh_held
    exact exec_serial (SinglenterLock.conserves Thread) (fun _ => Int.natCast_nonneg _) trivial
      (congrArg (1 + ·) none) ran
  · have none : (headcount Event.Pc.held (Event.fresh false true : Event.State Thread).pc : ℤ) = 0 :=
      congrArg Nat.cast (Event.fresh_held false true)
    exact exec_serial (Event.conserves Thread) (fun _ => Int.natCast_nonneg _)
      (Event.fresh_shared true) (congrArg (1 + ·) none) ran
  · obtain ⟨⟨ordered, _, _, below⟩, _⟩ := Semaphore.construct_eq_some made
    obtain ⟨shared, none, same⟩ := Semaphore.construct_shared made
    have law := Semaphore.conserves Thread below (Int32.le_iff_toInt_le.mp ordered)
    refine exec_serial law (fun _ => Int.natCast_nonneg _) shared ?_ ran
    change inside.current.toInt + (headcount Semaphore.Pc.held inside.pc : ℤ) = 1
    rw [none, same]
    rfl

/-- Two threads count up under a spin lock; one of them finds it taken first. -/
def countingRun : List (Action (SpinLock.lock (Fin 2)) ℕ) :=
  [.use (.get 0), .use (.inner (.run 0)), .use (.inner (.run 0)), .use (.get 1),
    .use (.inner (.run 1)), .read 0, .write 0 (· + 1), .use (.free 0 0), .use (.inner (.run 0)),
    .use (.inner (.run 1)), .use (.inner (.run 1)), .use (.inner (.run 1)), .read 1,
    .write 1 (· + 1), .use (.free 1 1)]

theorem changes_serialized_countingRun : ∃ s, exec step (start SpinLock.fresh 0) countingRun = some s ∧
    s.shared = 2 ∧ Serial 0 s := by
  have there : (exec step (start SpinLock.fresh 0) countingRun).map State.shared = some 2 := by decide
  obtain ⟨s, ran, shared⟩ := Option.map_eq_some_iff.mp there
  exact ⟨s, ran, shared, (changes_serialized 0).1 countingRun s ran⟩

end Prot.Lock.CriticalSection
