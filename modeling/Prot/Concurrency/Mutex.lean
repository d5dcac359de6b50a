import Mathlib.Logic.Function.Basic
import Mathlib.Data.Option.Basic

/-! Mutexes and the discipline of a program that uses them: the holder is
exactly the thread standing in the protected region. -/

namespace Prot.Concurrency

universe u v
variable {Thread : Type u} {Place : Type v}

/-- A mutex that its holder cannot take again; `none` is free. -/
abbrev Mutex (Thread : Type u) := Option Thread

/-- Taking the mutex is not enabled while it is held, by whatever thread. -/
def Mutex.lock (thread : Thread) : Mutex Thread → Option (Mutex Thread)
  | none => some (some thread)
  | some _ => none

/-- A mutex its holder may take again, with the number of further holds. -/
abbrev RecursiveMutex (Thread : Type u) := Option (Thread × Nat)

variable [DecidableEq Thread]

def RecursiveMutex.lock (thread : Thread) : RecursiveMutex Thread → Option (RecursiveMutex Thread)
  | none => some (some (thread, 0))
  | some (holder, more) => if holder = thread then some (some (thread, more + 1)) else none

/-- Unlocking by a thread that does not hold the mutex changes nothing. -/
def RecursiveMutex.unlock (thread : Thread) : RecursiveMutex Thread → RecursiveMutex Thread
  | none => none
  | some (holder, more) =>
    if holder = thread then (match more with
      | 0 => none
      | less + 1 => some (holder, less))
    else some (holder, more)

/-- How often a thread has taken the mutex and not given it back. -/
def RecursiveMutex.depth (mutex : RecursiveMutex Thread) (thread : Thread) : Nat :=
  match mutex with
  | none => 0
  | some (holder, more) => if holder = thread then more + 1 else 0

/-- The holder is the one thread standing in the protected region. -/
def Excludes (holder : Option Thread) (holds : Place → Bool) (place : Thread → Place) : Prop :=
  ∀ thread, holds (place thread) = true ↔ holder = some thread

variable {holder : Option Thread} {holds : Place → Bool} {place : Thread → Place}
variable {thread other : Thread} {next : Place}

omit [DecidableEq Thread] in
theorem Excludes.unique (excludes : Excludes holder holds place)
    (first : holds (place thread) = true) (second : holds (place other) = true) :
    thread = other := by
  have left := (excludes thread).mp first
  have right := (excludes other).mp second
  exact Option.some.inj (left.symm.trans right)

omit [DecidableEq Thread] in
theorem Excludes.outside_of_free (excludes : Excludes none holds place) (thread : Thread) :
    holds (place thread) = false := by
  cases inside : holds (place thread) with
  | false => rfl
  | true => cases (excludes thread).mp inside

theorem Excludes.enter (excludes : Excludes none holds place) (inside : holds next = true) :
    Excludes (some thread) holds (Function.update place thread next) := by
  intro other
  by_cases same : other = thread
  · subst same
    simp [inside]
  · simp [same, excludes.outside_of_free other, Ne.symm same]

theorem Excludes.leave (excludes : Excludes holder holds place)
    (inside : holds (place thread) = true) (outside : holds next = false) :
    Excludes none holds (Function.update place thread next) := by
  intro other
  by_cases same : other = thread
  · subst same
    simp [outside]
  · have away : holds (place other) ≠ true := fun here => same (excludes.unique here inside)
    simp [same, away]

theorem Excludes.stay (excludes : Excludes holder holds place)
    (same : holds next = holds (place thread)) :
    Excludes holder holds (Function.update place thread next) := by
  intro other
  by_cases equal : other = thread
  · subst equal
    simpa [same] using excludes other
  · simpa [equal] using excludes other

/-- What a step of `thread` may do with the mutex: nothing, take it while it is
free, or give it back. -/
inductive Locks (thread : Thread) : Mutex Thread → Bool → Mutex Thread → Bool → Prop where
  | stay {mutex : Mutex Thread} {inside : Bool} : Locks thread mutex inside mutex inside
  | enter {inside : Bool} : Locks thread none inside (some thread) true
  | leave {mutex : Mutex Thread} : Locks thread mutex true none false

theorem Excludes.locks {before after : Mutex Thread} (excludes : Excludes before holds place)
    (locks : Locks thread before (holds (place thread)) after (holds next)) :
    Excludes after holds (Function.update place thread next) := by
  generalize here : holds (place thread) = inside at locks
  generalize there : holds next = outside at locks
  cases locks with
  | stay => exact excludes.stay (there.trans here.symm)
  | enter => exact excludes.enter there
  | leave => exact excludes.leave here there

omit [DecidableEq Thread] in
theorem Mutex.lock_eq_some {before after : Mutex Thread}
    (taken : Mutex.lock thread before = some after) : before = none ∧ after = some thread := by
  cases before with
  | none => exact ⟨rfl, (Option.some.inj taken).symm⟩
  | some _ => cases taken

/-- A recursive mutex that no thread takes twice behaves like a plain one. -/
def ExcludesOnce (mutex : RecursiveMutex Thread) (holds : Place → Bool)
    (place : Thread → Place) : Prop :=
  ∃ holder : Option Thread, mutex = holder.map (fun thread => (thread, 0)) ∧
    Excludes holder holds place

variable {mutex after : RecursiveMutex Thread}

omit [DecidableEq Thread] in
theorem ExcludesOnce.unique (once : ExcludesOnce mutex holds place)
    (first : holds (place thread) = true) (second : holds (place other) = true) :
    thread = other := by
  obtain ⟨_, _, excludes⟩ := once
  exact excludes.unique first second

omit [DecidableEq Thread] in
theorem ExcludesOnce.free (outside : ∀ thread, holds (place thread) = false) :
    ExcludesOnce none holds place :=
  ⟨none, rfl, fun thread => by simp [outside thread]⟩

omit [DecidableEq Thread] in
theorem ExcludesOnce.eq_none (once : ExcludesOnce mutex holds place)
    (outside : ∀ thread, holds (place thread) = false) : mutex = none := by
  obtain ⟨holder, rfl, excludes⟩ := once
  cases holder with
  | none => rfl
  | some thread => exact absurd ((excludes thread).mpr rfl) (by simp [outside thread])

omit [DecidableEq Thread] in
private theorem ExcludesOnce.ne_none (once : ExcludesOnce mutex holds place)
    (inside : holds (place thread) = true) : mutex = some (thread, 0) := by
  obtain ⟨holder, same, excludes⟩ := once
  rw [same, (excludes thread).mp inside]
  rfl

/-- A thread outside the region takes the mutex only when it is free. -/
theorem ExcludesOnce.lock_eq_some (once : ExcludesOnce mutex holds place)
    (outside : holds (place thread) = false)
    (taken : RecursiveMutex.lock thread mutex = some after) :
    mutex = none ∧ after = some (thread, 0) := by
  obtain ⟨holder, same, excludes⟩ := once
  subst same
  cases holder with
  | none => exact ⟨rfl, (Option.some.inj taken).symm⟩
  | some owner =>
    by_cases equal : owner = thread
    · subst equal
      simp [(excludes owner).mpr rfl] at outside
    · simp [RecursiveMutex.lock, equal] at taken

theorem ExcludesOnce.enter (once : ExcludesOnce mutex holds place)
    (outside : holds (place thread) = false) (inside : holds next = true)
    (taken : RecursiveMutex.lock thread mutex = some after) :
    ExcludesOnce after holds (Function.update place thread next) := by
  obtain ⟨free, rfl⟩ := once.lock_eq_some outside taken
  subst free
  obtain ⟨holder, same, excludes⟩ := once
  cases holder with
  | none => exact ⟨some thread, rfl, excludes.enter inside⟩
  | some _ => cases same

theorem ExcludesOnce.leave (once : ExcludesOnce mutex holds place)
    (inside : holds (place thread) = true) (outside : holds next = false) :
    ExcludesOnce (RecursiveMutex.unlock thread mutex) holds (Function.update place thread next) := by
  rw [once.ne_none inside]
  obtain ⟨_, _, excludes⟩ := once
  exact ⟨none, by simp [RecursiveMutex.unlock], excludes.leave inside outside⟩

theorem ExcludesOnce.stay (once : ExcludesOnce mutex holds place)
    (same : holds next = holds (place thread)) :
    ExcludesOnce mutex holds (Function.update place thread next) := by
  obtain ⟨holder, equal, excludes⟩ := once
  exact ⟨holder, equal, excludes.stay same⟩

namespace RecursiveMutex

theorem depth_unique (holds : 0 < mutex.depth thread) (too : 0 < mutex.depth other) :
    thread = other := by
  cases mutex with
  | none => cases holds
  | some hold =>
    simp only [depth] at holds too
    split at holds <;> split at too
    · rename_i first second
      exact first.symm.trans second
    all_goals omega

theorem depth_lock_self (taken : mutex.lock thread = some after) :
    after.depth thread = mutex.depth thread + 1 := by
  cases mutex with
  | none =>
    cases taken
    simp [depth]
  | some hold =>
    simp only [lock] at taken
    split at taken
    · rename_i same
      cases taken
      simp [depth, same]
    · cases taken

theorem depth_lock_of_ne (taken : mutex.lock thread = some after) (apart : other ≠ thread) :
    after.depth other = mutex.depth other := by
  cases mutex with
  | none =>
    cases taken
    simp [depth, apart.symm]
  | some hold =>
    simp only [lock] at taken
    split at taken
    · rename_i same
      cases taken
      simp [depth, same, apart.symm]
    · cases taken

theorem depth_unlock_self : (mutex.unlock thread).depth thread = mutex.depth thread - 1 := by
  cases mutex with
  | none => rfl
  | some hold =>
    obtain ⟨holder, more⟩ := hold
    by_cases same : holder = thread
    · cases more <;> simp [unlock, depth, same]
    · simp [unlock, depth, same]

theorem depth_unlock_of_ne (apart : other ≠ thread) :
    (mutex.unlock thread).depth other = mutex.depth other := by
  cases mutex with
  | none => rfl
  | some hold =>
    obtain ⟨holder, more⟩ := hold
    by_cases same : holder = thread
    · cases more <;> simp [unlock, depth, same, apart.symm]
    · simp [unlock, same]

/-- Its holder can take the mutex again, and anybody if nobody holds it. -/
theorem lock_isSome (alone : ∀ other, 0 < mutex.depth other → other = thread) :
    ∃ after, mutex.lock thread = some after := by
  cases mutex with
  | none => exact ⟨_, rfl⟩
  | some hold =>
    have same : hold.1 = thread := alone hold.1 (by simp [depth])
    simp [lock, same]

end RecursiveMutex

end Prot.Concurrency
