import Prot.Concurrency.Threads
import Prot.Lock.SemaphoreInvariant

/-! The counter of the semaphore against the results of `Wait` and `Post`: it
is exact as long as no `Post` is carried out whose sum leaves 32 bits. -/

namespace Prot.Lock.Semaphore

open Concurrency Time

/-- What the operation in progress has added to `current`. -/
def Pc.own : Pc → ℤ
  | .tryUnlock _ true | .waitUnlock true | .waitReturn true => -1
  | .postNotify n _ _ | .postUndo n _ _ => n.toInt
  | .postUnlock n (some _) | .postReturn n (some _) => n.toInt
  | _ => 0

/-- The number a `Post` has added, with the `current` and the `maximum` of its
locked test. -/
def Pc.added : Pc → Option (Int32 × Int32 × Int32)
  | .postNotify n c m | .postUndo n c m => some (n, c, m)
  | .postUnlock n (some (c, m)) | .postReturn n (some (c, m)) => some (n, c, m)
  | _ => none

variable {Thread : Type} [DecidableEq Thread] [Fintype Thread] {s s' : State Thread}
variable {action : Action Thread} {d d' : Data} {here next : Pc} {i_set i_max : Int32}

/-- The counter is in range and equals the initial count with all results
returned so far and the operations in progress, and every addition was made
with a sum within the limit. A `Wait` that is about to return `False`, or a
`Post`, adds nothing. -/
structure Exact (i_set : Int32) (s : State Thread) : Prop where
  range : 0 ≤ s.current.toInt ∧ s.current.toInt ≤ maximumCount.toInt
  counted : s.current.toInt = i_set.toInt + s.posted - s.waited + contributed Pc.own s.pc
  added : ∀ t n c m, (s.pc t).added = some (n, c, m) →
    0 ≤ c.toInt ∧ c.toInt + n.toInt ≤ m.toInt

/-- An addition that is carried out fits into 32 bits. -/
def Fits (s : State Thread) (action : Action Thread) : Prop :=
  match s.pc action.thread with
  | .postAdd n _ _ => s.current.toInt + n.toInt < 2 ^ 31
  | _ => True

instance (s : State Thread) (action : Action Thread) : Decidable (Fits s action) := by
  unfold Fits
  split <;> infer_instance

theorem toInt_add_of_fits {a b : Int32} (low : -2 ^ 31 ≤ a.toInt + b.toInt)
    (high : a.toInt + b.toInt < 2 ^ 31) : (a + b).toInt = a.toInt + b.toInt := by
  rw [Int32.toInt_add]
  exact Int.bmod_eq_of_le (by omega) (by omega)

theorem toInt_sub_of_fits {a b : Int32} (low : -2 ^ 31 ≤ a.toInt - b.toInt)
    (high : a.toInt - b.toInt < 2 ^ 31) : (a - b).toInt = a.toInt - b.toInt := by
  rw [Int32.toInt_sub]
  exact Int.bmod_eq_of_le (by omega) (by omega)

/-- Taking a unit that is there. -/
theorem toInt_take {current : Int32} (nonneg : 0 ≤ current.toInt) (some : current ≠ 0) :
    (current - 1).toInt = current.toInt - 1 ∧ 0 < current.toInt := by
  have positive : current.toInt ≠ 0 := fun zero => some (Int32.toInt_inj.mp zero)
  have one : (1 : Int32).toInt = 1 := rfl
  have below := Int32.toInt_lt current
  refine ⟨?_, by omega⟩
  rw [toInt_sub_of_fits (by omega) (by omega), one]

theorem Silent.own (edge : Silent here next) : next.own = here.own := by
  cases edge.goes with
  | @tried got => cases got <;> rfl
  | @waitUnlocked rv => cases rv <;> rfl
  | @postUnlocked n passed => cases passed <;> rfl
  | _ => rfl

theorem Silent.added (edge : Silent here next) : next.added = none ∨ next.added = here.added := by
  cases edge.goes with
  | @postUnlocked n passed =>
    cases passed with
    | none => exact .inl rfl
    | some _ => exact .inr rfl
  | _ => exact .inl rfl

/-- What a thread knows of the counter before its step. -/
structure Sound (d : Data) (here : Pc) : Prop where
  range : 0 ≤ d.current.toInt ∧ d.current.toInt ≤ maximumCount.toInt
  amount : ∀ n, here.amount = some n → 0 < n.toInt
  expects : ∀ v, here.expects = some v → d.current = v
  within : here.within
  added : ∀ n c m, here.added = some (n, c, m) → 0 ≤ c.toInt ∧ c.toInt + n.toInt ≤ m.toInt

theorem Sound.add {n c m : Int32} (sound : Sound d (.postAdd n c m))
    (fits : d.current.toInt + n.toInt < 2 ^ 31) :
    (d.current + n).toInt = d.current.toInt + n.toInt ∧ 0 ≤ c.toInt ∧
      c.toInt + n.toInt ≤ m.toInt ∧ m.toInt ≤ maximumCount.toInt := by
  have same : d.current = c := sound.expects c rfl
  obtain ⟨within, below⟩ := sound.within
  have positive := sound.amount n rfl
  have nonneg := sound.range.1
  have sum := toInt_add_of_fits (a := d.current) (b := n) (by omega) fits
  rw [Int32.le_iff_toInt_le] at within below
  rw [same] at sum nonneg
  exact ⟨same ▸ sum, nonneg, sum ▸ within, below⟩

theorem Sound.undo {n c m : Int32} (sound : Sound d (.postUndo n c m)) :
    (d.current - n).toInt = d.current.toInt - n.toInt ∧ 0 ≤ d.current.toInt - n.toInt := by
  have same : d.current = c + n := sound.expects (c + n) rfl
  have positive := sound.amount n rfl
  obtain ⟨nonneg, fits⟩ := sound.added n c m rfl
  have below := Int32.toInt_lt m
  have sum := toInt_add_of_fits (a := c) (b := n) (by omega) (by omega)
  have room : d.current.toInt - n.toInt = c.toInt := by rw [same, sum]; omega
  have above := Int32.toInt_lt c
  exact ⟨toInt_sub_of_fits (by omega) (by omega), by omega⟩

/-- The counter changes by what the thread's own operation has done to it. -/
theorem Effect.counted (effect : Effect d here d' next) (sound : Sound d here)
    (fits : ∀ n c m, here = .postAdd n c m → d.current.toInt + n.toInt < 2 ^ 31) :
    d'.current.toInt = d.current.toInt + (d'.posted - d.posted) - (d'.waited - d.waited) +
      (next.own - here.own) := by
  have nonneg := sound.range.1
  cases effect with
  | silent edge => simp [edge.own]
  | tryTake some | take some => simp [Pc.own, (toInt_take nonneg some).1]; rfl
  | @waited d rv => cases rv <;> simp [Pc.own]
  | @posted d n passed => cases passed <;> simp [Pc.own]
  | @add d n c m => simp [Pc.own, (sound.add (fits n c m rfl)).1]
  | undo => simp [Pc.own, sound.undo.1]; rfl
  | _ => simp [Pc.own]

theorem Effect.range (effect : Effect d here d' next) (sound : Sound d here)
    (fits : ∀ n c m, here = .postAdd n c m → d.current.toInt + n.toInt < 2 ^ 31) :
    0 ≤ d'.current.toInt ∧ d'.current.toInt ≤ maximumCount.toInt := by
  obtain ⟨nonneg, below⟩ := sound.range
  cases effect with
  | tryTake some | take some =>
    obtain ⟨less, positive⟩ := toInt_take nonneg some
    change 0 ≤ (d.current - 1).toInt ∧ (d.current - 1).toInt ≤ _
    omega
  | @add d n c m =>
    obtain ⟨sum, low, high, limit⟩ := sound.add (fits n c m rfl)
    have same : d.current = c := sound.expects c rfl
    have positive := sound.amount n rfl
    change 0 ≤ (d.current + n).toInt ∧ (d.current + n).toInt ≤ _
    rw [same] at sum ⊢
    omega
  | @undo d n c m =>
    obtain ⟨difference, low⟩ := sound.undo
    have positive := sound.amount n rfl
    change 0 ≤ (d.current - n).toInt ∧ (d.current - n).toInt ≤ _
    omega
  | _ => exact ⟨nonneg, below⟩

theorem Effect.added (effect : Effect d here d' next) (sound : Sound d here)
    (fits : ∀ n c m, here = .postAdd n c m → d.current.toInt + n.toInt < 2 ^ 31)
    {n c m : Int32} (added : next.added = some (n, c, m)) :
    0 ≤ c.toInt ∧ c.toInt + n.toInt ≤ m.toInt := by
  cases effect with
  | silent edge =>
    rcases edge.added with none | same
    · cases none.symm.trans added
    · exact sound.added n c m (same ▸ added)
  | @add d k e f =>
    cases added
    obtain ⟨_, low, high, _⟩ := sound.add (fits n c m rfl)
    exact ⟨low, high⟩
  | notify | failNotify => exact sound.added n c m added
  | _ => cases added

omit [DecidableEq Thread] in
theorem Exact.sound (inv : Invariant s) (exact : Exact i_set s) (t : Thread) :
    Sound s.data (s.pc t) where
  range := exact.range
  amount n amount := Int32.lt_iff_toInt_lt.mp (inv.amount t n amount)
  expects := inv.expects t
  within := inv.within t
  added := exact.added t

omit [DecidableEq Thread] [Fintype Thread] in
theorem fits_iff : Fits s action ↔ ∀ n c m, s.pc action.thread = .postAdd n c m →
    s.current.toInt + n.toInt < 2 ^ 31 := by
  unfold Fits
  split
  · rename_i n c m here
    constructor
    · intro fits n' c' m' same
      cases here.symm.trans same
      exact fits
    · intro fits
      exact fits n c m here
  · rename_i other
    exact ⟨fun _ n c m same => absurd same (other n c m), fun _ => trivial⟩

/-- With an exact counter before a step, it is exact after it exactly when an
addition carried out by the step fits. -/
theorem exact_step (inv : Invariant s) (before : Exact i_set s) (taken : step s action = some s') :
    Exact i_set s' ↔ Fits s action := by
  obtain ⟨p, moved, effect⟩ := step_effect taken
  have sound := before.sound inv action.thread
  rw [fits_iff]
  constructor
  · intro after n c m adds
    rw [adds] at effect sound
    have reached : p = .postNotify n c m := by
      generalize s.data = d, s'.data = d' at effect
      cases effect with
      | silent edge => cases edge
      | add => rfl
    have same : s.current = c := sound.expects c rfl
    have within := (after.added action.thread n c m (by rw [moved, Function.update_self, reached]; rfl)).2
    have below := Int32.toInt_lt m
    rw [same]
    omega
  · intro fits
    refine ⟨effect.range sound fits, ?_, ?_⟩
    · have change := effect.counted sound fits
      have counted := before.counted
      rw [moved, contributed_update]
      simp only [State.data] at change
      omega
    · intro t n c m added
      rw [moved] at added
      by_cases same : t = action.thread
      · subst same
        rw [Function.update_self] at added
        exact effect.added sound fits added
      · rw [Function.update_of_ne same] at added
        exact before.added t n c m added

omit [DecidableEq Thread] in
theorem construct_exact (made : construct i_set i_max = some s) : Exact i_set s := by
  obtain ⟨⟨ordered, nonneg, _, below⟩, rfl⟩ := construct_eq_some made
  rw [Int32.le_iff_toInt_le] at ordered nonneg below
  refine ⟨⟨nonneg, ordered.trans below⟩, ?_, nofun⟩
  have none : contributed Pc.own (fun _ : Thread => Pc.idle) = 0 :=
    contributed_eq_zero fun _ => rfl
  simp [fresh, none]

/-- The counter of a semaphore is exact along a run if and only if every
addition that is carried out fits into 32 bits. -/
theorem exact_iff_fits (made : construct i_set i_max = some s) (actions : List (Action Thread)) :
    Always step (Exact i_set) s actions ↔ Meets step Fits s actions :=
  always_iff_meets Invariant (fun _ _ _ => step_invariant)
    (fun _ _ _ inv exact taken => exact_step inv exact taken) (construct_invariant made)
    (construct_exact made)

def postRun (n : Int32) : List (Action (Fin 1)) :=
  .call 0 (.post n) :: List.replicate 5 (.run 0) ++ [.notify 0 [], .run 0, .run 0]

theorem exact_postRun : Always step (Exact 1) (fresh 1 3) (postRun 2) :=
  (exact_iff_fits (show construct 1 3 = some (fresh 1 3) from rfl) (postRun 2)).mpr (by decide)

/-- `Post(2147483647)` on a semaphore with one unit and a limit of one. -/
theorem overflow_inexact : construct 1 1 = some (fresh 1 1 : State (Fin 1)) ∧
    ¬ Always step (Exact 1) (fresh 1 1) (postRun 2147483647) := by
  refine ⟨rfl, fun always => ?_⟩
  have there : (exec step (fresh 1 1) (postRun 2147483647)).map
      (fun s => (s.current.toInt, s.posted)) = some (-2147483648, 2147483647) := by decide
  obtain ⟨s, ran, ends⟩ := Option.map_eq_some_iff.mp there
  have range := (always.final ran).range.1
  have negative : s.current.toInt = -2147483648 := congrArg Prod.fst ends
  omega

end Prot.Lock.Semaphore
