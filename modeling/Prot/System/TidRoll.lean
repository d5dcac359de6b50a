import Prot.Concurrency.Machine
import Prot.Concurrency.Mutex
import Mathlib.Data.Nat.ModEq
import Mathlib.Data.List.Nodup

/-! `_TidRollGenNext` of `thread_posix.cpp`, called by any number of threads at
any time. -/

namespace Prot.System.TidRoll

open Concurrency

/-- Where a caller stands, named after the step it executes next; `tid_max += 3`
is a read and a write. -/
inductive Pc where
  | idle
  | lock
  | readTid
  | readMax (tid : UInt32)
  | writeMax (tid : UInt32) (max : UInt32)
  | unlock (tid : UInt32)
  | back (tid : UInt32)
  deriving DecidableEq, Repr

/-- `tid_mutex`, `tid_max`, the callers, and the ids of the calls so far, in the
order in which these have held the mutex. -/
structure State (Caller : Type) where
  mutex : Mutex Caller
  tidMax : UInt32
  pc : Caller → Pc
  given : List UInt32

inductive Action (Caller : Type) where
  | call (caller : Caller)
  | run (caller : Caller)
  deriving DecidableEq, Repr

variable {Caller : Type} [DecidableEq Caller]

def fresh : State Caller where
  mutex := none
  tidMax := 1
  pc := fun _ => .idle
  given := []

def State.goto (s : State Caller) (caller : Caller) (pc : Pc) : State Caller :=
  { s with pc := Function.update s.pc caller pc }

def State.next (s : State Caller) (caller : Caller) : Option (State Caller) :=
  match s.pc caller with
  | .idle => none
  | .lock => (Mutex.lock caller s.mutex).map fun mutex =>
      { s with mutex := mutex }.goto caller .readTid
  | .readTid => some (s.goto caller (.readMax s.tidMax))
  | .readMax tid => some (s.goto caller (.writeMax tid s.tidMax))
  | .writeMax tid max => some ({ s with tidMax := max + 3 }.goto caller (.unlock tid))
  | .unlock tid => some ({ s with mutex := none, given := s.given ++ [tid] }.goto caller (.back tid))
  | .back _ => some (s.goto caller .idle)

def step (s : State Caller) : Action Caller → Option (State Caller)
  | .call caller => if s.pc caller = .idle then some (s.goto caller .lock) else none
  | .run caller => s.next caller

/-- What `tid_max` is after `n` calls. -/
def nth : ℕ → UInt32
  | 0 => 1
  | n + 1 => nth n + 3

/-- A call whose id is not 0, and is another than those of all calls after it up
to the last of `2 ^ 32 - 1`. -/
structure Right (given : List UInt32) (n : ℕ) : Prop where
  created : given[n]? ≠ some 0
  distinct : ((given.drop n).take (2 ^ 32 - 1)).Nodup

section Numbers

variable {k m n : ℕ}

theorem toNat_nth (n : ℕ) : (nth n).toNat = (1 + 3 * n) % 2 ^ 32 := by
  induction n with
  | zero => rfl
  | succ n ih =>
    rw [nth, UInt32.toNat_add, ih]
    change ((1 + 3 * n) % 2 ^ 32 + 3) % 2 ^ 32 = _
    omega

/-- An arithmetic progression goes through all residues before one returns. -/
theorem progression_iff {step modulus first : ℕ} (coprime : Nat.Coprime modulus step) :
    (first + step * m) % modulus = (first + step * n) % modulus ↔ m ≡ n [MOD modulus] := by
  constructor
  · intro same
    have scaled : step * m ≡ step * n [MOD modulus] := Nat.ModEq.add_left_cancel' first same
    exact Nat.ModEq.cancel_left_of_coprime coprime scaled
  · intro same
    exact (same.mul_left step).add_left first

/-- 3 is odd, so that a whole round goes by before an id returns. -/
theorem nth_eq_iff : nth m = nth n ↔ m ≡ n [MOD 2 ^ 32] := by
  have odd : Nat.Coprime (2 ^ 32) 3 := Nat.Coprime.pow_left 32 (by decide)
  rw [← UInt32.toNat_inj, toNat_nth, toNat_nth]
  exact progression_iff odd

theorem nth_inverse : nth 1431655765 = 0 := by
  rw [← UInt32.toNat_inj, toNat_nth]
  rfl

/-- The roll comes to 0 at the inverse of -3, and from then on once in a round. -/
theorem nth_eq_zero_iff : nth n = 0 ↔ n % 2 ^ 32 = 1431655765 := by
  rw [← nth_inverse]
  exact nth_eq_iff

private theorem nodup_window (start : ℕ) {count : ℕ} (round : count ≤ 2 ^ 32) :
    ((List.range' start count).map nth).Nodup := by
  refine List.Nodup.map_on (fun m here n there same => ?_) List.nodup_range'
  rw [List.mem_range'_1] at here there
  have back := nth_eq_iff.mp same
  exact back.eq_of_abs_lt (abs_lt.mpr ⟨by omega, by omega⟩)

private theorem take_range' {start count : ℕ} :
    (List.range' start count).take k = List.range' start (min k count) := by
  induction count generalizing start k with
  | zero => simp
  | succ count ih =>
    cases k with
    | zero => simp
    | succ k => simp [List.range'_succ, ih, Nat.succ_min_succ]

private theorem nodup_given (count n : ℕ) :
    ((((List.range count).map nth).drop n).take (2 ^ 32 - 1)).Nodup := by
  rw [← List.map_drop, ← List.map_take, List.range_eq_range', List.drop_range', take_range']
  exact nodup_window _ (Nat.le_trans (Nat.min_le_left _ _) (Nat.sub_le _ _))

end Numbers

section Invariant

variable {s s' : State Caller} {caller other : Caller} {action : Action Caller}
variable {given given' : List UInt32} {max max' : UInt32} {p next : Pc}

def Pc.holds : Pc → Bool
  | .readTid | .readMax _ | .writeMax _ _ | .unlock _ => true
  | _ => false

/-- What a caller has read goes with the calls that are over. -/
def Pc.Fits (given : List UInt32) (max : UInt32) : Pc → Prop
  | .readTid => max = nth given.length
  | .readMax tid => tid = nth given.length ∧ max = nth given.length
  | .writeMax tid read => tid = nth given.length ∧ read = nth given.length
  | .unlock tid => tid = nth given.length ∧ max = nth (given.length + 1)
  | .back tid => tid ∈ given
  | _ => True

structure Invariant (s : State Caller) : Prop where
  locked : Excludes s.mutex Pc.holds s.pc
  free : s.mutex = none → s.tidMax = nth s.given.length
  fits : ∀ caller, (s.pc caller).Fits s.given s.tidMax
  given : s.given = (List.range s.given.length).map nth

/-- Outside of the mutex nothing but the caller's own id matters. -/
theorem Pc.Fits.outside (fits : p.Fits given max) (outside : p.holds = false)
    (grows : given ⊆ given') : p.Fits given' max' := by
  cases p with
  | back tid => exact grows fits
  | idle | lock => trivial
  | readTid | readMax | writeMax | unlock => cases outside

theorem fits_update {pc : Caller → Pc} (own : next.Fits given max)
    (others : ∀ other, other ≠ caller → (pc other).Fits given max) (other : Caller) :
    (Function.update pc caller next other).Fits given max := by
  by_cases self : other = caller
  · subst self
    rw [Function.update_self]
    exact own
  · rw [Function.update_of_ne self]
    exact others other self

/-- A step that changes none of the data. -/
theorem Invariant.goto (invariant : Invariant s) (here : s.pc caller = p)
    (same : next.holds = p.holds) (fits : next.Fits s.given s.tidMax) :
    Invariant (s.goto caller next) where
  locked := invariant.locked.stay (same.trans (congrArg Pc.holds here.symm))
  free := invariant.free
  fits := fits_update fits fun other _ => invariant.fits other
  given := invariant.given

omit [DecidableEq Caller] in
/-- The holder of the mutex is the only one whom the data matters to. -/
theorem Invariant.others (invariant : Invariant s) (inside : (s.pc caller).holds = true)
    (grows : s.given ⊆ given') (away : other ≠ caller) :
    (s.pc other).Fits given' max' := by
  refine (invariant.fits other).outside ?_ grows
  by_contra both
  exact away (invariant.locked.unique (by simpa using both) inside)

theorem Invariant.enter (invariant : Invariant s) (free : s.mutex = none) :
    Invariant ({ s with mutex := some caller }.goto caller .readTid) where
  locked := by
    have locked := invariant.locked
    rw [free] at locked
    exact locked.enter rfl
  free := nofun
  fits := fits_update (invariant.free free) fun other _ => invariant.fits other
  given := invariant.given

theorem Invariant.advance {tid : UInt32} (invariant : Invariant s)
    (here : s.pc caller = .writeMax tid max) :
    Invariant ({ s with tidMax := max + 3 }.goto caller (.unlock tid)) := by
  have inside : (s.pc caller).holds = true := congrArg Pc.holds here
  have fits := invariant.fits caller
  rw [here] at fits
  refine ⟨invariant.locked.stay inside.symm, fun free => ?_, ?_, invariant.given⟩
  · have held := (invariant.locked caller).mp inside
    exact absurd (held.symm.trans free) nofun
  · exact fits_update ⟨fits.1, congrArg (· + 3) fits.2⟩ fun other away =>
      invariant.others inside (List.Subset.refl _) away

/-- The call is over, with the id that is next in the roll. -/
theorem Invariant.leave {tid : UInt32} (invariant : Invariant s)
    (here : s.pc caller = .unlock tid) :
    Invariant ({ s with mutex := none, given := s.given ++ [tid] }.goto caller (.back tid)) := by
  have inside : (s.pc caller).holds = true := congrArg Pc.holds here
  have fits := invariant.fits caller
  rw [here] at fits
  refine ⟨invariant.locked.leave inside rfl, fun _ => ?_, ?_, ?_⟩
  · simpa [State.goto] using fits.2
  · have own : tid ∈ s.given ++ [tid] := List.mem_append_right _ List.mem_cons_self
    exact fits_update own fun other away =>
      invariant.others inside (List.subset_append_left _ _) away
  · simp only [State.goto, List.length_append, List.length_singleton, List.range_succ,
      List.map_append, ← invariant.given, List.map_cons, List.map_nil, fits.1]

private theorem next_invariant (invariant : Invariant s) (taken : s.next caller = some s') :
    Invariant s' := by
  have fits := invariant.fits caller
  unfold State.next at taken
  cases here : s.pc caller with
  | idle =>
    rw [here] at taken
    cases taken
  | lock =>
    rw [here] at taken
    obtain ⟨mutex, locked, rfl⟩ := Option.map_eq_some_iff.mp taken
    obtain ⟨free, rfl⟩ := Mutex.lock_eq_some locked
    exact invariant.enter free
  | readTid =>
    rw [here] at taken fits
    cases taken
    exact invariant.goto here rfl ⟨fits, fits⟩
  | readMax tid =>
    rw [here] at taken fits
    cases taken
    exact invariant.goto here rfl fits
  | writeMax tid read =>
    rw [here] at taken
    cases taken
    exact invariant.advance here
  | unlock tid =>
    rw [here] at taken
    cases taken
    exact invariant.leave here
  | back tid =>
    rw [here] at taken
    cases taken
    exact invariant.goto here rfl trivial

theorem step_invariant (invariant : Invariant s) (taken : step s action = some s') :
    Invariant s' := by
  cases action with
  | call caller =>
    simp only [step] at taken
    split at taken
    · rename_i idle
      cases taken
      exact invariant.goto idle rfl trivial
    · cases taken
  | run caller => exact next_invariant invariant taken

omit [DecidableEq Caller] in
private theorem fresh_invariant : Invariant (fresh : State Caller) where
  locked _ := by simp [fresh, Pc.holds]
  free _ := rfl
  fits _ := trivial
  given := rfl

/-- In every run the calls roll through the ids in turn. -/
theorem run_given {actions : List (Action Caller)} (ran : exec step fresh actions = some s) :
    s.given = (List.range s.given.length).map nth :=
  (exec_invariant Invariant (fun _ _ _ => step_invariant) fresh_invariant ran).given

/-- Whoever calls, and whenever: the ids are right except that every 2 ^ 32 calls
one of them is 0. -/
theorem id_right_iff {actions : List (Action Caller)} (ran : exec step fresh actions = some s)
    (n : ℕ) (made : n < s.given.length) : Right s.given n ↔ n % 2 ^ 32 ≠ 1431655765 := by
  have given := run_given ran
  have here : s.given[n]? = some (nth n) := by
    rw [given, List.getElem?_map, List.getElem?_range made, Option.map_some]
  constructor
  · intro right residue
    exact right.created (here.trans (congrArg some (nth_eq_zero_iff.mpr residue)))
  · intro other
    refine ⟨fun zero => other (nth_eq_zero_iff.mp (Option.some.inj (here.symm.trans zero))), ?_⟩
    rw [given]
    exact nodup_given _ n

end Invariant

section Runs

variable {caller : Caller} {k : ℕ}

def oneCall (caller : Caller) : List (Action Caller) :=
  [.call caller, .run caller, .run caller, .run caller, .run caller, .run caller, .run caller]

def calls (caller : Caller) : ℕ → List (Action Caller)
  | 0 => []
  | k + 1 => calls caller k ++ oneCall caller

/-- What a process has given out that has called `k` times. -/
def rolled (k : ℕ) : State Caller := ⟨none, nth k, fun _ => .idle, (List.range k).map nth⟩

theorem exec_oneCall : exec step (rolled k) (oneCall caller) = some (rolled (k + 1)) := by
  simp [oneCall, exec, step, State.next, rolled, State.goto, Mutex.lock, List.range_succ, nth]

theorem exec_calls (k : ℕ) : exec step fresh (calls caller k) = some (rolled k) := by
  induction k with
  | zero => rfl
  | succ k ih => exact exec_trans ih exec_oneCall

end Runs

/-- The first call that gives out 0. -/
theorem calls_wrong : exec step fresh (calls () 1431655766) = some (rolled 1431655766) ∧
    ¬Right (rolled 1431655766 : State Unit).given 1431655765 := by
  refine ⟨exec_calls _, fun right => right.created ?_⟩
  rw [rolled, List.getElem?_map, List.getElem?_range (by omega), Option.map_some, nth_inverse]

/-- The first call of the second round gets the id of the first call of all. -/
theorem id_right_wrapped : Right (rolled (2 ^ 32 + 1) : State Unit).given (2 ^ 32) :=
  (id_right_iff (exec_calls (2 ^ 32 + 1) : exec step fresh (calls () (2 ^ 32 + 1)) = _) (2 ^ 32)
    (by simp [rolled])).mpr (by decide)

end Prot.System.TidRoll
