import Prot.Test.RegistryInvariant

/-! What `RunTest` finds in the registry: its lists, and its counters. -/

namespace Prot.Test.Registry

open Memory Registration

variable {Func Name : Type} [DecidableEq Name]
variable {calls : List (Registration Func Name)} {a b c : Registration Func Name}
variable {kind : Registration Func Name → Bool} {r : State Func Name}
variable {cases inits dones : List (ℕ × TestCase Func Name)}

/-! The fixtures are the first of their names. -/

private theorem sameNames_comm : a.sameNames b = b.sameNames a := by
  simp [sameNames, eq_comm]

private theorem sameNames_trans (first : a.sameNames b = true) (second : b.sameNames c = true) :
    a.sameNames c = true := by
  simp only [sameNames, Bool.and_eq_true, decide_eq_true_eq] at *
  exact ⟨second.1.trans first.1, second.2.trans first.2⟩

/-- Names are among the fixtures as soon as a call of the kind has them. -/
theorem any_fixtures_iff :
    (fixtures kind calls).any a.sameNames = true ↔
      ∃ b ∈ calls, kind b = true ∧ a.sameNames b = true := by
  induction calls using List.reverseRecOn with
  | nil => simp [fixtures]
  | append_singleton calls b ih =>
    have split : (∃ c ∈ calls ++ [b], kind c = true ∧ a.sameNames c = true) ↔
        (fixtures kind calls).any a.sameNames = true ∨ kind b = true ∧ a.sameNames b = true := by
      simp [ih, or_and_right, exists_or]
    rw [split]
    cases of : kind b with
    | false => simp [fixtures_other of]
    | true =>
      rw [fixtures_append of]
      cases met : (fixtures kind calls).any b.sameNames with
      | false => simp
      | true =>
        rw [if_pos rfl]
        constructor
        · exact Or.inl
        · rintro (already | ⟨_, same⟩)
          · exact already
          · obtain ⟨c, member, like⟩ := List.any_eq_true.mp met
            exact List.any_eq_true.mpr ⟨c, member, sameNames_trans same like⟩

/-- No two fixtures have the same names. -/
theorem fixtures_pairwise :
    (fixtures kind calls).Pairwise fun a b => a.sameNames b = false := by
  induction calls using List.reverseRecOn with
  | nil => exact List.Pairwise.nil
  | append_singleton calls b ih =>
    cases of : kind b with
    | false => exact (fixtures_other of).symm ▸ ih
    | true =>
      rw [fixtures_append of]
      cases met : (fixtures kind calls).any b.sameNames with
      | true => exact ih
      | false =>
        rw [if_neg Bool.false_ne_true, List.pairwise_append]
        refine ⟨ih, List.pairwise_singleton _ _, fun a member c last => ?_⟩
        rw [List.mem_singleton.mp last, sameNames_comm]
        exact Bool.eq_false_iff.mpr (List.any_eq_false.mp met a member)

/-- The call is the first of its kind with its names. -/
def First (kind : Registration Func Name → Bool) (calls : List (Registration Func Name))
    (a : Registration Func Name) : Prop :=
  ∃ before after, calls = before ++ a :: after ∧ ∀ b ∈ before, kind b = true → a.sameNames b = false

private theorem first_append :
    First kind (calls ++ [b]) a ↔
      First kind calls a ∨ a = b ∧ ∀ c ∈ calls, kind c = true → a.sameNames c = false := by
  constructor
  · rintro ⟨before, after, split, alone⟩
    rcases List.eq_nil_or_concat after with rfl | ⟨between, last, rfl⟩
    · obtain ⟨rfl, same⟩ := List.append_inj' split rfl
      exact Or.inr ⟨(List.cons.inj same).1.symm, alone⟩
    · rw [List.concat_eq_append, ← List.cons_append, ← List.append_assoc] at split
      exact Or.inl ⟨before, between, (List.append_inj' split rfl).1, alone⟩
  · rintro (⟨before, after, rfl, alone⟩ | ⟨rfl, alone⟩)
    · exact ⟨before, after ++ [b], by simp, alone⟩
    · exact ⟨calls, [], rfl, alone⟩

/-- The fixtures are the first calls of their names. -/
theorem mem_fixtures_iff : a ∈ fixtures kind calls ↔ kind a = true ∧ First kind calls a := by
  induction calls using List.reverseRecOn with
  | nil => simp [fixtures, First]
  | append_singleton calls b ih =>
    rw [first_append, and_or_left, ← ih]
    have alone : (∀ c ∈ calls, kind c = true → b.sameNames c = false) ↔
        ¬ (fixtures kind calls).any b.sameNames = true := by
      rw [any_fixtures_iff]
      simp
    cases of : kind b with
    | false =>
      rw [fixtures_other of]
      refine ⟨Or.inl, ?_⟩
      rintro (already | ⟨of_, rfl, _⟩)
      · exact already
      · rw [of] at of_
        cases of_
    | true =>
      rw [fixtures_append of]
      cases met : (fixtures kind calls).any b.sameNames with
      | true =>
        rw [if_pos rfl]
        refine ⟨Or.inl, ?_⟩
        rintro (already | ⟨_, rfl, unmet⟩)
        · exact already
        · exact absurd met (alone.mp unmet)
      | false =>
        rw [if_neg Bool.false_ne_true, List.mem_append, List.mem_singleton]
        constructor
        · rintro (already | rfl)
          · exact Or.inl already
          · exact Or.inr ⟨of, rfl, alone.mpr (by rw [met]; exact Bool.false_ne_true)⟩
        · rintro (already | ⟨_, rfl, _⟩)
          · exact Or.inl already
          · exact Or.inr rfl

/-! The lists. -/

/-- Whatever is registered, the three lists are the cases to be tested and the first
fixtures of their names, and none of their nodes has been freed. -/
theorem addTestCases_selects (calls : List (Registration Func Name)) :
    ∃ r cases inits dones, addTestCases calls = some r ∧
      Linked r.heap r.headCase cases ∧ cases.map Prod.snd = (selected calls).map Registration.case ∧
      r.lastCase = cases.getLast?.map Prod.fst ∧
      Linked r.heap r.ifl inits ∧
      inits.map Prod.snd = (fixtures isInit calls).map Registration.case ∧
      Linked r.heap r.dfl dones ∧
      dones.map Prod.snd = (fixtures isDone calls).map Registration.case ∧
      ∀ p ∈ pointers cases ++ pointers inits ++ pointers dones, r.heap.deletions p = 0 := by
  obtain ⟨r, cases, inits, dones, added, holds⟩ := addTestCases_holds calls
  have shape := holds.shape
  refine ⟨r, cases, inits, dones, added, shape.headCase, holds.selected, shape.lastCase, shape.ifl,
    holds.inits, shape.dfl, holds.dones, fun p member => shape.sound.kept ?_⟩
  rw [List.mem_append, List.mem_append] at member
  rcases member with (inCases | inInits) | inDones
  · exact shape.headCase.live inCases
  · exact shape.ifl.live inInits
  · exact shape.dfl.live inDones

/-! The counters. -/

/-- `_tr_.TestCount` and `_nc_` are the length of the list from `_tr_.HeadCase`. -/
def CountersAgree (r : State Func Name) : Prop :=
  ∃ nodes, Chain r.heap.link r.headCase nodes ∧
    r.testCount.toInt = nodes.length ∧ r.nc.toNat = nodes.length

private theorem countersAgree_of_holds (holds : Holds calls r cases inits dones) :
    CountersAgree r ↔ (selected calls).length < 2 ^ 31 ∧ dropped calls % 2 ^ 32 = 0 := by
  have chain := holds.shape.headCase.chain
  have length : (pointers cases).length = (selected calls).length := by
    rw [pointers, List.length_map]
    exact holds.selected.length
  have agree : CountersAgree r ↔
      r.testCount.toInt = (selected calls).length ∧ r.nc.toNat = (selected calls).length := by
    constructor
    · rintro ⟨nodes, also, counts⟩
      rw [← length, chain.unique also]
      exact counts
    · intro counts
      exact ⟨pointers cases, chain, by rwa [length]⟩
  rw [agree, holds.testCount, holds.nc, holds.selected.length, Int32.toInt_ofNat', UInt32.toNat_ofNat']
  generalize (selected calls).length = listed
  generalize dropped calls = lost
  simp only [Int32.size, Int.bmod_def]
  omega

/-- The counters agree exactly if nothing has been dropped, and the list is no longer
than an `int` counts. -/
theorem countersAgree_iff (calls : List (Registration Func Name)) :
    ∃ r, addTestCases calls = some r ∧
      (CountersAgree r ↔ (selected calls).length < 2 ^ 31 ∧ dropped calls % 2 ^ 32 = 0) := by
  obtain ⟨r, cases, inits, dones, added, holds⟩ := addTestCases_holds calls
  exact ⟨r, added, countersAgree_of_holds holds⟩

/-- An ordinary case, and then one with `TESTMEONLY`. -/
def thenOnly : List (Registration Unit ℕ) := [⟨(), 0, 0, 0, 0⟩, ⟨(), 1, 0, 1, testMeonly⟩]

/-- The case that was dropped is still counted in `_tr_.TestCount`. -/
theorem thenOnly_counters : ∃ r, addTestCases thenOnly = some r ∧ ¬ CountersAgree r := by
  obtain ⟨r, cases, inits, dones, added, holds⟩ := addTestCases_holds thenOnly
  refine ⟨r, added, ?_⟩
  rw [countersAgree_of_holds holds]
  decide

end Prot.Test.Registry
