import Prot.Test.SingleThread

/-! What a case with `T_IGNORE` can do to the rest of a `SingleThreadTest`: two
runs over lists that differ in that case only. -/

namespace Prot.Test.SingleThread

/-- All cases but the one at `place` are run alike, or not at all, and
`*pfailcount` ends alike. -/
def Undisturbed (place : ℕ) (one other : Tested) : Prop :=
  (∀ i, i ≠ place → one.executed[i]? = other.executed[i]?) ∧ one.failCount = other.failCount

/-- The loop comes to the end of these cases and goes on to the next. -/
def passes (failCount : Int32) : List Body → Bool
  | [] => true
  | body :: next => !stops failCount body && passes (failCountAfter failCount body) next

variable {one other body : Body} {before after : List Body} {failCount : Int32}

private theorem counted_ignored (ignored : .ignore ∈ body) : counted body = false := by
  simp [counted, ignored]

/-- An ignored case leaves `*pfailcount` alone, -/
theorem failCountAfter_ignored (ignored : .ignore ∈ body) :
    failCountAfter failCount body = failCount := by
  simp [failCountAfter, counted_ignored ignored]

/-- but not the loop, if another case has failed before. -/
theorem stops_ignored (ignored : .ignore ∈ body) :
    stops failCount body = (breaks body && failCount != 0) := by
  rw [stops, failCountAfter_ignored ignored]

theorem Undisturbed.symm {place : ℕ} {one other : Tested} (same : Undisturbed place one other) :
    Undisturbed place other one :=
  ⟨fun i away => (same.1 i away).symm, same.2.symm⟩

private theorem undisturbed_comm {place : ℕ} {one other : Tested} :
    Undisturbed place one other ↔ Undisturbed place other one := ⟨.symm, .symm⟩

private theorem undisturbed_cons {place : ℕ} {one other : Tested} (ptestcase : TestCase) :
    Undisturbed (place + 1) (.cons ptestcase one) (.cons ptestcase other) ↔
      Undisturbed place one other := by
  constructor
  · rintro ⟨rest, ended⟩
    exact ⟨fun i away => by simpa [Tested.cons] using rest (i + 1) (by omega), ended⟩
  · rintro ⟨rest, ended⟩
    refine ⟨fun i away => ?_, ended⟩
    cases i with
    | zero => rfl
    | succ i => simpa [Tested.cons] using rest i (by omega)

/-- What the first case is does not matter to the list behind it. -/
theorem undisturbed_head (ptestcase substitute : TestCase) (rest : Tested) :
    Undisturbed 0 (.cons ptestcase rest) (.cons substitute rest) := by
  refine ⟨fun i away => ?_, rfl⟩
  cases i with
  | zero => exact absurd rfl away
  | succ i => rfl

private theorem executed_ne_nil (failCount : Int32) (some : after ≠ []) :
    (singleThreadTest failCount (after.map registered)).executed ≠ [] := by
  cases after with
  | nil => exact absurd rfl some
  | cons body next =>
    rw [singleThreadTest_cons]
    split <;> simp [Tested.cons]

/-- A first case that stops the loop cuts off the others, if there are any. -/
theorem undisturbed_cut (ptestcase substitute : TestCase) :
    Undisturbed 0 ⟨[ptestcase], after.map registered, failCount⟩
      (.cons substitute (singleThreadTest failCount (after.map registered))) ↔ after = [] := by
  constructor
  · rintro ⟨rest, _⟩
    by_contra some
    have next := rest 1 (by decide)
    obtain ⟨first, later, run⟩ := List.exists_cons_of_ne_nil (executed_ne_nil failCount some)
    simp [Tested.cons, run] at next
  · rintro rfl
    exact undisturbed_head ptestcase substitute ⟨[], [], failCount⟩

/-- The ignored case comes first. -/
theorem undisturbed_first_iff (ignoredOne : .ignore ∈ one) (ignoredOther : .ignore ∈ other) :
    Undisturbed 0 (singleThreadTest failCount ((one :: after).map registered))
      (singleThreadTest failCount ((other :: after).map registered)) ↔
    ¬ (failCount ≠ 0 ∧ breaks one ≠ breaks other ∧ after ≠ []) := by
  rw [singleThreadTest_cons, singleThreadTest_cons, stops_ignored ignoredOne,
    stops_ignored ignoredOther, failCountAfter_ignored ignoredOne,
    failCountAfter_ignored ignoredOther]
  by_cases clean : failCount = 0
  · simpa [clean] using undisturbed_head _ _ _
  have dirty : (failCount != 0) = true := by simpa using clean
  cases stopOne : breaks one <;> cases stopOther : breaks other
  · simpa [dirty] using undisturbed_head _ _ _
  · simp only [dirty, Bool.and_self, Bool.false_and, Bool.false_eq_true, if_false, if_true]
    rw [undisturbed_comm, undisturbed_cut]
    simp [clean]
  · simp only [dirty, Bool.and_self, Bool.false_and, Bool.false_eq_true, if_false, if_true]
    rw [undisturbed_cut]
    simp [clean]
  · have both : Undisturbed 0 ⟨[tested one], after.map registered, failCount⟩
        ⟨[tested other], after.map registered, failCount⟩ :=
      undisturbed_head (tested one) (tested other) ⟨[], after.map registered, failCount⟩
    simpa [dirty] using both

/-- Nothing of an ignored case but its break reaches the other cases, and this only
when the loop comes to it with a failure counted, and others follow. -/
theorem undisturbed_iff (failCount : Int32) (before after : List Body) (one other : Body)
    (ignoredOne : .ignore ∈ one) (ignoredOther : .ignore ∈ other) :
    Undisturbed before.length (singleThreadTest failCount ((before ++ one :: after).map registered))
      (singleThreadTest failCount ((before ++ other :: after).map registered)) ↔
    ¬ (passes failCount before = true ∧
      failCount + Int32.ofNat (before.countP counted) ≠ 0 ∧
      breaks one ≠ breaks other ∧ after ≠ []) := by
  induction before generalizing failCount with
  | nil => simpa [passes] using undisturbed_first_iff ignoredOne ignoredOther
  | cons body before ih =>
    rw [List.cons_append, List.cons_append, singleThreadTest_cons, singleThreadTest_cons]
    have counts : failCount + Int32.ofNat ((body :: before).countP counted) =
        failCountAfter failCount body + Int32.ofNat (before.countP counted) := by
      rw [failCountAfter_eq, Int32.add_assoc, ← Int32.ofNat_add, ← List.countP_append,
        List.singleton_append]
    cases stop : stops failCount body with
    | true =>
      -- neither run comes to the ignored case
      simp only [if_true, passes, stop, Bool.not_true, Bool.false_and, Bool.false_eq_true,
        false_and, not_false_eq_true, iff_true, List.map_append, List.map_cons]
      refine ⟨fun i away => rfl, rfl⟩
    | false =>
      rw [if_neg (by decide), if_neg (by decide), List.length_cons, undisturbed_cons, ih, passes,
        stop, Bool.not_false, Bool.true_and, counts]

def aroundIgnored (earlier ignored : Bool) : List Body := [[.t earlier], [.ignore, .a ignored], []]

/-- The ignored case fails an `A_` assertion after another case has failed: the last
case is not run. -/
theorem ignoredBreak_disturbs : ¬ Undisturbed 1
    (singleThreadTest 0 ((aroundIgnored false true).map registered))
    (singleThreadTest 0 ((aroundIgnored false false).map registered)) := by
  rintro ⟨others, _⟩
  exact absurd (others 2 (by decide)) (by decide)

/-- With no failure before it, the same break disturbs nothing. -/
theorem undisturbed_clean : Undisturbed 1
    (singleThreadTest 0 ((aroundIgnored true true).map registered))
    (singleThreadTest 0 ((aroundIgnored true false).map registered)) :=
  (undisturbed_iff 0 [[.t true]] [[]] [.ignore, .a true] [.ignore, .a false] (by decide)
    (by decide)).mpr (by decide)

end Prot.Test.SingleThread
