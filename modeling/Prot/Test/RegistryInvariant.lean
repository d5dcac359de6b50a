import Mathlib.Data.List.Induction
import Prot.Test.Registry

/-! What `AddTestCase` keeps: three lists that share no node, each with the
contents that the calls so far ask for. -/

namespace Prot.Test.Registry

open Memory Registration

variable {Func Name : Type}
variable {calls : List (Registration Func Name)} {a : Registration Func Name}
variable {heap after : Heap (Node (TestCase Func Name))} {head : Option ℕ} {p : ℕ}
variable {entries cases inits dones : List (ℕ × TestCase Func Name)}
variable {r s : State Func Name} {item : TestCase Func Name}

/-! What one more call asks for. -/

def enabled (calls : List (Registration Func Name)) : Bool := (calls.filter ordinary).any meonly

theorem enabled_append :
    enabled (calls ++ [a]) = (enabled calls || (a.ordinary && a.meonly)) := by
  unfold enabled
  cases tested : a.ordinary <;> simp [tested]

private theorem selected_other (fixture : a.ordinary = false) :
    selected (calls ++ [a]) = selected calls := by
  simp [selected, fixture]

private theorem dropped_other (fixture : a.ordinary = false) :
    dropped (calls ++ [a]) = dropped calls := by
  simp [dropped, fixture]

private theorem selected_refused (tested : a.ordinary = true) (only : enabled calls = true)
    (plain : a.meonly = false) : selected (calls ++ [a]) = selected calls := by
  unfold enabled at only
  simp [selected, tested, plain, only]

private theorem selected_first (tested : a.ordinary = true) (before : enabled calls = false)
    (only : a.meonly = true) : selected (calls ++ [a]) = [a] := by
  unfold enabled at before
  have plain : (calls.filter ordinary).filter meonly = [] :=
    List.filter_eq_nil_iff.mpr (by simpa only [List.any_eq_false] using before)
  rw [selected, List.filter_append, List.filter_cons_of_pos tested, List.filter_nil]
  simp [only, List.filter_append, plain]

private theorem selected_more (tested : a.ordinary = true) (alike : enabled calls = a.meonly) :
    selected (calls ++ [a]) = selected calls ++ [a] := by
  unfold enabled at alike
  cases only : a.meonly <;> rw [only] at alike <;> simp [selected, tested, only, alike]

private theorem dropped_enabled (only : enabled calls = true) :
    dropped (calls ++ [a]) = dropped calls := by
  cases tested : a.ordinary with
  | false => exact dropped_other tested
  | true =>
    unfold enabled at only
    have earlier := List.findIdx_lt_length.mpr (List.any_eq_true.mp only)
    simp only [dropped, List.filter_append, List.any_append, only, Bool.true_or, if_true,
      List.findIdx_append, earlier]

theorem dropped_before (before : enabled calls = false) : dropped calls = 0 := by
  unfold enabled at before
  simp only [dropped, before, Bool.false_eq_true, if_false]

private theorem selected_before (before : enabled calls = false) :
    selected calls = calls.filter ordinary := by
  unfold enabled at before
  simp only [selected, before, Bool.false_eq_true, if_false]

private theorem dropped_first (tested : a.ordinary = true) (before : enabled calls = false)
    (only : a.meonly = true) : dropped (calls ++ [a]) = (selected calls).length := by
  rw [selected_before before]
  unfold enabled at before
  have none : ¬ (calls.filter ordinary).findIdx meonly < (calls.filter ordinary).length := by
    rw [List.findIdx_lt_length, ← List.any_eq_true, before]
    exact Bool.false_ne_true
  rw [dropped, List.filter_append, List.filter_cons_of_pos tested, List.filter_nil,
    List.findIdx_append, if_neg none]
  simp [only]

private theorem eraseDupsBy_concat {α : Type} (like : α → α → Bool) (items : List α) (item : α) :
    (items ++ [item]).eraseDupsBy like =
      if (items.eraseDupsBy like).any (like item) then items.eraseDupsBy like
      else items.eraseDupsBy like ++ [item] := by
  have loop (kept : List α) : List.eraseDupsBy.loop like (items ++ [item]) kept =
      if (List.eraseDupsBy.loop like items kept).any (like item) then
        List.eraseDupsBy.loop like items kept
      else List.eraseDupsBy.loop like items kept ++ [item] := by
    induction items generalizing kept with
    | nil => cases met : kept.any (like item) <;> simp [List.eraseDupsBy.loop, met]
    | cons first rest ih =>
      cases met : kept.any (like first) <;> simp only [List.cons_append, List.eraseDupsBy.loop, met, ih]
  exact loop []

/-! What one more node does to the heap. -/

/-- A node has been allocated, and nothing but it and this list has been written
to. -/
structure Extended (heap after : Heap (Node (TestCase Func Name)))
    (entries : List (ℕ × TestCase Func Name)) : Prop where
  sound : after.Sound
  elsewhere : ∀ p, p ≠ heap.next → p ∉ pointers entries → after.object p = heap.object p

theorem fresh_notMem (linked : Linked heap head entries) (sound : heap.Sound) :
    heap.next ∉ pointers entries :=
  fun member => linked.live member sound.fresh

/-- The lists that do not share a node with the one written to are as before. -/
theorem Extended.frame {others : List (ℕ × TestCase Func Name)} (extended : Extended heap after entries)
    (sound : heap.Sound) (linked : Linked heap head others)
    (apart : (pointers entries).Disjoint (pointers others)) : Linked after head others :=
  linked.frame fun p member => extended.elsewhere p
    (by rintro rfl; exact fresh_notMem linked sound member) fun shared => apart shared member

theorem extended_new (sound : heap.Sound) (node : Node (TestCase Func Name)) :
    Extended heap (heap.new node) entries :=
  ⟨sound.new node, fun _ other _ => Heap.object_new_of_ne other⟩

/-- The new node is put behind the last one of a list. -/
theorem setNext_linked (linked : Linked heap head (entries ++ [(p, item)])) (sound : heap.Sound)
    (added : TestCase Func Name) :
    ∃ after, setNext (heap.new ⟨none, added⟩) p heap.next = some after ∧
      Linked after head (entries ++ [(p, item)] ++ [(heap.next, added)]) ∧
      Extended heap after (entries ++ [(p, item)]) := by
  have kept := linked.new sound ⟨none, added⟩
  refine ⟨(heap.new ⟨none, added⟩).set p ⟨some heap.next, item⟩, ?_, ?_, ?_, ?_⟩
  · simp [setNext, kept.last]
  · rw [List.append_assoc]
    exact kept.concat Heap.object_new_self (fresh_notMem linked sound)
  · exact (sound.new _).set (by rw [kept.last]; exact nofun) _
  · intro q other outside
    have apart : q ≠ p := by
      rintro rfl
      exact outside (by simp)
    rw [Heap.object_set_of_ne apart, Heap.object_new_of_ne other]

/-! The lists of the registry. -/

/-- The three lists are there, apart from each other. -/
structure Shape (r : State Func Name) (cases inits dones : List (ℕ × TestCase Func Name)) : Prop where
  sound : r.heap.Sound
  headCase : Linked r.heap r.headCase cases
  ifl : Linked r.heap r.ifl inits
  dfl : Linked r.heap r.dfl dones
  lastCase : r.lastCase = cases.getLast?.map Prod.fst
  casesInits : (pointers cases).Disjoint (pointers inits)
  casesDones : (pointers cases).Disjoint (pointers dones)
  initsDones : (pointers inits).Disjoint (pointers dones)

theorem disjoint_concat {others : List (ℕ × TestCase Func Name)}
    (apart : (pointers entries).Disjoint (pointers others)) (outside : p ∉ pointers others) :
    (pointers (entries ++ [(p, item)])).Disjoint (pointers others) := by
  rw [pointers_append, List.disjoint_append_left]
  exact ⟨apart, by simpa using outside⟩

/-- `append`, with the counters it leaves. -/
theorem append_shape (shape : Shape r cases inits dones) (a : Registration Func Name) :
    ∃ s, append r a = some s ∧ Shape s (cases ++ [(r.heap.next, a.case)]) inits dones ∧
      s.testCount = r.testCount + 1 ∧ s.nc = r.nc + 1 ∧ s.inited = r.inited ∧
      s.testMeonlyEnabled = r.testMeonlyEnabled := by
  obtain ⟨sound, headCase, ifl, dfl, lastCase, casesInits, casesDones, initsDones⟩ := shape
  have freshInits := fresh_notMem ifl sound
  have freshDones := fresh_notMem dfl sound
  rcases List.eq_nil_or_concat cases with rfl | ⟨before, ⟨p, item⟩, rfl⟩
  · have extended : Extended r.heap (r.heap.new ⟨none, a.case⟩) [] := extended_new sound _
    simp only [append, show r.lastCase = none from lastCase]
    refine ⟨_, rfl, ?_, rfl, rfl, rfl, rfl⟩
    exact ⟨extended.sound, .singleton Heap.object_new_self, ifl.new sound _, dfl.new sound _,
      rfl, disjoint_concat casesInits freshInits, disjoint_concat casesDones freshDones, initsDones⟩
  · rw [List.concat_eq_append] at *
    obtain ⟨after, written, linked, extended⟩ := setNext_linked headCase sound a.case
    have final : r.lastCase = some p := by simpa using lastCase
    simp only [append, final, written, Option.map_some]
    refine ⟨_, rfl, ?_, rfl, rfl, rfl, rfl⟩
    exact ⟨extended.sound, linked, extended.frame sound ifl casesInits,
      extended.frame sound dfl casesDones, by simp, disjoint_concat casesInits freshInits,
      disjoint_concat casesDones freshDones, initsDones⟩

private theorem enableMeonly_shape (shape : Shape r cases inits dones) :
    ∃ s, enableMeonly r = some s ∧ Shape s [] inits dones ∧ s.testCount = r.testCount ∧ s.nc = 0 ∧
      s.inited = r.inited ∧ s.testMeonlyEnabled = true := by
  obtain ⟨after, freed, _, elsewhere, sound⟩ :=
    Heap.freeFrom_linked shape.headCase shape.sound (shape.headCase.length_le shape.sound)
  rw [enableMeonly, freed, Option.map_some]
  refine ⟨_, rfl, ?_, rfl, rfl, rfl, rfl⟩
  exact ⟨sound, rfl,
    shape.ifl.frame fun p member => elsewhere p fun shared => shape.casesInits shared member,
    shape.dfl.frame fun p member => elsewhere p fun shared => shape.casesDones shared member,
    rfl, List.disjoint_nil_left _, List.disjoint_nil_left _, shape.initsDones⟩

variable [DecidableEq Name]

/-- A list of fixtures after a call of its kind. -/
def extend (entries : List (ℕ × TestCase Func Name)) (p : ℕ) (a : Registration Func Name) :
    List (ℕ × TestCase Func Name) :=
  if entries.any fun entry => a.names entry.2 then entries else entries ++ [(p, a.case)]

private theorem enlist_linked (linked : Linked heap head entries) (sound : heap.Sound)
    (a : Registration Func Name) :
    ∃ after first, enlist heap head a = some (after, first) ∧
      Linked after first (extend entries heap.next a) ∧ Extended heap after entries := by
  have kept := linked.new sound ⟨none, a.case⟩
  have enough := kept.length_le (sound.new _)
  rcases List.eq_nil_or_concat entries with rfl | ⟨before, ⟨p, item⟩, rfl⟩
  · cases linked
    exact ⟨_, _, rfl, .singleton Heap.object_new_self, extended_new sound _⟩
  rw [List.concat_eq_append] at *
  obtain ⟨first, rfl⟩ : ∃ first, head = some first := by
    cases head with
    | none => exact absurd linked.eq_nil (by simp)
    | some first => exact ⟨first, rfl⟩
  cases met : (before ++ [(p, item)]).any fun entry => a.names entry.2 with
  | true =>
    obtain ⟨q, sought⟩ := Heap.seek_found kept (List.any_eq_true.mp met) enough
    simp only [enlist, sought]
    refine ⟨_, _, rfl, ?_, extended_new sound _⟩
    rw [extend, if_pos met]
    exact kept
  | false =>
    have sought : (heap.new ⟨none, a.case⟩).seek a.names (heap.new ⟨none, a.case⟩).next first =
        some (.last p) :=
      Heap.seek_last kept
        (fun entry member => by simpa using List.any_eq_false.mp met entry member)
        (Nat.lt_succ_of_le (by simpa using enough))
    obtain ⟨after, written, listed, extended⟩ := setNext_linked linked sound a.case
    simp only [enlist, sought, written, Option.map_some]
    refine ⟨_, _, rfl, ?_, extended⟩
    rw [extend, if_neg (by rw [met]; exact Bool.false_ne_true)]
    exact listed

theorem extend_disjoint {others : List (ℕ × TestCase Func Name)}
    (apart : (pointers entries).Disjoint (pointers others)) (outside : p ∉ pointers others) :
    (pointers (extend entries p a)).Disjoint (pointers others) := by
  unfold extend
  split
  · exact apart
  · exact disjoint_concat apart outside

private theorem addFixture_shape (shape : Shape r cases inits dones) (a : Registration Func Name) :
    ∃ s, addFixture r a = some s ∧
      Shape s cases (if a.isInit then extend inits r.heap.next a else inits)
        (if a.isInit then dones else extend dones r.heap.next a) ∧
      s.testCount = r.testCount ∧ s.nc = r.nc ∧ s.inited = r.inited ∧
      s.testMeonlyEnabled = r.testMeonlyEnabled ∧ s.headCase = r.headCase ∧
      s.lastCase = r.lastCase := by
  obtain ⟨sound, headCase, ifl, dfl, lastCase, casesInits, casesDones, initsDones⟩ := shape
  have freshCases := fresh_notMem headCase sound
  cases kind : a.isInit with
  | true =>
    obtain ⟨after, first, listed, linked, extended⟩ := enlist_linked ifl sound a
    rw [addFixture, if_pos (by simpa [isInit] using kind), listed, Option.map_some]
    refine ⟨_, rfl, ?_, rfl, rfl, rfl, rfl, rfl, rfl⟩
    exact ⟨extended.sound, extended.frame sound headCase (List.disjoint_symm casesInits), linked,
      extended.frame sound dfl initsDones, lastCase,
      List.disjoint_symm (extend_disjoint (List.disjoint_symm casesInits) freshCases), casesDones,
      extend_disjoint initsDones (fresh_notMem dfl sound)⟩
  | false =>
    obtain ⟨after, first, listed, linked, extended⟩ := enlist_linked dfl sound a
    rw [addFixture, if_neg (by simpa [isInit] using kind), listed, Option.map_some]
    refine ⟨_, rfl, ?_, rfl, rfl, rfl, rfl, rfl, rfl⟩
    exact ⟨extended.sound, extended.frame sound headCase (List.disjoint_symm casesDones),
      extended.frame sound ifl (List.disjoint_symm initsDones), linked, lastCase, casesInits,
      List.disjoint_symm (extend_disjoint (List.disjoint_symm casesDones) freshCases),
      List.disjoint_symm (extend_disjoint (List.disjoint_symm initsDones) (fresh_notMem ifl sound))⟩

/-! The contents of the lists. -/

/-- The items of a list are those of the calls. -/
def Records (entries : List (ℕ × TestCase Func Name)) (calls : List (Registration Func Name)) : Prop :=
  entries.map Prod.snd = calls.map Registration.case

omit [DecidableEq Name] in
theorem Records.concat (records : Records entries calls) :
    Records (entries ++ [(p, a.case)]) (calls ++ [a]) := by
  unfold Records at *
  simp [records]

omit [DecidableEq Name] in
theorem Records.length (records : Records entries calls) : entries.length = calls.length := by
  simpa using congrArg List.length records

private theorem names_case (a b : Registration Func Name) : a.names b.case = a.sameNames b := rfl

private theorem Records.any_names (records : Records entries calls) (a : Registration Func Name) :
    (entries.any fun entry => a.names entry.2) = calls.any a.sameNames := by
  have items := congrArg (List.any · a.names) records
  simpa [List.any_map, Function.comp_def, names_case] using items

theorem fixtures_append {kind : Registration Func Name → Bool} (of : kind a = true) :
    fixtures kind (calls ++ [a]) =
      if (fixtures kind calls).any a.sameNames then fixtures kind calls
      else fixtures kind calls ++ [a] := by
  rw [fixtures, List.filter_append, List.filter_cons_of_pos of, List.filter_nil, eraseDupsBy_concat]
  rfl

theorem fixtures_other {kind : Registration Func Name → Bool} (other : kind a = false) :
    fixtures kind (calls ++ [a]) = fixtures kind calls := by
  simp [fixtures, other]

theorem Records.extend {kind : Registration Func Name → Bool}
    (records : Records entries (fixtures kind calls)) (of : kind a = true) :
    Records (extend entries p a) (fixtures kind (calls ++ [a])) := by
  rw [Registry.extend, records.any_names, fixtures_append of]
  split
  · exact records
  · exact records.concat

/-- What the registry holds after some calls. -/
structure Holds (calls : List (Registration Func Name)) (r : State Func Name)
    (cases inits dones : List (ℕ × TestCase Func Name)) : Prop where
  shape : Shape r cases inits dones
  selected : Records cases (selected calls)
  inits : Records inits (fixtures isInit calls)
  dones : Records dones (fixtures isDone calls)
  enabled : r.testMeonlyEnabled = enabled calls
  testCount : r.testCount = Int32.ofNat (dropped calls + cases.length)
  nc : r.nc = UInt32.ofNat cases.length
  uninited : r.inited = false → r.headCase = none ∧ r.lastCase = none ∧ r.testCount = 0

private theorem holds_start : Holds [] (start : State Func Name) [] [] [] where
  shape := ⟨.empty, rfl, rfl, rfl, rfl, List.disjoint_nil_left _, List.disjoint_nil_left _,
    List.disjoint_nil_left _⟩
  selected := rfl
  inits := rfl
  dones := rfl
  enabled := rfl
  testCount := rfl
  nc := rfl
  uninited _ := ⟨rfl, rfl, rfl⟩

omit [DecidableEq Name] in
private theorem initTest_eq
    (uninited : r.inited = false → r.headCase = none ∧ r.lastCase = none ∧ r.testCount = 0) :
    initTest r = { r with inited := true } := by
  unfold initTest
  cases ran : r.inited with
  | true => simp [← ran]
  | false =>
    obtain ⟨head, last, count⟩ := uninited ran
    rw [← head, ← last.trans head.symm, ← count]
    rfl

/-- `InitTest` clears a registry that is empty. -/
theorem Holds.initTest (holds : Holds calls r cases inits dones) :
    Holds calls (initTest r) cases inits dones ∧ (Registry.initTest r).inited = true := by
  rw [initTest_eq holds.uninited]
  obtain ⟨⟨sound, headCase, ifl, dfl, lastCase, casesInits, casesDones, initsDones⟩, selected,
    initCalls, doneCalls, only, testCount, nc, _⟩ := holds
  exact ⟨⟨⟨sound, headCase, ifl, dfl, lastCase, casesInits, casesDones, initsDones⟩, selected,
    initCalls, doneCalls, only, testCount, nc, nofun⟩, rfl⟩

private theorem flags_and_or (flags x y : Int32) :
    flags &&& (x ||| y) = flags &&& x ||| flags &&& y :=
  Int32.toBitVec_inj.mp BitVec.and_or_distrib_left

omit [DecidableEq Name] in
private theorem ordinary_iff :
    a.ordinary = true ↔ a.flags &&& (utestInit ||| utestDone) = 0 := by
  rw [flags_and_or, Int32.or_eq_zero_iff]
  simp [ordinary]

omit [DecidableEq Name] in
private theorem isDone_eq (fixture : a.ordinary = false) : a.isDone = !a.isInit := by
  unfold ordinary at fixture
  unfold isDone isInit
  cases init : decide (a.flags &&& utestInit = 0) <;> simp_all

private theorem addFixture_holds (holds : Holds calls r cases inits dones)
    (fixture : a.ordinary = false)
    (inited : r.inited = true) :
    ∃ s inits dones, addFixture r a = some s ∧ Holds (calls ++ [a]) s cases inits dones := by
  obtain ⟨s, added, shape, testCount, nc, inited', only, _⟩ := addFixture_shape holds.shape a
  have done := isDone_eq fixture
  refine ⟨s, _, _, added, shape, ?_, ?_, ?_, ?_, ?_, ?_, ?_⟩
  · rw [selected_other fixture]
    exact holds.selected
  · cases kind : a.isInit with
    | true => exact holds.inits.extend kind
    | false => exact (fixtures_other kind).symm ▸ holds.inits
  · cases kind : a.isInit with
    | true =>
      rw [kind, Bool.not_true] at done
      exact (fixtures_other done).symm ▸ holds.dones
    | false =>
      rw [kind, Bool.not_false] at done
      exact holds.dones.extend done
  · rw [only, holds.enabled, enabled_append, fixture]
    simp
  · rw [testCount, holds.testCount, dropped_other fixture]
  · rw [nc, holds.nc]
  · rw [inited', inited]
    exact nofun

/-- The kinds of fixtures do not see an ordinary case. -/
theorem fixtures_ordinary (calls : List (Registration Func Name)) (tested : a.ordinary = true) :
    fixtures isInit (calls ++ [a]) = fixtures isInit calls ∧
      fixtures isDone (calls ++ [a]) = fixtures isDone calls := by
  simp only [ordinary, Bool.and_eq_true, decide_eq_true_eq] at tested
  exact ⟨fixtures_other (by simp [isInit, tested.1]), fixtures_other (by simp [isDone, tested.2])⟩

private theorem refused_holds (holds : Holds calls r cases inits dones) (tested : a.ordinary = true)
    (only : enabled calls = true) (plain : a.meonly = false) :
    Holds (calls ++ [a]) r cases inits dones := by
  obtain ⟨initCalls, doneCalls⟩ := fixtures_ordinary calls tested
  refine ⟨holds.shape, ?_, initCalls ▸ holds.inits, doneCalls ▸ holds.dones, ?_, ?_, holds.nc,
    holds.uninited⟩
  · rw [selected_refused tested only plain]
    exact holds.selected
  · rw [holds.enabled, enabled_append, only, Bool.true_or]
  · rw [holds.testCount, dropped_enabled only]

/-- A case like those before it is appended. -/
theorem append_holds (holds : Holds calls r cases inits dones) (tested : a.ordinary = true)
    (alike : enabled calls = a.meonly) (inited : r.inited = true) :
    ∃ s cases, append r a = some s ∧ Holds (calls ++ [a]) s cases inits dones := by
  obtain ⟨s, added, shape, testCount, nc, inited', only⟩ := append_shape holds.shape a
  obtain ⟨initCalls, doneCalls⟩ := fixtures_ordinary calls tested
  have same : enabled (calls ++ [a]) = enabled calls := by
    rw [enabled_append, tested, alike, Bool.true_and, Bool.or_self]
  have before : dropped (calls ++ [a]) = dropped calls := by
    cases on : enabled calls with
    | true => exact dropped_enabled on
    | false => rw [dropped_before on, dropped_before (same.trans on)]
  refine ⟨s, _, added, shape, ?_, initCalls ▸ holds.inits, doneCalls ▸ holds.dones, ?_, ?_, ?_, ?_⟩
  · rw [selected_more tested alike]
    exact holds.selected.concat
  · rw [only, holds.enabled, same]
  · rw [testCount, holds.testCount, before, List.length_append, ← Nat.add_assoc,
      Int32.ofNat_add (dropped calls + cases.length)]
    rfl
  · rw [nc, holds.nc, List.length_append, UInt32.ofNat_add]
    rfl
  · rw [inited', inited]
    exact nofun

private theorem enableMeonly_holds (holds : Holds calls r cases inits dones)
    (tested : a.ordinary = true)
    (before : enabled calls = false) (only : a.meonly = true) (inited : r.inited = true) :
    ∃ cleared s cases, enableMeonly r = some cleared ∧ append cleared a = some s ∧
      Holds (calls ++ [a]) s cases inits dones := by
  obtain ⟨cleared, freed, empty, clearedCount, clearedNc, clearedInited, on⟩ :=
    enableMeonly_shape holds.shape
  obtain ⟨s, added, shape, testCount, nc, inited', only'⟩ := append_shape empty a
  obtain ⟨initCalls, doneCalls⟩ := fixtures_ordinary calls tested
  refine ⟨cleared, s, _, freed, added, shape, ?_, initCalls ▸ holds.inits, doneCalls ▸ holds.dones,
    ?_, ?_, ?_, ?_⟩
  · rw [selected_first tested before only]
    rfl
  · rw [only', on, enabled_append, before, tested, only]
    rfl
  · rw [testCount, clearedCount, holds.testCount, dropped_before before, Nat.zero_add,
      dropped_first tested before only, ← holds.selected.length, Int32.ofNat_add]
    rfl
  · rw [nc, clearedNc]
    rfl
  · rw [inited', clearedInited, inited]
    exact nofun

private theorem addTestCase_holds (holds : Holds calls r cases inits dones)
    (a : Registration Func Name) :
    ∃ s cases inits dones, (addTestCase r a).map Prod.fst = some s ∧
      Holds (calls ++ [a]) s cases inits dones := by
  obtain ⟨holds, inited⟩ := holds.initTest
  have on := holds.enabled
  unfold addTestCase
  cases tested : a.ordinary with
  | false =>
    obtain ⟨s, inits, dones, added, kept⟩ := addFixture_holds holds tested inited
    rw [if_pos (ordinary_iff.not.mp (by simp [tested])), added]
    exact ⟨s, cases, inits, dones, rfl, kept⟩
  | true =>
    have plain : a.flags &&& testMeonly = 0 ↔ a.meonly = false := by simp [meonly]
    rw [if_neg (not_not_intro (ordinary_iff.mp tested)), on]
    cases before : enabled calls <;> cases only : a.meonly
    · obtain ⟨s, cases, added, kept⟩ := append_holds holds tested (before.trans only.symm) inited
      exact ⟨s, cases, inits, dones, by simp [plain, only, added], kept⟩
    · obtain ⟨cleared, s, cases, freed, added, kept⟩ := enableMeonly_holds holds tested before only inited
      exact ⟨s, cases, inits, dones, by simp [plain, only, freed, added], kept⟩
    · exact ⟨_, cases, inits, dones, by simp [plain, only], refused_holds holds tested before only⟩
    · obtain ⟨s, cases, added, kept⟩ := append_holds holds tested (before.trans only.symm) inited
      exact ⟨s, cases, inits, dones, by simp [plain, only, added], kept⟩

/-- Any number of calls. -/
theorem addTestCases_holds (calls : List (Registration Func Name)) :
    ∃ r cases inits dones, addTestCases calls = some r ∧ Holds calls r cases inits dones := by
  induction calls using List.reverseRecOn with
  | nil => exact ⟨start, [], [], [], rfl, holds_start⟩
  | append_singleton calls a ih =>
    obtain ⟨r, cases, inits, dones, added, holds⟩ := ih
    obtain ⟨s, cases, inits, dones, one, kept⟩ := addTestCase_holds holds a
    refine ⟨s, cases, inits, dones, ?_, kept⟩
    rw [addTestCases, List.foldlM_append, ← addTestCases, added]
    simpa using one

end Prot.Test.Registry
