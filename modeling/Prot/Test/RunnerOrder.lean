import Prot.Test.RunnerReport

/-! In which order `MultiThreadTest` hands the standalone cases to
`SingleThreadTest`. -/

namespace Prot.Test.Runner

open Concurrency Memory

/-! An initial part of a list, and one more. -/

section Lists

variable {α : Type} {items part : List α} {x y : α}

/-- What comes next in a list is what has nothing before it but the initial part. -/
theorem concat_prefix_iff (initial : part <+: items) (nodup : items.Nodup) (member : x ∈ items)
    (further : x ∉ part) : part ++ [x] <+: items ↔ ∀ y, [y, x].Sublist items → y ∈ part := by
  obtain ⟨rest, rfl⟩ := initial
  obtain ⟨_, later, apart⟩ := List.nodup_append.mp nodup
  cases rest with
  | nil => exact absurd (by simpa using member) further
  | cons first rest =>
    have once := (List.nodup_cons.mp later).1
    rw [List.prefix_append_right_inj, List.cons_prefix_cons]
    constructor
    · rintro ⟨rfl, _⟩ y pair
      obtain ⟨left, right, split, inPart, inRest⟩ := List.sublist_append_iff.mp pair
      cases left with
      | nil =>
        subst split
        cases inRest with
        | cons _ both => exact absurd (both.subset (by simp)) once
        | cons_cons _ again => exact absurd (again.subset (by simp)) once
      | cons z left =>
        obtain rfl := (List.cons.inj split).1
        exact inPart.subset List.mem_cons_self
    · intro before
      refine ⟨?_, List.nil_prefix⟩
      by_contra other
      have behind : x ∈ rest := by simpa [further, other] using member
      have pair : [first, x].Sublist (part ++ first :: rest) :=
        ((List.singleton_sublist.mpr behind).cons_cons first).trans (List.sublist_append_right _ _)
      exact apart first (before first pair) first List.mem_cons_self rfl

private theorem eq_of_prefix (initial : part <+: items) (nodup : items.Nodup)
    (all : ∀ x ∈ items, x ∈ part) :
    part = items := by
  obtain ⟨rest, rfl⟩ := initial
  obtain ⟨_, _, apart⟩ := List.nodup_append.mp nodup
  cases rest with
  | nil => simp
  | cons first rest => exact absurd rfl (apart first (all first (by simp)) first List.mem_cons_self)

end Lists

variable {Worker Case : Type} [DecidableEq Worker] [DecidableEq Case]
variable {cases nodes : List Case} {standalone : Case → Bool} {next : Case → Option Case}
variable {head : Option Case} {s s' : State Worker Case} {c d : Case} {v w : Worker} {lines i : ℕ}
variable {action : Action Worker}

/-- A worker puts a case aside only when no worker has an earlier standalone case in
hand. -/
def InOrder (cases : List Case) (standalone : Case → Bool) (s : State Worker Case) :
    Action Worker → Prop
  | .worker w => ∀ c, s.worker w = .pushLeft c → ∀ v d,
      (s.worker v).hand v = some (d, .held v) → standalone d = true → ¬ [d, c].Sublist cases
  | .workerTests _ _ | .main | .mainTests _ => True

def Main.early : Main Case → Bool
  | .join _ | .rearrange => true
  | _ => false

/-- The cases in the order in which they were put aside: the top of `ptest_left` is
the last of them, and the runner turns them round one by one. -/
def State.Aside (s : State Worker Case) (nodes : List Case) : Prop :=
  ∃ left ready, nodes = left.reverse ++ ready ∧ Chain s.next s.ptestLeft left ∧
    match s.main with
    | .join _ => ready = []
    | _ => Chain s.next s.ptestCase ready

omit [DecidableEq Worker] [DecidableEq Case] in
theorem State.Aside.unique {other : List Case} (aside : s.Aside nodes) (also : s.Aside other) :
    nodes = other := by
  obtain ⟨left, ready, rfl, chain, rest⟩ := aside
  obtain ⟨left', ready', rfl, chain', rest'⟩ := also
  rw [chain.unique chain']
  cases main : s.main <;> rw [main] at rest rest'
  case join => rw [show ready = [] from rest, show ready' = [] from rest']
  all_goals rw [Chain.unique rest rest']

omit [DecidableEq Worker] [DecidableEq Case] in
theorem State.Aside.chain (aside : s.Aside nodes) (main : s.main = .join i) :
    Chain s.next s.ptestLeft nodes.reverse := by
  obtain ⟨left, ready, rfl, chain, rest⟩ := aside
  rw [main] at rest
  rw [show ready = [] from rest]
  simpa using chain

omit [DecidableEq Worker] [DecidableEq Case] in
theorem aside_of_chain (main : s.main = .join i) (chain : Chain s.next s.ptestLeft nodes.reverse) :
    s.Aside nodes :=
  ⟨nodes.reverse, [], by simp, chain, by rw [main]⟩

def Idle (s : State Worker Case) (action : Action Worker) : Prop :=
  ∀ w c, action = .worker w → s.worker w ≠ .pushLeft c

/-- What a step before `SingleThreadTest` does to the queue and to `ptest_left`. -/
inductive Early (s : State Worker Case) : Action Worker → State Worker Case → Prop where
  | still (action : Action Worker) (s' : State Worker Case) (i j : ℕ) (idle : Idle s action)
      (before : s.main = .join i) (after : s'.main = .join j)
      (next : ∀ d, s.place d = .queued ∨ s.place d = .left → s'.next d = s.next d)
      (left : s'.ptestLeft = s.ptestLeft) (queue : s'.ptestCase = s.ptestCase) : Early s action s'
  | fetch (w : Worker) (c : Case) (i : ℕ) (idle : Idle s (.worker w)) (main : s.main = .join i)
      (first : s.ptestCase = some c) : Early s (.worker w)
        (({ s with ptestCase := s.next c }.put c (.held w)).goto w (.fetched (some c)))
  | push (w : Worker) (c : Case) (i : ℕ) (main : s.main = .join i)
      (here : s.worker w = .pushLeft c) : Early s (.worker w) (s.pushLeft w c)
  | joined (i : ℕ) (main : s.main = .join i) :
      Early s .main { s with ptestCase := none, main := .rearrange }
  | turn (p : Case) (main : s.main = .rearrange) (first : s.ptestLeft = some p) :
      Early s .main ({ s with
        ptestLeft := s.next p
        next := Function.update s.next p s.ptestCase
        ptestCase := some p }.put p .ready)

theorem record_eq (s : State Worker Case) (w : Worker) (c : Case) :
    (s.record w c).main = s.main ∧ (s.record w c).ptestLeft = s.ptestLeft ∧
      (s.record w c).ptestCase = s.ptestCase ∧ (s.record w c).cut = s.cut ∧
      ∀ d, d ≠ c → (s.record w c).next d = s.next d := by
  unfold State.record
  cases s.fails c with
  | true => exact ⟨rfl, rfl, rfl, rfl, fun d other => Function.update_of_ne other _ _⟩
  | false => exact ⟨rfl, rfl, rfl, rfl, fun d _ => rfl⟩

variable [Fintype Worker] [Fintype Case]

theorem Effect.early (effect : Effect lines s action s') (inv : Invariant cases s)
    (calm : s'.breakout = false) (early : s'.main.early = true) : Early s action s' := by
  have working : ∀ w, s.worker w ≠ .done → ∃ i, s.main = .join i := fun w busy => by
    obtain ⟨i, main, _⟩ := inv.joining busy
    exact ⟨i, main⟩
  cases effect with
  | testFunc w c o here =>
    obtain ⟨i, main⟩ := working w (by rw [here]; exact nofun)
    exact .still _ _ i i (fun _ _ same => by cases same) main main (fun _ _ => rfl) rfl rfl
  | fetchNone w here _ | leave w _ here _ | sort w _ here _ | post w here =>
    obtain ⟨i, main⟩ := working w (by rw [here]; exact nofun)
    refine .still _ _ i i ?_ main main (fun _ _ => rfl) rfl rfl
    intro v c same
    cases same
    rw [here]
    exact nofun
  | fetchSome w c here first =>
    obtain ⟨i, main⟩ := working w (by rw [here]; exact nofun)
    refine .fetch w c i ?_ main first
    intro v d same
    cases same
    rw [here]
    exact nofun
  | pushLeft w c here =>
    obtain ⟨i, main⟩ := working w (by rw [here]; exact nofun)
    exact .push w c i main here
  | record w c here =>
    obtain ⟨i, main⟩ := working w (by rw [here]; exact nofun)
    obtain ⟨main', left, queue, _, next⟩ := record_eq s w c
    refine .still _ _ i i ?_ main (main'.trans main) (fun d at_ => next d ?_) left queue
    · intro v d same
      cases same
      rw [here]
      exact nofun
    · rintro rfl
      rw [inv.place_of_hand (p := .tested w) (by rw [here]; rfl)] at at_
      rcases at_ with at_ | at_ <;> cases at_
  | wait i here more token =>
    exact .still _ _ i (i + 1) (fun _ _ same => by cases same) here rfl (fun _ _ => rfl) rfl rfl
  | joined i here all =>
    have onwards : (if s.breakout then Main.collect else Main.rearrange) = (.rearrange : Main Case) := by
      rw [show s.breakout = false from calm]
      rfl
    rw [onwards]
    exact .joined i here
  | rearrange p here first => exact .turn p here first
  | rearranged here empty | testEnd here | singleTest c o here | collected here empty => cases early
  | collect p here first =>
    rw [show s.main = .collect from here] at early
    cases early
  | singleRecord c here =>
    rcases s.singleRecord_eq c with ⟨_, same⟩ | same <;> rw [same] at early <;> cases early

omit [Fintype Worker] [Fintype Case] in
/-- The runner does not come back from `SingleThreadTest`. -/
theorem Effect.early_before (effect : Effect lines s action s') (early : s'.main.early = true) :
    s.main.early = true := by
  cases effect with
  | wait i here _ _ | joined i here _ | rearrange p here _ | rearranged here _ =>
    rw [here]
    rfl
  | record w c here => exact (record_eq s w c).1 ▸ early
  | singleRecord c here =>
    rcases s.singleRecord_eq c with ⟨_, same⟩ | same <;> rw [same] at early <;> cases early
  | testEnd here | singleTest c o here | collected here _ => cases early
  | _ => exact early

omit [Fintype Worker] [Fintype Case] in
theorem Effect.uncut (effect : Effect lines s action s') (early : s'.main.early = true)
    (uncut : s.cut = false) : s'.cut = false := by
  cases effect with
  | record w c here => exact (record_eq s w c).2.2.2.1.trans uncut
  | singleRecord c here =>
    rcases s.singleRecord_eq c with ⟨_, same⟩ | same <;> rw [same] at early <;> cases early
  | _ => exact uncut

/-- The queue is what is left of the list. -/
def Fifo (cases : List Case) (s : State Worker Case) : Prop :=
  ∀ i, s.main = .join i → ∃ taken queue, cases = taken ++ queue ∧ Chain s.next s.ptestCase queue

theorem Early.fifo (early : Early s action s') (inv : Invariant cases s) (fifo : Fifo cases s) :
    Fifo cases s' := by
  cases early with
  | still _ _ i j idle before after next left queue =>
    intro _ _
    obtain ⟨taken, rest, split, chain⟩ := fifo i before
    refine ⟨taken, rest, split, queue ▸ chain.congr fun d member => next d (.inl ?_)⟩
    exact ((inv.at_main before).1.queue.mem_iff chain).mp member
  | fetch w c i idle main first =>
    intro _ _
    obtain ⟨taken, rest, split, chain⟩ := fifo i main
    rw [first] at chain
    cases rest with
    | nil => cases chain
    | cons d rest =>
      obtain ⟨same, onwards⟩ := chain
      cases same
      exact ⟨taken ++ [c], rest, by simp [split], onwards⟩
  | push w c i main here =>
    intro _ _
    obtain ⟨taken, rest, split, chain⟩ := fifo i main
    refine ⟨taken, rest, split, chain.frame fun member => ?_⟩
    have queued := ((inv.at_main main).1.queue.mem_iff chain).mp member
    rw [inv.place_of_hand (p := .held w) (by rw [here]; rfl)] at queued
    cases queued
  | joined i main => exact fun _ later => by cases later
  | turn p main first => exact fun _ later => by cases main.symm.trans later

/-- What has been put aside after one more step. -/
theorem Early.aside (early : Early s action s') (inv : Invariant cases s) (aside : s.Aside nodes) :
    Idle s action ∧ s'.Aside nodes ∨
      ∃ w c, action = .worker w ∧ s.worker w = .pushLeft c ∧ s'.Aside (nodes ++ [c]) := by
  cases early with
  | still _ _ i j idle before after next left queue =>
    have chain := aside.chain before
    refine .inl ⟨idle, aside_of_chain after (left ▸ chain.congr fun d member => next d (.inr ?_))⟩
    exact ((inv.at_main before).1.left.mem_iff chain).mp member
  | fetch w c i idle main first => exact .inl ⟨idle, aside_of_chain main (aside.chain main)⟩
  | push w c i main here =>
    refine .inr ⟨w, c, rfl, here, aside_of_chain main ?_⟩
    have chain := aside.chain main
    rw [List.reverse_append]
    refine chain.push fun member => ?_
    have left := ((inv.at_main main).1.left.mem_iff chain).mp member
    rw [inv.place_of_hand (p := .held w) (by rw [here]; rfl)] at left
    cases left
  | joined i main =>
    exact .inl ⟨nofun, nodes.reverse, [], by simp, aside.chain main, rfl⟩
  | turn p main first =>
    refine .inl ⟨nofun, ?_⟩
    obtain ⟨left, ready, rfl, chain, rest⟩ := aside
    rw [main] at rest
    rw [first] at chain
    cases left with
    | nil => cases chain
    | cons top below =>
      obtain ⟨same, onwards⟩ := chain
      cases same
      have whole : Chain s.next (some p) (p :: below) := ⟨rfl, onwards⟩
      have fresh : p ∉ below := (List.nodup_cons.mp whole.nodup).1
      obtain ⟨_, cases_, left, _⟩ := (inv.at_main main).1
      have unready : p ∉ ready := fun member => by
        have at_ := (cases_.mem_iff rest).mp member
        rw [show s.place p = .left from left.first first] at at_
        cases at_
      refine ⟨below, p :: ready, by simp, onwards.frame fresh, ?_⟩
      simp only [State.put, main]
      exact rest.push unready

/-- What holds before `SingleThreadTest`. -/
structure Lined (cases : List Case) (standalone : Case → Bool) (s : State Worker Case) : Prop where
  inv : Invariant cases s
  sorted : Sorted standalone s
  fifo : Fifo cases s
  aside : ∃ nodes, s.Aside nodes

/-- The standalone cases put aside so far are the first ones of the list. -/
def Straight (cases : List Case) (standalone : Case → Bool) (s : State Worker Case) : Prop :=
  ∃ nodes, s.Aside nodes ∧ nodes <+: cases.filter standalone

omit [DecidableEq Worker] [DecidableEq Case] [Fintype Worker] [Fintype Case] in
theorem straight_iff (aside : s.Aside nodes) :
    Straight cases standalone s ↔ nodes <+: cases.filter standalone := by
  refine ⟨?_, fun initial => ⟨nodes, aside, initial⟩⟩
  rintro ⟨others, also, initial⟩
  rwa [aside.unique also]

omit [DecidableEq Worker] in
/-- Cases are taken off the queue in the order of the list. -/
theorem Lined.fetched (lined : Lined cases standalone s) (nodup : cases.Nodup)
    (main : s.main = .join i) (pair : [d, c].Sublist cases) (taken : s.place c ≠ .queued) :
    s.place d ≠ .queued := by
  obtain ⟨before, queue, split, chain⟩ := lined.fifo i main
  have queued (x : Case) : x ∈ queue ↔ s.place x = .queued :=
    (lined.inv.at_main main).1.queue.mem_iff chain
  intro at_
  have waiting : d ∈ queue := (queued d).mpr at_
  subst split
  obtain ⟨left, right, same, inBefore, inQueue⟩ := List.sublist_append_iff.mp pair
  cases left with
  | nil =>
    subst same
    exact taken ((queued c).mp (inQueue.subset (by simp)))
  | cons x left =>
    obtain rfl := (List.cons.inj same).1
    exact (List.nodup_append.mp nodup).2.2 d (inBefore.subset List.mem_cons_self) d waiting rfl

omit [DecidableEq Worker] in
private theorem Lined.in_hand (lined : Lined cases standalone s) (main : s.main = .join i)
    (member : d ∈ cases) (alone : standalone d = true) (taken : s.place d ≠ .queued)
    (kept : s.place d ≠ .left) : ∃ v, (s.worker v).hand v = some (d, .held v) := by
  obtain ⟨joining, allowed⟩ := lined.inv.at_main main
  have allowed := allowed d
  have side := lined.sorted.place d
  rw [alone] at side
  cases at_ : s.place d with
  | held v => exact ⟨v, joining.hands.held v d at_⟩
  | queued => exact absurd at_ taken
  | left => exact absurd at_ kept
  | absent => exact absurd member ((lined.inv.common.member d).mp at_)
  | tested v | passed | failed =>
    rw [at_] at side
    cases side false rfl
  | ready | testing | single | collected =>
    rw [at_] at allowed
    cases allowed

omit [DecidableEq Worker] in
/-- Putting a case aside keeps the order exactly if no worker has an earlier one in
hand. -/
theorem Lined.push_iff (lined : Lined cases standalone s) (nodup : cases.Nodup)
    (main : s.main = .join i) (here : s.worker w = .pushLeft c) (aside : s.Aside nodes)
    (initial : nodes <+: cases.filter standalone) :
    nodes ++ [c] <+: cases.filter standalone ↔ InOrder cases standalone s (.worker w) := by
  have held : s.place c = .held w := lined.inv.place_of_hand (by rw [here]; rfl)
  have alone : standalone c = true := lined.sorted.worker w c true (by rw [here]; rfl)
  have mine : c ∈ cases := by
    by_contra outside
    cases ((lined.inv.common.member c).mpr outside).symm.trans held
  have left (x : Case) : x ∈ nodes ↔ s.place x = .left := by
    rw [← List.mem_reverse]
    exact (lined.inv.at_main main).1.left.mem_iff (aside.chain main)
  rw [concat_prefix_iff initial (nodup.filter _) (List.mem_filter.mpr ⟨mine, alone⟩)
    (by rw [left, held]; exact nofun)]
  constructor
  · intro before x at_ v d has standing pair
    cases here.symm.trans at_
    have pair' : [d, c].Sublist (cases.filter standalone) := by
      simpa [standing, alone] using pair.filter standalone
    have kept := (left d).mp (before d pair')
    rw [lined.inv.place_of_hand has] at kept
    cases kept
  · intro order d pair
    have within := List.mem_filter.mp (pair.subset List.mem_cons_self)
    have pair' : [d, c].Sublist cases := pair.trans List.filter_sublist
    by_contra further
    rw [left] at further
    have taken := lined.fetched nodup main pair' (by rw [held]; exact nofun)
    obtain ⟨v, has⟩ := lined.in_hand main within.1 within.2 taken further
    exact order c here v d has within.2 pair'

/-! Whole runs. -/

section Order

variable [Nonempty Worker] {actions : List (Action Worker)} {last : State Worker Case}

/-- Nobody has broken off the run, and the runner is not in `SingleThreadTest`. -/
def State.Parallel (s : State Worker Case) : Prop := s.Whole ∧ s.main.early = true

def Usual (lines : ℕ) (s : State Worker Case) (action : Action Worker) : Prop :=
  ∀ s', step lines s action = some s' → s'.Parallel

omit [Nonempty Worker] [Fintype Worker] [Fintype Case] in
theorem Effect.parallel (effect : Effect lines s action s') (parallel : s'.Parallel) : s.Parallel :=
  ⟨effect.whole parallel.1, effect.early_before parallel.2⟩

theorem Lined.stays (lined : Lined cases standalone s) (usual : Usual (Fintype.card Worker) s action)
    (taken : step (Fintype.card Worker) s action = some s') : Lined cases standalone s' := by
  obtain ⟨whole, early⟩ := usual s' taken
  have effect := step_effect taken
  have moves := effect.early lined.inv whole.1 early
  obtain ⟨nodes, aside⟩ := lined.aside
  refine ⟨effect.invariant lined.inv whole, effect.sorted lined.inv lined.sorted,
    moves.fifo lined.inv lined.fifo, ?_⟩
  rcases moves.aside lined.inv aside with ⟨_, kept⟩ | ⟨w, c, _, _, pushed⟩
  · exact ⟨nodes, kept⟩
  · exact ⟨nodes ++ [c], pushed⟩

omit [DecidableEq Worker] [DecidableEq Case] [Nonempty Worker] [Fintype Worker] [Fintype Case] in
theorem Idle.inOrder (idle : Idle s action) : InOrder cases standalone s action := by
  cases action with
  | worker w => exact fun c here => absurd here (idle w c rfl)
  | workerTests w o | main | mainTests o => trivial

omit [Nonempty Worker] in
/-- One step keeps the order exactly if it is in order. -/
theorem straight_step_iff (lined : Lined cases standalone s) (nodup : cases.Nodup)
    (usual : Usual (Fintype.card Worker) s action)
    (taken : step (Fintype.card Worker) s action = some s') :
    Straight cases standalone s' ↔
      Straight cases standalone s ∧ InOrder cases standalone s action := by
  obtain ⟨whole, early⟩ := usual s' taken
  obtain ⟨nodes, aside⟩ := lined.aside
  have moves := (step_effect taken).early lined.inv whole.1 early
  rw [straight_iff aside]
  rcases moves.aside lined.inv aside with ⟨idle, kept⟩ | ⟨w, c, rfl, here, pushed⟩
  · rw [straight_iff kept]
    exact ⟨fun initial => ⟨initial, idle.inOrder⟩, And.left⟩
  · obtain ⟨i, main, _⟩ := lined.inv.joining (w := w) (by rw [here]; exact nofun)
    rw [straight_iff pushed]
    constructor
    · intro more
      have initial := (List.prefix_append nodes [c]).trans more
      exact ⟨initial, (lined.push_iff nodup main here aside initial).mp more⟩
    · rintro ⟨initial, order⟩
      exact (lined.push_iff nodup main here aside initial).mpr order

omit [DecidableEq Worker] [Nonempty Worker] in
theorem init_lined (chain : Chain next head cases) :
    Lined cases standalone (init cases standalone next head : State Worker Case) :=
  ⟨init_invariant chain, init_sorted, fun _ _ => ⟨[], cases, rfl, chain⟩, [], aside_of_chain rfl rfl⟩

omit [DecidableEq Worker] [Nonempty Worker] in
/-- When `ptest_left` is empty, what was put aside is the list that is handed over. -/
theorem Lined.handed_iff (lined : Lined cases standalone s) (nodup : cases.Nodup)
    (main : s.main = .rearrange) (empty : s.ptestLeft = none) :
    Straight cases standalone s ↔ Chain s.next s.ptestCase (cases.filter standalone) := by
  obtain ⟨nodes, aside⟩ := lined.aside
  rw [straight_iff aside]
  obtain ⟨left, ready, rfl, chain, rest⟩ := aside
  obtain ⟨⟨_, listed, kept, _⟩, allowed⟩ := lined.inv.at_main main
  rw [empty] at chain kept
  rw [main] at rest
  rw [chain.unique (show Chain s.next none [] from rfl)]
  refine ⟨fun initial => ?_, fun all => ?_⟩
  · rw [← eq_of_prefix initial (nodup.filter _) fun x member => ?_]
    · exact rest
    · obtain ⟨member, alone⟩ := List.mem_filter.mp member
      refine (listed.mem_iff rest).mpr ?_
      have allowed := allowed x
      have side := lined.sorted.place x
      rw [alone] at side
      cases at_ : s.place x with
      | ready => rfl
      | left => exact absurd at_ (kept.none_iff x)
      | absent => exact absurd member ((lined.inv.common.member x).mp at_)
      | passed | failed =>
        rw [at_] at side
        cases side false rfl
      | queued | held v | tested v | testing | single | collected =>
        rw [at_] at allowed
        cases allowed
  · rw [Chain.unique rest all]
    exact List.prefix_refl _

/-- In a run without a break, the list that is handed to `SingleThreadTest` has the
standalone cases in the order of the whole list exactly if no worker puts a case aside
while an earlier one is in a hand. -/
theorem standalone_order_iff (chain : Chain next head cases)
    (ran : exec (step (Fintype.card Worker)) (init cases standalone next head) actions = some last)
    (calm : last.breakout = false) (main : last.main = .rearrange) (empty : last.ptestLeft = none) :
    Chain last.next last.ptestCase (cases.filter standalone) ↔
      Meets (step (Fintype.card Worker)) (InOrder cases standalone)
        (init cases standalone next head) actions := by
  have early : last.main.early = true := by
    rw [main]
    rfl
  have uncut : last.main.early = true → last.cut = false := by
    apply exec_invariant (fun s => s.main.early = true → s.cut = false) ?_ (fun _ => rfl) ran
    intro s action s' before taken early
    have effect := step_effect taken
    exact effect.uncut early (before (effect.early_before early))
  have parallel : last.Parallel := ⟨⟨calm, uncut early⟩, early⟩
  have usually := (Meets.of_final (fun _ _ _ taken => (step_effect taken).parallel) ran parallel).2
  have lined : Lined cases standalone last :=
    exec_invariant_of_meets (Lined cases standalone)
      (fun s action s' lined usual taken => lined.stays usual taken) (init_lined chain) usually ran
  have start : Straight cases standalone (init cases standalone next head : State Worker Case) :=
    ⟨[], aside_of_chain rfl rfl, List.nil_prefix⟩
  rw [← lined.handed_iff chain.nodup main empty]
  refine (final_iff_meets (Lined cases standalone)
    (fun s action s' lined usual taken => lined.stays usual taken)
    (fun s action s' lined usual taken => straight_step_iff lined chain.nodup usual taken)
    (init_lined chain) usually ran).trans (and_iff_right start)

end Order

def pairInit : State (Fin 2) (Fin 2) :=
  init [0, 1] (fun _ => true) (fun c => if c = 0 then some 1 else none) (some 0)

def pairEnd : List (Action (Fin 2)) :=
  [.worker 0, .worker 0, .worker 0, .worker 1, .worker 1, .worker 1, .main, .main, .main, .main, .main]

/-- Each worker takes a case; that of worker 1, the second, is put aside first. -/
def swapRun : List (Action (Fin 2)) :=
  [.worker 0, .worker 1, .worker 0, .worker 1, .worker 1, .worker 0] ++ pairEnd

/-- The same, but worker 0 puts the first case aside before worker 1 the second. -/
def pairRun : List (Action (Fin 2)) :=
  [.worker 0, .worker 1, .worker 0, .worker 1, .worker 0, .worker 1] ++ pairEnd

/-- `SingleThreadTest` gets the second case first. -/
theorem swapRun_order : ∃ last, exec (step 2) pairInit swapRun = some last ∧
    last.breakout = false ∧ last.main = .rearrange ∧ last.ptestLeft = none ∧
      ¬ Chain last.next last.ptestCase ([0, 1].filter fun _ => true) := by
  have ends : (exec (step 2) pairInit swapRun).map
      (fun s => (s.main, s.breakout, s.ptestLeft, s.ptestCase)) =
        some (.rearrange, false, none, some 1) := by decide
  obtain ⟨last, ran, same⟩ := Option.map_eq_some_iff.mp ends
  simp only [Prod.mk.injEq] at same
  obtain ⟨main, calm, empty, first⟩ := same
  refine ⟨last, ran, calm, main, empty, fun chain => ?_⟩
  cases first.symm.trans chain.1

theorem standalone_order_pair :
    Meets (step 2) (InOrder [0, 1] fun _ => true) pairInit pairRun := by
  have ends : (exec (step 2) pairInit pairRun).map
      (fun s => (s.main, s.breakout, s.ptestLeft, [s.ptestCase, s.next 0, s.next 1])) =
        some (.rearrange, false, none, [some 0, some 1, none]) := by decide
  obtain ⟨last, ran, same⟩ := Option.map_eq_some_iff.mp ends
  simp only [Prod.mk.injEq, List.cons.injEq, and_true] at same
  obtain ⟨main, calm, empty, first, second, third⟩ := same
  have chain : Chain (fun c : Fin 2 => if c = 0 then some 1 else none) (some 0) [0, 1] := by
    simp [Chain]
  exact (standalone_order_iff chain ran calm main empty).mp ⟨first, second, third⟩

end Prot.Test.Runner
