import Mathlib.Data.Nat.Notation
import Mathlib.Data.List.Nodup
import Mathlib.Logic.Function.Basic

/-! Lists threaded through a `next` field of their nodes, and the sets of nodes
they hold. -/

namespace Prot.Memory

universe u v
variable {Node : Type u} {Place : Type v}

/-- The nodes met from `head` on, in order, up to a null pointer. -/
def Chain (next : Node → Option Node) : Option Node → List Node → Prop
  | head, [] => head = none
  | head, node :: rest => head = some node ∧ Chain next (next node) rest

/-- The chain from `head` ends, and holds exactly the nodes with a property. -/
def Listed (next : Node → Option Node) (head : Option Node) (property : Node → Prop) : Prop :=
  ∃ nodes, Chain next head nodes ∧ ∀ node, node ∈ nodes ↔ property node

variable {next : Node → Option Node} {head : Option Node} {node : Node} {nodes other : List Node}
variable {property different : Node → Prop}

theorem Chain.unique (chain : Chain next head nodes) (also : Chain next head other) :
    nodes = other := by
  induction nodes generalizing head other with
  | nil =>
    cases chain
    cases other with
    | nil => rfl
    | cons first rest => cases also.1
  | cons first rest ih =>
    obtain ⟨rfl, onwards⟩ := chain
    cases other with
    | nil => cases also
    | cons second more =>
      obtain ⟨same, continued⟩ := also
      cases same
      rw [ih onwards continued]

/-- What follows a node of a chain is a chain. -/
theorem Chain.after (chain : Chain next head nodes) (member : node ∈ nodes) :
    ∃ before rest, nodes = before ++ node :: rest ∧ Chain next (next node) rest := by
  induction nodes generalizing head with
  | nil => cases member
  | cons first rest ih =>
    obtain ⟨rfl, onwards⟩ := chain
    rcases List.mem_cons.mp member with rfl | later
    · exact ⟨[], rest, rfl, onwards⟩
    · obtain ⟨before, more, rfl, continued⟩ := ih onwards later
      exact ⟨first :: before, more, rfl, continued⟩

/-- A chain that ends does not come back to a node. -/
theorem Chain.nodup (chain : Chain next head nodes) : nodes.Nodup := by
  induction nodes generalizing head with
  | nil => exact List.nodup_nil
  | cons first rest ih =>
    obtain ⟨rfl, onwards⟩ := chain
    refine List.nodup_cons.mpr ⟨fun member => ?_, ih onwards⟩
    obtain ⟨before, more, split, continued⟩ := onwards.after member
    have same := continued.unique onwards
    have length := congrArg List.length split
    rw [same, List.length_append, List.length_cons] at length
    omega

/-- A chain is there as long as its nodes keep their links. -/
theorem Chain.congr {after : Node → Option Node} (chain : Chain next head nodes)
    (same : ∀ node ∈ nodes, after node = next node) : Chain after head nodes := by
  induction nodes generalizing head with
  | nil => exact chain
  | cons first rest ih =>
    obtain ⟨rfl, onwards⟩ := chain
    refine ⟨rfl, ?_⟩
    rw [same first List.mem_cons_self]
    exact ih onwards fun node member => same node (List.mem_cons_of_mem _ member)

theorem Listed.mem_iff (listed : Listed next head property) (chain : Chain next head nodes) :
    node ∈ nodes ↔ property node := by
  obtain ⟨members, also, all⟩ := listed
  rw [chain.unique also]
  exact all node

theorem Listed.congr (listed : Listed next head property)
    (same : ∀ node, property node ↔ different node) : Listed next head different := by
  obtain ⟨nodes, chain, members⟩ := listed
  exact ⟨nodes, chain, fun node => (members node).trans (same node)⟩

theorem Listed.none_iff (listed : Listed next none property) (node : Node) : ¬ property node := by
  obtain ⟨nodes, chain, members⟩ := listed
  cases nodes with
  | nil => exact fun holds => by simpa using (members node).mpr holds
  | cons first rest => cases chain.1

theorem Listed.empty (none_ : ∀ node, ¬ property node) : Listed next none property :=
  ⟨[], rfl, fun node => ⟨nofun, fun holds => absurd holds (none_ node)⟩⟩

/-- Taking the first node off a chain. -/
theorem Listed.pop (listed : Listed next (some node) property) :
    property node ∧ Listed next (next node) fun other => property other ∧ other ≠ node := by
  obtain ⟨nodes, chain, members⟩ := listed
  have nodup := chain.nodup
  cases nodes with
  | nil => cases chain
  | cons first rest =>
    obtain ⟨same, onwards⟩ := chain
    cases same
    refine ⟨(members node).mp List.mem_cons_self, rest, onwards, fun other => ?_⟩
    have fresh := (List.nodup_cons.mp nodup).1
    have members := members other
    rw [List.mem_cons] at members
    change other ∈ rest ↔ property other ∧ other ≠ node
    rw [← members]
    constructor
    · intro member
      exact ⟨.inr member, fun equal => fresh (equal ▸ member)⟩
    · rintro ⟨equal | member, different⟩
      · exact absurd equal different
      · exact member

theorem Listed.first (listed : Listed next head property) (first : head = some node) :
    property node := by
  subst first
  exact listed.pop.1

variable [DecidableEq Node]

theorem Chain.frame {target : Option Node} (chain : Chain next head nodes) (outside : node ∉ nodes) :
    Chain (Function.update next node target) head nodes := by
  induction nodes generalizing head with
  | nil => exact chain
  | cons first rest ih =>
    obtain ⟨rfl, onwards⟩ := chain
    rw [List.mem_cons, not_or] at outside
    refine ⟨rfl, ?_⟩
    rw [Function.update_of_ne (Ne.symm outside.1)]
    exact ih onwards outside.2

theorem Chain.push (chain : Chain next head nodes) (outside : node ∉ nodes) :
    Chain (Function.update next node head) (some node) (node :: nodes) := by
  refine ⟨rfl, ?_⟩
  rw [Function.update_self]
  exact chain.frame outside

/-- Writing to the `next` of a node does not touch the chains it is not in. -/
theorem Listed.frame {target : Option Node} (listed : Listed next head property)
    (outside : ¬ property node) : Listed (Function.update next node target) head property := by
  obtain ⟨nodes, chain, members⟩ := listed
  exact ⟨nodes, chain.frame fun member => outside ((members node).mp member), members⟩

/-- Putting a node in front of a chain. -/
theorem Listed.push (listed : Listed next head property) (outside : ¬ property node) :
    Listed (Function.update next node head) (some node) fun other =>
      property other ∨ other = node := by
  obtain ⟨nodes, chain, members⟩ := listed
  have fresh : node ∉ nodes := fun member => outside ((members node).mp member)
  refine ⟨node :: nodes, chain.push fresh, fun other => ?_⟩
  change other ∈ node :: nodes ↔ property other ∨ other = node
  rw [List.mem_cons, members other, or_comm]

/-! Where every node is at one place, and a list holds those at some place. -/

variable {place : Node → Place} {p q : Place}

private theorem update_eq_iff (before : place node ≠ p) (after : q ≠ p) (other : Node) :
    place other = p ↔ Function.update place node q other = p := by
  by_cases same : other = node
  · subst same
    simp [before, after]
  · rw [Function.update_of_ne same]

/-- The list a moving node is not on. -/
theorem Listed.moved (listed : Listed next head fun other => place other = p)
    (before : place node ≠ p) (after : q ≠ p) :
    Listed next head fun other => Function.update place node q other = p :=
  listed.congr fun other => update_eq_iff before after other

/-- The list a moving node is not on, while its `next` is written. -/
theorem Listed.written {target : Option Node}
    (listed : Listed next head fun other => place other = p) (before : place node ≠ p)
    (after : q ≠ p) :
    Listed (Function.update next node target) head fun other =>
      Function.update place node q other = p :=
  (listed.frame before).congr fun other => update_eq_iff before after other

/-- The list a node leaves, as its first. -/
theorem Listed.popped (listed : Listed next (some node) fun other => place other = p)
    (after : q ≠ p) :
    place node = p ∧ Listed next (next node) fun other => Function.update place node q other = p := by
  obtain ⟨here, rest⟩ := listed.pop
  refine ⟨here, rest.congr fun other => ?_⟩
  by_cases same : other = node
  · subst same
    simp [after]
  · rw [Function.update_of_ne same]
    simp [same]

/-- The list a node is put on. -/
theorem Listed.pushed (listed : Listed next head fun other => place other = p)
    (before : place node ≠ p) :
    Listed (Function.update next node head) (some node) fun other =>
      Function.update place node p other = p := by
  refine (listed.push before).congr fun other => ?_
  by_cases same : other = node
  · subst same
    simp
  · rw [Function.update_of_ne same]
    simp [same]

/-! The same for a list that holds the nodes at all the places of a kind. -/

variable {kind : Place → Bool}

/-- The list a moving node stays on, or off. -/
theorem Listed.stays (listed : Listed next head fun other => kind (place other) = true)
    (same : kind q = kind (place node)) :
    Listed next head fun other => kind (Function.update place node q other) = true := by
  refine listed.congr fun other => ?_
  by_cases equal : other = node
  · subst equal
    rw [Function.update_self, same]
  · rw [Function.update_of_ne equal]

/-- The list a moving node stays off, while its `next` is written. -/
theorem Listed.rewritten {target : Option Node}
    (listed : Listed next head fun other => kind (place other) = true)
    (before : kind (place node) = false) (after : kind q = false) :
    Listed (Function.update next node target) head fun other =>
      kind (Function.update place node q other) = true :=
  (listed.frame (by simp [before])).stays (after.trans before.symm)

/-- The list a node leaves, as its first. -/
theorem Listed.leaves (listed : Listed next (some node) fun other => kind (place other) = true)
    (after : kind q = false) : kind (place node) = true ∧
      Listed next (next node) fun other => kind (Function.update place node q other) = true := by
  obtain ⟨here, rest⟩ := listed.pop
  refine ⟨here, rest.congr fun other => ?_⟩
  by_cases same : other = node
  · subst same
    simp [after]
  · rw [Function.update_of_ne same]
    simp [same]

/-- The list a node is put on. -/
theorem Listed.joins (listed : Listed next head fun other => kind (place other) = true)
    (before : kind (place node) = false) (after : kind q = true) :
    Listed (Function.update next node head) (some node) fun other =>
      kind (Function.update place node q other) = true := by
  refine (listed.push (by simp [before])).congr fun other => ?_
  by_cases same : other = node
  · subst same
    simp [after]
  · rw [Function.update_of_ne same]
    simp [same]

end Prot.Memory
