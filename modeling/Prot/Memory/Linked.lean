import Mathlib.Data.List.Perm.Subperm
import Prot.Memory.Heap
import Prot.Memory.Chain

/-! Singly linked lists of nodes on the heap: the loops over them, and what a list
holds. A loop gives `none` on a dangling link, or when its fuel ends before its
list. -/

namespace Prot.Memory

universe u
variable {α : Type u}

structure Node (α : Type u) where
  next : Option ℕ
  item : α
  deriving DecidableEq, Repr

namespace Heap

/-- `while (p) { t = p->Next; free(p); p = t; }` -/
def freeFrom : ℕ → Heap (Node α) → Option ℕ → Option (Heap (Node α))
  | _, heap, none => some heap
  | 0, _, some _ => none
  | fuel + 1, heap, some p =>
    match heap.object p with
    | none => none
    | some node => freeFrom fuel (heap.remove p) node.next

/-- Where a walk over a list ends. -/
inductive Sought where
  | found (p : ℕ)
  | last (p : ℕ)
  deriving DecidableEq, Repr

/-- `do { if (found(p)) return; if (!p->Next) break; p = p->Next; } while (1);` -/
def seek (found : α → Bool) : ℕ → Heap (Node α) → ℕ → Option Sought
  | 0, _, _ => none
  | fuel + 1, heap, p =>
    match heap.object p with
    | none => none
    | some ⟨none, item⟩ => some (if found item then .found p else .last p)
    | some ⟨some next, item⟩ => if found item then some (.found p) else seek found fuel heap next

/-- The nodes that `while (p) { visit(p); p = p->Next; }` visits, in order. -/
def walk (heap : Heap (Node α)) : ℕ → Option ℕ → Option (List ℕ)
  | _, none => some []
  | 0, some _ => none
  | fuel + 1, some p => (heap.object p).bind fun node => (heap.walk fuel node.next).map (p :: ·)

def link (heap : Heap (Node α)) (p : ℕ) : Option ℕ := (heap.object p).bind Node.next

/-- Deleted objects are gone, and pointers that are not handed out are not in
use. -/
structure Sound (heap : Heap α) : Prop where
  bound : ∀ p, heap.object p ≠ none → p < heap.next
  gone : ∀ p, heap.deletions p ≠ 0 → heap.object p = none ∧ p < heap.next

end Heap

/-- The list from `head` holds these items, each at its pointer. -/
def Linked (heap : Heap (Node α)) : Option ℕ → List (ℕ × α) → Prop
  | head, [] => head = none
  | head, (p, item) :: rest =>
    head = some p ∧ ∃ next, heap.object p = some ⟨next, item⟩ ∧ Linked heap next rest

def pointers (entries : List (ℕ × α)) : List ℕ := entries.map Prod.fst

variable {heap after : Heap (Node α)} {head : Option ℕ} {entries rest : List (ℕ × α)} {p q : ℕ}
variable {item other : α} {entry : ℕ × α}

@[simp] theorem pointers_nil : pointers ([] : List (ℕ × α)) = [] := rfl

@[simp] theorem pointers_cons : pointers (entry :: entries) = entry.1 :: pointers entries := rfl

@[simp] theorem pointers_append :
    pointers (entries ++ rest) = pointers entries ++ pointers rest := List.map_append

namespace Heap.Sound

theorem empty : (Heap.empty : Heap α).Sound :=
  ⟨fun _ live => absurd rfl live, fun _ gone => absurd rfl gone⟩

theorem fresh {heap : Heap α} (sound : heap.Sound) : heap.object heap.next = none := by
  by_contra live
  exact absurd (sound.bound _ live) (Nat.lt_irrefl _)

theorem kept {heap : Heap α} (sound : heap.Sound) (live : heap.object p ≠ none) :
    heap.deletions p = 0 := by
  by_contra deleted
  exact live (sound.gone p deleted).1

theorem new {heap : Heap α} (sound : heap.Sound) (x : α) : (heap.new x).Sound := by
  constructor
  · intro p live
    by_cases here : p = heap.next
    · exact here ▸ Nat.lt_succ_self _
    · rw [Heap.object_new_of_ne here] at live
      exact Nat.lt_succ_of_lt (sound.bound p live)
  · intro p deleted
    obtain ⟨gone, below⟩ := sound.gone p deleted
    rw [Heap.object_new_of_ne (by omega)]
    exact ⟨gone, Nat.lt_succ_of_lt below⟩

theorem set {heap : Heap α} (sound : heap.Sound) (live : heap.object q ≠ none) (x : α) :
    (heap.set q x).Sound := by
  constructor
  · intro p alive
    by_cases here : p = q
    · exact here ▸ sound.bound q live
    · rw [Heap.object_set_of_ne here] at alive
      exact sound.bound p alive
  · intro p deleted
    obtain ⟨gone, below⟩ := sound.gone p deleted
    rw [Heap.object_set_of_ne (by rintro rfl; exact live gone)]
    exact ⟨gone, below⟩

theorem remove {heap : Heap α} (sound : heap.Sound) (live : heap.object q ≠ none) :
    (heap.remove q).Sound := by
  constructor
  · intro p alive
    by_cases here : p = q
    · exact here ▸ sound.bound q live
    · rw [Heap.object_remove_of_ne here] at alive
      exact sound.bound p alive
  · intro p deleted
    by_cases here : p = q
    · exact ⟨here ▸ Heap.object_remove_self, here ▸ sound.bound q live⟩
    · rw [Heap.object_remove_of_ne here]
      exact sound.gone p (by simpa [Heap.remove, here] using deleted)

end Heap.Sound

namespace Linked

theorem eq_nil (linked : Linked heap none entries) : entries = [] := by
  cases entries with
  | nil => rfl
  | cons entry rest => cases linked.1

theorem chain (linked : Linked heap head entries) : Chain heap.link head (pointers entries) := by
  induction entries generalizing head with
  | nil => exact linked
  | cons entry rest ih =>
    obtain ⟨rfl, next, here, onwards⟩ := linked
    refine ⟨rfl, ?_⟩
    rw [Heap.link, here]
    exact ih onwards

theorem nodup (linked : Linked heap head entries) : (pointers entries).Nodup := linked.chain.nodup

theorem live (linked : Linked heap head entries) (member : p ∈ pointers entries) :
    heap.object p ≠ none := by
  induction entries generalizing head with
  | nil => cases member
  | cons entry rest ih =>
    obtain ⟨rfl, next, here, onwards⟩ := linked
    rcases List.mem_cons.mp member with rfl | later
    · rw [here]
      exact nofun
    · exact ih onwards later

/-- A list is there as long as its own nodes are left alone. -/
theorem frame (linked : Linked heap head entries)
    (same : ∀ p ∈ pointers entries, after.object p = heap.object p) :
    Linked after head entries := by
  induction entries generalizing head with
  | nil => exact linked
  | cons entry rest ih =>
    obtain ⟨rfl, next, here, onwards⟩ := linked
    refine ⟨rfl, next, ?_, ih onwards fun p member => same p (List.mem_cons_of_mem _ member)⟩
    rw [same _ List.mem_cons_self, here]

theorem new (linked : Linked heap head entries) (sound : heap.Sound) (node : Node α) :
    Linked (heap.new node) head entries :=
  linked.frame fun _ member =>
    Heap.object_new_of_ne (Nat.ne_of_lt (sound.bound _ (linked.live member)))

theorem singleton (here : heap.object p = some ⟨none, item⟩) : Linked heap (some p) [(p, item)] :=
  ⟨rfl, none, here, rfl⟩

theorem last (linked : Linked heap head (entries ++ [(p, item)])) :
    heap.object p = some ⟨none, item⟩ := by
  induction entries generalizing head with
  | nil =>
    obtain ⟨_, next, here, ended⟩ := linked
    rw [here, show next = none from ended]
  | cons entry rest ih =>
    obtain ⟨_, next, _, onwards⟩ := linked
    exact ih onwards

/-- A single node is put behind the last one. -/
theorem concat (linked : Linked heap head (entries ++ [(p, item)]))
    (node : heap.object q = some ⟨none, other⟩) (outside : q ∉ pointers (entries ++ [(p, item)])) :
    Linked (heap.set p ⟨some q, item⟩) head (entries ++ [(p, item), (q, other)]) := by
  have nodup := linked.nodup
  induction entries generalizing head with
  | nil =>
    obtain ⟨rfl, _⟩ := linked
    have apart : q ≠ p := by simpa using outside
    refine ⟨rfl, some q, Heap.object_set_self, singleton ?_⟩
    rw [Heap.object_set_of_ne apart, node]
  | cons entry rest ih =>
    obtain ⟨rfl, next, here, onwards⟩ := linked
    simp only [List.cons_append, pointers_cons, List.mem_cons, not_or, List.nodup_cons] at outside nodup
    have apart : entry.1 ≠ p := by
      rintro rfl
      exact nodup.1 (by simp)
    refine ⟨rfl, next, ?_, ih onwards outside.2 nodup.2⟩
    rw [Heap.object_set_of_ne apart, here]

/-- A list has no more nodes than have been allocated. -/
theorem length_le (linked : Linked heap head entries) (sound : heap.Sound) :
    entries.length ≤ heap.next := by
  have within : pointers entries ⊆ List.range heap.next := fun p member =>
    List.mem_range.mpr (sound.bound p (linked.live member))
  simpa [pointers] using (List.subperm_of_subset linked.nodup within).length_le

end Linked

namespace Heap

/-- What the loop that frees a list leaves of the heap. -/
structure Freed (heap after : Heap (Node α)) (pointers : List ℕ) : Prop where
  next : after.next = heap.next
  elsewhere : ∀ p, p ∉ pointers → after.object p = heap.object p
  sound : after.Sound

/-- The loop frees every node of its list and nothing else. -/
theorem freeFrom_linked {fuel : ℕ} (linked : Linked heap head entries) (sound : heap.Sound)
    (enough : entries.length ≤ fuel) :
    ∃ after, freeFrom fuel heap head = some after ∧ Freed heap after (pointers entries) := by
  have nodup := linked.nodup
  induction entries generalizing fuel heap head with
  | nil =>
    refine ⟨heap, ?_, rfl, fun _ _ => rfl, sound⟩
    rw [show head = none from linked]
    cases fuel <;> rfl
  | cons entry rest ih =>
    obtain ⟨p, item⟩ := entry
    obtain ⟨rfl, next, here, onwards⟩ := linked
    obtain ⟨away, nodup⟩ := List.nodup_cons.mp nodup
    cases fuel with
    | zero => exact absurd enough (by simp)
    | succ fuel =>
      have live : heap.object p ≠ none := by simp [here]
      obtain ⟨after, freed, same, elsewhere, clean⟩ :=
        ih (onwards.frame fun q member => object_remove_of_ne (by rintro rfl; exact away member))
          (sound.remove live) (by simpa using enough) nodup
      refine ⟨after, by rw [freeFrom, here]; exact freed, same, fun q outside => ?_, clean⟩
      simp only [pointers_cons, List.mem_cons, not_or] at outside
      rw [elsewhere q outside.2, object_remove_of_ne outside.1]

/-- The loop visits every node of its list, in its order. -/
theorem walk_linked {fuel : ℕ} (linked : Linked heap head entries)
    (enough : entries.length ≤ fuel) : heap.walk fuel head = some (pointers entries) := by
  induction entries generalizing fuel head with
  | nil =>
    rw [show head = none from linked]
    cases fuel <;> rfl
  | cons entry rest ih =>
    obtain ⟨rfl, next, here, onwards⟩ := linked
    cases fuel with
    | zero => exact absurd enough (by simp)
    | succ fuel =>
      rw [walk, here, Option.bind_some, ih onwards (by simpa using enough)]
      rfl

/-- A walk over a list that holds no item it looks for ends at the last node. -/
theorem seek_last {found : α → Bool} {fuel : ℕ}
    (linked : Linked heap (some q) (entries ++ [(p, item)]))
    (absent : ∀ entry ∈ entries ++ [(p, item)], found entry.2 = false)
    (enough : entries.length < fuel) : seek found fuel heap q = some (.last p) := by
  induction entries generalizing fuel q with
  | nil =>
    cases fuel with
    | zero => exact absurd enough (by simp)
    | succ fuel =>
      have here := linked.last
      obtain ⟨same, _⟩ := linked
      cases same
      have passed : found item = false := absent (p, item) (by simp)
      simp [seek, here, passed]
  | cons entry rest ih =>
    cases fuel with
    | zero => exact absurd enough (by simp)
    | succ fuel =>
      obtain ⟨same, next, here, onwards⟩ := linked
      cases same
      have passed : found entry.2 = false := absent entry (by simp)
      cases next with
      | none => exact absurd onwards.eq_nil (by simp)
      | some next =>
        rw [seek, here]
        simp only [passed, Bool.false_eq_true, if_false]
        exact ih onwards (fun entry member => absent entry (List.mem_cons_of_mem _ member))
          (by simpa using enough)

/-- A walk over a list that holds such an item finds one. -/
theorem seek_found {found : α → Bool} {fuel : ℕ} (linked : Linked heap (some q) entries)
    (present : ∃ entry ∈ entries, found entry.2 = true) (enough : entries.length ≤ fuel) :
    ∃ p, seek found fuel heap q = some (.found p) := by
  induction entries generalizing fuel q with
  | nil => cases linked
  | cons entry rest ih =>
    cases fuel with
    | zero => exact absurd enough (by simp)
    | succ fuel =>
      obtain ⟨same, next, here, onwards⟩ := linked
      cases same
      cases met : found entry.2 with
      | true => exact ⟨entry.1, by cases next <;> simp [seek, here, met]⟩
      | false =>
        have later : ∃ entry ∈ rest, found entry.2 = true := by simpa [met] using present
        cases next with
        | none =>
          rw [onwards.eq_nil] at later
          exact absurd later (by simp)
        | some next =>
          obtain ⟨p, sought⟩ := ih onwards later (by simpa using enough)
          exact ⟨p, by simpa [seek, here, met] using sought⟩

end Heap

end Prot.Memory
