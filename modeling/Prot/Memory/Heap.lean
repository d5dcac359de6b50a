import Mathlib.Data.Nat.Notation
import Mathlib.Logic.Function.Basic

/-! A heap of objects behind pointers. An object that has been deleted stays
deleted, and every later access through its pointer is a fault. -/

namespace Prot.Memory

universe u
variable {α : Type u}

/-- What an access to memory can do wrong. -/
inductive Fault where
  | dangling
  | outOfBounds
  | null
  deriving DecidableEq, Repr

theorem ok_bind {β : Type u} {γ : Type u} (x : β) (f : β → Except Fault γ) :
    (Except.ok x >>= f) = f x := rfl

theorem error_bind {β : Type u} {γ : Type u} (fault : Fault) (f : β → Except Fault γ) :
    (Except.error fault >>= f) = .error fault := rfl

theorem pure_eq {β : Type u} (x : β) : (pure x : Except Fault β) = .ok x := rfl

/-- The pointers below `next` have been handed out, `object` are the live
objects, and `deletions` says how often a pointer has been deleted. -/
structure Heap (α : Type u) where
  next : ℕ
  object : ℕ → Option α
  deletions : ℕ → ℕ

namespace Heap

variable {heap : Heap α} {a c : ℕ} {x y : α}

def empty : Heap α := ⟨0, fun _ => none, fun _ => 0⟩

/-- Allocate an object; its pointer is the `next` of the heap before. -/
def new (heap : Heap α) (x : α) : Heap α :=
  { heap with next := heap.next + 1, object := Function.update heap.object heap.next (some x) }

/-- Change the object behind a pointer that is known to be alive. -/
def set (heap : Heap α) (a : ℕ) (x : α) : Heap α :=
  { heap with object := Function.update heap.object a (some x) }

def remove (heap : Heap α) (a : ℕ) : Heap α :=
  { heap with
    object := Function.update heap.object a none
    deletions := Function.update heap.deletions a (heap.deletions a + 1) }

def get (heap : Heap α) (a : ℕ) : Except Fault α :=
  match heap.object a with
  | some x => .ok x
  | none => .error .dangling

def put (heap : Heap α) (a : ℕ) (x : α) : Except Fault (Heap α) :=
  match heap.object a with
  | some _ => .ok (heap.set a x)
  | none => .error .dangling

def delete (heap : Heap α) (a : ℕ) : Except Fault (Heap α) :=
  match heap.object a with
  | some _ => .ok (heap.remove a)
  | none => .error .dangling

theorem get_eq (live : heap.object a = some x) : heap.get a = .ok x := by
  unfold get
  rw [live]

theorem get_dangling (gone : heap.object a = none) : heap.get a = .error .dangling := by
  unfold get
  rw [gone]

theorem put_eq (live : heap.object a = some x) : heap.put a y = .ok (heap.set a y) := by
  unfold put
  rw [live]

theorem delete_eq (live : heap.object a = some x) : heap.delete a = .ok (heap.remove a) := by
  unfold delete
  rw [live]

@[simp] theorem object_new_self : (heap.new x).object heap.next = some x := by
  simp [new]

theorem object_new_of_ne (other : c ≠ heap.next) : (heap.new x).object c = heap.object c := by
  simp [new, other]

@[simp] theorem next_new : (heap.new x).next = heap.next + 1 := rfl

@[simp] theorem deletions_new : (heap.new x).deletions = heap.deletions := rfl

@[simp] theorem object_set_self : (heap.set a x).object a = some x := by
  simp [set]

theorem object_set_of_ne (other : c ≠ a) : (heap.set a x).object c = heap.object c := by
  simp [set, other]

@[simp] theorem object_remove_self : (heap.remove a).object a = none := by
  simp [remove]

theorem object_remove_of_ne (other : c ≠ a) : (heap.remove a).object c = heap.object c := by
  simp [remove, other]

/-- What was written to an object is of no matter once it is deleted. -/
@[simp] theorem remove_set : (heap.set a x).remove a = heap.remove a := by
  simp [set, remove]

/-- Writing to a new object is the same as allocating it with that content. -/
@[simp] theorem set_new : (heap.new x).set heap.next y = heap.new y := by
  simp [set, new]

/-- An allocation and a write to an older object do not disturb each other. -/
theorem new_set_comm (older : a ≠ heap.next) :
    (heap.new x).set a y = (heap.set a y).new x := by
  simp only [set, new]
  rw [Function.update_comm older]

end Heap

end Prot.Memory
