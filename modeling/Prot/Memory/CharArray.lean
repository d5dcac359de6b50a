import Prot.Memory.Blocks
import Mathlib.Data.Int.Notation

/-! Strings in an array of characters: writes within its bounds, and the text up
to the first NUL. -/

namespace Prot.Memory

/-- Write characters from the index `start` on; the index may come out negative. -/
def put (chars : List UInt8) (start : ℤ) (text : List UInt8) : Except Fault (List UInt8) :=
  if 0 ≤ start ∧ start + text.length ≤ chars.length then .ok (written chars start.toNat text)
  else .error .outOfBounds

def readByte (bytes : List UInt8) (i : ℕ) : Except Fault UInt8 :=
  match bytes[i]? with
  | some c => .ok c
  | none => .error .outOfBounds

/-- Read the `n` bytes from `start` on. -/
def readBytes (bytes : List UInt8) (start n : ℕ) : Except Fault (List UInt8) :=
  if start + n ≤ bytes.length then .ok ((bytes.drop start).take n) else .error .outOfBounds

/-- The characters before the first NUL; without one the end is passed. -/
def cstr : List UInt8 → Except Fault (List UInt8)
  | [] => .error .outOfBounds
  | c :: rest => if c = 0 then .ok [] else do
    let text ← cstr rest
    return c :: text

/-- An array of `size` characters that begins with a text. -/
structure Filled (size : ℕ) (chars text : List UInt8) : Prop where
  length : chars.length = size
  front : text <+: chars

variable {size start : ℕ} {chars text more first middle last new : List UInt8}

theorem readByte_eq {bytes : List UInt8} {c : UInt8} {i : ℕ} (there : bytes[i]? = some c) :
    readByte bytes i = .ok c := by
  rw [readByte, there]

theorem readBytes_eq {bytes : List UInt8} {n : ℕ} (inside : start + n ≤ bytes.length) :
    readBytes bytes start n = .ok ((bytes.drop start).take n) := if_pos inside

/-- Characters in the middle are replaced by as many others. -/
theorem put_middle (same : new.length = middle.length) :
    put (first ++ middle ++ last) first.length new = .ok (first ++ new ++ last) := by
  have inside : (first.length : ℤ) + new.length ≤ (first ++ middle ++ last).length := by
    simp only [List.length_append, same]
    omega
  have ends : (first ++ middle).length = first.length + new.length := by
    rw [List.length_append, same]
  rw [put, if_pos ⟨Int.natCast_nonneg _, inside⟩, Int.toNat_natCast, written, List.drop_left' ends,
    List.append_assoc first middle, List.take_left]

/-- The same for an array that is cut into its parts first. -/
theorem put_at {index : ℤ} (middle : List UInt8) (parts : chars = first ++ middle ++ last)
    (here : index = first.length) (same : new.length = middle.length) :
    put chars index new = .ok (first ++ new ++ last) := by
  rw [parts, here]
  exact put_middle same

/-- A write keeps the size of the array. -/
theorem put_length {chars' : List UInt8} {index : ℤ} (wrote : put chars index new = .ok chars') :
    chars'.length = chars.length := by
  unfold put at wrote
  split at wrote
  · rename_i inside
    cases wrote
    exact length_written (by omega)
  · cases wrote

/-- What is longer than the array does not fit into it. -/
theorem put_fault {index : ℤ} (outside : index < 0 ∨ chars.length < index + new.length) :
    put chars index new = .error .outOfBounds := if_neg (by omega)

/-- A text is continued behind its end. -/
theorem Filled.put (filled : Filled size chars text) (more : List UInt8)
    (fits : text.length + more.length ≤ size) :
    ∃ chars', put chars text.length more = .ok chars' ∧ Filled size chars' (text ++ more) := by
  obtain ⟨length, rest, rfl⟩ := filled
  rw [List.length_append] at length
  have same : more.length = (rest.take more.length).length := by
    rw [List.length_take]
    omega
  have split : text ++ rest = text ++ rest.take more.length ++ rest.drop more.length := by
    rw [List.append_assoc, List.take_append_drop]
  refine ⟨text ++ more ++ rest.drop more.length, ?_, ?_, List.prefix_append _ _⟩
  · rw [split]
    exact put_middle same
  · simp only [List.length_append, List.length_drop]
    omega

/-- A text is begun at the front. -/
theorem Filled.begin (length : chars.length = size) (fits : text.length ≤ size) :
    ∃ chars', Memory.put chars 0 text = .ok chars' ∧ Filled size chars' text := by
  have blank : Filled size chars [] := ⟨length, List.nil_prefix⟩
  exact blank.put text (by rw [List.length_nil, Nat.zero_add]; exact fits)

/-- The end of a text may be forgotten. -/
theorem Filled.shorter (filled : Filled size chars (text ++ more)) : Filled size chars text :=
  ⟨filled.length, (List.prefix_append text more).trans filled.front⟩

theorem cstr_append (clean : 0 ∉ text) : cstr (text ++ 0 :: last) = .ok text := by
  induction text with
  | nil => rfl
  | cons c text ih =>
    have some_ : c ≠ 0 := fun zero => clean (zero ▸ List.mem_cons_self)
    rw [List.cons_append, cstr, if_neg some_, ih fun later => clean (List.mem_cons_of_mem _ later)]
    rfl

/-- A text that has been terminated is read. -/
theorem Filled.cstr (filled : Filled size chars (text ++ [0])) (clean : 0 ∉ text) :
    cstr chars = .ok text := by
  obtain ⟨length, rest, rfl⟩ := filled
  rw [List.append_assoc]
  exact cstr_append clean

end Prot.Memory
