import Prot.Test.Failmem

/-! The lines of the dump and what can be read from them. Nothing but the lines
is known to the reader. -/

namespace Prot.Test.Failmem

open Memory Text

variable {bytes : List UInt8} {offset i n : ℕ}

section Texts

/-- The place of a byte in the hexadecimal columns, with the blank before it. -/
def plainCell (bytes : List UInt8) (i : ℕ) : List UInt8 :=
  match bytes[i]? with
  | some c => ascii " " ++ hex 2 c.toNat
  | none => ascii "   "

/-- The columns are in two groups. -/
def cellText (bytes : List UInt8) (i : ℕ) : List UInt8 :=
  (if i = 8 then ascii " " else []) ++ plainCell bytes i

def rowFront (offset : ℕ) : List UInt8 := ascii " " ++ hex 8 offset ++ ascii ":"

def rowHead (offset : ℕ) (bytes : List UInt8) : List UInt8 :=
  rowFront offset ++ (List.range 16).flatMap (cellText bytes) ++ ascii " | "

def rowText (offset : ℕ) (bytes : List UInt8) : List UInt8 :=
  rowHead offset bytes ++ bytes.map printable

def pairs (bytes : List UInt8) : List UInt8 := bytes.flatMap fun c => hex 2 c.toNat ++ ascii " "

end Texts

section Reader

/-- What two characters stand for; blank ones are no byte. -/
def readCell (cell : List UInt8) : Option (Option UInt8) :=
  if cell = ascii "  " then some none else (readHex cell).map fun value => some (UInt8.ofNat value)

def readCells : List ℕ → List UInt8 → Option (List UInt8)
  | [], _ => some []
  | i :: more, text => do
    let text := if i = 8 then text.drop 1 else text
    let c ← readCell ((text.drop 1).take 2)
    let rest ← readCells more (text.drop 3)
    return c.toList ++ rest

def rowOffset (row : List UInt8) : Option ℕ := readHex ((row.drop 1).take 8)

def rowBytes (row : List UInt8) : Option (List UInt8) := readCells (List.range 16) (row.drop 10)

def rowShown (row : List UInt8) : List UInt8 := row.drop 62

def readPairs : List UInt8 → Option (List UInt8)
  | [] => some []
  | a :: b :: c :: rest => if c = 32 then do
      let value ← readHex [a, b]
      let more ← readPairs rest
      return UInt8.ofNat value :: more
    else none
  | _ => none

/-- The bytes between the last brackets of a line. -/
def shortBytes (line : List UInt8) : Option (List UInt8) :=
  let inner := ((line.reverse.takeWhile (· ≠ 91)).drop 2).reverse
  if inner = [] then some [] else readPairs (inner ++ ascii " ")

/-- The bytes of a dump: of its only line, or of the rows below its title. -/
def decode : List (List UInt8) → Option (List UInt8)
  | [] => none
  | [line] => shortBytes line
  | _ :: rows => (rows.mapM rowBytes).map List.flatten

/-- A dump that shows the block, and shows it in the right places. -/
structure Faithful (block : List UInt8) (lines : List (List UInt8)) : Prop where
  decoded : decode lines = some block
  rows : 16 ≤ block.length → ∀ k row, lines.tail[k]? = some row →
    rowOffset row = some (16 * k) ∧
      rowShown row = ((block.drop (16 * k)).take 16).map printable ++ ascii "\n"

end Reader

theorem length_hex_byte (c : UInt8) : (hex 2 c.toNat).length = 2 :=
  length_hex (by decide) c.toNat_lt

theorem length_plainCell : (plainCell bytes i).length = 3 := by
  unfold plainCell
  split
  · rename_i c _
    rw [List.length_append, length_hex_byte]
    decide
  · decide

theorem length_cells : ((List.range 16).flatMap (cellText bytes)).length = 49 := by
  have widths : (fun i => (cellText bytes i).length) = fun i => (if i = 8 then 1 else 0) + 3 := by
    funext i
    rw [cellText, List.length_append, length_plainCell]
    split <;> rfl
  rw [List.length_flatMap, widths]
  decide

theorem length_rowFront (small : offset < 2 ^ 32) : (rowFront offset).length = 10 := by
  have eight : (hex 8 offset).length = 8 := length_hex (by decide) small
  simp only [rowFront, List.length_append, eight]
  decide

/-- The right column has its place. -/
theorem length_rowHead (small : offset < 2 ^ 32) : (rowHead offset bytes).length = 62 := by
  simp only [rowHead, List.length_append, length_rowFront small, length_cells]
  decide

theorem length_pairs : (pairs bytes).length = 3 * bytes.length := by
  induction bytes with
  | nil => rfl
  | cons c bytes ih =>
    rw [pairs, List.flatMap_cons, List.length_append, List.length_append, length_hex_byte]
    change 2 + 1 + (pairs bytes).length = 3 * (bytes.length + 1)
    omega

section Reading

private theorem filterMap_range (bytes : List UInt8) (n : ℕ) :
    (List.range n).filterMap (fun i => bytes[i]?) = bytes.take n := by
  induction n with
  | zero => rfl
  | succ n ih =>
    rw [List.range_succ, List.filterMap_append, ih, List.take_add_one]
    cases there : bytes[n]? <;> simp [there]

private theorem readCell_hex (c : UInt8) : readCell (hex 2 c.toNat) = some (some c) := by
  have other : hex 2 c.toNat ≠ ascii "  " := by
    intro same
    have blank : (32 : UInt8) ∈ hex 2 c.toNat := by
      rw [same]
      decide
    exact notMem_hex (by decide) blank
  rw [readCell, if_neg other, readHex_hex, Option.map_some, UInt8.ofNat_toNat]

private theorem readCell_plain (rest : List UInt8) :
    readCell (((plainCell bytes i ++ rest).drop 1).take 2) = some bytes[i]? := by
  have two : ((plainCell bytes i ++ rest).drop 1).take 2 = (plainCell bytes i).drop 1 := by
    rw [List.drop_append_of_le_length (by rw [length_plainCell]; decide)]
    exact List.take_left' (by rw [List.length_drop, length_plainCell])
  rw [two, plainCell]
  cases bytes[i]? with
  | some c => exact readCell_hex c
  | none => rfl

private theorem readCells_flatMap (columns : List ℕ) (rest : List UInt8) :
    readCells columns (columns.flatMap (cellText bytes) ++ rest) =
      some (columns.filterMap fun i => bytes[i]?) := by
  induction columns with
  | nil => rfl
  | cons i columns ih =>
    have group : (if i = 8 then ((i :: columns).flatMap (cellText bytes) ++ rest).drop 1
        else (i :: columns).flatMap (cellText bytes) ++ rest) =
          plainCell bytes i ++ (columns.flatMap (cellText bytes) ++ rest) := by
      rw [List.flatMap_cons, cellText]
      split
      · rw [List.append_assoc, List.append_assoc]
        rfl
      · rw [List.nil_append, List.append_assoc]
    have behind : (plainCell bytes i ++ (columns.flatMap (cellText bytes) ++ rest)).drop 3 =
        columns.flatMap (cellText bytes) ++ rest := List.drop_left' length_plainCell
    rw [readCells, group]
    simp only [readCell_plain, behind, ih, Option.bind_eq_bind, Option.bind_some, Option.pure_def,
      List.filterMap_cons]
    cases bytes[i]? <;> rfl

private theorem rowBytes_rowText (small : offset < 2 ^ 32) (few : bytes.length ≤ 16)
    (rest : List UInt8) :
    rowBytes (rowText offset bytes ++ rest) = some bytes := by
  have columns : (rowText offset bytes ++ rest).drop 10 = (List.range 16).flatMap (cellText bytes)
    ++
      (ascii " | " ++ bytes.map printable ++ rest) := by
    simp only [rowText, rowHead, List.append_assoc]
    exact List.drop_left' (length_rowFront small)
  rw [rowBytes, columns, readCells_flatMap, filterMap_range, List.take_of_length_le few]

private theorem rowOffset_rowText (small : offset < 2 ^ 32) (rest : List UInt8) :
    rowOffset (rowText offset bytes ++ rest) = some offset := by
  have eight : (hex 8 offset).length = 8 := length_hex (by decide) small
  have digits : ((rowText offset bytes ++ rest).drop 1).take 8 = hex 8 offset := by
    simp only [rowText, rowHead, rowFront, List.append_assoc]
    exact List.take_left' eight
  rw [rowOffset, digits, readHex_hex]

private theorem rowShown_rowText (small : offset < 2 ^ 32) (rest : List UInt8) :
    rowShown (rowText offset bytes ++ rest) = bytes.map printable ++ rest := by
  rw [rowShown, rowText, List.append_assoc]
  exact List.drop_left' (length_rowHead small)

private theorem readPairs_pairs (bytes : List UInt8) : readPairs (pairs bytes) = some bytes := by
  induction bytes with
  | nil => rfl
  | cons c bytes ih =>
    obtain ⟨a, b, two⟩ := List.length_eq_two.mp (length_hex_byte c)
    have value : readHex [a, b] = some c.toNat := by
      rw [← two]
      exact readHex_hex
    have split : pairs (c :: bytes) = a :: b :: 32 :: pairs bytes := by
      rw [pairs, List.flatMap_cons, two]
      rfl
    rw [split, readPairs, if_pos rfl, value, ih]
    simp

/-- The last blank, which the short form removes. -/
theorem pairs_concat (some_ : bytes ≠ []) : (pairs bytes).dropLast ++ ascii " " = pairs bytes := by
  have split : pairs bytes =
      pairs bytes.dropLast ++ hex 2 (bytes.getLast some_).toNat ++ [32] := by
    conv_lhs => rw [← List.dropLast_append_getLast some_, pairs, List.flatMap_append]
    rw [pairs, List.append_assoc, List.flatMap_singleton]
    rfl
  rw [split, List.dropLast_concat]
  rfl

theorem notMem_pairs {c : UInt8} (other : hexDigit c = none) (blank : c ≠ 32) : c ∉ pairs bytes := by
  intro member
  obtain ⟨d, _, there⟩ := List.mem_flatMap.mp member
  rcases List.mem_append.mp there with digit | space
  · exact notMem_hex other digit
  · exact blank (List.mem_singleton.mp space)

private theorem shortBytes_pairs (front : List UInt8) :
    shortBytes (front ++ ascii " is [" ++ (pairs bytes).dropLast ++ ascii "]\n") = some bytes := by
  have backwards : (front ++ ascii " is [" ++ (pairs bytes).dropLast ++ ascii "]\n").reverse =
      ascii "\n]" ++ (pairs bytes).dropLast.reverse ++ (91 :: (front ++ ascii " is ").reverse) := by
    simp [ascii]
  have inside : ∀ c ∈ ascii "\n]" ++ (pairs bytes).dropLast.reverse, decide (c ≠ 91) = true := by
    intro c member
    refine decide_eq_true fun bracket => ?_
    subst bracket
    rcases List.mem_append.mp member with closing | text
    · exact absurd closing (by decide)
    · exact notMem_pairs (by decide) (by decide) (List.mem_of_mem_dropLast
        (List.mem_reverse.mp text))
  have inner : (((front ++ ascii " is [" ++ (pairs bytes).dropLast ++ ascii "]\n").reverse.takeWhile
      (· ≠ 91)).drop 2).reverse = (pairs bytes).dropLast := by
    rw [backwards, List.takeWhile_append_of_pos inside, List.takeWhile_cons_of_neg (by decide),
      List.append_nil, List.drop_left' (by decide : (ascii "\n]").length = 2), List.reverse_reverse]
  unfold shortBytes
  rw [inner]
  by_cases none_ : bytes = []
  · rw [none_]
    rfl
  · have some_ : (pairs bytes).dropLast ≠ [] := by
      intro empty
      have short := congrArg List.length empty
      have long := List.length_pos_iff.mpr none_
      rw [List.length_dropLast, length_pairs, List.length_nil] at short
      omega
    rw [if_neg some_, pairs_concat none_, readPairs_pairs]

end Reading

section Dumps

variable {block : List UInt8} {k : ℕ}

/-- The row of the 16 bytes from `16 * k` on, or of what is left. -/
def rowLine (block : List UInt8) (k : ℕ) : List UInt8 :=
  rowText (16 * k) ((block.drop (16 * k)).take 16) ++ ascii "\n"

private theorem flatten_pieces (block : List UInt8) (k : ℕ) :
    ((List.range k).map fun j => (block.drop (16 * j)).take 16).flatten = block.take (16 * k) := by
  induction k with
  | zero => rfl
  | succ k ih =>
    rw [List.range_succ, List.map_append, List.flatten_append, ih, Nat.mul_succ, List.take_add]
    simp

private theorem mapM_rowBytes (rows : List ℕ) (small : ∀ j ∈ rows, 16 * j < 2 ^ 32) :
    (rows.map (rowLine block)).mapM rowBytes =
      some (rows.map fun j => (block.drop (16 * j)).take 16) := by
  induction rows with
  | nil => rfl
  | cons j rows ih =>
    have first : rowBytes (rowLine block j) = some ((block.drop (16 * j)).take 16) :=
      rowBytes_rowText (small j List.mem_cons_self) (List.length_take_le _ _) _
    rw [List.map_cons, List.mapM_cons, first, ih fun i later => small i
      (List.mem_cons_of_mem _ later)]
    rfl

private theorem decode_rows {title : List UInt8} {rows : List (List UInt8)} (some_ : rows ≠ []) :
    decode (title :: rows) = (rows.mapM rowBytes).map List.flatten := by
  cases rows with
  | nil => exact absurd rfl some_
  | cons row rows => rfl

/-- A title and rows enough are a faithful dump of a long block. -/
theorem faithful_rows (title : List UInt8) (long : 16 ≤ block.length) (all : block.length ≤ 16 * k)
    (small : 16 * k < 2 ^ 32) : Faithful block (title :: (List.range k).map (rowLine block)) := by
  have within : ∀ j ∈ List.range k, 16 * j < 2 ^ 32 := by
    intro j member
    rw [List.mem_range] at member
    omega
  refine ⟨?_, fun _ j row there => ?_⟩
  · have some_ : (List.range k).map (rowLine block) ≠ [] := by
      rw [ne_eq, List.map_eq_nil_iff, List.range_eq_nil]
      omega
    rw [decode_rows some_, mapM_rowBytes _ within, Option.map_some, flatten_pieces,
      List.take_of_length_le all]
  · rw [List.tail_cons, List.getElem?_map] at there
    obtain ⟨i, here, rfl⟩ := Option.map_eq_some_iff.mp there
    obtain ⟨inside, rfl⟩ := List.getElem?_eq_some_iff.mp here
    rw [List.getElem_range]
    have fits := within j (List.mem_range.mpr (by simpa using inside))
    exact ⟨rowOffset_rowText fits _, rowShown_rowText fits _⟩

/-- A line with all bytes of a short block between its last brackets is one of it. -/
theorem faithful_short (front : List UInt8) (short : block.length < 16) : Faithful block
    [front ++ ascii " is [" ++ (pairs block).dropLast ++ ascii "]\n"] :=
  ⟨shortBytes_pairs front, fun long => absurd short (Nat.not_lt.mpr long)⟩

end Dumps

end Prot.Test.Failmem
