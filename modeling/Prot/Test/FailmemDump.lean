import Prot.Test.FailmemLines

/-! What `PrintFailmem` writes into its buffer: the two ways of laying out a row
agree, and every write fits. -/

namespace Prot.Test.Failmem

open Memory Program Text

variable {block buf head text : List UInt8} {offset pv i n : ℕ}

section Clean

private theorem clean_hex {width : ℕ} : 0 ∉ hex width n := notMem_hex (by decide)

private theorem clean_cellText : 0 ∉ cellText block i := by
  unfold cellText plainCell
  intro member
  rcases List.mem_append.mp member with gap | plain
  · split at gap
    · exact absurd gap (by decide)
    · cases gap
  · split at plain
    · rcases List.mem_append.mp plain with blank | digit
      · exact absurd blank (by decide)
      · exact clean_hex digit
    · exact absurd plain (by decide)

private theorem printable_ne_zero (c : UInt8) : printable c ≠ 0 := by
  unfold printable
  split
  · decide
  · rename_i shown
    rintro rfl
    exact shown (.inl (by decide))

private theorem clean_rowText : 0 ∉ rowText offset block := by
  simp only [rowText, rowHead, rowFront, List.mem_append, List.mem_flatMap, List.mem_map, not_or]
  refine ⟨⟨⟨⟨⟨by decide, clean_hex⟩, by decide⟩, ?_⟩, by decide⟩, ?_⟩
  · rintro ⟨i, _, member⟩
    exact clean_cellText member
  · rintro ⟨c, _, zero⟩
    exact printable_ne_zero c zero

end Clean

section WholeRow

private theorem blank_intercalate {xs : List (List UInt8)} (some_ : xs ≠ []) :
    ascii " " ++ List.intercalate (ascii " ") xs = xs.flatMap fun x => ascii " " ++ x := by
  induction xs with
  | nil => exact absurd rfl some_
  | cons x xs ih =>
    cases xs with
    | nil => simp
    | cons y ys =>
      rw [List.intercalate_cons_cons, List.flatMap_cons, ← ih (List.cons_ne_nil y ys)]
      simp only [List.append_assoc]

/-- The places of bytes that are there. -/
theorem plainCells (inside : i + n ≤ block.length) : (List.range' i n).flatMap (plainCell block) =
    (((block.drop i).take n).map fun c => hex 2 c.toNat).flatMap fun x => ascii " " ++ x := by
  induction n generalizing i with
  | zero => simp
  | succ n ih =>
    have there : block[i]? = some block[i] := List.getElem?_eq_getElem (by omega)
    have first : plainCell block i = ascii " " ++ hex 2 block[i].toNat := by
      rw [plainCell, there]
    have split : (block.drop i).take (n + 1) = block[i] :: (block.drop (i + 1)).take n := by
      rw [List.drop_eq_getElem_cons (by omega), List.take_succ_cons]
    rw [List.range'_succ, List.flatMap_cons, ih (by omega), split, List.map_cons, List.flatMap_cons,
      first]

private theorem cellText_eq (other : i ≠ 8) : cellText block i = plainCell block i := by
  rw [cellText, if_neg other, List.nil_append]

private theorem cells_groups : (List.range 16).flatMap (cellText block) =
    (List.range' 0 8).flatMap (plainCell block) ++
      (ascii " " ++ (List.range' 8 8).flatMap (plainCell block)) := by
  have split : List.range 16 = List.range' 0 8 ++ 8 :: List.range' 9 7 := by decide
  have whole : List.range' 8 8 = 8 :: List.range' 9 7 := by decide
  have left : (List.range' 0 8).flatMap (cellText block) =
      (List.range' 0 8).flatMap (plainCell block) := by
    refine List.flatMap_congr fun i member => cellText_eq ?_
    rw [List.mem_range'_1] at member
    omega
  have right : (List.range' 9 7).flatMap (cellText block) =
      (List.range' 9 7).flatMap (plainCell block) := by
    refine List.flatMap_congr fun i member => cellText_eq ?_
    rw [List.mem_range'_1] at member
    omega
  rw [split, whole, List.flatMap_append, List.flatMap_cons, List.flatMap_cons, left, right,
    cellText,
    if_pos rfl, List.append_assoc]

private theorem rowFormat_eq {offset : Int32} (whole : block.length = 16) :
    rowFormat offset block = rowHead offset.toUInt32.toNat block := by
  have colon : ascii ": " = ascii ":" ++ ascii " " := by decide
  have gap : ascii "  " = ascii " " ++ ascii " " := by decide
  have low : (block.take 8).map (fun c => hex 2 c.toNat) ≠ [] := by
    rw [ne_eq, List.map_eq_nil_iff, List.take_eq_nil_iff]
    rintro (none_ | none_)
    · cases none_
    · rw [none_] at whole
      cases whole
  have high : (block.drop 8).map (fun c => hex 2 c.toNat) ≠ [] := by
    rw [ne_eq, List.map_eq_nil_iff, List.drop_eq_nil_iff]
    omega
  have all : (block.drop 8).take 8 = block.drop 8 :=
    List.take_of_length_le (by rw [List.length_drop]; omega)
  rw [rowHead, rowFront, cells_groups, plainCells (by omega), plainCells (by omega), List.drop_zero,
    all, ← blank_intercalate low, ← blank_intercalate high, rowFormat, colon, gap]
  simp only [List.append_assoc, List.map_take, List.map_drop]

end WholeRow

section RightColumn

/-- One more byte is shown behind those before it. -/
theorem showByte_filled
    (filled : Filled 80 buf (head ++ ((block.drop pv).take i).map printable))
    (inside : pv + i < block.length) (fits : head.length + i < 80) :
    ∃ buf', showByte block pv head.length buf i = .ok buf' ∧
      Filled 80 buf' (head ++ ((block.drop pv).take (i + 1)).map printable) := by
  have there : block[pv + i]? = some block[pv + i] := List.getElem?_eq_getElem inside
  have size : (head ++ ((block.drop pv).take i).map printable).length = head.length + i := by
    rw [List.length_append, List.length_map, List.length_take_of_le
      (by rw [List.length_drop]; omega)]
  have next : (block.drop pv).take (i + 1) = (block.drop pv).take i ++ [block[pv + i]] := by
    rw [List.take_add_one, List.getElem?_drop, there]
    rfl
  obtain ⟨buf', wrote, longer⟩ := filled.put [printable block[pv + i]] (by rw [size]; exact fits)
  refine ⟨buf', ?_, ?_⟩
  · rw [size, Nat.cast_add] at wrote
    rw [showByte, readByte_eq there]
    exact wrote
  · rw [next, List.map_append, ← List.append_assoc]
    exact longer

private theorem showBytes_filled (filled : Filled 80 buf head) (inside : pv + n ≤ block.length)
    (fits : head.length + n ≤ 80) :
    ∃ buf', (List.range n).foldlM (showByte block pv head.length) buf = .ok buf' ∧
      Filled 80 buf' (head ++ ((block.drop pv).take n).map printable) := by
  induction n with
  | zero => exact ⟨buf, rfl, by simpa using filled⟩
  | succ n ih =>
    obtain ⟨middle, before, some_⟩ := ih (by omega) (by omega)
    obtain ⟨buf', wrote, all⟩ := showByte_filled some_ (by omega) (by omega)
    refine ⟨buf', ?_, all⟩
    rw [List.range_succ, List.foldlM_append, before, ok_bind]
    simp only [List.foldlM_cons, List.foldlM_nil, wrote, ok_bind, pure_eq]

end RightColumn

/-- A round of the loop prints the next whole row. -/
theorem rowRound_prints {s : Long} (size : s.buf.length = 80) (inside : s.pv + 16 ≤ block.length)
    (more : 16 ≤ s.len) : ∃ buf, buf.length = 80 ∧ rowRound block s =
      .ok (.inl ⟨buf, s.offset + 16, s.pv + 16, s.len - 16, s.out ++
        [rowText s.offset.toUInt32.toNat ((block.drop s.pv).take 16) ++ ascii "\n"]⟩) := by
  have whole : ((block.drop s.pv).take 16).length = 16 :=
    List.length_take_of_le (by rw [List.length_drop]; omega)
  have wide : (rowHead s.offset.toUInt32.toNat ((block.drop s.pv).take 16)).length = 62 :=
    length_rowHead s.offset.toUInt32.toNat_lt
  obtain ⟨first, wroteHead, begun⟩ : ∃ first, put s.buf 0
      (rowHead s.offset.toUInt32.toNat ((block.drop s.pv).take 16) ++ [0]) = .ok first ∧ _ :=
    Filled.begin size (by rw [List.length_append, wide]; decide)
  obtain ⟨second, wroteShown, shown⟩ := showBytes_filled begun.shorter inside (by rw [wide]; decide)
  have long : (rowHead s.offset.toUInt32.toNat ((block.drop s.pv).take 16) ++
      ((block.drop s.pv).take 16).map printable).length = 62 + 16 := by
    rw [List.length_append, List.length_map, wide, whole]
  obtain ⟨third, wroteEnd, ended⟩ := shown.put [0] (by rw [long]; decide)
  have read : cstr third = .ok (rowText s.offset.toUInt32.toNat ((block.drop s.pv).take 16)) :=
    ended.cstr clean_rowText
  rw [wide] at wroteShown
  rw [long] at wroteEnd
  change put second (62 + 16) [0] = .ok third at wroteEnd
  refine ⟨third, ended.length, ?_⟩
  rw [rowRound, if_pos more, readBytes_eq inside]
  simp only [ok_bind, rowFormat_eq whole, wroteHead, wroteShown, wroteEnd, read, pure_eq]

section LastRow

variable {bytes : List UInt8} {len : Int32} {m : ℕ}

private theorem ofNat_lt_iff (small : i < 16) (remaining : len.toInt = m) :
    Int32.ofNat i < len ↔ i < m := by
  rw [Int32.lt_iff_toInt_lt, Int32.toInt_ofNat_of_lt (by omega), remaining]
  exact Nat.cast_lt

private theorem ofNat_eq_iff (small : i < 16) (remaining : len.toInt = m) :
    Int32.ofNat i = len ↔ i = m := by
  rw [← Int32.toInt_inj, Int32.toInt_ofNat_of_lt (by omega), remaining]
  exact Nat.cast_inj

private theorem gap_filled (filled : Filled 80 buf text) (room : text.length + 5 ≤ 80) :
    ∃ buf', gap buf text.length i =
        .ok (buf', (text ++ if i = 8 then ascii " " else []).length) ∧
      Filled 80 buf' (text ++ if i = 8 then ascii " " else []) := by
  by_cases eighth : i = 8
  · obtain ⟨buf', wrote, filled⟩ := filled.put (ascii " ") (by change text.length + 1 ≤ 80; omega)
    refine ⟨buf', ?_, by simpa [eighth] using filled⟩
    rw [gap, if_pos eighth, if_pos eighth, wrote, ok_bind, List.length_append]
    rfl
  · refine ⟨buf, ?_, by simpa [eighth] using filled⟩
    rw [gap, if_neg eighth, if_neg eighth, List.append_nil]
    rfl

private theorem place_filled (filled : Filled 80 buf text) (room : text.length + 4 ≤ 80)
    (small : i < 16)
    (remaining : len.toInt = (block.drop pv).length) :
    ∃ buf', place block pv len buf text.length i = .ok buf' ∧
      Filled 80 buf' (text ++ plainCell (block.drop pv) i) := by
  by_cases there : i < (block.drop pv).length
  · have here : block[pv + i]? = some (block.drop pv)[i] := by
      rw [← List.getElem?_drop, List.getElem?_eq_getElem there]
    have plain : plainCell (block.drop pv) i = ascii " " ++ hex 2 (block.drop pv)[i].toNat := by
      rw [plainCell, List.getElem?_eq_getElem there]
    have size : (ascii " " ++ hex 2 (block.drop pv)[i].toNat ++ [0]).length = 4 := by
      rw [List.length_append, List.length_append, length_hex_byte]
      decide
    obtain ⟨buf', wrote, filled⟩ := filled.put (ascii " " ++ hex 2 (block.drop pv)[i].toNat ++ [0])
      (by rw [size]; exact room)
    refine ⟨buf', ?_, ?_⟩
    · rw [place, if_pos ((ofNat_lt_iff small remaining).mpr there), readByte_eq here, ok_bind,
        wrote]
    · rw [← List.append_assoc] at filled
      rw [plain]
      exact filled.shorter
  · have plain : plainCell (block.drop pv) i = ascii "   " := by
      rw [plainCell, List.getElem?_eq_none (Nat.not_lt.mp there)]
    rw [place, plain, if_neg fun less => there ((ofNat_lt_iff small remaining).mp less)]
    exact filled.put (ascii "   ") (by change text.length + 3 ≤ 80; omega)

private theorem cell_filled (filled : Filled 80 buf text) (room : text.length + 5 ≤ 80)
    (small : i < 16)
    (remaining : len.toInt = (block.drop pv).length) :
    ∃ buf', cell block pv len (buf, text.length) i =
        .ok (buf', (text ++ cellText (block.drop pv) i).length) ∧
      Filled 80 buf' (text ++ cellText (block.drop pv) i) := by
  obtain ⟨middle, gap, begun⟩ := gap_filled (i := i) filled room
  have narrow : (if i = 8 then ascii " " else []).length ≤ 1 := by
    split <;> decide
  obtain ⟨buf', plain, ended⟩ := place_filled begun (by rw [List.length_append]; omega) small
    remaining
  refine ⟨buf', ?_, ?_⟩
  · have wide : (text ++ cellText (block.drop pv) i).length =
        (text ++ if i = 8 then ascii " " else []).length + 3 := by
      rw [cellText, ← List.append_assoc, List.length_append, length_plainCell]
    simp only [cell, gap, plain, ok_bind, pure_eq, wide]
  · rw [cellText, ← List.append_assoc]
    exact ended

private theorem length_cells_le (block : List UInt8) (n : ℕ) :
    ((List.range n).flatMap (cellText block)).length ≤ 4 * n := by
  induction n with
  | zero => exact Nat.le_refl 0
  | succ n ih =>
    have width : (cellText block n).length ≤ 4 := by
      rw [cellText, List.length_append, length_plainCell]
      split <;> decide
    rw [List.range_succ, List.flatMap_append, List.length_append, List.flatMap_singleton]
    omega

private theorem cells_filled (filled : Filled 80 buf text) (n : ℕ) (few : n ≤ 16)
    (room : text.length + 4 * n < 80) (remaining : len.toInt = (block.drop pv).length) :
    ∃ buf', (List.range n).foldlM (cell block pv len) (buf, text.length) =
        .ok (buf', (text ++ (List.range n).flatMap (cellText (block.drop pv))).length) ∧
      Filled 80 buf' (text ++ (List.range n).flatMap (cellText (block.drop pv))) := by
  induction n with
  | zero => exact ⟨buf, by simp [pure_eq], by simpa using filled⟩
  | succ n ih =>
    obtain ⟨middle, before, some_⟩ := ih (by omega) (by omega)
    have width := length_cells_le (block.drop pv) n
    obtain ⟨buf', wrote, all⟩ := cell_filled some_ (by rw [List.length_append]; omega) few remaining
    rw [List.append_assoc] at wrote all
    refine ⟨buf', ?_, ?_⟩
    · rw [List.range_succ, List.foldlM_append, before, ok_bind, List.flatMap_append,
        List.flatMap_singleton]
      simp only [List.foldlM_cons, List.foldlM_nil, wrote, ok_bind, pure_eq]
    · rw [List.range_succ, List.flatMap_append, List.flatMap_singleton]
      exact all

private theorem showRest_filled (remaining : len.toInt = m) (inside : pv + m ≤ block.length)
    (fits : head.length + m < 80) (i n : ℕ) (begun : i ≤ m) (ends : m < i + n) (few : i + n ≤ 16)
    (filled : Filled 80 buf (head ++ ((block.drop pv).take i).map printable)) :
    ∃ buf', showRest block pv len head.length (List.range' i n) buf = .ok buf' ∧
      Filled 80 buf' (head ++ ((block.drop pv).take m).map printable ++ [0]) := by
  induction n generalizing i buf with
  | zero => omega
  | succ n ih =>
    rw [List.range'_succ, showRest]
    by_cases last : i = m
    · subst last
      have size : (head ++ ((block.drop pv).take i).map printable).length = head.length + i := by
        rw [List.length_append, List.length_map, List.length_take_of_le
          (by rw [List.length_drop]; omega)]
      obtain ⟨buf', wrote, ended⟩ := filled.put [0] (by rw [size]; exact fits)
      rw [size, Nat.cast_add] at wrote
      rw [if_pos ((ofNat_eq_iff (by omega) remaining).mpr rfl)]
      exact ⟨buf', wrote, ended⟩
    · obtain ⟨middle, wrote, longer⟩ := showByte_filled filled (by omega) (by omega)
      rw [if_neg fun same => last ((ofNat_eq_iff (by omega) remaining).mp same), wrote, ok_bind]
      exact ih (i + 1) (by omega) (by omega) (by omega) longer

/-- The bytes that are left are printed like a whole row. -/
theorem lastRow_prints {s : Long} (size : s.buf.length = 80) (within : s.pv ≤ block.length)
    (remaining : s.len.toInt = (block.drop s.pv).length) (few : (block.drop s.pv).length < 16) :
    lastRow block s = .ok (rowText s.offset.toUInt32.toNat (block.drop s.pv) ++ ascii "\n") := by
  have ten : (rowFront s.offset.toUInt32.toNat).length = 10 :=
    length_rowFront s.offset.toUInt32.toNat_lt
  have wide : (rowHead s.offset.toUInt32.toNat (block.drop s.pv)).length = 62 :=
    length_rowHead s.offset.toUInt32.toNat_lt
  obtain ⟨first, wroteFront, begun⟩ : ∃ first, put s.buf 0
      (rowFront s.offset.toUInt32.toNat ++ [0]) = .ok first ∧ _ :=
    Filled.begin size (by rw [List.length_append, ten]; decide)
  obtain ⟨second, wroteCells, cells⟩ := cells_filled begun.shorter 16 (Nat.le_refl _)
    (by rw [ten]; decide) remaining
  have long : (rowFront s.offset.toUInt32.toNat ++
      (List.range 16).flatMap (cellText (block.drop s.pv))).length = 59 := by
    rw [List.length_append, ten, length_cells]
  obtain ⟨third, wroteBar, headed⟩ := cells.put (ascii " | ") (by rw [long]; decide)
  have inside : s.pv + (block.drop s.pv).length ≤ block.length := by
    rw [List.length_drop]
    omega
  have nothing : Filled 80 third (rowHead s.offset.toUInt32.toNat (block.drop s.pv) ++
      ((block.drop s.pv).take 0).map printable) := by
    rw [List.take_zero, List.map_nil, List.append_nil]
    exact headed
  obtain ⟨fourth, wroteShown, ended⟩ := showRest_filled remaining inside
    (by rw [wide]; omega) 0 16 (Nat.zero_le _) (by omega) (Nat.le_refl _) nothing
  rw [List.take_of_length_le (Nat.le_refl _)] at ended
  have read : cstr fourth = .ok (rowText s.offset.toUInt32.toNat (block.drop s.pv)) :=
    ended.cstr clean_rowText
  rw [ten, long] at wroteCells
  rw [long] at wroteBar
  rw [wide, ← List.range_eq_range'] at wroteShown
  rw [rowFront] at wroteFront
  simp only [lastRow, wroteFront, ok_bind, wroteCells, wroteBar, wroteShown, read, pure_eq]

end LastRow

end Prot.Test.Failmem
