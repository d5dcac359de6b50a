import Prot.Test.FailmemDump

/-! `PrintFailmem` as a whole: its loops end, its writes stay in the buffer and
the dump is faithful, as long as the length of the text can be told in an `int`. -/

namespace Prot.Test.Failmem

open Memory Program Text

variable {block buf : List UInt8} {exp headstr : CString} {k m n : ℕ}

section Counters

variable {count step : Int32}

private theorem toInt_less (counts : count.toInt = m) (steps : step.toInt = k) (enough : k ≤ m) :
    (count - step).toInt = (m - k : ℕ) := by
  have high := count.toInt_lt
  rw [Int32.toInt_sub, counts, steps, Int.bmod_eq_of_le (by omega) (by omega)]
  omega

private theorem toInt_more (counts : count.toInt = m) (steps : step.toInt = k)
    (fits : m + k < 2 ^ 31) :
    (count + step).toInt = (m + k : ℕ) := by
  rw [Int32.toInt_add, counts, steps, Int.bmod_eq_of_le (by omega) (by omega)]
  omega

private theorem toUInt32_eq (counts : count.toInt = m) : count.toUInt32.toNat = m := by
  rw [Int32.toInt, BitVec.toInt_eq_toNat_cond] at counts
  have small := count.toBitVec.isLt
  change count.toBitVec.toNat = m
  split at counts <;> omega

private theorem toUInt64_eq (counts : count.toInt = m) : count.toInt64.toUInt64.toNat = m := by
  have wide : count.toInt64.toInt = m := by rw [Int32.toInt_toInt64, counts]
  rw [Int64.toInt, BitVec.toInt_eq_toNat_cond] at wide
  have small := count.toInt64.toBitVec.isLt
  change count.toInt64.toBitVec.toNat = m
  split at wide <;> omega

private theorem toUInt64_huge (negative : count.toInt < 0) :
    2 ^ 63 ≤ count.toInt64.toUInt64.toNat := by
  have wide : count.toInt64.toInt = count.toInt := Int32.toInt_toInt64 count
  rw [Int64.toInt, BitVec.toInt_eq_toNat_cond] at wide
  change 2 ^ 63 ≤ count.toInt64.toBitVec.toNat
  split at wide <;> omega

/-- A length is cut to the 32 bits of an `int`. -/
theorem toInt_ofNat_cut (n : ℕ) : (Int32.ofNat n).toInt =
    if n % 2 ^ 32 < 2 ^ 31 then ((n % 2 ^ 32 : ℕ) : ℤ) else (n % 2 ^ 32 : ℕ) - 2 ^ 32 := by
  have bits : (Int32.ofNat n).toBitVec.toNat = n % 2 ^ 32 := by
    rw [Int32.toBitVec_ofNat', BitVec.toNat_ofNat]
  rw [Int32.toInt, BitVec.toInt_eq_toNat_cond, bits]
  split <;> split <;> omega

end Counters

section Title

/-- The title with `k` characters of the text. -/
def titleText (exp : CString) (k : ℕ) : List UInt8 :=
  List.replicate 3 61 ++ ascii " " ++ exp.chars.take k ++ ascii " " ++ List.replicate (74 - k) 61

theorem toInt_limit : (72 : Int32).toInt = 72 := by decide

private theorem explen_eq (fits : exp.chars.length % 2 ^ 32 < 2 ^ 31) :
    (explen exp).toInt = (min 72 (exp.chars.length % 2 ^ 32) : ℕ) := by
  have length := toInt_ofNat_cut exp.chars.length
  rw [if_pos fits] at length
  unfold explen
  simp only [Int32.lt_iff_toInt_lt, length, toInt_limit]
  split
  · rw [toInt_limit]
    omega
  · rw [length]
    omega

private theorem explen_negative (wraps : 2 ^ 31 ≤ exp.chars.length % 2 ^ 32) :
    (explen exp).toInt < 0 := by
  have small := Nat.mod_lt exp.chars.length (Nat.two_pow_pos 32)
  have length := toInt_ofNat_cut exp.chars.length
  rw [if_neg (Nat.not_lt.mpr wraps)] at length
  have within : ¬(72 : Int32) < Int32.ofNat exp.chars.length := by
    rw [Int32.lt_iff_toInt_lt, length, toInt_limit]
    omega
  unfold explen
  simp only [if_neg within, length]
  omega

private theorem clean_titleText : 0 ∉ titleText exp k := by
  have blank : (0 : UInt8) ∉ ascii " " := by decide
  have line (n : ℕ) : (0 : UInt8) ∉ List.replicate n 61 := by
    intro member
    exact absurd (List.eq_of_mem_replicate member) (by decide)
  simp only [titleText, List.mem_append, not_or]
  exact ⟨⟨⟨⟨line 3, blank⟩, fun member => exp.clean (List.mem_of_mem_take member)⟩, blank⟩, line _⟩

private theorem length_titleText (few : k ≤ 72) (within : k ≤ exp.chars.length) :
    (titleText exp k).length = 79 := by
  have blank : (ascii " ").length = 1 := by decide
  simp only [titleText, List.length_append, List.length_replicate, List.length_take_of_le within,
    blank]
  omega

def titleLine : List UInt8 := List.replicate 3 61 ++ ascii " " ++ (List.replicate 75 61 ++ [0])

private theorem title_begins (size : buf.length = 80) : title exp buf = (do
    let buf ← put titleLine (4 + explen exp).toInt (ascii " ")
    let text ← readBytes (exp.chars ++ [0]) 0 (explen exp).toInt64.toUInt64.toNat
    put buf 4 text) := by
  have line : put buf 0 (List.replicate 80 61) = .ok ([] ++ List.replicate 80 61 ++ []) :=
    put_at buf (by rw [List.nil_append, List.append_nil]) rfl (by rw [List.length_replicate, size])
  have last : put ([] ++ List.replicate 80 61 ++ []) 79 [0] =
      .ok (List.replicate 79 61 ++ [0] ++ []) := put_at [61] (by decide) (by decide) rfl
  have blank : put (List.replicate 79 61 ++ [0] ++ []) 3 (ascii " ") = .ok titleLine :=
    put_at [61] (by decide) (by decide) (by decide)
  simp only [title, line, last, blank, ok_bind]

private theorem title_eq (size : buf.length = 80) (counts : (explen exp).toInt = k) (few : k ≤ 72)
    (within : k ≤ exp.chars.length) : title exp buf = .ok (titleText exp k ++ [0]) := by
  have behind : (4 + explen exp).toInt = (4 + k : ℕ) :=
    toInt_more (by decide) counts (by omega)
  have equals : List.replicate 75 (61 : UInt8) =
      List.replicate k 61 ++ [61] ++ List.replicate (74 - k) 61 := by
    rw [List.append_assoc, List.singleton_append, ← List.replicate_succ,
      List.replicate_append_replicate]
    congr 1
    omega
  have blank : put titleLine (4 + explen exp).toInt (ascii " ") =
      .ok (List.replicate 3 61 ++ ascii " " ++ List.replicate k 61 ++ ascii " " ++
        (List.replicate (74 - k) 61 ++ [0])) := by
    refine put_at [61] ?_ ?_ (by decide)
    · rw [titleLine, equals]
      simp only [List.append_assoc]
    · rw [behind, List.length_append, List.length_replicate]
      rfl
  have text : readBytes (exp.chars ++ [0]) 0 (explen exp).toInt64.toUInt64.toNat =
      .ok (exp.chars.take k) := by
    rw [toUInt64_eq counts, readBytes_eq (by rw [List.length_append]; omega), List.drop_zero,
      List.take_append_of_le_length within]
  have copy : put (List.replicate 3 61 ++ ascii " " ++ List.replicate k 61 ++ ascii " " ++
      (List.replicate (74 - k) 61 ++ [0])) 4 (exp.chars.take k) =
        .ok (List.replicate 3 61 ++ ascii " " ++ exp.chars.take k ++
          (ascii " " ++ (List.replicate (74 - k) 61 ++ [0]))) := by
    refine put_at (List.replicate k 61) ?_ (by decide) ?_
    · simp only [List.append_assoc]
    · rw [List.length_take_of_le within, List.length_replicate]
  rw [title_begins size, blank, ok_bind, text, ok_bind, copy, titleText]
  simp only [List.append_assoc]

private theorem title_drawn (size : buf.length = 80) (fits : exp.chars.length % 2 ^ 32 < 2 ^ 31) :
    ∃ line, (0 ∉ line ∧ line.length = 79) ∧ title exp buf = .ok (line ++ [0]) := by
  have few : min 72 (exp.chars.length % 2 ^ 32) ≤ 72 := Nat.min_le_left _ _
  have within : min 72 (exp.chars.length % 2 ^ 32) ≤ exp.chars.length :=
    (Nat.min_le_right _ _).trans (Nat.mod_le _ _)
  exact ⟨_, ⟨clean_titleText, length_titleText few within⟩,
    title_eq size (explen_eq fits) few within⟩

private theorem title_faults (size : buf.length = 80) (negative : (explen exp).toInt < 0) :
    ∃ fault, title exp buf = .error fault := by
  rw [title_begins size]
  cases blank : put titleLine (4 + explen exp).toInt (ascii " ") with
  | error fault => exact ⟨fault, rfl⟩
  | ok first =>
    have same : first.length = 80 := put_length blank
    rw [ok_bind]
    cases text : readBytes (exp.chars ++ [0]) 0 (explen exp).toInt64.toUInt64.toNat with
    | error fault => exact ⟨fault, rfl⟩
    | ok copied =>
      have huge : 2 ^ 63 ≤ copied.length := by
        have huge := toUInt64_huge negative
        unfold readBytes at text
        split at text
        · rename_i inside
          cases text
          rw [List.length_take_of_le (by rw [List.length_drop]; omega)]
          exact huge
        · cases text
      exact ⟨.outOfBounds, put_fault (.inr (by omega))⟩

end Title

section ShortForm

variable {len : Int32}

/-- The bytes before `pv` have been printed and the others are left. -/
structure Printed (block : List UInt8) (s : Short) : Prop where
  filled : Filled 80 s.buf (pairs (block.take s.pv))
  pointer : s.pb = 3 * s.pv
  inside : s.pv ≤ block.length
  left : s.len.toInt = (block.length - s.pv : ℕ)

private theorem pairs_next (inside : k < block.length) : pairs (block.take (k + 1)) =
    pairs (block.take k) ++ (hex 2 block[k].toNat ++ ascii " ") := by
  rw [← List.take_concat_get' block k inside, pairs, List.flatMap_append, List.flatMap_singleton]
  rfl

theorem Printed.round {s : Short} (printed : Printed block s) (short : block.length < 16)
    (more : s.pv < block.length) :
    ∃ buf, shortRound block s = .ok (.inl ⟨buf, s.pb + 3, s.pv + 1, s.len - 1⟩) ∧
      Printed block ⟨buf, s.pb + 3, s.pv + 1, s.len - 1⟩ := by
  obtain ⟨filled, pointer, inside, left⟩ := printed
  have some_ : s.len ≠ 0 := by
    intro zero
    rw [zero] at left
    change (0 : ℤ) = _ at left
    omega
  have wide : (pairs (block.take s.pv)).length = s.pb := by
    rw [length_pairs, List.length_take_of_le inside, pointer]
  have size : (hex 2 block[s.pv].toNat ++ ascii " " ++ [0]).length = 4 := by
    rw [List.length_append, List.length_append, length_hex_byte]
    decide
  obtain ⟨buf', wrote, longer⟩ := filled.put (hex 2 block[s.pv].toNat ++ ascii " " ++ [0])
    (by rw [wide, size]; omega)
  rw [wide] at wrote
  refine ⟨buf', ?_, ?_, by change s.pb + 3 = 3 * (s.pv + 1); omega, more, ?_⟩
  · rw [shortRound, if_neg some_, readByte_eq (List.getElem?_eq_getElem more), ok_bind, wrote]
    rfl
  · rw [← List.append_assoc] at longer
    rw [pairs_next more]
    exact longer.shorter
  · have less := toInt_less left (by decide : (1 : Int32).toInt = (1 : ℕ)) (by omega)
    rw [less]
    congr 1

private theorem short_ends (size : len.toInt = block.length) (short : block.length < 16)
    (room : buf.length = 80) :
    ∃ s : Short, (Filled 80 s.buf (pairs block) ∧ s.pb = 3 * block.length) ∧
      ∀ fuel, block.length < fuel →
        loop (shortRound block) fuel ⟨buf, 0, 0, len⟩ = .ok (some s) := by
  have begun : Printed block ⟨buf, 0, 0, len⟩ :=
    ⟨⟨room, List.nil_prefix⟩, rfl, Nat.zero_le _, size⟩
  refine loop_ends (Printed block) _ (fun s => block.length - s.pv) (fun s printed => ?_) begun
  by_cases more : s.pv < block.length
  · obtain ⟨buf', goes, kept⟩ := printed.round short more
    exact .inl ⟨_, goes, kept, by change block.length - (s.pv + 1) < _; omega⟩
  · obtain ⟨filled, pointer, inside, left⟩ := printed
    have all : s.pv = block.length := Nat.le_antisymm inside (Nat.not_lt.mp more)
    have none_ : s.len = 0 := by
      rw [all, Nat.sub_self] at left
      exact Int32.toInt_inj.mp left
    rw [all] at pointer filled
    rw [List.take_length] at filled
    refine .inr ⟨{ s with len := s.len - 1 }, ?_, filled, pointer⟩
    rw [shortRound, if_pos none_]
    rfl

private theorem shortText_eq {s : Short} (filled : Filled 80 s.buf (pairs block))
    (pointer : s.pb = 3 * block.length) (short : block.length < 16) :
    shortText s = .ok (pairs block).dropLast := by
  have wide : (pairs block).length = s.pb := by rw [length_pairs, pointer]
  obtain ⟨first, wrote, ended⟩ := filled.put [0] (by rw [wide]; change s.pb + 1 ≤ 80; omega)
  rw [wide] at wrote
  have clean : 0 ∉ pairs block := notMem_pairs (by decide) (by decide)
  rw [shortText, wrote, ok_bind, trim]
  by_cases empty : block = []
  · subst empty
    rw [if_neg (by rw [pointer]; decide)]
    exact ended.cstr clean
  · have some_ := List.length_pos_iff.mpr empty
    have narrow : (pairs block).dropLast.length = s.pb - 1 := by rw [List.length_dropLast, wide]
    have shorter : Filled 80 first (pairs block).dropLast := by
      rw [← pairs_concat empty, List.append_assoc] at ended
      exact ended.shorter
    obtain ⟨second, trimmed, last⟩ := shorter.put [0]
      (by rw [narrow]; change s.pb - 1 + 1 ≤ 80; omega)
    rw [narrow, Nat.cast_sub (by omega), Nat.cast_one] at trimmed
    rw [if_pos (by omega), trimmed, ok_bind]
    exact last.cstr fun member => clean (List.mem_of_mem_dropLast member)

private theorem printShort_prints (headstr exp : CString) (size : len.toInt = block.length)
    (short : block.length < 16) (room : buf.length = 80) :
    ∀ fuel, block.length < fuel → printShort fuel headstr exp block buf len =
      .ok (some [headstr.chars ++ ascii " " ++ exp.chars ++ ascii " is [" ++
        (pairs block).dropLast ++ ascii "]\n"]) := by
  obtain ⟨s, ⟨filled, pointer⟩, ends⟩ := short_ends size short room
  intro fuel enough
  rw [printShort, ends fuel enough, ok_bind]
  simp only [shortText_eq filled pointer short, ok_bind, pure_eq]

end ShortForm

section LongForm

variable {len : Int32} {line : List UInt8}

structure Rows (block line : List UInt8) (k : ℕ) (s : Long) : Prop where
  room : s.buf.length = 80
  pointer : s.pv = 16 * k
  inside : 16 * k ≤ block.length
  offset : s.offset.toInt = (16 * k : ℕ)
  left : s.len.toInt = (block.length - 16 * k : ℕ)
  out : s.out = line :: (List.range k).map (rowLine block)

private theorem rows_next : (line :: (List.range k).map (rowLine block)) ++ [rowLine block k] =
    line :: (List.range (k + 1)).map (rowLine block) := by
  rw [List.range_succ, List.map_append, List.cons_append]
  rfl

theorem Rows.round {s : Long} (rows : Rows block line k s) (small : block.length < 2 ^ 31)
    (more : 16 * (k + 1) ≤ block.length) :
    ∃ next, rowRound block s = .ok (.inl next) ∧ Rows block line (k + 1) next := by
  obtain ⟨room, pointer, inside, offset, left, out⟩ := rows
  have sixteen : (16 : Int32).toInt = (16 : ℕ) := by decide
  have whole : 16 ≤ s.len := by
    rw [Int32.le_iff_toInt_le, left, sixteen]
    omega
  have below : s.pv + 16 ≤ block.length := by omega
  obtain ⟨buf', room', goes⟩ := rowRound_prints room below whole
  rw [toUInt32_eq offset, pointer, out] at goes
  refine ⟨_, goes, room', rfl, more, ?_, ?_, rows_next⟩
  · have further := toInt_more offset sixteen (by omega)
    rw [further]
    rfl
  · have less := toInt_less left sixteen (by omega)
    rw [less]
    congr 1

private theorem rows_end (line : List UInt8) (size : len.toInt = block.length)
    (room : buf.length = 80) :
    ∃ s : Long, (∃ k, Rows block line k s ∧ block.length < 16 * (k + 1)) ∧
      ∀ fuel, block.length < fuel →
        loop (rowRound block) fuel ⟨buf, 0, 0, len, [line]⟩ = .ok (some s) := by
  have small := len.toInt_lt
  have begun : ∃ k, Rows block line k ⟨buf, 0, 0, len, [line]⟩ :=
    ⟨0, room, rfl, Nat.zero_le _, rfl, size, rfl⟩
  refine loop_ends (fun s => ∃ k, Rows block line k s) _ (fun s => block.length - s.pv)
    (fun s printed => ?_) begun
  obtain ⟨k, rows⟩ := printed
  by_cases more : 16 * (k + 1) ≤ block.length
  · obtain ⟨next, goes, kept⟩ := rows.round (by omega) more
    refine .inl ⟨next, goes, ⟨k + 1, kept⟩, ?_⟩
    rw [rows.pointer, kept.pointer]
    omega
  · have few : ¬16 ≤ s.len := by
      rw [Int32.le_iff_toInt_le, rows.left]
      change ¬(16 : ℤ) ≤ _
      omega
    exact .inr ⟨s, by rw [rowRound, if_neg few]; rfl, k, rows, Nat.not_le.mp more⟩

/-- The last row is cut where the block ends. -/
theorem Rows.last {s : Long} (rows : Rows block line k s) (few : block.length < 16 * (k + 1)) :
    lastRow block s = .ok (rowLine block k) := by
  obtain ⟨room, pointer, inside, offset, left, _⟩ := rows
  have tail : (block.drop s.pv).length = block.length - 16 * k := by
    rw [List.length_drop, pointer]
  have whole : (block.drop (16 * k)).take 16 = block.drop (16 * k) :=
    List.take_of_length_le (by rw [List.length_drop]; omega)
  rw [lastRow_prints room (by omega) (by rw [left, tail]) (by omega), toUInt32_eq offset, pointer,
    rowLine, whole]

private theorem printLong_prints (size : len.toInt = block.length) (room : buf.length = 80)
    (fits : exp.chars.length % 2 ^ 32 < 2 ^ 31) :
    ∃ line k, (block.length ≤ 16 * k ∧ 16 * k < 2 ^ 32) ∧ ∀ fuel, block.length < fuel →
      printLong fuel exp block buf len =
        .ok (some (line :: (List.range k).map (rowLine block))) := by
  have small := len.toInt_lt
  obtain ⟨text, ⟨clean, length⟩, drawn⟩ := title_drawn room fits
  have read : cstr (text ++ [0]) = .ok text := cstr_append clean
  have width : (text ++ [0]).length = 80 := by rw [List.length_append, length]; rfl
  obtain ⟨s, ⟨k, rows, short⟩, ends⟩ := rows_end (text ++ ascii "\n") size width
  have left := rows.left
  have inside := rows.inside
  have printed : ∀ fuel, block.length < fuel → printLong fuel exp block buf len =
      if s.len ≠ 0 then do
        let line ← lastRow block s
        return some (s.out ++ [line])
      else return some s.out := by
    intro fuel enough
    rw [printLong, drawn, ok_bind, read, ok_bind, ends fuel enough]
    rfl
  by_cases done : s.len = 0
  · have all : block.length = 16 * k := by
      rw [done] at left
      change (0 : ℤ) = _ at left
      omega
    refine ⟨text ++ ascii "\n", k, ⟨by omega, by omega⟩, fun fuel enough => ?_⟩
    rw [printed fuel enough, if_neg (not_not.mpr done), rows.out]
    rfl
  · refine ⟨text ++ ascii "\n", k + 1, ⟨by omega, by omega⟩, fun fuel enough => ?_⟩
    rw [printed fuel enough, if_pos done, rows.last short, ok_bind, rows.out, rows_next]
    rfl

end LongForm

section Dump

variable {junk : Fin 80 → UInt8} {len : Int32}

/-- The dump ends without a fault and shows the block. -/
def Dumped (junk : Fin 80 → UInt8) (headstr exp : CString) (block : List UInt8)
    (len : Int32) : Prop :=
  ∃ lines, (∃ enough, ∀ fuel, enough ≤ fuel →
    printFailmem fuel junk headstr exp (some block) len = .ok (some lines)) ∧ Faithful block lines

theorem less_sixteen (size : len.toInt = block.length) : len < 16 ↔ block.length < 16 := by
  have sixteen : (16 : Int32).toInt = 16 := by decide
  rw [Int32.lt_iff_toInt_lt, size, sixteen]
  omega

private theorem short_dumped (size : len.toInt = block.length) (short : block.length < 16) :
    Dumped junk headstr exp block len := by
  have printed := printShort_prints headstr exp size short (List.length_ofFn (f := junk))
  refine ⟨_, ⟨block.length + 1, fun fuel enough => ?_⟩,
    faithful_short (headstr.chars ++ ascii " " ++ exp.chars) short⟩
  simp only [printFailmem, if_pos ((less_sixteen size).mpr short)]
  exact printed fuel enough

private theorem long_dumped (size : len.toInt = block.length) (long : 16 ≤ block.length)
    (fits : exp.chars.length % 2 ^ 32 < 2 ^ 31) : Dumped junk headstr exp block len := by
  obtain ⟨line, k, ⟨all, small⟩, printed⟩ := printLong_prints size (List.length_ofFn (f := junk))
    fits
  refine ⟨_, ⟨block.length + 1, fun fuel enough => ?_⟩, faithful_rows line long all small⟩
  simp only [printFailmem, if_neg ((less_sixteen size).not.mpr (Nat.not_lt.mpr long))]
  exact printed fuel enough

/-- A text whose length becomes a negative `int` is copied out of bounds. -/
theorem long_faults (size : len.toInt = block.length) (long : 16 ≤ block.length)
    (wraps : 2 ^ 31 ≤ exp.chars.length % 2 ^ 32) : ¬Dumped junk headstr exp block len := by
  rintro ⟨lines, ⟨enough, ends⟩, _⟩
  obtain ⟨fault, faults⟩ := title_faults (List.length_ofFn (f := junk)) (explen_negative wraps)
  have printed := ends enough (Nat.le_refl _)
  simp only [printFailmem, if_neg ((less_sixteen size).not.mpr (Nat.not_lt.mpr long)), printLong,
    faults] at printed
  cases printed

/-- The dump is in bounds and faithful unless the title is given a text whose
length is negative as an `int`. -/
theorem printFailmem_right_iff (headstr exp : CString) (junk : Fin 80 → UInt8) (block : List UInt8)
    (len : Int32) (size : len.toInt = block.length) : Dumped junk headstr exp block len ↔
      block.length < 16 ∨ exp.chars.length % 2 ^ 32 < 2 ^ 31 := by
  by_cases short : block.length < 16
  · exact ⟨fun _ => .inl short, fun _ => short_dumped size short⟩
  · by_cases fits : exp.chars.length % 2 ^ 32 < 2 ^ 31
    · exact ⟨fun _ => .inr fits, fun _ => long_dumped size (Nat.not_lt.mp short) fits⟩
    · have broken : ¬Dumped junk headstr exp block len :=
        long_faults size (Nat.not_lt.mp short) (Nat.not_lt.mp fits)
      exact ⟨fun right => absurd right broken, fun other => absurd other (not_or.mpr ⟨short, fits⟩)⟩

/-- A whole row and two bytes more. -/
theorem printFailmem_right_eighteen : Dumped (fun _ => 0) ⟨ascii "memeq", by decide⟩
    ⟨ascii "block", by decide⟩ (List.replicate 18 65) 18 :=
  (printFailmem_right_iff _ _ _ _ _ (by decide)).mpr (.inr (by decide))

def xs (n : ℕ) : CString where
  chars := List.replicate n 120
  clean := fun member => absurd (List.eq_of_mem_replicate member) (by decide)

private theorem length_xs (n : ℕ) : (xs n).chars.length = n := List.length_replicate

theorem printFailmem_wrong :
    ¬Dumped (fun _ => 0) ⟨ascii "memeq", by decide⟩ (xs (2 ^ 31)) (List.replicate 16 65) 16 := by
  have wraps : 2 ^ 31 ≤ (xs (2 ^ 31)).chars.length % 2 ^ 32 := by
    rw [length_xs]
    decide
  exact long_faults (by decide) (by decide) wraps

end Dump

end Prot.Test.Failmem
