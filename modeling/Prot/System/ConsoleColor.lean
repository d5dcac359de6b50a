import Prot.System.Console
import Prot.Text.Rendition

/-! `console.hh`: the colours, and what `console_linux.cpp` writes to the three files
for them. -/

namespace Prot.System.Console

open Text

inductive Color where
  | black
  | white
  | darkWhite
  | darkBlack
  | red
  | green
  | blue
  | yellow
  | pink
  | cyan
  | darkRed
  | darkGreen
  | darkBlue
  | darkYellow
  | darkPink
  | darkCyan
  deriving DecidableEq, Repr

/-- `\033[1m` and `\033[3nm`, where `digit` is the character of `n`. -/
def brightCode (digit : UInt8) : List UInt8 := Screen.sequence [49] ++ Screen.sequence [51, digit]

def darkCode (digit : UInt8) : List UInt8 := Screen.sequence [51, digit]

def colTb : Color → List UInt8
  | .black => brightCode 48
  | .white => brightCode 55
  | .darkWhite => darkCode 55
  | .darkBlack => darkCode 48
  | .red => brightCode 49
  | .green => brightCode 50
  | .blue => brightCode 52
  | .yellow => brightCode 51
  | .pink => brightCode 53
  | .cyan => brightCode 54
  | .darkRed => darkCode 49
  | .darkGreen => darkCode 50
  | .darkBlue => darkCode 52
  | .darkYellow => darkCode 51
  | .darkPink => darkCode 53
  | .darkCyan => darkCode 54

def resetCode : List UInt8 := Screen.sequence [48]

/-- The tables, and what has been written to each file. -/
structure Session where
  answers : State
  curCol : STDFILE → Color
  written : STDFILE → List UInt8

def Session.start : Session := ⟨Console.start, fun _ => .darkWhite, fun _ => []⟩

/-- The calls, each with the text that its format makes. -/
inductive Op where
  | setTextColor (color : Color) (stdev : STDFILE)
  | printF (text : List UInt8)
  | ePrintF (text : List UInt8)
  | fPrintF (stdev : STDFILE) (text : List UInt8)
  | cfPrintF (color : Color) (stdev : STDFILE) (text : List UInt8)
  deriving DecidableEq, Repr

def Session.write (s : Session) (stdev : STDFILE) (bytes : List UInt8) : Session :=
  { s with written := Function.update s.written stdev (s.written stdev ++ bytes) }

/-- The condition `bSet`; a terminal is asked only for a colour other than the usual. -/
def Session.set (terminal : STDFILE → Terminal) (s : Session) (color : Color) (stdev : STDFILE) :
    Session × Bool :=
  if color = .darkWhite then (s, false)
  else
    let (answers, bs) := isStdTermSupportColorOutput s.answers stdev (terminal stdev)
    ({ s with answers := answers }, bs)

def Session.setTextColor (s : Session) (color : Color) (stdev : STDFILE) : Session × Color :=
  let old := s.curCol stdev
  if color ≠ old then ({ s with curCol := Function.update s.curCol stdev color }, old) else (s, old)

def Session.cfPrintF (terminal : STDFILE → Terminal) (s : Session) (color : Color) (stdev : STDFILE)
    (text : List UInt8) : Session :=
  let (s, bSet) := s.set terminal color stdev
  if bSet then ((s.write stdev (colTb color)).write stdev text).write stdev resetCode
  else s.write stdev text

def Session.run (terminal : STDFILE → Terminal) (s : Session) : Op → Session
  | .setTextColor color stdev => (s.setTextColor color stdev).1
  | .printF text => s.write .stdOut text
  | .ePrintF text => s.write .stdErr text
  | .fPrintF stdev text => s.write stdev text
  | .cfPrintF color stdev text => s.cfPrintF terminal color stdev text

/-- How a colour looks on a terminal. -/
def Color.rendition : Color → Rendition
  | .black => ⟨true, some 0⟩
  | .white => ⟨true, some 7⟩
  | .darkWhite => .plain
  | .darkBlack => ⟨false, some 0⟩
  | .red => ⟨true, some 1⟩
  | .green => ⟨true, some 2⟩
  | .blue => ⟨true, some 4⟩
  | .yellow => ⟨true, some 3⟩
  | .pink => ⟨true, some 5⟩
  | .cyan => ⟨true, some 6⟩
  | .darkRed => ⟨false, some 1⟩
  | .darkGreen => ⟨false, some 2⟩
  | .darkBlue => ⟨false, some 4⟩
  | .darkYellow => ⟨false, some 3⟩
  | .darkPink => ⟨false, some 5⟩
  | .darkCyan => ⟨false, some 6⟩

/-- The text of a call for a file, and the colour it asks for. -/
def Op.piece (stdev : STDFILE) : Op → List UInt8 × Color
  | .setTextColor _ _ => ([], .darkWhite)
  | .printF text => if stdev = .stdOut then (text, .darkWhite) else ([], .darkWhite)
  | .ePrintF text => if stdev = .stdErr then (text, .darkWhite) else ([], .darkWhite)
  | .fPrintF d text => if stdev = d then (text, .darkWhite) else ([], .darkWhite)
  | .cfPrintF color d text => if stdev = d then (text, color) else ([], .darkWhite)

def coded (bSet : Bool) (piece : List UInt8 × Color) : List UInt8 :=
  if bSet && piece.2 ≠ .darkWhite then colTb piece.2 ++ piece.1 ++ resetCode else piece.1

/-- How a piece should look. -/
def look (colored : Bool) (piece : List UInt8 × Color) : List (UInt8 × Rendition) :=
  piece.1.map fun c => (c, if colored then piece.2.rendition else .plain)

section Codes

variable {color : Color} {text : List UInt8} {bSet : Bool} {shown : List (UInt8 × Rendition)}

private theorem feed_colTb (other : color ≠ .darkWhite) :
    Screen.feed ⟨.text, .plain, shown⟩ (colTb color) = ⟨.text, color.rendition, shown⟩ := by
  cases color <;>
    first
    | exact absurd rfl other
    | simp only [colTb, brightCode, darkCode, Screen.feed_append]
      repeat rw [Screen.feed_sequence (by decide)]
      rfl

private theorem feed_coded {piece : List UInt8 × Color} (clean : 27 ∉ piece.1) :
    Screen.feed ⟨.text, .plain, shown⟩ (coded bSet piece) =
      ⟨.text, .plain, shown ++ look bSet piece⟩ := by
  obtain ⟨text, color⟩ := piece
  cases bSet with
  | false => exact Screen.feed_text clean
  | true =>
    by_cases usual : color = .darkWhite
    · subst usual
      exact Screen.feed_text clean
    · have set : (true && decide (color ≠ .darkWhite)) = true := by simp [usual]
      rw [coded, if_pos set, Screen.feed_append, Screen.feed_append, feed_colTb usual,
        Screen.feed_text clean, resetCode, Screen.feed_sequence (by decide)]
      rfl

theorem coded_usual : coded bSet (text, .darkWhite) = text := by simp [coded]

private theorem coded_set (set : (bSet && decide (color ≠ .darkWhite)) = true) :
    coded bSet (text, color) = colTb color ++ text ++ resetCode := if_pos set

private theorem coded_unset (unset : (bSet && decide (color ≠ .darkWhite)) ≠ true) :
    coded bSet (text, color) = text := if_neg unset

end Codes

section Runs

variable {terminal : STDFILE → Terminal} {s : Session} {tables : State} {op : Op} {stdev : STDFILE}

/-- The kept answer for a file is right, or the terminal is asked at the next call. -/
def Settled (terminal : STDFILE → Terminal) (tables : State) (stdev : STDFILE) : Prop :=
  asks (tables.sttcnt stdev) = true ∨
    isTermSupportColorOutput (terminal stdev) = tables.sttsco stdev

private theorem start_settled (stdev : STDFILE) : Settled terminal Session.start.answers stdev := by
  have first : asks 0 = true := by decide
  exact .inl first

private theorem answer_settled (settled : ∀ stdev, Settled terminal tables stdev)
    (stdev : STDFILE) :
    (isStdTermSupportColorOutput tables stdev (terminal stdev)).2 =
        isTermSupportColorOutput (terminal stdev) ∧
      ∀ other, Settled terminal (isStdTermSupportColorOutput tables stdev (terminal stdev)).1 other := by
  by_cases old : asks (tables.sttcnt stdev) = true →
      isTermSupportColorOutput (terminal stdev) = tables.sttsco stdev
  · have right : isTermSupportColorOutput (terminal stdev) = tables.sttsco stdev :=
      (settled stdev).elim old id
    rw [kept_eq old]
    refine ⟨right.symm, fun other => ?_⟩
    by_cases same : other = stdev
    · subst same
      exact .inr right
    · exact (settled other).imp_left fun asking =>
        (congrArg asks (Function.update_of_ne same ..)).trans asking
  · obtain ⟨asking, new⟩ := Classical.not_imp.mp old
    have flips := Bool.eq_not.mpr new
    rw [flipped_eq asking flips]
    refine ⟨flips.symm, fun other => ?_⟩
    by_cases same : other = stdev
    · subst same
      refine .inr (flips.trans ?_)
      simp [State.flipped]
    · refine (settled other).imp (fun asking => ?_) fun right => ?_
      · exact (congrArg asks (Function.update_of_ne same ..)).trans asking
      · exact right.trans (Function.update_of_ne same ..).symm

private theorem set_settled (settled : ∀ stdev, Settled terminal s.answers stdev) (color : Color)
    (stdev : STDFILE) : (s.set terminal color stdev).2 =
        (isTermSupportColorOutput (terminal stdev) && decide (color ≠ .darkWhite)) ∧
      (s.set terminal color stdev).1.written = s.written ∧
      ∀ other, Settled terminal (s.set terminal color stdev).1.answers other := by
  obtain ⟨answer, kept⟩ := answer_settled settled stdev
  unfold Session.set
  by_cases usual : color = .darkWhite
  · rw [if_pos usual]
    exact ⟨by simp [usual], rfl, settled⟩
  · rw [if_neg usual]
    exact ⟨by simp [usual, answer], rfl, kept⟩

theorem write_written (s : Session) (stdev other : STDFILE) (bytes : List UInt8) :
    (s.write stdev bytes).written other =
      s.written other ++ if other = stdev then bytes else [] := by
  by_cases same : other = stdev
  · subst same
    simp [Session.write]
  · simp [Session.write, same]

/-- One call. -/
theorem run_written (settled : ∀ stdev, Settled terminal s.answers stdev) (op : Op) :
    (∀ stdev, Settled terminal (s.run terminal op).answers stdev) ∧
      ∀ stdev, (s.run terminal op).written stdev = s.written stdev ++
        coded (isTermSupportColorOutput (terminal stdev)) (op.piece stdev) := by
  have elsewhere (stdev d : STDFILE) (text : List UInt8) : (s.write d text).written stdev =
      s.written stdev ++ coded (isTermSupportColorOutput (terminal stdev))
        (if stdev = d then (text, .darkWhite) else ([], .darkWhite)) := by
    rw [write_written]
    split <;> rw [coded_usual]
  cases op with
  | setTextColor color d =>
    have kept : ((s.setTextColor color d).1.answers = s.answers) ∧
        (s.setTextColor color d).1.written = s.written := by
      simp only [Session.setTextColor]
      split <;> exact ⟨rfl, rfl⟩
    refine ⟨fun stdev => ?_, fun stdev => ?_⟩
    · exact kept.1 ▸ settled stdev
    · rw [Session.run, kept.2, Op.piece, coded_usual, List.append_nil]
  | printF text => exact ⟨settled, fun stdev => elsewhere stdev .stdOut text⟩
  | ePrintF text => exact ⟨settled, fun stdev => elsewhere stdev .stdErr text⟩
  | fPrintF d text => exact ⟨settled, fun stdev => elsewhere stdev d text⟩
  | cfPrintF color d text =>
    obtain ⟨answer, written, kept⟩ := set_settled settled color d
    simp only [Session.run, Session.cfPrintF, answer]
    by_cases set : (isTermSupportColorOutput (terminal d) && decide (color ≠ .darkWhite)) = true
    · rw [if_pos set]
      refine ⟨kept, fun stdev => ?_⟩
      rw [write_written, write_written, write_written, written, Op.piece]
      by_cases same : stdev = d
      · subst same
        simp only [if_true, coded_set set, List.append_assoc]
      · simp only [same, if_false, coded_usual, List.append_nil]
    · rw [if_neg set]
      refine ⟨kept, fun stdev => ?_⟩
      rw [write_written, written, Op.piece]
      by_cases same : stdev = d
      · subst same
        simp only [if_true, coded_unset set]
      · simp only [same, if_false, coded_usual]

/-- Any calls, one after another. -/
theorem runs_written (settled : ∀ stdev, Settled terminal s.answers stdev) (ops : List Op)
    (stdev : STDFILE) : (ops.foldl (Session.run terminal) s).written stdev = s.written stdev ++
      ops.flatMap fun op => coded (isTermSupportColorOutput (terminal stdev)) (op.piece stdev) := by
  induction ops generalizing s with
  | nil => simp
  | cons op rest ih =>
    obtain ⟨kept, written⟩ := run_written settled op
    rw [List.foldl_cons, ih kept, written, List.append_assoc, List.flatMap_cons]

private theorem feed_pieces {colored : Bool} {pieces : List (List UInt8 × Color)}
    {shown : List (UInt8 × Rendition)} (clean : ∀ piece ∈ pieces, 27 ∉ piece.1) :
    Screen.feed ⟨.text, .plain, shown⟩ (pieces.flatMap (coded colored)) =
      ⟨.text, .plain, shown ++ pieces.flatMap (look colored)⟩ := by
  induction pieces generalizing shown with
  | nil => simp [Screen.feed]
  | cons piece rest ih =>
    rw [List.flatMap_cons, Screen.feed_append, feed_coded (clean piece List.mem_cons_self),
      ih fun later member => clean later (List.mem_cons_of_mem piece member), List.append_assoc,
      List.flatMap_cons]

end Runs

end Prot.System.Console
