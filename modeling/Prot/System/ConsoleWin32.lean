import Prot.System.ConsoleColor

/-! `console_win32.cpp`: the colours are attributes of the screens behind the three
files, and a table holds the colour that was last set for each file. -/

namespace Prot.System.ConsoleWin32

open Concurrency Console

def foregroundBlue : UInt16 := 1
def foregroundGreen : UInt16 := 2
def foregroundRed : UInt16 := 4
def foregroundIntensity : UInt16 := 8

/-- `_PCON_COLTB`. -/
def colTb : Color → UInt16
  | .black => 0
  | .white => foregroundRed ||| foregroundGreen ||| foregroundBlue ||| foregroundIntensity
  | .darkWhite => foregroundRed ||| foregroundGreen ||| foregroundBlue
  | .darkBlack => foregroundIntensity
  | .red => foregroundIntensity ||| foregroundRed
  | .green => foregroundIntensity ||| foregroundGreen
  | .blue => foregroundIntensity ||| foregroundBlue
  | .yellow => foregroundIntensity ||| foregroundRed ||| foregroundGreen
  | .pink => foregroundIntensity ||| foregroundRed ||| foregroundBlue
  | .cyan => foregroundIntensity ||| foregroundGreen ||| foregroundBlue
  | .darkRed => foregroundRed
  | .darkGreen => foregroundGreen
  | .darkBlue => foregroundBlue
  | .darkYellow => foregroundRed ||| foregroundGreen
  | .darkPink => foregroundRed ||| foregroundBlue
  | .darkCyan => foregroundGreen ||| foregroundBlue

/-- `_PCON_CURCOL`, and the attribute with which each screen shows what comes next. -/
structure State (Screen : Type) where
  curCol : STDFILE → Color
  textAttribute : Screen → UInt16

variable {Screen : Type} [DecidableEq Screen]

def start (textAttribute : Screen → UInt16) : State Screen := ⟨fun _ => .darkWhite, textAttribute⟩

/-- `SetConsoleTextAttribute`, which fails for a file without a screen behind it. -/
def State.setAttribute (handle : STDFILE → Option Screen) (s : State Screen) (stdev : STDFILE)
    (textAttribute : UInt16) : State Screen :=
  match handle stdev with
  | none => s
  | some screen => { s with textAttribute := Function.update s.textAttribute screen textAttribute }

def State.setTextColor (handle : STDFILE → Option Screen) (s : State Screen) (color : Color)
    (stdev : STDFILE) : State Screen × Color :=
  let old := s.curCol stdev
  if color ≠ old then
    ({ s.setAttribute handle stdev (colTb color) with
      curCol := Function.update s.curCol stdev color }, old)
  else (s, old)

def State.opened (handle : STDFILE → Option Screen) (s : State Screen) (color : Color)
    (stdev : STDFILE) : State Screen :=
  if color ≠ s.curCol stdev then s.setAttribute handle stdev (colTb color) else s

def State.closed (handle : STDFILE → Option Screen) (s : State Screen) (color : Color)
    (stdev : STDFILE) : State Screen :=
  if color ≠ s.curCol stdev then s.setAttribute handle stdev (colTb (s.curCol stdev)) else s

def step (handle : STDFILE → Option Screen) (s : State Screen) : Op → Option (State Screen)
  | .setTextColor color stdev => some (s.setTextColor handle color stdev).1
  | .printF _ | .ePrintF _ | .fPrintF _ _ => some s
  | .cfPrintF color stdev _ => some ((s.opened handle color stdev).closed handle color stdev)

/-- The attribute with which a text is shown, and the colour it should have. -/
structure Shown where
  textAttribute : UInt16
  asked : Color
  deriving DecidableEq, Repr

def shows (handle : STDFILE → Option Screen) (s : State Screen) : Op → Option Shown
  | .setTextColor _ _ => none
  | .printF _ => (handle .stdOut).map fun screen => ⟨s.textAttribute screen, s.curCol .stdOut⟩
  | .ePrintF _ => (handle .stdErr).map fun screen => ⟨s.textAttribute screen, s.curCol .stdErr⟩
  | .fPrintF stdev _ => (handle stdev).map fun screen => ⟨s.textAttribute screen, s.curCol stdev⟩
  | .cfPrintF color stdev _ =>
    (handle stdev).map fun screen => ⟨(s.opened handle color stdev).textAttribute screen, color⟩

/-- Whatever is printed next is shown in the colour it should have. -/
def Faithful (handle : STDFILE → Option Screen) (s : State Screen) : Prop :=
  ∀ op shown, shows handle s op = some shown → shown.textAttribute = colTb shown.asked

/-- The table is right about the screens. -/
def Agree (handle : STDFILE → Option Screen) (s : State Screen) : Prop :=
  ∀ stdev screen, handle stdev = some screen → s.textAttribute screen = colTb (s.curCol stdev)

/-- A colour is set for a file that has its screen for itself, or has none. -/
def Alone (handle : STDFILE → Option Screen) (s : State Screen) : Op → Prop
  | .setTextColor color stdev => color = s.curCol stdev ∨ handle stdev = none ∨
      ∀ other, handle other = handle stdev → other = stdev
  | .printF _ | .ePrintF _ | .fPrintF _ _ | .cfPrintF _ _ _ => True

variable {handle : STDFILE → Option Screen} {s s' : State Screen} {op : Op} {color : Color}
variable {stdev : STDFILE} {screen : Screen} {ops : List Op}

private theorem colTb_injective : Function.Injective colTb := by
  intro color other
  cases color <;> cases other <;> decide

private theorem opened_attribute (agree : Agree handle s) (there : handle stdev = some screen) :
    (s.opened handle color stdev).textAttribute screen = colTb color := by
  unfold State.opened
  split
  · simp [State.setAttribute, there]
  · rename_i same
    rw [agree stdev screen there, not_not.mp same]

/-- Where the table is right `CFPrintF` leaves everything as it found it. -/
theorem cfPrintF_restores (agree : Agree handle s) (color : Color) (stdev : STDFILE) :
    (s.opened handle color stdev).closed handle color stdev = s := by
  unfold State.opened
  split
  · rename_i other
    cases there : handle stdev with
    | none => simp [State.closed, State.setAttribute, there]
    | some screen =>
      simp only [State.closed, State.setAttribute, there, if_pos other, Function.update_idem,
        ← agree stdev screen there, Function.update_eq_self]
  · rename_i same
    rw [State.closed, if_neg same]

private theorem faithful_iff : Faithful handle s ↔ Agree handle s := by
  constructor
  · intro faithful stdev screen there
    exact faithful (.fPrintF stdev []) ⟨s.textAttribute screen, s.curCol stdev⟩ (by simp [shows, there])
  · intro agree op shown printed
    cases op with
    | setTextColor color stdev => cases printed
    | cfPrintF color stdev text =>
      obtain ⟨screen, there, rfl⟩ := Option.map_eq_some_iff.mp printed
      exact opened_attribute agree there
    | printF | ePrintF | fPrintF =>
      obtain ⟨screen, there, rfl⟩ := Option.map_eq_some_iff.mp printed
      exact agree _ screen there

/-- A new colour for a file makes the table wrong about the other files that have its
screen. -/
theorem setTextColor_agree_iff (agree : Agree handle s) (other : color ≠ s.curCol stdev) :
    Agree handle (s.setTextColor handle color stdev).1 ↔
      handle stdev = none ∨ ∀ d, handle d = handle stdev → d = stdev := by
  rw [State.setTextColor, if_pos other]
  cases there : handle stdev with
  | none =>
    refine iff_of_true (fun d screen has => ?_) (.inl rfl)
    have apart : d ≠ stdev := by
      rintro rfl
      rw [there] at has
      cases has
    simpa [State.setAttribute, there, apart] using agree d screen has
  | some screen =>
    have usual := agree stdev screen there
    simp only [State.setAttribute, there]
    constructor
    · intro kept
      refine .inr fun d shares => ?_
      by_contra apart
      have now := kept d screen shares
      simp only [Function.update_self, Function.update_of_ne apart] at now
      have before := agree d screen shares
      exact other (colTb_injective (now.trans (before.symm.trans usual)))
    · rintro (absent | single) d screen' has
      · cases absent
      · by_cases same : screen' = screen
        · subst same
          obtain rfl := single d has
          simp
        · have apart : d ≠ stdev := by
            rintro rfl
            exact same (Option.some.inj (has.symm.trans there))
          simpa [same, apart] using agree d screen' has

theorem step_agree_iff (agree : Agree handle s) (taken : step handle s op = some s') :
    Agree handle s' ↔ Alone handle s op := by
  cases op with
  | setTextColor color stdev =>
    cases taken
    by_cases same : color = s.curCol stdev
    · refine iff_of_true ?_ (.inl same)
      rw [State.setTextColor, if_neg (not_not_intro same)]
      exact agree
    · rw [setTextColor_agree_iff agree same]
      exact (or_iff_right same).symm
  | printF | ePrintF | fPrintF =>
    cases taken
    exact iff_of_true agree trivial
  | cfPrintF color stdev text =>
    cases taken
    rw [cfPrintF_restores agree]
    exact iff_of_true agree trivial

/-- On screens that begin as the table says, every text is shown in the colour it should
have exactly as long as no new colour is set for a file whose screen another file has,
too. Until then printing leaves no trace in the table and on the screens. -/
theorem colors_faithful_iff (handle : STDFILE → Option Screen) (textAttribute : Screen → UInt16)
    (usual : ∀ stdev screen, handle stdev = some screen → textAttribute screen = colTb .darkWhite)
    (ops : List Op) :
    (Always (step handle) (Faithful handle) (start textAttribute) ops ↔
      Meets (step handle) (Alone handle) (start textAttribute) ops) ∧
    (Meets (step handle) (Alone handle) (start textAttribute) ops →
      ∀ s, exec (step handle) (start textAttribute) ops = some s →
        ∀ color stdev text, step handle s (.cfPrintF color stdev text) = some s) := by
  have first : Agree handle (start textAttribute) := usual
  refine ⟨?_, fun alone s ran color stdev text => ?_⟩
  · rw [show Faithful handle = Agree handle from funext fun s => propext faithful_iff]
    exact always_iff_meets (fun _ => True) (fun _ _ _ _ _ => trivial)
      (fun _ _ _ _ agree taken => step_agree_iff agree taken) trivial first
  · have agree : Agree handle s := exec_invariant_of_meets (Agree handle)
      (fun _ _ _ agree alone taken => (step_agree_iff agree taken).mpr alone) first alone ran
    exact congrArg some (cfPrintF_restores agree color stdev)

def bothOutputs (stdev : STDFILE) : Option Unit := if stdev = .stdIn then none else some ()

theorem colors_faithful_iff_bothOutputs :
    Always (step bothOutputs) (Faithful bothOutputs) (start fun _ => 7)
        [.cfPrintF .green .stdOut [], .setTextColor .red .stdIn, .ePrintF []] ∧
      ¬ Always (step bothOutputs) (Faithful bothOutputs) (start fun _ => 7)
        [.cfPrintF .green .stdOut [], .setTextColor .red .stdErr, .ePrintF []] := by
  have usual : ∀ stdev screen, bothOutputs stdev = some screen → (7 : UInt16) = colTb .darkWhite :=
    fun _ _ _ => by decide
  constructor
  · refine (colors_faithful_iff bothOutputs (fun _ => 7) usual _).1.mpr fun s taken => ?_
    exact ⟨trivial, fun s taken => ⟨.inr (.inl rfl), fun s taken => ⟨trivial, trivial⟩⟩⟩
  · intro always
    have alone := (colors_faithful_iff bothOutputs (fun _ => 7) usual _).1.mp always
    obtain ⟨_, further⟩ := alone _ rfl
    obtain ⟨single, _⟩ := further _ rfl
    rcases single with same | absent | apart
    · revert same
      decide
    · cases absent
    · exact absurd (apart .stdOut rfl) (by decide)

end Prot.System.ConsoleWin32
