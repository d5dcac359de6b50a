import Mathlib.Data.List.Basic
import Mathlib.Data.Nat.Notation

/-! Terminals that show characters in the rendition that was selected last, by an
escape, a bracket, a decimal parameter and an `m`. -/

namespace Prot.Text

/-- How characters look; without a colour they have the one of the terminal. -/
structure Rendition where
  bold : Bool
  foreground : Option ℕ
  deriving DecidableEq, Repr

namespace Rendition

def plain : Rendition := ⟨false, none⟩

/-- Parameters without a meaning here change nothing. -/
def select (r : Rendition) (parameter : ℕ) : Rendition :=
  if parameter = 0 then plain
  else if parameter = 1 then { r with bold := true }
  else if 30 ≤ parameter ∧ parameter ≤ 37 then { r with foreground := some (parameter - 30) }
  else r

end Rendition

/-- How much of an escape sequence has come. -/
inductive Scan where
  | text
  | escape
  | parameter (value : ℕ)
  deriving DecidableEq, Repr

/-- What comes next, how it will look, and the characters shown so far. -/
structure Screen where
  scan : Scan
  rendition : Rendition
  shown : List (UInt8 × Rendition)
  deriving DecidableEq, Repr

namespace Screen

def blank : Screen := ⟨.text, .plain, []⟩

def digit (c : UInt8) : Bool := decide (48 ≤ c ∧ c ≤ 57)

def receive (s : Screen) (c : UInt8) : Screen :=
  match s.scan with
  | .text =>
    if c = 27 then { s with scan := .escape }
    else { s with shown := s.shown ++ [(c, s.rendition)] }
  | .escape => { s with scan := if c = 91 then .parameter 0 else .text }
  | .parameter value =>
    if digit c then { s with scan := .parameter (value * 10 + (c - 48).toNat) }
    else { s with
      scan := .text
      rendition := if c = 109 then s.rendition.select value else s.rendition }

def feed (s : Screen) (bytes : List UInt8) : Screen := bytes.foldl receive s

def sequence (parameter : List UInt8) : List UInt8 := 27 :: 91 :: parameter ++ [109]

def number (parameter : List UInt8) (value : ℕ) : ℕ :=
  parameter.foldl (fun value c => value * 10 + (c - 48).toNat) value

variable {s : Screen} {r : Rendition} {shown : List (UInt8 × Rendition)}
variable {bytes more parameter : List UInt8} {value : ℕ}

theorem feed_append : feed s (bytes ++ more) = feed (feed s bytes) more := List.foldl_append

theorem feed_text (clean : 27 ∉ bytes) :
    feed ⟨.text, r, shown⟩ bytes = ⟨.text, r, shown ++ bytes.map fun c => (c, r)⟩ := by
  induction bytes generalizing shown with
  | nil => simp [feed]
  | cons c rest ih =>
    have plain : c ≠ 27 := fun same => clean (same ▸ List.mem_cons_self)
    have onwards : feed ⟨.text, r, shown ++ [(c, r)]⟩ rest = _ :=
      ih fun member => clean (List.mem_cons_of_mem c member)
    rw [List.append_assoc] at onwards
    simpa [feed, receive, plain] using onwards

private theorem feed_parameter (digits : parameter.all digit = true) :
    feed ⟨.parameter value, r, shown⟩ (parameter ++ [109]) =
      ⟨.text, r.select (number parameter value), shown⟩ := by
  induction parameter generalizing value with
  | nil => rfl
  | cons c rest ih =>
    rw [List.all_cons, Bool.and_eq_true] at digits
    rw [List.cons_append, feed, List.foldl_cons, receive]
    simp only [digits.1, if_true]
    exact ih digits.2

/-- A sequence shows nothing and selects its rendition. -/
theorem feed_sequence (digits : parameter.all digit = true) :
    feed ⟨.text, r, shown⟩ (sequence parameter) =
      ⟨.text, r.select (number parameter 0), shown⟩ :=
  feed_parameter digits

end Screen

end Prot.Text
