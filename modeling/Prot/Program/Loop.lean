import Mathlib.Data.Nat.Notation

/-! Loops that may fail: their rounds, and the rule of an invariant with a rank. -/

namespace Prot.Program

universe u
variable {Fault : Type u} {State : Type u} {Result : Type u}

/-- Repeat a round until it leaves the loop with a result; `none` when more than
`fuel` rounds would be needed. -/
def loop (round : State → Except Fault (State ⊕ Result)) : ℕ → State → Except Fault (Option Result)
  | 0, _ => .ok none
  | fuel + 1, s => match round s with
    | .error fault => .error fault
    | .ok (.inl next) => loop round fuel next
    | .ok (.inr result) => .ok (some result)

variable {round : State → Except Fault (State ⊕ Result)} {s : State}

/-- Rounds that keep the invariant and lower the rank come to an end, without a
fault, and what then holds was left by the last of them. -/
theorem loop_ends (invariant : State → Prop) (post : Result → Prop) (rank : State → ℕ)
    (rounds : ∀ s, invariant s →
      (∃ next, round s = .ok (.inl next) ∧ invariant next ∧ rank next < rank s) ∨
        ∃ result, round s = .ok (.inr result) ∧ post result)
    (start : invariant s) :
    ∃ result, post result ∧ ∀ fuel, rank s < fuel → loop round fuel s = .ok (some result) := by
  induction bound : rank s using Nat.strongRecOn generalizing s with
  | ind n ih =>
    rcases rounds s start with ⟨next, goes, kept, less⟩ | ⟨result, leaves, holds⟩
    · obtain ⟨result, holds, ends⟩ := ih (rank next) (bound ▸ less) kept rfl
      refine ⟨result, holds, fun fuel enough => ?_⟩
      cases fuel with
      | zero => cases enough
      | succ fuel =>
        simp only [loop, goes]
        exact ends fuel (by omega)
    · refine ⟨result, holds, fun fuel enough => ?_⟩
      cases fuel with
      | zero => cases enough
      | succ fuel => simp only [loop, leaves]

end Prot.Program
