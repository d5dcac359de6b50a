import Prot.Test.RunnerPhases

/-! The runner comes to an end: every step lowers a rank, and somebody can move
until it has returned. -/

namespace Prot.Test.Runner

open Concurrency Memory

variable {Worker Case : Type} [Fintype Worker] [DecidableEq Worker]
variable [Fintype Case] [DecidableEq Case]

def Pc.rank : Pc Case → ℕ
  | .done => 0
  | .post => 1
  | .fetched none => 2
  | .fetch | .pushLeft _ | .testFunc _ | .record _ => 3
  | .fetched (some _) => 4

def Place.rank : Place Worker → ℕ
  | .absent | .passed | .single | .collected => 0
  | .testing | .failed => 1
  | .ready | .tested _ => 2
  | .left => 3
  | .held _ => 4
  | .queued => 5

def Main.rank (lines : ℕ) : Main Case → ℕ
  | .returned _ => 0
  | .collect => 1
  | .test _ | .record _ => 2
  | .rearrange => 3
  | .join i => lines - i + 4

/-- A worker takes at most one step more to move a case on than it had left. -/
def State.rank (lines : ℕ) (s : State Worker Case) : ℕ :=
  2 * total Place.rank s.place + total Pc.rank s.worker + s.main.rank lines

variable {cases : List Case} {s s' : State Worker Case} {c : Case} {w : Worker}
variable {lines i : ℕ} {action : Action Worker} {p : Place Worker} {here : Pc Case}

omit [DecidableEq Case] in
/-- A worker that only moves on. -/
theorem rank_goto (lower : here.rank < (s.worker w).rank) :
    (s.goto w here).rank lines < s.rank lines := by
  have moved := total_update Pc.rank s.worker w here
  change 2 * total Place.rank s.place + total Pc.rank (Function.update s.worker w here) +
    s.main.rank lines < 2 * total Place.rank s.place + total Pc.rank s.worker + s.main.rank lines
  omega

/-- A worker that moves a case on. -/
theorem rank_carry (place : s'.place = Function.update s.place c p)
    (worker : s'.worker = Function.update s.worker w here) (main : s'.main = s.main)
    (lower : 2 * p.rank + here.rank < 2 * (s.place c).rank + (s.worker w).rank) :
    s'.rank lines < s.rank lines := by
  have carried := total_update Place.rank s.place c p
  have moved := total_update Pc.rank s.worker w here
  rw [State.rank, State.rank, place, worker, main]
  omega

omit [DecidableEq Worker] in
/-- The runner moves a case on, and itself no further back. -/
theorem rank_put (place : s'.place = Function.update s.place c p) (worker : s'.worker = s.worker)
    (main : s'.main.rank lines ≤ s.main.rank lines) (lower : p.rank < (s.place c).rank) :
    s'.rank lines < s.rank lines := by
  have carried := total_update Place.rank s.place c p
  rw [State.rank, State.rank, place, worker]
  omega

omit [DecidableEq Worker] [DecidableEq Case] in
/-- The runner goes on to its next loop. -/
theorem rank_main (place : s'.place = s.place) (worker : s'.worker = s.worker)
    (lower : s'.main.rank lines < s.main.rank lines) : s'.rank lines < s.rank lines := by
  rw [State.rank, State.rank, place, worker]
  omega

private theorem record_rank (inv : Invariant cases s) (at_ : s.worker w = .record c) :
    (s.record w c).rank lines < s.rank lines := by
  have tested : s.place c = .tested w := inv.place_of_hand (by rw [at_]; rfl)
  unfold State.record
  cases s.fails c with
  | true =>
    refine rank_carry (c := c) (p := .failed) (w := w) rfl rfl rfl ?_
    rw [at_, tested]
    simp [Place.rank, Pc.rank]
  | false =>
    refine rank_carry (c := c) (p := .passed) (w := w) rfl rfl rfl ?_
    rw [at_, tested]
    simp [Place.rank, Pc.rank]

/-- Every step lowers the rank. -/
theorem Effect.rank_lt (effect : Effect lines s action s') (inv : Invariant cases s) :
    s'.rank lines < s.rank lines := by
  cases effect with
  | fetchNone w here empty => exact rank_goto (by simp [here, Pc.rank])
  | fetchSome w c here first =>
    obtain ⟨i, _, joining, _⟩ := inv.joining (w := w) (by simp [here])
    have queued := joining.queue.first first
    refine rank_carry (c := c) (p := .held w) (w := w) rfl rfl rfl ?_
    rw [here, queued]
    simp [Place.rank, Pc.rank]
  | leave w c here last =>
    apply rank_goto
    rw [here]
    cases c <;> simp [Pc.rank]
  | sort w c here on =>
    apply rank_goto
    rw [here]
    cases (s.result c).standalone <;> simp [Pc.rank]
  | pushLeft w c here =>
    have held : s.place c = .held w := inv.place_of_hand (by rw [here]; rfl)
    refine rank_carry (c := c) (p := .left) (w := w) rfl rfl rfl ?_
    rw [here, held]
    simp [Place.rank, Pc.rank]
  | testFunc w c o here =>
    have held : s.place c = .held w := inv.place_of_hand (by rw [here]; rfl)
    refine rank_carry (c := c) (p := .tested w) (w := w) rfl rfl rfl ?_
    rw [here, held]
    simp [Place.rank, Pc.rank]
  | record w c here => exact record_rank inv here
  | post w here => exact rank_goto (s := s) (by simp [here, Pc.rank])
  | wait i here more token =>
    refine rank_main rfl rfl ?_
    rw [here]
    change lines - (i + 1) + 4 < lines - i + 4
    omega
  | joined i here all =>
    refine rank_main rfl rfl ?_
    rw [here]
    change (if s.breakout then Main.collect else Main.rearrange : Main Case).rank lines < lines - i + 4
    split <;> simp [Main.rank]
  | rearrange c here first =>
    have left := (inv.at_main here).1.left.first first
    refine rank_put (c := c) (p := .ready) rfl rfl (Nat.le_refl _) ?_
    rw [left]
    simp [Place.rank]
  | rearranged here empty =>
    refine rank_main rfl rfl ?_
    rw [here]
    exact Nat.lt_succ_self 2
  | testEnd here =>
    refine rank_main rfl rfl ?_
    rw [here]
    exact Nat.lt_succ_self 1
  | singleTest c o here =>
    have ready := (inv.at_main here).1.rest.pop.1
    refine rank_put (c := c) (p := .testing) rfl rfl ?_ ?_
    · rw [here]
      exact Nat.le_refl 2
    · rw [ready]
      simp [Place.rank]
  | singleRecord c here =>
    have testing := ((inv.at_main here).1.this c).mpr rfl
    have lower : (Place.single : Place Worker).rank < (s.place c).rank := by
      rw [testing]
      simp [Place.rank]
    rcases s.singleRecord_eq c with ⟨_, same⟩ | same <;> rw [same]
    · refine rank_put (c := c) rfl rfl ?_ lower
      rw [here]
      exact Nat.le_succ 1
    · refine rank_put (c := c) rfl rfl ?_ lower
      rw [here]
      exact Nat.le_refl 2
  | collect c here first =>
    have failed := (inv.at_main here).1.fail.first first
    refine rank_put (c := c) (p := .collected) rfl rfl (Nat.le_refl _) ?_
    rw [failed]
    simp [Place.rank]
  | collected here empty =>
    refine rank_main rfl rfl ?_
    rw [here]
    exact Nat.lt_succ_self 0

omit [Fintype Worker] [Fintype Case] in
/-- A worker that has not posted can take a step. -/
theorem worker_moves (busy : s.worker w ≠ .done) : ∃ action s', step lines s action = some s' := by
  cases here : s.worker w with
  | testFunc c =>
    refine ⟨.workerTests w ⟨0, false, false⟩, Option.isSome_iff_exists.mp ?_⟩
    rw [step, here]
    rfl
  | fetch | pushLeft c | record c | post =>
    refine ⟨.worker w, Option.isSome_iff_exists.mp ?_⟩
    rw [step, State.workerNext, here]
    rfl
  | fetched c =>
    refine ⟨.worker w, Option.isSome_iff_exists.mp ?_⟩
    rw [step, State.workerNext, here]
    cases c with
    | none => rfl
    | some c => cases s.breakout <;> rfl
  | done => exact absurd here busy

/-- Until the runner has returned, somebody can take a step. -/
theorem Invariant.moves (inv : Invariant cases s) (running : ∀ ptest, s.main ≠ .returned ptest) :
    ∃ action s', step (Fintype.card Worker) s action = some s' := by
  cases main : s.main with
  | join i =>
    by_cases all : Fintype.card Worker ≤ i
    · refine ⟨.main, Option.isSome_iff_exists.mp ?_⟩
      rw [step, State.mainNext, main]
      simp [Nat.not_lt.mpr all]
    · by_cases token : 0 < s.semlock
      · refine ⟨.main, Option.isSome_iff_exists.mp ?_⟩
        rw [step, State.mainNext, main]
        simp [Nat.not_le.mp all, token]
      · -- No token is left, and fewer than all workers have posted.
        have tokens := (inv.at_main main).1.tokens
        have busy : ∃ w, s.worker w ≠ .done := by
          by_contra none_
          have finished : ∀ w, (s.worker w).finished = true := by
            intro w
            rw [not_not.mp (not_exists.mp none_ w)]
            rfl
          have everybody : headcount Pc.finished s.worker = Fintype.card Worker := by
            simp [headcount, finished]
          omega
        obtain ⟨w, busy⟩ := busy
        exact worker_moves busy
  | rearrange | record c | collect =>
    refine ⟨.main, Option.isSome_iff_exists.mp ?_⟩
    rw [step, State.mainNext, main]
    rfl
  | test c =>
    cases c with
    | none =>
      refine ⟨.main, Option.isSome_iff_exists.mp ?_⟩
      rw [step, State.mainNext, main]
      rfl
    | some c =>
      refine ⟨.mainTests ⟨0, false, false⟩, Option.isSome_iff_exists.mp ?_⟩
      rw [step, main]
      rfl
  | returned ptest => exact absurd main (running ptest)

end Prot.Test.Runner
