import Prot.Lock.ILock
import Prot.Lock.SemaphoreAtomic

/-! A semaphore used as a lock: `Free` posts one unit and ignores the result,
which is safe because the unit it gives back leaves room below the limit. -/

namespace Prot.Lock.Semaphore

open Concurrency Time

def Pc.held : Pc → Bool
  | .tryUnlock _ got => got
  | .waitUnlock rv | .waitReturn rv => rv
  | .postReadCurrent _ | .postReadMaximum _ _ | .postLock _ | .postTest _ | .postAdd _ _ _ => true
  | _ => false

def Pc.acquires : Pc → Bool
  | .waitReturn rv => rv
  | _ => false

/-- What a thread inside `Get`, `TryGet` or `Free` of `k` permits knows: it posts
one unit, it has read a counter with room for it, and it has not been refused. -/
def Pc.sharing (k : ℤ) : Pc → Prop
  | .waitClock t => t.empty = true ∨ t.infinitely = true
  | .postReadMaximum n c => n = 1 ∧ c.toInt < k
  | .postReadCurrent n | .postLock n | .postTest n | .postAdd n _ _ | .postNotify n _ _ => n = 1
  | .postUnlock _ passed | .postReturn _ passed => passed.isSome
  | _ => True

variable {Thread : Type} [DecidableEq Thread] [Fintype Thread]

def lock (Thread : Type) [DecidableEq Thread] [Fintype Thread] : ILock Thread where
  State := State Thread
  Action := Action Thread
  step := step
  get thread := .call thread (.wait .infinite)
  tryGet thread := .call thread (.wait .zero)
  free thread := .call thread (.post 1)
  inner s action := match action with
    | .call _ _ => false
    | .fail thread => match s.pc thread with
      | .waitClock _ => true
      | _ => false
    | _ => true
  acquired s action := if (s.pc action.thread).acquires then some action.thread else none
  available s := s.current.toInt
  held s := headcount Pc.held s.pc

variable {s s' : State Thread} {thread : Thread} {action : Action Thread} {d d' : Data}
variable {here next : Pc} {k : ℤ} {m : Int32}

omit [DecidableEq Thread] [Fintype Thread] in
theorem Silent.sharing (edge : Silent here next) (busy : here ≠ .idle) (sharing : here.sharing k) :
    next.sharing k := by
  cases edge.goes with
  | callWait | callPost | callSetMax | callCurrent => exact absurd rfl busy
  | postLocked | postUnlocked => exact sharing
  | _ => trivial

omit [DecidableEq Thread] [Fintype Thread] in
theorem Silent.permit (edge : Silent here next) (busy : here ≠ .idle) (sharing : here.sharing k)
    (usual : here.usual = true) : next.held.toNat + here.acquires.toNat = here.held.toNat := by
  cases edge.goes with
  | callWait | callPost | callSetMax | callCurrent => exact absurd rfl busy
  | pollTook | pollSlept | polls | pollsOut => cases usual
  | _ => rfl

/-- No `Free` is refused: with a permit still to give back the counter is below
`k`, at the unlocked test as at the locked one. -/
theorem Effect.sharing (effect : Effect d here d' next) (regular : Regular m d here)
    (busy : here ≠ .idle) (sharing : here.sharing k) (fits : k ≤ m.toInt)
    (room : here.held = true → d.current.toInt < k) : next.sharing k := by
  have one : (1 : Int32).toInt = 1 := rfl
  cases effect with
  | silent edge => exact edge.sharing busy sharing
  | @refuse n d nothing =>
    have same : n = 1 := sharing
    subst same
    exact absurd nothing (by decide)
  | readCurrent => exact ⟨sharing, room rfl⟩
  | @exceeds d c n above =>
    obtain ⟨same, below⟩ := sharing
    obtain ⟨low, high⟩ := regular.fresh
    have sum := regular.sum rfl (regular.amount _ rfl) low high
    rw [regular.maximum, Int32.lt_iff_toInt_lt, sum, same, one] at above
    omega
  | under => exact sharing.1
  | full above =>
    rename_i n
    have same : n = 1 := sharing
    obtain ⟨low, high⟩ := regular.range
    have sum := regular.sum rfl (regular.amount _ rfl) low high
    rw [regular.maximum, Int32.lt_iff_toInt_lt, sum, same, one] at above
    have below := room rfl
    omega
  | pass | add => exact sharing
  | notify => rfl
  | undo => exact absurd regular.usual nofun
  | _ => trivial

omit [DecidableEq Thread] [Fintype Thread] in
/-- The units, what the thread of the step holds of them and what it has returned. -/
theorem Effect.permit (effect : Effect d here d' next) (regular : Regular m d here)
    (busy : here ≠ .idle) (sharing : here.sharing k) (goes : next.sharing k)
    (stays : next.usual = true) :
    d'.current.toInt + next.held.toNat + here.acquires.toNat = d.current.toInt + here.held.toNat := by
  have one : (1 : Int32).toInt = 1 := rfl
  have nonneg := regular.range.1
  cases effect with
  | silent edge =>
    have same := edge.permit busy sharing regular.usual
    omega
  | tryTake some | take some =>
    have less := (toInt_take nonneg some).1
    simp only [Pc.held, Pc.acquires, Bool.toNat_true, Bool.toNat_false]
    omega
  | @add d n c limit =>
    have same : n = 1 := sharing
    have sum := regular.sum rfl (regular.amount _ rfl) nonneg regular.range.2
    rw [same, one] at sum
    simp only [Pc.held, Pc.acquires, Bool.toNat_true, Bool.toNat_false, same]
    omega
  | refuse | exceeds | full => cases goes
  | failNotify => cases stays
  | undo | setMax | badMax => exact absurd regular.usual nofun
  | _ =>
    simp only [Pc.held, Pc.acquires, Bool.toNat_true, Bool.toNat_false]
    omega

structure Shared (k : ℤ) (m : Int32) (s : State Thread) : Prop where
  run : RunInvariant m s
  sharing : ∀ t, (s.pc t).sharing k

omit [Fintype Thread] in
/-- The clock does not matter to a `Wait` of zero or infinite time. -/
theorem step_fail_eq_run (shared : Shared k m s)
    (asks : ∃ t, s.pc thread = .waitClock t) : step s (.fail thread) = step s (.run thread) := by
  obtain ⟨t, here⟩ := asks
  have kind := shared.sharing thread
  rw [here] at kind
  have same : waitPath t false = waitPath t true := by
    rcases kind with empty | infinite
    · simp [waitPath, empty]
    · simp [waitPath, infinite]
  simp [step, State.next, here, same]

theorem shared_call {call : Call} (shared : Shared k m s)
    (ordinary : (Action.call thread call).ordinary m) (entry : call.entry.sharing k)
    (taken : step s (.call thread call) = some s') :
    Shared k m s' ∧ s'.current.toInt + headcount Pc.held s'.pc =
      s.current.toInt + headcount Pc.held s.pc + call.entry.held.toNat := by
  have run := step_runInvariant shared.run ordinary taken
  simp only [step] at taken
  split at taken
  · rename_i idle
    cases taken
    refine ⟨⟨run, fun t => ?_⟩, ?_⟩
    · by_cases same : t = thread
      · subst same
        simpa [State.goto] using entry
      · simpa [State.goto, same] using shared.sharing t
    · simp only [State.goto, headcount_move, idle]
      have none : (Pc.idle.held).toNat = 0 := rfl
      omega
  · cases taken

theorem shared_inner (shared : Shared k m s) (fits : k ≤ m.toInt)
    (within : s.current.toInt + headcount Pc.held s.pc ≤ k) (ordinary : action.ordinary m)
    (busy : s.pc action.thread ≠ .idle) (taken : step s action = some s') :
    Shared k m s' ∧ s'.current.toInt + headcount Pc.held s'.pc +
      (s.pc action.thread).acquires.toNat = s.current.toInt + headcount Pc.held s.pc := by
  obtain ⟨p, moved, effect⟩ := step_effect taken
  have run := step_runInvariant shared.run ordinary taken
  have regular := shared.run.regular action.thread
  have room (holds : (s.pc action.thread).held = true) : s.current.toInt < k := by
    have some : 0 < headcount Pc.held s.pc := headcount_pos_iff.mpr ⟨_, holds⟩
    omega
  have goes := effect.sharing regular busy (shared.sharing _) fits room
  have stays := run.usual action.thread
  rw [moved, Function.update_self] at stays
  refine ⟨⟨run, fun t => ?_⟩, ?_⟩
  · rw [moved]
    by_cases same : t = action.thread
    · subst same
      rw [Function.update_self]
      exact goes
    · rw [Function.update_of_ne same]
      exact shared.sharing t
  · have kept := effect.permit regular busy (shared.sharing _) goes stays
    simp only [State.data] at kept
    rw [moved, headcount_move]
    omega

/-- A semaphore with room for `k` units neither loses one nor makes one. -/
theorem conserves (Thread : Type) [DecidableEq Thread] [Fintype Thread]
    (below : m ≤ maximumCount) (fits : k ≤ m.toInt) :
    (lock Thread).Conserves k (Shared k m) where
  nonneg s shared := shared.run.range.1
  get s thread s' shared taken := by
    have infinite : (Pc.waitClock .infinite).sharing k := .inr rfl
    have zero : (Pc.waitClock .zero).sharing k := .inl rfl
    rcases taken with got | tried
    · have ordinary : (Action.call thread (.wait .infinite)).ordinary m := trivial
      obtain ⟨kept, same⟩ := shared_call shared ordinary infinite got
      exact ⟨kept, same.trans (add_zero _)⟩
    · have ordinary : (Action.call thread (.wait .zero)).ordinary m := trivial
      obtain ⟨kept, same⟩ := shared_call shared ordinary zero tried
      exact ⟨kept, same.trans (add_zero _)⟩
  free s thread s' shared taken := by
    have ordinary : (Action.call thread (.post 1)).ordinary m := by
      have limit : m.toInt ≤ maximumCount.toInt := Int32.le_iff_toInt_le.mp below
      have most : maximumCount.toInt = 2109876543 := rfl
      change m.toInt + 1 < 2 ^ 31
      omega
    exact shared_call shared ordinary rfl taken
  inner s action s' shared within allowed taken := by
    have busy : s.pc action.thread ≠ .idle := by
      intro idle
      obtain ⟨call, same, _⟩ := call_of_idle taken idle
      rw [same] at allowed
      cases allowed
    have reached : Shared k m s' ∧ s'.current.toInt + headcount Pc.held s'.pc +
        (s.pc action.thread).acquires.toNat = s.current.toInt + headcount Pc.held s.pc := by
      cases action with
      | call thread call => cases allowed
      | fail thread =>
        have asks : ∃ t, s.pc thread = .waitClock t := by
          cases here : s.pc thread with
          | waitClock t => exact ⟨t, rfl⟩
          | _ => simp [lock, here] at allowed
        have same := (step_fail_eq_run shared asks).symm.trans taken
        have ordinary : (Action.run thread).ordinary m := trivial
        have kept := shared_inner shared fits within ordinary busy same
        exact kept
      | _ => exact shared_inner shared fits within trivial busy taken
    obtain ⟨kept, same⟩ := reached
    refine ⟨kept, ?_⟩
    cases returns : (s.pc action.thread).acquires <;> simp [lock, returns] at same ⊢ <;> exact same

end Prot.Lock.Semaphore
