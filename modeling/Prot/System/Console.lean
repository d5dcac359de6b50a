import Mathlib.Data.Nat.Size
import Prot.Concurrency.Machine

/-! `console_linux.cpp`: whether a terminal takes colours is asked rarely, and the
answer kept. The calls to which it is asked again are 0, 1, 2, 4, 8 and so on. -/

namespace Prot.System.Console

open Concurrency

inductive STDFILE where
  | stdIn
  | stdOut
  | stdErr
  deriving DecidableEq, Repr

/-- What `isatty` says of a file, and the value of `TERM`. -/
structure Terminal where
  isatty : Bool
  term : Option String
  deriving DecidableEq, Repr

def isTermSupportColorOutput (stdfile : Terminal) : Bool :=
  if !stdfile.isatty then false
  else match stdfile.term with
    | none => false
    | some tn =>
      ["xterm", "xterm-color", "xterm-256color", "screen", "screen-256color", "linux",
        "cygwin"].contains tn

/-- `_PCON_STTCNT` and `_PCON_STTSCO`. -/
structure State where
  sttcnt : STDFILE → Int32
  sttsco : STDFILE → Bool

def start : State := ⟨fun _ => 0, fun _ => false⟩

/-- `!(n & (n-1))`. -/
def asks (n : Int32) : Bool := n &&& (n - 1) = 0

/-- The value returned, and the tables after it. -/
def isStdTermSupportColorOutput (s : State) (stdev : STDFILE) (fp : Terminal) : State × Bool :=
  let n := s.sttcnt stdev
  let bs := s.sttsco stdev
  let s := { s with sttcnt := Function.update s.sttcnt stdev (n + 1) }
  if asks n then
    if bs != isTermSupportColorOutput fp then
      ({ sttcnt := Function.update s.sttcnt stdev 0,
         sttsco := Function.update s.sttsco stdev !bs }, !bs)
    else (s, bs)
  else (s, bs)

abbrev Call := STDFILE × Terminal

def step (s : State) (call : Call) : Option State :=
  some (isStdTermSupportColorOutput s call.1 call.2).1

/-- What is seen of a call for a file: the value returned, whether the terminal has
been asked, and whether its answer was a new one. -/
structure Event where
  bs : Bool
  asked : Bool
  changed : Bool
  deriving DecidableEq, Repr

def observe (stdev : STDFILE) (s : State) (call : Call) : Option Event :=
  if call.1 = stdev then
    let bs := (isStdTermSupportColorOutput s call.1 call.2).2
    some ⟨bs, asks (s.sttcnt stdev), bs != s.sttsco stdev⟩
  else none

variable {stdev : STDFILE} {s s' : State} {call : Call} {m N : ℕ}

/-- The counter of a file, while it has not run over. -/
def Counts (s : State) (stdev : STDFILE) (m : ℕ) : Prop :=
  m < 2 ^ 31 ∧ s.sttcnt stdev = Int32.ofNat m

/-- The counts at which the terminal is asked. -/
def Asked (m : ℕ) : Prop := m = 0 ∨ m.isPowerOfTwo

private theorem and_pred (k : ℕ) :
    Int32.ofNat (k + 1) &&& (Int32.ofNat (k + 1) - 1) = Int32.ofNat ((k + 1) &&& k) := by
  have less : Int32.ofNat (k + 1) - 1 = Int32.ofNat k := by
    rw [Int32.ofNat_add]
    simp
  rw [less]
  apply Int32.toBitVec_inj.mp
  simp only [Int32.toBitVec_and, Int32.toBitVec_ofNat', BitVec.ofNat_and]

private theorem ofNat_eq_zero (small : m < 2 ^ 31) : Int32.ofNat m = 0 ↔ m = 0 := by
  constructor
  · intro zero
    have same := congrArg Int32.toInt zero
    rw [Int32.toInt_ofNat_of_lt (by omega)] at same
    simpa using same
  · rintro rfl
    rfl

theorem asks_ofNat (small : m < 2 ^ 31) : asks (Int32.ofNat m) = true ↔ Asked m := by
  unfold asks Asked
  rw [decide_eq_true_iff]
  cases m with
  | zero => exact iff_of_true rfl (.inl rfl)
  | succ k =>
    have below : (k + 1) &&& k ≤ k + 1 := Nat.and_le_left
    rw [and_pred, ofNat_eq_zero (by omega)]
    have power := Nat.and_sub_one_eq_zero_iff_isPowerOfTwo (Nat.succ_ne_zero k)
    exact power.trans (by simp)

private theorem exists_asked (m : ℕ) : ∃ d ≤ m, Asked (m + d) := by
  cases m with
  | zero => exact ⟨0, Nat.le_refl _, .inl rfl⟩
  | succ k =>
    have above : k < 2 ^ k.size := Nat.lt_size_self k
    refine ⟨2 ^ k.size - (k + 1), ?_, .inr ⟨k.size, by omega⟩⟩
    cases width : k.size with
    | zero => simp
    | succ j =>
      have below : 2 ^ j ≤ k := Nat.lt_size.mp (by omega)
      rw [Nat.pow_succ]
      omega

def asked (m : ℕ) : ℕ := if m = 0 then 0 else (m - 1).size + 1

private theorem size_succ (k : ℕ) :
    (k + 1).size = k.size + if (k + 1).isPowerOfTwo then 1 else 0 := by
  refine Nat.le_antisymm (Nat.size_le.mpr ?_) ?_
  · have above : k < 2 ^ k.size := Nat.lt_size_self k
    split
    · rw [Nat.pow_succ]
      omega
    · rename_i other
      have apart : k + 1 ≠ 2 ^ k.size := fun same => other ⟨k.size, same⟩
      simp only [Nat.add_zero]
      omega
  · split
    · rename_i power
      obtain ⟨j, same⟩ := power
      have shorter : k.size ≤ j := Nat.size_le.mpr (by omega)
      have long : j < (k + 1).size := Nat.lt_size.mpr (by omega)
      omega
    · exact Nat.size_le_size (Nat.le_succ k)

private theorem asked_succ (small : m < 2 ^ 31) :
    asked (m + 1) = asked m + (asks (Int32.ofNat m)).toNat := by
  have answer := asks_ofNat small
  unfold Asked at answer
  cases m with
  | zero => rfl
  | succ k =>
    have longer := size_succ k
    simp only [asked, Nat.succ_ne_zero, if_false, Nat.add_sub_cancel]
    by_cases power : (k + 1).isPowerOfTwo
    · rw [if_pos power] at longer
      rw [answer.mpr (.inr power), Bool.toNat_true]
      omega
    · rw [if_neg power] at longer
      have silent : asks (Int32.ofNat (k + 1)) = false := by
        by_contra asked
        rcases answer.mp (by simpa using asked) with zero | power'
        · cases zero
        · exact power power'
      rw [silent, Bool.toNat_false]
      omega

private theorem asked_le (within : m ≤ N) : asked m ≤ N.size + 1 := by
  unfold asked
  split
  · exact Nat.zero_le _
  · exact Nat.succ_le_succ (Nat.size_le_size (by omega))

def State.counted (s : State) (stdev : STDFILE) : State :=
  { s with sttcnt := Function.update s.sttcnt stdev (s.sttcnt stdev + 1) }

def State.flipped (s : State) (stdev : STDFILE) : State where
  sttcnt := Function.update s.sttcnt stdev 0
  sttsco := Function.update s.sttsco stdev !s.sttsco stdev

variable {fp : Terminal}

theorem kept_eq (old : asks (s.sttcnt stdev) = true → isTermSupportColorOutput fp = s.sttsco stdev) :
    isStdTermSupportColorOutput s stdev fp = (s.counted stdev, s.sttsco stdev) := by
  simp only [isStdTermSupportColorOutput]
  split
  · rename_i asking
    rw [old asking]
    simp [State.counted]
  · rfl

theorem flipped_eq (asking : asks (s.sttcnt stdev) = true)
    (new : isTermSupportColorOutput fp = !s.sttsco stdev) :
    isStdTermSupportColorOutput s stdev fp = (s.flipped stdev, !s.sttsco stdev) := by
  simp only [isStdTermSupportColorOutput]
  rw [if_pos asking, new]
  simp [State.flipped]

/-- One call for the file: the kept answer is returned and the call counted, or the
terminal is asked and gives a new answer. -/
theorem step_self (counts : Counts s stdev m) (room : m + 1 < 2 ^ 31)
    (taken : step s (stdev, fp) = some s') :
    (observe stdev s (stdev, fp) = some ⟨s.sttsco stdev, asks (Int32.ofNat m), false⟩ ∧
      (Asked m → isTermSupportColorOutput fp = s.sttsco stdev) ∧
      Counts s' stdev (m + 1) ∧ s'.sttsco stdev = s.sttsco stdev) ∨
    (observe stdev s (stdev, fp) = some ⟨!s.sttsco stdev, true, true⟩ ∧ Asked m ∧
      isTermSupportColorOutput fp = !s.sttsco stdev ∧
      Counts s' stdev 0 ∧ s'.sttsco stdev = !s.sttsco stdev) := by
  obtain ⟨small, count⟩ := counts
  cases taken
  have answer := asks_ofNat small
  by_cases old : asks (s.sttcnt stdev) = true → isTermSupportColorOutput fp = s.sttsco stdev
  · refine .inl ⟨?_, fun asking => old (by rw [count]; exact answer.mpr asking), ?_, ?_⟩
    · simp [observe, kept_eq old, count]
    · refine ⟨room, ?_⟩
      rw [kept_eq old, Int32.ofNat_add, ← count]
      exact Function.update_self ..
    · rw [kept_eq old]
      rfl
  · obtain ⟨asking, new⟩ := Classical.not_imp.mp old
    have flips : isTermSupportColorOutput fp = !s.sttsco stdev := Bool.eq_not.mpr new
    refine .inr ⟨?_, answer.mp (by rwa [← count]), flips, ⟨by decide, ?_⟩, ?_⟩
    · simp [observe, flipped_eq asking flips, asking]
    · rw [flipped_eq asking flips]
      exact Function.update_self ..
    · rw [flipped_eq asking flips]
      exact Function.update_self ..

theorem step_other (counts : Counts s stdev m) (other : call.1 ≠ stdev)
    (taken : step s call = some s') : observe stdev s call = none ∧ Counts s' stdev m ∧
      s'.sttsco stdev = s.sttsco stdev := by
  obtain ⟨small, count⟩ := counts
  cases taken
  refine ⟨if_neg other, ?_⟩
  by_cases old : asks (s.sttcnt call.1) = true → isTermSupportColorOutput call.2 = s.sttsco call.1
  · rw [kept_eq old]
    exact ⟨⟨small, (Function.update_of_ne (Ne.symm other) ..).trans count⟩, rfl⟩
  · obtain ⟨asking, new⟩ := Classical.not_imp.mp old
    rw [flipped_eq asking (Bool.eq_not.mpr new)]
    exact ⟨⟨small, (Function.update_of_ne (Ne.symm other) ..).trans count⟩,
      Function.update_of_ne (Ne.symm other) ..⟩

/-! Whole runs, with calls for the other files in between. -/

variable {calls before later : List Call} {last : State} {b : Bool} {d : ℕ}

/-- An answer that the terminal goes on giving is kept. -/
theorem bs_of_kept (counts : Counts s stdev m) (room : m + calls.length < 2 ^ 31)
    (steady : ∀ call ∈ calls, call.1 = stdev → isTermSupportColorOutput call.2 = s.sttsco stdev) :
    ∀ event ∈ trace step (observe stdev) s calls, event.bs = s.sttsco stdev := by
  induction calls generalizing s m with
  | nil => simp [trace]
  | cons call rest ih =>
    have taken : step s call = some (isStdTermSupportColorOutput s call.1 call.2).1 := rfl
    rw [List.length_cons] at room
    have onwards := fun c member => steady c (List.mem_cons_of_mem call member)
    rw [trace_cons_some taken]
    by_cases own : call.1 = stdev
    · obtain ⟨_, fp⟩ := call
      subst own
      have answer := steady _ List.mem_cons_self rfl
      rcases step_self counts (by omega) taken with
        ⟨seen, _, counts', same⟩ | ⟨_, _, new, _⟩
      · have later := ih counts' (by omega) (by rw [same]; exact onwards)
        rw [same] at later
        intro event member
        rw [seen] at member
        rcases List.mem_append.mp member with here | there
        · rw [List.mem_singleton.mp here]
        · exact later event there
      · have apart : s.sttsco _ = !s.sttsco _ := answer.symm.trans new
        simp at apart
    · obtain ⟨unseen, counts', same⟩ := step_other counts own taken
      rw [unseen, ← same]
      exact ih counts' (by omega) (by rw [same]; exact onwards)

private theorem bs_of_steady (counts : Counts s stdev m) (room : m + calls.length < 2 ^ 31)
    (ask : Asked (m + d))
    (steady : ∀ call ∈ calls, call.1 = stdev → isTermSupportColorOutput call.2 = b) :
    ∀ event ∈ (trace step (observe stdev) s calls).drop d, event.bs = b := by
  by_cases kept : s.sttsco stdev = b
  · intro event member
    rw [← kept]
    exact bs_of_kept counts room (by rw [kept]; exact steady) event (List.mem_of_mem_drop member)
  · induction calls generalizing s m d with
    | nil => simp [trace]
    | cons call rest ih =>
      have taken : step s call = some (isStdTermSupportColorOutput s call.1 call.2).1 := rfl
      rw [List.length_cons] at room
      have onwards := fun c member => steady c (List.mem_cons_of_mem call member)
      rw [trace_cons_some taken]
      by_cases own : call.1 = stdev
      · obtain ⟨_, fp⟩ := call
        subst own
        have answer := steady _ List.mem_cons_self rfl
        rcases step_self counts (by omega) taken with
          ⟨seen, old, counts', same⟩ | ⟨seen, _, new, counts', same⟩
        · have silent : ¬Asked m := fun asking => kept ((old asking).symm.trans answer)
          rw [seen]
          cases d with
          | zero => exact absurd ask silent
          | succ d =>
            have next : m + (d + 1) = m + 1 + d := by omega
            rw [next] at ask
            exact ih counts' (by omega) ask onwards (by rwa [same])
        · have found : (!s.sttsco _) = b := new.symm.trans answer
          have room' : 0 + rest.length < 2 ^ 31 := by omega
          have later := bs_of_kept counts' room' (by rw [same, found]; exact onwards)
          rw [seen]
          intro event member
          rcases List.mem_append.mp (List.mem_of_mem_drop member) with here | there
          · rw [List.mem_singleton.mp here]
            exact found
          · rw [later event there, same, found]
      · obtain ⟨unseen, counts', same⟩ := step_other counts own taken
        rw [unseen]
        exact ih counts' (by omega) ask onwards (by rwa [same])

private theorem last_answers (counts : Counts s stdev m) (room : m + calls.length < 2 ^ 31)
    (ran : exec step s calls = some last) :
    ∃ m' first steady, Counts last stdev m' ∧
      trace step (observe stdev) s calls = first ++ steady ∧
      (∀ event ∈ steady, event.bs = last.sttsco stdev) ∧
      (m' = steady.length ∨
        first = [] ∧ m' = m + steady.length ∧ last.sttsco stdev = s.sttsco stdev) := by
  induction calls generalizing s m with
  | nil =>
    cases ran
    exact ⟨m, [], [], counts, rfl, by simp, .inr ⟨rfl, rfl, rfl⟩⟩
  | cons call rest ih =>
    obtain ⟨s', taken, continued⟩ := exec_cons_eq_some ran
    rw [List.length_cons] at room
    rw [trace_cons_some taken]
    by_cases own : call.1 = stdev
    · obtain ⟨_, fp⟩ := call
      subst own
      rcases step_self counts (by omega) taken with
        ⟨seen, _, counts', same⟩ | ⟨seen, _, _, counts', same⟩
      · obtain ⟨m', first, steady, ends, split, answers, count⟩ := ih counts' (by omega) continued
        rw [seen, split]
        rcases count with exact_ | ⟨rfl, more, kept⟩
        · exact ⟨m', _ :: first, steady, ends, rfl, answers, .inl exact_⟩
        · refine ⟨m', [], _ :: steady, ends, rfl, ?_, .inr ⟨rfl, ?_, kept.trans same⟩⟩
          · rw [List.forall_mem_cons]
            exact ⟨(kept.trans same).symm, answers⟩
          · rw [List.length_cons]
            omega
      · obtain ⟨m', first, steady, ends, split, answers, count⟩ := ih counts' (by omega) continued
        rw [seen, split]
        refine ⟨m', _ :: first, steady, ends, rfl, answers, .inl ?_⟩
        rcases count with exact_ | ⟨_, more, _⟩ <;> omega
    · obtain ⟨unseen, counts', same⟩ := step_other counts own taken
      obtain ⟨m', first, steady, ends, split, answers, count⟩ := ih counts' (by omega) continued
      rw [unseen, split, ← same]
      exact ⟨m', first, steady, ends, rfl, answers, count⟩

private theorem asked_few (counts : Counts s stdev m) (room : m + calls.length ≤ N)
    (small : N < 2 ^ 31) :
    ∃ m' ≤ N, (trace step (observe stdev) s calls).countP Event.asked + asked m ≤
      (trace step (observe stdev) s calls).countP Event.changed * (N.size + 1) + asked m' := by
  induction calls generalizing s m with
  | nil => exact ⟨m, by simpa using room, by simp [trace]⟩
  | cons call rest ih =>
    have taken : step s call = some (isStdTermSupportColorOutput s call.1 call.2).1 := rfl
    rw [List.length_cons] at room
    rw [trace_cons_some taken]
    by_cases own : call.1 = stdev
    · obtain ⟨_, fp⟩ := call
      subst own
      have next := asked_succ (show m < 2 ^ 31 by omega)
      rcases step_self counts (by omega) taken with
        ⟨seen, _, counts', same⟩ | ⟨seen, ask, _, counts', same⟩
      · obtain ⟨m', within, few⟩ := ih counts' (by omega)
        refine ⟨m', within, ?_⟩
        rw [seen, List.countP_append, List.countP_append]
        generalize trace step (observe _) _ rest = events at few ⊢
        cases asking : asks (Int32.ofNat m) <;> rw [asking] at next <;>
          simp only [Bool.toNat_true, Bool.toNat_false] at next <;> simp <;> omega
      · obtain ⟨m', within, few⟩ := ih counts' (by omega)
        refine ⟨m', within, ?_⟩
        have most : asked (m + 1) ≤ N.size + 1 := asked_le (by omega)
        rw [(asks_ofNat (by omega)).mpr ask, Bool.toNat_true] at next
        rw [seen, List.countP_append, List.countP_append, Nat.add_mul]
        have none : asked 0 = 0 := rfl
        generalize trace step (observe _) _ rest = events at few ⊢
        simp
        omega
    · obtain ⟨unseen, counts', same⟩ := step_other counts own taken
      rw [unseen]
      exact ih counts' (by omega)

private theorem start_counts (stdev : STDFILE) : Counts start stdev 0 := ⟨by decide, rfl⟩

/-- When the answer of a terminal changes for good, the values returned are wrong for at
most as many calls as the last one had been returned before, and the terminal is
asked no oftener than the number of calls has digits, for each answer. -/
theorem color_follows (few : before.length + later.length < 2 ^ 31)
    (ran : exec step start before = some s)
    (steady : ∀ call ∈ later, call.1 = stdev → isTermSupportColorOutput call.2 = b) :
    (∃ first same, trace step (observe stdev) start before = first ++ same ∧
      (∀ event ∈ same, event.bs = s.sttsco stdev) ∧
      ∀ event ∈ (trace step (observe stdev) s later).drop same.length, event.bs = b) ∧
    (trace step (observe stdev) start before).countP Event.asked ≤
      ((trace step (observe stdev) start before).countP Event.changed + 1) *
        (before.length.size + 1) := by
  have room : 0 + before.length < 2 ^ 31 := by omega
  obtain ⟨m, first, same, counts, split, answers, count⟩ :=
    last_answers (start_counts stdev) room ran
  constructor
  · refine ⟨first, same, split, answers, fun event member => ?_⟩
    have length : m = same.length := by
      rcases count with exact_ | ⟨_, more, _⟩ <;> omega
    have within : same.length ≤ before.length := by
      have all : (trace step (observe stdev) start before).length ≤ before.length :=
        trace_length_le start before
      rw [split, List.length_append] at all
      omega
    obtain ⟨d, soon, ask⟩ := exists_asked m
    refine bs_of_steady counts (by omega) ask steady event ?_
    have further : same.length = d + (same.length - d) := by omega
    rw [further, ← List.drop_drop] at member
    exact List.mem_of_mem_drop member
  · have all : 0 + before.length ≤ before.length := by omega
    obtain ⟨m', within, few⟩ := asked_few (start_counts stdev) all (by omega)
    have most := asked_le within
    have none : asked 0 = 0 := rfl
    rw [Nat.add_mul]
    omega

def redirected : List Call := List.replicate 3 (.stdOut, ⟨false, none⟩)

def restored : List Call := List.replicate 5 (.stdOut, ⟨true, some "xterm"⟩)

theorem color_follows_restored : ∃ s, exec step start redirected = some s ∧
    ∃ first same, trace step (observe .stdOut) start redirected = first ++ same ∧
      (∀ event ∈ same, event.bs = s.sttsco .stdOut) ∧
      ∀ event ∈ (trace step (observe .stdOut) s restored).drop same.length, event.bs = true := by
  have xterm : isTermSupportColorOutput ⟨true, some "xterm"⟩ = true := by decide
  obtain ⟨s, ran⟩ := Option.isSome_iff_exists.mp
    (show (exec step start redirected).isSome = true from rfl)
  have steady : ∀ call ∈ restored, call.1 = .stdOut → isTermSupportColorOutput call.2 = true :=
    fun call member _ => by rw [List.eq_of_mem_replicate member, xterm]
  exact ⟨s, ran, (color_follows (by decide) ran steady).1⟩

end Prot.System.Console
