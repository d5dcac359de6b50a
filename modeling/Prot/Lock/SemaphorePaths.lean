import Prot.Lock.SemaphoreInvariant
import Prot.System.TimedWait

/-! The four ways in which `Semaphore::Wait` takes a unit, for the only thread
that uses the semaphore. -/

namespace Prot.Lock.Semaphore

open Concurrency Time

/-- `rc == 0`: the clock that `flag` asks for could be read. -/
def clockRead (flag : Int32) (clockGettime gettimeofday : Bool) : Bool :=
  if flag &&& sdflagTickclock ≠ 0 then clockGettime else gettimeofday

/-- `Wait` of `c` units returns `rv` and leaves `now`. -/
def Taken (c now : Int32) (rv : Bool) : Prop :=
  if c ≠ 0 then rv = true ∧ now = c - 1 else rv = false ∧ now = c

/-- Where a `Wait` that found `c` units may stand, with the units there are
now. Without a unit to take it may sleep, and only then poll again. -/
def Pc.fits (c now : Int32) : Pc → Prop
  | .tryLock _ | .tryTest _ | .waitLock _ | .waitTest _ => now = c
  | .pollLoop left => now = c ∧ (c ≠ 0 → 0 < left)
  | .tryUnlock _ rv | .waitUnlock rv | .waitReturn rv => Taken c now rv
  | .waitBlocked _ | .waitRelock => now = c ∧ c = 0
  | .idle => True
  | _ => False

/-- How many steps a `Wait` that finds a unit is away from its end. -/
def Pc.stepsLeft : Pc → ℕ
  | .pollLoop _ => 5
  | .tryLock _ | .waitLock _ => 4
  | .tryTest _ | .waitTest _ => 3
  | .tryUnlock _ _ | .waitUnlock _ => 2
  | .waitReturn _ => 1
  | _ => 0

section Effects

variable {c : Int32} {d d' : Data} {p q : Pc}

private theorem effect_fits (effect : Effect d p d' q) (inside : p ≠ .idle)
    (fits : p.fits c d.current) :
    q.fits c d'.current := by
  cases effect with
  | silent edge =>
    cases edge with
    | call => exact absurd rfl inside
    | tryUnlocked =>
      rename_i left got
      cases left with
      | none => exact fits
      | some left =>
        cases got with
        | true => exact fits
        | false =>
          by_cases found : c ≠ 0
          · simp [Pc.fits, Taken, found] at fits
          · simp only [Pc.fits, Taken, if_neg found] at fits
            exact ⟨fits.2, fun some => absurd some found⟩
    | polled =>
      rename_i left
      obtain ⟨same, poll⟩ := fits
      by_cases again : 0 < left
      · rw [if_pos again]
        exact same
      · rw [if_neg again]
        have none : c = 0 := by
          by_contra some
          exact again (poll some)
        simp [Pc.fits, Taken, none, same]
    | gaveUp | spurious => exact fits
    | woken => exact fits.1
    | relocked => simpa [Pc.fits, Taken, fits.2] using fits.1
    | clock => cases fits
    | tryLocked | waitLocked | waitUnlocked => exact fits
    | _ => cases fits
  | tryTake some | take some =>
    obtain rfl : d.current = c := fits
    simp [Pc.fits, Taken, some]
  | tryNone none =>
    obtain rfl : d.current = c := fits
    simp [Pc.fits, Taken, none]
  | block none =>
    obtain rfl : d.current = c := fits
    exact ⟨rfl, none⟩
  | waited => trivial
  | _ => cases fits

private theorem effect_stepsLeft (effect : Effect d p d' q) (inside : p ≠ .idle)
    (fits : p.fits c d.current) (found : c ≠ 0) : q.stepsLeft < p.stepsLeft := by
  cases effect with
  | silent edge =>
    cases edge with
    | call => exact absurd rfl inside
    | tryUnlocked =>
      rename_i left got
      obtain ⟨rfl, _⟩ : got = true ∧ _ := by simpa [Pc.fits, Taken, found] using fits
      cases left <;> exact Nat.lt_succ_self _
    | polled =>
      rw [if_pos (fits.2 found)]
      exact Nat.lt_succ_self _
    | gaveUp | spurious | woken | relocked => exact absurd fits.2 found
    | tryLocked | waitLocked | waitUnlocked => exact Nat.lt_succ_self _
    | _ => cases fits
  | block none =>
    obtain rfl : d.current = c := fits
    exact absurd none found
  | tryNone none =>
    obtain rfl : d.current = c := fits
    exact absurd none found
  | tryTake | take | waited => exact Nat.lt_succ_self _
  | _ => cases fits

private theorem effect_idle (effect : Effect d p d' q) (ended : q = .idle) (inside : p ≠ .idle)
    (fits : p.fits c d.current) : ∃ rv, p = .waitReturn rv := by
  cases effect with
  | silent edge =>
    cases edge with
    | call => exact absurd rfl inside
    | tryUnlocked =>
      rename_i left got
      cases left <;> cases got <;> cases ended
    | polled => split at ended <;> cases ended
    | clock | setMaxReturned | currentReturned => cases fits
    | _ => cases ended
  | waited => exact ⟨_, rfl⟩
  | posted => cases fits
  | _ => cases ended

end Effects

variable {Thread : Type} [DecidableEq Thread] {s s' : State Thread} {me : Thread}
variable {action : Action Thread} {c : Int32}

/-- What `me` does inside a call. -/
def Own (me : Thread) : Action Thread → Prop
  | .call _ _ => False
  | .run thread | .notify thread _ | .fail thread | .expire thread | .wake thread => thread = me

/-- `Wait(t)` is called, and its clock answers or not. -/
def enter (me : Thread) (t : TimeUnit) (answered : Bool) : List (Action Thread) :=
  [.call me (.wait t), if answered then .run me else .fail me]

/-- A `Wait` of the only thread takes a unit if there is one, whatever its path;
it then returns, after no more than five steps of its own. -/
structure Right (s : State Thread) (me : Thread) (t : TimeUnit) (answered : Bool) : Prop where
  returned : ∀ rest last rv, (∀ action ∈ rest, Own me action) →
    exec step s (enter me t answered ++ rest) = some last → last.pc me = .waitReturn rv →
      Taken s.current last.current rv
  returns : s.current ≠ 0 → ∀ rest last, (∀ action ∈ rest, Own me action) →
    exec step s (enter me t answered ++ rest) = some last → last.pc me ≠ .idle →
      ∃ n final rv, exec step last (List.replicate n (.run me)) = some final ∧
        final.pc me = .waitReturn rv
  bounded : s.current ≠ 0 → ∀ rest last, (∀ action ∈ rest, Own me action) →
    exec step s (enter me t answered ++ rest) = some last → rest.length ≤ 5

/-- `me` is in a `Wait` that found `c` units, and nobody else uses the semaphore. -/
structure Solo (c : Int32) (me : Thread) (s : State Thread) : Prop where
  mtx : Excludes s.mtx Pc.holds s.pc
  others : ∀ thread, thread ≠ me → s.pc thread = .idle
  fits : (s.pc me).fits c s.current

omit [DecidableEq Thread] in
theorem Own.thread (own : Own me action) : action.thread = me := by
  cases action with
  | call => cases own
  | _ => exact own

private theorem Own.not_idle (own : Own me action) (taken : step s action = some s') :
    s.pc me ≠ .idle := by
  intro idle
  cases action with
  | call => cases own
  | run thread =>
    obtain rfl : thread = me := own
    simp [step, State.next, idle] at taken
  | _ thread =>
    obtain rfl : _ = me := own
    simp [step, idle] at taken

/-- A step of `me` inside its call. -/
theorem own_effect (own : Own me action) (taken : step s action = some s') :
    ∃ p, s'.pc = Function.update s.pc me p ∧ Effect s.data (s.pc me) s'.data p ∧ s.pc me ≠ .idle := by
  obtain ⟨p, pc, effect⟩ := step_effect taken
  rw [own.thread] at pc effect
  exact ⟨p, pc, effect, own.not_idle taken⟩

theorem step_solo (solo : Solo c me s) (own : Own me action) (taken : step s action = some s') :
    Solo c me s' := by
  obtain ⟨p, pc, effect, inside⟩ := own_effect own taken
  refine ⟨step_mtx solo.mtx taken, fun thread other => ?_, ?_⟩
  · rw [pc, Function.update_of_ne other]
    exact solo.others thread other
  · rw [pc, Function.update_self]
    exact effect_fits effect inside solo.fits

theorem step_stepsLeft (solo : Solo c me s) (found : c ≠ 0) (own : Own me action)
    (taken : step s action = some s') : (s'.pc me).stepsLeft < (s.pc me).stepsLeft := by
  obtain ⟨p, pc, effect, inside⟩ := own_effect own taken
  rw [pc, Function.update_self]
  exact effect_stepsLeft effect inside solo.fits found

/-- The mutex is there for `me` wherever it wants to lock it. -/
theorem Solo.free (solo : Solo c me s) (outside : (s.pc me).holds = false) : s.mtx = none := by
  cases held : s.mtx with
  | none => rfl
  | some holder =>
    have inside := (solo.mtx holder).mpr held
    by_cases same : holder = me
    · rw [same, outside] at inside
      cases inside
    · rw [solo.others holder same] at inside
      cases inside

theorem Solo.moves (solo : Solo c me s) (found : c ≠ 0) (inside : s.pc me ≠ .idle) :
    ∃ s', step s (.run me) = some s' := by
  have fits := solo.fits
  have free := solo.free
  cases here : s.pc me <;> rw [here] at inside fits free <;> simp only [step, State.next, here]
  case idle => exact absurd rfl inside
  case tryLock | waitLock => exact ⟨_, by simp [State.lock, free rfl, Mutex.lock]; rfl⟩
  case waitBlocked | waitRelock => exact absurd fits.2 found
  case tryTest | waitTest => split <;> exact ⟨_, rfl⟩
  case tryUnlock | pollLoop | waitUnlock | waitReturn => exact ⟨_, rfl⟩
  all_goals cases fits

/-- Left alone, the call comes to its end. -/
theorem Solo.comes (solo : Solo c me s) (found : c ≠ 0) (inside : s.pc me ≠ .idle) :
    ∃ n final rv, exec step s (List.replicate n (.run me)) = some final ∧
      final.pc me = .waitReturn rv := by
  generalize left : (s.pc me).stepsLeft = k
  induction k using Nat.strongRecOn generalizing s with
  | ind k ih =>
    obtain ⟨s', taken⟩ := solo.moves found inside
    have own : Own me (.run me) := rfl
    have next := step_solo solo own taken
    have less := step_stepsLeft solo found own taken
    by_cases ended : s'.pc me = .idle
    · obtain ⟨p, pc, effect, _⟩ := own_effect own taken
      rw [pc, Function.update_self] at ended
      obtain ⟨rv, returns⟩ := effect_idle effect ended inside solo.fits
      exact ⟨0, s, rv, rfl, returns⟩
    · obtain ⟨n, final, rv, ran, ends⟩ := ih _ (left ▸ less) next ended rfl
      exact ⟨n + 1, final, rv, (exec_cons_some taken).trans ran, ends⟩

/-- Nobody uses the semaphore. -/
structure Quiet (s : State Thread) : Prop where
  mtx : s.mtx = none
  idle : ∀ thread, s.pc thread = .idle

theorem exec_enter (idle : s.pc me = .idle) (t : TimeUnit) (answered : Bool) :
    exec step s (enter me t answered) = some (s.goto me (waitPath t answered)) := by
  cases answered <;> simp [enter, exec_cons, step, State.next, idle, State.goto, Call.entry]

private theorem seconds_pos_iff (t : TimeUnit) :
    0 < t.inSeconds.toInt ↔ TimeUnit.oneSecond ≤ t.utc := by
  have unit : TimeUnit.oneSecond.toInt = 10000000 := rfl
  rw [Int64.le_iff_toInt_le, unit]
  by_cases nonneg : 0 ≤ t.utc
  · rw [TimeUnit.inSeconds_toInt nonneg]
    omega
  · have negative : t.utc.toInt < 0 := by
      rw [Int64.le_iff_toInt_le] at nonneg
      exact Int.not_le.mp nonneg
    have cut : t.inSeconds.toInt = t.utc.toInt.tdiv 10000000 :=
      Int64.toInt_div_of_ne_right _ _ (by decide)
    have mirrored : t.utc.toInt.tdiv 10000000 = -(-t.utc.toInt / 10000000) := by
      rw [← Int.tdiv_eq_ediv_of_nonneg (by omega), Int.neg_tdiv, Int.neg_neg]
    omega

private theorem waitPath_fits {t : TimeUnit} {answered : Bool}
    (tries : answered = true ∨ t.empty = true ∨ t.infinitely = true ∨
      TimeUnit.oneSecond ≤ t.utc ∨ c = 0) : (waitPath t answered).fits c c := by
  unfold waitPath
  split
  · rfl
  · split
    · rfl
    · split
      · rfl
      · rename_i timed finite blind
        refine ⟨rfl, fun found => (seconds_pos_iff t).mpr ?_⟩
        rcases tries with told | now | ever | long | none
        · exact absurd told blind
        · exact absurd now timed
        · exact absurd ever finite
        · exact long
        · exact absurd none found

private theorem waitPath_holds (t : TimeUnit) (answered : Bool) :
    (waitPath t answered).holds = false := by
  unfold waitPath
  split
  · rfl
  · split
    · rfl
    · split <;> rfl

private theorem waitPath_stepsLeft (t : TimeUnit) (answered : Bool) :
    (waitPath t answered).stepsLeft ≤ 5 := by
  unfold waitPath
  split
  · decide
  · split
    · decide
    · split
      · decide
      · exact Nat.le_refl _

private theorem enter_solo (quiet : Quiet s) {t : TimeUnit} {answered : Bool}
    (fits : (waitPath t answered).fits s.current s.current) :
    Solo s.current me (s.goto me (waitPath t answered)) where
  mtx := by
    have free : Excludes none Pc.holds s.pc := fun thread => by simp [quiet.idle thread, Pc.holds]
    have here : (s.pc me).holds = false := by
      rw [quiet.idle]
      rfl
    rw [State.goto, quiet.mtx]
    exact free.stay ((waitPath_holds t answered).trans here.symm)
  others thread other := (Function.update_of_ne other ..).trans (quiet.idle thread)
  fits := by
    simpa [State.goto] using fits

/-- The rest of the call, from where `Wait` has chosen its path. -/
theorem exec_rest (quiet : Quiet s) {t : TimeUnit} {answered : Bool} {rest : List (Action Thread)}
    {last : State Thread} (ran : exec step s (enter me t answered ++ rest) = some last) :
    exec step (s.goto me (waitPath t answered)) rest = some last := by
  rwa [exec_append, exec_enter (quiet.idle me)] at ran

private theorem rest_solo (quiet : Quiet s) {t : TimeUnit} {answered : Bool}
    {rest : List (Action Thread)}
    {last : State Thread} (fits : (waitPath t answered).fits s.current s.current)
    (own : ∀ action ∈ rest, Own me action)
    (ran : exec step s (enter me t answered ++ rest) = some last) : Solo s.current me last := by
  have meets : Meets step (fun _ action => Own me action) (s.goto me (waitPath t answered)) rest :=
    .of_forall own
  exact exec_invariant_of_meets (Solo s.current me)
    (fun _ _ _ solo own taken => step_solo solo own taken) (enter_solo quiet fits) meets
    (exec_rest quiet ran)

/-- All paths of `Wait` agree, except that without a clock and for less than a
second it does not try at all. -/
theorem wait_right_iff (s : State Thread) (me : Thread) (t : TimeUnit) (flag : Int32)
    (clockGettime gettimeofday : Bool) (quiet : Quiet s) :
    Right s me t (clockRead flag clockGettime gettimeofday) ↔
      clockRead flag clockGettime gettimeofday = true ∨ t.empty = true ∨ t.infinitely = true ∨
        TimeUnit.oneSecond ≤ t.utc ∨ s.current = 0 := by
  generalize clockRead flag clockGettime gettimeofday = answered
  constructor
  · intro right
    by_contra blind
    simp only [not_or] at blind
    obtain ⟨untold, timed, finite, short, found⟩ := blind
    have path : waitPath t answered = .pollLoop t.inSeconds.toInt := by
      rw [waitPath, if_neg timed, if_neg finite, if_neg untold]
    have gives : exec step s (enter me t answered ++ [.run me]) =
        some (s.goto me (.waitReturn false)) := by
      rw [exec_append, exec_enter (quiet.idle me)]
      have none_ := mt (seconds_pos_iff t).mp short
      simp [path, exec_cons, step, State.next, State.goto, none_]
    have taken := right.returned [.run me] _ false (by simp [Own]) gives (by simp [State.goto])
    simp [Taken, found] at taken
  · intro tries
    have fits := waitPath_fits tries
    refine ⟨fun rest last rv own ran returns => ?_, fun found rest last own ran inside => ?_,
      fun found rest last own ran => ?_⟩
    · have solo := (rest_solo quiet fits own ran).fits
      rwa [returns] at solo
    · exact (rest_solo quiet fits own ran).comes found inside
    · have meets : Meets step (fun _ action => Own me action) (s.goto me (waitPath t answered))
          rest := .of_forall own
      have steps := exec_length_le (fun s => (s.pc me).stepsLeft) (Solo s.current me)
        (fun _ _ _ solo own taken => step_solo solo own taken)
        (fun _ _ _ solo own taken => step_stepsLeft solo found own taken)
        (enter_solo quiet fits) meets (exec_rest quiet ran)
      have start := waitPath_stepsLeft t answered
      simp only [State.goto, Function.update_self] at steps
      omega

theorem quiet_fresh (i_set i_max : Int32) : Quiet (fresh i_set i_max : State Unit) :=
  ⟨rfl, fun _ => rfl⟩

/-- Half a second, with a clock. -/
theorem wait_right_clock : Right (fresh 1 1) () ⟨5000000⟩ (clockRead 1 true false) :=
  (wait_right_iff (fresh 1 1) () ⟨5000000⟩ 1 true false (quiet_fresh 1 1)).mpr (.inl rfl)

/-- Half a second, without a clock: `Wait` returns `False` and leaves the unit. -/
theorem wait_blind : ∃ last : State Unit,
    exec step (fresh 1 1) (enter () ⟨5000000⟩ (clockRead 1 false true) ++ [.run ()]) = some last ∧
      last.pc () = .waitReturn false ∧ last.current = 1 ∧
      ¬ Right (fresh 1 1) () ⟨5000000⟩ (clockRead 1 false true) := by
  have ends : (exec step (fresh 1 1 : State Unit)
      (enter () ⟨5000000⟩ (clockRead 1 false true) ++ [.run ()])).map
        (fun last => (last.pc (), last.current)) = some (.waitReturn false, 1) := by decide
  obtain ⟨last, ran, same⟩ := Option.map_eq_some_iff.mp ends
  simp only [Prod.mk.injEq] at same
  refine ⟨last, ran, same.1, same.2, fun right => ?_⟩
  have taken := right.returned [.run ()] last false (by simp [Own]) ran same.1
  rw [same.2] at taken
  simp [Taken, fresh] at taken

end Prot.Lock.Semaphore
