import Prot.Concurrency.Atomic
import Prot.Lock.SemaphoreCount

/-! The semaphore against an atomic bounded counter: without `SetMax`, failures
and sums beyond 32 bits, every history of calls and results is one the counter
gives with each operation acting at one instant. -/

namespace Prot.Lock.Semaphore

open Concurrency Time

/-- The operations of the abstract counter. -/
inductive Op where
  | wait
  | post (n : ℤ)
  | current

inductive Res where
  | done (rv : Bool)
  | count (c : ℤ)

/-- How an operation acts on the counter, and what it returns. -/
inductive Acts (maximum : ℤ) : ℤ → Op → Res → ℤ → Prop where
  | waitTrue {c : ℤ} (some : 0 < c) : Acts maximum c .wait (.done true) (c - 1)
  | waitFalse : Acts maximum 0 .wait (.done false) 0
  | postTrue {c n : ℤ} (positive : 0 < n) (within : c + n ≤ maximum) :
      Acts maximum c (.post n) (.done true) (c + n)
  | postFalse {c n : ℤ} (refused : n ≤ 0 ∨ maximum < c + n) :
      Acts maximum c (.post n) (.done false) c
  | current {c : ℤ} : Acts maximum c .current (.count c) c

def Call.op : Call → Option Op
  | .wait _ => some .wait
  | .post n => some (.post n.toInt)
  | .setMax _ => none
  | .current => some .current

def Pc.returns {Thread : Type} (thread : Thread) : Pc → Option (Event Thread Op Res)
  | .waitReturn rv => some (.ret thread (.done rv))
  | .postReturn _ passed => some (.ret thread (.done passed.isSome))
  | .currentReturn c => some (.ret thread (.count c.toInt))
  | _ => none

variable {Thread : Type}

def observe (s : State Thread) (action : Action Thread) : Option (Event Thread Op Res) :=
  match action with
  | .call thread call => call.op.map (.call thread)
  | action => (s.pc action.thread).returns action.thread

def Pc.status (m : Int32) : Pc → Status Op Res
  | .idle | .setMaxWrite _ | .setMaxReturn _ => .idle
  | .waitClock _ | .tryLock _ | .tryTest _ | .pollLoop _ => .called .wait
  | .waitLock _ | .waitTest _ | .waitBlocked _ => .called .wait
  | .tryUnlock _ rv | .waitUnlock rv | .waitReturn rv => .acted (.done rv)
  | .waitRelock => .acted (.done false)
  | .postReadMaximum n c =>
    if c.toInt + n.toInt ≤ m.toInt then .called (.post n.toInt) else .acted (.done false)
  | .postReadCurrent n | .postLock n | .postTest n | .postAdd n _ _ => .called (.post n.toInt)
  | .postNotify _ _ _ | .postUndo _ _ _ => .acted (.done true)
  | .postUnlock _ passed | .postReturn _ passed => .acted (.done passed.isSome)
  | .currentRead => .called .current
  | .currentReturn c => .acted (.count c.toInt)

/-- A `Wait` blocked on `l_cond` has found no unit: if it is going to give up,
that was its instant, and if it is going to try again, it has had none. -/
def Pc.statuses (m : Int32) (p : Pc) (status : Status Op Res) : Prop :=
  status = p.status m ∨ (∃ timed, p = .waitBlocked timed) ∧ status = .acted (.done false)

/-- No failing clock, no failing notification and no `SetMax`. -/
def Pc.usual : Pc → Bool
  | .tryLock (some _) | .tryTest (some _) | .tryUnlock (some _) _ | .pollLoop _ => false
  | .postUndo _ _ _ | .setMaxWrite _ | .setMaxReturn _ => false
  | _ => true

/-- The number a `Post` was called with, while it may still be added. -/
def Pc.asks : Pc → Option Int32
  | .postReadCurrent n => some n
  | p => p.amount

/-- The values of `current` that a `Post` has read before the lock, and of
`maximum` that it has read under it, are those of a counter in range. -/
def Pc.fresh (m : Int32) : Pc → Prop
  | .postReadMaximum _ c => 0 ≤ c.toInt ∧ c.toInt ≤ m.toInt
  | .postAdd _ _ limit => limit = m
  | _ => True

/-- The actions of a run without failures, `SetMax` and overflow. -/
def Action.ordinary (m : Int32) : Action Thread → Prop
  | .fail _ | .call _ (.setMax _) => False
  | .call _ (.post n) => m.toInt + n.toInt < 2 ^ 31
  | _ => True

instance (m : Int32) (action : Action Thread) : Decidable (action.ordinary m) := by
  unfold Action.ordinary
  split <;> infer_instance

/-- What a thread knows before its step in such a run. -/
structure Regular (m : Int32) (d : Data) (here : Pc) : Prop where
  maximum : d.maximum = m
  range : 0 ≤ d.current.toInt ∧ d.current.toInt ≤ m.toInt
  amount : ∀ n, here.amount = some n → 0 < n.toInt
  expects : ∀ v, here.expects = some v → d.current = v
  within : here.within
  asks : ∀ n, here.asks = some n → m.toInt + n.toInt < 2 ^ 31
  fresh : here.fresh m
  usual : here.usual = true

variable {d d' : Data} {here next : Pc} {m : Int32} {thread : Thread}

theorem Regular.sum {n c : Int32} (regular : Regular m d here) (asks : here.asks = some n)
    (positive : 0 < n.toInt) (nonneg : 0 ≤ c.toInt) (below : c.toInt ≤ m.toInt) :
    (c + n).toInt = c.toInt + n.toInt := by
  have small := regular.asks n asks
  exact toInt_add_of_fits (by omega) (by omega)

/-- What is known where the units are added. -/
theorem Regular.add {n c limit : Int32} (regular : Regular m d (.postAdd n c limit)) :
    (d.current + n).toInt = d.current.toInt + n.toInt ∧ 0 < n.toInt ∧
      d.current.toInt + n.toInt ≤ m.toInt := by
  obtain ⟨nonneg, below⟩ := regular.range
  have positive := regular.amount _ rfl
  have sum := regular.sum rfl positive nonneg below
  have same : d.current = c := regular.expects c rfl
  have equal : limit = m := regular.fresh
  have within := regular.within.1
  rw [equal, ← same, Int32.le_iff_toInt_le, sum] at within
  exact ⟨sum, positive, within⟩

private theorem Pc.statuses_iff {p : Pc} {status : Status Op Res}
    (awake : ∀ timed, p ≠ .waitBlocked timed) : p.statuses m status ↔ status = p.status m := by
  constructor
  · rintro (settled | ⟨⟨timed, blocked⟩, _⟩)
    · exact settled
    · exact absurd blocked (awake timed)
  · exact Or.inl

/-- A step to a place with one status only has to be traced back for that one. -/
theorem back_of_status {event : Option (Event Thread Op Res)} {maximum value value' : ℤ}
    (awake : ∀ timed, next ≠ .waitBlocked timed)
    (back : ∃ before, here.statuses m before ∧
      Local (Acts maximum) thread value before event (next.status m) value') :
    ∀ after, next.statuses m after → ∃ before, here.statuses m before ∧
      Local (Acts maximum) thread value before event after value' := by
  intro after compatible
  rw [(Pc.statuses_iff awake).mp compatible]
  exact back

theorem Silent.back (edge : Silent here next) (call : here ≠ .idle) (usual : here.usual = true)
    (stays : next.usual = true) (value : ℤ) {maximum : ℤ} :
    ∀ after, next.statuses m after → ∃ before, here.statuses m before ∧
      Local (Acts maximum) thread value before (here.returns thread) after value := by
  cases edge.goes with
  | callWait | callPost | callSetMax | callCurrent => exact absurd rfl call
  | clockPoll => cases stays
  | pollTook | pollSlept | polls | pollsOut => cases usual
  | spurious => exact fun after compatible => ⟨after, compatible, .stay⟩
  | gaveUp => exact back_of_status nofun ⟨_, .inr ⟨⟨_, rfl⟩, rfl⟩, .stay⟩
  | setMaxReturned => cases usual
  | currentReturned => exact back_of_status nofun ⟨_, .inl rfl, .ret _⟩
  | _ => exact back_of_status nofun ⟨_, .inl rfl, .stay⟩

theorem Effect.back (effect : Effect d here d' next) (call : here ≠ .idle)
    (regular : Regular m d here) (stays : next.usual = true) :
    ∀ after, next.statuses m after → ∃ before, here.statuses m before ∧
      Local (Acts m.toInt) thread d.current.toInt before (here.returns thread) after
        d'.current.toInt := by
  have usual := regular.usual
  obtain ⟨nonneg, below⟩ := regular.range
  cases effect with
  | silent edge => exact edge.back call usual stays _
  | tryTake some | take some =>
    obtain ⟨less, positive⟩ := toInt_take nonneg some
    refine back_of_status nofun ⟨_, .inl rfl, .act ?_⟩
    change Acts m.toInt d.current.toInt .wait (.done true) (d.current - 1).toInt
    rw [less]
    exact .waitTrue positive
  | tryNone none =>
    refine back_of_status nofun ⟨_, .inl rfl, .act ?_⟩
    rw [none]
    exact .waitFalse
  | block none =>
    rintro after (waiting | ⟨_, gaveUp⟩)
    · exact ⟨after, .inl waiting, .stay⟩
    · subst gaveUp
      refine ⟨_, .inl rfl, .act ?_⟩
      rw [none]
      exact .waitFalse
  | waited => exact back_of_status nofun ⟨_, .inl rfl, .ret _⟩
  | posted => exact back_of_status nofun ⟨_, .inl rfl, .ret _⟩
  | refuse nothing =>
    rw [Int32.le_iff_toInt_le] at nothing
    exact back_of_status nofun ⟨_, .inl rfl, .act (.postFalse (.inl nothing))⟩
  | @readCurrent n d some => 
    refine back_of_status nofun ⟨_, .inl rfl, ?_⟩
    simp only [Pc.status]
    split
    · exact .stay
    · rename_i above
      exact .act (.postFalse (.inr (by omega)))
  | @exceeds d c n above =>
    obtain ⟨low, high⟩ := regular.fresh
    have sum := regular.sum rfl (regular.amount _ rfl) low high
    rw [regular.maximum, Int32.lt_iff_toInt_lt, sum] at above
    refine back_of_status nofun ⟨_, .inl rfl, ?_⟩
    simp only [Pc.status, if_neg (not_le.mpr above)]
    exact .stay
  | @under c n d within =>
    obtain ⟨low, high⟩ := regular.fresh
    have sum := regular.sum rfl (regular.amount _ rfl) low high
    rw [regular.maximum, Int32.le_iff_toInt_le, sum] at within
    refine back_of_status nofun ⟨_, .inl rfl, ?_⟩
    simp only [Pc.status, if_pos within]
    exact .stay
  | @full d n above =>
    have sum := regular.sum rfl (regular.amount _ rfl) nonneg below
    rw [regular.maximum, Int32.lt_iff_toInt_lt, sum] at above
    exact back_of_status nofun ⟨_, .inl rfl, .act (.postFalse (.inr above))⟩
  | @add d n c limit =>
    obtain ⟨sum, positive, within⟩ := regular.add
    refine back_of_status nofun ⟨_, .inl rfl, .act ?_⟩
    change Acts m.toInt d.current.toInt (.post n.toInt) (.done true) (d.current + n).toInt
    rw [sum]
    exact .postTrue positive within
  | pass | notify => exact back_of_status nofun ⟨_, .inl rfl, .stay⟩
  | readValue => exact back_of_status nofun ⟨_, .inl rfl, .act .current⟩
  | failNotify => cases stays
  | undo | setMax | badMax => cases usual

private theorem Effect.within_limit (effect : Effect d here d' next) (regular : Regular m d here) :
    0 ≤ d'.current.toInt ∧ d'.current.toInt ≤ m.toInt := by
  obtain ⟨nonneg, below⟩ := regular.range
  have usual := regular.usual
  cases effect with
  | tryTake some | take some =>
    obtain ⟨less, positive⟩ := toInt_take nonneg some
    change 0 ≤ (d.current - 1).toInt ∧ (d.current - 1).toInt ≤ _
    omega
  | @add d n c limit =>
    obtain ⟨sum, positive, within⟩ := regular.add
    change 0 ≤ (d.current + n).toInt ∧ (d.current + n).toInt ≤ _
    omega
  | undo => cases usual
  | _ => exact ⟨nonneg, below⟩

private theorem Effect.maximum_eq (effect : Effect d here d' next) (usual : here.usual = true) :
    d'.maximum = d.maximum := by
  cases effect with
  | setMax => cases usual
  | _ => rfl

theorem Effect.fresh (effect : Effect d here d' next) (regular : Regular m d here) :
    next.fresh m := by
  cases effect with
  | silent edge => cases edge.goes <;> trivial
  | readCurrent => exact regular.range
  | pass => exact regular.maximum
  | _ => trivial

theorem Effect.asks (effect : Effect d here d' next) (call : here ≠ .idle) {n : Int32}
    (asks : next.asks = some n) : here.asks = some n := by
  cases effect with
  | silent edge =>
    cases edge.goes with
    | callPost => exact absurd rfl call
    | postLocked => exact asks
    | _ => cases asks
  | readCurrent | under | pass | add | failNotify => exact asks
  | _ => cases asks

variable [DecidableEq Thread] {s s' : State Thread} {action : Action Thread} {i_set i_max : Int32}

theorem usual_of_goto {p : Pc} (same : s' = s.goto thread p) (usual : p.usual = true) :
    (s'.pc thread).usual = true := by
  subst same
  simpa [State.goto] using usual

private theorem next_usual (usual : (s.pc thread).usual = true) (taken : s.next thread = some s') :
    (s'.pc thread).usual = true := by
  cases here : s.pc thread <;> simp only [State.next, here] at taken <;> rw [here] at usual
  case idle | postNotify => cases taken
  case pollLoop | postUndo | setMaxWrite | setMaxReturn => cases usual
  case waitClock t =>
    cases taken
    refine usual_of_goto rfl ?_
    rcases waitPath_cases t true with path | ⟨_, path⟩ | ⟨no, _, _⟩
    · rw [path]; rfl
    · rw [path]; rfl
    · cases no
  case tryLock left =>
    obtain ⟨_, rfl⟩ := lock_eq_some taken
    cases left with
    | none => exact usual_of_goto rfl rfl
    | some left => cases usual
  case tryTest left =>
    cases left with
    | none => split at taken <;> cases taken <;> exact usual_of_goto rfl rfl
    | some left => cases usual
  case tryUnlock left got =>
    cases left with
    | none => cases taken; exact usual_of_goto rfl rfl
    | some left => cases usual
  case waitLock | waitRelock | postLock =>
    obtain ⟨_, rfl⟩ := lock_eq_some taken
    exact usual_of_goto rfl rfl
  case waitBlocked =>
    split at taken
    · cases taken
    · obtain ⟨_, rfl⟩ := lock_eq_some taken
      exact usual_of_goto rfl rfl
  case waitTest => split at taken <;> cases taken <;> exact usual_of_goto rfl rfl
  case postReadCurrent | postReadMaximum | postTest =>
    cases taken
    refine usual_of_goto rfl ?_
    split <;> rfl
  all_goals cases taken; exact usual_of_goto rfl rfl

theorem step_usual (ordinary : action.ordinary m) (usual : (s.pc action.thread).usual = true)
    (taken : step s action = some s') : (s'.pc action.thread).usual = true := by
  cases action with
  | call thread call =>
    simp only [step] at taken
    split at taken
    · cases taken
      refine usual_of_goto rfl ?_
      cases call with
      | setMax => cases ordinary
      | _ => rfl
    · cases taken
  | run thread => exact next_usual usual taken
  | notify thread woken =>
    simp only [step] at taken
    split at taken
    · split at taken
      · cases taken
        exact usual_of_goto rfl rfl
      · cases taken
    · cases taken
  | fail thread => cases ordinary
  | expire thread | wake thread =>
    simp only [step] at taken
    split at taken
    · cases taken
      exact usual_of_goto rfl rfl
    · cases taken

/-- What holds of every state of a run without failures, `SetMax` and overflow. -/
structure RunInvariant (m : Int32) (s : State Thread) : Prop where
  inv : Invariant s
  maximum : s.maximum = m
  range : 0 ≤ s.current.toInt ∧ s.current.toInt ≤ m.toInt
  asks : ∀ t n, (s.pc t).asks = some n → m.toInt + n.toInt < 2 ^ 31
  fresh : ∀ t, (s.pc t).fresh m
  usual : ∀ t, (s.pc t).usual = true

omit [DecidableEq Thread] in
theorem RunInvariant.regular (run : RunInvariant m s) (t : Thread) : Regular m s.data (s.pc t) where
  maximum := run.maximum
  range := run.range
  amount n amount := Int32.lt_iff_toInt_lt.mp (run.inv.amount t n amount)
  expects := run.inv.expects t
  within := run.inv.within t
  asks := run.asks t
  fresh := run.fresh t
  usual := run.usual t

theorem call_of_idle (taken : step s action = some s') (idle : s.pc action.thread = .idle) :
    ∃ call, action = .call action.thread call ∧ s' = s.goto action.thread call.entry := by
  cases action with
  | call thread call =>
    simp only [step] at taken
    split at taken
    · cases taken
      exact ⟨call, rfl, rfl⟩
    · cases taken
  | _ =>
    simp only [Action.thread] at idle
    simp [step, State.next, idle] at taken

private theorem asks_of_step (ordinary : action.ordinary m) (taken : step s action = some s')
    {n : Int32}
    (before : ∀ n, (s.pc action.thread).asks = some n → m.toInt + n.toInt < 2 ^ 31)
    (asks : (s'.pc action.thread).asks = some n) : m.toInt + n.toInt < 2 ^ 31 := by
  by_cases idle : s.pc action.thread = .idle
  · obtain ⟨call, same, rfl⟩ := call_of_idle taken idle
    rw [same] at ordinary
    simp only [State.goto, Function.update_self] at asks
    cases call with
    | post k =>
      cases asks
      exact ordinary
    | _ => cases asks
  · obtain ⟨p, moved, effect⟩ := step_effect taken
    rw [moved, Function.update_self] at asks
    exact before n (effect.asks idle asks)

theorem step_runInvariant (run : RunInvariant m s) (ordinary : action.ordinary m)
    (taken : step s action = some s') : RunInvariant m s' := by
  obtain ⟨p, moved, effect⟩ := step_effect taken
  have regular := run.regular action.thread
  refine ⟨step_invariant run.inv taken, (effect.maximum_eq regular.usual).trans run.maximum,
    effect.within_limit regular, ?_, ?_, ?_⟩
  · intro t n asks
    by_cases same : t = action.thread
    · subst same
      exact asks_of_step ordinary taken (run.asks _) asks
    · rw [moved, Function.update_of_ne same] at asks
      exact run.asks t n asks
  · intro t
    by_cases same : t = action.thread
    · subst same
      rw [moved, Function.update_self]
      exact effect.fresh regular
    · rw [moved, Function.update_of_ne same]
      exact run.fresh t
  · intro t
    by_cases same : t = action.thread
    · subst same
      exact step_usual ordinary (run.usual _) taken
    · rw [moved, Function.update_of_ne same]
      exact run.usual t

omit [DecidableEq Thread] in
private theorem call_back {call : Call} (idle : s.pc thread = .idle)
    (ordinary : (Action.call thread call).ordinary m) {value : ℤ} :
    ∀ after, call.entry.statuses m after → ∃ before, (s.pc thread).statuses m before ∧
      Local (Acts m.toInt) thread value before (observe s (.call thread call)) after value := by
  rw [idle]
  cases call with
  | setMax i => cases ordinary
  | wait t => exact back_of_status nofun ⟨_, .inl rfl, .call _⟩
  | post n => exact back_of_status nofun ⟨_, .inl rfl, .call _⟩
  | current => exact back_of_status nofun ⟨_, .inl rfl, .call _⟩

theorem observe_of_not_idle (taken : step s action = some s')
    (busy : s.pc action.thread ≠ .idle) :
    observe s action = (s.pc action.thread).returns action.thread := by
  cases action with
  | call thread call =>
    simp only [step] at taken
    split at taken
    · rename_i idle
      exact absurd idle busy
    · cases taken
  | _ => rfl

theorem step_back (run : RunInvariant m s) (ordinary : action.ordinary m)
    (taken : step s action = some s') :
    StepsBack (Acts m.toInt) (fun s => s.current.toInt) State.pc (Pc.statuses m) s s'
      (observe s action) := by
  by_cases idle : s.pc action.thread = .idle
  · obtain ⟨call, same, rfl⟩ := call_of_idle taken idle
    generalize action.thread = thread at same idle
    subst same
    exact ⟨thread, call.entry, rfl, call_back idle ordinary⟩
  · obtain ⟨p, moved, effect⟩ := step_effect taken
    have stays := step_usual ordinary (run.usual _) taken
    rw [moved, Function.update_self] at stays
    rw [observe_of_not_idle taken idle]
    exact ⟨action.thread, p, moved, effect.back idle (run.regular _) stays⟩

omit [DecidableEq Thread] in
theorem construct_runInvariant (made : construct i_set i_max = some s) : RunInvariant i_max s := by
  have inv := construct_invariant made
  obtain ⟨⟨ordered, nonneg, _, _⟩, rfl⟩ := construct_eq_some made
  rw [Int32.le_iff_toInt_le] at ordered nonneg
  exact ⟨inv, rfl, ⟨nonneg, ordered⟩, nofun, fun _ => trivial, fun _ => rfl⟩

/-- Every run without failures, `SetMax` and overflow is linearizable to the
atomic bounded counter. -/
theorem linearizable {last : State Thread} {actions : List (Action Thread)}
    (made : construct i_set i_max = some s)
    (ordinary : ∀ action ∈ actions, action.ordinary i_max)
    (ran : exec step s actions = some last) :
    Linearizable (Acts i_max.toInt) i_set.toInt (trace step observe s actions) := by
  have current : s.current = i_set := by
    obtain ⟨_, rfl⟩ := construct_eq_some made
    rfl
  have idle : ∀ t, s.pc t = .idle := by
    obtain ⟨_, rfl⟩ := construct_eq_some made
    exact fun _ => rfl
  have meets : Meets step (fun _ action => action.ordinary i_max) s actions :=
    .of_forall ordinary
  have back : ∀ (s : State Thread) action s', RunInvariant i_max s → Action.ordinary i_max action →
      step s action = some s' → StepsBack (Acts i_max.toInt) (fun s => s.current.toInt) State.pc
        (Pc.statuses i_max) s s' (observe s action) :=
    fun _ _ _ => step_back
  rw [← current]
  refine linearizable_of_stepsBack (fun _ _ _ => step_runInvariant) back
    (fun p => ⟨_, .inl rfl⟩) ?_ (construct_runInvariant made) meets ran
  intro t status compatible
  rw [idle t] at compatible
  have awake : ∀ timed, Pc.idle ≠ .waitBlocked timed := nofun
  exact (Pc.statuses_iff awake).mp compatible

def timeoutRun : List (Action (Fin 2)) :=
  .call 0 (.wait ⟨20000000⟩) :: List.replicate 3 (.run 0) ++ .expire 0 ::
    .call 1 (.post 1) :: List.replicate 5 (.run 1) ++
    [.notify 1 [], .run 1, .run 1, .run 0, .run 0, .run 0]

theorem linearizable_timeoutRun : Linearizable (Acts 3) 0
    (trace step observe (fresh 0 3 : State (Fin 2)) timeoutRun) := by
  obtain ⟨last, ran⟩ := Option.isSome_iff_exists.mp
    (show (exec step (fresh 0 3 : State (Fin 2)) timeoutRun).isSome = true by decide)
  have made : construct 0 3 = some (fresh 0 3 : State (Fin 2)) := rfl
  exact linearizable made (by decide) ran

end Prot.Lock.Semaphore
