import Prot.Lock.Monitor

/-! The calls on a condition variable come to an end: what begins either
returns, or waits for a wake-up that nobody has posted, or for a lock that
somebody holds outside. -/

namespace Prot.Lock.ConditionVariable

open Concurrency Time

/-- The most steps a thread can still make in its call. -/
def Pc.rank : Pc → ℕ
  | .idle => 0
  | .waitGetMtxi _ => 16
  | .waitGetMtxd _ => 15
  | .waitIncr _ => 14
  | .waitFreeMtxd _ => 13
  | .waitFreeMtxi _ => 12
  | .waitFreeLock _ => 11
  | .waitSemap _ => 10
  | .leaveGetMtxd _ => 9
  | .leaveDecr _ => 8
  | .leaveTestCount _ => 7
  | .leaveTestFlags _ => 6
  | .leaveFreeMtxd _ _ => 5
  | .leaveSet _ => 4
  | .leaveGetLock _ => 3
  | .leaveReturn _ => 2
  | .oneGetMtxi => 4
  | .oneTest => 3
  | .onePost => 2
  | .oneFreeMtxi _ => 1
  | .allGetMtxi => 10
  | .allGetMtxd => 9
  | .allRead => 8
  | .allRaise _ => 7
  | .allPost _ => 6
  | .allFreeMtxd _ => 5
  | .allRend _ => 4
  | .allReset _ => 3
  | .allClear _ => 2
  | .allSkip => 2
  | .allFreeMtxi _ => 1

variable {Thread : Type} [DecidableEq Thread] {d d' : Data} {here next : Pc}
variable {s s' : State Thread} {thread : Thread}

theorem Pc.rank_le (p : Pc) : p.rank ≤ 16 := by
  cases p <;> simp [Pc.rank]

theorem Effect.rank_lt (effect : Effect d here d' next) (busy : here ≠ .idle) :
    next.rank < here.rank := by
  cases effect with
  | silent edge =>
    cases edge with
    | call call => exact absurd rfl busy
    | waitFreedMtxi lock => cases lock <;> simp [Pc.rank]
    | @leaveFreedMtxd rv rn lock => cases rn <;> cases lock <;> simp [Pc.rank]
    | _ => simp [Pc.rank]
  | set lock => cases lock <;> simp [Pc.rank]
  | _ => simp [Pc.rank]

private theorem next_of_mtxd (inside : (s.pc thread).holdsMtxd = true) :
    (s.next thread).isSome := by
  cases here : s.pc thread <;> simp [here, Pc.holdsMtxd] at inside <;> simp [State.next, here]

/-- Where a thread is held up that does not wait for `mtxd`. -/
inductive Waits (s : State Thread) : Pc → Prop where
  | idle : Waits s .idle
  | wait (locked : s.mtxi ≠ none) : Waits s (.waitGetMtxi t)
  | one (locked : s.mtxi ≠ none) : Waits s .oneGetMtxi
  | all (locked : s.mtxi ≠ none) : Waits s .allGetMtxi
  | semap (empty : s.semap ≤ 0) : Waits s (.waitSemap t)
  | rend (unset : s.mrend = false) : Waits s (.allRend n)

private theorem waits_of_blocked (free : s.mtxd = none) (blocked : s.next thread = none) :
    Waits s (s.pc thread) := by
  have mtxi (p : Pc) (refused : s.getMtxi thread p = none) : s.mtxi ≠ none := by
    intro open_
    simp [State.getMtxi, open_, RecursiveMutex.lock] at refused
  cases here : s.pc thread <;> simp only [State.next, here] at blocked
  case idle => exact .idle
  case waitGetMtxi => exact .wait (mtxi _ blocked)
  case oneGetMtxi => exact .one (mtxi _ blocked)
  case allGetMtxi => exact .all (mtxi _ blocked)
  case waitSemap =>
    split at blocked
    · cases blocked
    · rename_i empty
      exact .semap (not_lt.mp empty)
  case allRend =>
    split at blocked
    · cases blocked
    · rename_i unset
      exact .rend (Bool.not_eq_true _ ▸ unset)
  case waitGetMtxd | leaveGetMtxd | allGetMtxd =>
    simp [State.getMtxd, free, RecursiveMutex.lock] at blocked
  all_goals cases blocked

variable [Fintype Thread]

/-- When nobody can go on, no `WakeAll` is among those who wait: the threads it
has woken, or the one that owes its signal, could. -/
theorem not_rend_of_waits {n : ℤ} (inv : Invariant s) (rend : Rendezvous s.data (roster s.pc))
    (waits : ∀ t, Waits s (s.pc t) ∨ ∃ rv, s.pc t = .leaveGetLock rv) : s.pc thread ≠ .allRend n := by
  intro blocked
  have unset : s.mrend = false := by
    rcases waits thread with wait | ⟨rv, here⟩
    · rw [blocked] at wait
      cases wait
      assumption
    · cases blocked.symm.trans here
  rcases answered inv rend blocked with set | ⟨_, u, owes⟩ | ⟨some, enough, _⟩
  · cases unset.symm.trans set
  · rcases waits u with wait | ⟨rv, here⟩
    · generalize s.pc u = p at owes wait
      cases wait <;> cases owes
    · rw [here] at owes
      cases owes
  · have registered : 0 < headcount Pc.registered s.pc := by
      have counted := inv.counted
      omega
    obtain ⟨u, inside⟩ := headcount_pos_iff.mp registered
    rcases waits u with wait | ⟨rv, here⟩
    · generalize here : s.pc u = p at inside wait
      cases wait with
      | semap empty =>
        have sleeping : 0 < headcount Pc.waiting s.pc := headcount_pos_iff.mpr ⟨u, by rw [here]; rfl⟩
        omega
      | _ => cases inside
    · rw [here] at inside
      cases inside

private theorem mtxi_free_of_waits (inv : Invariant s) (rend : Rendezvous s.data (roster s.pc))
    (waits : ∀ t, Waits s (s.pc t) ∨ ∃ rv, s.pc t = .leaveGetLock rv) : s.mtxi = none := by
  refine inv.mtxi.eq_none fun t => ?_
  have meets (n : ℤ) : s.pc t ≠ .allRend n := not_rend_of_waits inv rend waits
  rcases waits t with wait | ⟨rv, here⟩
  · generalize s.pc t = p at meets wait
    cases wait with
    | rend unset => exact absurd rfl (meets _)
    | _ => rfl
  · rw [here]
    rfl

private theorem rank_lt_of_step {action : Action Thread} (begun : ∀ t call, action ≠ .call t call)
    (taken : step s action = some s') : total Pc.rank s'.pc < total Pc.rank s.pc := by
  obtain ⟨p, moved, effect⟩ := step_effect taken
  have busy : s.pc action.thread ≠ .idle := by
    intro idle
    cases action with
    | call t call => exact begun t call rfl
    | run t => simp [step, State.next, show s.pc t = .idle from idle] at taken
    | expire t => simp [step, show s.pc t = .idle from idle] at taken
  have lower := effect.rank_lt busy
  have change := total_update Pc.rank s.pc action.thread p
  rw [moved]
  omega

namespace Monitor

variable {s s' : Monitor.State Thread} {actions : List (Monitor.Action Thread)}

/-- Every thread is outside, or sleeps without a limit while `semap` is empty,
or comes out of `Wait` and waits for a lock that somebody holds outside. -/
def Settled (s : Monitor.State Thread) : Prop :=
  ∀ thread, s.cv.pc thread = .idle ∨
    (∃ t, s.cv.pc thread = .waitSemap t ∧ t.infinitely = true ∧ s.cv.semap = 0) ∨
    ∃ rv holder, s.cv.pc thread = .leaveGetLock rv ∧ s.lock = some holder ∧ s.cv.pc holder = .idle

omit [Fintype Thread] in
private theorem next_of_stuck (stuck : ∀ action, action.inner = true → step s action = none)
    (thread : Thread) : s.cv.next thread = none ∨
      ∃ rv holder, s.cv.pc thread = .leaveGetLock rv ∧ s.lock = some holder := by
  have blocked := stuck (.cv (.run thread)) rfl
  cases locks : lockAfter thread s.lock (s.cv.pc thread) with
  | some lock =>
    simp only [step, locks, Option.bind_some, Option.map_eq_none_iff] at blocked
    exact .inl blocked
  | none =>
    refine .inr ?_
    cases here : s.cv.pc thread <;> simp only [here, lockAfter] at locks <;> try cases locks
    case leaveGetLock rv =>
      cases held : s.lock with
      | none => simp [held, Mutex.lock] at locks
      | some holder => exact ⟨rv, holder, rfl, rfl⟩

omit [Fintype Thread] in
private theorem infinitely_of_stuck (stuck : ∀ action, action.inner = true → step s action = none)
    {t : TimeUnit} (here : s.cv.pc thread = .waitSemap t) (empty : s.cv.semap ≤ 0) :
    t.infinitely = true := by
  have patient := stuck (.cv (.expire thread)) rfl
  simp only [step, ConditionVariable.step, here, Option.map_eq_none_iff] at patient
  by_contra limited
  simp [empty, limited] at patient

theorem settled_of_stuck (inv : Invariant s) (rend : Rendezvous s.cv.data (roster s.cv.pc))
    (stuck : ∀ action, action.inner = true → step s action = none) : Settled s := by
  have blocked := next_of_stuck stuck
  have mtxd : s.cv.mtxd = none := by
    refine inv.cv.mtxd.eq_none fun t => ?_
    by_contra inside
    have inside : (s.cv.pc t).holdsMtxd = true := by simpa using inside
    rcases blocked t with none_ | ⟨rv, _, here, _⟩
    · have goes := next_of_mtxd inside
      simp [none_] at goes
    · rw [here] at inside
      cases inside
  have waits (t : Thread) : Waits s.cv (s.cv.pc t) ∨ ∃ rv, s.cv.pc t = .leaveGetLock rv := by
    rcases blocked t with none_ | ⟨rv, _, here, _⟩
    · exact .inl (waits_of_blocked mtxd none_)
    · exact .inr ⟨rv, here⟩
  have mtxi := mtxi_free_of_waits inv.cv rend waits
  have outside (t : Thread) : s.cv.pc t = .idle ∨ (∃ t', s.cv.pc t = .waitSemap t' ∧ s.cv.semap ≤ 0) ∨
      ∃ rv, s.cv.pc t = .leaveGetLock rv := by
    have meets (n : ℤ) : s.cv.pc t ≠ .allRend n := not_rend_of_waits inv.cv rend waits
    rcases waits t with wait | behind
    · generalize s.cv.pc t = p at meets wait
      cases wait with
      | idle => exact .inl rfl
      | semap empty => exact .inr (.inl ⟨_, rfl, empty⟩)
      | rend unset => exact absurd rfl (meets _)
      | wait locked | one locked | all locked => exact absurd mtxi locked
    · exact .inr (.inr behind)
  intro t
  rcases blocked t with none_ | ⟨rv, holder, here, held⟩
  · rcases outside t with idle | ⟨t', here, empty⟩ | ⟨rv, here⟩
    · exact .inl idle
    · exact .inr (.inl ⟨t', here, infinitely_of_stuck stuck here empty, le_antisymm empty inv.cv.semap⟩)
    · simp [State.next, here] at none_
  · refine .inr (.inr ⟨rv, holder, here, held, ?_⟩)
    rcases outside holder with idle | ⟨t', away, _⟩ | ⟨rv', away⟩
    · exact idle
    · have apart := inv.held holder false (by rw [away]; rfl)
      simp [held] at apart
    · have apart := inv.held holder false (by rw [away]; rfl)
      simp [held] at apart

def State.rank (s : Monitor.State Thread) : ℕ := total Pc.rank s.cv.pc

omit [DecidableEq Thread] in
theorem State.rank_le (s : Monitor.State Thread) : s.rank ≤ 16 * Fintype.card Thread := by
  have most : s.rank ≤ ∑ _ : Thread, 16 := Finset.sum_le_sum fun t _ => (s.cv.pc t).rank_le
  simp only [Finset.sum_const, Finset.card_univ, smul_eq_mul] at most
  omega

theorem step_rank_lt {action : Monitor.Action Thread} (inner : action.inner = true)
    (taken : step s action = some s') : s'.rank < s.rank := by
  cases step_effect taken with
  | get | free | call => cases inner
  | run thread cv lock locks moved => exact rank_lt_of_step (fun _ _ same => by cases same) moved
  | expire thread cv moved => exact rank_lt_of_step (fun _ _ same => by cases same) moved

theorem exec_step_rendezvous (accepted : Meets step PostsAccepted start actions)
    (ran : exec step start actions = some s) : Rendezvous s.cv.data (roster s.cv.pc) := by
  have both : Invariant s ∧ Rendezvous s.cv.data (roster s.cv.pc) := by
    refine exec_invariant_of_meets
      (fun s : Monitor.State Thread => Invariant s ∧ Rendezvous s.cv.data (roster s.cv.pc))
      (fun s action s' before fine taken => ?_) ⟨start_invariant, init_rendezvous true⟩ accepted ran
    obtain ⟨inv, rend⟩ := before
    refine ⟨step_invariant inv taken, ?_⟩
    rcases (step_effect taken).cv_step with same | ⟨inner, rfl, moved⟩
    · rwa [same]
    · exact step_rendezvous inv.cv rend fine moved
  exact both.2

/-- Once no more calls begin, the calls in progress come to an end within sixteen steps
for each thread, and leave nobody but those who wait for a wake-up that is not
there or for a lock that is held outside. -/
theorem settles (accepted : Meets step PostsAccepted start actions)
    (ran : exec step start actions = some s) :
    (∀ rest last, (∀ action ∈ rest, action.inner = true) → exec step s rest = some last →
      rest.length ≤ 16 * Fintype.card Thread) ∧
    ((∀ action, action.inner = true → step s action = none) → Settled s) := by
  refine ⟨fun rest last inner continued => ?_, settled_of_stuck (exec_step_invariant ran)
    (exec_step_rendezvous accepted ran)⟩
  have meets : Meets step (fun _ action => action.inner = true) s rest := .of_forall inner
  have falls := exec_length_le State.rank (fun _ => True) (fun _ _ _ _ _ _ => trivial)
    (fun _ _ _ _ inner taken => step_rank_lt inner taken) trivial meets continued
  have most := s.rank_le
  omega

def wakingRun : List (Monitor.Action (Fin 2)) :=
  lockedRun ++ .cv (.call 1 .wakeAll) :: List.replicate 6 (.cv (.run 1))

theorem settles_wakingRun : ∃ s, exec step start wakingRun = some s ∧ s.cv.pc 1 = .allRend 1 ∧
    ((∀ action, action.inner = true → step s action = none) → Settled s) := by
  obtain ⟨s, ran, meets⟩ : ∃ s, exec step start wakingRun = some s ∧ s.cv.pc 1 = .allRend 1 := by
    have ends : (exec step start wakingRun).map (fun s => s.cv.pc 1) = some (.allRend 1) := by decide
    simpa [Option.map_eq_some_iff] using ends
  exact ⟨s, ran, meets, (settles (by decide) ran).2⟩

end Monitor

end Prot.Lock.ConditionVariable
