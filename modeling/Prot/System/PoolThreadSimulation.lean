import Prot.System.PoolThreadOwnerRefines
import Prot.System.PoolThreadServed

/-! The worker's steps, and the runs of the whole system. -/

namespace Prot.System.PoolThread.Layers

open Concurrency Time Lock

variable {Arg : Type} {s s' : State Arg} {t : PoolThread.State Arg} {action : Action Arg} {k : ℕ}
variable {worker : Worker} {w x : PoolThread.Worker} {pin pout : Event.Pc} {hasExit : Bool}
variable {place : Thread.Place Unit}

section Worker

/-- The worker is in its function, and inside neither event. -/
structure WorkerFree (s : State Arg) : Prop where
  sigIn : (s.sig .sigIn).pc (.worker 0) = .idle
  sigOut : (s.sig .sigOut).pc (.worker 0) = .idle
  place : s.thread.place 0 = .running ()
  hasExit : s.thread.data.flag.hasExit = false

theorem WorkerAt.in_func (at_ : WorkerAt hasExit place worker pin pout w) (running : inFunc place = true) :
    hasExit = false ∧ place = .running () := by
  cases at_ with
  | unborn => cases running
  | entering before => obtain rfl | rfl | rfl | rfl := before <;> cases running
  | exiting before => obtain rfl | rfl := before <;> cases running
  | exited after => obtain rfl | ⟨_, rfl | rfl⟩ | rfl | rfl := after <;> cases running
  | _ => exact ⟨rfl, rfl⟩

theorem WorkerAt.of_outside (at_ : WorkerAt false (.running ()) worker pin pout w)
    (same : worker.outside = some x) : w = x ∧ pin = .idle ∧ pout = .idle := by
  cases at_ with
  | entering before => simp at before
  | exiting before => simp at before
  | outside other => exact ⟨Option.some.inj (other.symm.trans same), rfl, rfl⟩
  | _ => cases same

theorem Represents.worker_at (rep : Represents s t) (running : inFunc (s.thread.place 0) = true)
    (here : s.worker 0 = worker) : WorkerAt false (.running ()) worker
      ((s.sig .sigIn).pc (.worker 0)) ((s.sig .sigOut).pc (.worker 0)) t.worker := by
  obtain ⟨hasExit, place⟩ := rep.worker.in_func running
  have at_ := rep.worker
  rwa [hasExit, place, here] at at_

theorem Represents.worker_outside (rep : Represents s t) (running : inFunc (s.thread.place 0) = true)
    (here : s.worker 0 = worker) (same : worker.outside = some x) : t.worker = x ∧ WorkerFree s := by
  obtain ⟨hasExit, place⟩ := rep.worker.in_func running
  obtain ⟨at_, sigIn, sigOut⟩ := (rep.worker_at running here).of_outside same
  exact ⟨at_, sigIn, sigOut, place, hasExit⟩

/-- The worker moves on in `pthread.cc`, with what it writes. -/
theorem Represents.worker_goes (rep : Represents s t) (free : WorkerFree s) {flag flag' : Flag}
    {deleted deleted' finished : ℕ} {called : List Arg} (sameFlag : flag' = flag)
    (sameDeleted : deleted' = deleted) (same : worker.outside = some x)
    (starting : flag'.starting = false → t.flag.starting = false) :
    Represents ({ s with flag := flag, deleted := deleted }.moveTo 0 worker)
      { t with
        flag := flag', deleted := deleted', worker := x, called := called, finished := finished } := by
  have at_ : WorkerAt s.thread.data.flag.hasExit (s.thread.place 0) (Function.update s.worker 0 worker 0)
      ((s.sig .sigIn).pc (.worker 0)) ((s.sig .sigOut).pc (.worker 0)) x := by
    rw [Function.update_self, free.hasExit, free.place, free.sigIn, free.sigOut]
    exact .outside same
  exact { rep with
    flag := sameFlag, deleted := sameDeleted, worker := at_
    starting := fun off => rep.starting (starting off) }

/-- The worker enters an operation of an event. -/
theorem Represents.worker_enters (rep : Represents s t) (free : WorkerFree s) {side : Side}
    {call : Event.Call} {sig : Side → Event.State Party}
    (entered : s.enter side (.worker 0) call = some sig)
    (at_ : WorkerAt false (.running ()) worker
      (Function.update (fun _ => Event.Pc.idle) side call.entry .sigIn)
      (Function.update (fun _ => Event.Pc.idle) side call.entry .sigOut) t.worker) :
    Simulated ({ s with sig := sig }.moveTo 0 worker) t none := by
  obtain ⟨e, taken, rfl⟩ := Option.map_eq_some_iff.mp entered
  have settled := Event.step_settled (rep.settled side) rfl taken
  obtain ⟨_, rfl⟩ : _ ∧ e = (s.sig side).goto (.worker 0) call.entry := by
    simp only [Event.step] at taken
    split at taken
    · exact ⟨‹_›, (Option.some.inj taken).symm⟩
    · cases taken
  refine .hidden rfl (rep.of_worker rfl (rep.manual side) settled ?_ ?_ ?_)
  · cases side <;> simp [Event.State.goto, rep.sigIn]
  · cases side <;> simp [Event.State.goto, rep.sigOut]
  · rw [free.hasExit, free.place]
    cases side <;> simpa [Event.State.goto, free.sigIn, free.sigOut] using at_

/-- Only the first worker is ever born. -/
theorem Represents.first (rep : Represents s t) (there : s.thread.place k ≠ .unborn) : k = 0 := by
  by_contra later
  exact there (rep.single.unborn k (rep.single.born.trans (Nat.one_le_iff_ne_zero.mpr later)))

private theorem workerNext_seen (rep : Represents s t) (flags : FlagInvariant t)
    (running : inFunc (s.thread.place 0) = true) (taken : s.workerNext 0 = some s') :
    Simulated s' t (observe s (.worker 0)) := by
  cases here : s.worker 0 <;> simp only [State.workerNext, here] at taken
  case inWaitIn | inResetIn | inSetOut | returned => cases taken
  case waitIn =>
    obtain ⟨at_, free⟩ := rep.worker_outside running here rfl
    obtain ⟨sig, entered, rfl⟩ := Option.map_eq_some_iff.mp taken
    have seen : Simulated ({ s with sig := sig }.moveTo 0 .inWaitIn) t none :=
      rep.worker_enters free entered (at_ ▸ .waiting rfl)
    simpa [observe, here] using seen
  case resetIn =>
    obtain ⟨at_, free⟩ := rep.worker_outside running here rfl
    obtain ⟨sig, entered, rfl⟩ := Option.map_eq_some_iff.mp taken
    have seen : Simulated ({ s with sig := sig }.moveTo 0 .inResetIn) t none :=
      rep.worker_enters free entered (at_ ▸ .resetting rfl)
    simpa [observe, here] using seen
  case setOut =>
    obtain ⟨at_, free⟩ := rep.worker_outside running here rfl
    obtain ⟨sig, entered, rfl⟩ := Option.map_eq_some_iff.mp taken
    have seen : Simulated ({ s with sig := sig }.moveTo 0 .inSetOut) t none :=
      rep.worker_enters free entered (at_ ▸ .setting rfl)
    simpa [observe, here] using seen
  case test =>
    obtain ⟨at_, free⟩ := rep.worker_outside running here rfl
    cases taken
    refine .move .worker { t with worker := if s.flag.detached then .testHasExit else .waitIn }
      rfl ?_ ?_ (rep.worker_goes free rep.flag rep.deleted ?_ fun same => same)
    · simp [PoolThread.step, PoolThread.State.workerNext, at_, rep.flag]
    · simp [observe, PoolThread.observe, here, at_]
    · split <;> rfl
  case readFunc =>
    obtain ⟨at_, free⟩ := rep.worker_outside running here rfl
    cases taken
    refine .move .worker { t with worker := if s.func then .callFunc else .testHasExit } rfl ?_ ?_
      (rep.worker_goes free rep.flag rep.deleted ?_ fun same => same)
    · simp [PoolThread.step, PoolThread.State.workerNext, at_, rep.func]
    · simp [observe, PoolThread.observe, here, at_]
    · split <;> rfl
  case callFunc =>
    obtain ⟨at_, free⟩ := rep.worker_outside running here rfl
    cases taken
    refine .move .worker { t with called := t.called ++ [t.args], worker := .running } rfl ?_ ?_
      (rep.worker_goes free rep.flag rep.deleted rfl fun same => same)
    · simp [PoolThread.step, PoolThread.State.workerNext, at_]
    · simp [observe, PoolThread.observe, here, at_, rep.args]
  case running =>
    obtain ⟨at_, free⟩ := rep.worker_outside running here rfl
    cases taken
    refine .move .worker { t with finished := t.finished + 1, worker := .resetIn } rfl ?_ ?_
      (rep.worker_goes free rep.flag rep.deleted rfl fun same => same)
    · simp [PoolThread.step, PoolThread.State.workerNext, at_]
    · simp [observe, PoolThread.observe, here, at_]
  case readFlag =>
    obtain ⟨at_, free⟩ := rep.worker_outside running here rfl
    cases taken
    refine .move .worker { t with worker := .writeFlag { s.flag with activing := false } } rfl ?_ ?_
      (rep.worker_goes free rep.flag rep.deleted rfl fun same => same)
    · simp [PoolThread.step, PoolThread.State.workerNext, at_, rep.flag]
    · simp [observe, PoolThread.observe, here, at_]
  case writeFlag flag =>
    obtain ⟨at_, free⟩ := rep.worker_outside running here rfl
    cases taken
    refine .move .worker { t with flag := flag, worker := .setOut } rfl ?_ ?_
      (rep.worker_goes free rfl rep.deleted rfl fun off => ?_)
    · simp [PoolThread.step, PoolThread.State.workerNext, at_]
    · simp [observe, PoolThread.observe, here, at_]
    · rw [← (flags.worker _ at_).1.starting, off]
  case testHasExit =>
    obtain ⟨at_, free⟩ := rep.worker_outside running here rfl
    cases taken
    refine .move .worker { t with worker := if s.flag.hasExit then .returned else .delete } rfl ?_ ?_
      (rep.worker_goes free rep.flag rep.deleted ?_ fun same => same)
    · simp [PoolThread.step, PoolThread.State.workerNext, at_, rep.flag]
    · simp [observe, PoolThread.observe, here, at_]
    · split <;> rfl
  case delete =>
    obtain ⟨at_, free⟩ := rep.worker_outside running here rfl
    cases taken
    refine .move .worker { t with deleted := t.deleted + 1, worker := .returned } rfl ?_ ?_
      (rep.worker_goes free rep.flag (congrArg (· + 1) rep.deleted) rfl fun same => same)
    · simp [PoolThread.step, PoolThread.State.workerNext, at_]
    · simp [observe, PoolThread.observe, here, at_]

end Worker

section WorkerEvents

variable {side : Side} {e : Event.State Party} {p : Event.Pc} {inner : Event.Action Party}

/-- A step inside an event that its state does not show. -/
theorem Represents.worker_stays (rep : Represents s t) (running : inFunc (s.thread.place 0) = true)
    (inside : Inside (s.sig side) e (.worker 0) p) (still : e.state = (s.sig side).state)
    (idle : ∀ other, other ≠ side → (s.sig other).pc (.worker 0) = .idle)
    (at_ : WorkerAt false (.running ()) worker (Function.update (fun _ => Event.Pc.idle) side p .sigIn)
      (Function.update (fun _ => Event.Pc.idle) side p .sigOut) t.worker) :
    Simulated ({ s with sig := Function.update s.sig side e }.moveTo 0 worker) t none := by
  obtain ⟨hasExit, place⟩ := rep.worker.in_func running
  refine .hidden rfl (rep.of_worker inside.moved inside.manual inside.settled ?_ ?_ ?_)
  · cases side <;> simp [still, rep.sigIn]
  · cases side <;> simp [still, rep.sigOut]
  · rw [hasExit, place]
    cases side
    · simpa [inside.moved, idle .sigOut (by rintro ⟨⟩)] using at_
    · simpa [inside.moved, idle .sigIn (by rintro ⟨⟩)] using at_

private theorem WorkerAt.of_inResetIn (at_ : WorkerAt false (.running ()) .inResetIn pin pout w) :
    pout = .idle ∧ (pin.status = .called .reset ∧ w = .resetIn ∨
      pin.status = .acted .done ∧ w = .readFlag) := by
  cases at_ with
  | outside same => cases same
  | resetting pending => exact ⟨rfl, .inl ⟨pending, rfl⟩⟩
  | reset acted => exact ⟨rfl, .inr ⟨acted, rfl⟩⟩

private theorem WorkerAt.of_inSetOut (at_ : WorkerAt false (.running ()) .inSetOut pin pout w) :
    pin = .idle ∧ (pout.status = .called .set ∧ w = .setOut ∨
      pout.status = .acted .done ∧ w = .test) := by
  cases at_ with
  | outside same => cases same
  | setting pending => exact ⟨rfl, .inl ⟨pending, rfl⟩⟩
  | set acted => exact ⟨rfl, .inr ⟨acted, rfl⟩⟩

private theorem WorkerAt.of_inWaitIn (at_ : WorkerAt false (.running ()) .inWaitIn pin pout w) :
    pout = .idle ∧ (Awaits .infinite pin ∧ w = .waitIn ∨
      pin.status = .acted (.answer true) ∧ w = .readFunc) := by
  cases at_ with
  | outside same => cases same
  | waiting pending => exact ⟨rfl, .inl ⟨pending, rfl⟩⟩
  | waited acted => exact ⟨rfl, .inr ⟨acted, rfl⟩⟩

/-- The worker moves on inside `Set` or `Reset`, from where it stands for `before` to
where it stands for `after`. -/
theorem worker_writes {op : Event.Op} {v : Bool} {before after : PoolThread.Worker} {out : Worker}
    (rep : Represents s t) (running : inFunc (s.thread.place 0) = true)
    (inside : Inside (s.sig side) e (.worker 0) p) (writes : written op = some v)
    (idle : ∀ other, other ≠ side → (s.sig other).pc (.worker 0) = .idle)
    (now : ((s.sig side).pc (.worker 0)).status = .called op ∧ t.worker = before ∨
      ((s.sig side).pc (.worker 0)).status = .acted .done ∧ t.worker = after)
    (pending : ∀ p : Event.Pc, p.status = .called op →
      WorkerAt false (.running ()) (s.worker 0) (Function.update (fun _ => Event.Pc.idle) side p .sigIn)
        (Function.update (fun _ => Event.Pc.idle) side p .sigOut) before)
    (acted : ∀ p : Event.Pc, p.status = .acted .done →
      WorkerAt false (.running ()) (s.worker 0) (Function.update (fun _ => Event.Pc.idle) side p .sigIn)
        (Function.update (fun _ => Event.Pc.idle) side p .sigOut) after)
    (leaves : out.outside = some after)
    (step : t.worker = before → PoolThread.step t .worker = some
      { t with
        sigIn := if side = .sigIn then v else t.sigIn
        sigOut := if side = .sigOut then v else t.sigOut, worker := after })
    (silent : t.worker = before → PoolThread.observe t .worker = none) :
    Simulated ({ s with sig := Function.update s.sig side e }.moveTo 0
      (if p = Event.Pc.idle then out else s.worker 0)) t none := by
  have acts := inside.acts
  obtain ⟨called, at_⟩ | ⟨fine, at_⟩ := now
  · rw [called] at acts
    obtain ⟨called, still⟩ | ⟨res, done, act⟩ := acts.of_called
    · rw [if_neg (busy_of_status called)]
      exact rep.worker_stays running inside still idle (at_ ▸ pending p called)
    · obtain ⟨rfl, new⟩ := acts_written act writes
      obtain ⟨hasExit, place⟩ := rep.worker.in_func running
      rw [if_neg (busy_of_acted done)]
      refine .move .worker _ rfl (step at_) (silent at_)
        (rep.of_worker inside.moved inside.manual inside.settled ?_ ?_ ?_)
      · cases side <;> simp [new, rep.sigIn]
      · cases side <;> simp [new, rep.sigOut]
      · rw [hasExit, place]
        cases side
        · simpa [inside.moved, idle .sigOut (by rintro ⟨⟩)] using acted p done
        · simpa [inside.moved, idle .sigIn (by rintro ⟨⟩)] using acted p done
  · rw [fine] at acts
    obtain ⟨still, done | ⟨returned, shown⟩⟩ := acts.of_acted
    · rw [if_neg (busy_of_acted done)]
      exact rep.worker_stays running inside still idle (at_ ▸ acted p done)
    · rw [if_pos (status_idle returned)]
      refine rep.worker_stays running inside still idle ?_
      rw [at_, status_idle returned]
      cases side <;> exact .outside leaves

private theorem worker_wait_seen (rep : Represents s t) (running : inFunc (s.thread.place 0) = true)
    (here : s.worker 0 = .inWaitIn) (inside : Inside (s.sig .sigIn) e (.worker 0) p) :
    Simulated ({ s with sig := Function.update s.sig .sigIn e }.moveTo 0
      (if p = Event.Pc.idle then .readFunc else s.worker 0)) t none := by
  obtain ⟨sigOut, now⟩ := (rep.worker_at running here).of_inWaitIn
  have idle : ∀ other : Side, other ≠ .sigIn → (s.sig other).pc (.worker 0) = .idle :=
    idle_elsewhere (by rintro ⟨⟩) (fun _ => sigOut)
  obtain ⟨awaits, at_⟩ | ⟨acted, at_⟩ := now
  · obtain ⟨still, awaits | ⟨rv, done, answer, answers⟩⟩ := inside.awaits .infinite awaits
    · have busy : p ≠ .idle := by
        rintro rfl
        cases awaits
      rw [if_neg busy, here]
      exact rep.worker_stays running inside still idle (at_ ▸ .waiting awaits)
    · obtain rfl : rv = true := by
        by_contra off
        have finite := answers (by simpa using off)
        cases finite
      rw [if_neg (busy_of_acted done), here]
      obtain ⟨hasExit, place⟩ := rep.worker.in_func running
      have state : t.sigIn = true := rep.sigIn.trans answer
      have after : Represents ({ s with sig := Function.update s.sig .sigIn e }.moveTo 0 .inWaitIn)
          { t with worker := .readFunc } := by
        have sigIn_eq : t.sigIn = (Function.update s.sig .sigIn e .sigIn).state := by
          simp [rep.sigIn, still]
        have sigOut_eq : t.sigOut = (Function.update s.sig .sigIn e .sigOut).state := by simp [rep.sigOut]
        refine rep.of_worker inside.moved inside.manual inside.settled sigIn_eq sigOut_eq ?_
        rw [hasExit, place]
        simpa [inside.moved, sigOut] using .waited done
      refine .move .worker _ rfl ?_ ?_ after
      · simp [PoolThread.step, PoolThread.State.workerNext, at_, state]
      · simp [PoolThread.observe, at_]
  · have acts := inside.acts
    rw [acted] at acts
    obtain ⟨still, done | ⟨returned, shown⟩⟩ := acts.of_acted
    · rw [if_neg (busy_of_acted done), here]
      exact rep.worker_stays running inside still idle (at_ ▸ .waited done)
    · rw [if_pos (status_idle returned)]
      refine rep.worker_stays running inside still idle ?_
      rw [at_, status_idle returned]
      exact .outside rfl

private theorem workerEvent_seen (rep : Represents s t) (succeeds : inner.fails = false)
    (ongoing : begins inner = false) (own : inner.thread = .worker k)
    (taken : s.workerEvent k side inner = some s') : Simulated s' t none := by
  unfold State.workerEvent at taken
  split at taken
  · rename_i there
    obtain ⟨there, running⟩ := there
    obtain rfl : k = 0 := rep.first fun unborn => by
      rw [unborn] at running
      cases running
    obtain ⟨e, moved, rfl⟩ := Option.map_eq_some_iff.mp taken
    obtain ⟨p, inside⟩ := event_inside (rep.manual side) (rep.settled side) succeeds ongoing moved
    rw [own] at inside
    rw [inside.moved, Function.update_self]
    cases here : s.worker 0 with
    | inWaitIn =>
      rw [here] at there
      cases there
      simpa [here, Worker.afterEvent] using worker_wait_seen rep running here inside
    | inResetIn =>
      rw [here] at there
      cases there
      obtain ⟨sigOut, now⟩ := (rep.worker_at running here).of_inResetIn
      have seen := worker_writes rep running inside rfl (idle_elsewhere (by rintro ⟨⟩) (fun _ => sigOut)) now
        (fun _ called => here ▸ .resetting called) (fun _ done => here ▸ .reset done)
        (rfl : Worker.readFlag.outside = some _)
        (fun at_ => by simp [PoolThread.step, PoolThread.State.workerNext, at_])
        (fun at_ => by simp [PoolThread.observe, at_])
      simpa [here, Worker.afterEvent] using seen
    | inSetOut =>
      rw [here] at there
      cases there
      obtain ⟨sigIn, now⟩ := (rep.worker_at running here).of_inSetOut
      have seen := worker_writes rep running inside rfl (idle_elsewhere (fun _ => sigIn) (by rintro ⟨⟩)) now
        (fun _ called => here ▸ .setting called) (fun _ done => here ▸ .set done)
        (rfl : Worker.test.outside = some _)
        (fun at_ => by simp [PoolThread.step, PoolThread.State.workerNext, at_])
        (fun at_ => by simp [PoolThread.observe, at_])
      simpa [here, Worker.afterEvent] using seen
    | _ =>
      rw [here] at there
      cases there
  · cases taken

end WorkerEvents

section Places

/-- The worker moves on outside its function. -/
theorem Represents.moves (rep : Represents s t) (there : s.thread.place 0 ≠ .unborn)
    {data : Thread.Data Unit Unit} {freed : ℕ} {online : Bool} (tid : data.tid = s.thread.data.tid)
    (handle : data.thread = s.thread.data.thread) (seen : online = data.online)
    (at_ : WorkerAt data.flag.hasExit place (s.worker 0) ((s.sig .sigIn).pc (.worker 0))
      ((s.sig .sigOut).pc (.worker 0)) x) :
    Represents { s with thread := { s.thread with freed := freed }.move 0 data place }
      { t with online := online, worker := x } := by
  have announces : announced ({ s.thread with freed := freed }.move 0 data place) = announced s.thread := by
    unfold announced
    rw [← tid]
    rfl
  have owner := rep.owner
  rw [← tid, ← handle] at owner
  have unstarted (was : Unstarted s.thread) :
      Unstarted ({ s.thread with freed := freed }.move 0 data place) :=
    ⟨was.born, tid.trans was.tid, was.quiet⟩
  have unborn (k : ℕ) (late : s.thread.born ≤ k) : Function.update s.thread.place 0 place k = .unborn := by
    have apart : k ≠ 0 := by
      rintro rfl
      exact there (rep.single.unborn 0 late)
    rw [Function.update_of_ne apart]
    exact rep.single.unborn k late
  have worker : WorkerAt data.flag.hasExit (Function.update s.thread.place 0 place 0) (s.worker 0)
      ((s.sig .sigIn).pc (.worker 0)) ((s.sig .sigOut).pc (.worker 0)) x := by
    rwa [Function.update_self]
  exact { rep with
    tid := rep.tid.trans (by rw [announces]), online := seen, owner := owner, worker := worker
    single := ⟨rep.single.born, unborn, rep.single.calm⟩
    starting := fun off => unstarted (rep.starting off)
    creating := fun a here => unstarted (rep.creating a here) }

private theorem WorkerAt.of_exit (at_ : WorkerAt hasExit place worker pin pout w)
    (here : place = .exitLock ∨ place = .exitMark) :
    hasExit = false ∧ worker = .returned ∧ pin = .idle ∧ pout = .idle ∧ w = .returned := by
  cases at_ with
  | exiting before => exact ⟨rfl, rfl, rfl, rfl, rfl⟩
  | entering before => obtain rfl | rfl | rfl | rfl := before <;> simp at here
  | exited after => obtain rfl | ⟨_, rfl | rfl⟩ | rfl | rfl := after <;> simp at here
  | _ => simp at here

private theorem WorkerAt.of_entering (at_ : WorkerAt hasExit place worker pin pout w)
    (here : place = .setSpecific ∨ place = .setCancelType ∨ place = .readFunc ∨ place = .readArgs) :
    hasExit = false ∧ worker = .test ∧ pin = .idle ∧ pout = .idle ∧ w = .test := by
  cases at_ with
  | entering before => exact ⟨rfl, rfl, rfl, rfl, rfl⟩
  | exiting before => obtain rfl | rfl := before <;> simp at here
  | exited after => obtain rfl | ⟨_, rfl | rfl⟩ | rfl | rfl := after <;> simp at here
  | _ => simp at here

private theorem WorkerAt.of_exited (at_ : WorkerAt hasExit place worker pin pout w)
    (here : place = .exitTest ∨ (∃ b, place = .exitBroadcast b ∨ place = .exitUnlock b) ∨
      place = .exitFree) :
    hasExit = true ∧ worker = .returned ∧ pin = .idle ∧ pout = .idle ∧ w = .exited := by
  cases at_ with
  | exited after => exact ⟨rfl, rfl, rfl, rfl, rfl⟩
  | entering before => obtain rfl | rfl | rfl | rfl := before <;> simp at here
  | exiting before => obtain rfl | rfl := before <;> simp at here
  | _ => simp at here

private theorem place_seen {thr : Thread.State Unit Unit} (rep : Represents s t)
    (permitted : s.permits (.thread k) = true) (taken : s.thread.threadNext k = some thr) :
    Simulated { s with thread := thr } t none := by
  have there : s.thread.place k ≠ .unborn := by
    intro unborn
    simp [Thread.State.threadNext, unborn] at taken
  obtain rfl := rep.first there
  have at_ := rep.worker
  have stays {data : Thread.Data Unit Unit} {freed : ℕ} {place : Thread.Place Unit}
      (tid : data.tid = s.thread.data.tid) (handle : data.thread = s.thread.data.thread)
      (flag : data.flag = s.thread.data.flag)
      (at_ : WorkerAt s.thread.data.flag.hasExit place (s.worker 0) ((s.sig .sigIn).pc (.worker 0))
        ((s.sig .sigOut).pc (.worker 0)) t.worker) :
      Simulated { s with thread := { s.thread with freed := freed }.move 0 data place } t none := by
    have online : t.online = data.online := by
      rw [rep.online, Thread.Data.online, Thread.Data.online, handle, flag]
    exact .hidden rfl (rep.moves there tid handle online (flag ▸ at_))
  cases here : s.thread.place 0 with
  | unborn => exact absurd here there
  | setSpecific | setCancelType | readFunc | readArgs =>
    simp only [Thread.State.threadNext, here] at taken
    cases taken
    obtain ⟨hasExit, worker, pin, pout, w⟩ := at_.of_entering (by simp [here])
    refine stays rfl rfl rfl ?_
    rw [hasExit, worker, pin, pout, w]
    first | exact .outside rfl | exact .entering (by simp)
  | running =>
    simp only [Thread.State.threadNext, here] at taken
    cases taken
    have ended : s.worker 0 = .returned := by
      simpa [State.permits, inFunc, here] using permitted
    obtain ⟨w, free⟩ := rep.worker_outside (by rw [here]; rfl) ended rfl
    refine stays rfl rfl rfl ?_
    rw [free.hasExit, ended, free.sigIn, free.sigOut, w]
    exact .exiting (.inl rfl)
  | exitLock =>
    simp only [Thread.State.threadNext, here] at taken
    obtain ⟨mutex, -, rfl⟩ := Option.map_eq_some_iff.mp taken
    obtain ⟨hasExit, worker, pin, pout, w⟩ := at_.of_exit (by simp [here])
    refine stays rfl rfl rfl ?_
    rw [hasExit, worker, pin, pout, w]
    exact .exiting (.inr rfl)
  | exitMark =>
    -- the instant of the exit: `TDFLAG_HAS_EXIT` is what `Status` looks at
    simp only [Thread.State.threadNext, here] at taken
    cases taken
    obtain ⟨hasExit, worker, pin, pout, w⟩ := at_.of_exit (by simp [here])
    refine .move .worker { t with online := false, worker := .exited } rfl ?_ ?_
      (rep.moves there rfl rfl ?_ ?_)
    · simp [PoolThread.step, PoolThread.State.workerNext, w]
    · simp [PoolThread.observe, w]
    · simp [Thread.Data.online]
    · rw [worker, pin, pout]
      exact .exited (.inl rfl)
  | exitTest | exitBroadcast | exitUnlock | exitFree =>
    simp only [Thread.State.threadNext, here] at taken
    cases taken
    obtain ⟨hasExit, worker, pin, pout, w⟩ := at_.of_exited (by simp [here])
    refine stays rfl rfl rfl ?_
    rw [hasExit, worker, pin, pout, w]
    exact .exited (by simp)
  | ended => simp [Thread.State.threadNext, here] at taken

end Places

section Steps

private theorem threadNext_pc {thr next : Thread.State Unit Unit}
    (taken : thr.threadNext k = some next) :
    next.pc = thr.pc := by
  unfold Thread.State.threadNext at taken
  split at taken
  case h_8 =>
    obtain ⟨_, -, rfl⟩ := Option.map_eq_some_iff.mp taken
    rfl
  all_goals cases taken
  all_goals rfl

private theorem threadNext_seen {action : Thread.Action Unit Unit} (rep : Represents s t)
    (flags : FlagInvariant t)
    (usual : Usual s (.thread action)) (taken : s.threadNext action = some s') : Simulated s' t none := by
  obtain ⟨busy, _, waits, blocked, _⟩ := rep.owner.in_thread
  have keeps {thr : Thread.State Unit Unit} (pc : thr.pc = s.thread.pc) :
      (if s.owner.inThread ∧ thr.pc () = .idle then s.owner.afterThread (s.thread.pc ()) else s.owner) =
        s.owner := by
    rw [pc]
    exact if_neg fun ended => busy ended.1 ended.2
  cases action with
  | run => exact run_thread_seen rep flags usual taken
  | createFails => exact createFails_thread_seen rep taken
  | call => simp [State.threadNext, State.permits] at taken
  | fail | expire | wake | state =>
    -- the owner of a `PoolThread` never waits for its `Thread`
    obtain ⟨thr, moved, -⟩ := Option.map_eq_some_iff.mp (Option.ite_none_right_eq_some.mp taken).2
    simp [Thread.step, waits, blocked] at moved
  | thread k =>
    obtain ⟨permitted, taken⟩ := Option.ite_none_right_eq_some.mp taken
    obtain ⟨thr, moved, rfl⟩ := Option.map_eq_some_iff.mp taken
    rw [keeps (threadNext_pc moved)]
    exact place_seen rep permitted moved
  | cancel k =>
    obtain ⟨thr, moved, -⟩ := Option.map_eq_some_iff.mp (Option.ite_none_right_eq_some.mp taken).2
    simp [Thread.step, rep.single.calm k] at moved
  | getId k =>
    obtain ⟨thr, moved, rfl⟩ := Option.map_eq_some_iff.mp (Option.ite_none_right_eq_some.mp taken).2
    simp only [Thread.step] at moved
    split at moved
    · cases moved
      rw [keeps rfl]
      exact .hidden rfl rep
    · cases moved
  | elsewhere =>
    obtain ⟨thr, moved, rfl⟩ := Option.map_eq_some_iff.mp (Option.ite_none_right_eq_some.mp taken).2
    simp only [Thread.step] at moved
    cases moved
    rw [keeps rfl]
    exact .hidden rfl { rep with
      single := ⟨rep.single.born, rep.single.unborn, rep.single.calm⟩
      starting := fun off => ⟨(rep.starting off).born, (rep.starting off).tid, (rep.starting off).quiet⟩
      creating := fun a here =>
        ⟨(rep.creating a here).born, (rep.creating a here).tid, (rep.creating a here).quiet⟩ }

private theorem eventNext_seen {side : Side} {inner : Event.Action Party} (rep : Represents s t)
    (usual : Usual s (.event side inner)) (taken : s.eventNext side inner = some s') :
    Simulated s' t none := by
  have succeeds : inner.fails = false := usual
  unfold State.eventNext at taken
  split at taken
  · cases taken
  · rename_i ongoing
    have ongoing : begins inner = false := by simpa using ongoing
    split at taken
    · exact ownerEvent_seen rep succeeds ongoing ‹_› taken
    · exact workerEvent_seen rep succeeds ongoing ‹_› taken

private theorem call_seen {call : Call Arg} (rep : Represents s t) (usual : Usual s (.call call))
    (taken : step s (.call call) = some s') : Simulated s' t (observe s (.call call)) := by
  simp only [step] at taken
  split at taken
  · rename_i here
    cases taken
    obtain ⟨at_, free⟩ := rep.outside here rfl
    have enters {owner : Owner Arg} {o : PoolThread.Owner Arg} (same : owner.outside s.args = some o)
        (creating : ∀ a, o ≠ .runCreate a) : Represents { s with owner := owner } { t with owner := o } :=
      rep.goes free rep.args rep.flag same (fun same => same) fun a there => absurd there (creating a)
    cases call with
    | run a =>
      exact .move (.call (.run a)) _ rfl (by simp [PoolThread.step, at_]; rfl) rfl
        (enters rfl (by rintro _ ⟨⟩))
    | wait time =>
      exact .move (.call (.wait time)) _ rfl (by simp [PoolThread.step, at_]; rfl) rfl
        (enters rfl (by rintro _ ⟨⟩))
    | status =>
      exact .move (.call .status) _ rfl (by simp [PoolThread.step, at_]; rfl) rfl
        (enters rfl (by rintro _ ⟨⟩))
    | kill => exact usual.elim
  · cases taken

theorem step_seen (rep : Represents s t) (flags : FlagInvariant t) (usual : Usual s action)
    (taken : step s action = some s') : Simulated s' t (observe s action) := by
  cases action with
  | call call => exact call_seen rep usual taken
  | owner => exact ownerNext_seen rep flags taken
  | worker k =>
    simp only [step] at taken
    split at taken
    · rename_i running
      obtain rfl : k = 0 := rep.first fun unborn => by
        rw [unborn] at running
        cases running
      exact workerNext_seen rep flags running taken
    · cases taken
  | event side inner => exact eventNext_seen rep usual taken
  | thread inner => exact threadNext_seen rep flags usual taken
  | cancelWait k =>
    simp only [step, State.cancelWait] at taken
    obtain ⟨-, taken⟩ := Option.ite_none_right_eq_some.mp taken
    obtain ⟨left, -, taken⟩ := Option.bind_eq_some_iff.mp taken
    obtain ⟨relocked, -, taken⟩ := Option.bind_eq_some_iff.mp taken
    obtain ⟨thr, moved, -⟩ := Option.map_eq_some_iff.mp taken
    simp [Thread.step, rep.single.calm k] at moved

/-- Over the real events and the real `Thread`, `pthread.cc` shows nothing that it does
not show over atomic ones; so `func` is called with the jobs of `Run` in their order,
with each once and one at a time. -/
theorem refines_pool (func : Bool) (args : Arg) (clockSet : Bool) (tidMax : UInt32)
    {actions : List (Action Arg)} {last : State Arg}
    (usual : Meets step Usual (construct func args clockSet tidMax) actions)
    (ran : exec step (construct func args clockSet tidMax) actions = some last) :
    (∃ moves after, exec PoolThread.step (PoolThread.init func args) moves = some after ∧
      Represents last after ∧ trace PoolThread.step PoolThread.observe (PoolThread.init func args) moves =
        trace step observe (construct func args clockSet tidMax) actions) ∧
    Serves (trace step observe (construct func args clockSet tidMax) actions) := by
  have seen (start : State Arg) (action : Action Arg) (next : State Arg) (model : PoolThread.State Arg)
      (now : Represents start model ∧ FlagInvariant model) (fine : Usual start action)
      (taken : step start action = some next) :
      Seen PoolThread.step PoolThread.observe (fun _ move => move.spares = true)
        (fun state model => Represents state model ∧ FlagInvariant model) next model
        (observe start action) :=
    Seen.invariant (fun _ _ _ flags _ moved => step_flags flags moved) now.2
      (step_seen now.1 now.2 fine taken)
  obtain ⟨moves, after, moved, spares, ⟨rep, -⟩, shows⟩ := exec_refines seen
    ⟨construct_represents func args clockSet tidMax, init_flags func args⟩ usual ran
  exact ⟨⟨moves, after, moved, rep, shows⟩, shows ▸ served_of_exec spares moved⟩

instance (s : State Arg) : ∀ action, Decidable (Usual s action)
  | .call .kill => inferInstanceAs (Decidable False)
  | .event _ inner => inferInstanceAs (Decidable (inner.fails = false))
  | .thread (.run _) => inferInstanceAs (Decidable (s.thread.pc () ≠ .runCreate 0))
  | .call (.run _) | .call (.wait _) | .call .status | .owner | .worker _ | .cancelWait _
  | .thread (.call _ _) | .thread (.createFails _ _) | .thread (.fail _) | .thread (.expire _)
  | .thread (.wake _) | .thread (.state _ _) | .thread (.thread _) | .thread (.cancel _)
  | .thread (.getId _) | .thread .elsewhere => inferInstanceAs (Decidable True)

def servedRun : List (Action ℕ) :=
  firstRun ++ workedRun ++ heldRun ++ .call (.wait .infinite) :: .owner ::
    eventSteps .sigOut .owner 6 ++ [.owner]

set_option maxRecDepth 10000 in
theorem refines_pool_servedRun :
    trace step observe (construct true 0 true 1) servedRun =
        [.called (.run 7), .ran true, .began 7, .ended, .called (.wait .infinite), .waited true] ∧
      Serves (trace step observe (construct true 0 true 1) servedRun) := by
  have ends : (exec step (construct true 0 true 1) servedRun).isSome = true := by decide
  obtain ⟨last, ran⟩ := Option.isSome_iff_exists.mp ends
  exact ⟨by decide, (refines_pool true 0 true 1 (by decide) ran).2⟩

end Steps

end Prot.System.PoolThread.Layers
