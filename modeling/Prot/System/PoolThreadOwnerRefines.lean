import Prot.System.PoolThreadRefinement

/-! Every step that the owner takes, in `pthread.cc`, inside an event or inside the
`Thread`, is a step over atomic ones, or is not seen there. -/

namespace Prot.System.PoolThread.Layers

open Concurrency Time Lock

variable {Arg : Type} {s s' : State Arg} {t : PoolThread.State Arg} {action : Action Arg} {k : ℕ}
variable {args : Arg} {tid : UInt32} {thread : ℕ} {owner : Owner Arg} {o x : PoolThread.Owner Arg}
variable {pin pout : Event.Pc} {tp : Thread.Pc Unit}

/-- A step of the machine over the atomic parts, or none of them. -/
abbrev Simulated (s' : State Arg) (t : PoolThread.State Arg) (shown : Option (Shown Arg)) : Prop :=
  Seen PoolThread.step PoolThread.observe (fun _ move => move.spares = true) Represents s' t shown

section Owner

/-- The owner is inside neither event nor the `Thread`. -/
structure OwnerFree (s : State Arg) : Prop where
  sigIn : (s.sig .sigIn).pc .owner = .idle
  sigOut : (s.sig .sigOut).pc .owner = .idle
  thread : s.thread.pc () = .idle

theorem OwnerFree.goes (free : OwnerFree s) (same : owner.outside args = some o) :
    OwnerAt args tid thread owner ((s.sig .sigIn).pc .owner) ((s.sig .sigOut).pc .owner)
      (s.thread.pc ()) o := by
  rw [free.sigIn, free.sigOut, free.thread]
  exact .outside same

theorem OwnerAt.of_outside (at_ : OwnerAt args tid thread owner pin pout tp o)
    (same : owner.outside args = some x) : o = x ∧ pin = .idle ∧ pout = .idle ∧ tp = .idle := by
  cases at_ with
  | outside other => exact ⟨Option.some.inj (other.symm.trans same), rfl, rfl, rfl⟩
  | _ => cases same

theorem Represents.outside (rep : Represents s t) (here : s.owner = owner)
    (same : owner.outside s.args = some o) : t.owner = o ∧ OwnerFree s := by
  obtain ⟨at_, sigIn, sigOut, thread⟩ := rep.owner.of_outside (here ▸ same)
  exact ⟨at_, sigIn, sigOut, thread⟩

/-- The owner enters an operation of an event. -/
theorem Represents.enters (rep : Represents s t) (free : OwnerFree s) {side : Side} {call : Event.Call}
    {sig : Side → Event.State Party} (entered : s.enter side .owner call = some sig)
    (at_ : OwnerAt s.args s.thread.data.tid s.thread.data.thread owner
      (Function.update (fun _ => Event.Pc.idle) side call.entry .sigIn)
      (Function.update (fun _ => Event.Pc.idle) side call.entry .sigOut) .idle t.owner)
    (elsewhere : ∀ a, t.owner ≠ .runCreate a) :
    Simulated { s with sig := sig, owner := owner } t none := by
  obtain ⟨e, taken, rfl⟩ := Option.map_eq_some_iff.mp entered
  have settled := Event.step_settled (rep.settled side) rfl taken
  obtain ⟨_, rfl⟩ : _ ∧ e = (s.sig side).goto .owner call.entry := by
    simp only [Event.step] at taken
    split at taken
    · exact ⟨‹_›, (Option.some.inj taken).symm⟩
    · cases taken
  refine .hidden rfl (rep.of_owner rfl (rep.manual side) settled ?_ ?_ ?_ elsewhere)
  · cases side <;> simp [Event.State.goto, rep.sigIn]
  · cases side <;> simp [Event.State.goto, rep.sigOut]
  · cases side <;> simpa [Event.State.goto, free.sigIn, free.sigOut, free.thread] using at_

theorem announced_of_quiet {thr : Thread.State Unit Unit} (quiet : ∀ id, thr.pc () ≠ .runWriteTid id) :
    announced thr = thr.data.tid := by
  unfold announced
  split
  · rename_i id here
    exact absurd here (quiet id)
  · rfl

/-- The owner moves on inside the `Thread` and changes nothing that is seen. -/
theorem Represents.of_thread (rep : Represents s t) {thr : Thread.State Unit Unit}
    (flag : thr.data.flag = s.thread.data.flag) (handle : thr.data.thread = s.thread.data.thread)
    (id : thr.data.tid = s.thread.data.tid) (born : thr.born = s.thread.born)
    (place : thr.place = s.thread.place) (cancelled : thr.cancelled = s.thread.cancelled)
    (before : ∀ id, s.thread.pc () ≠ .runWriteTid id) (after : ∀ id, thr.pc () ≠ .runWriteTid id)
    (at_ : OwnerAt s.args s.thread.data.tid s.thread.data.thread owner ((s.sig .sigIn).pc .owner)
      ((s.sig .sigOut).pc .owner) (thr.pc ()) o)
    (creating : ∀ a, o = .runCreate a → t.owner = .runCreate a) :
    Represents { s with thread := thr, owner := owner } { t with owner := o } := by
  have same : announced thr = announced s.thread := by
    rw [announced_of_quiet before, announced_of_quiet after, id]
  have online : thr.data.online = s.thread.data.online := by
    simp [Thread.Data.online, flag, handle]
  have unstarted (was : Unstarted s.thread) : Unstarted thr :=
    ⟨born.trans was.born, id.trans was.tid, after⟩
  have worker := rep.worker
  rw [← flag, ← place] at worker
  rw [← id, ← handle] at at_
  have single : Single thr := by
    obtain ⟨one, unborn, calm⟩ := rep.single
    exact ⟨by rwa [born], by rwa [born, place], by rwa [cancelled]⟩
  exact { rep with
    tid := rep.tid.trans (by rw [same]), online := rep.online.trans online.symm, owner := at_
    worker := worker, single := single, starting := fun off => unstarted (rep.starting off)
    creating := fun a here => unstarted (rep.creating a (creating a here)) }

/-- The owner calls the `Thread`. -/
theorem Represents.enters_thread (rep : Represents s t) (free : OwnerFree s) {call : Thread.Call Unit}
    (entered : s.enterThread call owner = some s') (quiet : ∀ id, call.entry ≠ .runWriteTid id)
    (at_ : OwnerAt s.args s.thread.data.tid s.thread.data.thread owner .idle .idle call.entry t.owner) :
    Simulated s' t none := by
  obtain ⟨thr, taken, rfl⟩ := Option.map_eq_some_iff.mp entered
  simp only [Thread.step, free.thread] at taken
  cases taken
  refine .hidden rfl (rep.of_thread rfl rfl rfl rfl rfl rfl ?_ ?_ ?_ fun _ same => same)
  · simp [free.thread]
  · simpa [Thread.State.goto] using quiet
  · simpa [Thread.State.goto, free.sigIn, free.sigOut] using at_

/-- The owner moves on in `pthread.cc`, with what it writes. -/
theorem Represents.goes (rep : Represents s t) (free : OwnerFree s) {a a' : Arg} {flag flag' : Flag}
    (sameArgs : a' = a) (sameFlag : flag' = flag) (same : owner.outside a = some o)
    (starting : flag'.starting = false → t.flag.starting = false)
    (creating : ∀ b, o = .runCreate b → Unstarted s.thread) :
    Represents { s with args := a, flag := flag, owner := owner }
      { t with args := a', flag := flag', owner := o } :=
  { rep with
    args := sameArgs, flag := sameFlag, owner := free.goes same
    starting := fun off => rep.starting (starting off), creating := creating }

theorem OwnerAt.not_kill (at_ : OwnerAt args tid thread owner pin pout tp o) :
    owner ≠ .killThread ∧ owner ≠ .inKill ∧ owner ≠ .killWriteFlag ∧ owner ≠ .killSetOut ∧
      owner ≠ .inKillSetOut ∧ ∀ rv, owner ≠ .killReturn rv := by
  cases at_ with
  | outside same =>
    refine ⟨?_, ?_, ?_, ?_, ?_, ?_⟩
    case refine_6 => rintro rv rfl; cases same
    all_goals rintro rfl; cases same
  | _ => simp

private theorem OwnerAt.of_returning {id : UInt32}
    (at_ : OwnerAt args tid thread (.runReturn id) pin pout tp o) :
    (∃ a, o = .runReturn a (decide (id ≠ 0))) ∧ pin = .idle ∧ pout = .idle ∧ tp = .idle := by
  cases at_ with
  | outside same => cases same
  | returning => exact ⟨⟨_, rfl⟩, rfl, rfl, rfl⟩

private theorem ran_ne_runCreate (a b : Arg) (id : UInt32) : ran a id ≠ .runCreate b := by
  unfold ran
  split <;> rintro ⟨⟩

theorem ownerNext_seen (rep : Represents s t) (flags : FlagInvariant t)
    (taken : s.ownerNext = some s') : Simulated s' t (observe s .owner) := by
  have kill := rep.owner.not_kill
  cases here : s.owner <;> simp only [State.ownerNext, here] at taken
  case idle | inThreadRun | inResetOut | inSetIn | inGetId | inWaitOut | inStatus | inKill |
    inKillSetOut => cases taken
  case killThread | killWriteFlag | killSetOut | killReturn => simp [here] at kill
  case runReturn id =>
    have at_ := rep.owner
    rw [here] at at_
    obtain ⟨⟨a, at_⟩, sigIn, sigOut, thread⟩ := at_.of_returning
    cases taken
    refine .move .owner _ rfl (by simp only [PoolThread.step, PoolThread.State.ownerNext, at_]; rfl)
      (by simp [observe, PoolThread.observe, here, at_]) ?_
    exact { rep with
      owner := OwnerFree.goes ⟨sigIn, sigOut, thread⟩ rfl, creating := fun a there => by cases there }
  case runThread a =>
    obtain ⟨at_, free⟩ := rep.outside here rfl
    have seen := rep.enters_thread free taken (by rintro id ⟨⟩) (at_ ▸ .creating rfl)
    simpa [observe, here] using seen
  case runGetId =>
    obtain ⟨at_, free⟩ := rep.outside here rfl
    have seen := rep.enters_thread free taken (by rintro id ⟨⟩) (at_ ▸ .asking)
    simpa [observe, here] using seen
  case statusThread =>
    obtain ⟨at_, free⟩ := rep.outside here rfl
    have seen := rep.enters_thread free taken (by rintro id ⟨⟩) (at_ ▸ .looking)
    simpa [observe, here] using seen
  case runResetOut a =>
    obtain ⟨at_, free⟩ := rep.outside here rfl
    obtain ⟨sig, entered, rfl⟩ := Option.map_eq_some_iff.mp taken
    have seen : Simulated { s with sig := sig, owner := .inResetOut a } t none :=
      rep.enters free entered (at_ ▸ .resetting rfl) (by rw [at_]; rintro _ ⟨⟩)
    simpa [observe, here] using seen
  case runSetIn =>
    obtain ⟨at_, free⟩ := rep.outside here rfl
    obtain ⟨sig, entered, rfl⟩ := Option.map_eq_some_iff.mp taken
    have seen : Simulated { s with sig := sig, owner := .inSetIn } t none :=
      rep.enters free entered (at_ ▸ .setting rfl) (by rw [at_]; rintro _ ⟨⟩)
    simpa [observe, here] using seen
  case waitOut time =>
    obtain ⟨at_, free⟩ := rep.outside here rfl
    obtain ⟨sig, entered, rfl⟩ := Option.map_eq_some_iff.mp taken
    have seen : Simulated { s with sig := sig, owner := .inWaitOut } t none :=
      rep.enters free entered (at_ ▸ .waiting rfl) (by rw [at_]; rintro _ ⟨⟩)
    simpa [observe, here] using seen
  case runTestStarting a =>
    obtain ⟨at_, free⟩ := rep.outside here rfl
    cases taken
    refine .move .owner
      { t with owner := if s.flag.starting then .runTestActiving a else .runWriteStarting a } rfl ?_ ?_
      (rep.goes free rep.args rep.flag ?_ (fun same => same) ?_)
    · simp [PoolThread.step, PoolThread.State.ownerNext, at_, rep.flag]
    · simp [observe, PoolThread.observe, here, at_]
    · split <;> rfl
    · intro b
      split <;> rintro ⟨⟩
  case runWriteStarting a =>
    obtain ⟨at_, free⟩ := rep.outside here rfl
    cases taken
    refine .move .owner { t with flag := ⟨true, false, false, false⟩, owner := .runCreate a }
      rfl ?_ ?_ (rep.goes free rep.args rfl rfl (fun off => by cases off) ?_)
    · simp [PoolThread.step, PoolThread.State.ownerNext, at_]
    · simp [observe, PoolThread.observe, here, at_]
    · exact fun _ _ => rep.starting (flags.writing a at_)
  case runTestActiving a =>
    obtain ⟨at_, free⟩ := rep.outside here rfl
    cases taken
    refine .move .owner { t with owner := if s.flag.activing then .runReturn a false else .runResetOut a }
      rfl ?_ ?_ ?_
    · simp [PoolThread.step, PoolThread.State.ownerNext, at_, rep.flag]
    · simp [observe, PoolThread.observe, here, at_]
    · cases s.flag.activing with
      | false => exact rep.goes free rep.args rep.flag rfl (fun same => same) (by rintro _ ⟨⟩)
      | true =>
        have returns : OwnerAt s.args s.thread.data.tid s.thread.data.thread (.runReturn 0)
            ((s.sig .sigIn).pc .owner) ((s.sig .sigOut).pc .owner) (s.thread.pc ())
            (.runReturn a false) := by
          rw [free.sigIn, free.sigOut, free.thread]
          exact .returning fun some => absurd rfl some
        exact { rep with owner := returns, creating := fun b there => by cases there }
  case runWriteArgs a =>
    obtain ⟨at_, free⟩ := rep.outside here rfl
    cases taken
    refine .move .owner { t with args := a, owner := .runReadFlag a } rfl ?_ ?_
      (rep.goes free rfl rep.flag rfl (fun same => same) (by rintro _ ⟨⟩))
    · simp [PoolThread.step, PoolThread.State.ownerNext, at_]
    · simp [observe, PoolThread.observe, here, at_]
  case runReadFlag =>
    obtain ⟨at_, free⟩ := rep.outside here rfl
    cases taken
    refine .move .owner { t with owner := .runWriteFlag s.args { s.flag with activing := true } }
      rfl ?_ ?_ (rep.goes free rep.args rep.flag rfl (fun same => same) (by rintro _ ⟨⟩))
    · simp [PoolThread.step, PoolThread.State.ownerNext, at_, rep.flag]
    · simp [observe, PoolThread.observe, here, at_]
  case runWriteFlag flag =>
    obtain ⟨at_, free⟩ := rep.outside here rfl
    cases taken
    refine .move .owner { t with flag := flag, owner := .runSetIn s.args } rfl ?_ ?_
      (rep.goes free rep.args rfl rfl (fun off => ?_) (by rintro _ ⟨⟩))
    · simp [PoolThread.step, PoolThread.State.ownerNext, at_]
    · simp [observe, PoolThread.observe, here, at_]
    · rw [← (flags.run _ _ at_).1.starting, off]
  case statusFlag =>
    obtain ⟨at_, free⟩ := rep.outside here rfl
    cases taken
    refine .move .owner { t with owner := .statusReturn (if s.flag.activing then .running else .holding) }
      rfl ?_ ?_ (rep.goes free rep.args rep.flag rfl (fun same => same) (by rintro _ ⟨⟩))
    · simp [PoolThread.step, PoolThread.State.ownerNext, at_, rep.flag]
    · simp [observe, PoolThread.observe, here, at_]
  case waitReturn | statusReturn =>
    obtain ⟨at_, free⟩ := rep.outside here rfl
    cases taken
    refine .move .owner { t with owner := .idle } rfl ?_ ?_
      (rep.goes free rep.args rep.flag rfl (fun same => same) (by rintro _ ⟨⟩))
    · simp [PoolThread.step, PoolThread.State.ownerNext, at_]
    · simp [observe, PoolThread.observe, here, at_]

end Owner

section OwnerEvents

variable {side : Side} {e : Event.State Party} {p : Event.Pc} {inner : Event.Action Party}

/-- A step inside an event that its state does not show. -/
theorem Represents.owner_stays (rep : Represents s t) (inside : Inside (s.sig side) e .owner p)
    (still : e.state = (s.sig side).state)
    (idle : ∀ other, other ≠ side → (s.sig other).pc .owner = .idle)
    (at_ : OwnerAt s.args s.thread.data.tid s.thread.data.thread owner
      (Function.update (fun _ => Event.Pc.idle) side p .sigIn)
      (Function.update (fun _ => Event.Pc.idle) side p .sigOut) (s.thread.pc ()) t.owner)
    (elsewhere : ∀ a, t.owner ≠ .runCreate a) :
    Simulated { s with sig := Function.update s.sig side e, owner := owner } t none := by
  refine .hidden rfl (rep.of_owner inside.moved inside.manual inside.settled ?_ ?_ ?_ elsewhere)
  · cases side <;> simp [still, rep.sigIn]
  · cases side <;> simp [still, rep.sigOut]
  · cases side
    · simpa [inside.moved, idle .sigOut (by rintro ⟨⟩)] using at_
    · simpa [inside.moved, idle .sigIn (by rintro ⟨⟩)] using at_

private theorem OwnerAt.of_inResetOut {a : Arg}
    (at_ : OwnerAt args tid thread (.inResetOut a) pin pout tp o) :
    pin = .idle ∧ tp = .idle ∧ (pout.status = .called .reset ∧ o = .runResetOut a ∨
      pout.status = .acted .done ∧ o = .runWriteArgs a) := by
  cases at_ with
  | outside same => cases same
  | resetting pending => exact ⟨rfl, rfl, .inl ⟨pending, rfl⟩⟩
  | reset acted => exact ⟨rfl, rfl, .inr ⟨acted, rfl⟩⟩

private theorem OwnerAt.of_inSetIn (at_ : OwnerAt args tid thread .inSetIn pin pout tp o) :
    pout = .idle ∧ tp = .idle ∧ (pin.status = .called .set ∧ o = .runSetIn args ∨
      pin.status = .acted .done ∧ o = .runGetId args) := by
  cases at_ with
  | outside same => cases same
  | setting pending => exact ⟨rfl, rfl, .inl ⟨pending, rfl⟩⟩
  | set acted => exact ⟨rfl, rfl, .inr ⟨acted, rfl⟩⟩

private theorem OwnerAt.of_inWaitOut (at_ : OwnerAt args tid thread .inWaitOut pin pout tp o) :
    pin = .idle ∧ tp = .idle ∧ ((∃ time, Awaits time pout ∧ o = .waitOut time) ∨
      ∃ rv, pout.status = .acted (.answer rv) ∧ o = .waitReturn rv) := by
  cases at_ with
  | outside same => cases same
  | waiting pending => exact ⟨rfl, rfl, .inl ⟨_, pending, rfl⟩⟩
  | waited acted => exact ⟨rfl, rfl, .inr ⟨_, acted, rfl⟩⟩

theorem status_idle {p : Event.Pc} (idle : p.status = .idle) : p = .idle := by
  cases p <;> first | rfl | cases idle

theorem busy_of_status {p : Event.Pc} {op : Event.Op} (called : p.status = .called op) : p ≠ .idle := by
  rintro rfl
  cases called

theorem busy_of_acted {p : Event.Pc} {res : Event.Res} (acted : p.status = .acted res) : p ≠ .idle := by
  rintro rfl
  cases acted

/-- What `Set` and `Reset` write. -/
def written : Event.Op → Option Bool
  | .set => some true
  | .reset => some false
  | .wait => none

theorem acts_written {u v v' : Bool} {op : Event.Op} {res : Event.Res}
    (act : Event.Acts true u op res v') (writes : written op = some v) : res = .done ∧ v' = v := by
  cases act <;> cases writes <;> exact ⟨rfl, rfl⟩

/-- The owner moves on inside `Set` or `Reset`, from where it stands for `before` to
where it stands for `after`. -/
theorem owner_writes {op : Event.Op} {v : Bool} {before after : PoolThread.Owner Arg} {out : Owner Arg}
    (rep : Represents s t) (inside : Inside (s.sig side) e .owner p) (writes : written op = some v)
    (idle : ∀ other, other ≠ side → (s.sig other).pc .owner = .idle) (thread : s.thread.pc () = .idle)
    (now : ((s.sig side).pc .owner).status = .called op ∧ t.owner = before ∨
      ((s.sig side).pc .owner).status = .acted .done ∧ t.owner = after)
    (pending : ∀ p : Event.Pc, p.status = .called op →
      OwnerAt s.args s.thread.data.tid s.thread.data.thread s.owner
        (Function.update (fun _ => Event.Pc.idle) side p .sigIn)
        (Function.update (fun _ => Event.Pc.idle) side p .sigOut) .idle before)
    (acted : ∀ p : Event.Pc, p.status = .acted .done →
      OwnerAt s.args s.thread.data.tid s.thread.data.thread s.owner
        (Function.update (fun _ => Event.Pc.idle) side p .sigIn)
        (Function.update (fun _ => Event.Pc.idle) side p .sigOut) .idle after)
    (leaves : out.outside s.args = some after)
    (step : t.owner = before → PoolThread.step t .owner = some
      { t with
        sigIn := if side = .sigIn then v else t.sigIn
        sigOut := if side = .sigOut then v else t.sigOut, owner := after })
    (silent : t.owner = before → PoolThread.observe t .owner = none)
    (elsewhere : ∀ a, before ≠ .runCreate a ∧ after ≠ .runCreate a) :
    Simulated { s with
      sig := Function.update s.sig side e, owner := if p = .idle then out else s.owner } t none := by
  have acts := inside.acts
  obtain ⟨called, at_⟩ | ⟨fine, at_⟩ := now
  · rw [called] at acts
    obtain ⟨called, still⟩ | ⟨res, done, act⟩ := acts.of_called
    · rw [if_neg (busy_of_status called)]
      refine rep.owner_stays inside still idle ?_ fun a => at_ ▸ (elsewhere a).1
      rw [at_, thread]
      exact pending p called
    · obtain ⟨rfl, new⟩ := acts_written act writes
      rw [if_neg (busy_of_acted done)]
      refine .move .owner _ rfl (step at_) (silent at_)
        (rep.of_owner inside.moved inside.manual inside.settled ?_ ?_ ?_ fun a => (elsewhere a).2)
      · cases side <;> simp [new, rep.sigIn]
      · cases side <;> simp [new, rep.sigOut]
      · cases side
        · simpa [inside.moved, idle .sigOut (by rintro ⟨⟩), thread] using acted p done
        · simpa [inside.moved, idle .sigIn (by rintro ⟨⟩), thread] using acted p done
  · rw [fine] at acts
    obtain ⟨still, done | ⟨returned, shown⟩⟩ := acts.of_acted
    · rw [if_neg (busy_of_acted done)]
      refine rep.owner_stays inside still idle ?_ fun a => at_ ▸ (elsewhere a).2
      rw [at_, thread]
      exact acted p done
    · rw [if_pos (status_idle returned)]
      refine rep.owner_stays inside still idle ?_ fun a => at_ ▸ (elsewhere a).2
      rw [at_, thread, status_idle returned]
      cases side <;> exact .outside leaves

theorem idle_elsewhere {party : Party} {side : Side}
    (sigIn : side = .sigOut → (s.sig .sigIn).pc party = .idle)
    (sigOut : side = .sigIn → (s.sig .sigOut).pc party = .idle) (other : Side) (apart : other ≠ side) :
    (s.sig other).pc party = .idle := by
  cases side <;> cases other
  · exact absurd rfl apart
  · exact sigOut rfl
  · exact sigIn rfl
  · exact absurd rfl apart

private theorem reset_seen {a : Arg} (rep : Represents s t) (here : s.owner = .inResetOut a)
    (inside : Inside (s.sig .sigOut) e .owner p) :
    Simulated { s with
      sig := Function.update s.sig .sigOut e, owner := if p = .idle then .runWriteArgs a else s.owner }
      t none := by
  have at_ := rep.owner
  rw [here] at at_
  obtain ⟨sigIn, thread, now⟩ := at_.of_inResetOut
  refine owner_writes rep inside rfl (idle_elsewhere (fun _ => sigIn) (by rintro ⟨⟩)) thread now
    (fun _ called => here ▸ .resetting called) (fun _ done => here ▸ .reset done) rfl ?_ ?_ ?_
  · intro at_
    simp [PoolThread.step, PoolThread.State.ownerNext, at_]
  · intro at_
    simp [PoolThread.observe, at_]
  · exact fun _ => ⟨by rintro ⟨⟩, by rintro ⟨⟩⟩

private theorem set_seen (rep : Represents s t) (here : s.owner = .inSetIn)
    (inside : Inside (s.sig .sigIn) e .owner p) :
    Simulated { s with
      sig := Function.update s.sig .sigIn e, owner := if p = .idle then .runGetId else s.owner }
      t none := by
  have at_ := rep.owner
  rw [here] at at_
  obtain ⟨sigOut, thread, now⟩ := at_.of_inSetIn
  refine owner_writes rep inside rfl (idle_elsewhere (by rintro ⟨⟩) (fun _ => sigOut)) thread now
    (fun _ called => here ▸ .setting called) (fun _ done => here ▸ .set done) rfl ?_ ?_ ?_
  · intro at_
    simp [PoolThread.step, PoolThread.State.ownerNext, at_]
  · intro at_
    simp [PoolThread.observe, at_]
  · exact fun _ => ⟨by rintro ⟨⟩, by rintro ⟨⟩⟩

private theorem returns_answer {party : Party} {rv : Bool} {p : Event.Pc}
    (shown : p.returns party = some (.ret party (.answer rv))) : p = .waitReturn rv := by
  cases p <;> cases shown
  rfl

private theorem wait_seen (rep : Represents s t) (here : s.owner = .inWaitOut)
    (inside : Inside (s.sig .sigOut) e .owner p) :
    Simulated { s with
      sig := Function.update s.sig .sigOut e
      owner := if p = .idle then s.owner.afterEvent ((s.sig .sigOut).pc .owner) else s.owner } t none := by
  have at_ := rep.owner
  rw [here] at at_
  obtain ⟨sigIn, thread, now⟩ := at_.of_inWaitOut
  have idle : ∀ other : Side, other ≠ .sigOut → (s.sig other).pc .owner = .idle :=
    idle_elsewhere (fun _ => sigIn) (by rintro ⟨⟩)
  obtain ⟨time, awaits, at_⟩ | ⟨rv, acted, at_⟩ := now
  · obtain ⟨still, awaits | ⟨rv, done, answer, answers⟩⟩ := inside.awaits time awaits
    · have busy : p ≠ .idle := by
        rintro rfl
        cases awaits
      rw [if_neg busy]
      refine rep.owner_stays inside still idle ?_ (by rw [at_]; rintro _ ⟨⟩)
      rw [at_, thread, here]
      exact .waiting awaits
    · rw [if_neg (busy_of_acted done)]
      have after : Represents { s with sig := Function.update s.sig .sigOut e }
          { t with owner := .waitReturn rv } := by
        have sigIn_eq : t.sigIn = (Function.update s.sig .sigOut e .sigIn).state := by simp [rep.sigIn]
        have sigOut_eq : t.sigOut = (Function.update s.sig .sigOut e .sigOut).state := by
          simp [rep.sigOut, still]
        refine rep.of_owner inside.moved inside.manual inside.settled sigIn_eq sigOut_eq ?_
          (by rintro _ ⟨⟩)
        simpa [inside.moved, sigIn, thread, here] using .waited done
      have state : t.sigOut = rv := rep.sigOut.trans answer
      -- a `Wait` that takes a clear event has run into its deadline: that is `expire`
      cases rv with
      | true =>
        refine .move .owner _ rfl ?_ ?_ after
        · simp [PoolThread.step, PoolThread.State.ownerNext, at_, state]
        · simp [PoolThread.observe, at_]
      | false =>
        refine .move .expire _ rfl ?_ rfl after
        simp [PoolThread.step, at_, state, answers rfl]
  · have acts := inside.acts
    rw [acted] at acts
    obtain ⟨still, done | ⟨returned, shown⟩⟩ := acts.of_acted
    · rw [if_neg (busy_of_acted done)]
      refine rep.owner_stays inside still idle ?_ (by rw [at_]; rintro _ ⟨⟩)
      rw [at_, thread, here]
      exact .waited done
    · rw [if_pos (status_idle returned)]
      refine rep.owner_stays inside still idle ?_ (by rw [at_]; rintro _ ⟨⟩)
      rw [at_, thread, status_idle returned, here, returns_answer shown]
      exact .outside rfl

theorem ownerEvent_seen (rep : Represents s t) (succeeds : inner.fails = false)
    (ongoing : begins inner = false) (own : inner.thread = .owner)
    (taken : s.ownerEvent side inner = some s') : Simulated s' t none := by
  unfold State.ownerEvent at taken
  split at taken
  · rename_i there
    obtain ⟨e, moved, rfl⟩ := Option.map_eq_some_iff.mp taken
    obtain ⟨p, inside⟩ := event_inside (rep.manual side) (rep.settled side) succeeds ongoing moved
    rw [own] at inside
    rw [inside.moved, Function.update_self]
    cases here : s.owner with
    | inResetOut a =>
      rw [here] at there
      cases there
      simpa [here, Owner.afterEvent] using reset_seen rep here inside
    | inSetIn =>
      rw [here] at there
      cases there
      simpa [here, Owner.afterEvent] using set_seen rep here inside
    | inWaitOut =>
      rw [here] at there
      cases there
      simpa [here] using wait_seen rep here inside
    | inKillSetOut => exact absurd here rep.owner.not_kill.2.2.2.2.1
    | _ =>
      rw [here] at there
      cases there
  · cases taken

end OwnerEvents

section OwnerThread

variable {inner : Thread.Action Unit Unit}

private theorem OwnerAt.of_inThreadRun {a : Arg}
    (at_ : OwnerAt args tid thread (.inThreadRun a) pin pout tp o) :
    pin = .idle ∧ pout = .idle ∧ (early tp = true ∧ o = .runCreate a ∨
      (∃ id, tp = .runWriteTid id ∧ o = ran a id) ∨ tp = .runReadTid ∧ o = ran a tid ∨
      ∃ id, tp = .runReturn id ∧ o = ran a id) := by
  cases at_ with
  | outside same => cases same
  | creating before => exact ⟨rfl, rfl, .inl ⟨before, rfl⟩⟩
  | writing => exact ⟨rfl, rfl, .inr (.inl ⟨_, rfl, rfl⟩)⟩
  | written => exact ⟨rfl, rfl, .inr (.inr (.inl ⟨rfl, rfl⟩))⟩
  | started => exact ⟨rfl, rfl, .inr (.inr (.inr ⟨_, rfl, rfl⟩))⟩

private theorem OwnerAt.of_inGetId (at_ : OwnerAt args tid thread .inGetId pin pout tp o) :
    pin = .idle ∧ pout = .idle ∧ (tp = .getIdRead ∧ o = .runGetId args ∨
      ∃ id, tp = .getIdReturn id ∧ o = .runReturn args (decide (id ≠ 0))) := by
  cases at_ with
  | outside same => cases same
  | asking => exact ⟨rfl, rfl, .inl ⟨rfl, rfl⟩⟩
  | asked => exact ⟨rfl, rfl, .inr ⟨_, rfl, rfl⟩⟩

private theorem OwnerAt.of_inStatus (at_ : OwnerAt args tid thread .inStatus pin pout tp o) :
    pin = .idle ∧ pout = .idle ∧ (tp = .statusThread ∧ o = .statusThread ∨
      tp = .statusFlag ∧ thread ≠ 0 ∧ o = .statusThread ∨
      tp = .statusReturn false ∧ o = .statusReturn .offline ∨
      tp = .statusReturn true ∧ o = .statusFlag) := by
  cases at_ with
  | outside same => cases same
  | looking => exact ⟨rfl, rfl, .inl ⟨rfl, rfl⟩⟩
  | reading some => exact ⟨rfl, rfl, .inr (.inl ⟨rfl, some, rfl⟩)⟩
  | offline => exact ⟨rfl, rfl, .inr (.inr (.inl ⟨rfl, rfl⟩))⟩
  | online => exact ⟨rfl, rfl, .inr (.inr (.inr ⟨rfl, rfl⟩))⟩

/-- Before the first worker is born `TDFLAG_HAS_EXIT` is not set. -/
theorem Represents.no_exit (rep : Represents s t) (unstarted : Unstarted s.thread) :
    s.thread.data.flag.hasExit = false ∧ s.worker 0 = .test ∧ (s.sig .sigIn).pc (.worker 0) = .idle ∧
      (s.sig .sigOut).pc (.worker 0) = .idle := by
  have worker := rep.worker
  rw [rep.single.unborn 0 (by rw [unstarted.born])] at worker
  generalize s.thread.data.flag.hasExit = hasExit, s.worker 0 = w, (s.sig .sigIn).pc (.worker 0) = pin,
    (s.sig .sigOut).pc (.worker 0) = pout, t.worker = w' at worker
  cases worker with
  | unborn => exact ⟨rfl, rfl, rfl, rfl⟩
  | entering before => simp at before
  | exiting before => simp at before
  | exited after => simp at after

theorem goto_pc (thr : Thread.State Unit Unit) (pc : Thread.Pc Unit) : (thr.goto () pc).pc () = pc := by
  simp [Thread.State.goto]

/-- The owner moves on inside the `Thread`, to a place that is not seen. -/
theorem Represents.stays_in_thread (rep : Represents s t) (pc : Thread.Pc Unit)
    (before : ∀ id, s.thread.pc () ≠ .runWriteTid id) (after : ∀ id, pc ≠ .runWriteTid id)
    (at_ : OwnerAt s.args s.thread.data.tid s.thread.data.thread owner ((s.sig .sigIn).pc .owner)
      ((s.sig .sigOut).pc .owner) pc o)
    (creating : ∀ a, o = .runCreate a → t.owner = .runCreate a) :
    Represents { s with thread := s.thread.goto () pc, owner := owner } { t with owner := o } := by
  refine rep.of_thread rfl rfl rfl rfl rfl rfl before ?_ ?_ creating
  · rwa [goto_pc]
  · rwa [goto_pc]

private theorem status_seen (rep : Represents s t) (here : s.owner = .inStatus)
    {thr : Thread.State Unit Unit}
    (taken : s.thread.next () = some thr) : Simulated { s with
      thread := thr
      owner := if thr.pc () = .idle then s.owner.afterThread (s.thread.pc ()) else s.owner } t none := by
  have at_ := rep.owner
  have online := rep.online
  rw [here] at at_
  obtain ⟨sigIn, sigOut, now⟩ := at_.of_inStatus
  have goes {pc : Thread.Pc Unit} {owner : Owner Arg} {o : PoolThread.Owner Arg}
      (before : ∀ id, s.thread.pc () ≠ .runWriteTid id) (after : ∀ id, pc ≠ .runWriteTid id)
      (at_ : OwnerAt s.args s.thread.data.tid s.thread.data.thread owner .idle .idle pc o)
      (other : ∀ a, o ≠ .runCreate a) :
      Represents { s with thread := s.thread.goto () pc, owner := owner } { t with owner := o } :=
    rep.stays_in_thread pc before after (by rwa [sigIn, sigOut]) fun a same => absurd same (other a)
  rcases now with ⟨tp, at_⟩ | ⟨tp, some, at_⟩ | ⟨tp, at_⟩ | ⟨tp, at_⟩ <;>
    simp only [Thread.State.next, tp] at taken <;> cases taken <;> rw [goto_pc, here, tp]
  · by_cases none : s.thread.data.thread = 0
    · simp only [none, ne_eq, not_true_eq_false, if_false, reduceCtorEq]
      refine .move .owner { t with owner := .statusReturn .offline } rfl ?_
        (by simp [PoolThread.observe, at_]) (goes (by simp [tp]) (by simp) .offline (by simp))
      simp [PoolThread.step, PoolThread.State.ownerNext, at_, online, Thread.Data.online, none]
    · simp only [none, ne_eq, not_false_eq_true, if_true, reduceCtorEq, if_false]
      refine .hidden rfl (goes (by simp [tp]) (by simp) ?_ (by simp [at_]))
      exact at_ ▸ .reading none
  · simp only [reduceCtorEq, if_false]
    refine .move .owner { t with owner := if t.online then .statusFlag else .statusReturn .offline }
      rfl ?_ (by simp [PoolThread.observe, at_]) (goes (by simp [tp]) (by simp) ?_ ?_)
    · simp [PoolThread.step, PoolThread.State.ownerNext, at_]
    · rw [online, Thread.Data.online, decide_eq_true some, Bool.true_and]
      cases s.thread.data.flag.hasExit with
      | false => exact .online
      | true => exact .offline
    · intro a
      split <;> rintro ⟨⟩
  · exact .hidden rfl (goes (by simp [tp]) (by simp) (at_ ▸ .outside rfl) (by simp [at_]))
  · exact .hidden rfl (goes (by simp [tp]) (by simp) (at_ ▸ .outside rfl) (by simp [at_]))

private theorem getId_seen (rep : Represents s t) (here : s.owner = .inGetId)
    {thr : Thread.State Unit Unit}
    (taken : s.thread.next () = some thr) : Simulated { s with
      thread := thr
      owner := if thr.pc () = .idle then s.owner.afterThread (s.thread.pc ()) else s.owner } t none := by
  have at_ := rep.owner
  rw [here] at at_
  obtain ⟨sigIn, sigOut, ⟨tp, at_⟩ | ⟨id, tp, at_⟩⟩ := at_.of_inGetId <;>
    simp only [Thread.State.next, tp] at taken <;> cases taken <;> rw [goto_pc, here, tp]
  · have quiet : ∀ id, s.thread.pc () ≠ .runWriteTid id := by simp [tp]
    have known : t.tid = decide (s.thread.data.tid ≠ 0) := by
      rw [rep.tid, announced_of_quiet quiet]
    refine .move .owner { t with owner := .runReturn s.args (decide (s.thread.data.tid ≠ 0)) } rfl ?_
      (by simp [PoolThread.observe, at_]) ?_
    · simp [PoolThread.step, PoolThread.State.ownerNext, at_, known]
    · refine rep.stays_in_thread _ quiet (by simp) ?_ (by simp)
      rw [sigIn, sigOut]
      exact .asked
  · refine .hidden rfl (rep.stays_in_thread _ (by simp [tp]) (by simp) ?_ fun _ same => same)
    rw [sigIn, sigOut, at_]
    exact .returning fun _ => rfl

theorem Represents.at_runCreate (rep : Represents s t) {a : Arg} (at_ : t.owner = .runCreate a) :
    Unstarted s.thread ∧ announced s.thread = 0 := by
  have unstarted := rep.creating a at_
  exact ⟨unstarted, (announced_of_quiet unstarted.quiet).trans unstarted.tid⟩

private theorem create_seen {a : Arg} {id : UInt32} (rep : Represents s t) (flags : FlagInvariant t)
    (here : s.owner = .inThreadRun a) (at_ : t.owner = .runCreate a) (some : id ≠ 0)
    (sigIn : (s.sig .sigIn).pc .owner = .idle) (sigOut : (s.sig .sigOut).pc .owner = .idle)
    {thr : Thread.State Unit Unit} (tp : s.thread.pc () = .runCreate id)
    (taken : s.thread.next () = Option.some thr) : Simulated { s with thread := thr } t none := by
  simp only [Thread.State.next, tp] at taken
  cases taken
  obtain ⟨unstarted, _⟩ := rep.at_runCreate at_
  obtain ⟨hasExit, worker, workerIn, workerOut⟩ := rep.no_exit unstarted
  have born := unstarted.born
  refine .move .owner { t with tid := true, online := true, worker := .test, owner := .runResetOut a }
    rfl ?_ (by simp [PoolThread.observe, at_]) ?_
  · simp [PoolThread.step, PoolThread.State.ownerNext, at_]
  · have starts : OwnerAt s.args s.thread.data.tid 1 (.inThreadRun a) .idle .idle (.runWriteTid id)
        (.runResetOut a) := by
      have goes : OwnerAt s.args s.thread.data.tid 1 (.inThreadRun a) .idle .idle (.runWriteTid id)
        (ran a id) := .writing
      rwa [ran, if_pos some] at goes
    have single : Single { s.thread with
        born := s.thread.born + 1
        place := Function.update s.thread.place s.thread.born .setSpecific } := by
      refine ⟨by simp [born], fun k late => ?_, rep.single.calm⟩
      have late : s.thread.born + 1 ≤ k := late
      have apart : k ≠ s.thread.born := by omega
      simpa [Function.update_of_ne apart] using rep.single.unborn k (by omega)
    exact { rep with
      tid := by simp [announced, Thread.State.write, goto_pc, some]
      online := by simp [Thread.State.write, Thread.State.goto, Thread.Data.online, hasExit]
      owner := by
        simpa [Thread.State.write, Thread.State.goto, here, sigIn, sigOut, born] using starts
      worker := by
        simpa [Thread.State.write, Thread.State.goto, hasExit, worker, workerIn, workerOut, born]
          using .entering (.inl rfl)
      single := ⟨single.born, single.unborn, single.calm⟩
      starting := fun off => by rw [(flags.creating a at_).2] at off; cases off
      creating := fun b there => by cases there }

/-- The owner moves on inside `Thread::Run`. -/
theorem run_seen {a : Arg} (rep : Represents s t) (flags : FlagInvariant t)
    (here : s.owner = .inThreadRun a) (usual : s.thread.pc () ≠ .runCreate 0)
    {thr : Thread.State Unit Unit} (taken : s.thread.next () = some thr) : Simulated { s with
      thread := thr
      owner := if thr.pc () = .idle then s.owner.afterThread (s.thread.pc ()) else s.owner } t none := by
  have at_ := rep.owner
  rw [here] at at_
  obtain ⟨sigIn, sigOut, ⟨before, at_⟩ | ⟨id, tp, at_⟩ | ⟨tp, at_⟩ | ⟨id, tp, at_⟩⟩ := at_.of_inThreadRun
  · obtain ⟨unstarted, _⟩ := rep.at_runCreate at_
    have none : s.thread.data.tid = 0 := unstarted.tid
    have quiet := unstarted.quiet
    have stays {pc : Thread.Pc Unit} (still : early pc = true) (after : ∀ id, pc ≠ .runWriteTid id) :
        OwnerAt s.args s.thread.data.tid s.thread.data.thread (.inThreadRun a)
          ((s.sig .sigIn).pc .owner) ((s.sig .sigOut).pc .owner) pc t.owner := by
      rw [sigIn, sigOut, at_]
      exact .creating still
    cases tp : s.thread.pc () with
    | runTestFunc x =>
      simp only [Thread.State.next, tp] at taken
      cases taken
      rw [goto_pc, here]
      cases s.thread.data.func with
      | true =>
        refine .hidden rfl (rep.stays_in_thread (.runTestTid x) quiet (by simp) ?_ fun _ same => same)
        simpa using stays rfl (by simp)
      | false =>
        -- does not happen, the `Thread` has a function; it would end as a failed creation
        refine .move (.createFails t.online) { t with owner := .runReturn a false } rfl
          (by simp [PoolThread.step, at_]) rfl
          (rep.stays_in_thread (.runReturn 0) quiet (by simp) ?_ (by simp))
        have returns : OwnerAt s.args s.thread.data.tid s.thread.data.thread (.inThreadRun a) .idle .idle
          (.runReturn 0) (ran a 0) := .started
        simpa [sigIn, sigOut, ran] using returns
    | runTestTid x =>
      simp only [Thread.State.next, tp, none] at taken
      cases taken
      rw [goto_pc, here]
      refine .hidden rfl (rep.stays_in_thread (.runWriteArgs x) quiet (by simp) ?_ fun _ same => same)
      simpa using stays rfl (by simp)
    | runWriteArgs x =>
      simp only [Thread.State.next, tp] at taken
      cases taken
      refine .hidden rfl (rep.of_thread rfl rfl rfl rfl rfl rfl quiet ?_ ?_ fun _ same => same)
      · simp [Thread.State.write, goto_pc]
      · simpa [Thread.State.write, goto_pc, here] using stays rfl (by simp)
    | runNextTid =>
      simp only [Thread.State.next, tp] at taken
      cases taken
      refine .hidden rfl (rep.of_thread rfl rfl rfl rfl rfl rfl quiet ?_ ?_ fun _ same => same)
      · simp [goto_pc]
      · simpa [goto_pc, here] using stays rfl (by simp)
    | runCreate id =>
      have busy : thr.pc () ≠ .idle := by
        simp only [Thread.State.next, tp] at taken
        cases taken
        simp [Thread.State.write, goto_pc]
      rw [if_neg busy]
      refine create_seen rep flags here at_ ?_ sigIn sigOut tp taken
      rintro rfl
      exact usual tp
    | _ => simp [tp, early] at before
  · -- the id is written after the worker has been born, but only the owner reads it
    simp only [Thread.State.next, tp] at taken
    cases taken
    have same : announced (s.thread.write () { s.thread.data with tid := id } .runReadTid) =
        announced s.thread := by
      simp [announced, Thread.State.write, goto_pc, tp]
      rfl
    refine .hidden rfl { rep with
      tid := rep.tid.trans (by rw [same])
      owner := ?_
      single := ⟨rep.single.born, rep.single.unborn, rep.single.calm⟩
      starting := fun off => absurd tp ((rep.starting off).quiet id)
      creating := fun b there => absurd (at_ ▸ there) (ran_ne_runCreate a b id) }
    have written : OwnerAt s.args id s.thread.data.thread (.inThreadRun a) .idle .idle .runReadTid
      (ran a id) := .written
    simpa [Thread.State.write, Thread.State.goto, here, sigIn, sigOut, at_] using written
  · simp only [Thread.State.next, tp] at taken
    cases taken
    rw [goto_pc, here]
    refine .hidden rfl (rep.stays_in_thread (.runReturn s.thread.data.tid) (by simp [tp]) (by simp) ?_
      fun _ same => same)
    rw [sigIn, sigOut, at_]
    exact .started
  · simp only [Thread.State.next, tp] at taken
    cases taken
    rw [goto_pc, here, tp]
    refine .hidden rfl (rep.stays_in_thread .idle (by simp [tp]) (by simp) ?_ fun _ same => same)
    rw [sigIn, sigOut, at_, ran, if_pos rfl, Owner.afterThread]
    split
    · exact .outside rfl
    · exact .returning fun some => absurd rfl some

private theorem createFails_seen {a : Arg} (rep : Represents s t) (here : s.owner = .inThreadRun a)
    {left : ℕ}
    {thr : Thread.State Unit Unit} (taken : Thread.step s.thread (.createFails () left) = some thr) :
    Simulated { s with
      thread := thr
      owner := if thr.pc () = .idle then s.owner.afterThread (s.thread.pc ()) else s.owner } t none := by
  have at_ := rep.owner
  rw [here] at at_
  simp only [Thread.step] at taken
  split at taken
  · rename_i id tp
    obtain ⟨sigIn, sigOut, ⟨before, at_⟩ | ⟨id, other, at_⟩ | ⟨other, at_⟩ | ⟨id, other, at_⟩⟩ :=
      at_.of_inThreadRun
    case inr.inl | inr.inr.inl | inr.inr.inr => simp [tp] at other
    obtain ⟨unstarted, unannounced⟩ := rep.at_runCreate at_
    obtain ⟨hasExit, -⟩ := rep.no_exit unstarted
    have none : s.thread.data.tid = 0 := unstarted.tid
    cases taken
    have same : announced (s.thread.write () { s.thread.data with thread := left } .runReadTid) =
        announced s.thread := by
      rw [unannounced]
      simp [announced, Thread.State.write, goto_pc]
      exact none
    refine .move (.createFails (decide (left ≠ 0)))
      { t with online := decide (left ≠ 0), owner := .runReturn a false } rfl
      (by simp [PoolThread.step, at_]) rfl { rep with
        tid := rep.tid.trans (by rw [same])
        online := by
          simp only [Thread.State.write, Thread.State.goto, Thread.Data.online, hasExit, Bool.not_false,
            Bool.and_true]
          exact decide_eq_decide.mpr Iff.rfl
        owner := ?_
        single := ⟨rep.single.born, rep.single.unborn, rep.single.calm⟩
        starting := fun _ => ⟨unstarted.born, none, by simp [Thread.State.write, goto_pc]⟩
        creating := fun b there => by cases there }
    have written : OwnerAt s.args s.thread.data.tid left (.inThreadRun a) .idle .idle .runReadTid
      (ran a s.thread.data.tid) := .written
    simpa [Thread.State.write, Thread.State.goto, here, sigIn, sigOut, none, ran] using written
  · cases taken

theorem OwnerAt.in_thread (at_ : OwnerAt args tid thread owner pin pout tp o) :
    (owner.inThread = true → tp ≠ .idle) ∧ (∀ time, tp ≠ .waitClock time) ∧
      (∀ waiter, tp ≠ .condWait waiter) ∧ (∀ waiter, tp ≠ .blocked waiter) ∧ tp ≠ .waitState := by
  cases at_ with
  | creating before =>
    refine ⟨fun _ => ?_, ?_, ?_, ?_, ?_⟩
    case refine_1 | refine_5 => rintro rfl; cases before
    all_goals rintro _ rfl; cases before
  | outside same => cases owner <;> simp_all [Owner.outside, Owner.inThread]
  | _ => simp [Owner.inThread]

theorem run_thread_seen (rep : Represents s t) (flags : FlagInvariant t)
    (usual : s.thread.pc () ≠ .runCreate 0) (taken : s.threadNext (.run ()) = some s') :
    Simulated s' t none := by
  unfold State.threadNext at taken
  split at taken
  · rename_i permitted
    obtain ⟨thr, moved, rfl⟩ := Option.map_eq_some_iff.mp taken
    have inThread : s.owner.inThread = true := permitted
    simp only [inThread, true_and]
    cases here : s.owner with
    | inThreadRun a => simpa [here] using run_seen rep flags here usual moved
    | inGetId => simpa [here] using getId_seen rep here moved
    | inStatus => simpa [here] using status_seen rep here moved
    | inKill => exact absurd here rep.owner.not_kill.2.1
    | _ =>
      rw [here] at inThread
      cases inThread
  · cases taken

theorem createFails_thread_seen {left : ℕ} (rep : Represents s t)
    (taken : s.threadNext (.createFails () left) = some s') : Simulated s' t none := by
  unfold State.threadNext at taken
  split at taken
  · rename_i permitted
    obtain ⟨thr, moved, rfl⟩ := Option.map_eq_some_iff.mp taken
    have inThread : s.owner.inThread = true := permitted
    simp only [inThread, true_and]
    have at_ := rep.owner
    obtain ⟨id, tp⟩ : ∃ id, s.thread.pc () = .runCreate id := by
      simp only [Thread.step] at moved
      split at moved
      · exact ⟨_, ‹_›⟩
      · cases moved
    cases here : s.owner with
    | inThreadRun a => simpa [here] using createFails_seen rep here moved
    | inGetId =>
      rw [here] at at_
      obtain ⟨-, -, ⟨other, -⟩ | ⟨_, other, -⟩⟩ := at_.of_inGetId <;> simp [tp] at other
    | inStatus =>
      rw [here] at at_
      obtain ⟨-, -, ⟨other, -⟩ | ⟨other, -⟩ | ⟨other, -⟩ | ⟨other, -⟩⟩ := at_.of_inStatus <;>
        simp [tp] at other
    | inKill => exact absurd here rep.owner.not_kill.2.1
    | _ =>
      rw [here] at inThread
      cases inThread
  · cases taken

end OwnerThread

end Prot.System.PoolThread.Layers
