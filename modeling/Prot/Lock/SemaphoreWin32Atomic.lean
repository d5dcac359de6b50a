import Prot.Concurrency.Threads
import Prot.Lock.SemaphoreAtomic
import Prot.Lock.SemaphoreWin32

/-! The Windows semaphore against the atomic bounded counter of the POSIX one.
Its count is the kernel's; a `Post` is refused by the copy in `current`, and the
histories are those of the counter as long as the copy refuses nothing that the
kernel has room for. -/

namespace Prot.Lock.SemaphoreWin32

open Concurrency Time
open Semaphore (Op Res Acts Call maximumCount toInt_add_of_fits toInt_sub_of_fits)

def Pc.returns {Thread : Type} (thread : Thread) : Pc → Option (Event Thread Op Res)
  | .waitReturn rv | .postReturn rv => some (.ret thread (.done rv))
  | .currentReturn c => some (.ret thread (.count c.toInt))
  | _ => none

def observe {Thread : Type} (s : State Thread) (action : Action Thread) :
    Option (Event Thread Op Res) :=
  match action with
  | .call thread call => call.op.map (.call thread)
  | action => (s.pc action.thread).returns action.thread

def Pc.status (m : Int32) : Pc → Status Op Res
  | .idle | .setMaxWrite _ | .setMaxReturn _ => .idle
  | .waitTake _ => .called .wait
  | .waitDecrement => .acted (.done true)
  | .waitReturn rv | .postReturn rv => .acted (.done rv)
  | .postReadMaximum n c => if m < c + n then .acted (.done false) else .called (.post n.toInt)
  | .postTest n tmp => if tmp ≤ m then .called (.post n.toInt) else .acted (.done false)
  | .postReadCurrent n | .postAdd n | .postRelease n => .called (.post n.toInt)
  | .postUndo _ => .acted (.done false)
  | .currentRead => .called .current
  | .currentReturn c => .acted (.count c.toInt)

/-- What `current` is ahead of the kernel by the operation in progress. -/
def Pc.ahead : Pc → ℤ
  | .waitDecrement => 1
  | .postTest n _ | .postRelease n | .postUndo n => n.toInt
  | _ => 0

/-- What the operation in progress is going to release. -/
def Pc.granted (m : Int32) : Pc → ℤ
  | .postTest n tmp => if tmp ≤ m then n.toInt else 0
  | .postRelease n => n.toInt
  | _ => 0

def Pc.amount : Pc → Option Int32
  | .postReadMaximum n _ | .postAdd n | .postTest n _ | .postRelease n | .postUndo n => some n
  | _ => none

/-- Neither in `SetMax` nor in `Current`. -/
def Pc.usual : Pc → Bool
  | .setMaxWrite _ | .setMaxReturn _ | .currentRead | .currentReturn _ => false
  | _ => true

def Action.ordinary {Thread : Type} : Action Thread → Prop
  | .call _ (.setMax _) | .call _ .current => False
  | _ => True

instance {Thread : Type} (action : Action Thread) : Decidable action.ordinary := by
  unfold Action.ordinary
  split <;> infer_instance

/-- An addition to `current` fits into 32 bits. -/
def Pc.fits (d : Data) : Pc → Prop
  | .postAdd n => d.current.toInt + n.toInt < 2 ^ 31
  | _ => True

instance (d : Data) (p : Pc) : Decidable (p.fits d) := by
  unfold Pc.fits
  split <;> infer_instance

/-- A `Post` that `current` refuses is one that the kernel's count refuses too. -/
def Pc.agrees (d : Data) : Pc → Prop
  | .postReadCurrent n | .postAdd n => 0 < n → d.maximum < d.current + n →
      d.maximum.toInt < d.kernel + n.toInt
  | _ => True

instance (d : Data) (p : Pc) : Decidable (p.agrees d) := by
  unfold Pc.agrees
  split <;> infer_instance

variable {Thread : Type} [DecidableEq Thread] [Fintype Thread] {s s' : State Thread}
variable {action : Action Thread} {thread : Thread} {d d' : Data} {here next : Pc} {m : Int32}

structure Regular (m : Int32) (d : Data) (here : Pc) : Prop where
  maximum : d.maximum = m
  top : m ≤ maximumCount
  kernel : 0 ≤ d.kernel
  positive : ∀ n, here.amount = some n → 0 < n.toInt
  copies : d.kernel + here.ahead ≤ d.current.toInt
  room : d.kernel + here.granted m ≤ m.toInt
  usual : here.usual = true
  fits : here.fits d
  agrees : here.agrees d

omit [DecidableEq Thread] [Fintype Thread] in
/-- A step back is settled by the status after it. -/
theorem back_of_status {event : Option (Event Thread Op Res)} {maximum value value' : ℤ}
    (back : Local (Acts maximum) thread value (here.status m) event (next.status m) value') :
    ∀ after, after = next.status m → ∃ before, before = here.status m ∧
      Local (Acts maximum) thread value before event after value' := by
  rintro after rfl
  exact ⟨_, rfl, back⟩

omit [DecidableEq Thread] [Fintype Thread] in
private theorem next_back (regular : Regular m d here) (taken : here.next d = some (d', next)) :
    Local (Acts m.toInt) thread d.kernel (here.status m) (here.returns thread) (next.status m)
      d'.kernel := by
  obtain ⟨same, top, nonneg, positive, copies, room, usual, fits, agrees⟩ := regular
  cases here <;> simp only [Pc.next] at taken
  case idle => cases taken
  case setMaxWrite | setMaxReturn | currentRead | currentReturn => cases usual
  case waitTake t =>
    split at taken <;> cases taken
    exact .act (.waitTrue ‹_›)
  case waitDecrement =>
    cases taken
    exact .stay
  case waitReturn rv =>
    cases taken
    exact .ret _
  case postReadCurrent n =>
    cases taken
    split
    · rename_i nothing
      rw [Int32.le_iff_toInt_le] at nothing
      exact .act (.postFalse (.inl nothing))
    · rename_i some
      have some : 0 < n := Int32.not_le.mp some
      simp only [Pc.status]
      split
      · rename_i above
        exact .act (.postFalse (.inr (same ▸ agrees some (same ▸ above))))
      · exact .stay
  case postReadMaximum n c =>
    cases taken
    simp only [Pc.status, same]
    split <;> exact .stay
  case postAdd n =>
    cases taken
    simp only [Pc.status]
    split
    · exact .stay
    · rename_i above
      have some : 0 < n := Int32.lt_iff_toInt_lt.mpr (positive n rfl)
      have above : d.maximum < d.current + n := same ▸ Int32.not_le.mp above
      exact .act (.postFalse (.inr (same ▸ agrees some above)))
  case postTest n tmp =>
    cases taken
    simp only [Pc.status, same]
    split <;> exact .stay
  case postRelease n =>
    have some := positive n rfl
    rw [Int32.le_iff_toInt_le] at top
    have within : 0 < n ∧ d.kernel + n.toInt ≤ maximumCount.toInt :=
      ⟨Int32.lt_iff_toInt_lt.mpr some, room.trans top⟩
    rw [if_pos within] at taken
    cases taken
    exact .act (.postTrue some room)
  case postUndo n =>
    cases taken
    exact .stay
  case postReturn rv =>
    cases taken
    exact .ret _

omit [DecidableEq Thread] [Fintype Thread] in
private theorem next_copies (regular : Regular m d here) (taken : here.next d = some (d', next)) :
    d'.current.toInt - d'.kernel - next.ahead = d.current.toInt - d.kernel - here.ahead := by
  obtain ⟨same, top, nonneg, positive, copies, room, usual, fits, agrees⟩ := regular
  have below := Int32.toInt_lt d.current
  cases here <;> simp only [Pc.next] at taken
  case idle => cases taken
  case waitTake t =>
    split at taken <;> cases taken
    change d.current.toInt - (d.kernel - 1) - 1 = d.current.toInt - d.kernel - 0
    omega
  case waitDecrement =>
    cases taken
    have one : (1 : Int32).toInt = 1 := rfl
    have some : d.kernel + 1 ≤ d.current.toInt := copies
    change (d.current - 1).toInt - d.kernel - 0 = d.current.toInt - d.kernel - 1
    rw [toInt_sub_of_fits (by omega) (by omega), one]
    omega
  case postReadCurrent n | postReadMaximum n c | postTest n tmp =>
    cases taken
    split <;> rfl
  case postAdd n =>
    cases taken
    have some := positive n rfl
    have small : d.current.toInt + n.toInt < 2 ^ 31 := fits
    have least : d.kernel + 0 ≤ d.current.toInt := copies
    change (d.current + n).toInt - d.kernel - n.toInt = d.current.toInt - d.kernel - 0
    rw [toInt_add_of_fits (by omega) small]
    omega
  case postRelease n =>
    split at taken <;> cases taken
    · change d.current.toInt - (d.kernel + n.toInt) - 0 = d.current.toInt - d.kernel - n.toInt
      omega
    · rfl
  case postUndo n =>
    cases taken
    have some := positive n rfl
    have least : d.kernel + n.toInt ≤ d.current.toInt := copies
    change (d.current - n).toInt - d.kernel - 0 = d.current.toInt - d.kernel - n.toInt
    rw [toInt_sub_of_fits (by omega) (by omega)]
    omega
  case setMaxWrite => cases usual
  case waitReturn | postReturn | setMaxReturn | currentRead | currentReturn => cases taken; rfl

omit [DecidableEq Thread] [Fintype Thread] in
private theorem next_room (regular : Regular m d here) (taken : here.next d = some (d', next)) :
    d'.kernel + next.granted m ≤ d.kernel + here.granted m ∨
      d'.current.toInt ≤ m.toInt := by
  obtain ⟨same, top, nonneg, positive, copies, room, usual, fits, agrees⟩ := regular
  cases here <;> simp only [Pc.next] at taken
  case idle => cases taken
  case setMaxWrite | setMaxReturn | currentRead | currentReturn => cases usual
  case waitTake t =>
    left
    split at taken <;> cases taken
    change d.kernel - 1 + 0 ≤ d.kernel + 0
    omega
  case postReadCurrent n | postReadMaximum n c =>
    left
    cases taken
    split <;> exact le_rfl
  case postAdd n =>
    cases taken
    by_cases within : d.current + n ≤ m
    · right
      exact Int32.le_iff_toInt_le.mp within
    · left
      simp [Pc.granted, within]
  case postTest n tmp =>
    left
    cases taken
    by_cases within : tmp ≤ m <;> simp [Pc.granted, same, within]
  case postRelease n =>
    left
    have some := positive n rfl
    split at taken <;> cases taken
    · change d.kernel + n.toInt + 0 ≤ d.kernel + n.toInt
      omega
    · change d.kernel + 0 ≤ d.kernel + n.toInt
      omega
  case waitDecrement | waitReturn | postUndo | postReturn =>
    left
    cases taken
    exact le_rfl

omit [DecidableEq Thread] [Fintype Thread] in
private theorem next_amount (usual : here.usual = true) (taken : here.next d = some (d', next))
    (positive : ∀ n, here.amount = some n → 0 < n.toInt) {n : Int32}
    (amount : next.amount = some n) : 0 < n.toInt := by
  cases here <;> simp only [Pc.next] at taken
  case idle => cases taken
  case setMaxWrite | setMaxReturn | currentRead | currentReturn => cases usual
  case postReadCurrent k =>
    cases taken
    split at amount
    · cases amount
    · cases amount
      exact Int32.lt_iff_toInt_lt.mp (Int32.not_le.mp ‹_›)
  case postReadMaximum k c =>
    cases taken
    split at amount
    · cases amount
    · exact positive n amount
  case postAdd k =>
    cases taken
    exact positive n amount
  case postTest k tmp =>
    cases taken
    split at amount <;> exact positive n amount
  case postRelease k =>
    split at taken <;> cases taken
    · cases amount
    · exact positive n amount
  case waitTake => split at taken <;> cases taken; cases amount
  case waitDecrement | waitReturn | postUndo | postReturn => cases taken; cases amount

omit [DecidableEq Thread] [Fintype Thread] in
private theorem next_frame (usual : here.usual = true) (taken : here.next d = some (d', next)) :
    d'.maximum = d.maximum ∧ next.usual = true := by
  cases here <;> simp only [Pc.next] at taken
  case idle => cases taken
  case setMaxWrite | setMaxReturn | currentRead | currentReturn => cases usual
  case waitTake | postRelease => split at taken <;> cases taken <;> exact ⟨rfl, rfl⟩
  case postReadCurrent | postReadMaximum | postTest => cases taken; split <;> exact ⟨rfl, rfl⟩
  case waitDecrement | waitReturn | postAdd | postUndo | postReturn => cases taken; exact ⟨rfl, rfl⟩

omit [DecidableEq Thread] [Fintype Thread] in
private theorem next_kernel (nonneg : 0 ≤ d.kernel) (taken : here.next d = some (d', next)) :
    0 ≤ d'.kernel := by
  cases here <;> simp only [Pc.next] at taken
  case idle => cases taken
  case waitTake =>
    split at taken <;> cases taken
    change 0 ≤ d.kernel - 1
    omega
  case postRelease n =>
    split at taken <;> cases taken
    · rename_i within
      have some := Int32.lt_iff_toInt_lt.mp within.1
      have zero : (0 : Int32).toInt = 0 := rfl
      change 0 ≤ d.kernel + n.toInt
      omega
    · exact nonneg
  case setMaxWrite => split at taken <;> cases taken <;> exact nonneg
  all_goals cases taken; exact nonneg

/-- What holds of every state of a run of `Wait` and `Post`: `current` is the
kernel's count and what the operations in progress are ahead of it, and the
limit has room for all that is granted. -/
structure Invariant (m : Int32) (s : State Thread) : Prop where
  maximum : s.data.maximum = m
  top : m ≤ maximumCount
  kernel : 0 ≤ s.data.kernel
  positive : ∀ t n, (s.pc t).amount = some n → 0 < n.toInt
  copies : s.data.current.toInt = s.data.kernel + contributed Pc.ahead s.pc
  room : s.data.kernel + contributed (Pc.granted m) s.pc ≤ m.toInt
  usual : ∀ t, (s.pc t).usual = true

def Fits (s : State Thread) : Action Thread → Prop
  | .run thread => (s.pc thread).fits s.data
  | _ => True

/-- The steps that refuse a `Post` only where the kernel's count has no room
for it. -/
def Agrees (s : State Thread) : Action Thread → Prop
  | .run thread => (s.pc thread).agrees s.data
  | _ => True

instance (s : State Thread) (action : Action Thread) : Decidable (Fits s action) := by
  unfold Fits
  split <;> infer_instance

instance (s : State Thread) (action : Action Thread) : Decidable (Agrees s action) := by
  unfold Agrees
  split <;> infer_instance

omit [DecidableEq Thread] [Fintype Thread] in
private theorem ahead_nonneg (positive : ∀ n, here.amount = some n → 0 < n.toInt) :
    0 ≤ here.ahead := by
  cases here with
  | postTest n | postRelease n | postUndo n => exact (positive n rfl).le
  | waitDecrement => exact Int.one_nonneg
  | _ => exact le_rfl

omit [DecidableEq Thread] [Fintype Thread] in
private theorem granted_nonneg (positive : ∀ n, here.amount = some n → 0 < n.toInt) :
    0 ≤ here.granted m := by
  cases here with
  | postTest n tmp =>
    simp only [Pc.granted]
    split
    · exact (positive n rfl).le
    · exact le_rfl
  | postRelease n => exact (positive n rfl).le
  | _ => exact le_rfl

omit [DecidableEq Thread] [Fintype Thread] in
private theorem granted_le_ahead (positive : ∀ n, here.amount = some n → 0 < n.toInt) :
    here.granted m ≤ here.ahead := by
  cases here with
  | postTest n tmp =>
    simp only [Pc.granted, Pc.ahead]
    split
    · exact le_rfl
    · exact (positive n rfl).le
  | postUndo n => exact (positive n rfl).le
  | waitDecrement => exact Int.one_nonneg
  | _ => exact le_rfl

omit [DecidableEq Thread] in
theorem Invariant.regular (inv : Invariant m s) (fits : Fits s (.run thread))
    (agrees : Agrees s (.run thread)) : Regular m s.data (s.pc thread) where
  maximum := inv.maximum
  top := inv.top
  kernel := inv.kernel
  positive := inv.positive thread
  copies := by
    have own := le_contributed (fun t => ahead_nonneg (inv.positive t)) thread
    have copies := inv.copies
    omega
  room := by
    have own := le_contributed (fun t => granted_nonneg (m := m) (inv.positive t)) thread
    have room := inv.room
    omega
  usual := inv.usual thread
  fits := fits
  agrees := agrees

/-- A thread that moves to a place where it has added and released nothing. -/
theorem Invariant.put (inv : Invariant m s) {p : Pc} (amount : p.amount = none)
    (usual : p.usual = true) (ahead : p.ahead = (s.pc thread).ahead)
    (granted : p.granted m = (s.pc thread).granted m) : Invariant m (s.put thread s.data p) where
  maximum := inv.maximum
  top := inv.top
  kernel := inv.kernel
  positive := by
    intro t n
    rw [State.put_pc, Function.update_apply]
    split
    · rw [amount]
      exact nofun
    · exact inv.positive t n
  copies := by
    have moved := contributed_update Pc.ahead s.pc thread p
    have copies := inv.copies
    rw [State.put_data, State.put_pc]
    omega
  room := by
    have moved := contributed_update (Pc.granted m) s.pc thread p
    have room := inv.room
    rw [State.put_data, State.put_pc]
    omega
  usual := by
    intro t
    rw [State.put_pc, Function.update_apply]
    split
    · exact usual
    · exact inv.usual t

theorem Invariant.run (inv : Invariant m s) (fits : Fits s (.run thread))
    (agrees : Agrees s (.run thread)) {p : Pc}
    (taken : (s.pc thread).next s.data = some (d', p)) : Invariant m (s.put thread d' p) := by
  have regular := inv.regular fits agrees
  have moved := contributed_update Pc.ahead s.pc thread p
  have change_ := next_copies regular taken
  have same : d'.current.toInt = d'.kernel + contributed Pc.ahead (Function.update s.pc thread p) := by
    have copies := inv.copies
    omega
  have positive : ∀ t n, (Function.update s.pc thread p t).amount = some n → 0 < n.toInt := by
    intro t n
    rw [Function.update_apply]
    split
    · exact next_amount regular.usual taken (inv.positive thread)
    · exact inv.positive t n
  have frame := next_frame regular.usual taken
  refine ⟨frame.1.trans inv.maximum, inv.top, next_kernel inv.kernel taken, positive, same, ?_, ?_⟩
  · rw [State.put_data, State.put_pc]
    rcases next_room regular taken with less | within
    · have joined := contributed_update (Pc.granted m) s.pc thread p
      have room := inv.room
      omega
    · have fewer := contributed_le_contributed (fun t => granted_le_ahead (m := m) (positive t))
      omega
  · intro t
    rw [State.put_pc, Function.update_apply]
    split
    · exact frame.2
    · exact inv.usual t

theorem step_invariant (inv : Invariant m s) (ordinary : action.ordinary) (fits : Fits s action)
    (agrees : Agrees s action) (taken : step s action = some s') : Invariant m s' := by
  cases action with
  | call thread call =>
    simp only [step] at taken
    split at taken
    · rename_i idle
      cases taken
      cases call with
      | wait | post => exact inv.put rfl rfl (by rw [idle]; rfl) (by rw [idle]; rfl)
      | setMax | current => cases ordinary
    · cases taken
  | run thread =>
    obtain ⟨⟨d', p⟩, moved, rfl⟩ := Option.map_eq_some_iff.mp taken
    exact inv.run fits agrees moved
  | expire thread =>
    simp only [step] at taken
    split at taken
    · rename_i here
      split at taken
      · cases taken
        exact inv.put rfl rfl (by rw [here]; rfl) (by rw [here]; rfl)
      · cases taken
    · cases taken

theorem step_back (inv : Invariant m s) (ordinary : action.ordinary) (fits : Fits s action)
    (agrees : Agrees s action) (taken : step s action = some s') :
    StepsBack (Acts m.toInt) (fun s => s.data.kernel) State.pc (fun p status => status = p.status m)
      s s' (observe s action) := by
  cases action with
  | call thread call =>
    simp only [step] at taken
    split at taken
    · rename_i idle
      cases taken
      refine ⟨thread, entry call, rfl, back_of_status ?_⟩
      rw [idle]
      cases call with
      | wait | post => exact .call _
      | setMax | current => cases ordinary
    · cases taken
  | run thread =>
    obtain ⟨⟨d', p⟩, moved, rfl⟩ := Option.map_eq_some_iff.mp taken
    exact ⟨thread, p, rfl, back_of_status (next_back (inv.regular fits agrees) moved)⟩
  | expire thread =>
    simp only [step] at taken
    split at taken
    · rename_i here
      split at taken
      · rename_i empty
        cases taken
        refine ⟨thread, .waitReturn false, rfl, back_of_status ?_⟩
        simp only [observe, Action.thread, here, State.put_data, empty.1]
        exact .act .waitFalse
      · cases taken
    · cases taken

omit [DecidableEq Thread] [Fintype Thread] in
theorem construct_eq_some {created : Bool} {i_set i_max : Int32}
    (made : construct created i_set i_max = some s) :
    (i_set ≤ i_max ∧ 0 ≤ i_set ∧ 0 < i_max ∧ i_max ≤ maximumCount) ∧
      s = ⟨⟨i_set.toInt, i_set, i_max⟩, fun _ => .idle⟩ := by
  simp only [construct] at made
  split at made
  · split at made
    · cases made
      exact ⟨‹_›, rfl⟩
    · cases made
  · cases made

omit [DecidableEq Thread] in
theorem construct_invariant {created : Bool} {i_set i_max : Int32}
    (made : construct created i_set i_max = some s) : Invariant i_max s := by
  obtain ⟨⟨ordered, nonneg, _, top⟩, rfl⟩ := construct_eq_some made
  have ahead : contributed Pc.ahead (fun _ : Thread => Pc.idle) = 0 :=
    contributed_eq_zero fun _ => rfl
  have granted : contributed (Pc.granted i_max) (fun _ : Thread => Pc.idle) = 0 :=
    contributed_eq_zero fun _ => rfl
  rw [Int32.le_iff_toInt_le] at ordered nonneg
  refine ⟨rfl, top, nonneg, nofun, ?_, ?_, fun _ => rfl⟩
  · simp [ahead]
  · simpa [granted] using ordered

/-- Every run of `Wait` and `Post` without overflow in which `current` refuses
no `Post` that the kernel's count has room for is linearizable to the counter. -/
theorem linearizable_of_agrees {created : Bool} {i_set i_max : Int32} {last : State Thread}
    {actions : List (Action Thread)} (made : construct created i_set i_max = some s)
    (ordinary : ∀ action ∈ actions, action.ordinary) (fits : Meets step Fits s actions)
    (agrees : Meets step Agrees s actions) (ran : exec step s actions = some last) :
    Linearizable (Acts i_max.toInt) i_set.toInt (trace step observe s actions) := by
  have start : s.data.kernel = i_set.toInt := by
    obtain ⟨_, rfl⟩ := construct_eq_some made
    rfl
  have idle : ∀ t, s.pc t = .idle := by
    obtain ⟨_, rfl⟩ := construct_eq_some made
    exact fun _ => rfl
  have only : Meets step (fun _ action => action.ordinary) s actions := .of_forall ordinary
  have meets := only.and (fits.and agrees)
  rw [← start]
  have preserved : ∀ (s : State Thread) action s', Invariant i_max s →
      (action.ordinary ∧ Fits s action ∧ Agrees s action) → step s action = some s' →
      Invariant i_max s' :=
    fun _ _ _ inv fine => step_invariant inv fine.1 fine.2.1 fine.2.2
  have back : ∀ (s : State Thread) action s', Invariant i_max s →
      (action.ordinary ∧ Fits s action ∧ Agrees s action) → step s action = some s' →
      StepsBack (Acts i_max.toInt) (fun s => s.data.kernel) State.pc
        (fun p status => status = p.status i_max) s s' (observe s action) :=
    fun _ _ _ inv fine => step_back inv fine.1 fine.2.1 fine.2.2
  refine linearizable_of_stepsBack preserved back (fun p => ⟨_, rfl⟩) ?_
    (construct_invariant made) meets ran
  intro t status same
  rw [same, idle t]
  rfl

/-- A `Wait` takes the unit that a `Post` of another thread releases. -/
def handoverRun : List (Action (Fin 2)) :=
  .call 0 (.wait ⟨20000000⟩) :: .call 1 (.post 1) :: List.replicate 6 (.run 1) ++
    List.replicate 3 (.run 0)

theorem linearizable_handoverRun : Linearizable (Acts 3) 0
    (trace step observe ⟨⟨0, 0, 3⟩, fun _ : Fin 2 => .idle⟩ handoverRun) := by
  have made : construct true 0 3 = some (⟨⟨0, 0, 3⟩, fun _ => .idle⟩ : State (Fin 2)) := rfl
  obtain ⟨last, ran⟩ := Option.isSome_iff_exists.mp
    (show (exec step ⟨⟨0, 0, 3⟩, fun _ : Fin 2 => .idle⟩ handoverRun).isSome = true by decide)
  exact linearizable_of_agrees made (by decide) (by decide) (by decide) ran

def oneUnit : State (Fin 2) := ⟨⟨1, 1, 1⟩, fun _ => .idle⟩

/-- A `Wait` has taken the kernel's only unit and not yet counted it off
`current`; another thread finds no unit and then no room to post one. -/
def windowRun : List (Action (Fin 2)) :=
  [.call 0 (.wait ⟨0⟩), .run 0, .call 1 (.wait ⟨0⟩), .expire 1, .run 1, .call 1 (.post 1), .run 1,
    .run 1, .run 1, .run 0, .run 0]

private theorem trace_windowRun : trace step observe oneUnit windowRun =
    [.call 0 .wait, .call 1 .wait, .ret 1 (.done false), .call 1 (.post 1), .ret 1 (.done false),
      .ret 0 (.done true)] := by
  rfl

/-- Thread 0 has had its unit or is still waiting for it. -/
def Holding (a : AtomicState (Fin 2) Op Res ℤ) : Prop :=
  a.value = 1 ∧ a.status 0 = .called .wait ∨ a.value = 0 ∧ a.status 0 = .acted (.done true)

theorem Holding.act {a : AtomicState (Fin 2) Op Res ℤ} {op : Op} {res : Res} {value : ℤ}
    (holding : Holding a) (called : a.status 0 = .called op) (effect : Acts 1 a.value op res value) :
    value = 0 ∧ res = .done true := by
  rcases holding with ⟨one, waiting⟩ | ⟨_, acted⟩
  · rw [waiting] at called
    cases called
    rw [one] at effect
    cases effect
    exact ⟨rfl, rfl⟩
  · rw [called] at acted
    cases acted

/-- Thread 1 has called `Wait`; it is refused only once thread 0 has the unit. -/
def Waiting (a : AtomicState (Fin 2) Op Res ℤ) : Prop :=
  Holding a ∧ a.status 1 = .called .wait ∨ a.status 1 = .acted (.done true) ∨
    a.value = 0 ∧ a.status 0 = .acted (.done true) ∧ a.status 1 = .acted (.done false)

theorem Waiting.act {a : AtomicState (Fin 2) Op Res ℤ} {t : Fin 2} {op : Op} {res : Res} {value : ℤ}
    (waiting : Waiting a) (called : a.status t = .called op) (effect : Acts 1 a.value op res value) :
    Waiting ⟨value, Function.update a.status t (.acted res)⟩ := by
  rcases waiting with ⟨holding, asked⟩ | acted | ⟨_, taken, acted⟩
  · match t with
    | 0 =>
      obtain ⟨rfl, rfl⟩ := holding.act called effect
      exact .inl ⟨.inr ⟨rfl, rfl⟩, asked⟩
    | 1 =>
      rw [asked] at called
      cases called
      rcases holding with ⟨one, _⟩ | ⟨zero, taken⟩
      · rw [one] at effect
        cases effect
        exact .inr (.inl rfl)
      · rw [zero] at effect
        cases effect with
        | waitTrue some => exact absurd some (lt_irrefl 0)
        | waitFalse => exact .inr (.inr ⟨rfl, taken, rfl⟩)
  · match t with
    | 0 => exact .inr (.inl acted)
    | 1 =>
      rw [acted] at called
      cases called
  · match t with
    | 0 =>
      rw [taken] at called
      cases called
    | 1 =>
      rw [acted] at called
      cases called

/-- Thread 1 has called `Post(1)`, which the empty counter has room for. -/
def Posting (a : AtomicState (Fin 2) Op Res ℤ) : Prop :=
  a.value = 0 ∧ a.status 0 = .acted (.done true) ∧ a.status 1 = .called (.post 1) ∨
    a.status 1 = .acted (.done true)

theorem Posting.act {a : AtomicState (Fin 2) Op Res ℤ} {t : Fin 2} {op : Op} {res : Res} {value : ℤ}
    (posting : Posting a) (called : a.status t = .called op) (effect : Acts 1 a.value op res value) :
    Posting ⟨value, Function.update a.status t (.acted res)⟩ := by
  rcases posting with ⟨zero, taken, asked⟩ | acted
  · match t with
    | 0 =>
      rw [taken] at called
      cases called
    | 1 =>
      rw [asked] at called
      cases called
      rw [zero] at effect
      cases effect with
      | postTrue => exact .inr rfl
      | postFalse refused => omega
  · match t with
    | 0 => exact .inr acted
    | 1 =>
      rw [acted] at called
      cases called

/-- The counter cannot refuse a unit to a `Wait` and then room to a `Post` while
only one unit is out. -/
theorem not_linearizable_window : ¬ Linearizable (Acts 1) 1
    ([.call 0 .wait, .call 1 .wait, .ret 1 (.done false), .call 1 (.post 1), .ret 1 (.done false),
      .ret 0 (.done true)] : List (Event (Fin 2) Op Res)) := by
  rintro ⟨last, run⟩
  obtain ⟨a, ⟨one, idle⟩, run⟩ :=
    run.call_inv (fun a => a.value = 1 ∧ ∀ t, a.status t = .idle) ⟨rfl, fun _ => rfl⟩ (by
      rintro a t op res value ⟨_, idle⟩ called _
      rw [idle t] at called
      cases called)
  obtain ⟨a, ⟨holding, idle⟩, run⟩ :=
    run.call_inv (fun a => Holding a ∧ a.status 1 = .idle) ⟨.inl ⟨one, rfl⟩, idle 1⟩ (by
      rintro a t op res value ⟨holding, idle⟩ called effect
      match t with
      | 0 =>
        obtain ⟨rfl, rfl⟩ := holding.act called effect
        exact ⟨.inr ⟨rfl, rfl⟩, idle⟩
      | 1 =>
        rw [idle] at called
        cases called)
  obtain ⟨a, waiting, refused, run⟩ :=
    run.ret_inv Waiting (.inl ⟨holding, rfl⟩) fun _ _ _ _ _ => Waiting.act
  obtain ⟨zero, taken⟩ : a.value = 0 ∧ a.status 0 = .acted (.done true) := by
    simpa [Waiting, refused] using waiting
  obtain ⟨a, ⟨zero, taken, idle⟩, run⟩ :=
    run.call_inv (fun a => a.value = 0 ∧ a.status 0 = .acted (.done true) ∧ a.status 1 = .idle)
      ⟨zero, taken, rfl⟩ (by
      rintro a t op res value ⟨_, taken, idle⟩ called _
      match t with
      | 0 =>
        rw [taken] at called
        cases called
      | 1 =>
        rw [idle] at called
        cases called)
  obtain ⟨a, posting, refused, run⟩ :=
    run.ret_inv Posting (.inl ⟨zero, taken, rfl⟩) fun _ _ _ _ _ => Posting.act
  simp [Posting, refused] at posting

/-- A complete history of the Windows semaphore, without overflow, that the
counter cannot give. -/
theorem windowRun_not_linearizable :
    ∃ s last : State (Fin 2), construct true 1 1 = some s ∧ exec step s windowRun = some last ∧
      (∀ action ∈ windowRun, action.ordinary) ∧ Meets step Fits s windowRun ∧
      (∀ t, last.pc t = .idle) ∧
      ¬ Linearizable (Acts 1) 1 (trace step observe s windowRun) := by
  obtain ⟨last, ran⟩ := Option.isSome_iff_exists.mp
    (show (exec step oneUnit windowRun).isSome = true by decide)
  refine ⟨oneUnit, last, rfl, ran, by decide, by decide, ?_, ?_⟩
  · have ends : (exec step oneUnit windowRun).map
        (fun last => decide (∀ t, last.pc t = .idle)) = some true := by decide
    rw [ran] at ends
    simpa using ends
  · rw [trace_windowRun]
    exact not_linearizable_window

end Prot.Lock.SemaphoreWin32
