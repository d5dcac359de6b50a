import Prot.Struct.StringFromInt
import Prot.Concurrency.Machine

/-! Any number of `String` variables over one heap: which buffers are alive,
how their references are counted, and what value each variable has. -/

namespace Prot.Struct.String

open Concurrency Memory

variable {Var : Type} [Fintype Var] [DecidableEq Var]

structure State (Var : Type) where
  heap : Buffers
  pb : Var → Option ℕ

/-- One operation of a program on its variables. -/
inductive Op (Var : Type) where
  | empty (v : Var)
  | ofText (v : Var) (s : List UInt8)
  | ofBytes (v : Var) (s : List UInt8)
  | fill (v : Var) (c : UInt8) (l : ℕ)
  | fromInt (v : Var) (num : Int64) (rdx : UInt8)
  | ofString (v other : Var)
  | subStr (v other : Var) (start count : ℕ)
  | assign (v other : Var)
  | upper (v : Var)
  | destroy (v : Var)
  deriving DecidableEq, Repr

def start : State Var := ⟨Heap.empty, fun _ => none⟩

def State.become (s : State Var) (v : Var) (made : Except Fault (Buffers × ℕ)) :
    Except Fault (State Var) :=
  made.map fun (heap, pb) => ⟨heap, Function.update s.pb v (some pb)⟩

/-- A constructor, which needs a variable that is not alive. -/
def State.construct (s : State Var) (v : Var) (made : Except Fault (Buffers × ℕ)) :
    Option (Except Fault (State Var)) :=
  match s.pb v with
  | none => some (s.become v made)
  | some _ => none

/-- The operation on a state; `none` where the language does not allow it, as
one of its variables is not alive, or one to be constructed is. -/
def Op.run (s : State Var) : Op Var → Option (Except Fault (State Var))
  | .empty v => s.construct v (String.empty s.heap)
  | .ofText v text => s.construct v (String.ofText s.heap text)
  | .ofBytes v bytes => s.construct v (String.ofBytes s.heap bytes)
  | .fill v c l => s.construct v (String.fill s.heap c l)
  | .fromInt v num rdx => s.construct v (String.fromInt s.heap num rdx)
  | .ofString v other => (s.pb other).bind fun pb => s.construct v (String.ofString s.heap pb)
  | .subStr v other start count =>
    (s.pb other).bind fun pb => s.construct v (String.subStr s.heap pb start count)
  | .assign v other =>
    (s.pb v).bind fun pb => (s.pb other).map fun po => s.become v (String.assign s.heap pb po)
  | .upper v => (s.pb v).map fun pb => s.become v (String.upper s.heap pb)
  | .destroy v => (s.pb v).map fun pb =>
    (String.destroy s.heap pb).map fun heap => ⟨heap, Function.update s.pb v none⟩

/-- A program runs until a fault. -/
def step : Except Fault (State Var) → Op Var → Option (Except Fault (State Var))
  | .ok s, op => op.run s
  | .error _, _ => none

/-- The bytes of a variable that is alive; `none` within them is a byte whose
value is indeterminate. -/
def State.value (s : State Var) (v : Var) : Option (List (Option UInt8)) :=
  (s.pb v).bind fun pb => (s.heap.object pb).map PtBuf.value

/-- Every live buffer counts the live strings that point to it, all of these
point to live buffers, and every other buffer has been deleted once. -/
def Sound (s : State Var) : Prop := Counted PtBuf.zRef s.heap s.pb

/-- The variable an operation is about. -/
def Op.target : Op Var → Var
  | .empty v | .ofText v _ | .ofBytes v _ | .fill v _ _ | .fromInt v _ _ => v
  | .ofString v _ | .subStr v _ _ _ | .assign v _ | .upper v | .destroy v => v

/-- ASCII upper case. -/
def upperCase (c : UInt8) : UInt8 := UInt8.ofNat (Char.ofNat c.toNat).toUpper.toNat

/-- What an operation does to the value of its own variable, as far as it is
settled by sharing alone. -/
def Op.Effect (s s' : State Var) : Op Var → Prop
  | .empty v => s'.value v = some []
  | .ofText v text => s'.value v = some ((text.takeWhile (· ≠ 0)).map some)
  | .ofBytes v bytes => s'.value v = some (bytes.map some)
  | .fill v c l => s'.value v = some (List.replicate l (some c))
  | .fromInt v _ _ | .subStr v _ _ _ => (s'.value v).isSome = true
  | .ofString v other | .assign v other => s'.value v = s.value other
  | .upper v => s'.value v = (s.value v).map (List.map (Option.map upperCase))
  | .destroy v => s'.value v = none

/-- No variable but one has changed its value. -/
def Kept (v : Var) (s s' : State Var) : Prop := ∀ w, w ≠ v → s'.value w = s.value w

/-- The operation works: without a fault, into a sound state, with the right
value for its variable and without an effect on any other. -/
def Works : Except Fault (State Var) → Op Var → Prop
  | .ok s, op => ∀ result, op.run s = some result →
    ∃ s', result = .ok s' ∧ Sound s' ∧ Kept op.target s s' ∧ op.Effect s s'
  | .error _, _ => True

def State.buffer (s : State Var) (v : Var) : Option Buffer := (s.pb v).bind s.heap.object

/-- `Upper` finds its buffer shared, `SubStr` stays in the block of its source,
`FromInt` does not get the number that has no negative, and no new buffer has a size
at which `z_max + 1` wraps. -/
def Op.Allowed (s : State Var) : Op Var → Prop
  | .upper v => ∀ b ∈ s.buffer v, 2 ≤ b.zRef
  | .subStr _ other start count =>
    PtBuf.Sized count ∧ ∀ b ∈ s.buffer other, count = 0 ∨ start + count ≤ b.zMax + 1
  | .fromInt _ num rdx => 1 < rdx ∧ rdx < 37 → num ≠ Int64.minValue
  | .ofText _ text => PtBuf.Sized (text.takeWhile (· ≠ 0)).length
  | .ofBytes _ bytes => PtBuf.Sized bytes.length
  | .fill _ _ l => PtBuf.Sized l
  | .empty _ | .ofString _ _ | .assign _ _ | .destroy _ => True

/-- What an operation needs, as long as the program has not met a fault. -/
def Allowed : Except Fault (State Var) → Op Var → Prop
  | .ok s, op => op.Allowed s
  | .error _, _ => True

/-- The buffers are sound and every live one of them is well formed, with a length that fits. -/
structure Invariant (s : State Var) : Prop where
  sound : Sound s
  fit : ∀ a b, s.heap.object a = some b → Fit b

variable {s s' : State Var} {v w : Var} {pb a : ℕ} {b d : Buffer}

omit [DecidableEq Var] in
theorem start_invariant : Invariant (start : State Var) :=
  ⟨Counted.empty, nofun⟩

private theorem upperChar_eq (c : UInt8) : upperChar c = upperCase c := by
  have all : ∀ n < 256, upperChar (UInt8.ofNat n) = upperCase (UInt8.ofNat n) := by decide +kernel
  simpa using all c.toNat c.toNat_lt

omit [Fintype Var] [DecidableEq Var] in
theorem value_eq (points : s.pb v = some pb) (live : s.heap.object pb = some b) :
    s.value v = some b.value := by
  simp [State.value, points, live]

omit [Fintype Var] [DecidableEq Var] in
theorem mem_buffer (points : s.pb v = some pb) (live : s.heap.object pb = some b) :
    b ∈ s.buffer v := by
  rw [State.buffer, points]
  exact live

/-- A variable keeps its value if its buffer does. -/
theorem kept_of_object {heap : Buffers} {moved : Option ℕ} (inv : Invariant s)
    (same : ∀ w a b, w ≠ v → s.pb w = some a → s.heap.object a = some b →
      ∃ d, heap.object a = some d ∧ d.value = b.value) :
    Kept v s ⟨heap, Function.update s.pb v moved⟩ := by
  intro w other
  cases points : s.pb w with
  | none => simp [State.value, Function.update_of_ne other, points]
  | some a =>
    obtain ⟨b, live⟩ := inv.sound.alive w a points
    obtain ⟨d, after, equal⟩ := same w a b other points live
    rw [value_eq points live, ← equal]
    exact value_eq (by simpa [Function.update_of_ne other] using points) after

/-- A variable gets a buffer of its own. -/
theorem Invariant.create (inv : Invariant s) (free : s.pb v = none) (one : b.zRef = 1)
    (fit : Fit b) :
    Invariant ⟨s.heap.new b, Function.update s.pb v (some s.heap.next)⟩ ∧
      Kept v s ⟨s.heap.new b, Function.update s.pb v (some s.heap.next)⟩ := by
  refine ⟨⟨inv.sound.create free one, fun a d live => ?_⟩, ?_⟩
  · by_cases same : a = s.heap.next
    · subst same
      obtain rfl : b = d := by simpa using live
      exact fit
    · rw [Heap.object_new_of_ne same] at live
      exact inv.fit a d live
  · refine kept_of_object inv fun w a d _ points live => ⟨d, ?_, rfl⟩
    rw [Heap.object_new_of_ne (inv.sound.ne_next points), live]

private theorem fit_recount (fit : Fit b) (count : ℕ) : Fit { b with zRef := count } :=
  ⟨⟨fit.block, fit.len, fit.size⟩, fit.sized⟩

omit [DecidableEq Var] in
private theorem fit_set (inv : Invariant s) (live : s.heap.object pb = some b) (count : ℕ) (a : ℕ)
    (d : Buffer) (after : (s.heap.set pb { b with zRef := count }).object a = some d) :
    Fit d := by
  by_cases same : a = pb
  · subst same
    obtain rfl : { b with zRef := count } = d := by simpa using after
    exact fit_recount (inv.fit a b live) count
  · rw [Heap.object_set_of_ne same] at after
    exact inv.fit a d after

omit [Fintype Var] [DecidableEq Var] in
theorem object_recount (live : s.heap.object pb = some b) (count : ℕ)
    (before : s.heap.object a = some d) :
    ∃ e, (s.heap.set pb { b with zRef := count }).object a = some e ∧ e.value = d.value := by
  by_cases same : a = pb
  · subst same
    cases live.symm.trans before
    exact ⟨_, Heap.object_set_self, rfl⟩
  · exact ⟨d, by rw [Heap.object_set_of_ne same, before], rfl⟩

/-- A variable joins a buffer. -/
theorem Invariant.share (inv : Invariant s) (free : s.pb v = none)
    (live : s.heap.object pb = some b) :
    Invariant ⟨s.heap.set pb { b with zRef := b.zRef + 1 }, Function.update s.pb v (some pb)⟩ ∧
      Kept v s ⟨s.heap.set pb { b with zRef := b.zRef + 1 }, Function.update s.pb v (some pb)⟩ :=
  ⟨⟨inv.sound.share free live rfl, fit_set inv live _⟩,
    kept_of_object inv fun _ _ _ _ _ before => object_recount live _ before⟩

/-- A variable leaves its buffer, which is deleted if it was the last. -/
theorem Invariant.drop (inv : Invariant s) (points : s.pb v = some pb)
    (live : s.heap.object pb = some b) :
    Invariant ⟨dropped s.heap pb b, Function.update s.pb v none⟩ ∧
      Kept v s ⟨dropped s.heap pb b, Function.update s.pb v none⟩ := by
  have pos := inv.sound.pos live
  unfold dropped
  by_cases last : b.zRef = 1
  · rw [if_pos last]
    have sound := inv.sound.dropLast points live last
    refine ⟨⟨sound, fun a d after => ?_⟩, kept_of_object inv fun w a d other held before => ?_⟩
    · by_cases same : a = pb
      · subst same
        simp at after
      · rw [Heap.object_remove_of_ne same] at after
        exact inv.fit a d after
    · obtain ⟨e, after⟩ := sound.alive w a (by rw [Function.update_of_ne other, held])
      have different : a ≠ pb := by
        rintro rfl
        simp at after
      exact ⟨d, by rw [Heap.object_remove_of_ne different, before], rfl⟩
  · rw [if_neg last]
    have left : 0 < ({ b with zRef := b.zRef - 1 } : Buffer).zRef := by
      change 0 < b.zRef - 1
      omega
    have less : b.zRef = ({ b with zRef := b.zRef - 1 } : Buffer).zRef + 1 := by
      change b.zRef = b.zRef - 1 + 1
      omega
    exact ⟨⟨inv.sound.drop points live less left, fit_set inv live _⟩,
      kept_of_object inv fun _ _ _ _ _ before => object_recount live _ before⟩

omit [Fintype Var] in
theorem construct_eq_some {made : Except Fault (Buffers × ℕ)} {result : Except Fault (State Var)}
    (ran : s.construct v made = some result) : s.pb v = none ∧ result = s.become v made := by
  unfold State.construct at ran
  split at ran
  · rename_i free
    cases ran
    exact ⟨free, rfl⟩
  · cases ran

theorem Invariant.made {made : Except Fault (Buffers × ℕ)} {value : List (Option UInt8)}
    (inv : Invariant s) (free : s.pb v = none) (own : Made s.heap made value) :
    ∃ s', s.become v made = .ok s' ∧ Invariant s' ∧ Kept v s s' ∧ s'.value v = some value := by
  obtain ⟨b, rfl, one, fit, rfl⟩ := own
  obtain ⟨after, kept⟩ := inv.create free one fit
  refine ⟨_, rfl, after, kept, ?_⟩
  exact value_eq (Function.update_self ..) Heap.object_new_self

/-- A constructor that has joined the buffer of another variable. -/
theorem Invariant.joined (inv : Invariant s) (free : s.pb v = none) (points : s.pb w = some pb)
    (live : s.heap.object pb = some b) :
    ∃ s', s.become v (.ok (s.heap.set pb { b with zRef := b.zRef + 1 }, pb)) = .ok s' ∧
      Invariant s' ∧ Kept v s s' ∧ s'.value v = s.value w := by
  obtain ⟨after, kept⟩ := inv.share free live
  refine ⟨_, rfl, after, kept, ?_⟩
  rw [value_eq points live]
  exact value_eq (b := { b with zRef := b.zRef + 1 }) (Function.update_self ..) Heap.object_set_self

theorem Invariant.assigned {po : ℕ} (inv : Invariant s) (points : s.pb v = some pb)
    (source : s.pb w = some po) :
    ∃ s', s.become v (assign s.heap pb po) = .ok s' ∧ Invariant s' ∧ Kept v s s' ∧
      s'.value v = s.value w := by
  obtain ⟨b, live⟩ := inv.sound.alive v pb points
  obtain ⟨d, alive⟩ := inv.sound.alive w po source
  unfold assign
  by_cases same : pb = po
  · subst same
    have unmoved : Function.update s.pb v (some pb) = s.pb := by
      rw [← points, Function.update_eq_self]
    refine ⟨s, ?_, inv, fun _ _ => rfl, by rw [value_eq points live, value_eq source live]⟩
    rw [if_pos rfl]
    simp only [State.become, Except.map, pure_eq, unmoved]
  · rw [if_neg same, release_eq live (inv.sound.pos live), ok_bind]
    obtain ⟨middle, first⟩ := inv.drop points live
    have still : (dropped s.heap pb b).object po = some d := by
      unfold dropped
      split
      · rw [Heap.object_remove_of_ne (Ne.symm same), alive]
      · rw [Heap.object_set_of_ne (Ne.symm same), alive]
    rw [addRef_eq still, ok_bind]
    have other : w ≠ v := by
      rintro rfl
      cases points.symm.trans source
      exact same rfl
    obtain ⟨after, second⟩ := middle.share (Function.update_self v none s.pb) still
    rw [Function.update_idem] at after second
    refine ⟨_, rfl, after, fun u ne => (second u ne).trans (first u ne), ?_⟩
    rw [value_eq source alive]
    exact value_eq (b := { d with zRef := d.zRef + 1 }) (Function.update_self ..)
      Heap.object_set_self

theorem Invariant.uppered (inv : Invariant s) (points : s.pb v = some pb)
    (live : s.heap.object pb = some b) (shared : 2 ≤ b.zRef) :
    ∃ s', s.become v (upper s.heap pb) = .ok s' ∧ Invariant s' ∧ Kept v s s' ∧
      s'.value v = (s.value v).map (List.map (Option.map upperCase)) := by
  obtain ⟨d, upped, one, fit, value⟩ :=
    upper_shared live (inv.fit pb b live) (inv.sound.ne_next points) shared
  obtain ⟨middle, first⟩ := inv.drop points live
  have recounted : dropped s.heap pb b = s.heap.set pb { b with zRef := b.zRef - 1 } :=
    if_neg (by omega)
  obtain ⟨after, second⟩ := middle.create (Function.update_self v none s.pb) one fit
  rw [Function.update_idem, recounted] at after second
  refine ⟨_, by rw [upped]; rfl, after, fun u ne => (second u ne).trans ?_, ?_⟩
  · have kept := first u ne
    rwa [recounted] at kept
  · rw [value_eq points live]
    refine (value_eq (Function.update_self ..) Heap.object_new_self).trans ?_
    have same : upperChar = upperCase := funext upperChar_eq
    rw [value, same]
    rfl

/-- One operation, from any state that the invariant allows. -/
theorem Invariant.run {op : Op Var} {result : Except Fault (State Var)} (inv : Invariant s)
    (ran : op.run s = some result) (allowed : op.Allowed s) :
    ∃ s', result = .ok s' ∧ Invariant s' ∧ Kept op.target s s' ∧ op.Effect s s' := by
  cases op with
  | empty v =>
    obtain ⟨free, rfl⟩ := construct_eq_some ran
    exact inv.made free empty_made
  | ofText v text =>
    obtain ⟨free, rfl⟩ := construct_eq_some ran
    exact inv.made free (ofText_made allowed)
  | ofBytes v bytes =>
    obtain ⟨free, rfl⟩ := construct_eq_some ran
    exact inv.made free (ofBytes_made allowed)
  | fill v c l =>
    obtain ⟨free, rfl⟩ := construct_eq_some ran
    exact inv.made free (fill_made c allowed)
  | fromInt v num rdx =>
    obtain ⟨free, rfl⟩ := construct_eq_some ran
    obtain ⟨s', made, after, kept, equal⟩ := inv.made free (fromInt_made allowed)
    exact ⟨s', made, after, kept, by simp [Op.Effect, equal]⟩
  | ofString v other =>
    obtain ⟨pb, points, constructed⟩ := Option.bind_eq_some_iff.mp ran
    obtain ⟨free, rfl⟩ := construct_eq_some constructed
    obtain ⟨b, live⟩ := inv.sound.alive other pb points
    rw [ofString_eq live]
    exact inv.joined free points live
  | subStr v other start count =>
    obtain ⟨pb, points, constructed⟩ := Option.bind_eq_some_iff.mp ran
    obtain ⟨free, rfl⟩ := construct_eq_some constructed
    obtain ⟨b, live⟩ := inv.sound.alive other pb points
    by_cases whole : start = 0 ∧ count = b.len
    · rw [subStr_whole _ _ live whole]
      obtain ⟨s', made, after, kept, equal⟩ := inv.joined free points live
      exact ⟨s', made, after, kept, by simp [Op.Effect, equal, value_eq points live]⟩
    · obtain ⟨sized, inside⟩ := allowed
      have own := subStr_made live (inv.fit pb b live) (inv.sound.ne_next points) whole sized
        (inside b (mem_buffer points live))
      obtain ⟨s', made, after, kept, equal⟩ := inv.made free own
      exact ⟨s', made, after, kept, by simp [Op.Effect, equal]⟩
  | assign v other =>
    obtain ⟨pb, points, assigned⟩ := Option.bind_eq_some_iff.mp ran
    obtain ⟨po, source, rfl⟩ := Option.map_eq_some_iff.mp assigned
    exact inv.assigned points source
  | upper v =>
    obtain ⟨pb, points, rfl⟩ := Option.map_eq_some_iff.mp ran
    obtain ⟨b, live⟩ := inv.sound.alive v pb points
    exact inv.uppered points live (allowed b (mem_buffer points live))
  | destroy v =>
    obtain ⟨pb, points, rfl⟩ := Option.map_eq_some_iff.mp ran
    obtain ⟨b, live⟩ := inv.sound.alive v pb points
    obtain ⟨after, kept⟩ := inv.drop points live
    rw [destroy, release_eq live (inv.sound.pos live)]
    exact ⟨_, rfl, after, kept, by simp [Op.Effect, State.value]⟩

omit [Fintype Var] in
theorem construct_fault {made : Except Fault (Buffers × ℕ)} {result : Except Fault (State Var)}
    {fault : Fault} (ran : s.construct v made = some result) (failed : made = .error fault) :
    ∃ fault, result = .error fault := by
  obtain ⟨_, rfl⟩ := construct_eq_some ran
  exact ⟨fault, by rw [failed]; rfl⟩

omit [DecidableEq Var] in
private theorem Invariant.subStr_fault {start count : ℕ} (inv : Invariant s)
    (points : s.pb w = some pb)
    (live : s.heap.object pb = some b)
    (wrong : ¬(Op.subStr v w start count).Allowed s) :
    ∃ fault, String.subStr s.heap pb start count = .error fault := by
  have fit := inv.fit pb b live
  obtain ⟨block, there, length⟩ := fit.block
  have found : s.buffer w = some b := mem_buffer points live
  have part : ¬(start = 0 ∧ count = b.len) := by
    rintro ⟨rfl, rfl⟩
    refine wrong ⟨fit.sized, fun d held => ?_⟩
    cases found.symm.trans held
    have within := fit.len
    have size := fit.size
    omega
  by_cases sized : PtBuf.Sized count
  · refine ⟨_, subStr_outside live there (inv.sound.ne_next points) part sized fun inside => ?_⟩
    refine wrong ⟨sized, fun d held => ?_⟩
    cases found.symm.trans held
    rwa [← length]
  · exact ⟨_, subStr_unsized live part sized⟩

/-- An operation that is not allowed is a fault. -/
theorem Invariant.run_fault {op : Op Var} {result : Except Fault (State Var)} (inv : Invariant s)
    (ran : op.run s = some result) (wrong : ¬op.Allowed s) : ∃ fault, result = .error fault := by
  cases op with
  | ofText v text => exact construct_fault ran (ofBytes_unsized wrong)
  | ofBytes v bytes => exact construct_fault ran (ofBytes_unsized wrong)
  | fill v c l => exact construct_fault ran (fill_unsized wrong)
  | fromInt v num rdx =>
    obtain ⟨radix, smallest⟩ := Classical.not_imp.mp wrong
    obtain rfl := not_not.mp smallest
    exact construct_fault ran (fromInt_smallest radix)
  | subStr v other start count =>
    obtain ⟨pb, points, constructed⟩ := Option.bind_eq_some_iff.mp ran
    obtain ⟨b, live⟩ := inv.sound.alive other pb points
    obtain ⟨fault, failed⟩ := inv.subStr_fault points live wrong
    exact construct_fault constructed failed
  | upper v =>
    obtain ⟨pb, points, rfl⟩ := Option.map_eq_some_iff.mp ran
    obtain ⟨b, live⟩ := inv.sound.alive v pb points
    have found : s.buffer v = some b := mem_buffer points live
    have alone : b.zRef = 1 := by
      have pos := inv.sound.pos live
      by_contra several
      refine wrong fun d held => ?_
      cases found.symm.trans held
      omega
    obtain ⟨fault, failed⟩ := upper_unshared live alone
    exact ⟨fault, by rw [failed]; rfl⟩
  | empty _ | ofString _ _ | assign _ _ | destroy _ => exact absurd trivial wrong

/-- What holds of a program that has not met a fault. -/
def Running : Except Fault (State Var) → Prop
  | .ok s => Invariant s
  | .error _ => True

theorem step_running (current : Except Fault (State Var)) (op : Op Var)
    (result : Except Fault (State Var)) (running : Running current)
    (taken : step current op = some result) : Running result := by
  cases current with
  | error fault => cases taken
  | ok s =>
    by_cases allowed : op.Allowed s
    · obtain ⟨s', rfl, after, _⟩ := running.run taken allowed
      exact after
    · obtain ⟨fault, rfl⟩ := running.run_fault taken allowed
      trivial

private theorem works_iff (current : Except Fault (State Var)) (op : Op Var)
    (result : Except Fault (State Var)) (running : Running current)
    (taken : step current op = some result) : Works current op ↔ Allowed current op := by
  cases current with
  | error fault => cases taken
  | ok s =>
    constructor
    · intro works
      obtain ⟨s', rfl, _⟩ := works result taken
      by_contra wrong
      obtain ⟨fault, failed⟩ := running.run_fault taken wrong
      cases failed
    · intro allowed result' ran
      obtain ⟨s', rfl, after, kept, effect⟩ := running.run ran allowed
      exact ⟨s', rfl, after.sound, kept, effect⟩

/-- Sharing works along a run of any operations on any number of variables if and
only if `Upper` never finds a buffer that only its own string points to, `SubStr` and
`FromInt` read nothing outside of a block or a table, and the sizes do not wrap. -/
theorem sharing_iff (ops : List (Op Var)) :
    Meets step Works (.ok start) ops ↔ Meets step Allowed (.ok start) ops :=
  meets_iff_meets Running step_running works_iff start_invariant

example : ((exec step (.ok start) [.ofText (0 : Fin 2) [104, 105], .ofString 1 0, .upper 1]).map
    fun current => current.toOption.map fun s => (s.value 0, s.value 1)) =
      some (some (some [some 104, some 105], some [some 72, some 73])) := by
  rfl

def aloneRun : List (Op (Fin 1)) := [.ofText 0 [104, 105], .upper 0]

/-- The `AddRef` that `Upper` ends with finds its buffer deleted. -/
theorem aloneRun_fails : ¬ Meets step Works (.ok start) aloneRun := by
  intro meets
  obtain ⟨_, onwards⟩ := meets _ rfl
  obtain ⟨works, _⟩ := onwards (.error .dangling) rfl
  obtain ⟨s', failed, _⟩ := works (.error .dangling) rfl
  cases failed

end Prot.Struct.String
