import Prot.Struct.StringSharing

/-! What a program on `String`s computes, said without buffers: every variable has
bytes of its own, and the sharing and the counting below cannot be seen. -/

namespace Prot.Struct.String

open Concurrency Memory Text

variable {Var : Type} [Fintype Var] [DecidableEq Var]

/-- The bytes of each variable that is alive. -/
abbrev Values (Var : Type) := Var → Option (List UInt8)

def Values.fresh (vals : Values Var) (v : Var) (bytes : List UInt8) : Option (Option (List UInt8)) :=
  match vals v with
  | none => some (some bytes)
  | some _ => none

/-- What `Length()` counts of a slice: all of it, or nothing of a part. -/
def sliceText (text : List UInt8) (start count : ℕ) : List UInt8 :=
  if start = 0 ∧ count = text.length then text else []

/-- What an operation makes of its variable; `none` where it is not allowed. -/
def Op.value (vals : Values Var) : Op Var → Option (Option (List UInt8))
  | .empty v => vals.fresh v []
  | .ofText v text => vals.fresh v (text.takeWhile (· ≠ 0))
  | .ofBytes v bytes => vals.fresh v bytes
  | .fill v c l => vals.fresh v (List.replicate l c)
  | .fromInt v num rdx => vals.fresh v (numberText num rdx)
  | .ofString v other => (vals other).bind (vals.fresh v)
  | .subStr v other start count =>
    (vals other).bind fun text => vals.fresh v (sliceText text start count)
  | .assign v other => (vals v).bind fun _ => (vals other).map some
  | .upper v => (vals v).map fun text => some (text.map upperCase)
  | .destroy v => (vals v).map fun _ => none

def Op.apply (vals : Values Var) (op : Op Var) : Option (Values Var) :=
  (op.value vals).map (Function.update vals op.target)

instance (s : State Var) : ∀ op : Op Var, Decidable (op.Allowed s)
  | .upper v => inferInstanceAs (Decidable (∀ b ∈ s.buffer v, 2 ≤ b.zRef))
  | .subStr _ other start count => inferInstanceAs (Decidable
      (PtBuf.Sized count ∧ ∀ b ∈ s.buffer other, count = 0 ∨ start + count ≤ b.zMax + 1))
  | .fromInt _ num rdx => inferInstanceAs (Decidable (1 < rdx ∧ rdx < 37 → num ≠ Int64.minValue))
  | .ofText _ text => inferInstanceAs (Decidable (PtBuf.Sized (text.takeWhile (· ≠ 0)).length))
  | .ofBytes _ bytes => inferInstanceAs (Decidable (PtBuf.Sized bytes.length))
  | .fill _ _ l => inferInstanceAs (Decidable (PtBuf.Sized l))
  | .empty _ | .ofString _ _ | .assign _ _ | .destroy _ => .isTrue trivial

instance : ∀ (current : Except Fault (State Var)) (op : Op Var), Decidable (Allowed current op)
  | .ok s, op => inferInstanceAs (Decidable (op.Allowed s))
  | .error _, _ => .isTrue trivial

/-- The variables have these bytes. -/
def Shown (s : State Var) (vals : Values Var) : Prop :=
  ∀ v, s.value v = (vals v).map (List.map some)

/-- A program without a fault, whose variables have these bytes; a buffer is there as
long as a variable points to it, and has then been deleted, once. -/
def Shows (current : Except Fault (State Var)) (vals : Values Var) : Prop :=
  ∃ s, current = .ok s ∧ Shown s vals ∧
    ∀ a < s.heap.next, (∃ v, s.pb v = some a) ∧ s.heap.deletions a = 0 ∨
      (∀ v, s.pb v ≠ some a) ∧ s.heap.deletions a = 1

/-- What relates the two programs along a run. -/
def Related (current : Except Fault (State Var)) (vals : Values Var) : Prop :=
  ∃ s, current = .ok s ∧ Invariant s ∧ Shown s vals

variable {s s' : State Var} {vals : Values Var} {v w : Var} {pb : ℕ} {b : Buffer} {bytes : List UInt8}

omit [DecidableEq Var] in
theorem Shown.none_iff (shown : Shown s vals) (inv : Invariant s) :
    vals v = none ↔ s.pb v = none := by
  have same := shown v
  cases points : s.pb v with
  | none =>
    rw [State.value, points] at same
    simpa using same.symm
  | some pb =>
    obtain ⟨b, live⟩ := inv.sound.alive v pb points
    rw [value_eq points live] at same
    cases there : vals v with
    | none =>
      rw [there] at same
      cases same
    | some bytes => simp

omit [DecidableEq Var] in
/-- A variable that is alive has a buffer with its bytes. -/
theorem Shown.some_iff (shown : Shown s vals) (inv : Invariant s) (there : vals v = some bytes) :
    ∃ pb b, s.pb v = some pb ∧ s.heap.object pb = some b ∧ b.value = bytes.map some := by
  cases points : s.pb v with
  | none =>
    have gone := (shown.none_iff inv).mpr points
    cases gone.symm.trans there
  | some pb =>
    obtain ⟨b, live⟩ := inv.sound.alive v pb points
    have same := shown v
    rw [value_eq points live, there] at same
    exact ⟨pb, b, rfl, live, Option.some.inj same⟩

omit [Fintype Var] in
/-- Only the variable of the operation has changed. -/
theorem Shown.update {value : Option (List UInt8)} (shown : Shown s vals) (kept : Kept v s s')
    (same : s'.value v = value.map (List.map some)) : Shown s' (Function.update vals v value) := by
  intro w
  by_cases moved : w = v
  · subst moved
    rw [Function.update_self, same]
  · rw [Function.update_of_ne moved, kept w moved, shown w]

omit [Fintype Var] [DecidableEq Var] in
private theorem length_value {b : Buffer} (formed : b.Formed) : b.value.length = b.len := by
  obtain ⟨⟨block, there, size⟩, len, within⟩ := formed
  rw [PtBuf.value, there, Option.getD_some, List.length_take]
  omega

/-- An operation that works and gives its variable these bytes. -/
def Right (s : State Var) (v : Var) (result : Except Fault (State Var))
    (value : Option (List UInt8)) : Prop :=
  ∃ s', result = .ok s' ∧ Invariant s' ∧ Kept v s s' ∧ s'.value v = value.map (List.map some)

theorem related_of_right {result : Except Fault (State Var)} {value : Option (List UInt8)}
    (shown : Shown s vals) (right : Right s v result value) :
    Related result (Function.update vals v value) := by
  obtain ⟨s', rfl, inv, kept, same⟩ := right
  exact ⟨s', rfl, inv, shown.update kept same⟩

/-- A constructor is allowed in the same states, and makes the same bytes. -/
theorem construct_related {made : Except Fault (Buffers × ℕ)} (inv : Invariant s)
    (shown : Shown s vals) (right : s.pb v = none → Right s v (s.become v made) (some bytes)) :
    Option.Rel Related (s.construct v made)
      ((vals.fresh v bytes).map (Function.update vals v)) := by
  cases there : vals v with
  | none =>
    have free := (shown.none_iff inv).mp there
    simp only [State.construct, Values.fresh, free, there, Option.map_some]
    exact .some (related_of_right shown (right free))
  | some _ =>
    obtain ⟨pb, b, points, _⟩ := shown.some_iff inv there
    simp only [State.construct, Values.fresh, points, there, Option.map_none]
    exact .none

omit [Fintype Var] in
theorem construct_eq {made : Except Fault (Buffers × ℕ)} (free : s.pb v = none) :
    s.construct v made = some (s.become v made) := by
  simp only [State.construct, free]

theorem made_related {made : Except Fault (Buffers × ℕ)} (inv : Invariant s) (shown : Shown s vals)
    (own : s.pb v = none → Made s.heap made (bytes.map some)) :
    Option.Rel Related (s.construct v made)
      ((vals.fresh v bytes).map (Function.update vals v)) :=
  construct_related inv shown fun free => inv.made free (own free)

private theorem ofString_right (inv : Invariant s) (shown : Shown s vals) (free : s.pb v = none)
    (points : s.pb w = some pb) (live : s.heap.object pb = some b) (there : vals w = some bytes) :
    Right s v (s.become v (ofString s.heap pb)) (some bytes) := by
  obtain ⟨s', made, after, kept, same⟩ := inv.joined free points live
  rw [ofString_eq live]
  exact ⟨s', made, after, kept, by rw [same, shown w, there]⟩

private theorem subStr_right (inv : Invariant s) (shown : Shown s vals) (free : s.pb v = none)
    (points : s.pb w = some pb) (live : s.heap.object pb = some b) (there : vals w = some bytes)
    (same : b.value = bytes.map some) {start count : ℕ}
    (allowed : (Op.subStr v w start count).Allowed s) :
    Right s v (s.become v (subStr s.heap pb start count)) (some (sliceText bytes start count)) := by
  have fit := inv.fit pb b live
  have length : bytes.length = b.len := by
    rw [← length_value fit.toFormed, same, List.length_map]
  unfold sliceText
  rw [length]
  by_cases whole : start = 0 ∧ count = b.len
  · rw [if_pos whole, subStr_whole _ _ live whole]
    obtain ⟨s', made, after, kept, same⟩ := inv.joined free points live
    exact ⟨s', made, after, kept, by rw [same, shown w, there]⟩
  · rw [if_neg whole]
    obtain ⟨sized, inside⟩ := allowed
    exact inv.made free (subStr_made live fit (inv.sound.ne_next points) whole sized
      (inside b (mem_buffer points live)))

private theorem assign_right {po : ℕ} (inv : Invariant s) (shown : Shown s vals)
    (points : s.pb v = some pb)
    (source : s.pb w = some po) (there : vals w = some bytes) :
    Right s v (s.become v (assign s.heap pb po)) (some bytes) := by
  obtain ⟨s', assigned, after, kept, same⟩ := inv.assigned points source
  exact ⟨s', assigned, after, kept, by rw [same, shown w, there]⟩

private theorem upper_right (inv : Invariant s) (shown : Shown s vals) (points : s.pb v = some pb)
    (live : s.heap.object pb = some b) (there : vals v = some bytes) (shared : 2 ≤ b.zRef) :
    Right s v (s.become v (upper s.heap pb)) (some (bytes.map upperCase)) := by
  obtain ⟨s', upped, after, kept, same⟩ := inv.uppered points live shared
  refine ⟨s', upped, after, kept, ?_⟩
  rw [same, shown v, there]
  simp [Function.comp_def]

private theorem destroy_right (inv : Invariant s) (points : s.pb v = some pb)
    (live : s.heap.object pb = some b) :
    Right s v ((destroy s.heap pb).map fun heap => ⟨heap, Function.update s.pb v none⟩) none := by
  obtain ⟨after, kept⟩ := inv.drop points live
  rw [destroy, release_eq live (inv.sound.pos live)]
  exact ⟨_, rfl, after, kept, by simp [State.value]⟩

private theorem alive_related {run : ℕ → Option (Except Fault (State Var))}
    {value : List UInt8 → Option (Option (List UInt8))} (inv : Invariant s) (shown : Shown s vals)
    (each : ∀ pb b bytes, s.pb w = some pb → s.heap.object pb = some b → vals w = some bytes →
      b.value = bytes.map some →
        Option.Rel Related (run pb) ((value bytes).map (Function.update vals v))) :
    Option.Rel Related ((s.pb w).bind run)
      (((vals w).bind value).map (Function.update vals v)) := by
  cases there : vals w with
  | none =>
    rw [(shown.none_iff inv).mp there]
    exact .none
  | some bytes =>
    obtain ⟨pb, b, points, live, same⟩ := shown.some_iff inv there
    rw [points]
    exact each pb b bytes points live there same

private theorem apply_related (op : Op Var) (inv : Invariant s) (shown : Shown s vals)
    (works : ∀ result, op.run s = some result → Allowed (.ok s) op) :
    Option.Rel Related (op.run s) (op.apply vals) := by
  cases op with
  | empty v => exact made_related inv shown fun _ => empty_made
  | ofText v text =>
    exact made_related inv shown fun free => ofText_made (works _ (construct_eq free))
  | ofBytes v bytes =>
    exact made_related inv shown fun free => ofBytes_made (works _ (construct_eq free))
  | fill v c l =>
    refine made_related inv shown fun free => ?_
    rw [List.map_replicate]
    exact fill_made c (works _ (construct_eq free))
  | fromInt v num rdx =>
    exact made_related inv shown fun free => fromInt_made (works _ (construct_eq free))
  | ofString v other =>
    refine alive_related inv shown fun pb b bytes points live there _ => ?_
    exact construct_related inv shown fun free => ofString_right inv shown free points live there
  | subStr v other start count =>
    refine alive_related inv shown fun pb b bytes points live there same => ?_
    refine construct_related inv shown fun free => ?_
    have ran : (Op.subStr v other start count).run s =
        some (s.become v (String.subStr s.heap pb start count)) := by
      simp only [Op.run, points, Option.bind_some, construct_eq free]
    exact subStr_right inv shown free points live there same (works _ ran)
  | assign v other =>
    refine alive_related inv shown fun pb b _ points _ _ _ => ?_
    simp only [Option.map_eq_bind (x := s.pb other), Option.map_eq_bind (x := vals other)]
    refine alive_related inv shown fun po _ bytes source _ there _ => ?_
    exact .some (related_of_right shown (assign_right inv shown points source there))
  | upper v =>
    have ran {pb} (points : s.pb v = some pb) :
        (Op.upper v).run s = some (s.become v (String.upper s.heap pb)) := by
      simp only [Op.run, points, Option.map_some]
    rw [Op.run, Op.apply, Op.value, Option.map_eq_bind, Option.map_eq_bind (x := vals v)]
    refine alive_related inv shown fun pb b _ points live there _ => ?_
    have shared := works _ (ran points) b (mem_buffer points live)
    exact .some (related_of_right shown (upper_right inv shown points live there shared))
  | destroy v =>
    rw [Op.run, Op.apply, Op.value, Option.map_eq_bind, Option.map_eq_bind (x := vals v)]
    refine alive_related inv shown fun pb b _ points live _ _ => ?_
    exact .some (related_of_right shown (destroy_right inv points live))

omit [DecidableEq Var] in
private theorem shows_of_related {current : Except Fault (State Var)}
    (related : Related current vals) :
    Shows current vals := by
  obtain ⟨s, rfl, inv, shown⟩ := related
  refine ⟨s, rfl, shown, fun a allocated => ?_⟩
  have once := inv.sound.once a
  cases live : s.heap.object a with
  | some b =>
    rw [if_neg (by simp [live])] at once
    exact .inl ⟨inv.sound.held a b live, once⟩
  | none =>
    rw [if_pos ⟨allocated, live⟩] at once
    refine .inr ⟨fun v points => ?_, once⟩
    obtain ⟨b, there⟩ := inv.sound.alive v a points
    cases live.symm.trans there

/-- A program on `String`s does to its variables what the same program does to plain
bytes, step for step, and deletes every buffer when its last variable has let go. -/
theorem strings_are_values (ops : List (Op Var)) (works : Meets step Allowed (.ok start) ops) :
    Option.Rel Shows (exec step (.ok start) ops) (exec Op.apply (fun _ => none) ops) := by
  have alike : Option.Rel Related (exec step (.ok start) ops) (exec Op.apply (fun _ => none) ops) := by
    refine exec_related Related (fun current vals op related works => ?_)
      ⟨start, rfl, start_invariant, fun _ => rfl⟩ works
    obtain ⟨s, rfl, inv, shown⟩ := related
    exact apply_related op inv shown works
  cases ran : exec step (.ok start) ops <;> cases answer : exec Op.apply (fun _ => none) ops <;>
    rw [ran, answer] at alike <;> cases alike
  case none.none => exact .none
  case some.some.some related => exact .some (shows_of_related related)

def greetingRun : List (Op (Fin 3)) :=
  [.ofText 0 [104, 105], .ofString 1 0, .upper 1, .fromInt 2 (-255) 16, .assign 0 2, .destroy 2]

theorem strings_are_values_greetingRun : ∃ current,
    exec step (.ok start) greetingRun = some current ∧
      Shows current fun v => if v = 0 then some [45, 70, 70] else if v = 1 then some [72, 73] else none := by
  have alike := strings_are_values greetingRun (by decide)
  have answer : exec Op.apply (fun _ => none) greetingRun = some fun v =>
      if v = 0 then some [45, 70, 70] else if v = 1 then some [72, 73] else none := by
    decide
  rw [answer] at alike
  cases ran : exec step (.ok start) greetingRun <;> rw [ran] at alike <;> cases alike
  case some.some current shows => exact ⟨current, rfl, shows⟩

end Prot.Struct.String
