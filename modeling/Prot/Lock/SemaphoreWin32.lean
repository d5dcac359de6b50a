import Prot.Lock.Semaphore

/-! `semaphore.cc`, the Windows branch: any number of threads inside `Wait`,
`Post`, `SetMax` and `Current` of one semaphore. The count is kept twice, in
the kernel object and in `current`; a step is one call on the kernel object,
one interlocked operation, or one read or write of `current` or `maximum`. -/

namespace Prot.Lock.SemaphoreWin32

open Concurrency Time
open Semaphore (Call maximumCount)

/-- `SEMAPHORE_DATA`; `kernel` is the count of the object behind `h_sem`. -/
structure Data where
  kernel : ℤ
  current : Int32
  maximum : Int32
  deriving DecidableEq, Repr

inductive Pc where
  | idle
  | waitTake (t : TimeUnit)
  | waitDecrement
  | waitReturn (rv : Bool)
  | postReadCurrent (n : Int32)
  | postReadMaximum (n c : Int32)
  | postAdd (n : Int32)
  | postTest (n tmp : Int32)
  | postRelease (n : Int32)
  | postUndo (n : Int32)
  | postReturn (rv : Bool)
  | setMaxWrite (i_max : Int32)
  | setMaxReturn (rv : Bool)
  | currentRead
  | currentReturn (c : Int32)
  deriving DecidableEq, Repr

structure State (Thread : Type) where
  data : Data
  pc : Thread → Pc

/-- One choice of the environment: a thread calls an operation, executes its
next step, or is told by `WaitForSingleObject` that its time has run out. -/
inductive Action (Thread : Type) where
  | call (thread : Thread) (call : Call)
  | run (thread : Thread)
  | expire (thread : Thread)
  deriving DecidableEq, Repr

def Action.thread {Thread : Type} : Action Thread → Thread
  | .call thread _ | .run thread | .expire thread => thread

/-- `INFINITE`, the only timeout that never runs out. -/
def infinite : UInt32 := 0xffffffff

/-- The argument of `WaitForSingleObject`, a `DWORD`. -/
def timeout (t : TimeUnit) : UInt32 := t.inMilliseconds.toUInt64.toUInt32

/-- The constructor; `none` where it leaves the semaphore invalid, also for
want of a kernel object. -/
def construct {Thread : Type} (created : Bool) (i_set i_max : Int32) : Option (State Thread) :=
  if i_set ≤ i_max ∧ 0 ≤ i_set ∧ 0 < i_max ∧ i_max ≤ maximumCount then
    if created then some ⟨⟨i_set.toInt, i_set, i_max⟩, fun _ => .idle⟩ else none
  else none

def entry : Call → Pc
  | .wait t => .waitTake t
  | .post n => .postReadCurrent n
  | .setMax i => .setMaxWrite i
  | .current => .currentRead

def Pc.next (d : Data) : Pc → Option (Data × Pc)
  | .idle => none
  | .waitTake _ =>
    if 0 < d.kernel then some ({ d with kernel := d.kernel - 1 }, .waitDecrement) else none
  | .waitDecrement => some ({ d with current := d.current - 1 }, .waitReturn true)
  | .waitReturn _ => some (d, .idle)
  | .postReadCurrent n =>
    some (d, if n ≤ 0 then .postReturn false else .postReadMaximum n d.current)
  | .postReadMaximum n c =>
    some (d, if d.maximum < c + n then .postReturn false else .postAdd n)
  | .postAdd n => some ({ d with current := d.current + n }, .postTest n (d.current + n))
  | .postTest n tmp => some (d, if tmp ≤ d.maximum then .postRelease n else .postUndo n)
  | .postRelease n =>
    if 0 < n ∧ d.kernel + n.toInt ≤ maximumCount.toInt then
      some ({ d with kernel := d.kernel + n.toInt }, .postReturn true)
    else some (d, .postUndo n)
  | .postUndo n => some ({ d with current := d.current - n }, .postReturn false)
  | .postReturn _ => some (d, .idle)
  | .setMaxWrite i =>
    if 0 < i ∧ i ≤ maximumCount then some ({ d with maximum := i }, .setMaxReturn true)
    else some (d, .setMaxReturn false)
  | .setMaxReturn _ => some (d, .idle)
  | .currentRead => some (d, .currentReturn d.current)
  | .currentReturn _ => some (d, .idle)

variable {Thread : Type} [DecidableEq Thread]

def State.put (s : State Thread) (thread : Thread) (d : Data) (p : Pc) : State Thread :=
  ⟨d, Function.update s.pc thread p⟩

@[simp] theorem State.put_data (s : State Thread) (thread : Thread) (d : Data) (p : Pc) :
    (s.put thread d p).data = d := rfl

@[simp] theorem State.put_pc (s : State Thread) (thread : Thread) (d : Data) (p : Pc) :
    (s.put thread d p).pc = Function.update s.pc thread p := rfl

def step (s : State Thread) : Action Thread → Option (State Thread)
  | .call thread call =>
    if s.pc thread = .idle then some (s.put thread s.data (entry call)) else none
  | .run thread => ((s.pc thread).next s.data).map fun (d, p) => s.put thread d p
  | .expire thread => match s.pc thread with
    | .waitTake t =>
      if s.data.kernel = 0 ∧ timeout t ≠ infinite then
        some (s.put thread s.data (.waitReturn false))
      else none
    | _ => none

end Prot.Lock.SemaphoreWin32
