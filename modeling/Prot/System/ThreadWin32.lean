import Prot.Concurrency.Machine
import Prot.Time.TimeUnit

/-! `thread_win32.cpp`: the owner of one `Thread` object and the threads that are
created through it. A step is one read or write of a field of `THREAD_DATA`, or
one call of the system. -/

namespace Prot.System.ThreadWin32

open Concurrency Time

/-- `THREAD_DATA`. `func` says whether the function pointer is not null, `starting`
is the bit `TDFLAG_STARTING` of `flag`. Of the handles in `thread`, 0 is none and
`k + 1` the one of the `k`-th created thread. -/
structure Data (Arg : Type) where
  func : Bool
  tid : UInt32
  thread : ℕ
  args : Arg
  starting : Bool
  deriving DecidableEq, Repr

/-- What is done with a `Thread`; `destroy` is the destructor. -/
inductive Call (Arg : Type) where
  | run (args : Arg)
  | wait (t : TimeUnit)
  | kill
  | status
  | getId
  | destroy
  deriving DecidableEq, Repr

/-- What `WaitForSingleObject` returns. -/
inductive Status where
  | object0
  | timeout
  | failed
  deriving DecidableEq, Repr

/-- Where the owner stands, named after the step it executes next. -/
inductive Pc (Arg : Type) where
  | idle
  | runTestFunc (args : Arg)
  | runTestTid (args : Arg)
  | runState (args : Arg)
  | runClearTid (args : Arg)
  | runClose (args : Arg)
  | runClearThread (args : Arg)
  | runClearFlag (args : Arg)
  | runWriteArgs (args : Arg)
  | runCreate (args : Arg)
  | runWriteThread (thread : ℕ) (nTid : UInt32)
  | runTestThread (nTid : UInt32)
  | runWriteTid (nTid : UInt32)
  | runReadTid
  | runReturn (tid : UInt32)
  | waitTest (t : TimeUnit)
  | waitSingle (t : TimeUnit)
  | waitState
  | waitReturn (rv : Bool)
  | killTest
  | killTerminate
  | killClearTid
  | killClose
  | killClearThread
  | killClearFlag
  | killReturn (rv : Bool)
  | statusTest
  | statusState
  | statusReturn (running : Bool)
  | getIdRead
  | getIdReturn (tid : UInt32)
  | destroyTest
  | destroySpin
  | destroyClose
  | destroyFree
  | gone
  deriving DecidableEq, Repr

/-- Where a created thread stands in `_Prot_WrapThreadProc_Win32_`. -/
inductive Place (Arg : Type) where
  | unborn
  | readFunc
  | readArgs
  | readFlag (args : Arg)
  | writeFlag (args : Arg)
  | running (args : Arg)
  | ended
  deriving DecidableEq, Repr

/-- Everything but the owner. `created` counts the threads created through the object,
`closed` says how often the handle of each was closed and `freed` how often the
memory was freed. The program does not know `asked`, the argument of the `Run` that
created a thread. -/
structure World (Arg : Type) where
  data : Data Arg
  created : ℕ
  place : ℕ → Place Arg
  closed : ℕ → ℕ
  freed : ℕ
  asked : ℕ → Option Arg

structure State (Arg : Type) extends World Arg where
  pc : Pc Arg

/-- One choice of the environment: the owner calls an operation or executes its next
step, a call of the system returns, or a created thread executes its next step. -/
inductive Action (Arg : Type) where
  | call (call : Call Arg)
  | run
  | created (nTid : UInt32)
  | createFails (nTid : UInt32)
  | waited (status : Status)
  | terminated (rv : Bool)
  | thread (k : ℕ)
  deriving DecidableEq, Repr

variable {Arg : Type}

def construct (func : Bool) (args : Arg) : State Arg where
  data := ⟨func, 0, 0, args, false⟩
  pc := .idle
  created := 0
  place := fun _ => .unborn
  closed := fun _ => 0
  freed := 0
  asked := fun _ => none

def Call.entry : Call Arg → Pc Arg
  | .run args => .runTestFunc args
  | .wait t => .waitTest t
  | .kill => .killTest
  | .status => .statusTest
  | .getId => .getIdRead
  | .destroy => .destroyTest

def Place.live : Place Arg → Bool
  | .unborn | .ended => false
  | _ => true

/-- `_GetThreadState`: a handle that has been closed has no exit code. -/
def World.active (s : World Arg) (thread : ℕ) : Bool :=
  match thread with
  | 0 => false
  | k + 1 => s.closed k == 0 && (s.place k).live

def State.goto (s : State Arg) (pc : Pc Arg) : State Arg := { s with pc := pc }

def State.write (s : State Arg) (data : Data Arg) (pc : Pc Arg) : State Arg :=
  { s with data := data, pc := pc }

def State.close (s : State Arg) (pc : Pc Arg) : State Arg :=
  { s with
    closed := fun k => if s.data.thread = k + 1 then s.closed k + 1 else s.closed k
    pc := pc }

/-- The step that the owner executes next, a call of the system that may end in
several ways apart. -/
def State.next (s : State Arg) : Option (State Arg) :=
  match s.pc with
  | .idle | .gone | .runCreate _ | .waitSingle _ | .killTerminate => none
  | .runTestFunc a => some (s.goto (if s.data.func then .runTestTid a else .runReturn 0))
  | .runTestTid a => some (s.goto (if s.data.tid ≠ 0 then .runState a else .runWriteArgs a))
  | .runState a =>
    some (s.goto (if s.active s.data.thread then .runReturn 0 else .runClearTid a))
  | .runClearTid a => some (s.write { s.data with tid := 0 } (.runClose a))
  | .runClose a => some (s.close (.runClearThread a))
  | .runClearThread a => some (s.write { s.data with thread := 0 } (.runClearFlag a))
  | .runClearFlag a => some (s.write { s.data with starting := false } (.runWriteArgs a))
  | .runWriteArgs a => some (s.write { s.data with args := a } (.runCreate a))
  | .runWriteThread thread nTid =>
    some (s.write { s.data with thread := thread } (.runTestThread nTid))
  | .runTestThread nTid =>
    some (s.goto (if s.data.thread ≠ 0 then .runWriteTid nTid else .runReadTid))
  | .runWriteTid nTid => some (s.write { s.data with tid := nTid } .runReadTid)
  | .runReadTid => some (s.goto (.runReturn s.data.tid))
  | .waitTest t => some (s.goto (if s.data.thread ≠ 0 then .waitSingle t else .waitReturn true))
  | .waitState => some (s.goto (.waitReturn !s.active s.data.thread))
  | .killTest => some (s.goto (if s.data.thread ≠ 0 then .killTerminate else .killReturn false))
  | .killClearTid => some (s.write { s.data with tid := 0 } .killClose)
  | .killClose => some (s.close .killClearThread)
  | .killClearThread => some (s.write { s.data with thread := 0 } .killClearFlag)
  | .killClearFlag => some (s.write { s.data with starting := false } (.killReturn true))
  | .statusTest =>
    some (s.goto (if s.data.thread ≠ 0 then .statusState else .statusReturn false))
  | .statusState => some (s.goto (.statusReturn (s.active s.data.thread)))
  | .getIdRead => some (s.goto (.getIdReturn s.data.tid))
  | .runReturn _ | .waitReturn _ | .killReturn _ | .statusReturn _ | .getIdReturn _ =>
    some (s.goto .idle)
  | .destroyTest => some (s.goto (if s.data.thread ≠ 0 then .destroySpin else .destroyFree))
  | .destroySpin => some (s.goto (if s.data.starting then .destroyClose else .destroySpin))
  | .destroyClose => some (s.close .destroyFree)
  | .destroyFree => some { s with freed := s.freed + 1, pc := .gone }

def State.move (s : State Arg) (k : ℕ) (data : Data Arg) (place : Place Arg) : State Arg :=
  { s with data := data, place := Function.update s.place k place }

/-- The step that a created thread executes next; `func` may return in any. -/
def State.threadNext (s : State Arg) (k : ℕ) : Option (State Arg) :=
  match s.place k with
  | .unborn | .ended => none
  | .readFunc => some (s.move k s.data .readArgs)
  | .readArgs => some (s.move k s.data (.readFlag s.data.args))
  | .readFlag a => some (s.move k s.data (.writeFlag a))
  | .writeFlag a => some (s.move k { s.data with starting := true } (.running a))
  | .running _ => some (s.move k s.data .ended)

/-- The owner returns from `WaitForSingleObject`: signaled when the thread has ended,
timed out when it has not, or failed at any time. An infinite `Wait` can time out, too:
its milliseconds are no `INFINITE` as a `DWORD`. -/
def State.waited (s : State Arg) : Status → Option (State Arg)
  | .object0 => if s.active s.data.thread then none else some (s.goto (.waitReturn true))
  | .timeout => if s.active s.data.thread then some (s.goto (.waitReturn false)) else none
  | .failed => some (s.goto .waitState)

/-- The owner returns from `TerminateThread`, which ends the thread or fails. -/
def State.terminated (s : State Arg) : Bool → State Arg
  | true => { s with
      place := fun k => if s.data.thread = k + 1 then .ended else s.place k
      pc := .killClearTid }
  | false => s.goto (.killReturn false)

/-- One step of the whole system. The id of a created thread is not 0. -/
def step (s : State Arg) : Action Arg → Option (State Arg)
  | .call call => match s.pc with
    | .idle => some (s.goto call.entry)
    | _ => none
  | .run => s.next
  | .created nTid => match s.pc with
    | .runCreate a => if nTid = 0 then none else some { s with
        created := s.created + 1
        place := Function.update s.place s.created .readFunc
        asked := Function.update s.asked s.created (some a)
        pc := .runWriteThread (s.created + 1) nTid }
    | _ => none
  | .createFails nTid => match s.pc with
    | .runCreate _ => some (s.goto (.runWriteThread 0 nTid))
    | _ => none
  | .waited status => match s.pc with
    | .waitSingle _ => s.waited status
    | _ => none
  | .terminated rv => match s.pc with
    | .killTerminate => some (s.terminated rv)
    | _ => none
  | .thread k => s.threadNext k

end Prot.System.ThreadWin32
