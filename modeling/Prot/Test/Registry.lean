import Mathlib.Algebra.Group.Nat.Defs
import Mathlib.Data.List.Basic
import Prot.Memory.Linked

/-! `UnitTest::AddTestCase` of `unittest.cpp`: the registry that the static
initialisers of the test files fill. -/

namespace Prot.Test.Registry

open Memory

/-- `PTU_TEST_CASE` without its `Next`. -/
structure TestCase (Func Name : Type) where
  className : Name
  moduleName : Name
  testName : Name
  testFunc : Func
  succeedCount : Int32
  failureCount : Int32
  totalCount : Int32
  testResult : Int32
  deriving DecidableEq

/-- The arguments of one `AddTestCase`; names are compared by `strcmp`. -/
structure Registration (Func Name : Type) where
  testFunc : Func
  className : Name
  moduleName : Name
  testName : Name
  flags : Int32
  deriving DecidableEq

def testMeonly : Int32 := 0x80
def utestInit : Int32 := 0x100
def utestDone : Int32 := 0x200

/-- `_tr_`, `_nc_`, `_ifl_`, `_dfl_`, `_Inited_` and the static
`test_meonly_enabled`. -/
structure State (Func Name : Type) where
  heap : Heap (Node (TestCase Func Name))
  headCase : Option ℕ
  lastCase : Option ℕ
  testCount : Int32
  nc : UInt32
  ifl : Option ℕ
  dfl : Option ℕ
  inited : Bool
  testMeonlyEnabled : Bool

variable {Func Name : Type}

def start : State Func Name where
  heap := Heap.empty
  headCase := none
  lastCase := none
  testCount := 0
  nc := 0
  ifl := none
  dfl := none
  inited := false
  testMeonlyEnabled := false

def initTest (r : State Func Name) : State Func Name :=
  if r.inited then r
  else { r with inited := true, headCase := none, lastCase := none, testCount := 0 }

/-- The fields that are written into the zeroed memory of a new case. -/
def Registration.case (a : Registration Func Name) : TestCase Func Name where
  className := a.className
  moduleName := a.moduleName
  testName := a.testName
  testFunc := a.testFunc
  succeedCount := 0
  failureCount := 0
  totalCount := 0
  testResult := a.flags <<< 16

/-- `TESTMEONLY` comes for the first time: the cases before it are freed. -/
def enableMeonly (r : State Func Name) : Option (State Func Name) :=
  (r.heap.freeFrom r.heap.next r.headCase).map fun heap =>
    { r with
      heap := heap
      headCase := none
      lastCase := none
      nc := 0
      testMeonlyEnabled := true }

def setNext (heap : Heap (Node (TestCase Func Name))) (last p : ℕ) :
    Option (Heap (Node (TestCase Func Name))) :=
  (heap.object last).map fun node => heap.set last { node with next := some p }

/-- The case goes to the end of the list of `_tr_`. -/
def append (r : State Func Name) (a : Registration Func Name) : Option (State Func Name) :=
  let p := r.heap.next
  let heap := r.heap.new ⟨none, a.case⟩
  let added := { r with lastCase := some p, testCount := r.testCount + 1, nc := r.nc + 1 }
  match r.lastCase with
  | none => some { added with heap := heap, headCase := some p }
  | some last => (setNext heap last p).map fun heap => { added with heap := heap }

variable [DecidableEq Name]

/-- The two `strcmp` of the walk. -/
def Registration.names (a : Registration Func Name) (pfl : TestCase Func Name) : Bool :=
  pfl.moduleName = a.moduleName && pfl.testName = a.testName

/-- The case goes to the end of the list at `pfl`, unless one of its names is there;
in that case its memory is not given back. -/
def enlist (heap : Heap (Node (TestCase Func Name))) (pfl : Option ℕ) (a : Registration Func Name) :
    Option (Heap (Node (TestCase Func Name)) × Option ℕ) :=
  let p := heap.next
  let heap := heap.new ⟨none, a.case⟩
  match pfl with
  | none => some (heap, some p)
  | some first =>
    match heap.seek a.names heap.next first with
    | none => none
    | some (.found _) => some (heap, pfl)
    | some (.last last) => (setNext heap last p).map fun heap => (heap, pfl)

/-- The case goes to `_ifl_` or `_dfl_`. -/
def addFixture (r : State Func Name) (a : Registration Func Name) : Option (State Func Name) :=
  if a.flags &&& utestInit ≠ 0 then
    (enlist r.heap r.ifl a).map fun (heap, ifl) => { r with heap := heap, ifl := ifl }
  else
    (enlist r.heap r.dfl a).map fun (heap, dfl) => { r with heap := heap, dfl := dfl }

/-- `AddTestCase`, with what it returns. -/
def addTestCase (r : State Func Name) (a : Registration Func Name) :
    Option (State Func Name × Option Name) :=
  let r := initTest r
  if a.flags &&& (utestInit ||| utestDone) ≠ 0 then
    (addFixture r a).map fun r => (r, some a.className)
  else if r.testMeonlyEnabled ∧ a.flags &&& testMeonly = 0 then some (r, none)
  else do
    let r ← if !r.testMeonlyEnabled ∧ a.flags &&& testMeonly ≠ 0 then enableMeonly r else some r
    let r ← append r a
    return (r, some a.className)

def addTestCases (calls : List (Registration Func Name)) : Option (State Func Name) :=
  calls.foldlM (fun r a => (addTestCase r a).map Prod.fst) start

/-! What the registry is for. -/

namespace Registration

/-- The case is to be tested. -/
def ordinary (a : Registration Func Name) : Bool :=
  a.flags &&& utestInit = 0 && a.flags &&& utestDone = 0

def meonly (a : Registration Func Name) : Bool := a.flags &&& testMeonly ≠ 0

def isInit (a : Registration Func Name) : Bool := a.flags &&& utestInit ≠ 0

def isDone (a : Registration Func Name) : Bool :=
  a.flags &&& utestInit = 0 && a.flags &&& utestDone ≠ 0

def sameNames (a b : Registration Func Name) : Bool :=
  b.moduleName = a.moduleName && b.testName = a.testName

end Registration

open Registration

/-- The cases to be tested: those with `TESTMEONLY`, if there are any. -/
def selected (calls : List (Registration Func Name)) : List (Registration Func Name) :=
  let cases := calls.filter ordinary
  if cases.any meonly then cases.filter meonly else cases

/-- The calls of a kind, the first for each pair of names. -/
def fixtures (kind : Registration Func Name → Bool) (calls : List (Registration Func Name)) :
    List (Registration Func Name) :=
  (calls.filter kind).eraseDupsBy sameNames

/-- How many cases were dropped when `TESTMEONLY` came for the first time. -/
def dropped (calls : List (Registration Func Name)) : ℕ :=
  let cases := calls.filter ordinary
  if cases.any meonly then cases.findIdx meonly else 0

end Prot.Test.Registry
