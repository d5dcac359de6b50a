import Prot.Concurrency.Machine
import Prot.Concurrency.Mutex
import Prot.Concurrency.Atomic
import Prot.Concurrency.Threads
import Prot.Concurrency.Waiting
import Prot.Concurrency.Settling
import Prot.Concurrency.Refinement
import Prot.Time.TimeUnit
import Prot.Time.Deadline
import Prot.Lock.ConditionVariable
import Prot.Lock.ConditionVariableInvariant
import Prot.Lock.ConditionVariableTokens
import Prot.Lock.ConditionVariableRendezvous
import Prot.Lock.ConditionVariableWakeAll
import Prot.Lock.ConditionVariableWakeOne
import Prot.Lock.ConditionVariableBalance
import Prot.Lock.Monitor
import Prot.Lock.MonitorProgress
import Prot.Lock.Semaphore
import Prot.Lock.SemaphoreInvariant
import Prot.Lock.SemaphoreCount
import Prot.Lock.SemaphoreAtomic
import Prot.Lock.SemaphoreWaiters
import Prot.Lock.SemaphoreProgress
import Prot.Lock.SemaphoreWin32
import Prot.Lock.SemaphoreWin32Atomic
import Prot.Lock.Event
import Prot.Lock.EventInvariant
import Prot.Lock.EventAtomic
import Prot.Lock.EventWaiters
import Prot.Lock.EventProgress
import Prot.Lock.ILock
import Prot.Lock.SpinLock
import Prot.Lock.EventLock
import Prot.Lock.SemaphoreLock
import Prot.Lock.Permits
import Prot.Lock.SinglenterLock
import Prot.Lock.CriticalSection
import Prot.Lock.RecursiveLock
import Prot.Lock.SemaphorePaths
import Prot.System.Thread
import Prot.System.ThreadWait
import Prot.System.ThreadData
import Prot.System.TimedWait
import Prot.System.ThreadFailure
import Prot.System.ThreadIdentity
import Prot.System.ThreadWin32
import Prot.System.ThreadWin32Life
import Prot.System.WindowsTimeout
import Prot.System.Sleep
import Prot.System.Console
import Prot.Text.Rendition
import Prot.System.ConsoleColor
import Prot.System.ConsoleWin32
import Prot.System.PoolThread
import Prot.System.PoolThreadInvariant
import Prot.System.PoolThreadOwnership
import Prot.System.PoolThreadJobs
import Prot.System.PoolThreadIdle
import Prot.System.PoolThreadProgress
import Prot.System.PoolThreadFailure
import Prot.System.PoolThreadLayers
import Prot.System.PoolThreadCancel
import Prot.System.PoolThreadKill
import Prot.System.PoolThreadRestart
import Prot.System.PoolThreadRefinement
import Prot.System.PoolThreadOwnerRefines
import Prot.System.PoolThreadServed
import Prot.System.PoolThreadSimulation
import Prot.Memory.Heap
import Prot.Memory.Counted
import Prot.Struct.Buffer
import Prot.Struct.String
import Prot.Struct.StringMembers
import Prot.Struct.StringSharing
import Prot.Struct.StringSubStr
import Prot.Text.Numeral
import Prot.Struct.StringFromInt
import Prot.Struct.StringValues
import Prot.Memory.Blocks
import Prot.Base.Bitops
import Prot.Base.Allocate
import Prot.Struct.BufferStorage
import Prot.Struct.BufferResize
import Prot.Struct.BufferCopy
import Prot.Struct.BufferAssign
import Prot.Struct.BufferPlain
import Prot.Memory.Chain
import Prot.Memory.Linked
import Prot.Test.Registry
import Prot.Test.RegistryInvariant
import Prot.Test.RegistryLists
import Prot.Test.StartLoop
import Prot.Test.Runner
import Prot.Test.RunnerStep
import Prot.Test.RunnerInvariant
import Prot.Test.RunnerPhases
import Prot.Test.RunnerProgress
import Prot.Test.RunnerReport
import Prot.Test.RunnerOrder
import Prot.Test.RunnerBreakout
import Prot.Test.RunnerSummary
import Prot.Test.SingleThread
import Prot.Test.SingleThreadIgnore
import Prot.Test.RunTest
import Prot.Base.Alignment
import Prot.Time.Calendar
import Prot.Time.TimeStamp
import Prot.System.ThreadRoll
import Prot.Memory.CharArray
import Prot.Program.Loop
import Prot.Text.Hexadecimal
import Prot.Test.Failmem
import Prot.Test.FailmemDump
import Prot.Test.FailmemFaithful
import Prot.Test.Main
