import PagedOs.Library.Transition
import PagedOs.Library.Ledger
import PagedOs.Library.LinkedHeap
import PagedOs.Library.Recency
import PagedOs.Library.Spans
import PagedOs.Library.Scanning
import PagedOs.Library.Traced
import PagedOs.Library.StableSort
import PagedOs.Library.Monitor
import PagedOs.Library.Deferred
import PagedOs.Memory.Swapping
import PagedOs.Memory.AddressSpace
import PagedOs.Memory.Faithful
import PagedOs.Memory.Layout
import PagedOs.Memory.Break
import PagedOs.Memory.Backing
import PagedOs.Memory.Access
import PagedOs.Memory.Residency
import PagedOs.Memory.Conservation
import PagedOs.Memory.Allocator
import PagedOs.Memory.FirstFit
import PagedOs.Memory.Coalesce
import PagedOs.Memory.Unwritten
import PagedOs.Memory.PageList
import PagedOs.Memory.PageTable
import PagedOs.Memory.Release
import PagedOs.Memory.Devices
import PagedOs.Memory.Format
import PagedOs.Memory.Preempted
import PagedOs.Memory.Atomicity
import PagedOs.Scheduler.Policy
import PagedOs.Process.Routine
import PagedOs.Process.Operands
import PagedOs.Process.Tlb
import PagedOs.Process.Registers
import PagedOs.Process.Stopping
import PagedOs.Timer.Barrier
import PagedOs.Loader.Files
import PagedOs.Loader.Arrivals
import PagedOs.Timer.Threads
import PagedOs.Timer.Monitors
import PagedOs.Timer.Lockstep
import PagedOs.Timer.Wakeup
import PagedOs.Process.Variables
import PagedOs.Process.Demand
import PagedOs.System.Kernel
import PagedOs.System.Slots
import PagedOs.System.Idle
import PagedOs.System.Completion
import PagedOs.System.Deadline
import PagedOs.System.Programs
import PagedOs.System.Checked
import PagedOs.Loader.Config
import PagedOs.System.Boot
import PagedOs.Library.Calling
import PagedOs.Memory.Calls
import PagedOs.Process.Progress
import PagedOs.Process.Isolation
import PagedOs.System.Overlaps
