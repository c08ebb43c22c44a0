import X86OS.Lib.Dll
import X86OS.Lib.Word
import X86OS.Lib.Memory
import X86OS.Lib.Machine
import X86OS.Lib.Tiling
import X86OS.Lib.Coalescing
import X86OS.Lib.Orbit
import X86OS.Lib.Numeral
import X86OS.Klib.String
import X86OS.Klib.RepString
import X86OS.Klib.Kprintf
import X86OS.Klib.Format
import X86OS.Klib.Printing
import X86OS.Drivers.Ports
import X86OS.Drivers.Pic
import X86OS.Drivers.Vga
import X86OS.Drivers.Screen
import X86OS.Drivers.Console
import X86OS.Mm.Node
import X86OS.Mm.NodeMemory
import X86OS.Mm.Layout
import X86OS.Mm.Bump
import X86OS.Mm.Buddy
import X86OS.Mm.BuddyLists
import X86OS.Mm.BuddySteps
import X86OS.Mm.BuddyLoops
import X86OS.Mm.BuddyInvariant
import X86OS.Mm.BuddyInit
import X86OS.Mm.BuddyRuns
import X86OS.Mm.BuddyProperties
import X86OS.Mm.BuddyBounds
import X86OS.Mm.BuddyAvailability
import X86OS.Mm.BuddyUndo
import X86OS.Mm.BuddyPlacing
import X86OS.Mm.PageAllocator
import X86OS.Mm.PageLog
import X86OS.Mm.Pmm
import X86OS.Mm.Heap
import X86OS.Mm.HeapLayout
import X86OS.Mm.HeapCounters
import X86OS.Mm.HeapLists
import X86OS.Mm.HeapSteps
import X86OS.Mm.HeapEdits
import X86OS.Mm.HeapPages
import X86OS.Mm.HeapGrow
import X86OS.Mm.HeapAlloc
import X86OS.Mm.HeapKmalloc
import X86OS.Mm.HeapKfree
import X86OS.Mm.HeapRuns
import X86OS.Mm.HeapProperties
import X86OS.Mm.HeapService
import X86OS.Mm.HeapReturn
import X86OS.Mm.HeapFree
import X86OS.Mm.ChunkList
import X86OS.Mm.HeapLedger
import X86OS.Mm.HeapUndo
import X86OS.Mm.Paging
import X86OS.Mm.PageTables
import X86OS.Mm.MapSteps
import X86OS.Mm.MapLoop
import X86OS.Mm.MapEffect
import X86OS.Mm.MapRange
import X86OS.Mm.BootMap
import X86OS.Mm.PagingInit
import X86OS.Mm.BootBounds
import X86OS.Sched.Queue
import X86OS.Sched.Sched
import X86OS.Sched.Model
import X86OS.Sched.Runs
import X86OS.Sched.Events
import X86OS.Sched.Frame
import X86OS.Sched.Properties
import X86OS.Sched.Dispatch
import X86OS.Sched.Sleeping
import X86OS.Sched.Spaces
import X86OS.Sched.Reaping
import X86OS.Lib.Micro
import X86OS.Sched.Zombies
import X86OS.Kernel.Kmain
import X86OS.Kernel.TagWalk
import X86OS.Process.Elf
import X86OS.Process.Process
import X86OS.Process.Loading
import X86OS.Process.Segments
import X86OS.Process.Building
import X86OS.Process.Requests
import X86OS.Process.Isolation
import X86OS.Process.Image
import X86OS.Process.Blank
import X86OS.Process.Coverage
import X86OS.Process.Permissions
import X86OS.Process.ContextSwitch
import X86OS.Process.KernelRuns
import X86OS.Process.Discipline
import X86OS.Process.Lifetime
import X86OS.Process.Rejected
import X86OS.Lib.Descriptors
import X86OS.Lib.Protected
import X86OS.Interrupts.Tables
import X86OS.Interrupts.Stub
import X86OS.Interrupts.Return
import X86OS.Interrupts.Privilege
import X86OS.Interrupts.Transparent
import X86OS.Interrupts.Syscall
import X86OS.Interrupts.Threads
import X86OS.Interrupts.Preemption
import X86OS.Interrupts.Switching
import X86OS.Interrupts.UserRuns
import X86OS.Process.Walls
import X86OS.Process.Separation
import X86OS.Process.IsolatedRuns
import X86OS.Lib.Sections
import X86OS.Sched.Atomic
import X86OS.Sched.Landing
import X86OS.Sched.Stretches
import X86OS.Sched.Interleaving
