import PepinOS.Mm.Pmm
import PepinOS.Mm.Paging
import PepinOS.Process.Scheduler
import PepinOS.Fs.Elf
import PepinOS.Fs.LoadInv
import PepinOS.Fs.LoadSteps
import PepinOS.Fs.LoadImage
import PepinOS.Fs.LoadRun
import PepinOS.Fs.LoadFrame
import PepinOS.Process.Isolation
import PepinOS.Drivers.Ide
import PepinOS.Drivers.Keyboard
import PepinOS.Lib.Run
import PepinOS.Lib.Sequence
import PepinOS.Fs.Ext2
import PepinOS.Fs.Vfs
import PepinOS.Arch.Cpu
import PepinOS.Process.Kernel
import PepinOS.Process.Switch
import PepinOS.Process.Syscall
import PepinOS.Process.Machine
import PepinOS.Process.Boot
import PepinOS.Process.ContextSwitch
import PepinOS.Process.Privilege
import PepinOS.Process.UserMemory
import PepinOS.Process.Signals
import PepinOS.Process.Launched
import PepinOS.Process.Sigreturn
import PepinOS.Mm.Reserved
import PepinOS.Process.RoundRobin
import PepinOS.Process.Exit
import PepinOS.Mm.Vmm
import PepinOS.Lib.Cached
import PepinOS.Mm.Tlb
import PepinOS.Fs.Exhaustion
import PepinOS.Fs.Mount
import PepinOS.Lib.Queue
import PepinOS.User.Readline
import PepinOS.Process.OpenSpaces
import PepinOS.Process.UserPointers
import PepinOS.Fs.LoadClone
import PepinOS.Process.KernelView
import PepinOS.Lib.Holders
import PepinOS.Process.Descriptors
import PepinOS.Fs.Content
import PepinOS.Process.Streams
import PepinOS.Fs.Positioned
import PepinOS.Fs.Layout
import PepinOS.Fs.Sectors
import PepinOS.Fs.Directory
import PepinOS.Lib.Trace
import PepinOS.Fs.Lookup
import PepinOS.Fs.WalkReads
import PepinOS.Fs.BufferUse
import PepinOS.Process.SignalChoice
import PepinOS.Fs.ElfReads
import PepinOS.Fs.Validation
import PepinOS.User.Session
import PepinOS.User.Cat
import PepinOS.Fs.Overlay
import PepinOS.Fs.SharedPage
import PepinOS.Drivers.Terminal
import PepinOS.Fs.KernelMap
import PepinOS.Process.CallRegs
import PepinOS.Arch.Idt
import PepinOS.Arch.Stubs
import PepinOS.Drivers.Tabs
import PepinOS.User.Execute
import PepinOS.User.Raise
import PepinOS.Process.Registration
import PepinOS.User.Colors
import PepinOS.Lib.Poll
import PepinOS.Fs.Polling
import PepinOS.Drivers.IdeProtocol
import PepinOS.Process.NextTurn
import PepinOS.Process.OpenFiles
import PepinOS.User.Command
import PepinOS.Arch.Gdt
import PepinOS.Kernel.Kmain
import PepinOS.Fs.Partition
import PepinOS.Process.Partitioned
import PepinOS.Kernel.Partitioned
import PepinOS.Arch.Report
