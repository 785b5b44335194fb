import ToyKernel.Stage1.Load
import ToyKernel.Stage2.Detect
import ToyKernel.Stage2.Handoff
import ToyKernel.Stage2.Staging
import ToyKernel.Disk.Addressing
import ToyKernel.Disk.Setup
import ToyKernel.Fat.Decoding
import ToyKernel.Fat.Descent
import ToyKernel.Fat.Failing
import ToyKernel.Fat.Handles
import ToyKernel.Fat.History
import ToyKernel.Fat.Initialize
import ToyKernel.Fat.Lookup
import ToyKernel.Fat.Names
import ToyKernel.Fat.Termination
import ToyKernel.Pmm.Bounds
import ToyKernel.Pmm.Clearing
import ToyKernel.Pmm.Covering
import ToyKernel.Pmm.Exhaustion
import ToyKernel.Pmm.MemoryInfo
import ToyKernel.Pmm.Placement
import ToyKernel.Vmm.Release
import ToyKernel.Vmm.Setup
import ToyKernel.Vmm.Unmap
import ToyKernel.Heap.Coalesce
import ToyKernel.Heap.Release
import ToyKernel.Heap.Usable
import ToyKernel.Malloc.Calloc
import ToyKernel.Malloc.Degenerate
import ToyKernel.Malloc.Exhaustion
import ToyKernel.Elf.Failure
import ToyKernel.Elf.Faithful
import ToyKernel.Elf.Inside
import ToyKernel.Scheduler.Fair
import ToyKernel.Scheduler.Resume
import ToyKernel.Scheduler.Sleep
import ToyKernel.Scheduler.Waiting
import ToyKernel.Interrupts.Usermode
import ToyKernel.Pic.Installed
import ToyKernel.Hal.Ticks
import ToyKernel.Syscall.Abi
import ToyKernel.Keyboard.Delivery
import ToyKernel.Keyboard.Frame
import ToyKernel.Rtc.Running
import ToyKernel.Screen.Tabs
import ToyKernel.Readline.Editing
import ToyKernel.Shell.Console
import ToyKernel.UserTask.Creation
import ToyKernel.Stdio.Agreement
import ToyKernel.Stdio.Composition
import ToyKernel.Stdio.Dump
import ToyKernel.Stdio.Numerals
