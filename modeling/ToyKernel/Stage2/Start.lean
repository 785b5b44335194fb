import ToyKernel.Stage2
import ToyKernel.Vmm

namespace ToyKernel.Stage2

open Library

-- `phys` of linker.ld
def IMAGE_START : Nat := 0x500

def KERNEL_BIN : List UInt8 := "/kernel.bin".toList.map Char.toUInt8
def USERLAND_ELF : List UInt8 := "/userland.elf".toList.map Char.toUInt8

section Memory

-- The length that memset is given is a `uint16_t`.
def setupMemoryBitmap (ram : Nat → BitVec 32) (p : Pmm) : Pmm :=
  { p with
    bitMap := pageStart (u32 (p.kernelEndAddr + 0xFFF))
    words := BitArray.zeroPrefix ram (8 * (p.bitmapSizeB % 65536)) }

-- INIT_MEMORY of stage2, which ends at `kernelEnd`. It reserves no module.
def initMemory (kernelEnd : Nat) (ram : Nat → BitVec 32) (regions : List MemoryRegion) : Pmm :=
  (setupMemoryBitmap ram (Pmm.getMemoryInfo regions
    { Pmm.boot with kernelStartAddr := IMAGE_START, kernelEndAddr := kernelEnd })).reserveMemory

-- `for (virt = KERNEL_ADDRESS; virt < 0x400000; virt += PAGE_SIZE) unmap_page(virt)`
def unmapLoop (count : Nat) (k : Kernel) : Except Fault Kernel :=
  (List.range count).foldlM (fun k i => k.unmapPage (KERNEL_ADDRESS + i * PAGE_SIZE)) k

-- From Initialize_memories to the call of the kernel
def handOff (k : Kernel) : Except Fault Kernel := do
  let k ← k.initializeVmemory
  unmapLoop ((0x400000 - KERNEL_ADDRESS) / PAGE_SIZE) k

end Memory

section Files

variable (rounds : Nat)

-- A file is opened, read to its end and closed; `none` when FAT_Open has answered NULL.
def loadFile (path : List UInt8) (buffer : Nat) (l : Loader) :
    Except Fat.Stuck (Option Nat × Loader) :=
  match l.fat.openFile rounds path with
  | .error e => .error e
  | .ok (none, fat) => .ok (none, { l with fat })
  | .ok (some fd, fat) =>
      match Loader.load fd buffer rounds 0 { l with fat } with
      | .error e => .error e
      | .ok (totalRead, l) => .ok (some totalRead, { l with fat := l.fat.close fd })

-- The kernel's file is read whether it was found or not, userland's only if it was.
def loadFiles (l : Loader) : Except Fat.Stuck (List BootModule × Loader) :=
  match loadFile rounds KERNEL_BIN MEMORY_KERNEL_ADDR l with
  | .error e => .error e
  | .ok (none, _) => .error .nullFile
  | .ok (some _, l) =>
      match loadFile rounds USERLAND_ELF MEMORY_USERLAND_ADDR l with
      | .error e => .error e
      | .ok (none, l) => .ok ([], l)
      | .ok (some totalRead, l) =>
          .ok ([⟨BitVec.ofNat 32 MEMORY_USERLAND_ADDR, BitVec.ofNat 32 totalRead⟩], l)

end Files

inductive BootError where
  | fat (e : Fat.Stuck)
  | fault (f : Fault)

-- start() from the first FAT_Open on, with the regions that Memory_Detect has found: what the
-- kernel is entered with
def start (rounds kernelEnd : Nat) (ram : Nat → BitVec 32) (regions : List MemoryRegion) (l : Loader) :
    Except BootError (Kernel × List BootModule) :=
  match loadFiles rounds l with
  | .error e => .error (.fat e)
  | .ok (modules, l) =>
      match handOff
        { pmm := initMemory kernelEnd ram regions
          memory := l.memory
          currentPageDirectory := 0
          cr3 := 0
          paging := false } with
      | .error f => .error (.fault f)
      | .ok k => .ok (k, modules)

end ToyKernel.Stage2
