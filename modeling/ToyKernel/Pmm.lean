import ToyKernel.Library.BitArray
import ToyKernel.Word

namespace ToyKernel

open Library

-- `x & ~0xFFF`, the start of the page that holds `x`.
def pageStart (x : Nat) : Nat := x / 4096 * 4096

def PER_BLOCK_SIZE : Nat := 4096
def BYTE : Nat := 8
def MEMORY_USABLE : BitVec 32 := 1
def BOOT_MAX_MODULES : Nat := 8
def KERNEL_ADDRESS : Nat := 0x100000
def KERNEL_VIRT_BASE : Nat := 0xC0000000

-- boot/bootparams.h
structure MemoryRegion where
  beginLow : BitVec 32
  beginHigh : BitVec 32
  lengthLow : BitVec 32
  lengthHigh : BitVec 32
  type : BitVec 32
  acpi : BitVec 32

structure BootModule where
  data : BitVec 32
  size : BitVec 32

-- What the bootloader hands over. Both counts are the lengths of the lists:
-- the bootloader writes no entry beyond `BOOT_MAX_MODULES`.
structure BootParams where
  regions : List MemoryRegion
  modules : List BootModule
  modules_le : modules.length ≤ BOOT_MAX_MODULES

-- linkers/kernel.ld: the image is linked at 0xC0000000, `__kernel__end` closes
-- .bss, and the boot stack follows at the next multiple of 16. All of these are
-- 32-bit addresses.
structure KernelImage where
  kernelEnd : Nat
  start_le : KERNEL_VIRT_BASE ≤ kernelEnd
  stack_lt : (kernelEnd + 15) / 16 * 16 + 8192 < 4294967296

namespace KernelImage

def kernelStart (_ : KernelImage) : Nat := KERNEL_VIRT_BASE
def size (image : KernelImage) : Nat := image.kernelEnd - image.kernelStart
def stackBottom (image : KernelImage) : Nat := (image.kernelEnd + 15) / 16 * 16
def stackTop (image : KernelImage) : Nat := image.stackBottom + 8192

end KernelImage

-- The statics of mm/pmm/pmm.c, with the words that stand from `BIT_MAP` on.
-- `words` does not end where the bitmap does: the code indexes it without a
-- check, and reads or writes whatever memory follows.
structure Pmm where
  totalMemory : BitVec 32
  totalUsedBlocks : BitVec 32
  bitMap : Nat
  kernelStartAddr : Nat
  kernelEndAddr : Nat
  words : Nat → BitVec 32

namespace Pmm

-- `get_memory_info` writes these three together with `TOTAL_MEMORY`, and nothing
-- else writes them.
def totalPages (p : Pmm) : Nat := p.totalMemory.toNat / PER_BLOCK_SIZE
def bitmapSizeB (p : Pmm) : Nat := (p.totalPages + 7) / BYTE
def totalBlock (p : Pmm) : Nat := (p.totalPages + 31) / 32

def regionLength (region : MemoryRegion) : BitVec 64 :=
  (region.lengthHigh.setWidth 64 <<< 32) ||| region.lengthLow.setWidth 64

-- `TOTAL_MEMORY += length` adds in 64 bits and stores the low 32.
def addRegion (total : BitVec 32) (region : MemoryRegion) : BitVec 32 :=
  if region.type = MEMORY_USABLE then (total.setWidth 64 + regionLength region).setWidth 32 else total

def getMemoryInfo (regions : List MemoryRegion) (p : Pmm) : Pmm :=
  { p with totalMemory := regions.foldl addRegion 0 }

def setKernelAddr (image : KernelImage) (p : Pmm) : Pmm :=
  { p with kernelStartAddr := image.kernelStart, kernelEndAddr := image.kernelEnd }

def setBit (p : Pmm) (bit : Nat) : Pmm := { p with words := BitArray.set p.words bit }

def unsetBit (p : Pmm) (bit : Nat) : Pmm := { p with words := BitArray.unset p.words bit }

def testBit (p : Pmm) (bit : Nat) : Bool := BitArray.test p.words bit

-- `ram` is the memory the bitmap is placed on; only its first `BITMAP_SIZEB`
-- bytes are cleared.
def setupMemoryBitmap (ram : Nat → BitVec 32) (p : Pmm) : Pmm :=
  { p with
    bitMap := pageStart (u32 (p.kernelEndAddr + 0xFFF))
    words := BitArray.zeroPrefix ram (8 * p.bitmapSizeB) }

-- `none` is INVALID_FRAME.
def getFreeMemoryBlock (p : Pmm) : Option Nat :=
  (List.range p.totalBlock).findSome? fun i =>
    if p.words i = 0xffffffff#32 then none
    else (List.range 32).findSome? fun j =>
      if p.testBit (i * 32 + j) then none else some (i * 32 + j)

-- `set_bit(frame); TOTAL_USED_BLOCKS++`
def takeFrame (p : Pmm) (frame : Nat) : Pmm :=
  { p.setBit frame with totalUsedBlocks := p.totalUsedBlocks + 1 }

-- `unset_bit(frame); TOTAL_USED_BLOCKS--`
def dropFrame (p : Pmm) (frame : Nat) : Pmm :=
  { p.unsetBit frame with totalUsedBlocks := p.totalUsedBlocks - 1 }

def takeFrames (p : Pmm) (start count : Nat) : Pmm :=
  (List.range count).foldl (fun p i => p.takeFrame (u32 (start + i))) p

def dropFrames (p : Pmm) (start count : Nat) : Pmm :=
  (List.range count).foldl (fun p i => p.dropFrame (u32 (start + i))) p

-- `(size + PER_BLOCK_SIZE - 1) / PER_BLOCK_SIZE` in 32 bits
def pagesFor (size : Nat) : Nat := u32 (size + PER_BLOCK_SIZE - 1) / PER_BLOCK_SIZE

def reserveFrame (p : Pmm) (frame : Nat) : Pmm :=
  if p.testBit frame then p else p.takeFrame frame

def reserveMemoryBlock (p : Pmm) (base size : Nat) : Pmm :=
  if p.totalUsedBlocks.toNat ≥ p.totalBlock then p
  else (List.range (pagesFor size)).foldl
    (fun p i => p.reserveFrame (u32 (base / PER_BLOCK_SIZE + i))) p

def unreserveMemoryBlock (p : Pmm) (base size : Nat) : Pmm :=
  p.dropFrames (base / PER_BLOCK_SIZE) (pagesFor size)

def reserveMemory (p : Pmm) : Pmm :=
  (((p.reserveMemoryBlock 0x0 0x500).reserveMemoryBlock 0x7c00 512).reserveMemoryBlock
    p.kernelStartAddr (p.kernelEndAddr - p.kernelStartAddr)).reserveMemoryBlock
    p.bitMap p.bitmapSizeB

def allocateChunk (p : Pmm) : Nat × Pmm :=
  if p.totalUsedBlocks.toNat ≥ p.totalBlock then (0, p)
  else match p.getFreeMemoryBlock with
    | none => (0, p)
    | some frame => (u32 (frame * PER_BLOCK_SIZE), p.takeFrame frame)

-- The loop `for (count = 0; count <= size; count++)` that measures the run at
-- `bit`; `left` is the number of rounds the loop may still make.
def fitsAt (p : Pmm) (size bit : Nat) : (left count free : Nat) → Bool
  | 0, _, _ => false
  | left + 1, count, free =>
      if p.testBit (u32 (bit + count)) then false
      else if free + 1 = size then true
      else p.fitsAt size bit left (count + 1) (free + 1)

def getFreeFrameBySize (p : Pmm) (size : Nat) : Option Nat :=
  if size = 0 then none
  else if p.totalUsedBlocks.toNat ≥ p.totalBlock then none
  else if size = 1 then p.getFreeMemoryBlock
  else (List.range p.totalBlock).findSome? fun i =>
    if p.words i = 0xffffffff#32 then none
    else (List.range 32).findSome? fun j =>
      if !p.testBit (i * 32 + j) && p.fitsAt size (i * 32 + j) (size + 1) 0 0
      then some (i * 32 + j) else none

-- Both allocators also clear the block they return. That write goes to the frames: the
-- kernel's memory carries it out, and allocateThrough says what is left of a bitmap it meets.
def allocateByte (p : Pmm) (size : Nat) : Nat × Pmm :=
  match p.getFreeFrameBySize (pagesFor size) with
  | none => (0, p)
  | some frame => (u32 (frame * PER_BLOCK_SIZE), p.takeFrames frame (pagesFor size))

def allocateBlock (p : Pmm) (size : Nat) : Nat × Pmm :=
  match p.getFreeFrameBySize size with
  | none => (0, p)
  | some frame => (u32 (frame * PER_BLOCK_SIZE), p.takeFrames frame size)

def deallocateMemory (p : Pmm) (base : Nat) : Pmm := p.dropFrame (base / PER_BLOCK_SIZE)

def deallocateMemoryBySize (p : Pmm) (base size : Nat) : Pmm :=
  p.dropFrames (base / PER_BLOCK_SIZE) (pagesFor size)

-- The statics before INIT_MEMORY.
def boot : Pmm :=
  { totalMemory := 0, totalUsedBlocks := 0, bitMap := 0, kernelStartAddr := 0, kernelEndAddr := 0,
    words := fun _ => 0 }

def reserveModules (p : Pmm) (modules : List BootModule) : Pmm :=
  modules.foldl (fun p m => p.reserveMemoryBlock m.data.toNat m.size.toNat) p

def initMemory (image : KernelImage) (ram : Nat → BitVec 32) (params : BootParams) : Pmm :=
  ((setupMemoryBitmap ram (getMemoryInfo params.regions
    (setKernelAddr image boot))).reserveMemory).reserveModules params.modules

end Pmm

end ToyKernel
