import ToyKernel.Library.ByteMemory
import ToyKernel.Pmm

namespace ToyKernel

open Library ByteMemory

def PAGE_SIZE : Nat := 4096

-- The flags of page and directory entries that the kernel uses; the two kinds agree.
def PTE_PRESENT : BitVec 32 := 0x01
def PTE_READ_WRITE : BitVec 32 := 0x02
def PTE_USER : BitVec 32 := 0x04

def PD_INDEX (address : Nat) : Nat := address / 4194304
def PT_INDEX (address : Nat) : Nat := address / 4096 % 1024

-- `(*dir_entry) & ~0xFFF`
def PAGE_PHYS_ADDRESS (entry : BitVec 32) : Nat := (entry &&& ~~~0xFFF#32).toNat

-- `(*entry & ~0x7FFFF000) | address`; bit 31 of the old entry stays.
def SET_FRAME (entry : BitVec 32) (address : Nat) : BitVec 32 :=
  (entry &&& ~~~0x7FFFF000#32) ||| BitVec.ofNat 32 address

def isPresent (entry : BitVec 32) : Bool := entry &&& PTE_PRESENT == PTE_PRESENT

def isWritable (entry : BitVec 32) : Bool := entry &&& PTE_READ_WRITE == PTE_READ_WRITE

def isUser (entry : BitVec 32) : Bool := entry &&& PTE_USER == PTE_USER

-- The PMM, the physical memory, `current_page_directory` and the two control registers
-- that paging rests on.
structure Kernel where
  pmm : Pmm
  memory : Memory
  currentPageDirectory : Nat
  cr3 : Nat
  paging : Bool

-- An access through a physical address that the page tables do not map to itself.
structure Fault where
  address : Nat
  deriving DecidableEq

namespace Kernel

-- The walk of the MMU.
def translate (k : Kernel) (address : Nat) : Option Nat :=
  if k.paging then
    let pde := load32 k.memory (k.cr3 + 4 * PD_INDEX address)
    if isPresent pde then
      let pte := load32 k.memory (PAGE_PHYS_ADDRESS pde + 4 * PT_INDEX address)
      if isPresent pte then some (PAGE_PHYS_ADDRESS pte + address % 4096) else none
    else none
  else some address

-- Every byte of `[address, address + count)` is found where it is.
def Reaches (k : Kernel) (address count : Nat) : Prop :=
  ∀ i < count, k.translate (address + i) = some (address + i)

instance (k : Kernel) (address count : Nat) : Decidable (k.Reaches address count) :=
  inferInstanceAs (Decidable (∀ i < count, k.translate (address + i) = some (address + i)))

-- The kernel uses physical addresses as pointers; what it means to access is the memory
-- at that very address.
def access {α : Type} (k : Kernel) (address count : Nat) (act : α) : Except Fault α :=
  if k.Reaches address count then .ok act else .error ⟨address⟩

def read32 (k : Kernel) (address : Nat) : Except Fault (BitVec 32) :=
  k.access address 4 (load32 k.memory address)

-- A read of a word and a write of the word made from it.
def update32 (k : Kernel) (address : Nat) (f : BitVec 32 → BitVec 32) : Except Fault Kernel :=
  k.access address 4
    { k with memory := store32 k.memory address (f (load32 k.memory address)) }

def zero (k : Kernel) (address count : Nat) : Except Fault Kernel :=
  k.access address count { k with memory := fill k.memory address count 0 }

section Allocators

-- The allocators of the PMM, now with the memory they clear.
def allocateChunk (k : Kernel) : Nat × Kernel :=
  (k.pmm.allocateChunk.1, { k with pmm := k.pmm.allocateChunk.2 })

def allocateBlock (k : Kernel) (size : Nat) : Except Fault (Nat × Kernel) :=
  match k.pmm.getFreeFrameBySize size with
  | none => .ok (0, k)
  | some _ => do
      let result := k.pmm.allocateBlock size
      let k' ← { k with pmm := result.2 }.zero result.1 (u32 (size * PER_BLOCK_SIZE))
      return (result.1, k')

def allocateByte (k : Kernel) (size : Nat) : Except Fault (Nat × Kernel) :=
  match k.pmm.getFreeFrameBySize (Pmm.pagesFor size) with
  | none => .ok (0, k)
  | some _ => do
      let result := k.pmm.allocateByte size
      let k' ← { k with pmm := result.2 }.zero result.1 (u32 size)
      return (result.1, k')

end Allocators

section Setup

def setupPageDirectoryTable (k : Kernel) : Except Fault Kernel := do
  let (directory, k) ← k.allocateBlock 1
  let k := { k with currentPageDirectory := directory }
  if directory = 0 then return k
  k.zero directory PAGE_SIZE

-- A fresh table that maps the 4 MiB from `virt` on to the frames from `frame` on, and the
-- directory entry that points to it.
def setupTable (k : Kernel) (frame virt : Nat) : Except Fault Kernel := do
  let (table, k) ← k.allocateBlock 1
  if table = 0 then return k
  let k ← k.zero table PAGE_SIZE
  let k ← k.access table PAGE_SIZE
    { k with
      memory := storeTable k.memory table
        (fun i => SET_FRAME (PTE_PRESENT ||| PTE_READ_WRITE) (frame + i * PAGE_SIZE)) 1024 }
  k.update32 (k.currentPageDirectory + 4 * PD_INDEX virt)
    fun entry => SET_FRAME (entry ||| PTE_PRESENT ||| PTE_READ_WRITE) table

def setupHigherHalfKernel (k : Kernel) : Except Fault Kernel := k.setupTable KERNEL_ADDRESS KERNEL_VIRT_BASE

def setupPageTable (k : Kernel) : Except Fault Kernel := k.setupTable 0 0

def setPageDirectory (k : Kernel) : Kernel :=
  if k.currentPageDirectory = 0 then k else { k with cr3 := k.currentPageDirectory }

def enablePaging (k : Kernel) : Kernel := { k with paging := true }

-- None of the results is looked at.
def initializeVmemory (k : Kernel) : Except Fault Kernel := do
  let k ← k.setupPageDirectoryTable
  let k ← k.setupHigherHalfKernel
  let k ← k.setupPageTable
  return k.setPageDirectory.enablePaging

end Setup

section Pages

-- The address of the page table entry, without a look at the present bit.
def getPage (k : Kernel) (address : Nat) : Except Fault Nat := do
  let entry ← k.read32 (k.currentPageDirectory + 4 * PD_INDEX address)
  return PAGE_PHYS_ADDRESS entry + 4 * PT_INDEX address

-- Like get_page it takes the table of the address to be there.
def unmapPage (k : Kernel) (address : Nat) : Except Fault Kernel := do
  let page ← k.getPage address
  k.update32 page fun entry => SET_FRAME entry 0 &&& ~~~PTE_PRESENT

-- map_page and map_page_user: a cleared table behind the directory entry at `pde`, or
-- `false` for "out of memory".
def newTable (k : Kernel) (pde : Nat) (attributes : BitVec 32) : Except Fault (Bool × Kernel) := do
  let (table, k) ← k.allocateBlock 1
  if table = 0 then return (false, k)
  let k ← k.zero table PAGE_SIZE
  let k ← k.update32 pde fun entry => SET_FRAME (entry ||| attributes) table
  return (true, k)

-- The entry for `virt` in the table its directory entry points to.
def setPage (k : Kernel) (virt : Nat) (attributes : BitVec 32) (phys : Nat) : Except Fault Kernel := do
  let entry ← k.read32 (k.currentPageDirectory + 4 * PD_INDEX virt)
  k.update32 (PAGE_PHYS_ADDRESS entry + 4 * PT_INDEX virt)
    fun page => SET_FRAME (page ||| attributes) phys

def mapPage (k : Kernel) (phys virt : Nat) : Except Fault (Bool × Kernel) := do
  let pde := k.currentPageDirectory + 4 * PD_INDEX virt
  let entry ← k.read32 pde
  let (ok, k) ←
    if isPresent entry then pure (true, k) else k.newTable pde (PTE_PRESENT ||| PTE_READ_WRITE)
  if !ok then return (false, k)
  let k ← k.setPage virt PTE_PRESENT phys
  return (true, k)

-- As map_page, with access from ring 3 in both entries.
def mapPageUser (k : Kernel) (phys virt : Nat) : Except Fault (Bool × Kernel) := do
  let pde := k.currentPageDirectory + 4 * PD_INDEX virt
  let entry ← k.read32 pde
  let (ok, k) ←
    if isPresent entry then do
      let k ← k.update32 pde fun entry => entry ||| PTE_USER
      pure (true, k)
    else k.newTable pde (PTE_PRESENT ||| PTE_READ_WRITE ||| PTE_USER)
  if !ok then return (false, k)
  let k ← k.setPage virt (PTE_PRESENT ||| PTE_READ_WRITE ||| PTE_USER) phys
  return (true, k)

end Pages

end Kernel

end ToyKernel
