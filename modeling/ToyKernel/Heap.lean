import ToyKernel.Vmm

namespace ToyKernel

open Library ByteMemory

def KERNEL_HEAP_START : Nat := 0xD1000000

-- sizeof(malloc_block_t): `size` at 0, `free` at 4, `next` at 8
def SIZEOF_BLOCK : Nat := 12

section Nodes

-- The fields of the node at an address of the heap.
def sizeOf (m : Memory) (node : Nat) : Nat := (load32 m node).toNat
def isFree (m : Memory) (node : Nat) : Bool := m (node + 4) != 0
def nextOf (m : Memory) (node : Nat) : Nat := (load32 m (node + 8)).toNat

def setSize (m : Memory) (node size : Nat) : Memory := store32 m node (BitVec.ofNat 32 size)
def setFree (m : Memory) (node : Nat) (free : Bool) : Memory :=
  store8 m (node + 4) (if free then 1 else 0)
def setNext (m : Memory) (node next : Nat) : Memory := store32 m (node + 8) (BitVec.ofNat 32 next)

end Nodes

-- The statics of mm/handler/malloc.c, with the bytes of the heap by virtual address: its
-- pages are mapped to frames of their own. `malloc_virt_address` is KERNEL_HEAP_START and
-- never changes.
structure Heap where
  kernel : Kernel
  bytes : Memory
  mallocListHead : Nat
  mallocPhysAddress : Nat
  totalMallocPages : Nat

-- Why a request does not come to its end: an access that misses, no frame or no table for
-- a page, a `num_pages` that never gets large enough in 8 bits, a list without an end.
inductive Stuck where
  | fault (f : Fault)
  | noPage
  | numPages
  | noEnd
  deriving DecidableEq

namespace Heap

def fault {α : Type} (result : Except Fault α) : Except Stuck α := result.mapError .fault

-- More steps than a list in a 32-bit address space has nodes.
def LIST_STEPS : Nat := 4294967296

section Init

-- One page of the initial heap, with read and write access.
def mapInitialPage (k : Kernel) (phys virt : Nat) : Except Stuck Kernel := do
  let (ok, k) ← fault (k.mapPage phys virt)
  if !ok then throw .noPage
  let page ← fault (k.getPage virt)
  fault (k.update32 page fun entry => entry ||| PTE_READ_WRITE)

-- The frames come cleared from allocate_block.
def mallocInit (h : Heap) (bytes : Nat) : Except Stuck Heap := do
  let pages := u32 (bytes + PAGE_SIZE - 1) / PAGE_SIZE + if bytes % PAGE_SIZE > 0 then 1 else 0
  let (phys, kernel) ← fault (h.kernel.allocateBlock pages)
  if phys = 0 then throw .noPage
  let kernel ← (List.range pages).foldlM (fun k i =>
    mapInitialPage k (u32 (phys + i * PAGE_SIZE)) (u32 (KERNEL_HEAP_START + i * PAGE_SIZE))) kernel
  let m := fill h.bytes KERNEL_HEAP_START (pages * PAGE_SIZE) 0
  let m := setSize m KERNEL_HEAP_START (u32Sub (pages * PAGE_SIZE) SIZEOF_BLOCK)
  let m := setFree m KERNEL_HEAP_START true
  let m := setNext m KERNEL_HEAP_START 0
  return { kernel, bytes := m, mallocListHead := KERNEL_HEAP_START, mallocPhysAddress := phys,
           totalMallocPages := pages }

end Init

-- `node` shrinks to `size` and is taken; a free node gets what is behind it.
def mallocSplit (m : Memory) (node size : Nat) : Memory :=
  let newNode := u32 (node + size + SIZEOF_BLOCK)
  let m := setSize m newNode (u32Sub (u32Sub (sizeOf m node) size) SIZEOF_BLOCK)
  let m := setFree m newNode true
  let m := setNext m newNode (nextOf m node)
  let m := setSize m node size
  let m := setFree m node false
  setNext m node newNode

-- The first node that is free and large enough, or else the last one.
def findBlock (m : Memory) (size : Nat) : (steps cur : Nat) → Option Nat
  | 0, _ => none
  | steps + 1, cur =>
      if (sizeOf m cur < size ∨ !isFree m cur) ∧ nextOf m cur ≠ 0 then
        findBlock m size steps (nextOf m cur)
      else some cur

section Growth

-- `num_pages` is a `uint8_t`: when 255 pages are too few, the loop that counts it up
-- never ends.
def numPages (curSize size : Nat) : Option Nat :=
  ((List.range 255).map (· + 1)).find? fun n =>
    u32 (size + SIZEOF_BLOCK) ≤ u32 (curSize + n * PAGE_SIZE)

-- One more page at `virt`, credited to `cur`. PTE_READ_WRITE goes to a local copy of the
-- entry, so it is left out.
def growPage (h : Heap) (cur virt : Nat) : Except Stuck Heap := do
  let (temp, kernel) ← fault (h.kernel.allocateBlock 1)
  if temp = 0 then throw .noPage
  let (ok, kernel) ← fault (kernel.mapPage temp virt)
  if !ok then throw .noPage
  let m := fill h.bytes virt PAGE_SIZE 0
  return { h with
    kernel
    bytes := setSize m cur (u32 (sizeOf m cur + PAGE_SIZE))
    totalMallocPages := u32 (h.totalMallocPages + 1) }

def growPages : (count : Nat) → Heap → (cur virt : Nat) → Except Stuck Heap
  | 0, h, _, _ => return h
  | count + 1, h, cur, virt => do
      let h ← h.growPage cur virt
      growPages count h cur (u32 (virt + PAGE_SIZE))

end Growth

-- The node for `size` once the search has stopped at `cur`.
def takeBlock (h : Heap) (cur size : Nat) : Except Stuck Heap :=
  if size = sizeOf h.bytes cur then return { h with bytes := setFree h.bytes cur false }
  else if sizeOf h.bytes cur > u32 (size + SIZEOF_BLOCK) then
    return { h with bytes := mallocSplit h.bytes cur size }
  else
    match numPages (sizeOf h.bytes cur) size with
    | none => throw .numPages
    | some count => do
        let virt := u32 (KERNEL_HEAP_START + u32 (h.totalMallocPages * PAGE_SIZE))
        let h ← growPages count h cur virt
        return { h with bytes := mallocSplit h.bytes cur size }

def mallocNextBlock (h : Heap) (size : Nat) : Except Stuck (Nat × Heap) := do
  if size = 0 then return (0, h)
  let h ← if sizeOf h.bytes h.mallocListHead = 0 then h.mallocInit size else pure h
  match findBlock h.bytes size LIST_STEPS h.mallocListHead with
  | none => throw .noEnd
  | some cur => do
      let h ← h.takeBlock cur size
      return (u32 (cur + SIZEOF_BLOCK), h)

section Free

-- One pass over the list; it goes on behind a node that was merged.
def mergeFrom : (steps : Nat) → Memory → (cur : Nat) → Option Memory
  | 0, _, _ => none
  | steps + 1, m, cur =>
      if cur ≠ 0 ∧ nextOf m cur ≠ 0 then
        let m' :=
          if isFree m cur && isFree m (nextOf m cur) then
            let m := setSize m cur (u32 (sizeOf m cur + u32 (sizeOf m (nextOf m cur) + SIZEOF_BLOCK)))
            setNext m cur (nextOf m (nextOf m cur))
          else m
        mergeFrom steps m' (nextOf m' cur)
      else some m

def mergeFreeBlocks (h : Heap) : Except Stuck Heap :=
  match mergeFrom LIST_STEPS h.bytes h.mallocListHead with
  | none => throw .noEnd
  | some m => return { h with bytes := m }

-- The loop of malloc_free up to the node of `ptr`; the last node is not looked at.
def findNode (m : Memory) (ptr : Nat) : (steps cur : Nat) → Option (Option Nat)
  | 0, _ => none
  | steps + 1, cur =>
      if nextOf m cur = 0 then some none
      else if u32 (cur + SIZEOF_BLOCK) = ptr then some (some cur)
      else findNode m ptr steps (nextOf m cur)

def mallocFree (h : Heap) (ptr : Nat) : Except Stuck Heap :=
  match findNode h.bytes ptr LIST_STEPS h.mallocListHead with
  | none => throw .noEnd
  | some none => return h
  | some (some cur) => mergeFreeBlocks { h with bytes := setFree h.bytes cur true }

end Free

-- kernel/interrupts/syscall.c
def syscallMalloc (h : Heap) (bytes : Nat) : Except Stuck (Nat × Heap) := do
  let h ← if h.mallocListHead = 0 then h.mallocInit bytes else pure h
  let (ptr, h) ← h.mallocNextBlock bytes
  let h ← h.mergeFreeBlocks
  return (ptr, h)

def syscallFree (h : Heap) (ptr : Nat) : Except Stuck Heap := h.mallocFree ptr

end Heap

end ToyKernel
