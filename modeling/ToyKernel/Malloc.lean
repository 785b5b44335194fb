import ToyKernel.Heap

namespace ToyKernel

open Library ByteMemory

namespace Kernel

-- Where a virtual address is in memory; where there is no page the value is of no account.
def physical (k : Kernel) (address : Nat) : Nat := (k.translate address).getD 0

-- The bytes at virtual addresses
def view (k : Kernel) : Memory := fun a => k.memory (k.physical a)

-- There is a page for every byte of `[address, address + count)`.
def Present (k : Kernel) (address count : Nat) : Prop :=
  address + count ≤ 4294967296 ∧ ∀ i < count, (k.translate (address + i)).isSome

instance (k : Kernel) (address count : Nat) : Decidable (k.Present address count) :=
  inferInstanceAs (Decidable (_ ∧ _))

-- An access of the processor's, which goes through the page tables. Ring 0 may write any
-- page: CR0.WP is clear.
def peek {α : Type} (k : Kernel) (address count : Nat) (value : Memory → α) : Except Fault α :=
  if k.Present address count then .ok (value k.view) else .error ⟨address⟩

-- The memory once `count` bytes from `address` on are those of `m`.
def written (k : Kernel) (address : Nat) (m : Memory) : (count : Nat) → Memory
  | 0 => k.memory
  | count + 1 =>
      store8 (k.written address m count) (k.physical (address + count)) (m (address + count))

def poke (k : Kernel) (address count : Nat) (change : Memory → Memory) : Except Fault Kernel :=
  if k.Present address count then .ok { k with memory := k.written address (change k.view) count }
  else .error ⟨address⟩

end Kernel

-- The statics of mm/handler/malloc.c, as in `Heap`. Here the heap is where the page tables
-- have put it, and the results of allocate_block, allocate_page and map_page are as
-- unchecked as they are in the code.
structure Malloc where
  kernel : Kernel
  mallocListHead : Nat
  mallocPhysAddress : Nat
  totalMallocPages : Nat

namespace Malloc

open Heap (fault LIST_STEPS)

section Nodes

variable (h : Malloc)

def sizeAt (node : Nat) : Except Stuck Nat :=
  fault (h.kernel.peek node 4 fun m => (load32 m node).toNat)

def freeAt (node : Nat) : Except Stuck Bool :=
  fault (h.kernel.peek (u32 (node + 4)) 1 fun m => m (u32 (node + 4)) != 0)

def nextAt (node : Nat) : Except Stuck Nat :=
  fault (h.kernel.peek (u32 (node + 8)) 4 fun m => (load32 m (u32 (node + 8))).toNat)

-- Writes `count` bytes from `address` on.
def put (address count : Nat) (change : Memory → Memory) : Except Stuck Malloc := do
  let kernel ← fault (h.kernel.poke address count change)
  return { h with kernel }

def putSize (node size : Nat) : Except Stuck Malloc :=
  h.put node 4 fun m => store32 m node (BitVec.ofNat 32 size)

def putFree (node : Nat) (free : Bool) : Except Stuck Malloc :=
  h.put (u32 (node + 4)) 1 fun m => store8 m (u32 (node + 4)) (if free then 1 else 0)

def putNext (node next : Nat) : Except Stuck Malloc :=
  h.put (u32 (node + 8)) 4 fun m => store32 m (u32 (node + 8)) (BitVec.ofNat 32 next)

end Nodes

section Init

-- get_page does not look whether there is a table: without one, the flag goes to memory
-- from address 0 on.
def mapInitialPage (k : Kernel) (phys virt : Nat) : Except Fault Kernel := do
  let (_, k) ← k.mapPage phys virt
  let page ← k.getPage virt
  k.update32 page fun entry => entry ||| PTE_READ_WRITE

def mapInitialPages (phys : Nat) : (pages : List Nat) → Kernel → Except Fault Kernel
  | [], k => return k
  | i :: pages, k => do
      let k ← mapInitialPage k (u32 (phys + i * PAGE_SIZE)) (u32 (KERNEL_HEAP_START + i * PAGE_SIZE))
      mapInitialPages phys pages k

def mallocInit (h : Malloc) (bytes : Nat) : Except Stuck Malloc := do
  let pages := u32 (bytes + PAGE_SIZE - 1) / PAGE_SIZE + if bytes % PAGE_SIZE > 0 then 1 else 0
  let (phys, kernel) ← fault (h.kernel.allocateBlock pages)
  let kernel ← fault (mapInitialPages phys (List.range pages) kernel)
  let h : Malloc := { kernel, mallocListHead := KERNEL_HEAP_START, mallocPhysAddress := phys,
                      totalMallocPages := pages }
  let h ← h.putSize KERNEL_HEAP_START (u32Sub (u32 (pages * PAGE_SIZE)) SIZEOF_BLOCK)
  let h ← h.putFree KERNEL_HEAP_START true
  h.putNext KERNEL_HEAP_START 0

end Init

def mallocSplit (h : Malloc) (node size : Nat) : Except Stuck Malloc := do
  let newNode := u32 (node + size + SIZEOF_BLOCK)
  let old ← h.sizeAt node
  let h ← h.putSize newNode (u32Sub (u32Sub old size) SIZEOF_BLOCK)
  let h ← h.putFree newNode true
  let next ← h.nextAt node
  let h ← h.putNext newNode next
  let h ← h.putSize node size
  let h ← h.putFree node false
  h.putNext node newNode

-- The first node that is free and large enough, or else the last one.
def findBlock (h : Malloc) (size : Nat) : (steps cur : Nat) → Except Stuck Nat
  | 0, _ => throw .noEnd
  | steps + 1, cur => do
      let old ← h.sizeAt cur
      let fits ← if old < size then pure false else h.freeAt cur
      if fits then return cur
      let next ← h.nextAt cur
      if next = 0 then return cur else h.findBlock size steps next

section Growth

-- `num_pages` is a `uint8_t` that counts from 1 to 255 and on from 0: where none of these
-- is enough, the loop never ends.
def numPages (old size : Nat) : Option Nat :=
  ((List.range 256).map fun n => (n + 1) % 256).find? fun n =>
    u32 (size + SIZEOF_BLOCK) ≤ u32 (old + n * PAGE_SIZE)

-- PTE_READ_WRITE goes to a local copy of the entry, so it is left out.
def growPage (h : Malloc) (cur virt : Nat) : Except Stuck Malloc := do
  let (temp, kernel) ← fault (h.kernel.allocateBlock 1)
  let (_, kernel) ← fault (kernel.mapPage temp virt)
  let h := { h with kernel }
  let size ← h.sizeAt cur
  let h ← h.putSize cur (u32 (size + PAGE_SIZE))
  return { h with totalMallocPages := u32 (h.totalMallocPages + 1) }

def growPages : (count : Nat) → Malloc → (cur virt : Nat) → Except Stuck Malloc
  | 0, h, _, _ => return h
  | count + 1, h, cur, virt => do
      let h ← h.growPage cur virt
      growPages count h cur (u32 (virt + PAGE_SIZE))

end Growth

-- Where the next page of the heap goes
def nextVirt (h : Malloc) : Nat := u32 (KERNEL_HEAP_START + u32 (h.totalMallocPages * PAGE_SIZE))

-- The node for `size` once the search has stopped at `cur`.
def takeBlock (h : Malloc) (cur size : Nat) : Except Stuck Malloc := do
  let old ← h.sizeAt cur
  if size = old then h.putFree cur false
  else if old > u32 (size + SIZEOF_BLOCK) then h.mallocSplit cur size
  else
    match numPages old size with
    | none => throw .numPages
    | some count => do
        let h ← growPages count h cur h.nextVirt
        h.mallocSplit cur size

def mallocNextBlock (h : Malloc) (size : Nat) : Except Stuck (Nat × Malloc) := do
  if size = 0 then return (0, h)
  let h ← if (← h.sizeAt h.mallocListHead) = 0 then h.mallocInit size else pure h
  let cur ← h.findBlock size LIST_STEPS h.mallocListHead
  let h ← h.takeBlock cur size
  return (u32 (cur + SIZEOF_BLOCK), h)

section Free

-- Two neighbours that are both free become one.
def join (h : Malloc) (cur next : Nat) : Except Stuck Malloc := do
  let size ← h.sizeAt cur
  let more ← h.sizeAt next
  let h ← h.putSize cur (u32 (size + u32 (more + SIZEOF_BLOCK)))
  let behind ← h.nextAt next
  h.putNext cur behind

-- One pass over the list; it goes on behind a node that was merged.
def mergeFrom : (steps : Nat) → Malloc → (cur : Nat) → Except Stuck Malloc
  | 0, _, _ => throw .noEnd
  | steps + 1, h, cur => do
      if cur = 0 then return h
      let next ← h.nextAt cur
      if next = 0 then return h
      let both ← if ← h.freeAt cur then h.freeAt next else pure false
      let h ← if both then h.join cur next else pure h
      mergeFrom steps h (← h.nextAt cur)

def mergeFreeBlocks (h : Malloc) : Except Stuck Malloc := mergeFrom LIST_STEPS h h.mallocListHead

-- The loop of malloc_free up to the node of `ptr`; the last node is not looked at.
def findNode (h : Malloc) (ptr : Nat) : (steps cur : Nat) → Except Stuck (Option Nat)
  | 0, _ => throw .noEnd
  | steps + 1, cur => do
      let next ← h.nextAt cur
      if next = 0 then return none
      else if u32 (cur + SIZEOF_BLOCK) = ptr then return some cur
      else h.findNode ptr steps next

def mallocFree (h : Malloc) (ptr : Nat) : Except Stuck Malloc := do
  match ← h.findNode ptr LIST_STEPS h.mallocListHead with
  | none => return h
  | some cur => do
      let h ← h.putFree cur true
      h.mergeFreeBlocks

end Free

-- kernel/interrupts/syscall.c
def syscallMalloc (h : Malloc) (bytes : Nat) : Except Stuck (Nat × Malloc) := do
  let h ← if h.mallocListHead = 0 then h.mallocInit bytes else pure h
  let (ptr, h) ← h.mallocNextBlock bytes
  let h ← h.mergeFreeBlocks
  return (ptr, h)

def syscallFree (h : Malloc) (ptr : Nat) : Except Stuck Malloc := h.mallocFree ptr

section Userland

-- `ptr[i] = 0` for every `i` below `count`. Ring 3 needs the USER bit of the pages as well, which
-- is not looked at here.
def clear (h : Malloc) (ptr : Nat) : (count : Nat) → Except Stuck Malloc
  | 0 => return h
  | count + 1 => do
      let h ← h.clear ptr count
      h.put (u32 (ptr + count)) 1 fun m => store8 m (u32 (ptr + count)) 0

-- userland/lib/stdlib.h
def calloc (h : Malloc) (nmemb size : BitVec 32) : Except Stuck (Nat × Malloc) := do
  let total := nmemb * size
  let (ptr, h) ← h.syscallMalloc total.toNat
  if ptr = 0 then return (0, h)
  let h ← h.clear ptr total.toNat
  return (ptr, h)

end Userland

end Malloc

end ToyKernel
