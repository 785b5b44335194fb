import ToyKernel.Library.ByteMemory
import ToyKernel.Pmm.Request

namespace ToyKernel.Pmm

open Library ByteMemory FirstFit

-- Where the page tables lead an access through an address; a call that meets an address without a
-- page does not come back.
abbrev View := Nat → Nat

-- The windows of INITIALIZE_VMEMORY
def windows : View := fun a => if KERNEL_VIRT_BASE ≤ a then a - KERNEL_VIRT_BASE + KERNEL_ADDRESS else a

-- `memset(addr, 0, count)` writes the byte that the code reads at `target`.
def meets (view : View) (addr count target : Nat) : Bool :=
  (List.range count).any fun i => view (u32 (addr + i)) == view (u32 target)

-- That byte is the byte `j` of the bit array.
def wipes (view : View) (p : Pmm) (addr count j : Nat) : Bool := meets view addr count (p.bitMap + j)

def wipedWord (view : View) (p : Pmm) (addr count i : Nat) : BitVec 32 :=
  load32 (fun b => if p.wipes view addr count (4 * i + b) then 0 else (p.words i).extractLsb' (8 * b) 8) 0

-- `memset(addr, 0, count)` as far as it reaches the bit array
def memset (view : View) (p : Pmm) (addr count : Nat) : Pmm :=
  { p with words := p.wipedWord view addr count }

-- The two allocators with the memset they end with: the block may hold frames of the bit array.
def allocateByteThrough (view : View) (p : Pmm) (size : Nat) : Nat × Pmm :=
  match p.getFreeFrameBySize (pagesFor size) with
  | none => (0, p)
  | some frame =>
      let addr := u32 (frame * PER_BLOCK_SIZE)
      (addr, (p.takeFrames frame (pagesFor size)).memset view addr (u32 size))

def allocateBlockThrough (view : View) (p : Pmm) (size : Nat) : Nat × Pmm :=
  match p.getFreeFrameBySize size with
  | none => (0, p)
  | some frame =>
      let addr := u32 (frame * PER_BLOCK_SIZE)
      (addr, (p.takeFrames frame size).memset view addr (u32 (size * PER_BLOCK_SIZE)))

def allocateThrough (view : View) (p : Pmm) : Allocation → Nat × Pmm
  | .chunk => p.allocateChunk
  | .block size => p.allocateBlockThrough view size
  | .byte size => p.allocateByteThrough view size

-- The length that the memset is given; allocate_chunk clears nothing.
def Allocation.cleared : Allocation → Nat
  | .chunk => 0
  | .block size => u32 (size * PER_BLOCK_SIZE)
  | .byte size => u32 size

-- An allocation of `n` frames gets those from `frame` on: the guard is open, and they are the first
-- clear run.
structure Gets (p : Pmm) (n frame : Nat) : Prop where
  pos : 0 < n
  opened : p.totalUsedBlocks.toNat < p.totalBlock
  first : IsFirst p.marked (32 * p.totalBlock) n frame

-- The block covers no byte of the bit array in which a bit is set, those of the block included.
def Spares (view : View) (p : Pmm) (a : Allocation) : Prop :=
  ∀ frame, p.Gets a.frames frame → ∀ bit, (p.takeFrames frame a.frames).testBit bit = true →
    p.wipes view (frame * PER_BLOCK_SIZE) a.cleared (bit / 8) = false

-- The block covers no byte of the kernel's image, where the code and its statics stand.
def SparesKernel (view : View) (p : Pmm) (a : Allocation) : Prop :=
  ∀ frame, p.Gets a.frames frame → ∀ target, p.kernelStartAddr ≤ target → target < p.kernelEndAddr →
    meets view (frame * PER_BLOCK_SIZE) a.cleared target = false

section Words

variable {view : View} {p : Pmm} {addr count target : Nat}

-- Where the addresses of the block and of the byte lead to different places
theorem meets_of_apart (h : ∀ i < count, view (u32 (addr + i)) ≠ view (u32 target)) :
    meets view addr count target = false := by
  unfold meets
  rw [List.any_eq_false]
  intro i hi
  rw [beq_iff_eq]
  exact h i (List.mem_range.mp hi)

theorem meets_of_mem {i : Nat} (hi : i < count) (h : view (u32 (addr + i)) = view (u32 target)) :
    meets view addr count target = true := by
  unfold meets
  rw [List.any_eq_true]
  exact ⟨i, List.mem_range.mpr hi, beq_iff_eq.mpr h⟩

theorem testBit_memset (view : View) (p : Pmm) (addr count bit : Nat) :
    (p.memset view addr count).testBit bit = (p.testBit bit && !p.wipes view addr count (bit / 8)) := by
  have hbyte : 4 * (bit / 32) + (0 + bit % 32 / 8) = bit / 8 := by omega
  have hbit : 8 * (0 + bit % 32 / 8) + bit % 32 % 8 = bit % 32 := by omega
  have hword : (p.memset view addr count).words (bit / 32) = p.wipedWord view addr count (bit / 32) := rfl
  unfold testBit
  rw [BitArray.test_eq_getLsbD (by omega), BitArray.test_eq_getLsbD (by omega), hword, wipedWord,
    getLsbD_load32 _ _ _ (by omega), hbyte]
  cases p.wipes view addr count (bit / 8) with
  | true => simp
  | false =>
      have hin : bit % 32 % 8 < 8 := by omega
      simp only [Bool.false_eq_true, if_false, BitVec.getLsbD_extractLsb', hin, decide_true,
        Bool.true_and, hbit, Bool.not_false, Bool.and_true]

-- A block that meets no mark leaves the words as they are.
theorem memset_eq_self (h : ∀ bit, p.testBit bit = true → p.wipes view addr count (bit / 8) = false) :
    p.memset view addr count = p := by
  have hwords : p.wipedWord view addr count = p.words := by
    funext i
    apply BitVec.eq_of_getLsbD_eq
    intro j hj
    have hsame : (p.memset view addr count).testBit (32 * i + j) = p.testBit (32 * i + j) := by
      rw [testBit_memset]
      cases hset : p.testBit (32 * i + j) with
      | false => rfl
      | true => rw [h _ hset, Bool.not_false, Bool.and_true]
    unfold testBit at hsame
    rwa [BitArray.test_eq_getLsbD (by omega), BitArray.test_eq_getLsbD (by omega),
      show (32 * i + j) / 32 = i by omega, show (32 * i + j) % 32 = j by omega] at hsame
  rw [memset, hwords]

theorem sameGeometry_memset (view : View) (p : Pmm) (addr count : Nat) :
    SameGeometry p (p.memset view addr count) :=
  ⟨rfl, rfl, rfl, rfl⟩

@[simp] theorem totalUsedBlocks_memset (view : View) (p : Pmm) (addr count : Nat) :
    (p.memset view addr count).totalUsedBlocks = p.totalUsedBlocks := rfl

theorem memset_zero (view : View) (p : Pmm) (addr : Nat) : p.memset view addr 0 = p :=
  memset_eq_self fun _ _ => rfl

end Words

section Allocation

variable {view : View} {p : Pmm} {a : Allocation} {frame n : Nat}

theorem getFreeFrameBySize_iff_gets : p.getFreeFrameBySize n = some frame ↔ p.Gets n frame := by
  rw [getFreeFrameBySize_eq_some_iff]
  exact ⟨fun ⟨hpos, hopen, hfirst⟩ => ⟨hpos, hopen, hfirst⟩, fun h => ⟨h.pos, h.opened, h.first⟩⟩

theorem Gets.frame_lt (h : p.Gets n frame) : frame < 1048576 := by
  have hblock := p.totalBlock_le
  have hlt := h.first.start_lt
  omega

theorem Gets.unique {other : Nat} (h : p.Gets n frame) (ho : p.Gets n other) : other = frame :=
  ho.first.unique h.first

-- A single frame is the first one that is clear.
theorem gets_one (hopen : p.totalUsedBlocks.toNat < p.totalBlock) (hlt : frame < 32 * p.totalBlock)
    (hclear : p.testBit frame = false) (hbelow : ∀ other < frame, p.testBit other = true) :
    p.Gets 1 frame := by
  have hblock := p.totalBlock_le
  refine ⟨by omega, hopen, hlt, ?_, fun other hother => ?_⟩
  · rw [clear_one_iff, marked_of_lt _ (by omega), hclear]
  · by_contra hless
    rw [clear_one_iff, marked_of_lt _ (by omega), hbelow other (by omega)] at hother
    cases hother

-- A refused allocation changes nothing.
theorem allocateThrough_of_none (view : View) (h : p.getFreeFrameBySize a.frames = none) :
    p.allocateThrough view a = (0, p) := by
  cases a with
  | chunk =>
      change p.getFreeFrameBySize 1 = none at h
      rw [allocateThrough, allocateChunk_eq, h]
  | block size =>
      change p.getFreeFrameBySize size = none at h
      rw [allocateThrough, allocateBlockThrough, h]
  | byte size =>
      change p.getFreeFrameBySize (pagesFor size) = none at h
      rw [allocateThrough, allocateByteThrough, h]

-- Another one marks the block and then clears it.
theorem Gets.allocateThrough (h : p.Gets a.frames frame) :
    p.allocateThrough view a = (frame * PER_BLOCK_SIZE,
      (p.takeFrames frame a.frames).memset view (frame * PER_BLOCK_SIZE) a.cleared) := by
  have hlt := h.frame_lt
  have hfound := getFreeFrameBySize_iff_gets.mpr h
  have haddr : u32 (frame * PER_BLOCK_SIZE) = frame * PER_BLOCK_SIZE := u32_of_lt (by
    unfold PER_BLOCK_SIZE
    omega)
  cases a with
  | chunk =>
      have hone : p.takeFrame frame = p.takeFrames frame 1 := by
        rw [takeFrames_succ, takeFrames_zero, Nat.add_zero, u32_of_lt (by omega)]
      change p.getFreeFrameBySize 1 = some frame at hfound
      rw [Pmm.allocateThrough, allocateChunk_eq, hfound, Allocation.cleared, memset_zero]
      simp only [haddr, hone, Allocation.frames]
  | block size =>
      change p.getFreeFrameBySize size = some frame at hfound
      rw [Pmm.allocateThrough, allocateBlockThrough, hfound]
      simp only [haddr, Allocation.frames, Allocation.cleared]
  | byte size =>
      change p.getFreeFrameBySize (pagesFor size) = some frame at hfound
      rw [Pmm.allocateThrough, allocateByteThrough, hfound]
      simp only [haddr, Allocation.frames, Allocation.cleared]

@[simp] theorem wipes_takeFrames (view : View) (p : Pmm) (start count addr length j : Nat) :
    (p.takeFrames start count).wipes view addr length j = p.wipes view addr length j := by
  rw [wipes, wipes, (sameGeometry_takeFrames p start count).bitMap]

theorem allocate_of_none (h : p.getFreeFrameBySize a.frames = none) : p.allocate a = (0, p) := by
  rw [allocate_eq_allocateBlock, allocateBlock, h]

theorem Gets.allocate (h : p.Gets a.frames frame) :
    p.allocate a = (frame * PER_BLOCK_SIZE, p.takeFrames frame a.frames) := by
  rw [allocate_eq_allocateBlock]
  rcases p.allocateBlock_cases a.frames with ⟨hnone, _⟩ | ⟨other, hfirst, _, _, _, he⟩
  · rw [getFreeFrameBySize_iff_gets.mpr h] at hnone
    cases hnone
  · rw [he, hfirst.unique h.first]

-- What is returned does not depend on the memset.
theorem allocateThrough_fst (view : View) (p : Pmm) (a : Allocation) :
    (p.allocateThrough view a).1 = (p.allocate a).1 := by
  cases hfound : p.getFreeFrameBySize a.frames with
  | none => rw [allocateThrough_of_none view hfound, allocate_of_none hfound]
  | some frame =>
      have hgets := getFreeFrameBySize_iff_gets.mp hfound
      rw [hgets.allocateThrough, hgets.allocate]

theorem spares_of_none (view : View) (h : p.getFreeFrameBySize a.frames = none) : p.Spares view a := by
  intro frame hgets
  rw [getFreeFrameBySize_iff_gets.mpr hgets] at h
  cases h

theorem Gets.spares_iff (hgets : p.Gets a.frames frame) :
    p.Spares view a ↔ ∀ bit, (p.takeFrames frame a.frames).testBit bit = true →
      (p.takeFrames frame a.frames).wipes view (frame * PER_BLOCK_SIZE) a.cleared (bit / 8) = false := by
  constructor
  · exact fun h bit hbit => (wipes_takeFrames ..).trans (h frame hgets bit hbit)
  · intro h other hother bit hbit
    rw [hgets.unique hother] at hbit ⊢
    exact (wipes_takeFrames ..).symm.trans (h bit hbit)

theorem Spares.allocateThrough (h : p.Spares view a) : p.allocateThrough view a = p.allocate a := by
  cases hfound : p.getFreeFrameBySize a.frames with
  | none => rw [allocateThrough_of_none view hfound, allocate_of_none hfound]
  | some frame =>
      have hgets := getFreeFrameBySize_iff_gets.mp hfound
      rw [hgets.allocateThrough, hgets.allocate, memset_eq_self (hgets.spares_iff.mp h)]

theorem spares_chunk (view : View) (p : Pmm) : p.Spares view .chunk := fun _ _ _ _ => rfl

theorem sparesKernel_chunk (view : View) (p : Pmm) : p.SparesKernel view .chunk := fun _ _ _ _ _ => rfl

end Allocation

section Windows

variable {p : Pmm} {addr count target : Nat}

-- Through the windows a block below the kernel's window stands at its own addresses, and the byte at
-- `target` above KERNEL_ADDRESS.
theorem windows_of_lt (h : target < KERNEL_VIRT_BASE) : windows target = target := if_neg (by omega)

theorem windows_of_le (h : KERNEL_VIRT_BASE ≤ target) :
    windows target = target - KERNEL_VIRT_BASE + KERNEL_ADDRESS := if_pos h

theorem meets_windows (hend : addr + count ≤ KERNEL_VIRT_BASE) (hlo : KERNEL_VIRT_BASE ≤ target)
    (hhi : target < 4294967296)
    (hapart : addr + count ≤ target - KERNEL_VIRT_BASE + KERNEL_ADDRESS ∨
      target - KERNEL_VIRT_BASE + KERNEL_ADDRESS < addr) :
    meets windows addr count target = false := by
  have hbase : KERNEL_VIRT_BASE = 3221225472 := rfl
  apply meets_of_apart
  intro i hi
  rw [u32_of_lt (by omega), u32_of_lt hhi, windows_of_lt (by omega), windows_of_le hlo]
  omega

theorem meets_windows_of_mem (hend : addr + count ≤ KERNEL_VIRT_BASE) (hlo : KERNEL_VIRT_BASE ≤ target)
    (hhi : target < 4294967296) (hfrom : addr ≤ target - KERNEL_VIRT_BASE + KERNEL_ADDRESS)
    (hto : target - KERNEL_VIRT_BASE + KERNEL_ADDRESS < addr + count) :
    meets windows addr count target = true := by
  have hbase : KERNEL_VIRT_BASE = 3221225472 := rfl
  have hmem : target - KERNEL_VIRT_BASE + KERNEL_ADDRESS - addr < count := by omega
  apply meets_of_mem hmem
  rw [u32_of_lt (by omega), u32_of_lt hhi, windows_of_lt (by omega), windows_of_le hlo]
  omega

end Windows

end ToyKernel.Pmm
