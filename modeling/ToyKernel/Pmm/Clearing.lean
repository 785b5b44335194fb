import ToyKernel.Library.ByteMemory
import ToyKernel.Pmm.Search

namespace ToyKernel.Pmm

open Library ByteMemory FirstFit

section Memset

-- The loop of memset up to `i`.
def memsetLoop (m : Memory) (ptr : Nat) (value : BitVec 8) : (i : Nat) → Memory
  | 0 => m
  | i + 1 => store8 (memsetLoop m ptr value i) (u32 (ptr + i)) value

-- The kernel and stage 2 have the same PMM, each linked with its own memset.
inductive Copy where
  | kernel
  | stage2
  deriving DecidableEq

-- What is left of a length in the parameter of memset: kernel/lib/string.c takes a `size_t`,
-- stage2/string.c a `uint16_t`.
def Copy.lengthOf : Copy → Nat → Nat
  | kernel, size => u32 size
  | stage2, num => num % 65536

def Copy.memset (c : Copy) (m : Memory) (ptr : Nat) (value : BitVec 8) (size : Nat) : Memory :=
  memsetLoop m ptr value (c.lengthOf size)

theorem memsetLoop_outside (m : Memory) (ptr : Nat) (value : BitVec 8) {count a : Nat}
    (h : ∀ i < count, u32 (ptr + i) ≠ a) : memsetLoop m ptr value count a = m a := by
  induction count with
  | zero => rfl
  | succ count ih =>
      rw [memsetLoop, store8_of_ne (h count (by omega)).symm, ih fun i hi => h i (by omega)]

theorem memsetLoop_inside (m : Memory) (ptr : Nat) (value : BitVec 8) {count i : Nat}
    (hi : i < count) : memsetLoop m ptr value count (u32 (ptr + i)) = value := by
  induction count with
  | zero => omega
  | succ count ih =>
      rw [memsetLoop]
      by_cases he : u32 (ptr + i) = u32 (ptr + count)
      · rw [he, store8_self]
      · rw [store8_of_ne he]
        have hne : i ≠ count := fun hc => he (by rw [hc])
        exact ih (by omega)

@[simp] theorem lengthOf_kernel (size : Nat) : Copy.kernel.lengthOf size = size % 4294967296 := rfl

@[simp] theorem lengthOf_stage2 (num : Nat) : Copy.stage2.lengthOf num = num % 65536 := rfl

theorem lengthOf_le (c : Copy) (size : Nat) : c.lengthOf size ≤ size := by
  cases c
  · exact Nat.mod_le _ _
  · exact Nat.mod_le _ _

end Memset

section InMemory

-- The PMM with the bitmap that stands in memory at `BIT_MAP`.
def inMemory (p : Pmm) (m : Memory) : Pmm :=
  { p with words := fun i => load32 m (u32 (p.bitMap + 4 * i)) }

-- `set_bit` on that bitmap.
def setBitIn (p : Pmm) (m : Memory) (bit : Nat) : Memory :=
  store32 m (u32 (p.bitMap + 4 * (bit / 32)))
    (load32 m (u32 (p.bitMap + 4 * (bit / 32))) ||| BitArray.mask bit)

-- The marking loop of `allocate_block` up to `i`.
def markFrames (p : Pmm) (m : Memory) (frame : Nat) : (i : Nat) → Memory
  | 0 => m
  | i + 1 => p.setBitIn (p.markFrames m frame i) (u32 (frame + i))

def setupMemoryBitmapIn (c : Copy) (p : Pmm) (m : Memory) : Pmm × Memory :=
  let bitMapStart := pageStart (u32 (p.kernelEndAddr + 0xFFF))
  ({ p with bitMap := bitMapStart }, c.memset m bitMapStart 0 p.bitmapSizeB)

-- The block is cleared after its frames have been marked.
def allocateBlockIn (c : Copy) (p : Pmm) (m : Memory) (size : Nat) : Nat × Pmm × Memory :=
  match (p.inMemory m).getFreeFrameBySize size with
  | none => (0, p, m)
  | some frame =>
      let addr := u32 (frame * PER_BLOCK_SIZE)
      (addr, { p with totalUsedBlocks := p.totalUsedBlocks + BitVec.ofNat 32 size },
        c.memset (p.markFrames m frame size) addr 0 (u32 (size * PER_BLOCK_SIZE)))

-- A bit of the bitmap is a bit of the byte it stands in.
theorem testBit_inMemory (p : Pmm) (m : Memory) (haligned : p.bitMap % 4 = 0) (bit : Nat) :
    (p.inMemory m).testBit bit = (m (u32 (p.bitMap + bit / 8))).getLsbD (bit % 8) := by
  have haddr : u32 (p.bitMap + 4 * (bit / 32)) + bit % 32 / 8 = u32 (p.bitMap + bit / 8) := by
    unfold u32
    omega
  unfold testBit
  rw [BitArray.test_eq_getLsbD (by omega)]
  change (load32 m (u32 (p.bitMap + 4 * (bit / 32)))).getLsbD (bit % 32) = _
  rw [getLsbD_load32 _ _ _ (by omega), haddr, show bit % 32 % 8 = bit % 8 by omega]

theorem testBit_congr {p q : Pmm} {bit : Nat} (h : p.words (bit / 32) = q.words (bit / 32)) :
    p.testBit bit = q.testBit bit := by
  unfold testBit BitArray.test
  rw [h]

-- On the bits a 32-bit index names, setting in memory is setting in the array of words.
theorem testBit_setBitIn (p : Pmm) (m : Memory) {bit other : Nat} (hbit : bit < 4294967296)
    (hother : other < 4294967296) :
    (p.inMemory (p.setBitIn m bit)).testBit other = ((p.inMemory m).setBit bit).testBit other := by
  apply testBit_congr
  change load32 (p.setBitIn m bit) (u32 (p.bitMap + 4 * (other / 32))) =
    Function.update (p.inMemory m).words (bit / 32) _ (other / 32)
  unfold setBitIn
  by_cases he : other / 32 = bit / 32
  · rw [he, load32_store32_self, Function.update_self]
    rfl
  · rw [Function.update_of_ne he, load32_store32_of_apart]
    · rfl
    · unfold u32
      omega

theorem testBit_markFrames (p : Pmm) (m : Memory) (frame count : Nat) {bit : Nat}
    (hbit : bit < 4294967296) :
    (p.inMemory (p.markFrames m frame count)).testBit bit =
      ((p.inMemory m).takeFrames frame count).testBit bit := by
  induction count with
  | zero => rfl
  | succ count ih =>
      rw [markFrames, p.testBit_setBitIn _ (u32_lt _) hbit, takeFrames_succ,
        testBit_takeFrame, testBit_setBit, ih]

end InMemory

section Setup

variable (c : Copy) (p : Pmm) (m : Memory)

-- Every bit below TOTAL_PAGES is zero.
def SetupClears : Prop :=
  ∀ bit < p.totalPages,
    ((setupMemoryBitmapIn c p m).1.inMemory (setupMemoryBitmapIn c p m).2).testBit bit = false

-- BITMAP_SIZEB survives as a length, or the rest of the bitmap's place was zero before.
def SetupOk : Prop :=
  c.lengthOf p.bitmapSizeB = p.bitmapSizeB ∨
    ∀ bit < p.totalPages, 8 * c.lengthOf p.bitmapSizeB ≤ bit →
      ((setupMemoryBitmapIn c p m).1.inMemory m).testBit bit = false

theorem testBit_setupMemoryBitmapIn {bit : Nat} (hbit : bit < 4294967296) :
    ((setupMemoryBitmapIn c p m).1.inMemory (setupMemoryBitmapIn c p m).2).testBit bit =
      (decide (8 * c.lengthOf p.bitmapSizeB ≤ bit) &&
        ((setupMemoryBitmapIn c p m).1.inMemory m).testBit bit) := by
  have haligned : (setupMemoryBitmapIn c p m).1.bitMap % 4 = 0 := by
    change u32 (p.kernelEndAddr + 0xFFF) / 4096 * 4096 % 4 = 0
    omega
  rw [testBit_inMemory _ _ haligned, testBit_inMemory _ _ haligned]
  change (memsetLoop m (setupMemoryBitmapIn c p m).1.bitMap 0 _ _).getLsbD _ = _
  by_cases hin : 8 * c.lengthOf p.bitmapSizeB ≤ bit
  · have hlen := lengthOf_le c p.bitmapSizeB
    have hsize : p.bitmapSizeB ≤ 131072 := by
      have hpages := p.totalPages_lt
      unfold bitmapSizeB BYTE
      omega
    rw [memsetLoop_outside _ _ _ fun i hi => by unfold u32; omega]
    simp [hin]
  · rw [memsetLoop_inside _ _ _ (by omega)]
    simp [hin]

-- The kernel's copy does what the model of INIT_MEMORY takes for granted.
theorem testBit_setupMemoryBitmapIn_kernel {bit : Nat} (hbit : bit < 4294967296) :
    ((setupMemoryBitmapIn .kernel p m).1.inMemory (setupMemoryBitmapIn .kernel p m).2).testBit bit =
      (p.setupMemoryBitmap ((setupMemoryBitmapIn .kernel p m).1.inMemory m).words).testBit bit := by
  have hlen : Copy.kernel.lengthOf p.bitmapSizeB = p.bitmapSizeB := by
    have hpages := p.totalPages_lt
    apply u32_of_lt
    unfold bitmapSizeB BYTE
    omega
  rw [testBit_setupMemoryBitmapIn _ _ _ hbit, testBit_setupMemoryBitmap, hlen]
  rfl

theorem setupClears_iff : SetupClears c p m ↔ SetupOk c p m := by
  have hpages := p.totalPages_lt
  constructor
  · intro h
    refine Or.inr fun bit hbit hout => ?_
    have hzero := h bit hbit
    rwa [testBit_setupMemoryBitmapIn _ _ _ (by omega), decide_eq_true hout, Bool.true_and] at hzero
  · rintro hok bit hbit
    rw [testBit_setupMemoryBitmapIn _ _ _ (by omega)]
    by_cases hin : 8 * c.lengthOf p.bitmapSizeB ≤ bit
    · rcases hok with hlen | hrest
      · have hmap := p.totalPages_le_bitmap
        omega
      · rw [hrest bit hbit hin, Bool.and_false]
    · rw [decide_eq_false hin, Bool.false_and]

end Setup

section Allocation

variable (c : Copy) (p : Pmm) (m : Memory) (size : Nat)

-- A block that is handed out holds zeros from its first byte to its last.
def AllocationClears : Prop :=
  ∀ frame, (p.inMemory m).getFreeFrameBySize size = some frame →
    ∀ i < size * PER_BLOCK_SIZE,
      (allocateBlockIn c p m size).2.2 (u32 (u32 (frame * PER_BLOCK_SIZE) + i)) = 0

-- What memset is given survives as a length, or the bytes of the block that it does not
-- come to hold zeros when the frames have been marked.
def AllocationOk : Prop :=
  c.lengthOf (u32 (size * PER_BLOCK_SIZE)) = size * PER_BLOCK_SIZE ∨
    ∀ frame, (p.inMemory m).getFreeFrameBySize size = some frame →
      ∀ i < size * PER_BLOCK_SIZE,
        (∀ j < c.lengthOf (u32 (size * PER_BLOCK_SIZE)),
          u32 (u32 (frame * PER_BLOCK_SIZE) + j) ≠ u32 (u32 (frame * PER_BLOCK_SIZE) + i)) →
        p.markFrames m frame size (u32 (u32 (frame * PER_BLOCK_SIZE) + i)) = 0

theorem allocateBlockIn_memory {frame : Nat}
    (hfound : (p.inMemory m).getFreeFrameBySize size = some frame) :
    (allocateBlockIn c p m size).2.2 =
      memsetLoop (p.markFrames m frame size) (u32 (frame * PER_BLOCK_SIZE)) 0
        (c.lengthOf (u32 (size * PER_BLOCK_SIZE))) := by
  unfold allocateBlockIn
  rw [hfound]
  rfl

theorem allocationClears_iff : AllocationClears c p m size ↔ AllocationOk c p m size := by
  constructor
  · intro h
    refine Or.inr fun frame hfound i hi hout => ?_
    have hzero := h frame hfound i hi
    rwa [allocateBlockIn_memory c p m size hfound, memsetLoop_outside _ _ _ hout] at hzero
  · intro hok frame hfound i hi
    rw [allocateBlockIn_memory c p m size hfound]
    by_cases hin : ∃ j < c.lengthOf (u32 (size * PER_BLOCK_SIZE)),
        u32 (u32 (frame * PER_BLOCK_SIZE) + j) = u32 (u32 (frame * PER_BLOCK_SIZE) + i)
    · obtain ⟨j, hj, he⟩ := hin
      rw [← he, memsetLoop_inside _ _ _ hj]
    · have hout : ∀ j < c.lengthOf (u32 (size * PER_BLOCK_SIZE)),
          u32 (u32 (frame * PER_BLOCK_SIZE) + j) ≠ u32 (u32 (frame * PER_BLOCK_SIZE) + i) :=
        fun j hj he => hin ⟨j, hj, he⟩
      rw [memsetLoop_outside _ _ _ hout]
      rcases hok with hlen | hrest
      · exact absurd rfl (hout i (by omega))
      · exact hrest frame hfound i hi hout

end Allocation

theorem clears_iff (c : Copy) (p : Pmm) (m : Memory) :
    (SetupClears c p m ↔ SetupOk c p m) ∧
      ∀ size, AllocationClears c p m size ↔ AllocationOk c p m size :=
  ⟨setupClears_iff c p m, allocationClears_iff c p m⟩

-- The kernel's lengths fit below 2^20 frames, those of stage 2 below 16 frames and below
-- 2 GiB of memory.
theorem kernel_clears (p : Pmm) (m : Memory) :
    SetupClears .kernel p m ∧ ∀ size < 1048576, AllocationClears .kernel p m size := by
  refine ⟨(setupClears_iff _ _ _).mpr (Or.inl ?_), fun size hsize =>
    (allocationClears_iff _ _ _ _).mpr (Or.inl ?_)⟩
  · have hpages := p.totalPages_lt
    apply u32_of_lt
    unfold bitmapSizeB BYTE
    omega
  · rw [lengthOf_kernel]
    unfold u32 PER_BLOCK_SIZE
    omega

theorem stage2_clears (p : Pmm) (m : Memory) :
    (p.totalPages < 524281 → SetupClears .stage2 p m) ∧
      ∀ size < 16, AllocationClears .stage2 p m size := by
  refine ⟨fun hpages => (setupClears_iff _ _ _).mpr (Or.inl ?_), fun size hsize =>
    (allocationClears_iff _ _ _ _).mpr (Or.inl ?_)⟩
  · rw [lengthOf_stage2]
    unfold bitmapSizeB BYTE
    omega
  · rw [lengthOf_stage2]
    unfold u32 PER_BLOCK_SIZE
    omega

section Sample

-- 2 GiB of memory: BITMAP_SIZEB is 65536.
def largePmm : Pmm := { boot with totalMemory := 0x80000000, kernelEndAddr := 0x8000 }

-- 16 MiB of memory, frame 0 in use, and a byte that is not zero in frame 2.
def smallPmm : Pmm := { boot with totalMemory := 0x1000000, bitMap := 0x100000 }

def usedMemory : Memory := fun a => if a = 0x100000 then 1 else if a = 0x2000 then 1 else 0

theorem smallPmm_found : (smallPmm.inMemory usedMemory).getFreeFrameBySize 16 = some 1 := by
  decide +kernel

theorem not_clears_stage2 :
    ¬SetupClears .stage2 largePmm (fun _ => 0xFF) ∧
      ¬AllocationClears .stage2 smallPmm usedMemory 16 := by
  refine ⟨fun h => ?_, fun h => ?_⟩
  · exact absurd (h 0 (by decide)) (by decide)
  · have hzero := h 1 smallPmm_found 0x1000 (by decide)
    rw [allocateBlockIn_memory _ _ _ _ smallPmm_found] at hzero
    exact absurd hzero (by decide +kernel)

end Sample

end ToyKernel.Pmm
