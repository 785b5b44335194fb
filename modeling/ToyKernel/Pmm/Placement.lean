import Mathlib.Data.Set.BooleanAlgebra
import Mathlib.Order.CompletePartialOrder
import ToyKernel.Pmm.Init
import Mathlib.Data.Set.Disjoint

namespace ToyKernel.Pmm

-- The bytes `setup_memory_bitmap` clears and the later calls write.
def bitmapBytes (p : Pmm) : Set Nat := {a | p.bitMap ≤ a ∧ a < p.bitMap + 4 * p.totalBlock}

end ToyKernel.Pmm

namespace ToyKernel.KernelImage

def sectionBytes (image : KernelImage) : Set Nat :=
  {a | image.kernelStart ≤ a ∧ a < image.kernelEnd}

def stackBytes (image : KernelImage) : Set Nat := {a | image.stackBottom ≤ a ∧ a < image.stackTop}

end ToyKernel.KernelImage

namespace ToyKernel.Pmm

-- The bitmap of `p` shares no byte with the kernel that runs on it.
def BitmapApart (image : KernelImage) (p : Pmm) : Prop :=
  Disjoint p.bitmapBytes image.sectionBytes ∧ Disjoint p.bitmapBytes image.stackBytes

theorem initMemory_bitMap (image : KernelImage) (ram : Nat → BitVec 32) (params : BootParams) :
    (initMemory image ram params).bitMap = bitMapAddr image :=
  (initMemory_geometry image ram params).bitMap

-- The page after `__kernel__end` begins inside the boot stack, which the linker script
-- places right there.
theorem bitMapAddr_mem_stack (image : KernelImage) :
    image.kernelEnd ≤ bitMapAddr image ∧ bitMapAddr image ∈ image.stackBytes := by
  have hstack := image.stack_lt
  have hu : u32 (image.kernelEnd + 0xFFF) = image.kernelEnd + 0xFFF := u32_of_lt (by omega)
  unfold bitMapAddr pageStart
  rw [hu]
  refine ⟨by omega, ?_, ?_⟩
  · unfold KernelImage.stackBottom
    omega
  · unfold KernelImage.stackTop KernelImage.stackBottom
    omega

-- The bitmap avoids the running kernel exactly when there is no bitmap.
theorem bitmapApart_iff (image : KernelImage) (ram : Nat → BitVec 32) (params : BootParams) :
    BitmapApart image (initMemory image ram params) ↔
      (initMemory image ram params).totalPages = 0 := by
  obtain ⟨hend, hstack⟩ := bitMapAddr_mem_stack image
  have hbit := initMemory_bitMap image ram params
  constructor
  · rintro ⟨_, hapart⟩
    by_contra hpages
    have hblock : 0 < (initMemory image ram params).totalBlock := by
      unfold totalBlock
      omega
    have hmem : bitMapAddr image ∈ (initMemory image ram params).bitmapBytes := by
      constructor <;> rw [hbit]
      omega
    exact Set.disjoint_left.mp hapart hmem hstack
  · intro hpages
    have hempty : ∀ a, a ∉ (initMemory image ram params).bitmapBytes := by
      rintro a ⟨hlo, hhi⟩
      unfold totalBlock at hhi
      omega
    exact ⟨Set.disjoint_left.mpr fun a ha => absurd ha (hempty a),
      Set.disjoint_left.mpr fun a ha => absurd ha (hempty a)⟩

-- 512 bytes of bitmap from 0xC0010000 on, in a stack that begins at the same address.
theorem not_bitmapApart_sample : ¬BitmapApart sampleImage samplePmm := by
  rintro ⟨_, hapart⟩
  have hbitmap : 0xC0010000 ∈ samplePmm.bitmapBytes := by
    constructor <;> decide +kernel
  have hstack : 0xC0010000 ∈ sampleImage.stackBytes := by
    constructor <;> decide +kernel
  exact Set.disjoint_left.mp hapart hbitmap hstack

end ToyKernel.Pmm
