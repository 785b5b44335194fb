import ToyKernel.Heap
import ToyKernel.Vmm.Mapping

namespace ToyKernel

open Library ByteMemory

namespace Kernel

variable {k k' : Kernel}

-- TOTAL_USED_BLOCKS
def used (k : Kernel) : Nat := k.pmm.totalUsedBlocks.toNat

section Used

theorem used_of_pmm (h : k'.pmm = k.pmm) : k'.used = k.used := by
  unfold used
  rw [h]

-- A block is counted frame by frame, and only while the guard is open.
theorem used_block (p : Pmm) {size : Nat} (hsize : size ≤ 1048576) :
    (p.allocateBlock size).1 = 0 ∧ (p.allocateBlock size).2 = p ∨
      p.totalUsedBlocks.toNat < 32768 ∧
        (p.allocateBlock size).2.totalUsedBlocks.toNat = p.totalUsedBlocks.toNat + size := by
  have hblock := p.totalBlock_le
  rcases p.allocateBlock_cases size with ⟨_, he⟩ | ⟨frame, _, _, hopen, _, he⟩
  · left
    rw [he]
    exact ⟨rfl, rfl⟩
  · right
    rw [he]
    simp only [Pmm.totalUsedBlocks_takeFrames, BitVec.toNat_add, BitVec.toNat_ofNat]
    omega

theorem used_allocateBlock {size : Nat} {r : Nat × Kernel} (hsize : size ≤ 1048576)
    (h : k.allocateBlock size = .ok r) :
    r.1 = 0 ∧ r.2.used = k.used ∨ k.used < 32768 ∧ r.2.used = k.used + size := by
  have hused := used_block k.pmm hsize
  rw [allocateBlock_result h] at hused
  rcases hused with ⟨hzero, hsame⟩ | htaken
  · exact Or.inl ⟨hzero, used_of_pmm hsame⟩
  · exact Or.inr htaken

theorem used_of_taken (h : k'.pmm = k.pmm ∨ k'.pmm = (k.pmm.allocateBlock 1).2) :
    k.used ≤ k'.used ∧ k'.used ≤ max k.used 32768 := by
  have hused := used_block k.pmm (show 1 ≤ 1048576 by omega)
  unfold used
  rcases h with hpmm | hpmm <;> rw [hpmm]
  · omega
  · rcases hused with ⟨_, hsame⟩ | htaken
    · rw [hsame]
      omega
    · omega

theorem used_mapPage {phys virt : Nat} {r : Bool × Kernel} (h : k.mapPage phys virt = .ok r) :
    k.used ≤ r.2.used ∧ r.2.used ≤ max k.used 32768 :=
  used_of_taken (mapPage_result h).1

end Used

end Kernel

end ToyKernel
