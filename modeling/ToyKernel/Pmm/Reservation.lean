import ToyKernel.Pmm.Request
import Mathlib.Data.Set.Basic

namespace ToyKernel.Pmm

open Library FirstFit

-- The number of frames a 32-bit physical address can name.
def PHYSICAL_FRAMES : Nat := 1048576

-- sizeof(BootParams)
def BOOT_PARAMS_SIZE : Nat := 336

-- kernel/mm/memory.h: VIRT_TO_PHYS
def virtToPhys (addr : Nat) : Nat := addr - KERNEL_VIRT_BASE + KERNEL_ADDRESS

-- The frames that share a byte with `[base, base + size)`.
def framesOf (base size : Nat) : Set Nat :=
  {f | ∃ a, base ≤ a ∧ a < base + size ∧ a / PER_BLOCK_SIZE = f}

-- What is in use when INIT_MEMORY returns: the kernel where it was loaded, the bitmap
-- behind it, the modules, and the structure INIT_MEMORY was called with.
def inUse (image : KernelImage) (params : BootParams) (bootParams : Nat) : Set Nat :=
  framesOf KERNEL_ADDRESS image.size ∪
    framesOf (virtToPhys (bitMapAddr image)) (4 * (getMemoryInfo params.regions boot).totalBlock) ∪
    {f | ∃ m ∈ params.modules, f ∈ framesOf m.data.toNat m.size.toNat} ∪
    framesOf bootParams BOOT_PARAMS_SIZE

-- The physical frames of the block a call hands out; addresses wrap at 4 GiB.
def physicalFrames (p : Pmm) (size : Nat) : Set Nat :=
  match p.getFreeFrameBySize size with
  | none => ∅
  | some frame => {f | ∃ i < size, (frame + i) % PHYSICAL_FRAMES = f}

def allocated (p : Pmm) (a : Allocation) : Pmm := (p.allocate a).2

-- A call keeps away from the frames of `kept`.
def Avoids (kept : Set Nat) (p : Pmm) (a : Allocation) : Prop :=
  ∀ f ∈ p.physicalFrames a.frames, f ∉ kept

-- First fit passes by a frame when a run of the wanted length ends at or before it,
-- or when no run of that length contains it.
def PassesBy (p : Pmm) (size cell : Nat) : Prop :=
  (∃ start, start + size ≤ cell ∧ Clear p.marked start size) ∨
    ∀ start < 32 * p.totalBlock, start ≤ cell → cell < start + size → ¬Clear p.marked start size

def AvoidsOk (kept : Set Nat) (p : Pmm) (a : Allocation) : Prop :=
  a.frames = 0 ∨ p.totalBlock ≤ p.totalUsedBlocks.toNat ∨
    ∀ cell, cell % PHYSICAL_FRAMES ∈ kept → PassesBy p a.frames cell

theorem passesBy_iff_of_isFirst {p : Pmm} {size frame : Nat}
    (hf : IsFirst p.marked (32 * p.totalBlock) size frame) (cell : Nat) :
    PassesBy p size cell ↔ ¬(frame ≤ cell ∧ cell < frame + size) := by
  rw [hf.covers_iff cell]
  refine ⟨fun h hcover => ?_, fun h => ?_⟩
  · rcases h with ⟨start, hend, hc⟩ | hfree
    · exact hcover.2 start hend hc
    · obtain ⟨hlo, hhi⟩ := (hf.covers_iff cell).mpr hcover
      exact hfree frame hf.start_lt hlo hhi hf.clear
  · by_cases hbefore : ∃ start, start + size ≤ cell ∧ Clear p.marked start size
    · exact Or.inl hbefore
    · refine Or.inr fun start _ hlo hhi hc => h ⟨⟨start, hlo, hhi, hc⟩, fun s hs hcs => ?_⟩
      exact hbefore ⟨s, hs, hcs⟩

theorem avoids_iff (kept : Set Nat) (p : Pmm) (a : Allocation) :
    Avoids kept p a ↔ AvoidsOk kept p a := by
  unfold Avoids AvoidsOk physicalFrames
  cases hs : p.getFreeFrameBySize a.frames with
  | none =>
      refine ⟨fun _ => ?_, fun _ f hf => absurd hf (Set.notMem_empty f)⟩
      rcases (p.getFreeFrameBySize_eq_none_iff a.frames).mp hs with hz | hclosed | hnone
      · exact Or.inl hz
      · exact Or.inr (Or.inl hclosed)
      · exact Or.inr (Or.inr fun cell _ => Or.inr fun start hlt _ _ => hnone start hlt)
  | some frame =>
      obtain ⟨hpos, hopen, hf⟩ := (p.getFreeFrameBySize_eq_some_iff a.frames frame).mp hs
      refine ⟨fun h => Or.inr (Or.inr fun cell hkept => ?_), fun h f hmem hkept => ?_⟩
      · refine (passesBy_iff_of_isFirst hf cell).mpr fun hcover => ?_
        refine h (cell % PHYSICAL_FRAMES) ⟨cell - frame, by omega, ?_⟩ hkept
        rw [Nat.add_sub_of_le hcover.1]
      · obtain ⟨i, hi, rfl⟩ := hmem
        have hpass := (h.resolve_left (by omega)).resolve_left (by omega) _ hkept
        exact (passesBy_iff_of_isFirst hf _).mp hpass ⟨by omega, by omega⟩

-- After INIT_MEMORY a sequence of allocations leaves what is in use alone exactly when,
-- at every call, first fit passes by each of these frames.
theorem allocations_avoid_iff (image : KernelImage) (ram : Nat → BitVec 32) (params : BootParams)
    (bootParams : Nat) (allocations : List Allocation) :
    AllSteps allocated (Avoids (inUse image params bootParams)) (initMemory image ram params)
        allocations ↔
      AllSteps allocated (AvoidsOk (inUse image params bootParams)) (initMemory image ram params)
        allocations :=
  allSteps_congr (fun _ => True) (fun _ _ _ _ => trivial)
    (fun p _ a _ => avoids_iff (inUse image params bootParams) p a) trivial

-- The sample kernel occupies the frames 256 to 271, none of them marked, and the first
-- fit for 249 frames ends on frame 256.
theorem not_allocations_avoid_sample :
    ¬AllSteps allocated (Avoids (inUse sampleImage sampleParams 0x500)) samplePmm [.block 249] := by
  intro h
  have hframe : samplePmm.getFreeFrameBySize 249 = some 8 := by decide +kernel
  refine h.1 256 ?_ ?_
  · unfold physicalFrames
    rw [show (Allocation.block 249).frames = 249 from rfl, hframe]
    exact ⟨248, by omega, by decide⟩
  · exact Or.inl (Or.inl (Or.inl ⟨0x100000, by decide, by decide, by decide⟩))

section Marked

theorem testBit_allocated {p : Pmm} {cell : Nat} (a : Allocation) (h : p.testBit cell = true) :
    (p.allocated a).testBit cell = true := by
  unfold allocated
  rw [allocate_eq_allocateBlock]
  rcases p.allocateBlock_cases a.frames with ⟨_, he⟩ | ⟨frame, _, _, _, _, he⟩ <;> rw [he]
  · exact h
  · exact testBit_takeFrames_of_testBit p frame a.frames cell h

end Marked

end ToyKernel.Pmm
