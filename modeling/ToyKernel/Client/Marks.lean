import ToyKernel.Client.Steps

namespace ToyKernel

open Library

namespace Kernel

variable {k k' : Kernel}

section Frames

theorem allocate_pmm {a : Pmm.Allocation} {r : Nat × Kernel} (h : k.allocate a = .ok r) :
    r.2.pmm = (k.pmm.allocate a).2 := by
  cases a with
  | chunk =>
      cases h
      rfl
  | block size => exact allocateBlock_pmm h
  | byte size =>
      change k.allocateByte size = .ok r at h
      change _ = (k.pmm.allocateByte size).2
      unfold Kernel.allocateByte at h
      cases hfound : k.pmm.getFreeFrameBySize (Pmm.pagesFor size) with
      | none =>
          rw [hfound] at h
          cases h
          rw [Pmm.allocateByte, hfound]
      | some frame =>
          rw [hfound] at h
          obtain ⟨mid, hzero, hdone⟩ := exists_of_bind h
          cases hdone
          rw [(access_ok hzero).2]

end Frames

end Kernel

namespace Pmm

theorem testBit_allocateBlock {p : Pmm} {size f : Nat} (h : p.testBit f = true) :
    (p.allocateBlock size).2.testBit f = true := by
  unfold allocateBlock
  split
  · exact h
  · exact testBit_takeFrames_of_testBit p _ _ f h

theorem testBit_allocate {p : Pmm} {a : Allocation} {f : Nat} (h : p.testBit f = true) :
    (p.allocate a).2.testBit f = true := by
  rw [allocate_eq_allocateBlock]
  exact testBit_allocateBlock h

end Pmm

namespace Kernel

variable {k : Kernel} {α : Type}

-- No client gives a frame back.
theorem run_marks {c : Client α} {r : α × Kernel} (h : k.run c = .ok r) {f : Nat}
    (hm : k.pmm.testBit f = true) : r.2.pmm.testBit f = true := by
  induction c generalizing k with
  | done a =>
      cases h
      exact hm
  | read address count next ih =>
      obtain ⟨value, -, hrest⟩ := exists_of_bind h
      exact ih value hrest hm
  | copy phys source count next ih =>
      obtain ⟨mid, hcopy, hrest⟩ := exists_of_bind h
      obtain ⟨k₁, hsource, hwrite⟩ := exists_of_bind hcopy
      obtain ⟨-, rfl⟩ := access_ok hsource
      obtain ⟨-, rfl⟩ := access_ok hwrite
      exact ih () hrest hm
  | allocate a next ih =>
      obtain ⟨r', halloc, hrest⟩ := exists_of_bind h
      refine ih r'.1 hrest ?_
      rw [allocate_pmm halloc]
      exact Pmm.testBit_allocate hm
  | getPage virt next ih =>
      obtain ⟨page, -, hrest⟩ := exists_of_bind h
      exact ih page hrest hm
  | mapPage phys virt next ih =>
      obtain ⟨r', hmap, hrest⟩ := exists_of_bind h
      refine ih r'.1 hrest ?_
      rcases (mapPage_result hmap).1 with hpmm | hpmm
      · rwa [hpmm]
      · rw [hpmm]
        exact Pmm.testBit_allocateBlock hm
  | mapPageUser phys virt next ih =>
      obtain ⟨r', hmap, hrest⟩ := exists_of_bind h
      refine ih r'.1 hrest ?_
      rcases (mapPageUser_result hmap).1 with hpmm | hpmm
      · rwa [hpmm]
      · rw [hpmm]
        exact Pmm.testBit_allocateBlock hm

end Kernel

end ToyKernel
