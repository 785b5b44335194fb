import ToyKernel.Client.Marks
import ToyKernel.Elf.Protected

namespace ToyKernel.Elf

open Library ByteMemory Client

section Image

variable (k : Kernel) (data : Nat)

end Image

section Runs

variable {k k' : Kernel} {data : Nat}

-- Without a frame nothing happens to a page.
theorem loadPage_none {phdr vaddr filesz page : Nat} {r : Bool × Kernel}
    (hnone : k.pmm.getFreeFrameBySize 1 = none)
    (h : k.run (loadPage data phdr vaddr filesz page) = .ok r) : r = (false, k) := by
  obtain ⟨⟨phys, mid⟩, halloc, hrest⟩ := exists_of_run_bind h
  have hrun := Kernel.allocateBlock_none hnone
  obtain ⟨rfl, rfl⟩ := Prod.mk.inj (Except.ok.inj (hrun.symm.trans (run_allocate halloc)))
  cases hrest
  rfl

section Segments

variable {phdr vaddr filesz rounds i loaded : Nat} {pages : List Nat}

end Segments

section Load

variable {result : Result}

end Load

end Runs

section Sample

-- The image stays where it is when further frames are marked.
theorem Staged.marking {k : Kernel} {data size : Nat} {file : Nat → BitVec 8} {p : Pmm}
    (h : Staged k data file size) (hmarks : ∀ f, k.pmm.testBit f = true → p.testBit f = true) :
    Staged { k with pmm := p } data file size :=
  ⟨h.fits, h.bytes, fun i hi => ⟨hmarks _ (h.owned i hi).1, (h.owned i hi).2⟩⟩

end Sample

end ToyKernel.Elf
