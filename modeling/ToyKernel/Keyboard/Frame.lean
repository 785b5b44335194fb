import ToyKernel.Keyboard
import ToyKernel.Vmm.Identity

namespace ToyKernel

open Library ByteMemory

namespace Keyboard

variable {rodata : Nat → BitVec 8}

-- The kernel with the frames that the PMM has handed out since INIT_MEMORY.
structure Handed where
  kernel : Kernel
  given : Set Nat

def Handed.exec (s : Handed) (a : Pmm.Allocation) : Except Fault Handed := do
  let (_, kernel) ← s.kernel.allocate a
  return { kernel, given := s.given ∪ s.kernel.pmm.physicalFrames a.frames }

-- The frames of the three allocations of INITIALIZE_VMEMORY, for the directory and two tables
def setupFrames (p : Pmm) : Set Nat :=
  p.physicalFrames 1 ∪ (p.allocated (.block 1)).physicalFrames 1 ∪
    ((p.allocated (.block 1)).allocated (.block 1)).physicalFrames 1

-- What INITIALIZE_VMEMORY leaves
def Handed.start (booted : Kernel) : Handed where
  kernel := booted.initialized
  given := setupFrames booted.pmm

section Sample

end Sample

end Keyboard

end ToyKernel
