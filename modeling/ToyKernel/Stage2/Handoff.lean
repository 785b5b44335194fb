import ToyKernel.Fat.Agree
import ToyKernel.Stage2.Load
import ToyKernel.Stage2.Unmapping

namespace ToyKernel.Stage2

open Library ByteMemory Fat

section Reservations

variable {p : Pmm} {bit : Nat}

end Reservations

section Frames

variable {kernelEnd : Nat} {ram : Nat → BitVec 32} {regions : List MemoryRegion}

def reservations (kernelEnd : Nat) (regions : List MemoryRegion) : List (Nat × Nat) :=
  [(0x0, 0x500), (0x7c00, 512), (IMAGE_START, kernelEnd - IMAGE_START),
    (pageStart (u32 (kernelEnd + 0xFFF)), (Pmm.getMemoryInfo regions Pmm.boot).bitmapSizeB)]

end Frames

section Loading

variable {content : Nat → Sector} {rounds : Nat} {path : List UInt8} {data : List UInt8} {l : Loader}

-- FAT_Open finds a plain file whose clusters hold `data`.
def Finds (content : Nat → Sector) (rounds : Nat) (path : List UInt8) (s : Fat.State)
    (data : List UInt8) : Prop :=
  ∃ slot s' chain, s.openFile rounds path = .ok (some (.file slot), s') ∧
    (s'.openedFiles slot).isDirectory = false ∧
    ((s'.openedFiles slot).size = 0 ∨ Chain s.volume (s'.openedFiles slot).firstCluster chain) ∧
    (s'.openedFiles slot).size ≤ 512 * (s.volume.bootSector.sectorsPerCluster.toNat * chain.length) ∧
    data = (sectorBytes content (chainSectors s.volume chain)).take (s'.openedFiles slot).size

end Loading

section Boot

variable {content : Nat → Sector} {rounds kernelEnd : Nat} {ram : Nat → BitVec 32}
  {regions : List MemoryRegion} {l : Loader} {kernel userland : List UInt8}

-- The byte that is read at a virtual address
def peek (k : Kernel) (v : Nat) : Option (BitVec 8) := (k.translate v).map k.memory

-- The kernel is entered with the tables of INITIALIZE_VMEMORY without the pages from 1 MiB on. They
-- are behind the first four pages and before the files.
structure HandedOver (memory : Memory) (directory low : Nat) (k : Kernel) : Prop where
  unmapped : ∃ k₁ high, Entered k₁ directory low high ∧ Unmapped directory low k₁ k 768
  directory : 4 ≤ directory ∧ directory < 15
  low : 4 ≤ low ∧ low < 15
  memory : ∀ b, 0xF000 ≤ b → k.memory b = memory b

theorem HandedOver.handed {memory : Memory} {directory low : Nat} {k : Kernel}
    (h : HandedOver memory directory low k) : Handed k := by
  obtain ⟨k₁, high, hentered, hunmapped⟩ := h.unmapped
  exact hunmapped.handed hentered

end Boot

section Sample

end Sample

end ToyKernel.Stage2
