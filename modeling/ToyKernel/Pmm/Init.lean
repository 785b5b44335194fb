import ToyKernel.Pmm.Search

namespace ToyKernel.Pmm

open Library FirstFit

-- The PMM between `setup_memory_bitmap` and the first reservation.
def afterSetup (image : KernelImage) (ram : Nat → BitVec 32) (params : BootParams) : Pmm :=
  setupMemoryBitmap ram (getMemoryInfo params.regions (setKernelAddr image boot))

def bitMapAddr (image : KernelImage) : Nat := pageStart (u32 (image.kernelEnd + 0xFFF))

-- The reservations INIT_MEMORY makes, in order, as base and size.
def reservations (image : KernelImage) (params : BootParams) : List (Nat × Nat) :=
  [(0x0, 0x500), (0x7c00, 512), (image.kernelStart, image.size),
    (bitMapAddr image, (getMemoryInfo params.regions boot).bitmapSizeB)] ++
  params.modules.map fun m => (m.data.toNat, m.size.toNat)

def reserveAll (p : Pmm) (requests : List (Nat × Nat)) : Pmm :=
  requests.foldl (fun p r => p.reserveMemoryBlock r.1 r.2) p

theorem reserveModules_eq_reserveAll (p : Pmm) (modules : List BootModule) :
    p.reserveModules modules = p.reserveAll (modules.map fun m => (m.data.toNat, m.size.toNat)) := by
  rw [reserveAll, List.foldl_map]
  rfl

theorem initMemory_eq_reserveAll (image : KernelImage) (ram : Nat → BitVec 32)
    (params : BootParams) :
    initMemory image ram params =
      (afterSetup image ram params).reserveAll (reservations image params) := by
  unfold initMemory
  rw [reserveModules_eq_reserveAll, reservations, reserveAll, reserveAll, List.foldl_append]
  congr 1

theorem sameGeometry_reserveAll (p : Pmm) (requests : List (Nat × Nat)) :
    SameGeometry p (p.reserveAll requests) := by
  induction requests generalizing p with
  | nil => exact SameGeometry.refl p
  | cons r requests ih => exact (sameGeometry_reserveMemoryBlock p r.1 r.2).trans (ih _)

theorem testBit_foldl_reserveFrame_of_testBit (p : Pmm) (start : Nat) (rounds : List Nat) (bit : Nat)
    (h : p.testBit bit = true) :
    (rounds.foldl (fun p i => p.reserveFrame (u32 (start + i))) p).testBit bit = true := by
  induction rounds generalizing p with
  | nil => exact h
  | cons i rounds ih =>
      apply ih
      rw [testBit_reserveFrame, h, Bool.or_true]

-- Reservations only ever set bits.
theorem testBit_reserveMemoryBlock_of_testBit (p : Pmm) (base size bit : Nat)
    (h : p.testBit bit = true) : (p.reserveMemoryBlock base size).testBit bit = true := by
  unfold reserveMemoryBlock
  split
  · exact h
  · exact testBit_foldl_reserveFrame_of_testBit p _ _ bit h

theorem testBit_reserveAll_of_testBit (p : Pmm) (requests : List (Nat × Nat)) (bit : Nat)
    (h : p.testBit bit = true) : (p.reserveAll requests).testBit bit = true := by
  induction requests generalizing p with
  | nil => exact h
  | cons r requests ih => exact ih _ (testBit_reserveMemoryBlock_of_testBit p r.1 r.2 bit h)

theorem afterSetup_totalUsedBlocks (image : KernelImage) (ram : Nat → BitVec 32)
    (params : BootParams) : (afterSetup image ram params).totalUsedBlocks = 0 := rfl

theorem initMemory_geometry (image : KernelImage) (ram : Nat → BitVec 32) (params : BootParams) :
    SameGeometry (afterSetup image ram params) (initMemory image ram params) := by
  rw [initMemory_eq_reserveAll]
  exact sameGeometry_reserveAll _ _

-- The first reservation finds the guard open as soon as there is any memory, so the
-- address 0, which the allocators return for failure, is never handed out.
theorem initMemory_testBit_zero (image : KernelImage) (ram : Nat → BitVec 32)
    (params : BootParams) (hmem : 0 < (initMemory image ram params).totalBlock) :
    (initMemory image ram params).testBit 0 = true := by
  rw [(initMemory_geometry image ram params).totalBlock_eq] at hmem
  have hpages : pagesFor 0x500 = 1 := by decide
  rw [initMemory_eq_reserveAll]
  apply testBit_reserveAll_of_testBit ((afterSetup image ram params).reserveMemoryBlock 0x0 0x500)
  rw [testBit_reserveMemoryBlock _ _ _ _ (by omega)]
  · simp [hpages]
  · simpa [afterSetup_totalUsedBlocks] using hmem

section Sample

-- A 64 KiB kernel on a machine with 16 MiB of usable memory and no module.
def sampleImage : KernelImage where
  kernelEnd := 0xC0010000
  start_le := by decide
  stack_lt := by decide

def sampleRegion : MemoryRegion where
  beginLow := 0
  beginHigh := 0
  lengthLow := 0x1000000
  lengthHigh := 0
  type := 1
  acpi := 1

def sampleParams : BootParams where
  regions := [sampleRegion]
  modules := []
  modules_le := by decide

def samplePmm : Pmm := initMemory sampleImage (fun _ => 0) sampleParams

end Sample

end ToyKernel.Pmm
