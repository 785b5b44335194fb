import Mathlib.Algebra.GroupWithZero.Nat
import ToyKernel.Pmm.Bits

namespace ToyKernel.Pmm

-- The length of all type-1 regions, as a number.
def usableLength (regions : List MemoryRegion) : Nat :=
  ((regions.filter fun r => r.type = MEMORY_USABLE).map fun r => (regionLength r).toNat).sum

section Sum

theorem usableLength_append (first second : List MemoryRegion) :
    usableLength (first ++ second) = usableLength first + usableLength second := by
  simp [usableLength]

-- The accumulator keeps the low 32 bits of the sum.
theorem foldl_addRegion_toNat (regions : List MemoryRegion) (total : BitVec 32) :
    (regions.foldl addRegion total).toNat = (total.toNat + usableLength regions) % 4294967296 := by
  induction regions generalizing total with
  | nil => simp [usableLength, Nat.mod_eq_of_lt total.isLt]
  | cons region regions ih =>
      rw [List.foldl_cons, ih]
      by_cases hu : region.type = MEMORY_USABLE
      · have hsum : usableLength (region :: regions) =
            (regionLength region).toNat + usableLength regions := by
          simp [usableLength, hu]
        have hadd : (addRegion total region).toNat =
            (total.toNat + (regionLength region).toNat) % 4294967296 := by
          rw [addRegion, if_pos hu, BitVec.toNat_setWidth, BitVec.toNat_add, BitVec.toNat_setWidth]
          omega
        rw [hsum, hadd]
        omega
      · have hsum : usableLength (region :: regions) = usableLength regions := by
          simp [usableLength, hu]
        rw [hsum, addRegion, if_neg hu]

theorem totalPages_getMemoryInfo (regions : List MemoryRegion) (p : Pmm) :
    (getMemoryInfo regions p).totalPages = usableLength regions % 4294967296 / 4096 := by
  have h := foldl_addRegion_toNat regions 0
  unfold totalPages PER_BLOCK_SIZE getMemoryInfo
  rw [h]
  simp

end Sum

-- The three sizes are none of them smaller in `q`.
structure NoSmaller (p q : Pmm) : Prop where
  totalPages : p.totalPages ≤ q.totalPages
  bitmapSizeB : p.bitmapSizeB ≤ q.bitmapSizeB
  totalBlock : p.totalBlock ≤ q.totalBlock

-- All three are rounded from TOTAL_PAGES.
theorem noSmaller_iff (p q : Pmm) : NoSmaller p q ↔ p.totalPages ≤ q.totalPages := by
  refine ⟨NoSmaller.totalPages, fun h => ⟨h, ?_, ?_⟩⟩
  · unfold bitmapSizeB BYTE
    omega
  · unfold totalBlock
    omega

-- What get_memory_info should compute of a map, also when regions are appended; those of
-- another type count for nothing.
structure MeasuresMemory (p : Pmm) (regions extra : List MemoryRegion) : Prop where
  pages : usableLength regions < 4294967296 →
    (getMemoryInfo regions p).totalPages = usableLength regions / PER_BLOCK_SIZE
  grows : NoSmaller (getMemoryInfo regions p) (getMemoryInfo (regions ++ extra) p)

-- The low words of the two lengths add up to less than 4 GiB, or what is left after the
-- carry ends in the page where the first length ended.
def AddsUp (regions extra : List MemoryRegion) : Prop :=
  let before := usableLength regions % 4294967296
  let more := usableLength extra % 4294967296
  before + more < 4294967296 ∨ (before + more - 4294967296) / PER_BLOCK_SIZE = before / PER_BLOCK_SIZE

theorem totalPages_of_small (p : Pmm) {regions : List MemoryRegion}
    (h : usableLength regions < 4294967296) :
    (getMemoryInfo regions p).totalPages = usableLength regions / PER_BLOCK_SIZE := by
  rw [totalPages_getMemoryInfo, Nat.mod_eq_of_lt h]
  rfl

theorem noSmaller_append_iff (p : Pmm) (regions extra : List MemoryRegion) :
    NoSmaller (getMemoryInfo regions p) (getMemoryInfo (regions ++ extra) p) ↔
      AddsUp regions extra := by
  rw [noSmaller_iff, totalPages_getMemoryInfo, totalPages_getMemoryInfo, usableLength_append]
  unfold AddsUp PER_BLOCK_SIZE
  -- Past 4 GiB the sum of the low words falls back by exactly 4 GiB.
  generalize usableLength regions = s
  generalize usableLength extra = x
  dsimp only
  omega

theorem measuresMemory_iff (p : Pmm) (regions extra : List MemoryRegion) :
    MeasuresMemory p regions extra ↔ AddsUp regions extra :=
  ⟨fun h => (noSmaller_append_iff p regions extra).mp h.grows,
    fun h => ⟨p.totalPages_of_small, (noSmaller_append_iff p regions extra).mpr h⟩⟩

section Sample

-- 3 GiB of usable memory below the devices, and the 1 GiB that is moved above 4 GiB.
def lowRegion : MemoryRegion :=
  { beginLow := 0, beginHigh := 0, lengthLow := 0xC0000000, lengthHigh := 0, type := 1, acpi := 1 }

def highRegion : MemoryRegion :=
  { beginLow := 0, beginHigh := 1, lengthLow := 0x40000000, lengthHigh := 0, type := 1, acpi := 1 }

-- With 4 GiB in all no memory is left to manage.
theorem not_measuresMemory_high :
    (∀ r ∈ [highRegion], r.type = MEMORY_USABLE) ∧
      ¬MeasuresMemory boot [lowRegion] [highRegion] ∧
      (getMemoryInfo ([lowRegion] ++ [highRegion]) boot).totalPages = 0 := by
  refine ⟨by simp [highRegion, MEMORY_USABLE], fun h => ?_, by decide⟩
  exact absurd h.grows.totalPages (by decide)

end Sample

end ToyKernel.Pmm
