import ToyKernel.Pmm
import Mathlib.Data.Nat.Basic

namespace ToyKernel

namespace Pmm

open Library

-- The frame numbers a `uint32_t` index can reach; `marked` reads the bit of a frame
-- the way the loops do, through a 32-bit index.
def marked (p : Pmm) (frame : Nat) : Bool := p.testBit (u32 frame)

theorem marked_of_lt (p : Pmm) {frame : Nat} (h : frame < 4294967296) :
    p.marked frame = p.testBit frame := by
  rw [marked, u32_of_lt h]

@[simp] theorem testBit_setBit (p : Pmm) (bit other : Nat) :
    (p.setBit bit).testBit other = (decide (other = bit) || p.testBit other) :=
  BitArray.test_set (by omega) p.words bit other

@[simp] theorem testBit_unsetBit (p : Pmm) (bit other : Nat) :
    (p.unsetBit bit).testBit other = (decide (other ≠ bit) && p.testBit other) :=
  BitArray.test_unset (by omega) p.words bit other

@[simp] theorem testBit_takeFrame (p : Pmm) (frame other : Nat) :
    (p.takeFrame frame).testBit other = (decide (other = frame) || p.testBit other) :=
  testBit_setBit p frame other

@[simp] theorem testBit_dropFrame (p : Pmm) (frame other : Nat) :
    (p.dropFrame frame).testBit other = (decide (other ≠ frame) && p.testBit other) :=
  testBit_unsetBit p frame other

theorem testBit_setupMemoryBitmap (ram : Nat → BitVec 32) (p : Pmm) (bit : Nat) :
    (p.setupMemoryBitmap ram).testBit bit =
      (decide (8 * p.bitmapSizeB ≤ bit) && BitArray.test ram bit) :=
  BitArray.test_zeroPrefix (by omega) ram _ bit

section Geometry

theorem totalPages_lt (p : Pmm) : p.totalPages < 1048576 := by
  have h := p.totalMemory.isLt
  unfold totalPages PER_BLOCK_SIZE
  omega

theorem totalBlock_le (p : Pmm) : p.totalBlock ≤ 32768 := by
  have h := p.totalPages_lt
  unfold totalBlock
  omega

theorem totalPages_le_bits (p : Pmm) : p.totalPages ≤ 32 * p.totalBlock := by
  unfold totalBlock
  omega

theorem totalPages_le_bitmap (p : Pmm) : p.totalPages ≤ 8 * p.bitmapSizeB := by
  unfold bitmapSizeB BYTE
  omega

-- The geometry of the bitmap is a function of TOTAL_MEMORY alone.
theorem totalPages_congr {p q : Pmm} (h : p.totalMemory = q.totalMemory) :
    p.totalPages = q.totalPages := by
  unfold totalPages
  rw [h]

theorem totalBlock_congr {p q : Pmm} (h : p.totalMemory = q.totalMemory) :
    p.totalBlock = q.totalBlock := by
  unfold totalBlock
  rw [totalPages_congr h]

end Geometry

section Frames

-- `q` differs from `p` in bits and in the count of used blocks only.
structure SameGeometry (p q : Pmm) : Prop where
  totalMemory : q.totalMemory = p.totalMemory
  bitMap : q.bitMap = p.bitMap
  kernelStartAddr : q.kernelStartAddr = p.kernelStartAddr
  kernelEndAddr : q.kernelEndAddr = p.kernelEndAddr

variable {p q r : Pmm}

theorem SameGeometry.refl (p : Pmm) : SameGeometry p p := ⟨rfl, rfl, rfl, rfl⟩

theorem SameGeometry.trans (h : SameGeometry p q) (h' : SameGeometry q r) : SameGeometry p r :=
  ⟨h'.1.trans h.1, h'.2.trans h.2, h'.3.trans h.3, h'.4.trans h.4⟩

theorem SameGeometry.totalBlock_eq (h : SameGeometry p q) : q.totalBlock = p.totalBlock :=
  totalBlock_congr h.totalMemory

theorem sameGeometry_takeFrame (p : Pmm) (frame : Nat) : SameGeometry p (p.takeFrame frame) :=
  ⟨rfl, rfl, rfl, rfl⟩

theorem sameGeometry_dropFrame (p : Pmm) (frame : Nat) : SameGeometry p (p.dropFrame frame) :=
  ⟨rfl, rfl, rfl, rfl⟩

theorem sameGeometry_reserveFrame (p : Pmm) (frame : Nat) : SameGeometry p (p.reserveFrame frame) := by
  unfold reserveFrame
  split
  · exact SameGeometry.refl p
  · exact sameGeometry_takeFrame p frame

-- A loop over frames keeps what each of its rounds keeps.
theorem sameGeometry_foldl (step : Pmm → Nat → Pmm) (h : ∀ p i, SameGeometry p (step p i))
    (p : Pmm) (rounds : List Nat) : SameGeometry p (rounds.foldl step p) := by
  induction rounds generalizing p with
  | nil => exact SameGeometry.refl p
  | cons i rounds ih => exact (h p i).trans (ih (step p i))

theorem sameGeometry_takeFrames (p : Pmm) (start count : Nat) :
    SameGeometry p (p.takeFrames start count) :=
  sameGeometry_foldl _ (fun p _ => sameGeometry_takeFrame p _) p _

theorem sameGeometry_dropFrames (p : Pmm) (start count : Nat) :
    SameGeometry p (p.dropFrames start count) :=
  sameGeometry_foldl _ (fun p _ => sameGeometry_dropFrame p _) p _

theorem sameGeometry_reserveMemoryBlock (p : Pmm) (base size : Nat) :
    SameGeometry p (p.reserveMemoryBlock base size) := by
  unfold reserveMemoryBlock
  split
  · exact SameGeometry.refl p
  · exact sameGeometry_foldl _ (fun p _ => sameGeometry_reserveFrame p _) p _

end Frames

section Loops

theorem takeFrames_succ (p : Pmm) (start count : Nat) :
    p.takeFrames start (count + 1) = (p.takeFrames start count).takeFrame (u32 (start + count)) := by
  simp [takeFrames, List.range_succ]

theorem dropFrames_succ (p : Pmm) (start count : Nat) :
    p.dropFrames start (count + 1) = (p.dropFrames start count).dropFrame (u32 (start + count)) := by
  simp [dropFrames, List.range_succ]

@[simp] theorem takeFrames_zero (p : Pmm) (start : Nat) : p.takeFrames start 0 = p := rfl

@[simp] theorem dropFrames_zero (p : Pmm) (start : Nat) : p.dropFrames start 0 = p := rfl

theorem testBit_takeFrames (p : Pmm) (start count bit : Nat) (hfit : start + count ≤ 4294967296) :
    (p.takeFrames start count).testBit bit =
      (decide (start ≤ bit ∧ bit < start + count) || p.testBit bit) := by
  induction count with
  | zero =>
      have hn : ¬(start ≤ bit ∧ bit < start + 0) := by omega
      rw [decide_eq_false hn, Bool.false_or, takeFrames_zero]
  | succ count ih =>
      rw [takeFrames_succ, testBit_takeFrame, ih (by omega), u32_of_lt (by omega), ← Bool.or_assoc,
        ← Bool.decide_or]
      congr 2
      apply propext
      omega

theorem testBit_takeFrames_self (p : Pmm) {start count bit : Nat} (hfit : start + count ≤ 4294967296)
    (hlo : start ≤ bit) (hhi : bit < start + count) : (p.takeFrames start count).testBit bit = true := by
  rw [testBit_takeFrames p start count bit hfit]
  simp [hlo, hhi]

theorem testBit_dropFrames (p : Pmm) (start count bit : Nat) (hfit : start + count ≤ 4294967296) :
    (p.dropFrames start count).testBit bit =
      (decide ¬(start ≤ bit ∧ bit < start + count) && p.testBit bit) := by
  induction count with
  | zero =>
      have hn : ¬(start ≤ bit ∧ bit < start + 0) := by omega
      rw [decide_eq_true hn, Bool.true_and, dropFrames_zero]
  | succ count ih =>
      rw [dropFrames_succ, testBit_dropFrame, ih (by omega), u32_of_lt (by omega), ← Bool.and_assoc,
        ← Bool.decide_and]
      congr 2
      apply propext
      omega

-- The loop marks without the bounds of `testBit_takeFrames` too: it never clears a bit.
theorem testBit_takeFrames_of_testBit (p : Pmm) (start count bit : Nat)
    (h : p.testBit bit = true) : (p.takeFrames start count).testBit bit = true := by
  induction count with
  | zero => exact h
  | succ count ih => rw [takeFrames_succ, testBit_takeFrame, ih, Bool.or_true]

theorem totalUsedBlocks_takeFrames (p : Pmm) (start count : Nat) :
    (p.takeFrames start count).totalUsedBlocks = p.totalUsedBlocks + BitVec.ofNat 32 count := by
  induction count with
  | zero => simp
  | succ count ih =>
      rw [takeFrames_succ]
      change (p.takeFrames start count).totalUsedBlocks + 1 = _
      rw [ih, BitVec.add_assoc]
      congr 1
      exact (BitVec.ofNat_add count 1).symm

theorem testBit_reserveFrame (p : Pmm) (frame bit : Nat) :
    (p.reserveFrame frame).testBit bit = (decide (bit = frame) || p.testBit bit) := by
  unfold reserveFrame
  split
  · rename_i h
    by_cases he : bit = frame
    · subst he
      simp [h]
    · simp [he]
  · exact testBit_takeFrame p frame bit

theorem testBit_foldl_reserveFrame (p : Pmm) (start count bit : Nat)
    (hfit : start + count ≤ 4294967296) :
    ((List.range count).foldl (fun p i => p.reserveFrame (u32 (start + i))) p).testBit bit =
      (decide (start ≤ bit ∧ bit < start + count) || p.testBit bit) := by
  induction count with
  | zero =>
      have hn : ¬(start ≤ bit ∧ bit < start + 0) := by omega
      rw [decide_eq_false hn, Bool.false_or]
      rfl
  | succ count ih =>
      rw [List.range_succ, List.foldl_append, List.foldl_cons, List.foldl_nil, testBit_reserveFrame,
        ih (by omega), u32_of_lt (by omega), ← Bool.or_assoc, ← Bool.decide_or]
      congr 2
      apply propext
      omega

theorem pagesFor_le (size : Nat) : pagesFor size ≤ 1048575 := by
  have h := u32_lt (size + PER_BLOCK_SIZE - 1)
  unfold pagesFor PER_BLOCK_SIZE at *
  omega

-- Without a wrap `pagesFor` rounds up to whole pages.
theorem pagesFor_eq {size : Nat} (h : size ≤ 4294963200) : pagesFor size = (size + 4095) / 4096 := by
  have hlt : size + PER_BLOCK_SIZE - 1 < 4294967296 := by
    unfold PER_BLOCK_SIZE
    omega
  rw [pagesFor, u32_of_lt hlt]
  unfold PER_BLOCK_SIZE
  omega

-- Where its guard is open `reserve_memory_block` marks the pages from that of `base` on.
theorem testBit_reserveMemoryBlock (p : Pmm) (base size bit : Nat) (hbase : base < 4294967296)
    (hopen : p.totalUsedBlocks.toNat < p.totalBlock) :
    (p.reserveMemoryBlock base size).testBit bit =
      (decide (base / PER_BLOCK_SIZE ≤ bit ∧ bit < base / PER_BLOCK_SIZE + pagesFor size) ||
        p.testBit bit) := by
  have hpages := pagesFor_le size
  have hstart : base / PER_BLOCK_SIZE < 1048576 := by
    unfold PER_BLOCK_SIZE
    omega
  rw [reserveMemoryBlock, if_neg (by omega), testBit_foldl_reserveFrame _ _ _ _ (by omega)]

theorem reserveMemoryBlock_of_closed (p : Pmm) (base size : Nat)
    (h : p.totalBlock ≤ p.totalUsedBlocks.toNat) : p.reserveMemoryBlock base size = p :=
  if_pos h

end Loops

end Pmm

end ToyKernel
