import ToyKernel.Library.Population
import ToyKernel.Pmm.Memset

namespace ToyKernel.Pmm

open Library BitArray FirstFit

-- The frames that the loops of a call with `base` and `size` go through
def Names (base size frame : Nat) : Prop :=
  base / PER_BLOCK_SIZE ≤ frame ∧ frame < base / PER_BLOCK_SIZE + pagesFor size

-- Every call that takes frames or gives some back; an allocation comes with where its memset goes.
inductive Call where
  | reserveMemoryBlock (base size : Nat)
  | allocate (view : View) (a : Allocation)
  | unreserveMemoryBlock (base size : Nat)
  | deallocateMemory (base : Nat)
  | deallocateMemoryBySize (base size : Nat)

def call (p : Pmm) : Call → Pmm
  | .reserveMemoryBlock base size => p.reserveMemoryBlock base size
  | .allocate view a => (p.allocateThrough view a).2
  | .unreserveMemoryBlock base size => p.unreserveMemoryBlock base size
  | .deallocateMemory base => p.deallocateMemory base
  | .deallocateMemoryBySize base size => p.deallocateMemoryBySize base size

-- A range of bytes that does not go past 4 GiB
def InRange (base size : Nat) : Prop := base < 4294967296 ∧ base + size ≤ 4294967296

-- Sizes stay below 2^20 frames and ranges below 4 GiB; only frames that are marked are given
-- back; the kernel does not clear its own image.
def Allowed (p : Pmm) : Call → Prop
  | .reserveMemoryBlock base size => InRange base size
  | .allocate view a => a.frames < 1048576 ∧ p.SparesKernel view a
  | .unreserveMemoryBlock base size | .deallocateMemoryBySize base size =>
      InRange base size ∧ ∀ frame, Names base size frame → p.testBit frame = true
  | .deallocateMemory base => base < 4294967296 ∧ p.testBit (base / PER_BLOCK_SIZE) = true

def SparesArray (p : Pmm) : Call → Prop
  | .allocate view a => p.Spares view a
  | _ => True

-- The words that an index below 2^21 reaches
def ARRAY_WORDS : Nat := 65536

-- TOTAL_USED_BLOCKS is the number of set bits, counted over any stretch of the array that
-- has them all.
structure Accounted (p : Pmm) : Prop where
  bounded : ∀ frame, p.testBit frame = true → frame < ARRAY_WORDS * 32
  used : ∀ count, (∀ frame, p.testBit frame = true → frame < count * 32) →
    p.totalUsedBlocks.toNat = population p.words count

section Frames

variable {p : Pmm} {frame start count base size : Nat}

theorem accounted_iff : Accounted p ↔ (∀ frame, p.testBit frame = true → frame < ARRAY_WORDS * 32) ∧
    p.totalUsedBlocks.toNat = population p.words ARRAY_WORDS := by
  constructor
  · exact fun h => ⟨h.bounded, h.used ARRAY_WORDS h.bounded⟩
  · rintro ⟨hbounded, hused⟩
    refine ⟨hbounded, fun count hcount => ?_⟩
    rw [hused]
    exact population_congr (by omega) hbounded hcount

theorem Accounted.takeFrame (h : Accounted p) (hlt : frame < ARRAY_WORDS * 32)
    (hclear : p.testBit frame = false) : Accounted (p.takeFrame frame) := by
  obtain ⟨hbounded, hused⟩ := accounted_iff.mp h
  have hset : population (p.takeFrame frame).words ARRAY_WORDS = population p.words ARRAY_WORDS + 1 :=
    population_set (by omega) hlt hclear
  have hle := population_le (p.takeFrame frame).words ARRAY_WORDS
  refine accounted_iff.mpr ⟨fun other hother => ?_, ?_⟩
  · rw [testBit_takeFrame, Bool.or_eq_true, decide_eq_true_eq] at hother
    rcases hother with rfl | hother
    · exact hlt
    · exact hbounded other hother
  · have hwords : ARRAY_WORDS * 32 = 2097152 := rfl
    change (p.totalUsedBlocks + 1).toNat = _
    rw [hset, ← hused, BitVec.toNat_add]
    apply Nat.mod_eq_of_lt
    change p.totalUsedBlocks.toNat + 1 < 4294967296
    omega

theorem Accounted.dropFrame (h : Accounted p) (hset : p.testBit frame = true) :
    Accounted (p.dropFrame frame) := by
  obtain ⟨hbounded, hused⟩ := accounted_iff.mp h
  have hunset : population (p.dropFrame frame).words ARRAY_WORDS + 1 = population p.words ARRAY_WORDS :=
    population_unset (by omega) (hbounded frame hset) hset
  refine accounted_iff.mpr ⟨fun other hother => ?_, ?_⟩
  · rw [testBit_dropFrame, Bool.and_eq_true] at hother
    exact hbounded other hother.2
  · have hlt := p.totalUsedBlocks.isLt
    change (p.totalUsedBlocks - 1).toNat = _
    rw [BitVec.toNat_sub]
    change (4294967296 - 1 + p.totalUsedBlocks.toNat) % 4294967296 = _
    omega

theorem Accounted.reserveFrame (h : Accounted p) (hlt : frame < ARRAY_WORDS * 32) :
    Accounted (p.reserveFrame frame) := by
  unfold Pmm.reserveFrame
  split
  case isTrue => exact h
  case isFalse hclear => exact h.takeFrame hlt (Bool.eq_false_iff.mpr hclear)

-- The loops, frame by frame: nothing is marked twice, and nothing cleared twice.
theorem Accounted.takeFrames (h : Accounted p) (hfit : start + count ≤ ARRAY_WORDS * 32)
    (hclear : ∀ frame, start ≤ frame → frame < start + count → p.testBit frame = false) :
    Accounted (p.takeFrames start count) := by
  have hwords : ARRAY_WORDS * 32 = 2097152 := rfl
  induction count with
  | zero => exact h
  | succ count ih =>
      have hprefix := ih (by omega) fun frame hlo hhi => hclear frame hlo (by omega)
      rw [takeFrames_succ, u32_of_lt (by omega)]
      apply hprefix.takeFrame (by omega)
      rw [testBit_takeFrames _ _ _ _ (by omega), hclear _ (by omega) (by omega)]
      simp

theorem Accounted.dropFrames (h : Accounted p) (hfit : start + count ≤ ARRAY_WORDS * 32)
    (hset : ∀ frame, start ≤ frame → frame < start + count → p.testBit frame = true) :
    Accounted (p.dropFrames start count) := by
  have hwords : ARRAY_WORDS * 32 = 2097152 := rfl
  induction count with
  | zero => exact h
  | succ count ih =>
      have hprefix := ih (by omega) fun frame hlo hhi => hset frame hlo (by omega)
      rw [dropFrames_succ, u32_of_lt (by omega)]
      apply hprefix.dropFrame
      rw [testBit_dropFrames _ _ _ _ (by omega), hset _ (by omega) (by omega)]
      simp

-- No index of a loop leaves the words that are counted.
theorem names_lt (size : Nat) (hbase : base < 4294967296) :
    base / PER_BLOCK_SIZE + pagesFor size ≤ ARRAY_WORDS * 32 := by
  have hpages := pagesFor_le size
  have hwords : ARRAY_WORDS * 32 = 2097152 := rfl
  unfold PER_BLOCK_SIZE
  omega

theorem Accounted.reserveMemoryBlock (h : Accounted p) (hbase : base < 4294967296) :
    Accounted (p.reserveMemoryBlock base size) := by
  have hend := names_lt size hbase
  have hwords : ARRAY_WORDS * 32 = 2097152 := rfl
  unfold Pmm.reserveMemoryBlock
  split
  · exact h
  · generalize pagesFor size = pages at hend
    induction pages with
    | zero => exact h
    | succ pages ih =>
        rw [List.range_succ, List.foldl_append, List.foldl_cons, List.foldl_nil]
        apply (ih (by omega)).reserveFrame
        rw [u32_of_lt (by omega)]
        omega

theorem Accounted.dropNamed (h : Accounted p) (hbase : base < 4294967296)
    (hset : ∀ frame, Names base size frame → p.testBit frame = true) :
    Accounted (p.dropFrames (base / PER_BLOCK_SIZE) (pagesFor size)) :=
  h.dropFrames (names_lt _ hbase) fun frame hlo hhi => hset frame ⟨hlo, hhi⟩

-- A memset takes marks away and counts none of them.
theorem Accounted.memset_iff (h : Accounted p) {view : View} {addr : Nat} :
    Accounted (p.memset view addr count) ↔
      ∀ bit, p.testBit bit = true → p.wipes view addr count (bit / 8) = false := by
  constructor
  · intro hafter bit hbit
    by_contra hwiped
    rw [Bool.not_eq_false] at hwiped
    obtain ⟨hbounded, hused⟩ := accounted_iff.mp h
    have hless : population (p.memset view addr count).words ARRAY_WORDS < population p.words ARRAY_WORDS := by
      refine population_lt (by omega) (fun other hother => ?_) (hbounded bit hbit) hbit ?_
      · change (p.memset view addr count).testBit other = true at hother
        rw [testBit_memset, Bool.and_eq_true] at hother
        exact hother.1
      · change (p.memset view addr count).testBit bit = false
        rw [testBit_memset, hwiped, Bool.not_true, Bool.and_false]
    have husedAfter := (accounted_iff.mp hafter).2
    change p.totalUsedBlocks.toNat = _ at husedAfter
    omega
  · intro hspared
    rwa [memset_eq_self hspared]

-- A refused allocation changes nothing; another one takes a run of clear bits, and is counted right
-- exactly when its memset takes no mark away.
theorem Accounted.allocateThrough_iff (h : Accounted p) {view : View} {a : Allocation}
    (hsize : a.frames < 1048576) : Accounted (p.allocateThrough view a).2 ↔ p.Spares view a := by
  have hwords : ARRAY_WORDS * 32 = 2097152 := rfl
  cases hfound : p.getFreeFrameBySize a.frames with
  | none =>
      rw [allocateThrough_of_none view hfound]
      exact ⟨fun _ => spares_of_none view hfound, fun _ => h⟩
  | some frame =>
      have hgets := getFreeFrameBySize_iff_gets.mp hfound
      have hlt := hgets.frame_lt
      have htaken : Accounted (p.takeFrames frame a.frames) := by
        apply h.takeFrames (by omega)
        intro other hlo hhi
        have hclear := hgets.first.clear.cell other hlo hhi
        rwa [marked_of_lt _ (by omega)] at hclear
      rw [hgets.allocateThrough, hgets.spares_iff]
      exact htaken.memset_iff

end Frames

theorem Accounted.call_iff {p : Pmm} {c : Call} (h : Accounted p) (hc : Allowed p c) :
    Accounted (p.call c) ↔ SparesArray p c := by
  cases c with
  | reserveMemoryBlock base size => exact ⟨fun _ => trivial, fun _ => h.reserveMemoryBlock hc.1⟩
  | allocate view a => exact h.allocateThrough_iff hc.1
  | unreserveMemoryBlock base size => exact ⟨fun _ => trivial, fun _ => h.dropNamed hc.1.1 hc.2⟩
  | deallocateMemory base => exact ⟨fun _ => trivial, fun _ => h.dropFrame hc.2⟩
  | deallocateMemoryBySize base size => exact ⟨fun _ => trivial, fun _ => h.dropNamed hc.1.1 hc.2⟩

theorem accounted_of_clear {start : Pmm} (hclear : ∀ i, start.words i = 0)
    (hused : start.totalUsedBlocks = 0) : Accounted start := by
  refine accounted_iff.mpr ⟨fun frame hframe => ?_, ?_⟩
  · rw [testBit, test_eq_getLsbD (by omega), hclear] at hframe
    simp at hframe
  · rw [population_zero hclear, hused]
    rfl

-- INIT_MEMORY over clear memory
theorem accounted_afterSetup (image : KernelImage) (params : BootParams) :
    Accounted (afterSetup image (fun _ => 0) params) :=
  accounted_of_clear (fun _ => BitVec.zero_and) rfl

theorem accounted_initMemory (image : KernelImage) (params : BootParams) :
    Accounted (initMemory image (fun _ => 0) params) := by
  have hreserve : AllSteps exec (fun _ r => ∃ base size, r = .reserve base size ∧ base < 4294967296)
      (afterSetup image (fun _ => 0) params) (bootRequests image params) := by
    apply allSteps_of_forall
    intro p r hr
    have hfits := bootRequests_fit image params r hr
    obtain ⟨q, -, rfl⟩ := List.mem_map.mp hr
    exact ⟨q.1, q.2, rfl, hfits⟩
  rw [← foldl_bootRequests]
  refine foldl_invariant Accounted ?_ (accounted_afterSetup image params) hreserve
  rintro p _ h ⟨base, size, rfl, hbase⟩
  exact h.reserveMemoryBlock hbase

-- From a clear array on, the counter is right after every call of a sequence exactly when no
-- allocation of it clears a mark.
theorem totalUsedBlocks_accounted_iff (start : Pmm) (hclear : ∀ i, start.words i = 0)
    (hused : start.totalUsedBlocks = 0) (calls : List Call)
    (hmet : AllSteps Pmm.call Allowed start calls) :
    AllSteps Pmm.call (fun p c => Accounted (p.call c)) start calls ↔
      AllSteps Pmm.call SparesArray start calls :=
  allSteps_keeps_iff Accounted (fun _ _ h hc => h.call_iff hc) (accounted_of_clear hclear hused) hmet

section Sample

-- Through the windows a block below the kernel meets neither the kernel nor the array.
theorem Accounted.spares_windows {p : Pmm} {a : Allocation} {frame : Nat} (h : Accounted p)
    (hgets : p.Gets a.frames frame) (hlow : frame * PER_BLOCK_SIZE + a.cleared ≤ KERNEL_ADDRESS)
    (hframes : a.frames < 1048576) (hbase : KERNEL_VIRT_BASE ≤ p.bitMap)
    (hfit : p.bitMap + 262144 ≤ 4294967296) : p.Spares windows a := by
  have hkernel : KERNEL_ADDRESS = 1048576 := rfl
  have hwindow : KERNEL_VIRT_BASE = 3221225472 := rfl
  have hwords : ARRAY_WORDS * 32 = 2097152 := rfl
  have hlt := hgets.frame_lt
  intro other hother bit hbit
  rw [hgets.unique hother] at hbit ⊢
  have hbound : bit < ARRAY_WORDS * 32 := by
    rw [testBit_takeFrames _ _ _ _ (by omega), Bool.or_eq_true, decide_eq_true_eq] at hbit
    rcases hbit with hnew | hold
    · omega
    · exact h.bounded bit hold
  exact meets_windows (by omega) (by omega) (by omega) (.inl (by omega))

theorem Gets.sparesKernel_windows {p : Pmm} {a : Allocation} {frame : Nat} (hgets : p.Gets a.frames frame)
    (hapart : frame * PER_BLOCK_SIZE + a.cleared ≤ KERNEL_ADDRESS ∨
      p.kernelEndAddr - KERNEL_VIRT_BASE + KERNEL_ADDRESS ≤ frame * PER_BLOCK_SIZE)
    (hend : frame * PER_BLOCK_SIZE + a.cleared ≤ KERNEL_VIRT_BASE)
    (hstart : KERNEL_VIRT_BASE ≤ p.kernelStartAddr) (hfit : p.kernelEndAddr ≤ 4294967296) :
    p.SparesKernel windows a := by
  intro other hother target hlo hhi
  rw [hgets.unique hother]
  apply meets_windows (by omega) (by omega) (by omega)
  omega

-- INIT_MEMORY before its first reservation, over clear memory
def clearPmm (params : BootParams) : Pmm := afterSetup sampleImage (fun _ => 0) params

theorem clearPmm_words (params : BootParams) (i : Nat) : (clearPmm params).words i = 0 := BitVec.zero_and

-- The second reservation finds a frame that is marked already.
def reservedPmm : Pmm :=
  ((clearPmm sampleParams).reserveMemoryBlock 0x1800 0x1001).reserveMemoryBlock 0x2000 0x1000

def sampleCalls : List Call :=
  [.reserveMemoryBlock 0x1800 0x1001, .reserveMemoryBlock 0x2000 0x1000, .allocate windows (.block 3),
    .unreserveMemoryBlock 0x1FFF 0x1001, .deallocateMemory 0x3000]

theorem totalUsedBlocks_accounted_iff_sample :
    AllSteps Pmm.call (fun p c => Accounted (p.call c)) (clearPmm sampleParams) sampleCalls := by
  have hclear := clearPmm_words sampleParams
  have haccounted : Accounted reservedPmm :=
    ((accounted_afterSetup _ _).reserveMemoryBlock (by decide)).reserveMemoryBlock (by decide)
  have hgets : reservedPmm.Gets (Allocation.block 3).frames 3 :=
    getFreeFrameBySize_iff_gets.mp (by decide +kernel)
  have hlow : 3 * PER_BLOCK_SIZE + (Allocation.block 3).cleared ≤ KERNEL_ADDRESS := by decide
  have hspares : reservedPmm.Spares windows (.block 3) :=
    haccounted.spares_windows hgets hlow (by decide) (by decide) (by decide)
  have hkernel : reservedPmm.SparesKernel windows (.block 3) :=
    hgets.sparesKernel_windows (.inl hlow) (by decide) (by decide) (by decide)
  have hblock : reservedPmm.call (.allocate windows (.block 3)) = reservedPmm.takeFrames 3 3 := by
    rw [call, hspares.allocateThrough, hgets.allocate]
    rfl
  have hmarked : ∀ frame < 4, 1 ≤ frame → (reservedPmm.takeFrames 3 3).testBit frame = true := by
    decide +kernel
  refine (totalUsedBlocks_accounted_iff _ hclear rfl sampleCalls ?_).mpr
    ⟨trivial, trivial, hspares, trivial, trivial, trivial⟩
  refine ⟨⟨by decide, by decide⟩, ⟨by decide, by decide⟩, ⟨by decide, hkernel⟩, ⟨⟨by decide, by decide⟩, ?_⟩,
    ⟨by decide, ?_⟩, trivial⟩
  · rintro frame ⟨hlo, hhi⟩
    change (reservedPmm.call (.allocate windows (.block 3))).testBit frame = true
    change 1 ≤ frame at hlo
    change frame < 3 at hhi
    rw [hblock]
    exact hmarked frame (by omega) hlo
  · change ((reservedPmm.call (.allocate windows (.block 3))).unreserveMemoryBlock 0x1FFF 0x1001).testBit 3 = true
    rw [hblock]
    decide +kernel

-- 64 MiB, with the frames up to the end of the image in use: the next one holds the bit array.
def bigParams : BootParams :=
  { sampleParams with regions := [{ sampleRegion with lengthLow := 0x4000000 }] }

def fullPmm : Pmm := (clearPmm bigParams).reserveMemoryBlock 0x0 0x110000

def arrayCalls : List Call := [.reserveMemoryBlock 0x0 0x110000, .allocate windows (.block 1)]

theorem not_totalUsedBlocks_accounted_array :
    AllSteps Pmm.call Allowed (clearPmm bigParams) arrayCalls ∧
      (arrayCalls.foldl Pmm.call (clearPmm bigParams)).totalUsedBlocks = 273 ∧
      ¬AllSteps Pmm.call (fun p c => Accounted (p.call c)) (clearPmm bigParams) arrayCalls := by
  have hgets : fullPmm.Gets (Allocation.block 1).frames 272 :=
    getFreeFrameBySize_iff_gets.mp (by decide +kernel)
  have haccounted : Accounted fullPmm := (accounted_afterSetup _ _).reserveMemoryBlock (by decide)
  have hgeometry : SameGeometry (clearPmm bigParams) fullPmm := sameGeometry_reserveMemoryBlock _ _ _
  have harray : fullPmm.bitMap = 0xC0010000 := hgeometry.bitMap
  have hstart : fullPmm.kernelStartAddr = 0xC0000000 := hgeometry.kernelStartAddr
  have hend : fullPmm.kernelEndAddr = 0xC0010000 := hgeometry.kernelEndAddr
  have hbase : KERNEL_VIRT_BASE = 0xC0000000 := rfl
  have hkernel : KERNEL_ADDRESS = 0x100000 := rfl
  have hblock : 272 * PER_BLOCK_SIZE = 0x110000 := rfl
  have hcleared : (Allocation.block 1).cleared = 4096 := rfl
  refine ⟨⟨⟨by decide, by decide⟩, ⟨by decide, ?_⟩, trivial⟩, by decide +kernel, fun h => ?_⟩
  · exact hgets.sparesKernel_windows (.inr (by omega)) (by omega) (by omega) (by omega)
  · have hspares : fullPmm.Spares windows (.block 1) :=
      (haccounted.allocateThrough_iff (by decide)).mp h.2.1
    have hwiped : fullPmm.wipes windows (272 * PER_BLOCK_SIZE) (Allocation.block 1).cleared (272 / 8) = true :=
      meets_windows_of_mem (by omega) (by omega) (by omega) (by omega) (by omega)
    have hkept := hspares 272 hgets 272 (by decide +kernel)
    rw [hwiped] at hkept
    cases hkept

end Sample

end ToyKernel.Pmm
