import ToyKernel.Pmm.Accounting
import ToyKernel.Vmm.Mapping

namespace ToyKernel

open Library FirstFit

-- A page table entry and the PMM its frame comes from. The entry is not in the block that
-- allocate_block clears.
structure PageFrame where
  pmm : Pmm
  page : BitVec 32

namespace PageFrame

def allocatePage (s : PageFrame) : Nat × PageFrame :=
  let (block, pmm) := s.pmm.allocateBlock 1
  if block = 0 then (block, { s with pmm })
  else (block, { pmm, page := SET_FRAME s.page block ||| PTE_PRESENT })

-- The frame field stays in the entry.
def freePage (s : PageFrame) : PageFrame where
  pmm :=
    if PAGE_PHYS_ADDRESS s.page = 0 then s.pmm
    else s.pmm.deallocateMemoryBySize (PAGE_PHYS_ADDRESS s.page) 1
  page := s.page &&& ~~~PTE_PRESENT

-- What may happen between two calls of allocate_page for the entry
inductive Event where
  | call (c : Pmm.Call)
  | freePage

def exec (s : PageFrame) : Event → PageFrame
  | .call c => { s with pmm := s.pmm.call c }
  | .freePage => s.freePage

-- The bitmap and TOTAL_USED_BLOCKS are the same.
structure SameBooks (p q : Pmm) : Prop where
  bits : ∀ f, q.testBit f = p.testBit f
  used : q.totalUsedBlocks = p.totalUsedBlocks

variable (s : PageFrame)

def Restores : Prop := SameBooks s.pmm s.allocatePage.2.freePage.pmm

-- After allocate_page and free_page, whatever others do with the PMM, no further free_page
-- changes it.
def ReleasedOnce : Prop :=
  ∀ events : List Event,
    SameBooks (events.foldl exec s.allocatePage.2.freePage).pmm
      (events.foldl exec s.allocatePage.2.freePage).freePage.pmm

structure FreesOnce : Prop where
  restores : s.Restores
  once : s.ReleasedOnce

-- The allocation found a frame other than 0, and bit 31 of the old entry is in its address;
-- or it found none and there is none in the entry.
def RestoresOk : Prop :=
  (s.pmm.getFreeFrameBySize 1 = none ∧ PAGE_PHYS_ADDRESS s.page = 0) ∨
    ∃ frame, frame ≠ 0 ∧ s.pmm.getFreeFrameBySize 1 = some frame ∧
      (s.page.getLsbD 31 = true → 524288 ≤ frame)

section Free

variable {s}

theorem deallocateMemoryBySize_one (p : Pmm) {address : Nat} (h : address < 4294967296) :
    p.deallocateMemoryBySize address 1 = p.dropFrame (address / 4096) := by
  have hpages : Pmm.pagesFor 1 = 0 + 1 := by decide
  unfold Pmm.deallocateMemoryBySize PER_BLOCK_SIZE
  rw [hpages, Pmm.dropFrames_succ, Pmm.dropFrames_zero, Nat.add_zero, u32_of_lt (by omega)]

theorem page_freePage : PAGE_PHYS_ADDRESS s.freePage.page = PAGE_PHYS_ADDRESS s.page :=
  PAGE_PHYS_ADDRESS_and_not_present s.page

theorem freePage_of_zero (h : PAGE_PHYS_ADDRESS s.page = 0) : s.freePage.pmm = s.pmm := if_pos h

theorem freePage_of_ne_zero (h : PAGE_PHYS_ADDRESS s.page ≠ 0) :
    s.freePage.pmm = s.pmm.dropFrame (PAGE_PHYS_ADDRESS s.page / 4096) := by
  rw [← deallocateMemoryBySize_one _ (PAGE_PHYS_ADDRESS_lt _)]
  exact if_neg h

-- A release is always counted.
theorem freePage_sameBooks_iff : SameBooks s.pmm s.freePage.pmm ↔ PAGE_PHYS_ADDRESS s.page = 0 := by
  constructor
  · intro h
    by_contra hne
    have hused := h.used
    rw [freePage_of_ne_zero hne] at hused
    change s.pmm.totalUsedBlocks - 1 = s.pmm.totalUsedBlocks at hused
    generalize s.pmm.totalUsedBlocks = u at hused
    bv_omega
  · intro hz
    rw [freePage_of_zero hz]
    exact ⟨fun _ => rfl, rfl⟩

theorem page_exec (event : Event) : PAGE_PHYS_ADDRESS (s.exec event).page = PAGE_PHYS_ADDRESS s.page := by
  cases event with
  | call c => rfl
  | freePage => exact page_freePage

-- Nothing but allocate_page changes the frame of the entry.
theorem page_foldl (events : List Event) (s : PageFrame) :
    PAGE_PHYS_ADDRESS (events.foldl exec s).page = PAGE_PHYS_ADDRESS s.page := by
  induction events generalizing s with
  | nil => rfl
  | cons event events ih => rw [List.foldl_cons, ih, page_exec]

theorem releasedOnce_iff_page : s.ReleasedOnce ↔ PAGE_PHYS_ADDRESS s.allocatePage.2.page = 0 := by
  constructor
  · intro h
    have hfree := freePage_sameBooks_iff.mp (h [])
    rwa [List.foldl_nil, page_freePage] at hfree
  · intro hz events
    rw [freePage_sameBooks_iff, page_foldl, page_freePage, hz]

end Free

section Allocate

variable {s}

theorem allocatePage_of_none (h : s.pmm.getFreeFrameBySize 1 = none) : s.allocatePage = (0, s) := by
  have hnone : s.pmm.allocateBlock 1 = (0, s.pmm) := by
    unfold Pmm.allocateBlock
    rw [h]
  unfold allocatePage
  rw [hnone]
  rfl

-- Frame 0 is taken and reported as a failure.
theorem allocatePage_of_zero (h : s.pmm.getFreeFrameBySize 1 = some 0) :
    s.allocatePage = (0, { s with pmm := s.pmm.takeFrame 0 }) := by
  have hblock : s.pmm.allocateBlock 1 = (0, s.pmm.takeFrame 0) := by
    unfold Pmm.allocateBlock
    rw [h]
    rfl
  unfold allocatePage
  rw [hblock]
  rfl

theorem allocatePage_of_ne_zero {frame : Nat} (h : s.pmm.getFreeFrameBySize 1 = some frame)
    (hne : frame ≠ 0) :
    s.allocatePage = (4096 * frame,
      { pmm := s.pmm.takeFrame frame, page := SET_FRAME s.page (4096 * frame) ||| PTE_PRESENT }) := by
  have hlt := Kernel.foundFrame_lt h
  have hblock : s.pmm.allocateBlock 1 = (4096 * frame, s.pmm.takeFrame frame) := by
    have haddress := Kernel.allocateBlock_address h
    have htake : s.pmm.takeFrames frame 1 = s.pmm.takeFrame (u32 (frame + 0)) := rfl
    unfold Pmm.allocateBlock at *
    simp only [h] at haddress ⊢
    rw [haddress, htake, Nat.add_zero, u32_of_lt (by omega)]
  unfold allocatePage
  rw [hblock]
  exact if_neg (by omega)

-- The address of the block, or that with bit 31 of the old entry.
theorem page_allocated_iff (entry : BitVec 32) {frame : Nat} (hlt : frame < 1048576) :
    PAGE_PHYS_ADDRESS (SET_FRAME entry (4096 * frame) ||| PTE_PRESENT) = 4096 * frame ↔
      (entry.getLsbD 31 = true → 524288 ≤ frame) := by
  have htop : (4096 * frame).testBit 31 = true ↔ 524288 ≤ frame := by
    rw [Nat.testBit_eq_decide_div_mod_eq, decide_eq_true_iff]
    omega
  rw [PAGE_PHYS_ADDRESS_or _ _ (by decide), PAGE_PHYS_ADDRESS_SET_FRAME_iff _ (by omega) (by omega), htop]

theorem page_allocated_ne_zero (entry : BitVec 32) {frame : Nat} (hne : frame ≠ 0)
    (hlt : frame < 1048576) :
    PAGE_PHYS_ADDRESS (SET_FRAME entry (4096 * frame) ||| PTE_PRESENT) ≠ 0 := by
  intro hz
  by_cases htop : entry.getLsbD 31 = true
  · have hbit : (SET_FRAME entry (4096 * frame) ||| PTE_PRESENT).getLsbD 31 = true := by
      rw [BitVec.getLsbD_or, getLsbD_SET_FRAME _ _ (by omega), htop]
      simp
    rw [← BitVec.testBit_toNat] at hbit
    rw [PAGE_PHYS_ADDRESS_eq] at hz
    have hsmall : (SET_FRAME entry (4096 * frame) ||| PTE_PRESENT).toNat < 2 ^ 31 := by omega
    rw [Nat.testBit_lt_two_pow hsmall] at hbit
    cases hbit
  · have haddress := (page_allocated_iff entry hlt).mpr fun h => absurd h htop
    omega

end Allocate

section Exact

variable {s}

theorem restores_iff_of_ne_zero {frame : Nat} (hfound : s.pmm.getFreeFrameBySize 1 = some frame)
    (hne : frame ≠ 0) : s.Restores ↔ (s.page.getLsbD 31 = true → 524288 ≤ frame) := by
  have hlt := Kernel.foundFrame_lt hfound
  have hfree := Kernel.foundFrame_free hfound
  have hentry := page_allocated_ne_zero s.page hne hlt
  rw [← page_allocated_iff s.page hlt]
  unfold Restores
  rw [allocatePage_of_ne_zero hfound hne, freePage_of_ne_zero hentry]
  dsimp only
  constructor
  · intro h
    by_contra hother
    have haligned := PAGE_PHYS_ADDRESS_aligned (SET_FRAME s.page (4096 * frame) ||| PTE_PRESENT)
    -- the frame that was taken is still marked, another one was given back
    have hbit := h.bits frame
    rw [Pmm.testBit_dropFrame, Pmm.testBit_takeFrame, hfree, decide_eq_true (show frame ≠ _ by omega)]
      at hbit
    simp at hbit
  · intro haddress
    rw [haddress, Nat.mul_div_cancel_left frame (by omega)]
    refine ⟨fun f => ?_, ?_⟩
    · rw [Pmm.testBit_dropFrame, Pmm.testBit_takeFrame]
      by_cases hf : f = frame
      · rw [hf, hfree]
        simp
      · simp [hf]
    · change s.pmm.totalUsedBlocks + 1 - 1 = s.pmm.totalUsedBlocks
      exact BitVec.add_sub_cancel _ _

-- Bit 0 was clear, and it stays set.
theorem not_restores_of_zero (hfound : s.pmm.getFreeFrameBySize 1 = some 0) : ¬s.Restores := by
  intro h
  have hfree := Kernel.foundFrame_free hfound
  have hbit := h.bits 0
  rw [allocatePage_of_zero hfound] at hbit
  change (freePage { s with pmm := s.pmm.takeFrame 0 }).pmm.testBit 0 = _ at hbit
  by_cases hz : PAGE_PHYS_ADDRESS s.page = 0
  · rw [freePage_of_zero (s := { s with pmm := s.pmm.takeFrame 0 }) hz, Pmm.testBit_takeFrame, hfree] at hbit
    simp at hbit
  · have haligned := PAGE_PHYS_ADDRESS_aligned s.page
    rw [freePage_of_ne_zero (s := { s with pmm := s.pmm.takeFrame 0 }) hz, Pmm.testBit_dropFrame,
      Pmm.testBit_takeFrame, hfree] at hbit
    simp at hbit
    omega

theorem restores_iff (s : PageFrame) : s.Restores ↔ s.RestoresOk := by
  unfold RestoresOk
  cases hfound : s.pmm.getFreeFrameBySize 1 with
  | none =>
      unfold Restores
      rw [allocatePage_of_none hfound, freePage_sameBooks_iff]
      simp
  | some frame =>
      by_cases hz : frame = 0
      · subst hz
        simp [not_restores_of_zero hfound]
      · rw [restores_iff_of_ne_zero hfound hz]
        constructor
        · exact fun htop => Or.inr ⟨frame, hz, rfl, htop⟩
        · rintro (⟨hnone, -⟩ | ⟨found, -, he, htop⟩)
          · cases hnone
          · rwa [Option.some.inj he]

theorem releasedOnce_iff (s : PageFrame) : s.ReleasedOnce ↔
    (∀ frame, s.pmm.getFreeFrameBySize 1 = some frame → frame = 0) ∧ PAGE_PHYS_ADDRESS s.page = 0 := by
  rw [releasedOnce_iff_page]
  cases hfound : s.pmm.getFreeFrameBySize 1 with
  | none =>
      rw [allocatePage_of_none hfound]
      simp
  | some frame =>
      by_cases hz : frame = 0
      · subst hz
        rw [allocatePage_of_zero hfound]
        simp
      · have hentry := page_allocated_ne_zero s.page hz (Kernel.foundFrame_lt hfound)
        rw [allocatePage_of_ne_zero hfound hz]
        simp [hentry, hz]

end Exact

-- Both together are left only where nothing is allocated and nothing released.
theorem freesOnce_iff (s : PageFrame) :
    s.FreesOnce ↔ s.pmm.getFreeFrameBySize 1 = none ∧ PAGE_PHYS_ADDRESS s.page = 0 := by
  constructor
  · rintro ⟨hrestores, honce⟩
    obtain ⟨honly, hpage⟩ := s.releasedOnce_iff.mp honce
    rcases s.restores_iff.mp hrestores with ⟨hnone, -⟩ | ⟨frame, hne, hfound, -⟩
    · exact ⟨hnone, hpage⟩
    · exact absurd (honly frame hfound) hne
  · rintro ⟨hnone, hpage⟩
    refine ⟨s.restores_iff.mpr (Or.inl ⟨hnone, hpage⟩), s.releasedOnce_iff.mpr ⟨fun frame hfound => ?_, hpage⟩⟩
    rw [hnone] at hfound
    cases hfound

section Sample

-- 16 MiB of memory with frame 0 in use, and an empty entry.
def freshPage : PageFrame where
  pmm := { Pmm.boot with totalMemory := 0x1000000, words := fun i => if i = 0 then 1 else 0 }
  page := 0

def otherOwner : List Event := [.call (.allocate Pmm.windows (.block 1))]

-- Frame 1 is handed to someone else after the first free_page; the second one frees it.
theorem not_freesOnce_fresh :
    (otherOwner.foldl exec freshPage.allocatePage.2.freePage).pmm.testBit 1 = true ∧
      (otherOwner.foldl exec freshPage.allocatePage.2.freePage).freePage.pmm.testBit 1 = false ∧
      ¬freshPage.FreesOnce := by
  have hbefore : (otherOwner.foldl exec freshPage.allocatePage.2.freePage).pmm.testBit 1 = true := by
    decide +kernel
  have hafter : (otherOwner.foldl exec freshPage.allocatePage.2.freePage).freePage.pmm.testBit 1 =
      false := by decide +kernel
  refine ⟨hbefore, hafter, fun h => ?_⟩
  have hbit := (h.once otherOwner).bits 1
  rw [hbefore, hafter] at hbit
  cases hbit

end Sample

end PageFrame

end ToyKernel
