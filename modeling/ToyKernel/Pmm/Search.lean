import Mathlib.Order.Bounds.Basic
import ToyKernel.Library.FirstFit
import ToyKernel.Pmm.Bits

namespace ToyKernel.Pmm

open Library FirstFit

-- Below 2^32 no index wraps, so the search and the bitmap agree.
theorem clear_marked_iff (p : Pmm) {start n : Nat} (hle : start + n ≤ 4294967296) :
    Clear p.marked start n ↔ Clear p.testBit start n :=
  clear_congr fun cell _ hhi => p.marked_of_lt (by omega)

theorem testBit_of_full (p : Pmm) (i j : Nat) (hj : j < 32) (h : p.words i = 0xffffffff#32) :
    p.testBit (i * 32 + j) = true :=
  BitArray.test_of_allOnes (by omega) p.words i j hj h

theorem getFreeMemoryBlock_eq (p : Pmm) :
    p.getFreeMemoryBlock = (List.range (p.totalBlock * 32)).findSome? fun bit =>
      if p.testBit bit then none else some bit := by
  unfold getFreeMemoryBlock
  apply findSome?_words 32 p.totalBlock (fun bit => if p.testBit bit then none else some bit)
  intro i hi j hj
  rw [if_pos (p.testBit_of_full i j hj hi)]

-- The measuring loop succeeds exactly on a run of `size` clear bits.
theorem fitsAt_iff (p : Pmm) (size bit left count : Nat) (hle : size ≤ count + left) :
    p.fitsAt size bit left count count = true ↔
      count < size ∧ ∀ i, count ≤ i → i < size → p.marked (bit + i) = false := by
  induction left generalizing count with
  | zero =>
      simp only [fitsAt, Bool.false_eq_true, false_iff, not_and]
      omega
  | succ left ih =>
      unfold fitsAt
      by_cases hb : p.testBit (u32 (bit + count)) = true
      · simp only [hb, ite_true, Bool.false_eq_true, false_iff, not_and]
        intro hlt hall
        have hc := hall count (Nat.le_refl _) hlt
        rw [marked, hb] at hc
        cases hc
      · have hclear : p.marked (bit + count) = false := Bool.eq_false_iff.mpr hb
        simp only [hb, Bool.false_eq_true, ite_false]
        by_cases hlast : count + 1 = size
        · simp only [hlast, ite_true, true_iff]
          refine ⟨by omega, fun i hlo hhi => ?_⟩
          rwa [show i = count by omega]
        · simp only [hlast, ite_false]
          rw [ih (count + 1) (by omega)]
          constructor
          · rintro ⟨hlt, hall⟩
            refine ⟨by omega, fun i hlo hhi => ?_⟩
            by_cases he : i = count
            · rwa [he]
            · exact hall i (by omega) hhi
          · rintro ⟨hlt, hall⟩
            exact ⟨by omega, fun i hlo hhi => hall i (by omega) hhi⟩

theorem fitsAt_iff_clear (p : Pmm) {size : Nat} (hpos : 0 < size) (bit : Nat) :
    p.fitsAt size bit (size + 1) 0 0 = true ↔ Clear p.marked bit size := by
  rw [fitsAt_iff p size bit (size + 1) 0 (by omega)]
  exact ⟨fun h i hi => h.2 i (by omega) hi, fun h => ⟨hpos, fun i _ hi => h i hi⟩⟩

section General

-- The loop of `get_free_frame_by_size` on its own, which the source leaves to
-- `get_free_memory_block` for one frame.
def searchFrames (p : Pmm) (size : Nat) : Option Nat :=
  (List.range p.totalBlock).findSome? fun i =>
    if p.words i = 0xffffffff#32 then none
    else (List.range 32).findSome? fun j =>
      if !p.testBit (i * 32 + j) && p.fitsAt size (i * 32 + j) (size + 1) 0 0
      then some (i * 32 + j) else none

theorem searchFrames_eq (p : Pmm) {size : Nat} (hpos : 0 < size) :
    p.searchFrames size = (List.range (p.totalBlock * 32)).findSome? fun bit =>
      if Clear p.marked bit size then some bit else none := by
  have hblock := p.totalBlock_le
  unfold searchFrames
  rw [findSome?_words 32 p.totalBlock (fun bit =>
    if !p.testBit bit && p.fitsAt size bit (size + 1) 0 0 then some bit else none)]
  · apply findSome?_range_congr
    intro bit hb
    have hfits := p.fitsAt_iff_clear hpos bit
    rw [(p.marked_of_lt (show bit < 4294967296 by omega)).symm]
    by_cases hc : Clear p.marked bit size
    · have hfirst : p.marked bit = false := hc 0 hpos
      simp [hc, hfits.mpr hc, hfirst]
    · have hn : p.fitsAt size bit (size + 1) 0 0 = false :=
        Bool.eq_false_iff.mpr fun h => hc (hfits.mp h)
      simp [hc, hn]
  · intro i hi j hj
    simp [p.testBit_of_full i j hj hi]

-- A clear word is never passed over, so the one-frame path finds what the loop would.
theorem getFreeMemoryBlock_eq_searchFrames (p : Pmm) :
    p.getFreeMemoryBlock = p.searchFrames 1 := by
  have hblock := p.totalBlock_le
  rw [getFreeMemoryBlock_eq, p.searchFrames_eq Nat.one_pos]
  apply findSome?_range_congr
  intro bit hb
  rw [(p.marked_of_lt (show bit < 4294967296 by omega)).symm]
  by_cases hm : p.marked bit = true <;> simp [clear_one_iff, hm]

end General

-- One description of the search for every size: the one-frame path and the run loop
-- both answer with the first index below 32 * TOTAL_BLOCK where a clear run begins.
theorem getFreeFrameBySize_eq (p : Pmm) {size : Nat} (hpos : 0 < size)
    (hopen : p.totalUsedBlocks.toNat < p.totalBlock) :
    p.getFreeFrameBySize size = (List.range (p.totalBlock * 32)).findSome? fun bit =>
      if Clear p.marked bit size then some bit else none := by
  rw [← p.searchFrames_eq hpos]
  unfold getFreeFrameBySize
  rw [if_neg (by omega), if_neg (by omega)]
  by_cases hone : size = 1
  · subst hone
    rw [if_pos rfl, getFreeMemoryBlock_eq_searchFrames]
  · rw [if_neg hone]
    rfl

theorem getFreeFrameBySize_eq_some_iff (p : Pmm) (size frame : Nat) :
    p.getFreeFrameBySize size = some frame ↔
      0 < size ∧ p.totalUsedBlocks.toNat < p.totalBlock ∧
        IsFirst p.marked (32 * p.totalBlock) size frame := by
  by_cases hpos : 0 < size
  · by_cases hopen : p.totalUsedBlocks.toNat < p.totalBlock
    · rw [getFreeFrameBySize_eq p hpos hopen, findSome?_range_eq_some_iff]
      simp only [hpos, hopen, true_and, Option.ite_none_right_eq_some, Option.some.injEq,
        ite_eq_right_iff, reduceCtorEq, imp_false]
      constructor
      · rintro ⟨bit, hlt, ⟨hc, rfl⟩, hbefore⟩
        refine ⟨by omega, hc, fun other ho => ?_⟩
        by_contra hn
        exact hbefore other (by omega) ho
      · rintro ⟨hlt, hc, hleast⟩
        refine ⟨frame, by omega, ⟨hc, rfl⟩, fun other ho hother => ?_⟩
        have := hleast other hother
        omega
    · simp [getFreeFrameBySize, hopen, show p.totalBlock ≤ p.totalUsedBlocks.toNat by omega]
  · have hz : size = 0 := by omega
    simp [getFreeFrameBySize, hz]

theorem getFreeFrameBySize_eq_none_iff (p : Pmm) (size : Nat) :
    p.getFreeFrameBySize size = none ↔
      size = 0 ∨ p.totalBlock ≤ p.totalUsedBlocks.toNat ∨
        ∀ start < 32 * p.totalBlock, ¬Clear p.marked start size := by
  constructor
  · intro h
    by_contra hn
    push Not at hn
    obtain ⟨hpos, hopen, start, hlt, hc⟩ := hn
    obtain ⟨frame, hf⟩ := exists_isFirst hlt hc
    have hs := (p.getFreeFrameBySize_eq_some_iff size frame).mpr ⟨by omega, by omega, hf⟩
    rw [h] at hs
    cases hs
  · intro h
    cases hs : p.getFreeFrameBySize size with
    | none => rfl
    | some frame =>
        obtain ⟨hpos, hopen, hf⟩ := (p.getFreeFrameBySize_eq_some_iff size frame).mp hs
        rcases h with hz | hclosed | hnone
        · omega
        · omega
        · exact absurd hf.clear (hnone frame hf.start_lt)

section FirstFit

-- The starts of the clear runs that the search looks at.
def FitStarts (p : Pmm) (size : Nat) : Set Nat :=
  {s | s < 32 * p.totalBlock ∧ ∀ k < size, p.testBit (s + k) = false}

theorem mem_fitStarts_iff (p : Pmm) {size : Nat} (hmax : size ≤ 1048576) (s : Nat) :
    s ∈ p.FitStarts size ↔ s < 32 * p.totalBlock ∧ Clear p.marked s size := by
  have hblock := p.totalBlock_le
  refine and_congr_right fun hs => ?_
  rw [p.clear_marked_iff (by omega)]
  rfl

-- The least start answers; the answer is below 2^20, so it is not INVALID_FRAME. No start
-- means INVALID_FRAME, and one frame alone is searched for as the loop would.
theorem getFreeFrameBySize_first_fit (p : Pmm) (size : Nat) (hpos : 1 ≤ size)
    (hmax : size ≤ 1048576) (hopen : p.totalUsedBlocks.toNat < p.totalBlock) :
    (∀ s, p.getFreeFrameBySize size = some s ↔ IsLeast (p.FitStarts size) s) ∧
      (p.getFreeFrameBySize size = none ↔ p.FitStarts size = ∅) ∧
      (∀ s, p.getFreeFrameBySize size = some s → s < 1048576) ∧
      (size = 1 → p.getFreeFrameBySize size = p.getFreeMemoryBlock ∧
        p.getFreeMemoryBlock = p.searchFrames size) := by
  have hblock := p.totalBlock_le
  refine ⟨fun s => ?_, ?_, fun s hs => ?_, ?_⟩
  · rw [getFreeFrameBySize_eq_some_iff]
    constructor
    · rintro ⟨-, -, hf⟩
      refine ⟨(p.mem_fitStarts_iff hmax s).mpr ⟨hf.start_lt, hf.clear⟩, fun other ho => ?_⟩
      exact hf.least other ((p.mem_fitStarts_iff hmax other).mp ho).2
    · rintro ⟨hmem, hleast⟩
      obtain ⟨hlt, hc⟩ := (p.mem_fitStarts_iff hmax s).mp hmem
      refine ⟨hpos, hopen, hlt, hc, fun other ho => ?_⟩
      by_contra hn
      exact hn (hleast ((p.mem_fitStarts_iff hmax other).mpr ⟨by omega, ho⟩))
  · rw [getFreeFrameBySize_eq_none_iff, Set.eq_empty_iff_forall_notMem]
    constructor
    · rintro (hz | hclosed | hnone) s hs
      · omega
      · omega
      · obtain ⟨hlt, hc⟩ := (p.mem_fitStarts_iff hmax s).mp hs
        exact hnone s hlt hc
    · intro h
      exact Or.inr (Or.inr fun s hlt hc => h s ((p.mem_fitStarts_iff hmax s).mpr ⟨hlt, hc⟩))
  · have hlt := ((p.getFreeFrameBySize_eq_some_iff size s).mp hs).2.2.start_lt
    omega
  · rintro rfl
    refine ⟨?_, p.getFreeMemoryBlock_eq_searchFrames⟩
    rw [p.getFreeFrameBySize_eq hpos hopen, ← p.searchFrames_eq hpos,
      getFreeMemoryBlock_eq_searchFrames]

-- Two used frames, a single free one, and then a free run: the bits 0, 1 and 3 are set.
def gapPmm : Pmm := { boot with totalMemory := 0x40000, words := fun i => if i = 0 then 11 else 0 }

theorem getFreeFrameBySize_first_fit_gap : gapPmm.getFreeFrameBySize 2 = some 4 := by
  have hrun : IsLeast (gapPmm.FitStarts 2) 4 := by
    have hlow : ∀ s < 4, ∃ k < 2, gapPmm.testBit (s + k) = true := by decide
    refine ⟨⟨by decide, by decide⟩, fun s hs => ?_⟩
    by_contra hn
    obtain ⟨k, hk, hset⟩ := hlow s (by omega)
    rw [hs.2 k hk] at hset
    cases hset
  exact ((gapPmm.getFreeFrameBySize_first_fit 2 (by decide) (by decide) (by decide)).1 4).mpr hrun

end FirstFit

-- The guard aside, `allocate_chunk` takes the frame that a search for one frame finds.
theorem allocateChunk_eq (p : Pmm) :
    p.allocateChunk = match p.getFreeFrameBySize 1 with
      | none => (0, p)
      | some frame => (u32 (frame * PER_BLOCK_SIZE), p.takeFrame frame) := by
  unfold allocateChunk getFreeFrameBySize
  by_cases hclosed : p.totalUsedBlocks.toNat ≥ p.totalBlock
  · simp [hclosed]
  · cases p.getFreeMemoryBlock <;> simp [hclosed]

-- The three allocators are one search and one marking loop.
theorem allocateChunk_eq_allocateBlock (p : Pmm) : p.allocateChunk = p.allocateBlock 1 := by
  rw [allocateChunk_eq, allocateBlock]
  cases hs : p.getFreeFrameBySize 1 with
  | none => rfl
  | some frame =>
      have hf := ((p.getFreeFrameBySize_eq_some_iff 1 frame).mp hs).2.2.start_lt
      have hblock := p.totalBlock_le
      have htake : p.takeFrames frame 1 = p.takeFrame (u32 (frame + 0)) := rfl
      simp only [htake, Nat.add_zero, u32_of_lt (show frame < 4294967296 by omega)]

theorem allocateByte_eq_allocateBlock (p : Pmm) (size : Nat) :
    p.allocateByte size = p.allocateBlock (pagesFor size) := rfl

-- What an allocation does: it refuses and changes nothing, or it takes the first fit.
theorem allocateBlock_cases (p : Pmm) (size : Nat) :
    (p.getFreeFrameBySize size = none ∧ p.allocateBlock size = (0, p)) ∨
    ∃ frame, IsFirst p.marked (32 * p.totalBlock) size frame ∧ 0 < size ∧
      p.totalUsedBlocks.toNat < p.totalBlock ∧ frame < 1048576 ∧
      p.allocateBlock size = (frame * PER_BLOCK_SIZE, p.takeFrames frame size) := by
  cases hs : p.getFreeFrameBySize size with
  | none => exact Or.inl ⟨rfl, by rw [allocateBlock, hs]⟩
  | some frame =>
      obtain ⟨hpos, hopen, hf⟩ := (p.getFreeFrameBySize_eq_some_iff size frame).mp hs
      have hblock := p.totalBlock_le
      have hlt := hf.start_lt
      refine Or.inr ⟨frame, hf, hpos, hopen, by omega, ?_⟩
      rw [allocateBlock, hs]
      have haddr : u32 (frame * PER_BLOCK_SIZE) = frame * PER_BLOCK_SIZE := by
        apply u32_of_lt
        unfold PER_BLOCK_SIZE
        omega
      simp only [haddr]

end ToyKernel.Pmm
