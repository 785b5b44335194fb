import ToyKernel.Pmm.Exclusive

namespace ToyKernel.Pmm

open Library FirstFit

-- A request is refused only when no run of `n` unmarked frames lies in managed memory.
def NoFalseExhaustion (p : Pmm) : Prop :=
  ∀ view, (∀ n, 1 ≤ n → n < 4294967296 → (p.allocateThrough view (.block n)).1 = 0 →
      ¬∃ start, start + n ≤ p.totalPages ∧ Clear p.testBit start n) ∧
    ((p.allocateThrough view .chunk).1 = 0 → ¬∃ frame, frame < p.totalPages ∧ p.testBit frame = false)

-- With frame 0 in use and the guard open, the address 0 means that nothing fits.
theorem clear_of_refused (p : Pmm) {n : Nat} (hpos : 0 < n) (hzero : p.testBit 0 = true)
    (hopen : p.totalUsedBlocks.toNat < p.totalBlock) (hrefused : (p.allocateBlock n).1 = 0) :
    ∀ start < 32 * p.totalBlock, ¬Clear p.marked start n := by
  rcases p.allocateBlock_cases n with ⟨hnone, _⟩ | ⟨frame, hf, _, _, hlt, he⟩
  · rcases (p.getFreeFrameBySize_eq_none_iff n).mp hnone with hz | hclosed | hnone
    · omega
    · omega
    · exact hnone
  · rw [he] at hrefused
    have hframe : frame = 0 := (Nat.mul_eq_zero.mp hrefused).resolve_right (by decide)
    have hc := hf.clear 0 hpos
    rw [hframe, Nat.add_zero, marked_of_lt _ (by omega), hzero] at hc
    cases hc

theorem allocateBlock_of_closed (p : Pmm) (n : Nat)
    (hclosed : p.totalBlock ≤ p.totalUsedBlocks.toNat) : p.allocateBlock n = (0, p) := by
  rw [allocateBlock, (p.getFreeFrameBySize_eq_none_iff n).mpr (Or.inr (Or.inl hclosed))]

theorem noFalseExhaustion_of_open (p : Pmm) (hzero : p.testBit 0 = true)
    (hopen : p.totalUsedBlocks.toNat < p.totalBlock) : NoFalseExhaustion p := by
  have hpages := p.totalPages_le_bits
  have hlt := p.totalPages_lt
  have hchunk : Allocation.chunk.frames = 1 := rfl
  intro view
  rw [allocateThrough_fst, allocate_eq_allocateBlock, hchunk]
  constructor
  · intro n hpos _ hrefused ⟨start, hle, hc⟩
    rw [allocateThrough_fst, allocate_eq_allocateBlock] at hrefused
    exact p.clear_of_refused hpos hzero hopen hrefused start (by omega)
      ((p.clear_marked_iff (by omega)).mpr hc)
  · rintro hrefused ⟨frame, hle, hc⟩
    exact p.clear_of_refused (by decide) hzero hopen hrefused frame (by omega)
      ((p.clear_marked_iff (by omega)).mpr ((clear_one_iff frame).mpr hc))

theorem noFalseExhaustion_of_full (p : Pmm) (hfull : ∀ frame < p.totalPages, p.testBit frame = true) :
    NoFalseExhaustion p := by
  intro view
  constructor
  · rintro n hpos _ _ ⟨start, hle, hc⟩
    have hm := hc 0 hpos
    rw [hfull (start + 0) (by omega)] at hm
    cases hm
  · rintro _ ⟨frame, hframe, hc⟩
    rw [hfull frame hframe] at hc
    cases hc

-- The address of frame 0 is the answer of a refusal.
theorem allocateChunk_refuses (p : Pmm)
    (h : ¬(p.testBit 0 = true ∧ p.totalUsedBlocks.toNat < p.totalBlock)) : p.allocateChunk.1 = 0 := by
  by_cases hopen : p.totalUsedBlocks.toNat < p.totalBlock
  · have hzero : p.testBit 0 = false := Bool.eq_false_iff.mpr fun hset => h ⟨hset, hopen⟩
    have hgets : p.Gets Allocation.chunk.frames 0 := gets_one hopen (by omega) hzero (by simp)
    exact congrArg Prod.fst hgets.allocate
  · rw [allocateChunk_eq_allocateBlock, allocateBlock_of_closed _ _ (by omega)]

-- The guard compares a number of frames with a number of bitmap words. A state answers
-- truthfully exactly while the guard is open and frame 0 is in use, or once there is nothing left
-- to find.
theorem noFalseExhaustion_iff_open_or_full (p : Pmm) :
    NoFalseExhaustion p ↔ (p.testBit 0 = true ∧ p.totalUsedBlocks.toNat < p.totalBlock) ∨
      ∀ frame < p.totalPages, p.testBit frame = true := by
  constructor
  · intro hno
    by_cases hopen : p.testBit 0 = true ∧ p.totalUsedBlocks.toNat < p.totalBlock
    · exact .inl hopen
    · refine .inr fun frame hframe => ?_
      by_contra hc
      refine (hno windows).2 ?_ ⟨frame, hframe, Bool.eq_false_iff.mpr hc⟩
      rw [allocateThrough_fst]
      exact p.allocateChunk_refuses hopen
  · rintro (⟨hzero, hopen⟩ | hfull)
    · exact p.noFalseExhaustion_of_open hzero hopen
    · exact p.noFalseExhaustion_of_full hfull

-- Every run of calls, and what is left to ask of those that take no mark away: there bit 0 stays set.
theorem noFalseExhaustion_iff (image : KernelImage) (ram : Nat → BitVec 32) (params : BootParams)
    (calls : List Session.Call) (s : Session)
    (hs : calls.foldl Session.exec (Session.start image ram params) = s) :
    (NoFalseExhaustion s.pmm ↔
      (s.pmm.testBit 0 = true ∧ s.pmm.totalUsedBlocks.toNat < s.pmm.totalBlock) ∨
        ∀ frame < s.pmm.totalPages, s.pmm.testBit frame = true) ∧
    (AllSteps Session.exec (fun s c => s.Lawful c ∧ s.SparesArray c) (Session.start image ram params) calls →
      (NoFalseExhaustion s.pmm ↔
        s.pmm.totalUsedBlocks.toNat < s.pmm.totalBlock ∨
          ∀ frame < s.pmm.totalPages, s.pmm.testBit frame = true)) := by
  refine ⟨s.pmm.noFalseExhaustion_iff_open_or_full, fun hmet => ?_⟩
  have hinit := initMemory_testBit_zero image ram params
  obtain ⟨l, hl⟩ := exists_tracks hinit hmet
  change Tracks _ (calls.foldl Session.exec (Session.start image ram params)) l at hl
  rw [hs] at hl
  rw [s.pmm.noFalseExhaustion_iff_open_or_full]
  refine or_congr_left ⟨And.right, fun hopen => ⟨hl.testBit_zero hinit (by omega), hopen⟩⟩

theorem noFalseExhaustion_iff_sample :
    NoFalseExhaustion (sessionCalls.foldl Session.exec sampleStart).pmm := by
  have hopen : (sessionCalls.foldl Session.exec sampleStart).pmm.totalUsedBlocks.toNat <
      (sessionCalls.foldl Session.exec sampleStart).pmm.totalBlock := by
    rw [sessionCalls, List.foldl_cons, sampleStart_exec]
    decide +kernel
  exact ((noFalseExhaustion_iff sampleImage (fun _ => 0) sampleParams sessionCalls
    (sessionCalls.foldl Session.exec sampleStart) rfl).2 sessionCalls_met).mpr (.inl hopen)

-- 128 bitmap words, 19 frames reserved at boot: after 109 more the guard is closed.
def fullCalls : List Session.Call := [.allocate windows (.block 109)]

theorem not_noFalseExhaustion_full :
    AllSteps Session.exec Session.Lawful sampleStart fullCalls ∧
      ¬NoFalseExhaustion (fullCalls.foldl Session.exec sampleStart).pmm := by
  have hgets : samplePmm.Gets (Allocation.block 109).frames 8 :=
    getFreeFrameBySize_iff_gets.mp (by decide +kernel)
  have hkernel : samplePmm.SparesKernel windows (.block 109) :=
    hgets.sparesKernel_windows (.inl (by decide)) (by decide) (by decide +kernel) (by decide +kernel)
  have hpmm : (fullCalls.foldl Session.exec sampleStart).pmm =
      (samplePmm.takeFrames 8 109).memset windows 0x8000 (109 * PER_BLOCK_SIZE) := by
    rw [fullCalls, List.foldl_cons, sampleStart, Session.exec, hgets.allocateThrough]
    rfl
  constructor
  · refine ⟨?_, trivial⟩
    unfold Session.Lawful sampleStart
    dsimp only
    exact hkernel
  · rw [hpmm]
    intro hno
    refine (hno windows).2 ?_ ⟨1, by decide +kernel, ?_⟩
    · rw [allocateThrough_fst, allocate, allocateChunk_eq_allocateBlock, allocateBlock_of_closed]
      decide +kernel
    · have hclear : (samplePmm.takeFrames 8 109).testBit 1 = false := by decide +kernel
      rw [testBit_memset, hclear, Bool.false_and]

end ToyKernel.Pmm
