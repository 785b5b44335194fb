import ToyKernel.Library.Ledger
import ToyKernel.Pmm.Accounting

namespace ToyKernel.Pmm

open Library FirstFit

-- With frame 0 in use no run of clear bits can reach round the end of the index range.
theorem Clear.fit {p : Pmm} {start size : Nat} (hc : Clear p.marked start size)
    (hzero : p.testBit 0 = true) (hlt : start < 4294967296) : start + size ≤ 4294967296 := by
  by_contra hn
  have hwrap := hc.cell 4294967296 (by omega) (by omega)
  have hz : u32 4294967296 = 0 := rfl
  rw [marked, hz, hzero] at hwrap
  cases hwrap

-- A block in a client's hands, as the address and the number of frames it was given.
structure Block where
  base : Nat
  frames : Nat
  deriving DecidableEq

def Block.frameSet (b : Block) : Set Nat :=
  {f | b.base / PER_BLOCK_SIZE ≤ f ∧ f < b.base / PER_BLOCK_SIZE + b.frames}

theorem Block.mem_frameSet_mk (frame frames f : Nat) :
    f ∈ Block.frameSet ⟨frame * PER_BLOCK_SIZE, frames⟩ ↔ frame ≤ f ∧ f < frame + frames := by
  have hdiv : frame * PER_BLOCK_SIZE / PER_BLOCK_SIZE = frame := Nat.mul_div_cancel _ (by decide)
  change frame * PER_BLOCK_SIZE / PER_BLOCK_SIZE ≤ f ∧
    f < frame * PER_BLOCK_SIZE / PER_BLOCK_SIZE + frames ↔ _
  rw [hdiv]

-- The PMM together with what its clients hold.
structure Session where
  pmm : Pmm
  held : List Block

-- The address 0 is a refusal.
def Session.grant (s : Session) (result : Nat × Pmm) (frames : Nat) : Session :=
  { pmm := result.2, held := if result.1 = 0 then s.held else ⟨result.1, frames⟩ :: s.held }

-- What the clients call; an allocation comes with where its memset goes.
inductive Session.Call where
  | allocate (view : View) (a : Allocation)
  | release (b : Block)
  | releaseBySize (b : Block) (size : Nat)

def Session.exec (s : Session) : Session.Call → Session
  | .allocate view a => s.grant (s.pmm.allocateThrough view a) a.frames
  | .release b => { pmm := s.pmm.deallocateMemory b.base, held := s.held.erase b }
  | .releaseBySize b size => { pmm := s.pmm.deallocateMemoryBySize b.base size, held := s.held.erase b }

-- Blocks are given back exactly as they were handed out, and the kernel does not clear its own image.
def Session.Lawful (s : Session) : Session.Call → Prop
  | .allocate view a => s.pmm.SparesKernel view a
  | .release b => b ∈ s.held
  | .releaseBySize b size => b ∈ s.held ∧ pagesFor size = b.frames

def Session.SparesArray (s : Session) : Session.Call → Prop
  | .allocate view a => s.pmm.Spares view a
  | _ => True

-- Right after INIT_MEMORY
def Session.start (image : KernelImage) (ram : Nat → BitVec 32) (params : BootParams) : Session where
  pmm := initMemory image ram params
  held := []

def markedFrames (p : Pmm) : Set Nat := {f | p.testBit f = true}

-- The ledger a session stands for: bits are the used cells, held blocks the held sets.
structure Tracks (start : Pmm) (s : Session) (l : Ledger (markedFrames start)) : Prop where
  geometry : SameGeometry start s.pmm
  used_eq : l.used = markedFrames s.pmm
  held_eq : l.held = s.held.map Block.frameSet
  held_pos : ∀ b ∈ s.held, 0 < b.frames
  held_le : ∀ b ∈ s.held, b.base / PER_BLOCK_SIZE + b.frames ≤ 4294967296

section Steps

variable {start : Pmm} {s : Session} {l : Ledger (markedFrames start)}

-- Bit 0 stays set: it was reserved before the session began.
theorem Tracks.testBit_zero (h : Tracks start s l) (hzero : 0 < start.totalBlock → start.testBit 0)
    (hmem : 0 < s.pmm.totalBlock) : s.pmm.testBit 0 = true := by
  rw [h.geometry.totalBlock_eq] at hmem
  have hm : 0 ∈ l.used := l.reserved_subset (hzero hmem)
  rwa [h.used_eq] at hm

theorem Tracks.grant (h : Tracks start s l) (hzero : 0 < start.totalBlock → start.testBit 0)
    (size : Nat) : ∃ l', Tracks start (s.grant (s.pmm.allocateBlock size) size) l' := by
  rcases s.pmm.allocateBlock_cases size with ⟨_, he⟩ | ⟨frame, hf, hpos, hopen, hlt, he⟩
  · rw [he]
    exact ⟨l, h⟩
  · have hz := h.testBit_zero hzero (by omega)
    have hfit := Clear.fit hf.clear hz (by omega)
    have hne : frame ≠ 0 := by
      rintro rfl
      have hc := hf.clear 0 hpos
      rw [Nat.add_zero, marked_of_lt _ (by omega), hz] at hc
      cases hc
    have hbase : frame * PER_BLOCK_SIZE ≠ 0 := Nat.mul_ne_zero hne (by decide)
    have hdiv : frame * PER_BLOCK_SIZE / PER_BLOCK_SIZE = frame := Nat.mul_div_cancel _ (by decide)
    have hfree : Disjoint l.used (Block.frameSet ⟨frame * PER_BLOCK_SIZE, size⟩) := by
      rw [h.used_eq, Set.disjoint_left]
      intro f hused hblock
      obtain ⟨hlo, hhi⟩ := (Block.mem_frameSet_mk frame size f).mp hblock
      have hc := hf.clear.cell f hlo hhi
      rw [marked_of_lt _ (by omega)] at hc
      have hm : s.pmm.testBit f = true := hused
      rw [hc] at hm
      cases hm
    rw [he, Session.grant, if_neg hbase]
    refine ⟨l.grant _ hfree, h.geometry.trans (sameGeometry_takeFrames _ _ _), ?_, ?_, ?_, ?_⟩
    · change l.used ∪ _ = _
      rw [h.used_eq]
      ext f
      change s.pmm.testBit f = true ∨ _ ↔ (s.pmm.takeFrames frame size).testBit f = true
      rw [Block.mem_frameSet_mk, testBit_takeFrames _ _ _ _ hfit, Bool.or_eq_true,
        decide_eq_true_eq, or_comm]
    · simp [Ledger.grant, h.held_eq]
    · intro b hb
      rcases List.mem_cons.mp hb with rfl | hb
      · exact hpos
      · exact h.held_pos b hb
    · intro b hb
      rcases List.mem_cons.mp hb with rfl | hb
      · rw [hdiv]
        exact hfit
      · exact h.held_le b hb

-- Dropping a prefix of a held block, and with it the claim to the rest.
theorem Tracks.release (h : Tracks start s l) {b : Block} (hheld : b ∈ s.held) (count : Nat)
    (hcount : count ≤ b.frames) :
    ∃ l', Tracks start
      { pmm := s.pmm.dropFrames (b.base / PER_BLOCK_SIZE) count, held := s.held.erase b } l' := by
  have hperm : l.held.Perm (b.frameSet :: (s.held.erase b).map Block.frameSet) := by
    rw [h.held_eq]
    exact (List.perm_cons_erase hheld).map Block.frameSet
  have hle := h.held_le b hheld
  have hsub : {f | b.base / PER_BLOCK_SIZE ≤ f ∧ f < b.base / PER_BLOCK_SIZE + count} ⊆ b.frameSet :=
    fun f hf => ⟨hf.1, by have := hf.2; omega⟩
  refine ⟨l.release hperm _ hsub, h.geometry.trans (sameGeometry_dropFrames _ _ _), ?_, rfl,
    fun c hc => h.held_pos c (List.mem_of_mem_erase hc),
    fun c hc => h.held_le c (List.mem_of_mem_erase hc)⟩
  change l.used \ _ = _
  rw [h.used_eq]
  ext f
  change s.pmm.testBit f = true ∧ ¬_ ↔ (s.pmm.dropFrames _ count).testBit f = true
  rw [testBit_dropFrames _ _ _ _ (by omega), Bool.and_eq_true, decide_eq_true_eq, and_comm]
  rfl

theorem Tracks.step (h : Tracks start s l) (hzero : 0 < start.totalBlock → start.testBit 0)
    {c : Session.Call} (hlawful : s.Lawful c) (hspares : s.SparesArray c) :
    ∃ l', Tracks start (s.exec c) l' := by
  cases c with
  | allocate view a =>
      have hplain : s.pmm.allocateThrough view a = s.pmm.allocateBlock a.frames :=
        hspares.allocateThrough.trans (allocate_eq_allocateBlock _ _)
      rw [Session.exec, hplain]
      exact h.grant hzero a.frames
  | release b =>
      have hle := h.held_le b hlawful
      have hpos := h.held_pos b hlawful
      have hone : s.pmm.deallocateMemory b.base = s.pmm.dropFrames (b.base / PER_BLOCK_SIZE) 1 := by
        rw [dropFrames_succ, dropFrames_zero, Nat.add_zero, u32_of_lt (by omega)]
        rfl
      rw [Session.exec, hone]
      exact h.release hlawful 1 hpos
  | releaseBySize b size => exact h.release hlawful.1 (pagesFor size) (Nat.le_of_eq hlawful.2)

theorem tracks_start (start : Pmm) : Tracks start { pmm := start, held := [] } (Ledger.start _) :=
  ⟨SameGeometry.refl start, rfl, rfl, by simp, by simp⟩

-- Every session reached stands for a ledger, whatever the order of calls.
theorem exists_tracks (hzero : 0 < start.totalBlock → start.testBit 0) {calls : List Session.Call}
    (hmet : AllSteps Session.exec (fun s c => s.Lawful c ∧ s.SparesArray c) ⟨start, []⟩ calls) :
    ∃ l, Tracks start (calls.foldl Session.exec ⟨start, []⟩) l :=
  foldl_invariant (fun s => ∃ l, Tracks start s l) (fun _ _ ⟨_, hl⟩ hc => hl.step hzero hc.1 hc.2)
    ⟨_, tracks_start start⟩ hmet

end Steps

-- No two held blocks share a frame, and none has a frame that is marked in `start`.
structure Exclusive (start : Pmm) (s : Session) : Prop where
  pairwise : s.held.Pairwise (fun b c => Disjoint b.frameSet c.frameSet)
  apart : ∀ b ∈ s.held, Disjoint (markedFrames start) b.frameSet

theorem Tracks.exclusive {start : Pmm} {s : Session} {l : Ledger (markedFrames start)}
    (h : Tracks start s l) : Exclusive start s := by
  have hpairwise := l.pairwise
  rw [h.held_eq, List.pairwise_map] at hpairwise
  refine ⟨hpairwise, fun b hb => l.apart _ ?_⟩
  rw [h.held_eq]
  exact List.mem_map_of_mem hb

-- After INIT_MEMORY the blocks stay apart for as long as no memset takes a mark away.
theorem held_exclusive (image : KernelImage) (ram : Nat → BitVec 32) (params : BootParams)
    (calls : List Session.Call)
    (hmet : AllSteps Session.exec (fun s c => s.Lawful c ∧ s.SparesArray c)
      (Session.start image ram params) calls) :
    Exclusive (initMemory image ram params)
      (calls.foldl Session.exec (Session.start image ram params)) := by
  obtain ⟨l, hl⟩ := exists_tracks (initMemory_testBit_zero image ram params) hmet
  exact hl.exclusive

section Sample

-- Two frames at once, a single one, and after the release of the first two one of these again.
def sessionCalls : List Session.Call :=
  [.allocate windows (.block 2), .allocate windows .chunk, .releaseBySize ⟨0x1000, 2⟩ 0x2000,
    .allocate windows .chunk]

def sampleStart : Session := { pmm := samplePmm, held := [] }

def sampleTwo : Session := { pmm := samplePmm.takeFrames 1 2, held := [⟨0x1000, 2⟩] }

theorem samplePmm_gets : samplePmm.Gets (Allocation.block 2).frames 1 :=
  getFreeFrameBySize_iff_gets.mp (by decide +kernel)

theorem samplePmm_spares : samplePmm.Spares windows (.block 2) :=
  (accounted_initMemory _ _).spares_windows samplePmm_gets (by decide) (by decide) (by decide +kernel)
    (by decide +kernel)

theorem sampleStart_exec : sampleStart.exec (.allocate windows (.block 2)) = sampleTwo := by
  have hgrant := samplePmm_spares.allocateThrough.trans samplePmm_gets.allocate
  rw [sampleStart, Session.exec, hgrant, Session.grant, if_neg (by decide)]
  rfl

theorem sessionCalls_met :
    AllSteps Session.exec (fun s c => s.Lawful c ∧ s.SparesArray c) sampleStart sessionCalls := by
  have hkernel : samplePmm.SparesKernel windows (.block 2) :=
    samplePmm_gets.sparesKernel_windows (.inl (by decide)) (by decide) (by decide +kernel) (by decide +kernel)
  have hrest : AllSteps Session.exec (fun s c => s.Lawful c ∧ s.SparesArray c) sampleTwo
      (sessionCalls.drop 1) :=
    ⟨⟨sparesKernel_chunk _ _, spares_chunk _ _⟩, ⟨⟨by decide +kernel, by decide⟩, trivial⟩,
      ⟨sparesKernel_chunk _ _, spares_chunk _ _⟩, trivial⟩
  rw [← sampleStart_exec] at hrest
  refine ⟨⟨?_, ?_⟩, hrest⟩
  · unfold Session.Lawful sampleStart
    dsimp only
    exact hkernel
  · unfold Session.SparesArray sampleStart
    dsimp only
    exact samplePmm_spares

theorem held_exclusive_sample :
    (sessionCalls.foldl Session.exec sampleStart).held = [⟨0x1000, 1⟩, ⟨0x3000, 1⟩] ∧
      Exclusive samplePmm (sessionCalls.foldl Session.exec sampleStart) := by
  refine ⟨?_, held_exclusive sampleImage (fun _ => 0) sampleParams sessionCalls sessionCalls_met⟩
  rw [sessionCalls, List.foldl_cons, sampleStart_exec]
  decide +kernel

end Sample

section Array

def bigStart : Session := Session.start sampleImage (fun _ => 0) bigParams

-- On the machine with 64 MiB single frames are handed out up to the end of the image.
def filling : List Session.Call := List.replicate 270 (.allocate windows .chunk)

def filled : Session := filling.foldl Session.exec bigStart

-- The next block is the one that holds the array.
def wiping : List Session.Call :=
  [.allocate windows (.block 1), .allocate windows .chunk, .allocate windows .chunk]

theorem filled_eq : filled.pmm.getFreeFrameBySize 1 = some 272 ∧ filled.pmm.totalUsedBlocks = 289 ∧
    filled.pmm.totalMemory = 0x4000000 ∧ filled.pmm.bitMap = 0xC0010000 ∧
    filled.pmm.kernelStartAddr = 0xC0000000 ∧ filled.pmm.kernelEndAddr = 0xC0010000 ∧
    ⟨0x1000, 1⟩ ∈ filled.held := by decide +kernel

-- The array after the memset
def wiped : Pmm := (filled.pmm.takeFrames 272 1).memset windows (272 * PER_BLOCK_SIZE) 4096

theorem filled_gets : filled.pmm.Gets (Allocation.block 1).frames 272 :=
  getFreeFrameBySize_iff_gets.mp filled_eq.1

theorem testBit_wiped {bit : Nat} (h : bit < 32768) : wiped.testBit bit = false := by
  have harray := filled_eq.2.2.2.1
  have hbase : KERNEL_VIRT_BASE = 0xC0000000 := rfl
  have hkernel : KERNEL_ADDRESS = 0x100000 := rfl
  have hblock : 272 * PER_BLOCK_SIZE = 0x110000 := rfl
  have hmeets : filled.pmm.wipes windows (272 * PER_BLOCK_SIZE) 4096 (bit / 8) = true :=
    meets_windows_of_mem (by omega) (by omega) (by omega) (by omega) (by omega)
  rw [wiped, testBit_memset, wipes_takeFrames, hmeets, Bool.not_true, Bool.and_false]

theorem wiped_geometry : wiped.totalMemory = 0x4000000 ∧ wiped.totalUsedBlocks = 290 := by
  have hsame : SameGeometry filled.pmm wiped :=
    (sameGeometry_takeFrames _ _ _).trans (sameGeometry_memset _ _ _ _)
  refine ⟨hsame.totalMemory.trans filled_eq.2.2.1, ?_⟩
  rw [wiped, totalUsedBlocks_memset, totalUsedBlocks_takeFrames, filled_eq.2.1]
  decide

theorem exec_chunk {s : Session} {frame : Nat} (view : View) (h : s.pmm.Gets 1 frame) :
    s.exec (.allocate view .chunk) = s.grant (frame * PER_BLOCK_SIZE, s.pmm.takeFrames frame 1) 1 := by
  have hgets : s.pmm.Gets Allocation.chunk.frames frame := h
  rw [Session.exec, (spares_chunk view s.pmm).allocateThrough, hgets.allocate]
  rfl

-- Frame 0 looks clear and is refused, then frame 1 is handed out once more.
theorem filled_wiping : ∃ pmm held, wiping.foldl Session.exec filled = ⟨pmm, ⟨0x1000, 1⟩ :: held⟩ ∧
    ⟨0x1000, 1⟩ ∈ held := by
  have hblock : filled.exec (.allocate windows (.block 1)) = ⟨wiped, ⟨0x110000, 1⟩ :: filled.held⟩ := by
    rw [Session.exec, filled_gets.allocateThrough, Session.grant, if_neg (by decide)]
    rfl
  obtain ⟨hmemory, hused⟩ := wiped_geometry
  have htotal : wiped.totalBlock = 512 := by
    rw [totalBlock, totalPages, hmemory]
    decide
  have hzero : wiped.Gets 1 0 := by
    apply gets_one _ (by omega) (testBit_wiped (by omega)) (by simp)
    rw [hused, htotal]
    decide
  have hone : (wiped.takeFrames 0 1).Gets 1 1 := by
    have hsame := (sameGeometry_takeFrames wiped 0 1).totalBlock_eq
    apply gets_one _ (by omega)
    · rw [testBit_takeFrames _ _ _ _ (by omega), testBit_wiped (by omega)]
      decide
    · intro other hother
      rw [testBit_takeFrames _ _ _ _ (by omega)]
      simp [show other = 0 by omega]
    · rw [totalUsedBlocks_takeFrames, hused, hsame, htotal]
      decide
  have hchunk : (⟨wiped, ⟨0x110000, 1⟩ :: filled.held⟩ : Session).exec (.allocate windows .chunk) =
      ⟨wiped.takeFrames 0 1, ⟨0x110000, 1⟩ :: filled.held⟩ := exec_chunk windows hzero
  have hlast : (⟨wiped.takeFrames 0 1, ⟨0x110000, 1⟩ :: filled.held⟩ : Session).exec (.allocate windows .chunk) =
      ⟨(wiped.takeFrames 0 1).takeFrames 1 1, ⟨0x1000, 1⟩ :: ⟨0x110000, 1⟩ :: filled.held⟩ :=
    exec_chunk windows hone
  refine ⟨(wiped.takeFrames 0 1).takeFrames 1 1, ⟨0x110000, 1⟩ :: filled.held, ?_,
    List.mem_cons_of_mem _ filled_eq.2.2.2.2.2.2⟩
  rw [wiping, List.foldl_cons, hblock, List.foldl_cons, hchunk, List.foldl_cons, hlast, List.foldl_nil]

theorem not_held_exclusive_array :
    AllSteps Session.exec Session.Lawful bigStart (filling ++ wiping) ∧
      ¬Exclusive (initMemory sampleImage (fun _ => 0) bigParams)
        ((filling ++ wiping).foldl Session.exec bigStart) := by
  constructor
  · have hfilling : AllSteps Session.exec Session.Lawful bigStart filling := by
      apply allSteps_of_forall
      intro s c hc
      rw [List.eq_of_mem_replicate hc]
      exact sparesKernel_chunk _ _
    have hkernel : filled.pmm.SparesKernel windows (.block 1) := by
      obtain ⟨-, -, -, -, hstart, hend, -⟩ := filled_eq
      have hbase : KERNEL_VIRT_BASE = 0xC0000000 := rfl
      have haddress : KERNEL_ADDRESS = 0x100000 := rfl
      have hblock : 272 * PER_BLOCK_SIZE = 0x110000 := rfl
      have hcleared : (Allocation.block 1).cleared = 4096 := rfl
      exact filled_gets.sparesKernel_windows (.inr (by omega)) (by omega) (by omega) (by omega)
    exact (allSteps_append _ _ _ _).mpr
      ⟨hfilling, hkernel, sparesKernel_chunk _ _, sparesKernel_chunk _ _, trivial⟩
  · intro h
    obtain ⟨pmm, held, hrun, hmem⟩ := filled_wiping
    have hpairwise := h.pairwise
    rw [List.foldl_append] at hpairwise
    change (wiping.foldl Session.exec filled).held.Pairwise _ at hpairwise
    rw [hrun] at hpairwise
    have hself := List.rel_of_pairwise_cons hpairwise hmem
    have hframe : (1 : Nat) ∈ Block.frameSet ⟨0x1000, 1⟩ := (Block.mem_frameSet_mk 1 1 1).mpr (by omega)
    exact Set.disjoint_left.mp hself hframe hframe

end Array

end ToyKernel.Pmm
