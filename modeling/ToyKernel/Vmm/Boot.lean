import ToyKernel.Pmm.Reservation
import ToyKernel.Vmm.Steps
import Mathlib.Data.Finset.Card

namespace ToyKernel

open Library ByteMemory FirstFit

-- Room for `n` frames, one at a time: the guard of the allocators stays open, and `n` free
-- frames lie below 4 MiB and below every free frame of `kept`.
def Room (kept : Set Nat) (p : Pmm) (n : Nat) : Prop :=
  p.totalUsedBlocks.toNat + n ≤ p.totalBlock ∧
    ∃ free : Finset Nat, free.card = n ∧ ∀ f ∈ free,
      f < 1024 ∧ f < 32 * p.totalBlock ∧ p.testBit f = false ∧
        ∀ g ∈ kept, p.testBit g = false → f < g

theorem Room.mono {kept kept' : Set Nat} {p : Pmm} {n : Nat} (h : Room kept p n) (hsub : kept' ⊆ kept) :
    Room kept' p n := by
  obtain ⟨hopen, free, hcard, hfree⟩ := h
  refine ⟨hopen, free, hcard, fun f hf => ?_⟩
  obtain ⟨hlow, hend, hunmarked, hkept⟩ := hfree f hf
  exact ⟨hlow, hend, hunmarked, fun g hg => hkept g (hsub hg)⟩

-- With nothing to keep it is enough to name the frames.
theorem room_of_free {p : Pmm} (free : Finset Nat)
    (hopen : p.totalUsedBlocks.toNat + free.card ≤ p.totalBlock)
    (hfree : ∀ f ∈ free, f < 1024 ∧ f < 32 * p.totalBlock ∧ p.testBit f = false) : Room ∅ p free.card := by
  refine ⟨hopen, free, rfl, fun f hf => ?_⟩
  obtain ⟨hlow, hend, hunmarked⟩ := hfree f hf
  exact ⟨hlow, hend, hunmarked, fun g hg => absurd hg (Set.notMem_empty g)⟩

theorem Room.take {kept : Set Nat} {p : Pmm} {n : Nat} (h : Room kept p (n + 1)) :
    ∃ frame, p.getFreeFrameBySize 1 = some frame ∧ Taken p (p.takeFrames frame 1) frame 1 ∧
      Room kept (p.takeFrames frame 1) n := by
  obtain ⟨hopen, free, hcard, hfree⟩ := h
  have hblock := p.totalBlock_le
  have hclear : ∀ f ∈ free, Clear p.marked f 1 := by
    intro f hf
    rw [clear_one_iff, Pmm.marked_of_lt p (by have := (hfree f hf).1; omega)]
    exact (hfree f hf).2.2.1
  obtain ⟨some₀, hsome₀⟩ : free.Nonempty := Finset.card_pos.mp (by omega)
  obtain ⟨frame, hfirst⟩ := exists_isFirst (hfree some₀ hsome₀).2.1 (hclear some₀ hsome₀)
  have hlt : frame < 1024 := Nat.lt_of_le_of_lt (hfirst.least _ (hclear _ hsome₀)) (hfree _ hsome₀).1
  have hbit : p.testBit frame = false := by
    rw [← Pmm.marked_of_lt p (by omega)]
    exact hfirst.clear 0 (by omega)
  -- the frame that is taken, or any other one if it is not among the chosen
  obtain ⟨out, hout, hne⟩ : ∃ out ∈ free, ∀ f ∈ free.erase out, f ≠ frame := by
    by_cases hmem : frame ∈ free
    · exact ⟨frame, hmem, fun f hf => Finset.ne_of_mem_erase hf⟩
    · exact ⟨some₀, hsome₀, fun f hf he => hmem (he ▸ Finset.mem_of_mem_erase hf)⟩
  have hafter : ∀ f, (p.takeFrames frame 1).testBit f =
      (decide (frame ≤ f ∧ f < frame + 1) || p.testBit f) :=
    fun f => Pmm.testBit_takeFrames p frame 1 f (by omega)
  have hgeometry := (Pmm.sameGeometry_takeFrames p frame 1).totalBlock_eq
  refine ⟨frame, (p.getFreeFrameBySize_eq_some_iff 1 frame).mpr ⟨by omega, by omega, hfirst⟩,
    ⟨by omega, fun f hlo hhi => by rwa [show f = frame by omega], rfl⟩, ?_,
    free.erase out, ?_, fun f hf => ?_⟩
  · rw [Pmm.totalUsedBlocks_takeFrames, hgeometry, BitVec.toNat_add]
    change (p.totalUsedBlocks.toNat + 1) % 4294967296 + n ≤ _
    omega
  · rw [Finset.card_erase_of_mem hout, hcard]
    rfl
  · obtain ⟨hlow, hend, hunmarked, hkept⟩ := hfree f (Finset.mem_of_mem_erase hf)
    have hfn := hne f hf
    refine ⟨hlow, by rwa [hgeometry], ?_, fun g hg hgb => hkept g hg ?_⟩
    · rw [hafter, hunmarked, Bool.or_false, decide_eq_false (by omega)]
    · rw [hafter, Bool.or_eq_false_iff] at hgb
      exact hgb.2

-- The tables while paging is still off.
structure Draft (k : Kernel) (directory : Nat) (table : Nat → Option Nat) : Prop
    extends Tables k.pmm k.memory directory table where
  paging : k.paging = false
  current : k.currentPageDirectory = 4096 * directory

namespace Kernel

variable {k : Kernel}

-- Without paging every access is to the memory itself.
theorem access_off (k : Kernel) (h : k.paging = false) {α : Type} (address count : Nat) (act : α) :
    k.access address count act = .ok act := by
  apply if_pos
  intro i _
  simp [translate, h]

theorem zero_off (k : Kernel) (h : k.paging = false) (address count : Nat) :
    k.zero address count = .ok { k with memory := fill k.memory address count 0 } :=
  k.access_off h address count _

theorem update32_off (k : Kernel) (h : k.paging = false) (address : Nat) (f : BitVec 32 → BitVec 32) :
    k.update32 address f =
      .ok { k with memory := store32 k.memory address (f (load32 k.memory address)) } :=
  k.access_off h address 4 _

theorem allocateBlock_off (h : k.paging = false) (hzero : k.pmm.testBit 0 = true) {kept : Set Nat}
    {n : Nat} (hroom : Room kept k.pmm (n + 1)) :
    ∃ frame, frame ≠ 0 ∧ k.allocateBlock 1 = .ok (4096 * frame,
        { k with
          pmm := (k.pmm.allocateBlock 1).2
          memory := fill k.memory (4096 * frame) 4096 0 }) ∧
      Taken k.pmm (k.pmm.allocateBlock 1).2 frame 1 ∧ Room kept (k.pmm.allocateBlock 1).2 n := by
  obtain ⟨frame, hfound, htaken, hroom'⟩ := hroom.take
  have hend := htaken.end_le
  have haddress : u32 (frame * PER_BLOCK_SIZE) = 4096 * frame := by
    rw [Nat.mul_comm]
    apply u32_of_lt
    change 4096 * frame < _
    omega
  have hresult : k.pmm.allocateBlock 1 = (4096 * frame, k.pmm.takeFrames frame 1) := by
    unfold Pmm.allocateBlock
    simp only [hfound, haddress]
  refine ⟨frame, ?_, ?_, by rwa [hresult], by rwa [hresult]⟩
  · intro hz
    have hfree := htaken.free frame (by omega) (by omega)
    rw [hz, hzero] at hfree
    cases hfree
  · unfold Kernel.allocateBlock
    simp only [hfound, hresult]
    rw [zero_off]
    · rfl
    · exact h

theorem setupPageDirectoryTable_off (h : k.paging = false) (hzero : k.pmm.testBit 0 = true)
    {kept : Set Nat} {n : Nat} (hroom : Room kept k.pmm (n + 1)) :
    ∃ k' directory, k.setupPageDirectoryTable = .ok k' ∧ directory ≠ 0 ∧
      k.pmm.testBit directory = false ∧ Draft k' directory (fun _ => none) ∧
      (∀ b, b / 4096 ≠ directory → k'.memory b = k.memory b) ∧
      k'.pmm = (k.pmm.allocateBlock 1).2 ∧ Room kept k'.pmm n := by
  obtain ⟨directory, hne, halloc, htaken, hroom'⟩ := allocateBlock_off h hzero hroom
  have hend := htaken.end_le
  have hpos : ¬4096 * directory = 0 := by omega
  refine ⟨{ k with
      pmm := (k.pmm.allocateBlock 1).2
      currentPageDirectory := 4096 * directory
      memory := fill (fill k.memory (4096 * directory) 4096 0) (4096 * directory) PAGE_SIZE 0 },
    directory, ?_, hne, htaken.free directory (by omega) (by omega), ?_, fun b hb => ?_, rfl, hroom'⟩
  · unfold setupPageDirectoryTable
    rw [halloc]
    simp only [ok_bind, if_neg hpos]
    rw [zero_off]
    exact h
  · refine ⟨⟨by omega, htaken.taken (by omega) (by omega), fun i hi _ => ?_, ?_, ?_, ?_, ?_, ?_⟩, h, rfl⟩
    · apply load32_fill_zero (by omega)
      change 4096 * directory + 4 * i + 4 ≤ 4096 * directory + 4096
      omega
    all_goals
      intros
      contradiction
  · have hpage : PAGE_SIZE = 4096 := rfl
    change fill (fill k.memory _ _ 0) _ PAGE_SIZE 0 b = _
    rw [fill_of_apart (by omega), fill_of_apart (by omega)]

end Kernel

-- The memory once the table in the frame `t` maps the 4 MiB from `frame` on, and entry `i`
-- of the directory points to it.
def tableMemory (m : Memory) (directory t frame i : Nat) : Memory :=
  store32
    (storeTable (fill (fill m (4096 * t) 4096 0) (4096 * t) PAGE_SIZE 0) (4096 * t)
      (fun f => SET_FRAME (PTE_PRESENT ||| PTE_READ_WRITE) (frame + f * PAGE_SIZE)) 1024)
    (4096 * directory + 4 * i) (SET_FRAME (PTE_PRESENT ||| PTE_READ_WRITE) (4096 * t))

section TableMemory

variable {m : Memory} {directory t frame i : Nat}

theorem tableMemory_entry : load32 (tableMemory m directory t frame i) (4096 * directory + 4 * i) =
    SET_FRAME (PTE_PRESENT ||| PTE_READ_WRITE) (4096 * t) := load32_store32_self ..

theorem tableMemory_table (hne : t ≠ directory) (hi : i < 1024) {f : Nat} (hf : f < 1024) :
    load32 (tableMemory m directory t frame i) (4096 * t + 4 * f) =
      SET_FRAME (PTE_PRESENT ||| PTE_READ_WRITE) (frame + f * PAGE_SIZE) := by
  unfold tableMemory
  rw [load32_store32_of_apart (by omega)]
  exact load32_storeTable hf _

theorem tableMemory_of_frame (hi : i < 1024) {b : Nat} (ht : b / 4096 ≠ t) (hd : b / 4096 ≠ directory) :
    tableMemory m directory t frame i b = m b := by
  have hpage : PAGE_SIZE = 4096 := rfl
  unfold tableMemory
  rw [store32_of_ne (by omega), storeTable_of_apart (by omega), fill_of_apart (by omega),
    fill_of_apart (by omega)]

theorem tableMemory_of_apart {b : Nat} (htable : b + 4 ≤ 4096 * t ∨ 4096 * t + 4096 ≤ b)
    (hentry : b + 4 ≤ 4096 * directory + 4 * i ∨ 4096 * directory + 4 * i + 4 ≤ b) :
    load32 (tableMemory m directory t frame i) b = load32 m b := by
  have hpage : PAGE_SIZE = 4096 := rfl
  unfold tableMemory
  rw [load32_store32_of_apart hentry, load32_storeTable_of_apart (by omega),
    load32_fill_of_apart (by omega), load32_fill_of_apart (by omega)]

theorem tableMemory_mapsFrom (hne : t ≠ directory) (hi : i < 1024) (haligned : frame % 4096 = 0)
    (hframe : frame + 4194304 ≤ 4294967296) :
    MapsFrom (tableMemory m directory t frame i) t frame := by
  intro f hf
  rw [tableMemory_table hne hi hf]
  exact ⟨isPresent_SET_FRAME _ _ (by decide), table_entry haligned (by omega)⟩

end TableMemory

namespace Draft

variable {k : Kernel} {directory : Nat} {table : Nat → Option Nat}

-- Either of the two tables that stand before paging is enabled.
theorem setupTable (h : Draft k directory table) (hzero : k.pmm.testBit 0 = true) {kept : Set Nat}
    {n : Nat} (hroom : Room kept k.pmm (n + 1)) (frame virt : Nat) (hvirt : PD_INDEX virt < 1024)
    (habsent : table (PD_INDEX virt) = none) :
    ∃ k' t, k.setupTable frame virt = .ok k' ∧ k.pmm.testBit t = false ∧ ¬Uses directory table t ∧
      Draft k' directory (Function.update table (PD_INDEX virt) (some t)) ∧
      k'.memory = tableMemory k.memory directory t frame (PD_INDEX virt) ∧
      k'.pmm = (k.pmm.allocateBlock 1).2 ∧ Room kept k'.pmm n := by
  obtain ⟨t, hne, halloc, htaken, hroom'⟩ := Kernel.allocateBlock_off h.paging hzero hroom
  have hend := htaken.end_le
  have hpos : ¬4096 * t = 0 := by omega
  have hfree : k.pmm.testBit t = false := htaken.free t (by omega) (by omega)
  have hnew : ¬Uses directory table t := h.not_uses hfree
  have htd : t ≠ directory := fun he => hnew (Or.inl he)
  -- the memory once the table is written, and the directory entry still to come
  let m := storeTable (fill (fill k.memory (4096 * t) 4096 0) (4096 * t) PAGE_SIZE 0) (4096 * t)
    (fun f => SET_FRAME (PTE_PRESENT ||| PTE_READ_WRITE) (frame + f * PAGE_SIZE)) 1024
  have htables : Tables (k.pmm.allocateBlock 1).2 m directory table := by
    apply h.toTables.keep htaken.marks
    intro i hi
    have hpage : PAGE_SIZE = 4096 := rfl
    rw [load32_storeTable_of_apart (by omega), load32_fill_of_apart (by omega),
      load32_fill_of_apart (by omega)]
  have haddress : PAGE_PHYS_ADDRESS (SET_FRAME (PTE_PRESENT ||| PTE_READ_WRITE) (4096 * t)) = 4096 * t :=
    frame_entry (by decide) (by decide) (by omega)
  have hadd := htables.addTable (PD_INDEX virt) t (by omega) (htaken.taken (by omega) (by omega)) hnew
    (isPresent_SET_FRAME _ _ (by decide)) haddress
  refine ⟨{ k with
      pmm := (k.pmm.allocateBlock 1).2
      memory := tableMemory k.memory directory t frame (PD_INDEX virt) },
    t, ?_, hfree, hnew, ⟨hadd, h.paging, h.current⟩, rfl, rfl, hroom'⟩
  have hold := htables.absent _ hvirt habsent
  unfold Kernel.setupTable
  rw [halloc]
  simp only [Kernel.ok_bind, if_neg hpos]
  rw [Kernel.zero_off, Kernel.ok_bind, Kernel.access_off, Kernel.ok_bind, Kernel.update32_off]
  · change Except.ok { k with
      pmm := (k.pmm.allocateBlock 1).2
      memory := store32 m (k.currentPageDirectory + 4 * PD_INDEX virt)
        (SET_FRAME (load32 m (k.currentPageDirectory + 4 * PD_INDEX virt) ||| PTE_PRESENT |||
          PTE_READ_WRITE) (4096 * t)) } = _
    rw [h.current, hold]
    rfl
  all_goals exact h.paging

end Draft

-- The tables after INITIALIZE_VMEMORY: one for the first 4 MiB, one for the kernel's own.
def bootTables (low high : Nat) : Nat → Option Nat :=
  Function.update (Function.update (fun _ => none) (PD_INDEX KERNEL_VIRT_BASE) (some high))
    (PD_INDEX 0) (some low)

theorem bootTables_high (low high : Nat) : bootTables low high (PD_INDEX 0xC0000000) = some high := rfl

theorem bootTables_cases (low high i : Nat) :
    i = 0 ∧ bootTables low high i = some low ∨ i = 768 ∧ bootTables low high i = some high ∨
      i ≠ 0 ∧ i ≠ 768 ∧ bootTables low high i = none := by
  by_cases h0 : i = 0
  · exact Or.inl ⟨h0, h0 ▸ rfl⟩
  by_cases h768 : i = 768
  · exact Or.inr (Or.inl ⟨h768, h768 ▸ rfl⟩)
  · refine Or.inr (Or.inr ⟨h0, h768, ?_⟩)
    rw [bootTables, Function.update_of_ne (show i ≠ PD_INDEX 0 from h0),
      Function.update_of_ne (show i ≠ PD_INDEX KERNEL_VIRT_BASE from h768)]

-- Every entry of the directory in the frame `directory` and of its two tables, as
-- INITIALIZE_VMEMORY leaves them.
structure BootEntries (m : Memory) (directory low high : Nat) : Prop where
  pde_low : load32 m (4096 * directory) = SET_FRAME (PTE_PRESENT ||| PTE_READ_WRITE) (4096 * low)
  pde_high : load32 m (4096 * directory + 4 * 768) =
    SET_FRAME (PTE_PRESENT ||| PTE_READ_WRITE) (4096 * high)
  pde_other : ∀ i < 1024, i ≠ 0 → i ≠ 768 → load32 m (4096 * directory + 4 * i) = 0
  low_entry : ∀ f < 1024, load32 m (4096 * low + 4 * f) =
    SET_FRAME (PTE_PRESENT ||| PTE_READ_WRITE) (f * PAGE_SIZE)
  high_entry : ∀ f < 1024, load32 m (4096 * high + 4 * f) =
    SET_FRAME (PTE_PRESENT ||| PTE_READ_WRITE) (KERNEL_ADDRESS + f * PAGE_SIZE)

-- Two tables written one after the other behind an empty directory.
theorem bootEntries_of_tables {m : Memory} {directory low high : Nat}
    (hempty : ∀ i < 1024, load32 m (4096 * directory + 4 * i) = 0)
    (hhigh : high ≠ directory) (hlow : low ≠ directory) (hne : low ≠ high) :
    BootEntries (tableMemory (tableMemory m directory high KERNEL_ADDRESS (PD_INDEX KERNEL_VIRT_BASE))
      directory low 0 (PD_INDEX 0)) directory low high := by
  have hpd : PD_INDEX 0 = 0 := rfl
  have hpdHigh : PD_INDEX KERNEL_VIRT_BASE = 768 := rfl
  refine ⟨tableMemory_entry, ?_, fun i hi hi0 hi768 => ?_, fun f hf => ?_, fun f hf => ?_⟩
  · rw [tableMemory_of_apart (by omega) (by omega)]
    exact tableMemory_entry
  · rw [tableMemory_of_apart (by omega) (by omega), tableMemory_of_apart (by omega) (by omega)]
    exact hempty i hi
  · rw [tableMemory_table hlow (by decide) hf, Nat.zero_add]
  · rw [tableMemory_of_apart (by omega) (by omega)]
    exact tableMemory_table hhigh (by decide) hf

namespace Kernel

-- The tables of `k'` are on frames that were free in `k`, and frames in use are as they were.
structure FreshTables (k k' : Kernel) (directory : Nat) (table : Nat → Option Nat) : Prop where
  free : ∀ f, Uses directory table f → k.pmm.testBit f = false
  kept : ∀ b, k.pmm.testBit (b / 4096) = true → k'.memory b = k.memory b

def initialPmm (p : Pmm) : Pmm := (((p.allocateBlock 1).2.allocateBlock 1).2.allocateBlock 1).2

-- Where there is room for its three frames, INITIALIZE_VMEMORY ends with the layout that
-- everything afterwards relies on: one table at 0 and one at 3 GiB.
theorem initializeVmemory_boot (k : Kernel) (hoff : k.paging = false)
    (hzero : k.pmm.testBit 0 = true) {kept : Set Nat} (hroom : Room kept k.pmm 3) :
    ∃ k' directory low high, k.initializeVmemory = .ok k' ∧
      Layout k' directory (bootTables low high) ∧ BootEntries k'.memory directory low high ∧
      k'.pmm = initialPmm k.pmm ∧ FreshTables k k' directory (bootTables low high) := by
  obtain ⟨k₁, directory, h₁, hne, hfree, hd₁, hm₁, hp₁, hroom₁⟩ :=
    setupPageDirectoryTable_off hoff hzero hroom
  have hmarks₁ : ∀ f, k.pmm.testBit f = true → k₁.pmm.testBit f = true := fun f hm => by
    rw [hp₁]
    exact Pmm.testBit_allocated (.block 1) hm
  have hzero₁ : k₁.pmm.testBit 0 = true := hmarks₁ 0 hzero
  obtain ⟨k₂, high, h₂, hfree₂, hhigh, hd₂, hm₂, hp₂, hroom₂⟩ := hd₁.setupTable hzero₁ hroom₁ KERNEL_ADDRESS
    KERNEL_VIRT_BASE (by decide) rfl
  have hmarks₂ : ∀ f, k₁.pmm.testBit f = true → k₂.pmm.testBit f = true := fun f hm => by
    rw [hp₂]
    exact Pmm.testBit_allocated (.block 1) hm
  have hzero₂ : k₂.pmm.testBit 0 = true := hmarks₂ 0 hzero₁
  obtain ⟨k₃, low, h₃, hfree₃, hlow, hd₃, hm₃, hp₃, _⟩ := hd₂.setupTable hzero₂ hroom₂ 0 0 (by decide) rfl
  have hcurrent : ¬k₃.currentPageDirectory = 0 := by
    rw [hd₃.current]
    omega
  have hhighd : high ≠ directory := fun he => hhigh (Or.inl he)
  have hlowd : low ≠ directory := fun he => hlow (Or.inl he)
  have hlowhigh : low ≠ high := fun he => hlow (Or.inr ⟨768, he ▸ Function.update_self ..⟩)
  have hentries : BootEntries k₃.memory directory low high := by
    rw [hm₃, hm₂]
    exact bootEntries_of_tables (fun i hi => hd₁.absent i hi rfl) hhighd hlowd hlowhigh
  refine ⟨{ k₃ with cr3 := k₃.currentPageDirectory, paging := true }, directory, low, high, ?_,
    ⟨hd₃.toTables, rfl, hd₃.current, hd₃.current, low, Function.update_self .., ?_⟩,
    hentries, ?_, ⟨fun f huses => ?_, fun b hb => ?_⟩⟩
  · unfold initializeVmemory setupHigherHalfKernel setupPageTable
    rw [h₁, ok_bind, h₂, ok_bind, h₃, ok_bind]
    simp only [setPageDirectory, enablePaging, if_neg hcurrent]
    rfl
  · change MapsFrom k₃.memory low 0
    rw [hm₃]
    exact tableMemory_mapsFrom hlowd (by decide) rfl (by decide)
  · change k₃.pmm = _
    rw [initialPmm, ← hp₁, ← hp₂, ← hp₃]
  · rcases huses with rfl | ⟨i, hi⟩
    · exact hfree
    · rcases bootTables_cases low high i with ⟨-, ht⟩ | ⟨-, ht⟩ | ⟨-, -, ht⟩
      · obtain rfl := Option.some.inj (ht.symm.trans hi)
        exact Bool.eq_false_iff.mpr fun hm => Bool.eq_false_iff.mp hfree₃ (hmarks₂ _ (hmarks₁ _ hm))
      · obtain rfl := Option.some.inj (ht.symm.trans hi)
        exact Bool.eq_false_iff.mpr fun hm => Bool.eq_false_iff.mp hfree₂ (hmarks₁ _ hm)
      · rw [ht] at hi
        cases hi
  · have hdirectory : b / 4096 ≠ directory := fun he => by
      rw [he, hfree] at hb
      cases hb
    have hb₁ := hmarks₁ _ hb
    have hb₂ := hmarks₂ _ hb₁
    have hhighb : b / 4096 ≠ high := fun he => by
      rw [he, hfree₂] at hb₁
      cases hb₁
    have hlowb : b / 4096 ≠ low := fun he => by
      rw [he, hfree₃] at hb₂
      cases hb₂
    change k₃.memory b = _
    rw [hm₃, tableMemory_of_frame (by decide) hlowb hdirectory, hm₂,
      tableMemory_of_frame (by decide) hhighb hdirectory, hm₁ b hdirectory]

theorem initializeVmemory_layout (k : Kernel) (hoff : k.paging = false)
    (hzero : k.pmm.testBit 0 = true) {kept : Set Nat} (hroom : Room kept k.pmm 3) :
    ∃ k' directory table, k.initializeVmemory = .ok k' ∧ Layout k' directory table ∧
      (∀ i, i ≠ 0 → i ≠ 768 → table i = none) ∧ k'.pmm = initialPmm k.pmm := by
  obtain ⟨k', directory, low, high, hinit, hl, -, hpmm, -⟩ := k.initializeVmemory_boot hoff hzero hroom
  refine ⟨k', directory, _, hinit, hl, fun i hi0 hi768 => ?_, hpmm⟩
  rcases bootTables_cases low high i with ⟨h, -⟩ | ⟨h, -⟩ | ⟨-, -, hnone⟩
  · exact absurd h hi0
  · exact absurd h hi768
  · exact hnone

section Always

variable {k : Kernel}

-- While paging is off no step of the setup faults, and what it does to the PMM does not
-- depend on what the allocations answer.
theorem allocateBlock_always (h : k.paging = false) (size : Nat) :
    ∃ r, k.allocateBlock size = .ok r ∧ r.2.pmm = (k.pmm.allocateBlock size).2 ∧
      r.2.paging = false := by
  have hok : ∃ r, k.allocateBlock size = .ok r ∧ r.2.paging = false := by
    unfold Kernel.allocateBlock
    cases k.pmm.getFreeFrameBySize size with
    | none => exact ⟨_, rfl, h⟩
    | some frame =>
        simp only
        rw [zero_off]
        · exact ⟨_, rfl, h⟩
        · exact h
  obtain ⟨r, hr, hoff⟩ := hok
  exact ⟨r, hr, allocateBlock_pmm hr, hoff⟩

theorem setupPageDirectoryTable_always (h : k.paging = false) :
    ∃ k', k.setupPageDirectoryTable = .ok k' ∧ k'.pmm = (k.pmm.allocateBlock 1).2 ∧
      k'.paging = false := by
  obtain ⟨r, hr, hpmm, hoff⟩ := allocateBlock_always h 1
  unfold setupPageDirectoryTable
  rw [hr, ok_bind]
  by_cases hz : r.1 = 0
  · exact ⟨_, if_pos hz, hpmm, hoff⟩
  · refine ⟨_, (if_neg hz).trans (zero_off _ ?_ _ _), hpmm, hoff⟩
    exact hoff

theorem setupTable_always (h : k.paging = false) (frame virt : Nat) :
    ∃ k', k.setupTable frame virt = .ok k' ∧ k'.pmm = (k.pmm.allocateBlock 1).2 ∧
      k'.paging = false := by
  obtain ⟨r, hr, hpmm, hoff⟩ := allocateBlock_always h 1
  unfold setupTable
  rw [hr, ok_bind, ← hpmm]
  by_cases hz : r.1 = 0
  · exact ⟨r.2, if_pos hz, rfl, hoff⟩
  · simp only [if_neg hz]
    rw [zero_off, ok_bind, access_off, ok_bind, update32_off]
    · exact ⟨_, rfl, rfl, hoff⟩
    all_goals exact hoff

theorem initializeVmemory_always (h : k.paging = false) :
    ∃ k', k.initializeVmemory = .ok k' ∧ k'.pmm = initialPmm k.pmm := by
  obtain ⟨k₁, h₁, hp₁, hoff₁⟩ := setupPageDirectoryTable_always h
  obtain ⟨k₂, h₂, hp₂, hoff₂⟩ := setupTable_always hoff₁ KERNEL_ADDRESS KERNEL_VIRT_BASE
  obtain ⟨k₃, h₃, hp₃, -⟩ := setupTable_always hoff₂ 0 0
  refine ⟨k₃.setPageDirectory.enablePaging, ?_, ?_⟩
  · unfold initializeVmemory setupHigherHalfKernel setupPageTable
    rw [h₁, ok_bind, h₂, ok_bind, h₃, ok_bind]
    rfl
  · have hset : k₃.setPageDirectory.enablePaging.pmm = k₃.pmm := by
      unfold setPageDirectory
      split <;> rfl
    rw [hset, initialPmm, ← hp₁, ← hp₂, ← hp₃]

end Always

end Kernel

end ToyKernel
