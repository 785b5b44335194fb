import ToyKernel.Vmm.Identity
import ToyKernel.Vmm.Setup

namespace ToyKernel

open Library ByteMemory FirstFit

-- From the page `n` on `k'` has the memory of `k`, and its MMU walks the same tables.
structure SameAbove (n : Nat) (k k' : Kernel) : Prop where
  paging : k'.paging = k.paging
  cr3 : k'.cr3 = k.cr3
  memory : ∀ b, 4096 * n ≤ b → k'.memory b = k.memory b

theorem SameAbove.trans {n : Nat} {k k' k'' : Kernel} (h : SameAbove n k k') (h' : SameAbove n k' k'') :
    SameAbove n k k'' where
  paging := h'.paging.trans h.paging
  cr3 := h'.cr3.trans h.cr3
  memory b hb := (h'.memory b hb).trans (h.memory b hb)

-- The first `n` pages are found where they are, whatever is written to them.
def Kernel.ReachesBelow (k : Kernel) (n : Nat) : Prop :=
  ∀ k', SameAbove n k k' → ∀ a < 4096 * n, k'.translate a = some a

section Access

variable {k k' : Kernel} {n frame directory : Nat}

theorem Kernel.ReachesBelow.keep (h : k.ReachesBelow n) (hsame : SameAbove n k k') : k'.ReachesBelow n :=
  fun k'' hsame' => h k'' (hsame.trans hsame')

theorem Kernel.ReachesBelow.access (h : k.ReachesBelow n) {α : Type} {address count : Nat} (act : α)
    (hend : address + count ≤ 4096 * n) : k.access address count act = .ok act := by
  refine if_pos fun i hi => h k ⟨rfl, rfl, fun _ _ => rfl⟩ _ ?_
  omega

-- A page below `n` may be cleared.
theorem sameAbove_fill (hlt : frame < n) (pmm : Pmm) (current : Nat) (m : Memory)
    (hm : ∀ b, 4096 * n ≤ b → m b = k.memory b) :
    SameAbove n k
      { k with pmm, currentPageDirectory := current, memory := fill m (4096 * frame) 4096 0 } where
  paging := rfl
  cr3 := rfl
  memory b hb := (fill_of_apart (by omega) _).trans (hm b hb)

-- The three steps of INITIALIZE_VMEMORY on frames below `n`, with paging or without it
theorem allocateBlock_below (h : k.ReachesBelow n) (hfound : k.pmm.getFreeFrameBySize 1 = some frame)
    (hlt : frame < n) : k.allocateBlock 1 = .ok (4096 * frame,
      { k with
        pmm := (k.pmm.allocateBlock 1).2
        memory := fill k.memory (4096 * frame) 4096 0 }) := by
  have hreach : Kernel.ReachesBelow { k with pmm := (k.pmm.allocateBlock 1).2 } n :=
    h.keep ⟨rfl, rfl, fun _ _ => rfl⟩
  have hcount : u32 (1 * PER_BLOCK_SIZE) = 4096 := rfl
  unfold Kernel.allocateBlock Kernel.zero
  simp only [hfound, Kernel.allocateBlock_address hfound, hcount]
  rw [hreach.access _ (by omega)]
  rfl

theorem setupPageDirectoryTable_below (h : k.ReachesBelow n)
    (hfound : k.pmm.getFreeFrameBySize 1 = some frame) (hlt : frame < n) (hne : frame ≠ 0) :
    k.setupPageDirectoryTable = .ok
      { k with
        pmm := (k.pmm.allocateBlock 1).2
        currentPageDirectory := 4096 * frame
        memory := fill (fill k.memory (4096 * frame) 4096 0) (4096 * frame) 4096 0 } := by
  have hpage : PAGE_SIZE = 4096 := rfl
  unfold Kernel.setupPageDirectoryTable Kernel.zero
  rw [allocateBlock_below h hfound hlt, Kernel.ok_bind]
  simp only [if_neg (show ¬4096 * frame = 0 by omega), hpage]
  have hreach := h.keep (sameAbove_fill hlt (k.pmm.allocateBlock 1).2 (4096 * frame) k.memory fun _ _ => rfl)
  exact hreach.access _ (by omega)

theorem setupTable_below (h : k.ReachesBelow n) (hfound : k.pmm.getFreeFrameBySize 1 = some frame)
    (hlt : frame < n) (hne : frame ≠ 0) (hdirectory : directory < n)
    (hcurrent : k.currentPageDirectory = 4096 * directory) (hapart : frame ≠ directory) (start virt : Nat)
    (hvirt : PD_INDEX virt < 1024) (hempty : load32 k.memory (4096 * directory + 4 * PD_INDEX virt) = 0) :
    k.setupTable start virt = .ok
      { k with
        pmm := (k.pmm.allocateBlock 1).2
        memory := tableMemory k.memory directory frame start (PD_INDEX virt) } := by
  have hpage : PAGE_SIZE = 4096 := rfl
  have hcleared := sameAbove_fill hlt (k.pmm.allocateBlock 1).2 k.currentPageDirectory k.memory
    fun _ _ => rfl
  have hagain := hcleared.trans (sameAbove_fill hlt (k.pmm.allocateBlock 1).2 k.currentPageDirectory
    (fill k.memory (4096 * frame) 4096 0) fun _ _ => rfl)
  -- the memory once the table is written
  let m := storeTable (fill (fill k.memory (4096 * frame) 4096 0) (4096 * frame) 4096 0) (4096 * frame)
    (fun i => SET_FRAME (PTE_PRESENT ||| PTE_READ_WRITE) (start + i * PAGE_SIZE)) 1024
  have hwritten : SameAbove n k { k with pmm := (k.pmm.allocateBlock 1).2, memory := m } := by
    refine ⟨rfl, rfl, fun b hb => ?_⟩
    exact (storeTable_of_apart (by omega) _).trans (hagain.memory b hb)
  have hold : load32 m (4096 * directory + 4 * PD_INDEX virt) = 0 := by
    rw [← hempty]
    change load32 (storeTable _ _ _ 1024) _ = _
    rw [load32_storeTable_of_apart (by omega), load32_fill_of_apart (by omega),
      load32_fill_of_apart (by omega)]
  have htable : store32 m (k.currentPageDirectory + 4 * PD_INDEX virt)
      (SET_FRAME (load32 m (k.currentPageDirectory + 4 * PD_INDEX virt) ||| PTE_PRESENT |||
        PTE_READ_WRITE) (4096 * frame)) = tableMemory k.memory directory frame start (PD_INDEX virt) := by
    rw [hcurrent, hold]
    rfl
  unfold Kernel.setupTable Kernel.zero Kernel.update32
  rw [allocateBlock_below h hfound hlt, Kernel.ok_bind]
  simp only [if_neg (show ¬4096 * frame = 0 by omega), hpage]
  rw [(h.keep hcleared).access _ (by omega), Kernel.ok_bind, (h.keep hagain).access _ (by omega),
    Kernel.ok_bind, ← htable]
  apply (h.keep hwritten).access
  change k.currentPageDirectory + 4 * PD_INDEX virt + 4 ≤ 4096 * n
  omega

end Access

section Setup

-- The three tables of INITIALIZE_VMEMORY on free frames below `n`, and no other page written
structure TablesBelow (n : Nat) (p : Pmm) (m m' : Memory) (directory low high : Nat) : Prop where
  directory_lt : directory < n
  low_lt : low < n
  high_lt : high < n
  directory_free : p.testBit directory = false
  low_free : p.testBit low = false
  apart : low ≠ directory ∧ low ≠ high
  entries : BootEntries m' directory low high
  memory : ∀ b, 4096 * n ≤ b → m' b = m b

variable {n c : Nat} {p : Pmm} {m : Memory} {k : Kernel}

-- The next frame that is given out
structure FoundBelow (n : Nat) (p : Pmm) (frame : Nat) : Prop where
  found : p.getFreeFrameBySize 1 = some frame
  lt : frame < n
  new : NewFrame p frame

-- Where every free frame from `n` on is kept, first fit takes one below `n`.
theorem Room.allocate (h : Room {g | n ≤ g} p (c + 1)) (hzero : p.testBit 0 = true) :
    ∃ frame, FoundBelow n p frame ∧ Room {g | n ≤ g} (p.allocateBlock 1).2 c := by
  obtain ⟨frame, hfound, -, hroom⟩ := h.take
  obtain ⟨-, free, hcard, hfree⟩ := h
  obtain ⟨f, hf⟩ : free.Nonempty := Finset.card_pos.mp (by omega)
  obtain ⟨hlow, -, hunmarked, hkept⟩ := hfree f hf
  have hfirst := ((p.getFreeFrameBySize_eq_some_iff 1 frame).mp hfound).2.2
  have hunused : p.testBit frame = false := Kernel.foundFrame_free hfound
  have hresult : (p.allocateBlock 1).2 = p.takeFrames frame 1 := by
    unfold Pmm.allocateBlock
    rw [hfound]
  have hle : frame ≤ f := by
    apply hfirst.least
    rw [clear_one_iff, Pmm.marked_of_lt p (by omega)]
    exact hunmarked
  have hlt : frame < n := by
    by_contra hn
    have hless := hkept frame (Nat.le_of_not_lt hn) hunused
    omega
  have hne : (p.allocateBlock 1).1 ≠ 0 := by
    rw [Kernel.allocateBlock_address hfound]
    intro hz
    rw [show frame = 0 by omega, hzero] at hunused
    cases hunused
  obtain ⟨frame', hfound', hnew, -⟩ := Kernel.newFrame_of_ne_zero hne
  obtain rfl := Option.some.inj (hfound.symm.trans hfound')
  rw [hresult]
  exact ⟨frame, ⟨hfound, hlt, hnew⟩, hroom⟩

-- The frames of the three tables, each the first free one, below `n`
structure TablesFound (n : Nat) (p : Pmm) (directory high low : Nat) : Prop where
  directory : FoundBelow n p directory
  high : FoundBelow n (p.allocateBlock 1).2 high
  low : FoundBelow n ((p.allocateBlock 1).2.allocateBlock 1).2 low

theorem Room.tables (h : Room {g | n ≤ g} p 3) (hzero : p.testBit 0 = true) :
    ∃ directory high low, TablesFound n p directory high low := by
  obtain ⟨directory, hdirectory, hroom₁⟩ := h.allocate hzero
  have hzero₁ : (p.allocateBlock 1).2.testBit 0 = true := Pmm.testBit_allocated (.block 1) hzero
  obtain ⟨high, hhigh, hroom₂⟩ := hroom₁.allocate hzero₁
  have hzero₂ : ((p.allocateBlock 1).2.allocateBlock 1).2.testBit 0 = true :=
    Pmm.testBit_allocated (.block 1) hzero₁
  obtain ⟨low, hlow, -⟩ := hroom₂.allocate hzero₂
  exact ⟨directory, high, low, hdirectory, hhigh, hlow⟩

-- They are three, and all of them were free before the first was given out.
theorem TablesFound.apart {directory high low : Nat} (h : TablesFound n p directory high low) :
    high ≠ directory ∧ low ≠ directory ∧ low ≠ high ∧ p.testBit low = false := by
  have hmarks₁ : ∀ f, p.testBit f = true → (p.allocateBlock 1).2.testBit f = true :=
    fun f hf => Pmm.testBit_allocated (.block 1) hf
  have hmarks₂ : ∀ f, (p.allocateBlock 1).2.testBit f = true →
      ((p.allocateBlock 1).2.allocateBlock 1).2.testBit f = true :=
    fun f hf => Pmm.testBit_allocated (.block 1) hf
  refine ⟨h.high.new.ne h.directory.new.taken, h.low.new.ne (hmarks₂ _ h.directory.new.taken),
    h.low.new.ne h.high.new.taken, ?_⟩
  rw [← Bool.not_eq_true]
  intro hm
  exact absurd (hmarks₂ _ (hmarks₁ _ hm)) (by rw [h.low.new.free]; exact Bool.false_ne_true)

-- The result depends on the PMM and the memory alone: not on paging, as long as the first `n`
-- pages are reached.
theorem TablesFound.initializeVmemory {directory high low : Nat} (h : TablesFound n p directory high low)
    (m : Memory) : ∃ m', TablesBelow n p m m' directory low high ∧
      ∀ k : Kernel, k.pmm = p → k.memory = m → k.ReachesBelow n → k.initializeVmemory = .ok
        { pmm := Kernel.initialPmm p
          memory := m'
          currentPageDirectory := 4096 * directory
          cr3 := 4096 * directory
          paging := true } := by
  obtain ⟨hhigh, hlow, hne, hfree₃⟩ := h.apart
  obtain ⟨⟨hfound₁, hlt₁, hnew₁⟩, ⟨hfound₂, hlt₂, hnew₂⟩, ⟨hfound₃, hlt₃, hnew₃⟩⟩ := h
  -- the memory with the empty directory, and with the table of the higher half
  let emptied : Memory := fill (fill m (4096 * directory) 4096 0) (4096 * directory) 4096 0
  let raised : Memory := tableMemory emptied directory high KERNEL_ADDRESS (PD_INDEX KERNEL_VIRT_BASE)
  have hpd : PD_INDEX 0 = 0 := rfl
  have hpdHigh : PD_INDEX KERNEL_VIRT_BASE = 768 := rfl
  have hempty : ∀ i < 1024, load32 emptied (4096 * directory + 4 * i) = 0 :=
    fun i hi => load32_fill_zero (by omega) (by omega)
  have hempty₂ : load32 raised (4096 * directory + 4 * PD_INDEX 0) = 0 := by
    change load32 (tableMemory _ _ _ _ _) _ = 0
    rw [tableMemory_of_apart (by omega) (by omega)]
    exact hempty _ (by omega)
  have hemptied : ∀ b, 4096 * n ≤ b → emptied b = m b := fun b hb =>
    (fill_of_apart (by omega) _).trans (fill_of_apart (by omega) _)
  have hraised : ∀ b, 4096 * n ≤ b → raised b = m b := fun b hb =>
    (tableMemory_of_frame (by omega) (by omega) (by omega)).trans (hemptied b hb)
  refine ⟨tableMemory raised directory low 0 (PD_INDEX 0),
    ⟨hlt₁, hlt₃, hlt₂, hnew₁.free, hfree₃, ⟨hlow, hne⟩, bootEntries_of_tables hempty hhigh hlow hne,
      fun b hb => ?_⟩, ?_⟩
  · exact (tableMemory_of_frame (by omega) (by omega) (by omega)).trans (hraised b hb)
  · rintro k rfl rfl hreach
    let k₁ : Kernel := { k with
      pmm := (k.pmm.allocateBlock 1).2, currentPageDirectory := 4096 * directory, memory := emptied }
    let k₂ : Kernel := { k₁ with pmm := (k₁.pmm.allocateBlock 1).2, memory := raised }
    have h₁ : k.setupPageDirectoryTable = .ok k₁ :=
      setupPageDirectoryTable_below hreach hfound₁ hlt₁ hnew₁.ne_zero
    have hreach₁ : k₁.ReachesBelow n := hreach.keep ⟨rfl, rfl, hemptied⟩
    have h₂ : k₁.setupHigherHalfKernel = .ok k₂ :=
      setupTable_below hreach₁ hfound₂ hlt₂ hnew₂.ne_zero hlt₁ rfl hhigh KERNEL_ADDRESS KERNEL_VIRT_BASE
        (by omega) (hempty _ (by omega))
    have hreach₂ : k₂.ReachesBelow n := hreach.keep ⟨rfl, rfl, hraised⟩
    have h₃ := setupTable_below hreach₂ hfound₃ hlt₃ hnew₃.ne_zero hlt₁ rfl hlow 0 0 (by omega) hempty₂
    have hcurrent : ¬4096 * directory = 0 := by
      have hpos := hnew₁.ne_zero
      omega
    unfold Kernel.initializeVmemory Kernel.setupPageTable
    rw [h₁, Kernel.ok_bind, h₂, Kernel.ok_bind, h₃, Kernel.ok_bind]
    simp only [Kernel.setPageDirectory, Kernel.enablePaging]
    rw [if_neg hcurrent]
    rfl

end Setup

namespace Kernel

section Exact

-- The three allocations answer addresses below page `n`.
def AllocatesBelow (n : Nat) (p : Pmm) : Prop :=
  (p.allocateBlock 1).1 < 4096 * n ∧ ((p.allocateBlock 1).2.allocateBlock 1).1 < 4096 * n ∧
    (((p.allocateBlock 1).2.allocateBlock 1).2.allocateBlock 1).1 < 4096 * n

instance (n : Nat) (p : Pmm) : Decidable (AllocatesBelow n p) :=
  inferInstanceAs (Decidable (_ ∧ _ ∧ _))

theorem foundBelow_of_ne_zero {n : Nat} {p : Pmm} (hne : (p.allocateBlock 1).1 ≠ 0)
    (hlt : (p.allocateBlock 1).1 < 4096 * n) : ∃ frame, FoundBelow n p frame := by
  obtain ⟨frame, hfound, hnew, haddress⟩ := newFrame_of_ne_zero hne
  exact ⟨frame, hfound, by omega, hnew⟩

theorem AllocatesTables.found {n : Nat} {p : Pmm} (h : AllocatesTables p) (hbelow : AllocatesBelow n p) :
    ∃ directory high low, TablesFound n p directory high low := by
  obtain ⟨hne₁, hne₂, hne₃⟩ := h
  obtain ⟨hlt₁, hlt₂, hlt₃⟩ := hbelow
  obtain ⟨directory, hdirectory⟩ := foundBelow_of_ne_zero hne₁ hlt₁
  obtain ⟨high, hhigh⟩ := foundBelow_of_ne_zero hne₂ hlt₂
  obtain ⟨low, hlow⟩ := foundBelow_of_ne_zero hne₃ hlt₃
  exact ⟨directory, high, low, hdirectory, hhigh, hlow⟩

-- A run that ends has set the tables up; and it ends where paging is off, and with paging on where
-- the three frames are found at their own addresses.
theorem initializeVmemory_exact (k : Kernel) (halloc : AllocatesTables k.pmm) :
    (∀ k', k.initializeVmemory = .ok k' → k'.SetupExact) ∧
      (k.paging = false → ∃ k', k.initializeVmemory = .ok k' ∧ k'.SetupExact) ∧
      ∀ n, k.ReachesBelow n → AllocatesBelow n k.pmm →
        ∃ k', k.initializeVmemory = .ok k' ∧ k'.SetupExact := by
  refine ⟨fun k' h => initializeVmemory_entries halloc h, fun hoff => ?_, fun n hreach hbelow => ?_⟩
  · obtain ⟨k', h, -⟩ := initializeVmemory_always hoff
    exact ⟨k', h, initializeVmemory_entries halloc h⟩
  · obtain ⟨directory, high, low, hfound⟩ := halloc.found hbelow
    obtain ⟨m', -, hrun⟩ := hfound.initializeVmemory k.memory
    have h := hrun k rfl rfl hreach
    exact ⟨_, h, initializeVmemory_entries halloc h⟩

end Exact

section Sample

-- Tables that stand at or above page `n` keep what is below it in place.
theorem reachesBelow_of_entries {k : Kernel} {n directory low high : Nat}
    (h : BootEntries k.memory directory low high) (hpaging : k.paging = true)
    (hcr3 : k.cr3 = 4096 * directory) (hn : n ≤ 1024) (hdirectory : n ≤ directory)
    (hlow : n ≤ low ∧ low < 1048576) (hhigh : n ≤ high ∧ high < 1048576) : k.ReachesBelow n := by
  intro k' hsame a ha
  have hload : ∀ b, 4096 * n ≤ b → load32 k'.memory b = load32 k.memory b :=
    fun b hb => load32_congr fun c hc _ => hsame.memory c (by omega)
  have hentries : BootEntries k'.memory directory low high := by
    refine ⟨?_, ?_, fun i hi hzero hne => ?_, fun f hf => ?_, fun f hf => ?_⟩
    · rw [hload _ (by omega), h.pde_low]
    · rw [hload _ (by omega), h.pde_high]
    · rw [hload _ (by omega), h.pde_other i hi hzero hne]
    · rw [hload _ (by omega), h.low_entry f hf]
    · rw [hload _ (by omega), h.high_entry f hf]
  have hexact : SetupExact { k' with currentPageDirectory := 4096 * directory } :=
    setupExact_of_entries hentries (hsame.paging.trans hpaging) (hsame.cr3.trans hcr3) rfl hlow.2 hhigh.2
  exact (hexact.low a (by omega)).translate

-- A machine with 16 MiB that runs on tables in the frames 8 to 10, which are in use
def pagedKernel : Kernel where
  pmm := { Pmm.boot with totalMemory := 0x1000000, words := fun i => if i = 0 then 0x701 else 0 }
  memory := tableMemory
    (tableMemory (fun _ => 0) 8 9 KERNEL_ADDRESS (PD_INDEX KERNEL_VIRT_BASE)) 8 10 0 (PD_INDEX 0)
  currentPageDirectory := 0x8000
  cr3 := 0x8000
  paging := true

theorem pagedKernel_reachesBelow : pagedKernel.ReachesBelow 8 := by
  have hzero : ∀ a, load32 (fun _ => 0) a = 0 := fun _ => by
    change (0#8 ++ 0#8 ++ 0#8 ++ 0#8 : BitVec 32) = 0
    decide
  exact reachesBelow_of_entries (bootEntries_of_tables (fun _ _ => hzero _) (by decide) (by decide) (by decide))
    rfl rfl (by decide) (by decide) (by decide) (by decide)

theorem initializeVmemory_exact_sample :
    (∃ k', freshKernel.initializeVmemory = .ok k' ∧ k'.SetupExact) ∧
      ∃ k', pagedKernel.initializeVmemory = .ok k' ∧ k'.SetupExact :=
  ⟨(freshKernel.initializeVmemory_exact freshKernel_allocates).2.1 rfl,
    (pagedKernel.initializeVmemory_exact (by decide +kernel)).2.2 8 pagedKernel_reachesBelow
      (by decide +kernel)⟩

end Sample

end Kernel

end ToyKernel
