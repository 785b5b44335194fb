import ToyKernel.Vmm.Boot
import ToyKernel.Vmm.Mapping

namespace ToyKernel

open Library ByteMemory FirstFit

-- The frame of an allocation of one frame that did not answer 0.
structure NewFrame (p : Pmm) (frame : Nat) : Prop where
  lt : frame < 1048576
  ne_zero : frame ≠ 0
  free : p.testBit frame = false
  taken : (p.allocateBlock 1).2.testBit frame = true

theorem NewFrame.ne {p : Pmm} {frame other : Nat} (h : NewFrame p frame)
    (hother : p.testBit other = true) : frame ≠ other := fun he => by
  rw [← he, h.free] at hother
  cases hother

namespace Kernel

section Spec

variable (k : Kernel)

-- No allocation of the three answers 0.
def AllocatesTables (p : Pmm) : Prop :=
  (p.allocateBlock 1).1 ≠ 0 ∧ ((p.allocateBlock 1).2.allocateBlock 1).1 ≠ 0 ∧
    (((p.allocateBlock 1).2.allocateBlock 1).2.allocateBlock 1).1 ≠ 0

instance (p : Pmm) : Decidable (AllocatesTables p) :=
  inferInstanceAs (Decidable (_ ∧ _ ∧ _))

-- The two entries on the way of the MMU from an address.
def mmuPde (address : Nat) : BitVec 32 := load32 k.memory (k.cr3 + 4 * PD_INDEX address)

def mmuPte (address : Nat) : BitVec 32 :=
  load32 k.memory (PAGE_PHYS_ADDRESS (k.mmuPde address) + 4 * PT_INDEX address)

-- The page of the address is mapped for ring 0 alone, for reading and writing.
structure SupervisorPage (address phys : Nat) : Prop where
  translate : k.translate address = some phys
  present : isPresent (k.mmuPde address) = true ∧ isPresent (k.mmuPte address) = true
  writable : isWritable (k.mmuPde address) = true ∧ isWritable (k.mmuPte address) = true
  supervisor : isUser (k.mmuPde address) = false ∧ isUser (k.mmuPte address) = false

-- The first 4 MiB where they are, the kernel's 4 MiB where they were loaded, nothing else.
structure SetupExact : Prop where
  paging : k.paging = true
  cr3 : k.cr3 = k.currentPageDirectory
  low : ∀ v < 0x400000, k.SupervisorPage v v
  high : ∀ v, 0xC0000000 ≤ v → v < 0xC0400000 → k.SupervisorPage v (Pmm.virtToPhys v)
  other : ∀ v, 0x400000 ≤ v → v < 4294967296 → ¬(0xC0000000 ≤ v ∧ v < 0xC0400000) →
    k.translate v = none

end Spec

section Allocation

variable {k k' : Kernel}

theorem newFrame_of_ne_zero {p : Pmm} (hne : (p.allocateBlock 1).1 ≠ 0) :
    ∃ frame, p.getFreeFrameBySize 1 = some frame ∧ NewFrame p frame ∧
      (p.allocateBlock 1).1 = 4096 * frame := by
  cases hfound : p.getFreeFrameBySize 1 with
  | none =>
      unfold Pmm.allocateBlock at hne
      rw [hfound] at hne
      exact absurd rfl hne
  | some frame =>
      have haddress := allocateBlock_address hfound
      have hlt := foundFrame_lt hfound
      refine ⟨frame, rfl, ⟨hlt, by omega, foundFrame_free hfound, ?_⟩, haddress⟩
      unfold Pmm.allocateBlock
      rw [hfound]
      exact Pmm.testBit_takeFrames_self p (by omega) (Nat.le_refl frame) (Nat.lt_succ_self frame)

theorem allocateBlock_ok {r : Nat × Kernel} (hr : k.allocateBlock 1 = .ok r)
    (hne : (k.pmm.allocateBlock 1).1 ≠ 0) :
    ∃ frame, NewFrame k.pmm frame ∧ r = (4096 * frame,
      { k with
        pmm := (k.pmm.allocateBlock 1).2
        memory := fill k.memory (4096 * frame) 4096 0 }) := by
  obtain ⟨frame, hfound, hnew, haddress⟩ := newFrame_of_ne_zero hne
  refine ⟨frame, hnew, ?_⟩
  unfold Kernel.allocateBlock at hr
  simp only [hfound, haddress] at hr
  obtain ⟨k₁, hzero, hrest⟩ := exists_of_bind hr
  obtain ⟨-, rfl⟩ := access_ok hzero
  exact (Except.ok.inj hrest).symm

theorem setupPageDirectoryTable_ok (h : k.setupPageDirectoryTable = .ok k')
    (hne : (k.pmm.allocateBlock 1).1 ≠ 0) :
    ∃ directory, NewFrame k.pmm directory ∧ k'.pmm = (k.pmm.allocateBlock 1).2 ∧
      k'.currentPageDirectory = 4096 * directory ∧
      ∀ i < 1024, load32 k'.memory (4096 * directory + 4 * i) = 0 := by
  obtain ⟨r, hr, hrest⟩ := exists_of_bind h
  obtain ⟨directory, hnew, rfl⟩ := allocateBlock_ok hr hne
  have hpos : ¬4096 * directory = 0 := by
    have := hnew.ne_zero
    omega
  simp only [if_neg hpos] at hrest
  obtain ⟨-, rfl⟩ := access_ok hrest
  refine ⟨directory, hnew, rfl, rfl, fun i hi => load32_fill_zero (by omega) ?_⟩
  change 4096 * directory + 4 * i + 4 ≤ 4096 * directory + 4096
  omega

-- Where the directory entry is still empty, the table and its entry are those of
-- `tableMemory`.
theorem setupTable_ok {frame virt directory : Nat} (h : k.setupTable frame virt = .ok k')
    (hne : (k.pmm.allocateBlock 1).1 ≠ 0) (hcurrent : k.currentPageDirectory = 4096 * directory)
    (hmarked : k.pmm.testBit directory = true)
    (hvirt : PD_INDEX virt < 1024)
    (hempty : load32 k.memory (4096 * directory + 4 * PD_INDEX virt) = 0) :
    ∃ t, NewFrame k.pmm t ∧ k'.pmm = (k.pmm.allocateBlock 1).2 ∧
      k'.currentPageDirectory = 4096 * directory ∧
      k'.memory = tableMemory k.memory directory t frame (PD_INDEX virt) := by
  obtain ⟨r, hr, hrest⟩ := exists_of_bind h
  obtain ⟨t, hnew, rfl⟩ := allocateBlock_ok hr hne
  have hpos : ¬4096 * t = 0 := by
    have := hnew.ne_zero
    omega
  simp only [if_neg hpos] at hrest
  obtain ⟨k₁, hzero, hrest⟩ := exists_of_bind hrest
  obtain ⟨-, rfl⟩ := access_ok hzero
  obtain ⟨k₂, hfilled, hrest⟩ := exists_of_bind hrest
  obtain ⟨-, rfl⟩ := access_ok hfilled
  obtain ⟨-, rfl⟩ := access_ok hrest
  refine ⟨t, hnew, rfl, hcurrent, ?_⟩
  have htd := hnew.ne hmarked
  have hpage : PAGE_SIZE = 4096 := rfl
  dsimp only
  rw [hcurrent, load32_storeTable_of_apart (by omega), load32_fill_of_apart (by omega),
    load32_fill_of_apart (by omega), hempty]
  rfl

end Allocation

end Kernel

section Entries

-- The entries of a present, writable page of the kernel
structure KernelEntry (entry : BitVec 32) (address : Nat) : Prop where
  present : isPresent entry = true
  writable : isWritable entry = true
  supervisor : isUser entry = false
  address : PAGE_PHYS_ADDRESS entry = address

theorem isWritable_SET_FRAME (entry : BitVec 32) (address : Nat) (h : isWritable entry = true) :
    isWritable (SET_FRAME entry address) = true := by
  rw [isWritable_iff] at *
  rw [getLsbD_SET_FRAME _ _ (by omega), h]
  simp

theorem kernelEntry_SET_FRAME {address : Nat} (haligned : address % 4096 = 0)
    (hlt : address < 4294967296) :
    KernelEntry (SET_FRAME (PTE_PRESENT ||| PTE_READ_WRITE) address) address where
  present := isPresent_SET_FRAME _ _ (by decide)
  writable := isWritable_SET_FRAME _ _ (by decide)
  supervisor := by
    rw [isUser_SET_FRAME, testBit_of_aligned haligned (by omega)]
    decide
  address := by
    have hsmall : PAGE_PHYS_ADDRESS (PTE_PRESENT ||| PTE_READ_WRITE) < 2147483648 := by decide
    rw [PAGE_PHYS_ADDRESS_SET_FRAME _ hsmall hlt]
    omega

end Entries

namespace Kernel

variable {k : Kernel} {directory low high : Nat}

theorem supervisorPage_of_entries (hpaging : k.paging = true) {v table frame : Nat}
    (hpde : KernelEntry (k.mmuPde v) (4096 * table))
    (hpte : KernelEntry (load32 k.memory (4096 * table + 4 * PT_INDEX v)) frame) :
    k.SupervisorPage v (frame + v % 4096) := by
  have hentry : k.mmuPte v = load32 k.memory (4096 * table + 4 * PT_INDEX v) := by
    rw [mmuPte, hpde.address]
  rw [← hentry] at hpte
  refine ⟨?_, ⟨hpde.present, hpte.present⟩, ⟨hpde.writable, hpte.writable⟩,
    ⟨hpde.supervisor, hpte.supervisor⟩⟩
  unfold translate
  rw [if_pos hpaging]
  change (if isPresent (k.mmuPde v) = true then
    (if isPresent (k.mmuPte v) = true then some (PAGE_PHYS_ADDRESS (k.mmuPte v) + v % 4096) else none)
    else none) = _
  rw [if_pos hpde.present, if_pos hpte.present, hpte.address]

-- Directory entry 0, directory entry 768 and no other one: an address is in the first 4 MiB,
-- in the 4 MiB from 3 GiB on, or unmapped.
theorem setupExact_of_entries (h : BootEntries k.memory directory low high)
    (hpaging : k.paging = true) (hcr3 : k.cr3 = 4096 * directory)
    (hcurrent : k.currentPageDirectory = 4096 * directory) (hlow : low < 1048576)
    (hhigh : high < 1048576) : k.SetupExact := by
  have hpde : ∀ v, k.mmuPde v = load32 k.memory (4096 * directory + 4 * PD_INDEX v) := fun v => by
    rw [mmuPde, hcr3]
  refine ⟨hpaging, hcr3.trans hcurrent.symm, fun v hv => ?_, fun v hlo hhi => ?_,
    fun v hlo hhi hout => ?_⟩
  · have hindex : PD_INDEX v = 0 := by
      unfold PD_INDEX
      omega
    have hslot : PT_INDEX v * 4096 + v % 4096 = v := by
      unfold PT_INDEX
      omega
    have hdir : KernelEntry (k.mmuPde v) (4096 * low) := by
      rw [hpde, hindex, Nat.mul_zero, Nat.add_zero, h.pde_low]
      exact kernelEntry_SET_FRAME (by omega) (by omega)
    have hpt := PT_INDEX_lt v
    have hentry : KernelEntry (load32 k.memory (4096 * low + 4 * PT_INDEX v)) (PT_INDEX v * 4096) := by
      rw [h.low_entry _ hpt]
      exact kernelEntry_SET_FRAME (show PT_INDEX v * 4096 % 4096 = 0 by omega)
        (show PT_INDEX v * 4096 < 4294967296 by omega)
    have hmapped := supervisorPage_of_entries hpaging hdir hentry
    rwa [hslot] at hmapped
  · have hindex : PD_INDEX v = 768 := by
      unfold PD_INDEX
      omega
    have hslot : 0x100000 + PT_INDEX v * 4096 + v % 4096 = Pmm.virtToPhys v := by
      unfold PT_INDEX Pmm.virtToPhys KERNEL_VIRT_BASE KERNEL_ADDRESS
      omega
    have hdir : KernelEntry (k.mmuPde v) (4096 * high) := by
      rw [hpde, hindex, h.pde_high]
      exact kernelEntry_SET_FRAME (by omega) (by omega)
    have hpt := PT_INDEX_lt v
    have hentry : KernelEntry (load32 k.memory (4096 * high + 4 * PT_INDEX v))
        (0x100000 + PT_INDEX v * 4096) := by
      rw [h.high_entry _ hpt]
      exact kernelEntry_SET_FRAME (show (0x100000 + PT_INDEX v * 4096) % 4096 = 0 by omega)
        (show 0x100000 + PT_INDEX v * 4096 < 4294967296 by omega)
    have hmapped := supervisorPage_of_entries hpaging hdir hentry
    rwa [hslot] at hmapped
  · have hindex : PD_INDEX v < 1024 ∧ PD_INDEX v ≠ 0 ∧ PD_INDEX v ≠ 768 := by
      unfold PD_INDEX
      omega
    unfold translate
    rw [if_pos hpaging]
    dsimp only
    rw [hcr3, h.pde_other _ hindex.1 hindex.2.1 hindex.2.2, if_neg (by simp)]

-- Whatever paging does meanwhile: a run that comes to its end has set up the tables.
theorem initializeVmemory_entries {k' : Kernel} (halloc : AllocatesTables k.pmm)
    (h : k.initializeVmemory = .ok k') : k'.SetupExact := by
  obtain ⟨hfirst, hsecond, hthird⟩ := halloc
  unfold initializeVmemory setupHigherHalfKernel setupPageTable at h
  obtain ⟨k₁, h₁, h⟩ := exists_of_bind h
  obtain ⟨k₂, h₂, h⟩ := exists_of_bind h
  obtain ⟨k₃, h₃, h⟩ := exists_of_bind h
  obtain rfl := Except.ok.inj h
  obtain ⟨directory, hd, hp₁, hc₁, hempty⟩ := setupPageDirectoryTable_ok h₁ hfirst
  rw [← hp₁] at hsecond hthird
  have hd₁ : k₁.pmm.testBit directory = true := by
    rw [hp₁]
    exact hd.taken
  obtain ⟨high, hh, hp₂, hc₂, hm₂⟩ := setupTable_ok h₂ hsecond hc₁ hd₁ (by decide)
    (hempty _ (by decide))
  rw [← hp₂] at hthird
  have hd₂ : k₂.pmm.testBit directory = true := by
    rw [hp₂]
    exact Pmm.testBit_allocated (.block 1) hd₁
  have hhigh₂ : k₂.pmm.testBit high = true := by
    rw [hp₂]
    exact hh.taken
  have hempty₂ : load32 k₂.memory (4096 * directory + 4 * PD_INDEX 0) = 0 := by
    have hpd : PD_INDEX 0 = 0 := rfl
    have hpdHigh : PD_INDEX KERNEL_VIRT_BASE = 768 := rfl
    have hne := hh.ne hd₁
    rw [hm₂, tableMemory_of_apart (by omega) (by omega)]
    exact hempty 0 (by omega)
  obtain ⟨low, hl, hp₃, hc₃, hm₃⟩ := setupTable_ok h₃ hthird hc₂ hd₂ (by decide) hempty₂
  have hcr3 : ¬k₃.currentPageDirectory = 0 := by
    have := hd.ne_zero
    omega
  rw [hm₂] at hm₃
  have hentries := bootEntries_of_tables hempty (hh.ne hd₁) (hl.ne hd₂) (hl.ne hhigh₂)
  rw [← hm₃] at hentries
  have hset : k₃.setPageDirectory = { k₃ with cr3 := k₃.currentPageDirectory } := if_neg hcr3
  rw [hset]
  exact setupExact_of_entries (k := { k₃ with cr3 := k₃.currentPageDirectory, paging := true }) hentries
    rfl hc₃ hc₃ hl.lt hh.lt

section Failure

variable (k : Kernel)

-- INITIALIZE_VMEMORY with its result: `return true`, after four results it did not look at.
def initializeVmemoryResult : Except Fault (Bool × Kernel) := do
  let k ← k.initializeVmemory
  return (true, k)

-- After a failed allocation: false, paging as it was, and below a null directory pointer
-- nothing is written. After true: the three tables are there.
structure FailsCleanly (r : Bool × Kernel) : Prop where
  result : ¬AllocatesTables k.pmm → r.1 = false
  paging : ¬AllocatesTables k.pmm → r.2.paging = k.paging
  null : ¬AllocatesTables k.pmm → ∀ k₁, k.setupPageDirectoryTable = .ok k₁ →
    k₁.currentPageDirectory = 0 → ∀ b < PAGE_SIZE, r.2.memory b = k₁.memory b
  success : r.1 = true → AllocatesTables k.pmm ∧ r.2.SetupExact

theorem failsCleanly_iff (r : Bool × Kernel) (hr : k.initializeVmemoryResult = .ok r) :
    k.FailsCleanly r ↔ AllocatesTables k.pmm := by
  obtain ⟨k', h, hrest⟩ := exists_of_bind hr
  obtain rfl := Except.ok.inj hrest
  constructor
  · intro hclean
    exact (hclean.success rfl).1
  · intro halloc
    exact ⟨fun hn => absurd halloc hn, fun hn => absurd halloc hn, fun hn => absurd halloc hn,
      fun _ => ⟨halloc, initializeVmemory_entries halloc h⟩⟩

-- While paging is off there is always a result.
theorem initializeVmemoryResult_always (hoff : k.paging = false) :
    ∃ r, k.initializeVmemoryResult = .ok r ∧ r.1 = true ∧ r.2.paging = true := by
  obtain ⟨k', h, -⟩ := initializeVmemory_always hoff
  refine ⟨(true, k'), by rw [initializeVmemoryResult, h]; rfl, rfl, ?_⟩
  unfold initializeVmemory at h
  obtain ⟨k₁, -, h⟩ := exists_of_bind h
  obtain ⟨k₂, -, h⟩ := exists_of_bind h
  obtain ⟨k₃, -, h⟩ := exists_of_bind h
  obtain rfl := Except.ok.inj h
  rfl

end Failure

section Sample

-- 16 MiB of memory with frame 0 in use, and a machine without free frames.
def freshKernel : Kernel where
  pmm := { Pmm.boot with totalMemory := 0x1000000, words := fun i => if i = 0 then 1 else 0 }
  memory _ := 0
  currentPageDirectory := 0
  cr3 := 0
  paging := false

def fullKernel : Kernel := { freshKernel with pmm := Pmm.boot }

theorem freshKernel_allocates : AllocatesTables freshKernel.pmm := by decide +kernel

theorem failsCleanly_iff_fresh : ∃ r, freshKernel.initializeVmemoryResult = .ok r ∧
    (freshKernel.FailsCleanly r ↔ AllocatesTables freshKernel.pmm) := by
  obtain ⟨r, hr, -⟩ := freshKernel.initializeVmemoryResult_always rfl
  exact ⟨r, hr, freshKernel.failsCleanly_iff r hr⟩

-- All three allocations fail, and the answer is true with paging enabled.
theorem not_failsCleanly_full : ¬AllocatesTables fullKernel.pmm ∧
    ∃ r, fullKernel.initializeVmemoryResult = .ok r ∧ r.1 = true ∧ r.2.paging = true ∧
      ¬fullKernel.FailsCleanly r := by
  have hfail : ¬AllocatesTables fullKernel.pmm := by decide
  obtain ⟨r, hr, htrue, hpaging⟩ := fullKernel.initializeVmemoryResult_always rfl
  exact ⟨hfail, r, hr, htrue, hpaging, fun hclean => hfail (hclean.success htrue).1⟩

end Sample

end Kernel

end ToyKernel
