import ToyKernel.Stage2.Start
import ToyKernel.Vmm.Unmap
import ToyKernel.Vmm.Window

namespace ToyKernel.Stage2

open Library ByteMemory

-- What the kernel is entered with: the first MiB where it is, the kernel's 4 MiB where they were
-- loaded, nothing else.
structure Handed (k : Kernel) : Prop where
  low : ∀ v < 0x100000, k.SupervisorPage v v
  high : ∀ v, 0xC0000000 ≤ v → v < 0xC0400000 → k.SupervisorPage v (Pmm.virtToPhys v)
  other : ∀ v, 0x100000 ≤ v → v < 4294967296 → ¬(0xC0000000 ≤ v ∧ v < 0xC0400000) →
    k.translate v = none

section Unmapping

variable {k k' : Kernel} {directory low high count n : Nat}

-- The tables of INITIALIZE_VMEMORY in use, on pages of their own
structure Entered (k : Kernel) (directory low high : Nat) : Prop where
  entries : BootEntries k.memory directory low high
  paging : k.paging = true
  cr3 : k.cr3 = 4096 * directory
  current : k.currentPageDirectory = 4096 * directory
  apart : low ≠ directory ∧ low ≠ high
  lt : directory < 256 ∧ low < 256 ∧ high < 256

-- `k'` is `k` without the first `count` pages from 1 MiB on.
structure Unmapped (directory low : Nat) (k k' : Kernel) (count : Nat) : Prop where
  same : k' = { k with memory := k'.memory }
  memory : ∀ b, b / 4096 ≠ low → k'.memory b = k.memory b
  kept : ∀ f < 1024, f < 256 ∨ 256 + count ≤ f →
    load32 k'.memory (4096 * low + 4 * f) = load32 k.memory (4096 * low + 4 * f)
  gone : ∀ f, 256 ≤ f → f < 256 + count → isPresent (load32 k'.memory (4096 * low + 4 * f)) = false

theorem Unmapped.pde (h : Unmapped directory low k k' count) (hk : Entered k directory low high) {i : Nat}
    (hi : i < 1024) :
    load32 k'.memory (4096 * directory + 4 * i) = load32 k.memory (4096 * directory + 4 * i) := by
  have hne := hk.apart.1
  exact load32_congr fun b _ _ => h.memory b (by omega)

theorem Unmapped.cr3 (h : Unmapped directory low k k' count) (hk : Entered k directory low high) :
    k'.cr3 = 4096 * directory := by
  rw [h.same]
  exact hk.cr3

theorem Unmapped.paging (h : Unmapped directory low k k' count) (hk : Entered k directory low high) :
    k'.paging = true := by
  rw [h.same]
  exact hk.paging

theorem Unmapped.mmuPde (h : Unmapped directory low k k' count) (hk : Entered k directory low high)
    {v : Nat} (hv : v < 4294967296) :
    k'.mmuPde v = load32 k.memory (4096 * directory + 4 * PD_INDEX v) := by
  rw [Kernel.mmuPde, h.cr3 hk]
  exact h.pde hk (by unfold PD_INDEX; omega)

-- A page of the first table that its entry maps to itself
theorem lowPage (hpaging : k.paging = true) (hcr3 : k.cr3 = 4096 * directory) (hlow : low < 256)
    (hpde : load32 k.memory (4096 * directory) = SET_FRAME (PTE_PRESENT ||| PTE_READ_WRITE) (4096 * low))
    {v : Nat} (hv : v < 0x400000) (hpte : load32 k.memory (4096 * low + 4 * PT_INDEX v) =
      SET_FRAME (PTE_PRESENT ||| PTE_READ_WRITE) (PT_INDEX v * PAGE_SIZE)) : k.SupervisorPage v v := by
  have hindex : PD_INDEX v = 0 := by
    unfold PD_INDEX
    omega
  have hslot : PT_INDEX v * 4096 + v % 4096 = v := by
    unfold PT_INDEX
    omega
  have hpt := PT_INDEX_lt v
  have hdir : KernelEntry (k.mmuPde v) (4096 * low) := by
    rw [Kernel.mmuPde, hcr3, hindex, Nat.mul_zero, Nat.add_zero, hpde]
    exact kernelEntry_SET_FRAME (by omega) (by omega)
  have hentry : KernelEntry (load32 k.memory (4096 * low + 4 * PT_INDEX v)) (PT_INDEX v * 4096) := by
    rw [hpte]
    exact kernelEntry_SET_FRAME (show PT_INDEX v * 4096 % 4096 = 0 by omega)
      (show PT_INDEX v * 4096 < 4294967296 by omega)
  have hmapped := Kernel.supervisorPage_of_entries hpaging hdir hentry
  rwa [hslot] at hmapped

theorem Unmapped.pde_low (h : Unmapped directory low k k' count) (hk : Entered k directory low high) :
    load32 k'.memory (4096 * directory) = SET_FRAME (PTE_PRESENT ||| PTE_READ_WRITE) (4096 * low) :=
  (h.pde hk (show 0 < 1024 by omega)).trans hk.entries.pde_low

theorem Unmapped.pte_low (h : Unmapped directory low k k' count) (hk : Entered k directory low high)
    {v : Nat} (hv : v < 0x100000) : load32 k'.memory (4096 * low + 4 * PT_INDEX v) =
      SET_FRAME (PTE_PRESENT ||| PTE_READ_WRITE) (PT_INDEX v * PAGE_SIZE) := by
  have hslot : PT_INDEX v < 256 := by
    unfold PT_INDEX
    omega
  rw [h.kept _ (by omega) (.inl hslot), hk.entries.low_entry _ (by omega)]

theorem Unmapped.lowPage (h : Unmapped directory low k k' count) (hk : Entered k directory low high)
    {v : Nat} (hv : v < 0x100000) : k'.SupervisorPage v v :=
  Stage2.lowPage (h.paging hk) (h.cr3 hk) hk.lt.2.1 (h.pde_low hk) (by omega) (h.pte_low hk hv)

theorem Unmapped.highPage (h : Unmapped directory low k k' count) (hk : Entered k directory low high)
    {v : Nat} (hlo : 0xC0000000 ≤ v) (hhi : v < 0xC0400000) : k'.SupervisorPage v (Pmm.virtToPhys v) := by
  have hlt := hk.lt
  have hne := hk.apart.2
  have hindex : PD_INDEX v = 768 := by
    unfold PD_INDEX
    omega
  have hslot : 0x100000 + PT_INDEX v * 4096 + v % 4096 = Pmm.virtToPhys v := by
    unfold PT_INDEX Pmm.virtToPhys KERNEL_VIRT_BASE KERNEL_ADDRESS
    omega
  have hpt := PT_INDEX_lt v
  have hdir : KernelEntry (k'.mmuPde v) (4096 * high) := by
    rw [h.mmuPde hk (by omega), hindex, hk.entries.pde_high]
    exact kernelEntry_SET_FRAME (by omega) (by omega)
  have hentry : KernelEntry (load32 k'.memory (4096 * high + 4 * PT_INDEX v))
      (0x100000 + PT_INDEX v * 4096) := by
    have hsame : load32 k'.memory (4096 * high + 4 * PT_INDEX v) =
        load32 k.memory (4096 * high + 4 * PT_INDEX v) :=
      load32_congr fun b _ _ => h.memory b (by omega)
    rw [hsame, hk.entries.high_entry _ hpt]
    exact kernelEntry_SET_FRAME (show (0x100000 + PT_INDEX v * 4096) % 4096 = 0 by omega)
      (show 0x100000 + PT_INDEX v * 4096 < 4294967296 by omega)
  have hmapped := Kernel.supervisorPage_of_entries (h.paging hk) hdir hentry
  rwa [hslot] at hmapped

-- Behind the first MiB the table has lost its pages, and no other entry has a table.
theorem Unmapped.translate_none (h : Unmapped directory low k k' 768) (hk : Entered k directory low high)
    {v : Nat} (hlo : 0x100000 ≤ v) (hv : v < 4294967296) (hout : ¬(0xC0000000 ≤ v ∧ v < 0xC0400000)) :
    k'.translate v = none := by
  have hlt := hk.lt
  have hpde := h.mmuPde hk hv
  unfold Kernel.mmuPde at hpde
  unfold Kernel.translate
  rw [if_pos (h.paging hk)]
  dsimp only
  rw [hpde]
  by_cases hfirst : PD_INDEX v = 0
  · have haddress : PAGE_PHYS_ADDRESS (load32 k.memory (4096 * directory + 4 * PD_INDEX v)) = 4096 * low := by
      rw [hfirst, Nat.mul_zero, Nat.add_zero, hk.entries.pde_low]
      exact (kernelEntry_SET_FRAME (by omega) (by omega)).address
    have hslot : 256 ≤ PT_INDEX v ∧ PT_INDEX v < 256 + 768 := by
      unfold PD_INDEX at hfirst
      unfold PT_INDEX
      omega
    rw [haddress, h.gone _ hslot.1 hslot.2]
    exact ite_self _
  · have hindex : PD_INDEX v < 1024 ∧ PD_INDEX v ≠ 768 := by
      unfold PD_INDEX
      omega
    rw [hk.entries.pde_other _ hindex.1 hfirst hindex.2, if_neg (by simp)]

theorem Unmapped.handed (h : Unmapped directory low k k' 768) (hk : Entered k directory low high) :
    Handed k' :=
  ⟨fun _ hv => h.lowPage hk hv, fun _ hlo hhi => h.highPage hk hlo hhi,
    fun _ hlo hv hout => h.translate_none hk hlo hv hout⟩

-- One call of unmap_page
theorem Unmapped.step (h : Unmapped directory low k k' count) (hk : Entered k directory low high)
    (hcount : count < 768) : ∃ k'', k'.unmapPage (KERNEL_ADDRESS + count * PAGE_SIZE) = .ok k'' ∧
      Unmapped directory low k k'' (count + 1) := by
  have hlt := hk.lt
  have hpage : KERNEL_ADDRESS + count * PAGE_SIZE = 1048576 + count * 4096 := rfl
  have hindex : PD_INDEX (KERNEL_ADDRESS + count * PAGE_SIZE) = 0 ∧
      PT_INDEX (KERNEL_ADDRESS + count * PAGE_SIZE) = 256 + count := by
    rw [hpage]
    unfold PD_INDEX PT_INDEX
    omega
  have hcurrent : k'.currentPageDirectory = 4096 * directory := by
    rw [h.same]
    exact hk.current
  have htable : k'.tableAt 0 = 4096 * low := by
    rw [Kernel.tableAt, Kernel.pde, hcurrent, Nat.mul_zero, Nat.add_zero, h.pde_low hk]
    exact (kernelEntry_SET_FRAME (by omega) (by omega)).address
  have hentry : k'.entryAddr (KERNEL_ADDRESS + count * PAGE_SIZE) = 4096 * low + 4 * (256 + count) := by
    rw [Kernel.entryAddr, hindex.1, hindex.2, htable]
  -- Both entries are below 1 MiB.
  have hreach : ∀ address, address + 4 ≤ 0x100000 → k'.Reaches address 4 :=
    fun address hend i hi => (h.lowPage hk (by omega)).translate
  refine ⟨_, Kernel.unmapPage_iff.mpr ⟨hreach _ ?_, hreach _ ?_, rfl⟩, ?_⟩
  · rw [hcurrent, hindex.1]
    omega
  · rw [hentry]
    omega
  · unfold Kernel.unmapped
    rw [hentry]
    refine ⟨?_, fun b hb => ?_, fun f hf hkept => ?_, fun f hlo hhi => ?_⟩
    · rw [h.same]
    · exact (store32_of_ne (by omega) _).trans (h.memory b hb)
    · exact (load32_store32_of_apart (by omega) _).trans (h.kept f hf (by omega))
    · by_cases hlast : f = 256 + count
      · subst hlast
        exact (congrArg isPresent (load32_store32_self ..)).trans (isPresent_cleared _)
      · exact (congrArg isPresent (load32_store32_of_apart (by omega) _)).trans (h.gone f hlo (by omega))

end Unmapping

end ToyKernel.Stage2
