import ToyKernel.Heap.Stands
import ToyKernel.Vmm.Boot

namespace ToyKernel

open Library ByteMemory BlockList

-- Paging is on, frame 0 is taken, and `n` more frames can be had one at a time.
structure Ready (k : Kernel) (n : Nat) : Prop where
  layout : ∃ directory table, Layout k directory table
  zero : k.pmm.testBit 0 = true
  room : Room ∅ k.pmm n

theorem Room.less {kept : Set Nat} {p : Pmm} {n : Nat} (h : Room kept p (n + 1)) : Room kept p n := by
  obtain ⟨hopen, free, hcard, hfree⟩ := h
  obtain ⟨fewer, hsub, hcard'⟩ := Finset.exists_subset_card_eq (show n ≤ free.card by omega)
  exact ⟨by omega, fewer, hcard', fun f hf => hfree f (hsub hf)⟩

namespace Ready

variable {k : Kernel} {n phys virt : Nat}

theorem allocateBlock (h : Ready k (n + 1)) :
    ∃ frame k', frame ≠ 0 ∧ k.allocateBlock 1 = .ok (4096 * frame, k') ∧ Ready k' n := by
  obtain ⟨directory, table, hl⟩ := h.layout
  obtain ⟨frame, hfound, htaken, hroom⟩ := h.room.take
  have hend := htaken.end_le
  have haddress : u32 (frame * PER_BLOCK_SIZE) = 4096 * frame := by
    rw [Nat.mul_comm]
    apply u32_of_lt
    change 4096 * frame < _
    omega
  have hne : frame ≠ 0 := by
    intro hz
    have hfree := htaken.free frame (by omega) (by omega)
    rw [hz, h.zero] at hfree
    cases hfree
  have hresult : k.pmm.allocateBlock 1 = (4096 * frame, k.pmm.takeFrames frame 1) := by
    unfold Pmm.allocateBlock
    rw [hfound]
    simp only [haddress]
  rcases hl.allocateBlock (fitsLow_of_found hfound hend) with he | ⟨frame', k', he, hl', _⟩
  · have hsame := Kernel.allocateBlock_result he
    rw [hresult] at hsame
    have hzero : 4096 * frame = 0 := congrArg Prod.fst hsame
    omega
  · have hsame := hresult.symm.trans (Kernel.allocateBlock_result he)
    have hframe : 4096 * frame = 4096 * frame' := congrArg Prod.fst hsame
    have hpmm : k'.pmm = k.pmm.takeFrames frame 1 := (congrArg Prod.snd hsame).symm
    refine ⟨frame, k', hne, by rw [he, hframe], ⟨directory, table, hl'⟩, ?_, by rwa [hpmm]⟩
    rw [hpmm]
    exact Pmm.testBit_takeFrames_of_testBit _ frame 1 0 h.zero

-- A mapping above 4 MiB takes at most one frame, for its table.
theorem mapPage (h : Ready k (n + 1)) (hvirt : virt < 4294967296) (hfirst : PD_INDEX virt ≠ 0) :
    ∃ k' directory table t, k.mapPage phys virt = .ok (true, k') ∧ Ready k' n ∧
      Layout k' directory table ∧ table (PD_INDEX virt) = some t := by
  obtain ⟨directory, table, hl⟩ := h.layout
  obtain ⟨frame, hfound, htaken, hroom⟩ := h.room.take
  obtain ⟨frame', k₁, hne, halloc, hready⟩ := h.allocateBlock
  obtain ⟨ok, k', table', he, hl', hgrows, hpresent⟩ := hl.mapPage hvirt
    (Or.inr (fitsLow_of_found hfound htaken.end_le)) (fun hz => absurd hz hfirst)
  obtain ⟨hpmm, hnone⟩ := Kernel.mapPage_result he
  rw [Kernel.allocateBlock_result halloc] at hpmm hnone
  cases ok with
  | false =>
      have hzero : 4096 * frame' = 0 := hnone rfl
      omega
  | true =>
      obtain ⟨t, ht⟩ := hpresent rfl
      refine ⟨k', directory, table', t, he, ⟨⟨directory, table', hl'⟩, hgrows.marks 0 h.zero, ?_⟩, hl', ht⟩
      rcases hpmm with hsame | hsame
      · simp only at hsame
        rw [hsame]
        exact h.room.less
      · simp only at hsame
        rw [hsame]
        exact hready.room

end Ready

namespace Heap

variable {k : Kernel} {h : Heap} {n : Nat}

theorem mapInitialPage_ok (hk : Ready k (n + 1)) (phys virt : Nat) (hvirt : virt < 4294967296)
    (hfirst : PD_INDEX virt ≠ 0) :
    ∃ k', mapInitialPage k phys virt = .ok k' ∧ Ready k' n := by
  obtain ⟨k₁, directory, table, t, hmap, hk₁, hl, ht⟩ := hk.mapPage hvirt hfirst
  have hpd := Layout.PD_INDEX_lt hvirt
  have hpage : k₁.getPage virt = .ok (4096 * t + 4 * PT_INDEX virt) := by
    have haddress := (hl.present _ t hpd ht).2
    rw [← hl.current] at haddress
    unfold Kernel.getPage
    rw [hl.read32_directory hpd, Kernel.ok_bind, haddress]
    rfl
  have hslot : PT_INDEX virt < 1024 := Nat.mod_lt _ (by omega)
  obtain ⟨k', hupdate, hl', hpmm⟩ := hl.update32_page hslot ht (fun entry => entry ||| PTE_READ_WRITE)
    (fun hz => absurd hz hfirst)
  refine ⟨k', ?_, ⟨directory, table, hl'⟩, by rw [hpmm]; exact hk₁.zero, by rw [hpmm]; exact hk₁.room⟩
  unfold mapInitialPage
  rw [hmap]
  change (fault (k₁.getPage virt) >>= _) = _
  rw [hpage]
  change fault (k₁.update32 _ _) = _
  rw [hupdate]
  rfl

-- A request of one page makes a heap of one page.
theorem mallocInit_ok (hk : Ready h.kernel (n + 2)) :
    ∃ h', h.mallocInit 4096 = .ok h' ∧ Ready h'.kernel n ∧ Stands h' [⟨4084, true⟩] := by
  obtain ⟨frame, k₁, hne, halloc, hk₁⟩ := hk.allocateBlock
  obtain ⟨k₂, hmap, hk₂⟩ := mapInitialPage_ok hk₁ (u32 (4096 * frame + 0 * PAGE_SIZE))
    (u32 (KERNEL_HEAP_START + 0 * PAGE_SIZE)) (by decide) (by decide)
  have hpos : ¬4096 * frame = 0 := by omega
  have hok : ∃ h', h.mallocInit 4096 = .ok h' ∧ Ready h'.kernel n ∧ h'.totalMallocPages = 1 := by
    unfold mallocInit
    have hpages : u32 (4096 + PAGE_SIZE - 1) / PAGE_SIZE + (if 4096 % PAGE_SIZE > 0 then 1 else 0) = 1 := by
      decide
    simp only [hpages, halloc, fault, Except.mapError, Kernel.ok_bind, if_neg hpos]
    rw [List.range_one, List.foldlM_cons, hmap]
    exact ⟨_, rfl, hk₂, rfl⟩
  obtain ⟨h', hinit, hready, hpages⟩ := hok
  have hs := mallocInit_stands (by omega) (by omega) (initialPages_le (by omega)) hinit
  rw [hpages] at hs
  exact ⟨h', hinit, hready, hs⟩

theorem growPage_ok (hk : Ready h.kernel (n + 2)) (cur virt : Nat) (hvirt : virt < 4294967296)
    (hfirst : PD_INDEX virt ≠ 0) :
    ∃ h', h.growPage cur virt = .ok h' ∧ Ready h'.kernel n ∧
      h'.bytes = setSize (fill h.bytes virt PAGE_SIZE 0) cur
        (u32 (sizeOf (fill h.bytes virt PAGE_SIZE 0) cur + PAGE_SIZE)) ∧
      h'.mallocListHead = h.mallocListHead ∧ h'.totalMallocPages = u32 (h.totalMallocPages + 1) := by
  obtain ⟨frame, k₁, hne, halloc, hk₁⟩ := hk.allocateBlock
  obtain ⟨k₂, _, _, _, hmap, hk₂, _⟩ := hk₁.mapPage hvirt hfirst
  have hpos : ¬4096 * frame = 0 := by omega
  unfold growPage
  simp only [halloc, fault, Except.mapError, Kernel.ok_bind, if_neg hpos]
  rw [hmap]
  exact ⟨_, rfl, hk₂, rfl, rfl, rfl⟩

section Requests

variable {before after : List Block} {b : Block}

-- A block of just the right size, or a last one of that size, is handed out whole.
theorem syscallMalloc_exact (hs : Stands h (before ++ b :: after)) (hpos : 0 < b.size)
    (hbefore : ∀ c ∈ before, ¬Fits b.size c) (hstop : Fits b.size b ∨ after = []) :
    ∃ m, h.syscallMalloc b.size =
        .ok (KERNEL_HEAP_START + extent 12 before + 12, { h with bytes := m }) ∧
      Stands { h with bytes := m } (mergePass 12 (before ++ ⟨b.size, false⟩ :: after)) := by
  obtain ⟨m₁, htake, hs₁⟩ := takeBlock_exact hs hpos
  obtain ⟨m, hmerge, hs'⟩ := mergeFreeBlocks_ok hs₁
  refine ⟨m, ?_, hs'⟩
  rw [syscallMalloc_eq hs hpos (hs.search hbefore hstop), htake]
  simp only [Kernel.ok_bind, hmerge, pointer_eq hs]
  rfl

-- A pointer to a block that is not the last is found.
theorem mallocFree_found (hs : Stands h (before ++ b :: after)) (hafter : after ≠ []) :
    h.mallocFree (KERNEL_HEAP_START + extent 12 before + 12) =
      mergeFreeBlocks { h with bytes := setFree h.bytes (KERNEL_HEAP_START + extent 12 before) true } := by
  have hlength := hs.length_lt
  rw [List.length_append] at hlength
  have hfound : findNode h.bytes (KERNEL_HEAP_START + extent 12 before + 12) LIST_STEPS
      h.mallocListHead = some (some (KERNEL_HEAP_START + extent 12 before)) := by
    rw [hs.head_eq]
    exact findNode_finds hs.chain hafter hs.heapEnd_lt (by omega)
  unfold mallocFree
  rw [hfound]

-- Its block is given back.
theorem syscallFree_ok (hs : Stands h (before ++ b :: after)) (hafter : after ≠ []) :
    ∃ m, h.syscallFree (KERNEL_HEAP_START + extent 12 before + 12) = .ok { h with bytes := m } ∧
      Stands { h with bytes := m } (mergePass 12 (before ++ ⟨b.size, true⟩ :: after)) := by
  obtain ⟨m, hmerge, hs'⟩ := mergeFreeBlocks_ok (release_stands hs)
  exact ⟨m, (mallocFree_found hs hafter).trans hmerge, hs'⟩

-- The first request of all, for one page: the heap is made of one page and then grows.
theorem syscallMalloc_page (hk : Ready h.kernel (n + 4)) (hnull : h.mallocListHead = 0) :
    ∃ h', h.syscallMalloc 4096 = .ok (KERNEL_HEAP_START + 12, h') ∧ Ready h'.kernel n ∧
      Stands h' [⟨4096, false⟩, ⟨4072, true⟩] := by
  obtain ⟨h₀, hinit, hk₀, hs₀⟩ := mallocInit_ok hk
  rw [syscallMalloc_first hnull hinit hs₀]
  have hend : h₀.heapEnd = KERNEL_HEAP_START + 4096 := by
    have hextent := hs₀.chain.extent_eq
    simp only [extent] at hextent
    omega
  obtain ⟨h₁, hgrow, hk₁, _⟩ := growPage_ok hk₀ KERNEL_HEAP_START h₀.heapEnd (by rw [hend]; decide)
    (by rw [hend]; decide)
  have hpages : growPages 1 h₀ KERNEL_HEAP_START h₀.heapEnd = .ok h₁ := by
    rw [growPages, hgrow]
    rfl
  have hs₀' : Stands h₀ ([] ++ [⟨4084, true⟩]) := hs₀
  obtain ⟨m₁, htake, hs₁⟩ := takeBlock_grown hs₀' (show 0 < 4096 by omega) (by omega) (by decide)
    (by decide) (show numPages 4084 4096 = some 1 by decide) hpages
  obtain ⟨m, hmerge, hs'⟩ := mergeFreeBlocks_ok hs₁
  refine ⟨{ h₁ with bytes := m }, ?_, hk₁, hs'⟩
  rw [syscallMalloc_eq hs₀ (by omega) (hs₀'.search (fun c hc => absurd hc List.not_mem_nil) (Or.inr rfl)),
    htake]
  simp only [Kernel.ok_bind, hmerge]
  rfl

end Requests

end Heap

end ToyKernel
