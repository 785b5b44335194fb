import ToyKernel.Client
import ToyKernel.Vmm.Layout

namespace ToyKernel

open Library ByteMemory FirstFit

-- The block of an allocation, if there is one, ends at or below 4 MiB: nothing is asked
-- for or given, or some clear run of that length ends there.
def FitsLow (p : Pmm) (size : Nat) : Prop :=
  size = 0 ∨ p.totalBlock ≤ p.totalUsedBlocks.toNat ∨
    (∀ start < 32 * p.totalBlock, ¬Clear p.marked start size) ∨
    ∃ start, start + size ≤ 1024 ∧ Clear p.marked start size

theorem FitsLow.end_le {p : Pmm} {size frame : Nat} (h : FitsLow p size) (hpos : 0 < size)
    (hopen : p.totalUsedBlocks.toNat < p.totalBlock)
    (hf : IsFirst p.marked (32 * p.totalBlock) size frame) : frame + size ≤ 1024 := by
  rcases h with hz | hclosed | hnone | ⟨start, hend, hc⟩
  · omega
  · omega
  · exact absurd hf.clear (hnone frame hf.start_lt)
  · have hleast := hf.least start hc
    omega

theorem fitsLow_of_found {p : Pmm} {size frame : Nat} (h : p.getFreeFrameBySize size = some frame)
    (hend : frame + size ≤ 1024) : FitsLow p size :=
  Or.inr (Or.inr (Or.inr ⟨frame, hend, ((p.getFreeFrameBySize_eq_some_iff size frame).mp h).2.2.clear⟩))

-- The table of `virt` is there, or the frame for a new one ends at or below 4 MiB.
def TableFits (k : Kernel) (virt : Nat) : Prop :=
  isPresent (load32 k.memory (k.currentPageDirectory + 4 * PD_INDEX virt)) = true ∨ FitsLow k.pmm 1

-- The frames `[frame, frame + size)` were free and are now marked.
structure Taken (p p' : Pmm) (frame size : Nat) : Prop where
  end_le : frame + size ≤ 1024
  free : ∀ f, frame ≤ f → f < frame + size → p.testBit f = false
  result : p' = p.takeFrames frame size

theorem Taken.marks {p p' : Pmm} {frame size : Nat} (h : Taken p p' frame size) (f : Nat)
    (hm : p.testBit f = true) : p'.testBit f = true := by
  rw [h.result]
  exact Pmm.testBit_takeFrames_of_testBit p frame size f hm

theorem Taken.taken {p p' : Pmm} {frame size : Nat} (h : Taken p p' frame size) {f : Nat}
    (hlo : frame ≤ f) (hhi : f < frame + size) : p'.testBit f = true := by
  have hend := h.end_le
  rw [h.result]
  exact Pmm.testBit_takeFrames_self p (by omega) hlo hhi

-- How the frames of the tables and the marks may develop: new tables are on frames that
-- were free before.
structure Grows (p p' : Pmm) (directory : Nat) (table table' : Nat → Option Nat) : Prop where
  marks : ∀ f, p.testBit f = true → p'.testBit f = true
  uses : ∀ f, Uses directory table' f → Uses directory table f ∨ p.testBit f = false

theorem Grows.of_marks {p p' : Pmm} {directory : Nat} {table : Nat → Option Nat}
    (h : ∀ f, p.testBit f = true → p'.testBit f = true) : Grows p p' directory table table :=
  ⟨h, fun _ hf => Or.inl hf⟩

namespace Kernel

@[simp] theorem ok_bind {ε α β : Type} (a : α) (f : α → Except ε β) : (Except.ok a >>= f) = f a := rfl

@[simp] theorem pure_bind {ε α β : Type} (a : α) (f : α → Except ε β) :
    ((pure a : Except ε α) >>= f) = f a := rfl

-- Without a frame the answer is null.
theorem allocateBlock_none {k : Kernel} {size : Nat} (hnone : k.pmm.getFreeFrameBySize size = none) :
    k.allocateBlock size = .ok (0, k) := by
  unfold Kernel.allocateBlock
  rw [hnone]

-- As far as the PMM goes, the allocator with memory is the one without.
theorem allocateBlock_result {k : Kernel} {size : Nat} {r : Nat × Kernel}
    (h : k.allocateBlock size = .ok r) : k.pmm.allocateBlock size = (r.1, r.2.pmm) := by
  unfold Kernel.allocateBlock at h
  cases hs : k.pmm.getFreeFrameBySize size with
  | none =>
      rw [hs] at h
      cases h
      rw [Pmm.allocateBlock, hs]
  | some frame =>
      rw [hs] at h
      simp only [zero, access] at h
      split at h
      · cases h
        rfl
      · cases h

theorem allocateBlock_pmm {k : Kernel} {size : Nat} {r : Nat × Kernel}
    (h : k.allocateBlock size = .ok r) : r.2.pmm = (k.pmm.allocateBlock size).2 := by
  rw [allocateBlock_result h]

end Kernel

namespace Layout

variable {k : Kernel} {directory : Nat} {table : Nat → Option Nat}

section Allocation

-- An allocation that clears `bytes` bytes of its block.
theorem zero_block (h : Layout k directory table) {size frame bytes : Nat}
    (hf : IsFirst k.pmm.marked (32 * k.pmm.totalBlock) size frame) (hend : frame + size ≤ 1024)
    (hbytes : bytes ≤ 4096 * size) :
    ∃ k', { k with pmm := k.pmm.takeFrames frame size }.zero (frame * 4096) bytes = .ok k' ∧
      Layout k' directory table ∧ Taken k.pmm k'.pmm frame size := by
  have hfree : ∀ f, frame ≤ f → f < frame + size → k.pmm.testBit f = false := by
    intro f hlo hhi
    rw [← Pmm.marked_of_lt k.pmm (by omega)]
    exact hf.clear.cell f hlo hhi
  have hmarks : ∀ f, k.pmm.testBit f = true → (k.pmm.takeFrames frame size).testBit f = true :=
    fun f hm => Pmm.testBit_takeFrames_of_testBit k.pmm frame size f hm
  have hfill : Layout { k with memory := fill k.memory (frame * 4096) bytes 0 } directory table := by
    refine h.writing frame size (fun f hlo hhi => h.not_uses (hfree f hlo hhi)) fun b hb => ?_
    exact fill_of_apart (by omega) 0
  exact ⟨_, (h.marking hmarks).access_low _ (by omega), hfill.marking hmarks, hend, hfree, rfl⟩

theorem allocateBlock (h : Layout k directory table) {size : Nat} (hfit : FitsLow k.pmm size) :
    k.allocateBlock size = .ok (0, k) ∨
      ∃ frame k', k.allocateBlock size = .ok (4096 * frame, k') ∧ Layout k' directory table ∧
        Taken k.pmm k'.pmm frame size := by
  unfold Kernel.allocateBlock
  rcases k.pmm.allocateBlock_cases size with ⟨hnone, _⟩ | ⟨frame, hf, hpos, hopen, _, he⟩
  · left
    rw [hnone]
  · right
    have hsome := (k.pmm.getFreeFrameBySize_eq_some_iff size frame).mpr ⟨hpos, hopen, hf⟩
    have hend := hfit.end_le hpos hopen hf
    have hbytes : u32 (size * PER_BLOCK_SIZE) = size * 4096 := u32_of_lt (by
      change size * 4096 < _
      omega)
    have hlen : size * 4096 ≤ 4096 * size := by omega
    obtain ⟨k', hz, hl, htaken⟩ := h.zero_block hf hend hlen
    refine ⟨frame, k', ?_, hl, htaken⟩
    rw [hsome, he]
    simp only [hbytes]
    change ({ k with pmm := k.pmm.takeFrames frame size }.zero (frame * 4096) (size * 4096) >>= _) = _
    rw [hz, Nat.mul_comm 4096]
    rfl

-- Without a table for the second 4 MiB no block over the border can be cleared.
theorem allocateBlock_crossing (h : Layout k directory table) (habsent : table 1 = none)
    {size frame : Nat} (hfound : k.pmm.getFreeFrameBySize size = some frame) (hlo : frame ≤ 1024)
    (hhi : 1024 < frame + size) (hsize : size < 1048576) : ∃ fault, k.allocateBlock size = .error fault := by
  have hbytes : u32 (size * PER_BLOCK_SIZE) = size * 4096 := u32_of_lt (by
    change size * 4096 < _
    omega)
  have haddress : u32 (frame * PER_BLOCK_SIZE) = frame * 4096 := u32_of_lt (by
    change frame * 4096 < _
    omega)
  have hresult : k.pmm.allocateBlock size = (frame * 4096, k.pmm.takeFrames frame size) := by
    unfold Pmm.allocateBlock
    simp only [hfound, haddress]
  have hunreached : ¬{ k with pmm := k.pmm.takeFrames frame size }.Reaches (frame * 4096) (size * 4096) := by
    intro hreach
    have hborder := hreach (4194304 - frame * 4096) (by omega)
    rw [show frame * 4096 + (4194304 - frame * 4096) = 4194304 by omega] at hborder
    have hnone := h.translate_second habsent
    change k.translate 4194304 = _ at hborder
    rw [hnone] at hborder
    cases hborder
  refine ⟨⟨frame * 4096⟩, ?_⟩
  unfold Kernel.allocateBlock
  simp only [hfound, hresult, hbytes, Kernel.zero, Kernel.access, if_neg hunreached]
  rfl

theorem allocateByte (h : Layout k directory table) {size : Nat}
    (hfit : FitsLow k.pmm (Pmm.pagesFor size)) :
    k.allocateByte size = .ok (0, k) ∨
      ∃ frame k', k.allocateByte size = .ok (4096 * frame, k') ∧ Layout k' directory table ∧
        Taken k.pmm k'.pmm frame (Pmm.pagesFor size) := by
  unfold Kernel.allocateByte
  rcases k.pmm.allocateBlock_cases (Pmm.pagesFor size) with ⟨hnone, _⟩ | ⟨frame, hf, hpos, hopen, _, he⟩
  · left
    rw [hnone]
  · right
    have hsome := (k.pmm.getFreeFrameBySize_eq_some_iff _ frame).mpr ⟨hpos, hopen, hf⟩
    have hend := hfit.end_le hpos hopen hf
    have hbytes : u32 size ≤ 4096 * Pmm.pagesFor size := by
      unfold Pmm.pagesFor u32 PER_BLOCK_SIZE at *
      omega
    obtain ⟨k', hz, hl, htaken⟩ := h.zero_block hf hend hbytes
    refine ⟨frame, k', ?_, hl, htaken⟩
    rw [hsome]
    simp only [Pmm.allocateByte_eq_allocateBlock, he]
    change ({ k with pmm := k.pmm.takeFrames frame (Pmm.pagesFor size) }.zero (frame * 4096)
      (u32 size) >>= _) = _
    rw [hz, Nat.mul_comm 4096]
    rfl

end Allocation

section Entries

theorem read32_directory (h : Layout k directory table) {i : Nat} (hi : i < 1024) :
    k.read32 (k.currentPageDirectory + 4 * i) =
      .ok (load32 k.memory (k.currentPageDirectory + 4 * i)) := by
  have hdirectory := h.directory_lt
  have hcurrent := h.current
  exact h.access_low _ (by omega)

theorem update32_directory (h : Layout k directory table) {i : Nat} (hi : i < 1024)
    (f : BitVec 32 → BitVec 32) :
    k.update32 (k.currentPageDirectory + 4 * i) f = .ok
      { k with
        memory := store32 k.memory (4096 * directory + 4 * i)
          (f (load32 k.memory (4096 * directory + 4 * i))) } := by
  have hdirectory := h.directory_lt
  have hcurrent := h.current
  rw [← hcurrent]
  exact h.access_low _ (by omega)

-- A write into the directory leaves the tables themselves alone.
theorem low_store_directory (h : Layout k directory table) (i : Nat) (hi : i < 1024)
    (entry : BitVec 32) :
    ∃ t, table 0 = some t ∧ MapsFrom (store32 k.memory (4096 * directory + 4 * i) entry) t 0 := by
  obtain ⟨t, ht, hlow⟩ := h.low
  have hne := h.table_ne 0 t ht
  refine ⟨t, ht, hlow.congr fun f hf => load32_store32_of_apart ?_ entry⟩
  omega

-- Flags below bit 12 may be added to a directory entry that is present.
theorem addFlags (h : Layout k directory table) {i t : Nat} (hi : i < 1024) (ht : table i = some t)
    {attributes : BitVec 32} (hattributes : attributes.toNat < 4096) :
    Layout { k with
      memory := store32 k.memory (4096 * directory + 4 * i)
        (load32 k.memory (4096 * directory + 4 * i) ||| attributes) } directory table where
  toTables :=
    { h.toTables with
      absent := fun j hj hnone => by
        have hji : j ≠ i := by
          intro he
          rw [he, ht] at hnone
          cases hnone
        rw [load32_store32_of_apart (by omega)]
        exact h.absent j hj hnone
      present := fun j u hj hu => by
        by_cases hji : j = i
        · rw [hji, load32_store32_self, PAGE_PHYS_ADDRESS_or _ _ hattributes]
          obtain ⟨hp, ha⟩ := h.present i u hi (hji ▸ hu)
          exact ⟨isPresent_or_left _ _ hp, ha⟩
        · rw [load32_store32_of_apart (by omega)]
          exact h.present j u hj hu }
  paging := h.paging
  cr3 := h.cr3
  current := h.current
  low := h.low_store_directory i hi _

-- A directory entry that had no table gets the frame `t`.
theorem addTable (h : Layout k directory table) {i t : Nat} (hi : i < 1024) (habsent : table i = none)
    (ht : t < 1024) (hmarked : k.pmm.testBit t = true) (hnew : ¬Uses directory table t)
    {attributes : BitVec 32} (hpresent : isPresent attributes = true)
    (hattributes : attributes.toNat < 4096) :
    Layout { k with
      memory := store32 k.memory (4096 * directory + 4 * i)
        (SET_FRAME (load32 k.memory (4096 * directory + 4 * i) ||| attributes) (4096 * t)) }
      directory (Function.update table i (some t)) where
  toTables := by
    rw [h.absent i hi habsent]
    apply h.toTables.addTable i t ht hmarked hnew
    · exact isPresent_SET_FRAME _ _ (isPresent_or 0 attributes hpresent)
    · exact frame_entry hattributes (by decide) (by omega)
  paging := h.paging
  cr3 := h.cr3
  current := h.current
  low := by
    obtain ⟨t₀, ht₀, hlow⟩ := h.low_store_directory i hi
      (SET_FRAME (load32 k.memory (4096 * directory + 4 * i) ||| attributes) (4096 * t))
    refine ⟨t₀, ?_, hlow⟩
    have hne : 0 ≠ i := by
      intro hz
      rw [hz, habsent] at ht₀
      cases ht₀
    rw [Function.update_of_ne hne, ht₀]

-- A cleared free frame becomes the table of a directory entry that had none.
theorem newTable (h : Layout k directory table) {i : Nat} (hi : i < 1024) (habsent : table i = none)
    {attributes : BitVec 32} (hpresent : isPresent attributes = true)
    (hattributes : attributes.toNat < 4096) (hfit : FitsLow k.pmm 1) :
    ∃ ok k' table', k.newTable (k.currentPageDirectory + 4 * i) attributes = .ok (ok, k') ∧
      Layout k' directory table' ∧ Grows k.pmm k'.pmm directory table table' ∧
      (ok = true → ∃ t, table' i = some t) := by
  unfold Kernel.newTable
  rcases h.allocateBlock hfit with he | ⟨t, k₁, he, h₁, htaken⟩
  · rw [he]
    exact ⟨false, k, table, rfl, h, Grows.of_marks fun _ hm => hm, fun hfalse => by cases hfalse⟩
  have hend := htaken.end_le
  by_cases hzero : 4096 * t = 0
  · refine ⟨false, k₁, table, ?_, h₁, Grows.of_marks htaken.marks, fun hfalse => by cases hfalse⟩
    rw [he, hzero]
    rfl
  have hfree : k.pmm.testBit t = false := htaken.free t (by omega) (by omega)
  have hnew : ¬Uses directory table t := h.not_uses hfree
  have hz : k₁.zero (4096 * t) PAGE_SIZE =
      .ok { k₁ with memory := fill k₁.memory (4096 * t) PAGE_SIZE 0 } :=
    h₁.access_low _ (by
      change 4096 * t + 4096 ≤ 4194304
      omega)
  have h₂ : Layout { k₁ with memory := fill k₁.memory (4096 * t) PAGE_SIZE 0 } directory table := by
    refine h₁.writing t 1 (fun f hlo hhi huses => ?_) fun b hb => ?_
    · rw [show f = t by omega] at huses
      exact hnew huses
    · apply fill_of_apart
      change b < 4096 * t ∨ 4096 * t + 4096 ≤ b
      omega
  have hupdate := h₂.update32_directory hi fun entry => SET_FRAME (entry ||| attributes) (4096 * t)
  have h₃ := h₂.addTable hi habsent (by omega) (htaken.taken (by omega) (by omega)) hnew hpresent
    hattributes
  refine ⟨true, _, _, ?_, h₃, ⟨htaken.marks, fun f hf => ?_⟩, fun _ => ⟨t, Function.update_self ..⟩⟩
  · have hcurrent : k.currentPageDirectory = k₁.currentPageDirectory := h.current.trans h₁.current.symm
    rw [he, hcurrent]
    simp only [Kernel.ok_bind, if_neg hzero, hz]
    exact congrArg (fun x => x >>= fun k => pure (true, k)) hupdate
  · rcases hf with hd | ⟨j, hj⟩
    · exact Or.inl (Or.inl hd)
    · rcases (update_eq_some table i t j f).mp hj with ⟨_, rfl⟩ | ⟨_, hold⟩
      · exact Or.inr hfree
      · exact Or.inl (Or.inr ⟨j, hold⟩)

-- An entry of a table; the table for the first 4 MiB must go on to map them to themselves.
theorem update32_page (h : Layout k directory table) {i slot t : Nat} (hslot : slot < 1024)
    (ht : table i = some t) (f : BitVec 32 → BitVec 32)
    (hfirst : i = 0 → MapsFrom (store32 k.memory (4096 * t + 4 * slot)
      (f (load32 k.memory (4096 * t + 4 * slot)))) t 0) :
    ∃ k', k.update32 (4096 * t + 4 * slot) f = .ok k' ∧ Layout k' directory table ∧ k'.pmm = k.pmm := by
  have htlt := h.table_lt _ t ht
  have hne := h.table_ne _ t ht
  refine ⟨{ k with
    memory := store32 k.memory (4096 * t + 4 * slot) (f (load32 k.memory (4096 * t + 4 * slot))) },
    h.access_low _ (by omega), ⟨h.toTables.keep (fun _ hm => hm) fun j hj =>
      load32_store32_of_apart (by omega) _, h.paging, h.cr3, h.current, ?_⟩, rfl⟩
  obtain ⟨t₀, ht₀, hlow⟩ := h.low
  refine ⟨t₀, ht₀, ?_⟩
  by_cases hz : i = 0
  · rw [hz, ht₀] at ht
    obtain rfl := Option.some.inj ht
    exact hfirst hz
  · have htt : t₀ ≠ t := by
      intro he
      rw [he] at ht₀
      exact hz (h.table_inj _ _ t ht ht₀)
    exact hlow.congr fun g hg => load32_store32_of_apart (by omega) _

-- A mapping of a page below 4 MiB must be to the page itself.
theorem setPage (h : Layout k directory table) {virt phys t : Nat} (hvirt : virt < 4294967296)
    (ht : table (PD_INDEX virt) = some t) (hsame : PD_INDEX virt = 0 → phys / 4096 = virt / 4096)
    {attributes : BitVec 32} (hattributes : attributes.toNat < 4096) :
    ∃ k', k.setPage virt attributes phys = .ok k' ∧ Layout k' directory table ∧ k'.pmm = k.pmm := by
  have hpd : PD_INDEX virt < 1024 := by
    unfold PD_INDEX
    omega
  have hpt : PT_INDEX virt < 1024 := Nat.mod_lt _ (by omega)
  have haddress := (h.present _ t hpd ht).2
  rw [← h.current] at haddress
  unfold Kernel.setPage
  rw [h.read32_directory hpd]
  simp only [Kernel.ok_bind, haddress]
  apply h.update32_page hpt ht
  intro hz
  obtain ⟨t₀, ht₀, hlow⟩ := h.low
  rw [hz, ht₀] at ht
  obtain rfl := Option.some.inj ht
  apply hlow.again hpt ?_ hattributes
  rw [hsame hz]
  unfold PD_INDEX PT_INDEX at *
  omega

end Entries

end Layout

namespace Kernel

section Mapping

variable {k : Kernel} {phys virt : Nat} {entry : BitVec 32}

theorem mapPage_of_present (hread : k.read32 (k.currentPageDirectory + 4 * PD_INDEX virt) = .ok entry)
    (hpresent : isPresent entry = true) :
    k.mapPage phys virt = do
      let k ← k.setPage virt PTE_PRESENT phys
      return (true, k) := by
  simp [mapPage, hread, hpresent]

theorem mapPage_of_absent (hread : k.read32 (k.currentPageDirectory + 4 * PD_INDEX virt) = .ok entry)
    (habsent : isPresent entry = false) :
    k.mapPage phys virt = do
      let (ok, k) ← k.newTable (k.currentPageDirectory + 4 * PD_INDEX virt) (PTE_PRESENT ||| PTE_READ_WRITE)
      if !ok then return (false, k)
      let k ← k.setPage virt PTE_PRESENT phys
      return (true, k) := by
  simp [mapPage, hread, habsent]

theorem mapPageUser_of_present
    (hread : k.read32 (k.currentPageDirectory + 4 * PD_INDEX virt) = .ok entry)
    (hpresent : isPresent entry = true) :
    k.mapPageUser phys virt = do
      let k ← k.update32 (k.currentPageDirectory + 4 * PD_INDEX virt) fun entry => entry ||| PTE_USER
      let k ← k.setPage virt (PTE_PRESENT ||| PTE_READ_WRITE ||| PTE_USER) phys
      return (true, k) := by
  simp [mapPageUser, hread, hpresent]

theorem mapPageUser_of_absent
    (hread : k.read32 (k.currentPageDirectory + 4 * PD_INDEX virt) = .ok entry)
    (habsent : isPresent entry = false) :
    k.mapPageUser phys virt = do
      let (ok, k) ← k.newTable (k.currentPageDirectory + 4 * PD_INDEX virt)
        (PTE_PRESENT ||| PTE_READ_WRITE ||| PTE_USER)
      if !ok then return (false, k)
      let k ← k.setPage virt (PTE_PRESENT ||| PTE_READ_WRITE ||| PTE_USER) phys
      return (true, k) := by
  simp [mapPageUser, hread, habsent]

end Mapping

end Kernel

namespace Layout

variable {k : Kernel} {directory : Nat} {table : Nat → Option Nat}

section Mapping

variable {phys virt : Nat}

theorem PD_INDEX_lt (hvirt : virt < 4294967296) : PD_INDEX virt < 1024 := by
  unfold PD_INDEX
  omega

-- A new table and an entry in it, as both kinds of mapping make them.
theorem mapNew (h : Layout k directory table) (hvirt : virt < 4294967296)
    (hsame : PD_INDEX virt = 0 → phys / 4096 = virt / 4096) (habsent : table (PD_INDEX virt) = none)
    (hfit : FitsLow k.pmm 1) {attributes pageAttributes : BitVec 32}
    (hpresent : isPresent attributes = true) (hattributes : attributes.toNat < 4096)
    (hpage : pageAttributes.toNat < 4096) :
    ∃ ok k' table', (do
        let (ok, k) ← k.newTable (k.currentPageDirectory + 4 * PD_INDEX virt) attributes
        if !ok then return (false, k)
        let k ← k.setPage virt pageAttributes phys
        return (true, k) : Except Fault (Bool × Kernel)) = .ok (ok, k') ∧
      Layout k' directory table' ∧ Grows k.pmm k'.pmm directory table table' ∧
      (ok = true → ∃ t, table' (PD_INDEX virt) = some t) := by
  obtain ⟨ok, k₁, table₁, hnew, h₁, hgrows, hok⟩ :=
    h.newTable (PD_INDEX_lt hvirt) habsent hpresent hattributes hfit
  rw [hnew]
  cases ok with
  | false => exact ⟨false, k₁, table₁, rfl, h₁, hgrows, hok⟩
  | true =>
      obtain ⟨t, ht⟩ := hok rfl
      obtain ⟨k₂, hset, h₂, hpmm⟩ := h₁.setPage hvirt ht hsame hpage
      refine ⟨true, k₂, table₁, ?_, h₂, by rwa [hpmm], hok⟩
      simp only [Kernel.ok_bind, hset]
      rfl

-- Both mappings keep the layout where a new table fits and the first 4 MiB stay as they are.
theorem mapPage (h : Layout k directory table) (hvirt : virt < 4294967296)
    (hfit : TableFits k virt) (hsame : PD_INDEX virt = 0 → phys / 4096 = virt / 4096) :
    ∃ ok k' table', k.mapPage phys virt = .ok (ok, k') ∧ Layout k' directory table' ∧
      Grows k.pmm k'.pmm directory table table' ∧
      (ok = true → ∃ t, table' (PD_INDEX virt) = some t) := by
  have hpd := PD_INDEX_lt hvirt
  have hread := h.read32_directory hpd
  cases ht : table (PD_INDEX virt) with
  | some t =>
      have hattributes : PTE_PRESENT.toNat < 4096 := by decide
      obtain ⟨k', hset, h', hpmm⟩ := h.setPage hvirt ht hsame hattributes
      rw [Kernel.mapPage_of_present hread ((h.isPresent_iff hpd).mpr ⟨t, ht⟩), hset]
      exact ⟨true, k', table, rfl, h', Grows.of_marks fun f hm => by rwa [hpmm], fun _ => ⟨t, ht⟩⟩
  | none =>
      have habsent := h.not_isPresent hpd ht
      rw [Kernel.mapPage_of_absent hread (Bool.eq_false_iff.mpr habsent)]
      exact h.mapNew hvirt hsame ht (hfit.resolve_left habsent) (by decide) (by decide) (by decide)

theorem mapPageUser (h : Layout k directory table) (hvirt : virt < 4294967296)
    (hfit : TableFits k virt) (hsame : PD_INDEX virt = 0 → phys / 4096 = virt / 4096) :
    ∃ ok k' table', k.mapPageUser phys virt = .ok (ok, k') ∧ Layout k' directory table' ∧
      Grows k.pmm k'.pmm directory table table' ∧
      (ok = true → ∃ t, table' (PD_INDEX virt) = some t) := by
  have hpd := PD_INDEX_lt hvirt
  have hread := h.read32_directory hpd
  cases ht : table (PD_INDEX virt) with
  | some t =>
      have huser : PTE_USER.toNat < 4096 := by decide
      have hattributes : (PTE_PRESENT ||| PTE_READ_WRITE ||| PTE_USER).toNat < 4096 := by decide
      have hupdate := h.update32_directory hpd fun entry => entry ||| PTE_USER
      obtain ⟨k', hset, h', hpmm⟩ := (h.addFlags hpd ht huser).setPage hvirt ht hsame hattributes
      rw [Kernel.mapPageUser_of_present hread ((h.isPresent_iff hpd).mpr ⟨t, ht⟩), hupdate]
      simp only [Kernel.ok_bind, hset]
      exact ⟨true, k', table, rfl, h', Grows.of_marks fun f hm => by rwa [hpmm], fun _ => ⟨t, ht⟩⟩
  | none =>
      have habsent := h.not_isPresent hpd ht
      rw [Kernel.mapPageUser_of_absent hread (Bool.eq_false_iff.mpr habsent)]
      exact h.mapNew hvirt hsame ht (hfit.resolve_left habsent) (by decide) (by decide) (by decide)

-- get_page only reads the directory.
theorem getPage (h : Layout k directory table) (hvirt : virt < 4294967296) :
    ∃ page, k.getPage virt = .ok page := by
  unfold Kernel.getPage
  rw [h.read32_directory (PD_INDEX_lt hvirt)]
  exact ⟨_, rfl⟩

end Mapping

end Layout

end ToyKernel
