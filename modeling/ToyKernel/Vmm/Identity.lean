import ToyKernel.Vmm.Boot
import ToyKernel.Vmm.Owned

namespace ToyKernel

open Library ByteMemory FirstFit

section Conditions

variable (kept : Set Nat)

-- An allocation clears nothing above 4 MiB, and takes no frame of `kept`.
def AllocationFits (p : Pmm) (a : Pmm.Allocation) : Prop :=
  Pmm.AvoidsOk kept p a ∧
    match a with
    | .chunk => True
    | .block size => FitsLow p size
    | .byte size => FitsLow p (Pmm.pagesFor size)

-- The first 4 MiB stay mapped to themselves, and the kernel's own 4 MiB to its image.
def KeepsWindows (phys virt : Nat) : Prop :=
  (PD_INDEX virt = 0 → phys / 4096 = virt / 4096) ∧
    (PD_INDEX virt = PD_INDEX KERNEL_VIRT_BASE → phys / 4096 = Pmm.virtToPhys virt / 4096)

-- The table for `virt` is there or fits, and no window is moved.
def MappingFits (k : Kernel) (phys virt : Nat) : Prop :=
  TableFits k virt ∧ KeepsWindows phys virt ∧
    (isPresent (load32 k.memory (k.currentPageDirectory + 4 * PD_INDEX virt)) = true ∨
      Pmm.AvoidsOk kept k.pmm (.block 1))

-- What is asked of each step of a client, in the state the step meets.
def Met {α : Type} : Client α → Kernel → Prop
  | .done _, _ => True
  | .read address count next, k =>
      address + count ≤ 4194304 ∧ Met (next (k.bytesAt address count)) k
  | .copy phys source count next, k =>
      source + count ≤ 4194304 ∧ ∀ k', k.copyBytes phys source count = .ok k' → Met (next ()) k'
  | .allocate a next, k =>
      AllocationFits kept k.pmm a ∧ ∀ r, k.allocate a = .ok r → Met (next r.1) r.2
  | .getPage virt next, k => ∀ page, k.getPage virt.toNat = .ok page → Met (next page) k
  | .mapPage phys virt next, k =>
      MappingFits kept k phys.toNat virt.toNat ∧
        ∀ r, k.mapPage phys.toNat virt.toNat = .ok r → Met (next r.1) r.2
  | .mapPageUser phys virt next, k =>
      MappingFits kept k phys.toNat virt.toNat ∧
        ∀ r, k.mapPageUser phys.toNat virt.toNat = .ok r → Met (next r.1) r.2

end Conditions

-- Pages that a client may write: marked frames below 4 MiB that hold no table.
def Holds (k : Kernel) (directory : Nat) (table : Nat → Option Nat) (held : List Nat) : Prop :=
  ∀ page ∈ held, ∃ f < 1024, page = 4096 * f ∧ k.pmm.testBit f = true ∧ ¬Uses directory table f

def Guarded (k : Kernel) (held : List Nat) : Prop :=
  ∃ directory table, Layout k directory table ∧ Holds k directory table held

section Steps

variable {k k' : Kernel} {held : List Nat} {directory : Nat} {table table' : Nat → Option Nat}

-- Pages that were handed out stay apart from whatever tables are added.
theorem Holds.grow (h : Holds k directory table held)
    (hgrows : Grows k.pmm k'.pmm directory table table') : Holds k' directory table' held := by
  intro page hpage
  obtain ⟨f, hf, he, hmarked, hnot⟩ := h page hpage
  refine ⟨f, hf, he, hgrows.marks f hmarked, fun huses => ?_⟩
  rcases hgrows.uses f huses with hold | hfree
  · exact hnot hold
  · rw [hmarked] at hfree
    cases hfree

-- The pages of a block that was just taken.
theorem Holds.block (hl : Layout k directory table) {frame size : Nat}
    (htaken : Taken k.pmm k'.pmm frame size) :
    Holds k' directory table (Client.pagesOf (.block size) (4096 * frame)) := by
  intro page hpage
  by_cases hz : 4096 * frame = 0
  · rw [hz, Client.pagesOf_zero] at hpage
    cases hpage
  · have hend := htaken.end_le
    simp only [Client.pagesOf, if_neg hz, List.mem_map, List.mem_range] at hpage
    obtain ⟨i, hi, rfl⟩ := hpage
    refine ⟨frame + i, by omega, ?_, htaken.taken (by omega) (by omega),
      hl.not_uses (htaken.free (frame + i) (by omega) (by omega))⟩
    change 4096 * frame + i * 4096 = _
    omega

theorem Guarded.allocate (h : Guarded k held) {kept : Set Nat} {a : Pmm.Allocation}
    (hfit : AllocationFits kept k.pmm a) :
    ∃ phys k', k.allocate a = .ok (phys, k') ∧ Guarded k' (Client.pagesOf a phys ++ held) := by
  obtain ⟨directory, table, hl, hheld⟩ := h
  cases a with
  | chunk =>
      have hmarks : ∀ f, k.pmm.testBit f = true → k.pmm.allocateChunk.2.testBit f = true :=
        fun f hm => Pmm.testBit_allocated .chunk hm
      refine ⟨_, _, rfl, directory, table, hl.marking hmarks, ?_⟩
      rw [Client.pagesOf_chunk]
      exact hheld.grow (Grows.of_marks hmarks)
  | block size =>
      rcases hl.allocateBlock hfit.2 with he | ⟨frame, k', he, hl', htaken⟩
      · exact ⟨0, k, he, directory, table, hl, hheld⟩
      · refine ⟨4096 * frame, k', he, directory, table, hl', fun page hpage => ?_⟩
        rcases List.mem_append.mp hpage with hnew | hold
        · exact Holds.block hl htaken page hnew
        · exact hheld.grow (Grows.of_marks htaken.marks) page hold
  | byte size =>
      rcases hl.allocateByte hfit.2 with he | ⟨frame, k', he, hl', htaken⟩
      · exact ⟨0, k, he, directory, table, hl, hheld⟩
      · refine ⟨4096 * frame, k', he, directory, table, hl', ?_⟩
        rw [Client.pagesOf_byte]
        exact hheld.grow (Grows.of_marks htaken.marks)

-- A copy into a page the client holds.
theorem Guarded.copyBytes (h : Guarded k held) {phys source count : Nat}
    (hpage : ∃ page ∈ held, page ≤ phys ∧ phys + count ≤ page + PAGE_SIZE)
    (hsource : source + count ≤ 4194304) :
    ∃ k', k.copyBytes phys source count = .ok k' ∧ Guarded k' held := by
  obtain ⟨directory, table, hl, hheld⟩ := h
  obtain ⟨page, hmem, hlo, hhi⟩ := hpage
  obtain ⟨f, hf, rfl, hmarked, hnot⟩ := hheld page hmem
  have hend : phys + count ≤ 4096 * f + 4096 := hhi
  refine ⟨{ k with memory := copy k.memory phys count fun i => k.memory (source + i) }, ?_,
    directory, table, ?_, hheld⟩
  · unfold Kernel.copyBytes
    rw [hl.access_low k hsource]
    apply hl.access_low
    omega
  · refine hl.writing f 1 (fun g hlo' hhi' huses => ?_) fun b hb => if_neg (by omega)
    rw [show g = f by omega] at huses
    exact hnot huses

end Steps

-- A client whose steps meet their conditions never misses the memory it means.
theorem run_reaches {α : Type} {kept : Set Nat} {c : Client α} {held : List Nat} {k : Kernel}
    (h : Guarded k held) (hown : c.WritesOwn held) (hmet : Met kept c k) :
    ∃ a k' held', k.run c = .ok (a, k') ∧ Guarded k' held' := by
  induction c generalizing held k with
  | done a => exact ⟨a, k, held, rfl, h⟩
  | read address count next ih =>
      obtain ⟨directory, table, hl, hheld⟩ := h
      unfold Kernel.run
      rw [hl.access_low _ hmet.1, Kernel.ok_bind]
      exact ih _ ⟨directory, table, hl, hheld⟩ (hown _) hmet.2
  | copy phys source count next ih =>
      obtain ⟨k', he, h'⟩ := h.copyBytes hown.1 hmet.1
      unfold Kernel.run
      rw [he, Kernel.ok_bind]
      exact ih () h' hown.2 (hmet.2 k' he)
  | allocate a next ih =>
      obtain ⟨phys, k', he, h'⟩ := h.allocate hmet.1
      unfold Kernel.run
      rw [he, Kernel.ok_bind]
      exact ih phys h' (hown phys) (hmet.2 _ he)
  | getPage virt next ih =>
      obtain ⟨directory, table, hl, hheld⟩ := h
      obtain ⟨page, he⟩ := hl.getPage virt.isLt
      unfold Kernel.run
      rw [he, Kernel.ok_bind]
      exact ih page ⟨directory, table, hl, hheld⟩ (hown page) (hmet page he)
  | mapPage phys virt next ih =>
      obtain ⟨directory, table, hl, hheld⟩ := h
      obtain ⟨hfit, hkeeps, _⟩ := hmet.1
      obtain ⟨ok, k', table', he, hl', hgrows, _⟩ := hl.mapPage virt.isLt hfit hkeeps.1
      unfold Kernel.run
      rw [he, Kernel.ok_bind]
      exact ih ok ⟨directory, table', hl', hheld.grow hgrows⟩ (hown ok) (hmet.2 _ he)
  | mapPageUser phys virt next ih =>
      obtain ⟨directory, table, hl, hheld⟩ := h
      obtain ⟨hfit, hkeeps, _⟩ := hmet.1
      obtain ⟨ok, k', table', he, hl', hgrows, _⟩ := hl.mapPageUser virt.isLt hfit hkeeps.1
      unfold Kernel.run
      rw [he, Kernel.ok_bind]
      exact ih ok ⟨directory, table', hl', hheld.grow hgrows⟩ (hown ok) (hmet.2 _ he)

-- A call into the memory managers once paging is on.
inductive Call where
  | allocate (a : Pmm.Allocation)
  | getPage (virt : BitVec 32)
  | mapPage (phys virt : BitVec 32)
  | mapPageUser (phys virt : BitVec 32)
  | elfLoad (data : BitVec 32)

namespace Call

def client : Call → Client Unit
  | allocate a => .allocate a fun _ => .done ()
  | getPage virt => .getPage virt fun _ => .done ()
  | mapPage phys virt => .mapPage phys virt fun _ => .done ()
  | mapPageUser phys virt => .mapPageUser phys virt fun _ => .done ()
  | elfLoad data => do
      let _ ← Elf.elfLoad data.toNat
      return ()

def clients : List Call → Client Unit
  | [] => .done ()
  | call :: calls => do
      call.client
      clients calls

theorem client_writesOwn (call : Call) (held : List Nat) : call.client.WritesOwn held := by
  cases call with
  | elfLoad data => exact (Elf.elfLoad_writesOwn held data.toNat).bind fun _ _ _ => trivial
  | _ => exact fun _ => trivial

theorem clients_writesOwn (calls : List Call) (held : List Nat) :
    (clients calls).WritesOwn held := by
  induction calls generalizing held with
  | nil => trivial
  | cons call calls ih => exact (call.client_writesOwn held).bind fun held' _ _ => ih held'

end Call

-- The kernel when INITIALIZE_VMEMORY is called.
def Kernel.booted (image : KernelImage) (ram : Nat → BitVec 32) (params : BootParams) (memory : Memory)
    (cr3 : Nat) : Kernel :=
  { pmm := Pmm.initMemory image ram params, memory, currentPageDirectory := 0, cr3, paging := false }

-- The kernel that INITIALIZE_VMEMORY leaves.
def Kernel.initialized (k : Kernel) : Kernel :=
  match k.initializeVmemory with
  | .ok k' => k'
  | .error _ => k

theorem Kernel.initialized_eq {k k' : Kernel} (h : k.initializeVmemory = .ok k') :
    k.initialized = k' := by
  unfold Kernel.initialized
  rw [h]

-- No access of the calls goes elsewhere than to the physical address it names.
def Kernel.AlwaysReaches (k : Kernel) (calls : List Call) : Prop :=
  ∃ k₁ k₂, k.initializeVmemory = .ok k₁ ∧ k₁.run (Call.clients calls) = .ok ((), k₂)

section Runs

variable {image : KernelImage} {ram : Nat → BitVec 32} {params : BootParams} {kept : Set Nat}

theorem booted_boot (memory : Memory) (cr3 : Nat)
    (hroom : Room kept (Pmm.initMemory image ram params) 3) :
    ∃ k directory low high, (Kernel.booted image ram params memory cr3).initializeVmemory = .ok k ∧
      Layout k directory (bootTables low high) ∧ BootEntries k.memory directory low high ∧
      k.pmm = Kernel.initialPmm (Pmm.initMemory image ram params) ∧
      Kernel.FreshTables (Kernel.booted image ram params memory cr3) k directory (bootTables low high) := by
  have hopen := hroom.1
  have hzero := Pmm.initMemory_testBit_zero image ram params (by omega)
  exact (Kernel.booted image ram params memory cr3).initializeVmemory_boot rfl hzero hroom

theorem booted_layout (memory : Memory) (cr3 : Nat)
    (hroom : Room kept (Pmm.initMemory image ram params) 3) :
    ∃ k directory table, (Kernel.booted image ram params memory cr3).initializeVmemory = .ok k ∧
      Layout k directory table ∧ (∀ i, i ≠ 0 → i ≠ 768 → table i = none) ∧
      k.pmm = Kernel.initialPmm (Pmm.initMemory image ram params) := by
  have hopen := hroom.1
  have hzero := Pmm.initMemory_testBit_zero image ram params (by omega)
  exact (Kernel.booted image ram params memory cr3).initializeVmemory_layout rfl hzero hroom

theorem booted_pmm {memory : Memory} {cr3 : Nat}
    (hroom : Room kept (Pmm.initMemory image ram params) 3) {k : Kernel}
    (hk : (Kernel.booted image ram params memory cr3).initializeVmemory = .ok k) :
    k.pmm = Kernel.initialPmm (Pmm.initMemory image ram params) := by
  obtain ⟨k', _, _, hinit, _, _, hpmm⟩ := booted_layout memory cr3 hroom
  obtain rfl := Except.ok.inj (hinit.symm.trans hk)
  exact hpmm

end Runs

-- With room below 4 MiB for the first three tables, frames can be used where they are
-- allocated in every run whose allocations, images and mappings keep to these 4 MiB.
theorem alwaysReaches_of_met (image : KernelImage) (ram : Nat → BitVec 32) (params : BootParams)
    (bootParams : Nat) (memory : Memory) (cr3 : Nat) (calls : List Call)
    (hroom : Room (Pmm.inUse image params bootParams) (Pmm.initMemory image ram params) 3)
    (hmet : ∀ k, (Kernel.booted image ram params memory cr3).initializeVmemory = .ok k →
      Met (Pmm.inUse image params bootParams) (Call.clients calls) k) :
    (Kernel.booted image ram params memory cr3).AlwaysReaches calls := by
  obtain ⟨k₁, directory, table, hinit, hl, _⟩ := booted_layout memory cr3 hroom
  have hguarded : Guarded k₁ [] := ⟨directory, table, hl, fun page hpage => by cases hpage⟩
  obtain ⟨⟨⟩, k₂, -, hrun, -⟩ := run_reaches hguarded (Call.clients_writesOwn calls []) (hmet k₁ hinit)
  exact ⟨k₁, k₂, hinit, hrun⟩

section Sample

-- The sample kernel is loaded at 1 MiB, and its bitmap follows it.
theorem mem_inUse_sample {f : Nat} (h : f ∈ Pmm.inUse Pmm.sampleImage Pmm.sampleParams 0x500) :
    f = 0 ∨ 256 ≤ f := by
  rcases h with ((⟨a, hlo, _, rfl⟩ | ⟨a, hlo, _, rfl⟩) | ⟨m, hm, _⟩) | ⟨a, hlo, hhi, rfl⟩
  · change 1048576 ≤ a at hlo
    change a / 4096 = 0 ∨ 256 ≤ a / 4096
    omega
  · have hbase : Pmm.virtToPhys (Pmm.bitMapAddr Pmm.sampleImage) = 1114112 := by decide
    rw [hbase] at hlo
    change a / 4096 = 0 ∨ 256 ≤ a / 4096
    omega
  · cases hm
  · change a < 0x500 + 336 at hhi
    change a / 4096 = 0 ∨ 256 ≤ a / 4096
    omega

theorem room_sample : Room (Pmm.inUse Pmm.sampleImage Pmm.sampleParams 0x500) Pmm.samplePmm 3 := by
  have hfree : ∀ f ∈ ({1, 2, 3} : Finset Nat), f < 1024 ∧ f < 32 * Pmm.samplePmm.totalBlock ∧
      Pmm.samplePmm.testBit f = false := by decide +kernel
  have hzero : Pmm.samplePmm.testBit 0 = true := by decide +kernel
  refine ⟨by decide +kernel, {1, 2, 3}, rfl, fun f hf => ?_⟩
  obtain ⟨hlow, hend, hunmarked⟩ := hfree f hf
  refine ⟨hlow, hend, hunmarked, fun g hg hgfree => ?_⟩
  have hf3 : f ≤ 3 := by
    simp only [Finset.mem_insert, Finset.mem_singleton] at hf
    omega
  rcases mem_inUse_sample hg with rfl | hlarge
  · rw [hzero] at hgfree
    cases hgfree
  · omega

@[irreducible] def sampleKernel : Kernel :=
  (Kernel.booted Pmm.sampleImage (fun _ => 0) Pmm.sampleParams (fun _ => 0) 0).initialized

theorem layout_sample : ∃ directory table, Layout sampleKernel directory table ∧
    (∀ i, i ≠ 0 → i ≠ 768 → table i = none) ∧
    sampleKernel.pmm = Kernel.initialPmm Pmm.samplePmm := by
  obtain ⟨k, directory, table, hinit, hl, habsent, hpmm⟩ := booted_layout (fun _ => 0) 0 room_sample
  have hk : sampleKernel = k := by
    unfold sampleKernel
    exact Kernel.initialized_eq hinit
  rw [hk]
  exact ⟨directory, table, hl, habsent, hpmm⟩

-- The frames of a block below 256 are not in use.
theorem avoidsOk_sample {p : Pmm} {size frame : Nat} (hfound : p.getFreeFrameBySize size = some frame)
    (hpos : 0 < frame) (hend : frame + size ≤ 256) :
    Pmm.AvoidsOk (Pmm.inUse Pmm.sampleImage Pmm.sampleParams 0x500) p (.block size) := by
  refine (Pmm.avoids_iff _ p (.block size)).mp fun f hf hkept => ?_
  unfold Pmm.physicalFrames at hf
  rw [show (Pmm.Allocation.block size).frames = size from rfl, hfound] at hf
  obtain ⟨i, hi, rfl⟩ := hf
  have hmod : (frame + i) % Pmm.PHYSICAL_FRAMES = frame + i := Nat.mod_eq_of_lt (by
    change frame + i < 1048576
    omega)
  rw [hmod] at hkept
  rcases mem_inUse_sample hkept with hz | hlarge <;> omega

theorem alwaysReaches_of_met_sample :
    (Kernel.booted Pmm.sampleImage (fun _ => 0) Pmm.sampleParams (fun _ => 0) 0).AlwaysReaches
      [.allocate (.block 2), .mapPageUser 0x4000#32 0x400000#32] := by
  apply alwaysReaches_of_met Pmm.sampleImage (fun _ => 0) Pmm.sampleParams 0x500 (fun _ => 0) 0 _
    room_sample
  intro k hk
  have hpmm : k.pmm = Kernel.initialPmm Pmm.samplePmm := booted_pmm room_sample hk
  have hfirst : (Kernel.initialPmm Pmm.samplePmm).getFreeFrameBySize 2 = some 4 := by decide +kernel
  have hsecond : ((Kernel.initialPmm Pmm.samplePmm).allocateBlock 2).2.getFreeFrameBySize 1 = some 6 := by
    decide +kernel
  rw [← hpmm] at hfirst hsecond
  refine ⟨⟨avoidsOk_sample hfirst (by omega) (by omega), fitsLow_of_found hfirst (by omega)⟩,
    fun r hr => ?_⟩
  rw [← Kernel.allocateBlock_pmm hr] at hsecond
  refine ⟨⟨Or.inr (fitsLow_of_found hsecond (by omega)), ⟨by decide, by decide⟩,
    Or.inr (avoidsOk_sample hsecond (by omega) (by omega))⟩, fun _ _ => trivial⟩

-- Four modules of one page each, so that no 256 free frames in a row lie below 4 MiB.
def crossingParams : BootParams where
  regions := [Pmm.sampleRegion]
  modules := [⟨0x7F000, 0x1000⟩, ⟨0x17F000, 0x1000⟩, ⟨0x27F000, 0x1000⟩, ⟨0x37F000, 0x1000⟩]
  modules_le := by decide

def crossingPmm : Pmm := Pmm.initMemory Pmm.sampleImage (fun _ => 0) crossingParams

theorem room_crossing : Room ∅ crossingPmm 3 :=
  room_of_free {1, 2, 3} (by decide +kernel) (by decide +kernel)

-- The first fit for 256 frames is [896, 1152), which crosses the frame 1024.
theorem crossing_found : (Kernel.initialPmm crossingPmm).getFreeFrameBySize 256 = some 896 := by
  apply (Pmm.getFreeFrameBySize_eq_some_iff _ 256 896).mpr
  refine ⟨by omega, by decide +kernel, by decide +kernel, by decide +kernel, fun other hc => ?_⟩
  have hmodules : ∀ cell ∈ [127, 383, 639, 895], (Kernel.initialPmm crossingPmm).marked cell = true := by
    decide +kernel
  have hout : ∀ cell ∈ [127, 383, 639, 895], cell < other ∨ other + 256 ≤ cell := by
    intro cell hcell
    by_contra hn
    have hclear := hc.cell cell (by omega) (by omega)
    rw [hmodules cell hcell] at hclear
    cases hclear
  have h₁ := hout 127 (by decide)
  have h₂ := hout 383 (by decide)
  have h₃ := hout 639 (by decide)
  have h₄ := hout 895 (by decide)
  omega

-- Clearing that block runs over the end of the first table.
theorem not_alwaysReaches_crossing :
    ¬(Kernel.booted Pmm.sampleImage (fun _ => 0) crossingParams (fun _ => 0) 0).AlwaysReaches
      [.allocate (.block 256)] := by
  intro ⟨k, k₂, hinit, hrun⟩
  obtain ⟨k', directory, table, hinit', hl, hother, hpmm⟩ := booted_layout (fun _ => 0) 0 room_crossing
  obtain rfl := Except.ok.inj (hinit'.symm.trans hinit)
  have hfound := crossing_found
  rw [show Kernel.initialPmm crossingPmm = k'.pmm from hpmm.symm] at hfound
  obtain ⟨fault, hfault⟩ := hl.allocateBlock_crossing (hother 1 (by omega) (by omega)) hfound (by omega)
    (by omega) (by omega)
  change (k'.allocateBlock 256 >>= fun r => r.2.run (Call.clients [])) = _ at hrun
  rw [hfault] at hrun
  cases hrun

end Sample

end ToyKernel
