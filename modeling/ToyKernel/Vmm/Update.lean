import ToyKernel.Vmm.Identity
import ToyKernel.Vmm.Mapping

namespace ToyKernel

open Library ByteMemory FirstFit

-- The calls that write page tables; between them the PMM may come to any state.
inductive PageCall where
  | mapPage (phys virt : BitVec 32)
  | mapPageUser (phys virt : BitVec 32)
  | unmapPage (virt : BitVec 32)
  | pmm (p : Pmm)

namespace Kernel

def call (k : Kernel) : PageCall → Except Fault (Bool × Kernel)
  | .mapPage phys virt => k.mapPage phys.toNat virt.toNat
  | .mapPageUser phys virt => k.mapPageUser phys.toNat virt.toNat
  | .unmapPage virt => do
      let k ← k.unmapPage virt.toNat
      return (true, k)
  | .pmm p => .ok (true, { k with pmm := p })

def exec (k : Kernel) (c : PageCall) : Except Fault Kernel := do
  let (_, k) ← k.call c
  return k

end Kernel

section Conditions

variable (k : Kernel)

-- The entries that a call reads and writes are found at their own addresses, and
-- unmap_page finds a table.
def CallReaches : PageCall → Prop
  | .mapPage _ virt => MappingReaches k virt.toNat
  | .mapPageUser _ virt => MappingReaches k virt.toNat
  | .unmapPage virt => UnmappingReaches k virt.toNat
  | .pmm _ => True

-- The frame of a new table, if the call makes one, is fresh.
def CallFresh : PageCall → Prop
  | .mapPage _ virt => isPresent (k.pde (PD_INDEX virt.toNat)) = false → FreshTable k
  | .mapPageUser _ virt => isPresent (k.pde (PD_INDEX virt.toNat)) = false → FreshTable k
  | .unmapPage _ => True
  | .pmm _ => True

end Conditions

theorem call_unmapPage {k k' : Kernel} {virt : BitVec 32} (h : k.unmapPage virt.toNat = .ok k') :
    k.call (.unmapPage virt) = .ok (true, k') := by
  change (k.unmapPage virt.toNat >>= fun k => pure (true, k)) = _
  rw [h]
  rfl

theorem Walkable.call {k : Kernel} (h : Walkable k) {c : PageCall} (hreach : CallReaches k c)
    (hfresh : CallFresh k c) : ∃ r, k.call c = .ok r ∧ Walkable r.2 := by
  have hmapping : ∀ r : Bool × Kernel, (r.1 = true → Walkable r.2) → (r.1 = false → Walkable r.2) →
      Walkable r.2 := by
    intro r htrue hfalse
    cases hr : r.1 with
    | true => exact htrue hr
    | false => exact hfalse hr
  cases c with
  | mapPage phys virt =>
      obtain ⟨r, hr, htrue, hfalse⟩ := h.mapPage phys.toNat virt.isLt hreach hfresh
      exact ⟨r, hr, hmapping r (fun h => (htrue h).walkable) fun h => (hfalse h).walkable⟩
  | mapPageUser phys virt =>
      obtain ⟨r, hr, htrue, hfalse⟩ := h.mapPageUser phys.toNat virt.isLt hreach hfresh
      exact ⟨r, hr, hmapping r (fun h => (htrue h).walkable) fun h => (hfalse h).walkable⟩
  | unmapPage virt =>
      obtain ⟨k', hk', hplaced⟩ := h.unmapPage virt.isLt hreach
      exact ⟨(true, k'), call_unmapPage hk', hplaced.walkable⟩
  | pmm p => exact ⟨_, rfl, h.of_directory rfl rfl rfl fun _ _ => rfl⟩

theorem exec_of_call {k : Kernel} {c : PageCall} {r : Bool × Kernel} (h : k.call c = .ok r) :
    k.exec c = .ok r.2 := by
  unfold Kernel.exec
  rw [h]
  rfl

theorem Walkable.exec {k k' : Kernel} (h : Walkable k) {c : PageCall} (hreach : CallReaches k c)
    (hfresh : CallFresh k c) (hk' : k.exec c = .ok k') : Walkable k' := by
  obtain ⟨r, hr, hwalk⟩ := h.call hreach hfresh
  obtain rfl := Except.ok.inj ((exec_of_call hr).symm.trans hk')
  exact hwalk

section Layout

variable {k : Kernel} {directory : Nat} {table : Nat → Option Nat}

theorem Layout.tableAt_eq (h : Layout k directory table) {i t : Nat} (hi : i < 1024)
    (ht : table i = some t) : k.tableAt i = 4096 * t := by
  unfold Kernel.tableAt Kernel.pde
  rw [h.current]
  exact (h.present i t hi ht).2

-- The tables of a layout are tables that the MMU walks.
theorem Layout.walkable (h : Layout k directory table) : Walkable k := by
  have hpde : ∀ i, k.pde i = load32 k.memory (4096 * directory + 4 * i) := by
    intro i
    unfold Kernel.pde
    rw [h.current]
  have htable : ∀ i < 1024, isPresent (k.pde i) = true → ∃ t, table i = some t ∧ k.tableAt i = 4096 * t := by
    intro i hi hp
    obtain ⟨t, ht⟩ := (h.isPresent_iff hi).mp hp
    exact ⟨t, ht, h.tableAt_eq hi ht⟩
  have hcurrent := h.current
  have hlt := h.directory_lt
  refine ⟨h.paging, h.cr3.trans h.current.symm, by omega, by omega, fun i hi ha => ?_,
    fun i hi hp => ?_, fun i j hi hj hpi hpj he => ?_⟩
  · rw [hpde i]
    cases ht : table i with
    | none => exact h.absent i hi ht
    | some t =>
        rw [hpde i, (h.present i t hi ht).1] at ha
        cases ha
  · obtain ⟨t, ht, hat⟩ := htable i hi hp
    have hne := h.table_ne i t ht
    omega
  · obtain ⟨t, ht, hat⟩ := htable i hi hpi
    obtain ⟨u, hu, hau⟩ := htable j hj hpj
    obtain rfl : t = u := by omega
    exact h.table_inj i j t ht hu

theorem Layout.markedTables (h : Layout k directory table) : MarkedTables k := by
  refine ⟨?_, fun i hi hp => ?_⟩
  · rw [h.current, Nat.mul_div_cancel_left _ (by omega)]
    exact h.directory_marked
  · obtain ⟨t, ht⟩ := (h.isPresent_iff hi).mp hp
    rw [h.tableAt_eq hi ht, Nat.mul_div_cancel_left _ (by omega)]
    exact h.table_marked i t ht

theorem Layout.owned (h : Layout k directory table) {f : Nat} (hmarked : k.pmm.testBit f = true)
    (hnot : ¬Uses directory table f) : Owned k f := by
  have hcurrent := h.current
  refine ⟨hmarked, fun he => hnot (Or.inl (by omega)), fun i hi hp he => hnot (Or.inr ⟨i, ?_⟩)⟩
  obtain ⟨t, ht⟩ := (h.isPresent_iff hi).mp hp
  rw [h.tableAt_eq hi ht] at he
  obtain rfl : t = f := by omega
  exact ht

theorem Layout.mappingReaches (h : Layout k directory table) {virt t : Nat} (hvirt : virt < 4294967296)
    (ht : table (PD_INDEX virt) = some t) :
    isPresent (k.pde (PD_INDEX virt)) = true ∧ MappingReaches k virt := by
  have hpd := PD_INDEX_lt hvirt
  have hslot := PT_INDEX_lt virt
  have hcurrent := h.current
  have hdirectory := h.directory_lt
  have htable := h.table_lt _ t ht
  have hpresent : isPresent (k.pde (PD_INDEX virt)) = true := (h.isPresent_iff hpd).mpr ⟨t, ht⟩
  refine ⟨hpresent, h.reaches_low (by omega), ?_⟩
  rw [if_pos hpresent, h.tableAt_eq hpd ht]
  exact h.reaches_low (by omega)

end Layout

-- What was in use before INITIALIZE_VMEMORY still is, with what it held.
theorem booted_owned {image : KernelImage} {ram : Nat → BitVec 32} {params : BootParams}
    (memory : Memory) (cr3 : Nat) (hroom : Room ∅ (Pmm.initMemory image ram params) 3) :
    ∃ directory low high,
      Layout (Kernel.booted image ram params memory cr3).initialized directory (bootTables low high) ∧
        BootEntries (Kernel.booted image ram params memory cr3).initialized.memory directory low high ∧
        (Kernel.booted image ram params memory cr3).initialized.pmm =
          Kernel.initialPmm (Pmm.initMemory image ram params) ∧
        ∀ f, (Pmm.initMemory image ram params).testBit f = true →
          Owned (Kernel.booted image ram params memory cr3).initialized f ∧
            ∀ b, b / 4096 = f → (Kernel.booted image ram params memory cr3).initialized.memory b = memory b := by
  obtain ⟨k, directory, low, high, hinit, hl, hentries, hpmm, hfresh⟩ := booted_boot memory cr3 hroom
  rw [Kernel.initialized_eq hinit]
  refine ⟨directory, low, high, hl, hentries, hpmm, fun f hf => ⟨hl.owned ?_ fun huses => ?_, fun b hb => ?_⟩⟩
  · rw [hpmm]
    exact Pmm.testBit_allocated (.block 1) (Pmm.testBit_allocated (.block 1)
      (Pmm.testBit_allocated (.block 1) hf))
  · have hfree : (Pmm.initMemory image ram params).testBit f = false := hfresh.free f huses
    rw [hf] at hfree
    cases hfree
  · subst hb
    exact hfresh.kept b hf

section Law

-- What a mapping of the page of `virt` to the frame `phys` is to do: the walk of every address
-- in the page comes out in the frame, and no other page is touched; or, where the answer is
-- `false`, nothing at all.
def UpdateLaw (k : Kernel) (phys virt : Nat) (r : Bool × Kernel) : Prop :=
  if r.1 then
    (∀ a, a / 4096 = virt / 4096 → r.2.translate a = some (phys + a % 4096)) ∧
      ∀ a < 4294967296, a / 4096 ≠ virt / 4096 → r.2.pte a = k.pte a
  else SameEntries k r.2

-- The law at one call of a run. A change of the PMM, or an unmapping, is not subject to it.
def Lawful (k : Kernel) (c : PageCall) : Prop :=
  match c with
  | .mapPage phys virt => ∃ r, k.call c = .ok r ∧ UpdateLaw k phys.toNat virt.toNat r
  | .mapPageUser phys virt => ∃ r, k.call c = .ok r ∧ UpdateLaw k phys.toNat virt.toNat r
  | .unmapPage _ => True
  | .pmm _ => True

-- Bit 31 of the old table entry, if set, is wanted in the new one.
def TopBitAgrees (k : Kernel) : PageCall → Prop
  | .mapPage phys virt => (k.pte virt.toNat).getLsbD 31 = true → phys.getLsbD 31 = true
  | .mapPageUser phys virt => (k.pte virt.toNat).getLsbD 31 = true → phys.getLsbD 31 = true
  | .unmapPage _ => True
  | .pmm _ => True

def PageCall.Aligned : PageCall → Prop
  | .mapPage phys _ => phys.toNat % PAGE_SIZE = 0
  | .mapPageUser phys _ => phys.toNat % PAGE_SIZE = 0
  | .unmapPage _ => True
  | .pmm _ => True

variable {k : Kernel}

-- Either mapping, with its attributes
theorem updateLaw_iff {phys virt : BitVec 32} (haligned : phys.toNat % PAGE_SIZE = 0)
    {r : Bool × Kernel} {attributes : BitVec 32} {user : Bool} (hpresent : isPresent attributes = true)
    (htop : attributes.getLsbD 31 = false)
    (htrue : r.1 = true → Mapped k r.2 phys.toNat virt.toNat attributes user)
    (hfalse : r.1 = false → NotMapped k r.2 virt.toNat) :
    UpdateLaw k phys.toNat virt.toNat r ↔
      ((k.pte virt.toNat).getLsbD 31 = true → phys.getLsbD 31 = true) := by
  unfold UpdateLaw
  cases hr : r.1 with
  | false =>
      have hnot := hfalse hr
      have hold : k.pte virt.toNat = 0#32 := Kernel.pte_of_absent hnot.absent
      simp [hnot.toSameEntries, hold]
  | true =>
      have hm := htrue hr
      have hwalk : ∀ a, a / 4096 = virt.toNat / 4096 → r.2.translate a =
          some (PAGE_PHYS_ADDRESS (SET_FRAME (k.pte virt.toNat ||| attributes) phys.toNat) + a % 4096) := by
        intro a ha
        rw [hm.walkable.translate_eq, Kernel.pte_page ha, hm.pte,
          isPresent_SET_FRAME _ _ (isPresent_or _ _ hpresent)]
        rfl
      have hframe := PAGE_PHYS_ADDRESS_SET_FRAME_iff (k.pte virt.toNat ||| attributes) haligned phys.isLt
      rw [BitVec.getLsbD_or, htop, Bool.or_false, BitVec.testBit_toNat] at hframe
      rw [if_pos rfl, ← hframe]
      constructor
      · intro ⟨hself, _⟩
        have hvirt := (hwalk virt.toNat rfl).symm.trans (hself virt.toNat rfl)
        exact Nat.add_right_cancel (Option.some.inj hvirt)
      · intro he
        refine ⟨fun a ha => ?_, hm.pte_other⟩
        rw [hwalk a ha, he]

theorem lawful_iff (h : Walkable k) {c : PageCall} (haligned : c.Aligned) (hreach : CallReaches k c)
    (hfresh : CallFresh k c) : Lawful k c ↔ TopBitAgrees k c := by
  cases c with
  | mapPage phys virt =>
      obtain ⟨r, hr, htrue, hfalse⟩ := h.mapPage phys.toNat virt.isLt hreach hfresh
      have hlaw := updateLaw_iff haligned (by decide) (by decide) htrue hfalse
      refine Iff.trans ⟨fun ⟨r', hr', hl⟩ => ?_, fun hl => ⟨r, hr, hl⟩⟩ hlaw
      rwa [Except.ok.inj (hr.symm.trans hr')]
  | mapPageUser phys virt =>
      obtain ⟨r, hr, htrue, hfalse⟩ := h.mapPageUser phys.toNat virt.isLt hreach hfresh
      have hlaw := updateLaw_iff haligned (by decide) (by decide) htrue hfalse
      refine Iff.trans ⟨fun ⟨r', hr', hl⟩ => ?_, fun hl => ⟨r, hr, hl⟩⟩ hlaw
      rwa [Except.ok.inj (hr.symm.trans hr')]
  | unmapPage virt => exact Iff.rfl
  | pmm p => exact Iff.rfl

end Law

-- What is given: whole frames, reachable tables, and new tables on fresh frames.
def Given (k : Kernel) (c : PageCall) : Prop := c.Aligned ∧ CallReaches k c ∧ CallFresh k c

-- The page tables after INITIALIZE_VMEMORY
theorem booted_walkable {image : KernelImage} {ram : Nat → BitVec 32} {params : BootParams}
    (memory : Memory) (cr3 : Nat) (hroom : Room ∅ (Pmm.initMemory image ram params) 3) :
    Walkable (Kernel.booted image ram params memory cr3).initialized := by
  obtain ⟨k, directory, low, high, hinit, hl, _⟩ := booted_boot memory cr3 hroom
  rw [Kernel.initialized_eq hinit]
  exact hl.walkable

-- In every run from INITIALIZE_VMEMORY every mapping does what it should exactly when no
-- mapping meets a table entry with bit 31 set for a frame below 2 GiB.
theorem allLawful_iff (image : KernelImage) (ram : Nat → BitVec 32) (params : BootParams)
    (memory : Memory) (cr3 : Nat) (calls : List PageCall)
    (hroom : Room ∅ (Pmm.initMemory image ram params) 3)
    (hgiven : AllMet Kernel.exec Given (Kernel.booted image ram params memory cr3).initialized calls) :
    AllMet Kernel.exec Lawful (Kernel.booted image ram params memory cr3).initialized calls ↔
      AllMet Kernel.exec TopBitAgrees (Kernel.booted image ram params memory cr3).initialized calls := by
  refine allMet_congr Walkable ?_ ?_ (booted_walkable memory cr3 hroom) hgiven
  · exact fun k c k' h hg hk' => h.exec hg.2.1 hg.2.2 hk'
  · exact fun k c h hg => lawful_iff h hg.1 hg.2.1 hg.2.2

section Sample

-- A frame at 2 GiB and then one below, both for the first page of the kernel's own 4 MiB
def highThenLow : List PageCall := [.mapPage 0x80000000#32 0xC0000000#32, .mapPage 0x5000#32 0xC0000000#32]

def bootedSample : Kernel := Kernel.booted Pmm.sampleImage (fun _ => 0) Pmm.sampleParams (fun _ => 0) 0

theorem room_empty_sample : Room ∅ Pmm.samplePmm 3 := room_sample.mono (Set.empty_subset _)

theorem mappingReaches_sample : MappingReaches bootedSample.initialized 0xC0000000 ∧
    isPresent (bootedSample.initialized.pde (PD_INDEX 0xC0000000)) = true := by
  obtain ⟨k, directory, low, high, hinit, hl, -⟩ := booted_boot (fun _ => 0) 0 room_empty_sample
  have hk : bootedSample.initialized = k := Kernel.initialized_eq hinit
  rw [hk]
  exact (hl.mappingReaches (by omega) (bootTables_high low high)).symm

-- Where there is a table, a mapping is made in it; the two descriptions of a call are of one
-- result.
theorem Layout.mapped_present {k : Kernel} {directory : Nat} {table : Nat → Option Nat} {phys virt t : Nat}
    {attributes : BitVec 32} {user : Bool} {result : Except Fault (Bool × Kernel)}
    (h : Layout k directory table) (hvirt : virt < 4294967296) (ht : table (PD_INDEX virt) = some t)
    (hwalk : ∃ r, result = .ok r ∧ (r.1 = true → Mapped k r.2 phys virt attributes user) ∧
      (r.1 = false → NotMapped k r.2 virt))
    (hlayout : ∃ ok k' table', result = .ok (ok, k') ∧ Layout k' directory table' ∧
      Grows k.pmm k'.pmm directory table table' ∧ (ok = true → ∃ t, table' (PD_INDEX virt) = some t)) :
    ∃ k', result = .ok (true, k') ∧ Mapped k k' phys virt attributes user ∧ MappingReaches k' virt := by
  obtain ⟨hpresent, -⟩ := h.mappingReaches hvirt ht
  obtain ⟨⟨ok, k'⟩, hmap, htrue, hfalse⟩ := hwalk
  obtain ⟨ok', k'', table', hmap', h', -, hok⟩ := hlayout
  cases Except.ok.inj (hmap.symm.trans hmap')
  cases ok with
  | false => exact absurd (hpresent.symm.trans (hfalse rfl).absent) Bool.noConfusion
  | true =>
      obtain ⟨t', ht'⟩ := hok rfl
      exact ⟨k', hmap, htrue rfl, (h'.mappingReaches hvirt ht').2⟩

-- Mappings outside the first 4 MiB
theorem Layout.mapPage_present {k : Kernel} {directory : Nat} {table : Nat → Option Nat}
    (h : Layout k directory table) (phys : Nat) {virt t : Nat} (hvirt : virt < 4294967296)
    (ht : table (PD_INDEX virt) = some t) (hhigh : PD_INDEX virt ≠ 0) :
    ∃ k', k.mapPage phys virt = .ok (true, k') ∧ Mapped k k' phys virt PTE_PRESENT false ∧
      MappingReaches k' virt := by
  obtain ⟨hpresent, hreach⟩ := h.mappingReaches hvirt ht
  exact h.mapped_present hvirt ht
    (h.walkable.mapPage phys hvirt hreach fun ha => absurd (hpresent.symm.trans ha) Bool.noConfusion)
    (h.mapPage hvirt (Or.inl hpresent) fun hz => absurd hz hhigh)

theorem Layout.mapPageUser_present {k : Kernel} {directory : Nat} {table : Nat → Option Nat}
    (h : Layout k directory table) (phys : Nat) {virt t : Nat} (hvirt : virt < 4294967296)
    (ht : table (PD_INDEX virt) = some t) (hhigh : PD_INDEX virt ≠ 0) :
    ∃ k', k.mapPageUser phys virt = .ok (true, k') ∧
      Mapped k k' phys virt (PTE_PRESENT ||| PTE_READ_WRITE ||| PTE_USER) true ∧
      MappingReaches k' virt := by
  obtain ⟨hpresent, hreach⟩ := h.mappingReaches hvirt ht
  exact h.mapped_present hvirt ht
    (h.walkable.mapPageUser phys hvirt hreach fun ha => absurd (hpresent.symm.trans ha) Bool.noConfusion)
    (h.mapPageUser hvirt (Or.inl hpresent) fun hz => absurd hz hhigh)

-- After the first call the second one finds bit 31 set, and can reach its entries.
theorem highMapped_sample {k : Kernel}
    (hk : bootedSample.initialized.exec (.mapPage 0x80000000#32 0xC0000000#32) = .ok k) :
    Walkable k ∧ MappingReaches k 0xC0000000 ∧ isPresent (k.pde (PD_INDEX 0xC0000000)) = true ∧
      (k.pte 0xC0000000).getLsbD 31 = true := by
  obtain ⟨k₀, directory, low, high, hinit, hl, -⟩ := booted_boot (fun _ => 0) 0 room_empty_sample
  have hk₀ : bootedSample.initialized = k₀ := Kernel.initialized_eq hinit
  rw [hk₀] at hk
  obtain ⟨k', hmap, hm, hreach⟩ := hl.mapPage_present 0x80000000 (by omega)
    (bootTables_high low high) (by decide)
  have hexec := exec_of_call (c := .mapPage 0x80000000#32 0xC0000000#32) hmap
  obtain rfl := Except.ok.inj (hexec.symm.trans hk)
  refine ⟨hm.walkable, hreach, hm.present, ?_⟩
  rw [hm.pte, getLsbD_SET_FRAME _ _ (by omega)]
  exact Bool.or_true _

theorem given_sample : AllMet Kernel.exec Given bootedSample.initialized highThenLow := by
  obtain ⟨hreach, hpresent⟩ := mappingReaches_sample
  refine ⟨⟨rfl, hreach, fun ha => ?_⟩, fun k hk => ⟨⟨rfl, ?_, fun ha => ?_⟩, fun _ _ => trivial⟩⟩
  · rw [show (0xC0000000#32).toNat = 0xC0000000 from rfl, hpresent] at ha
    cases ha
  · exact (highMapped_sample hk).2.1
  · rw [show (0xC0000000#32).toNat = 0xC0000000 from rfl, (highMapped_sample hk).2.2.1] at ha
    cases ha

theorem allLawful_iff_sample :
    AllMet Kernel.exec Lawful bootedSample.initialized highThenLow ↔
      AllMet Kernel.exec TopBitAgrees bootedSample.initialized highThenLow :=
  allLawful_iff Pmm.sampleImage (fun _ => 0) Pmm.sampleParams (fun _ => 0) 0 highThenLow
    room_empty_sample given_sample

-- The second call asks for frame 0x5000 and gets 0x80005000.
theorem not_allLawful_sample :
    AllMet Kernel.exec Given bootedSample.initialized highThenLow ∧
      ¬AllMet Kernel.exec Lawful bootedSample.initialized highThenLow := by
  refine ⟨given_sample, fun hlaw => ?_⟩
  have hw : Walkable bootedSample.initialized := booted_walkable (fun _ => 0) 0 room_empty_sample
  obtain ⟨r, hr, -⟩ := hw.call given_sample.1.2.1 given_sample.1.2.2
  have hk := exec_of_call hr
  obtain ⟨hwalk, -, -, htop⟩ := highMapped_sample hk
  have hsecond := (given_sample.2 _ hk).1
  have hagrees := (lawful_iff hwalk hsecond.1 hsecond.2.1 hsecond.2.2).mp (hlaw.2 _ hk).1
  exact absurd (hagrees htop) (by decide)

end Sample

end ToyKernel
