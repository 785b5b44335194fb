import ToyKernel.Vmm.Update

namespace ToyKernel

open Library ByteMemory

section Entry

-- What unmap_page makes of an entry: the frame field and the present bit cleared.
def cleared (entry : BitVec 32) : BitVec 32 := SET_FRAME entry 0 &&& ~~~PTE_PRESENT

variable (entry : BitVec 32)

theorem getLsbD_cleared {i : Nat} (hi : i < 32) :
    (cleared entry).getLsbD i = (decide (0 < i ∧ i < 12 ∨ i = 31) && entry.getLsbD i) := by
  have hmask : ∀ j < 32, (~~~PTE_PRESENT).getLsbD j = decide (j ≠ 0) := by decide
  unfold cleared
  rw [BitVec.getLsbD_and, getLsbD_SET_FRAME _ _ hi, hmask i hi, Nat.zero_testBit, Bool.or_false,
    Bool.and_assoc, Bool.and_comm (entry.getLsbD i), ← Bool.and_assoc, ← Bool.decide_and]
  congr 2
  apply propext
  omega

@[simp] theorem isPresent_cleared : isPresent (cleared entry) = false := by
  rw [isPresent_iff, getLsbD_cleared _ (by omega)]
  simp

-- SET_FRAME does not reach bit 31 of the frame field.
theorem PAGE_PHYS_ADDRESS_cleared_iff :
    PAGE_PHYS_ADDRESS (cleared entry) = 0 ↔ entry.getLsbD 31 = false := by
  rw [cleared, PAGE_PHYS_ADDRESS_and_not_present,
    PAGE_PHYS_ADDRESS_SET_FRAME_iff entry (by omega) (by omega), Nat.zero_testBit]
  simp

-- Only an entry without a present bit and without a frame is left as it is.
theorem cleared_eq_iff : cleared entry = entry ↔ entry &&& 0x7FFFF001#32 = 0#32 := by
  have hmask : ∀ j < 32, (0x7FFFF001#32).getLsbD j = !decide (0 < j ∧ j < 12 ∨ j = 31) := by decide
  constructor
  · intro he
    apply BitVec.eq_of_getLsbD_eq
    intro i hi
    have hbit := getLsbD_cleared entry hi
    rw [he] at hbit
    rw [BitVec.getLsbD_and, hmask i hi, hbit, BitVec.getLsbD_zero]
    cases decide (0 < i ∧ i < 12 ∨ i = 31) <;> simp
  · intro hz
    apply BitVec.eq_of_getLsbD_eq
    intro i hi
    have hbit := congrArg (fun e : BitVec 32 => e.getLsbD i) hz
    simp only [BitVec.getLsbD_and, hmask i hi, BitVec.getLsbD_zero] at hbit
    rw [getLsbD_cleared entry hi]
    cases hb : entry.getLsbD i with
    | false => rw [Bool.and_false]
    | true =>
        rw [hb, Bool.true_and, Bool.not_eq_false'] at hbit
        rw [hbit, Bool.and_true]

end Entry

namespace Kernel

section Walk

variable (k : Kernel)

-- Where get_page finds the table entry of an address, present or not.
def entryAddr (address : Nat) : Nat := k.tableAt (PD_INDEX address) + 4 * PT_INDEX address

-- The two entries that map an address.
def walk (address : Nat) : Option (BitVec 32 × BitVec 32) :=
  if isPresent (k.pde (PD_INDEX address)) ∧ isPresent (k.pte address) then
    some (k.pde (PD_INDEX address), k.pte address)
  else none

-- One of the two entries that the walk from an address may read is the word at `entry`.
def Through (address entry : Nat) : Prop :=
  k.currentPageDirectory + 4 * PD_INDEX address = entry ∨ k.entryAddr address = entry

-- The MMU takes this walk.
theorem translate_eq_walk (hpaging : k.paging = true) (hcr3 : k.cr3 = k.currentPageDirectory)
    (address : Nat) :
    k.translate address = (k.walk address).map fun e => PAGE_PHYS_ADDRESS e.2 + address % 4096 := by
  simp only [translate, hpaging, hcr3, if_true, walk]
  change (if isPresent (k.pde (PD_INDEX address)) = true then _ else none) = _
  cases hp : isPresent (k.pde (PD_INDEX address)) with
  | false => simp
  | true =>
      rw [pte_of_present hp, if_pos rfl]
      change (if isPresent (load32 k.memory (k.tableAt (PD_INDEX address) + 4 * PT_INDEX address)) = true
        then _ else _) = _
      split
      · rename_i hpage
        rw [if_pos ⟨rfl, hpage⟩]
        rfl
      · rename_i hpage
        simp [hpage]

-- The walk of `v` is gone with its frame, the walk of every other page is as before, and so
-- is all memory but the entry of `v`, if there is one.
structure Unmaps (k k' : Kernel) (v : Nat) : Prop where
  walk_self : k'.walk v = none
  frame : isPresent (k.pde (PD_INDEX v)) = true →
    PAGE_PHYS_ADDRESS (load32 k'.memory (k.entryAddr v)) = 0
  walk_other : ∀ a < 4294967296, a / PAGE_SIZE ≠ v / PAGE_SIZE → k'.walk a = k.walk a
  memory : ∀ b, ¬(isPresent (k.pde (PD_INDEX v)) = true ∧ k.entryAddr v ≤ b ∧ b < k.entryAddr v + 4) →
    k'.memory b = k.memory b

-- Both entries are found where they are. With a table the entry has bit 31 clear and maps
-- no other page; without one the word in its place has nothing to clear.
def UnmapOk (v : Nat) : Prop :=
  k.Reaches (k.currentPageDirectory + 4 * PD_INDEX v) 4 ∧ k.Reaches (k.entryAddr v) 4 ∧
    if isPresent (k.pde (PD_INDEX v)) then
      (load32 k.memory (k.entryAddr v)).getLsbD 31 = false ∧
        ∀ a < 4294967296, a / PAGE_SIZE ≠ v / PAGE_SIZE → k.walk a ≠ none →
          ¬k.Through a (k.entryAddr v)
    else load32 k.memory (k.entryAddr v) &&& 0x7FFFF001#32 = 0#32

end Walk

section Store

variable {k k' : Kernel} {v : Nat}

-- The memory after the call
def unmapped (k : Kernel) (v : Nat) : Kernel :=
  { k with
    memory := store32 k.memory (k.entryAddr v) (cleared (load32 k.memory (k.entryAddr v))) }

theorem unmapPage_iff : k.unmapPage v = .ok k' ↔
    k.Reaches (k.currentPageDirectory + 4 * PD_INDEX v) 4 ∧ k.Reaches (k.entryAddr v) 4 ∧
      k' = k.unmapped v := by
  constructor
  · intro h
    obtain ⟨page, hpage, hupdate⟩ := exists_of_bind h
    obtain ⟨entry, hread, hpage⟩ := exists_of_bind hpage
    obtain ⟨hdirectory, rfl⟩ := access_ok hread
    obtain rfl := Except.ok.inj hpage
    obtain ⟨hentry, rfl⟩ := access_ok hupdate
    exact ⟨hdirectory, hentry, rfl⟩
  · rintro ⟨hdirectory, hentry, rfl⟩
    unfold unmapPage getPage read32
    rw [access_of_reaches hdirectory]
    exact access_of_reaches hentry _

theorem unmapped_entry : load32 (k.unmapped v).memory (k.entryAddr v) =
    cleared (load32 k.memory (k.entryAddr v)) := load32_store32_self ..

-- Entries are words at multiples of 4, so a store changes one of them whole or not at all.
theorem unmapped_load32 {entry : Nat} (haligned : entry % 4 = 0) (hne : entry ≠ k.entryAddr v) :
    load32 (k.unmapped v).memory entry = load32 k.memory entry := by
  have hpage := k.tableAt_aligned (PD_INDEX v)
  apply load32_store32_of_apart
  unfold entryAddr at *
  omega

variable (hdirectory : k.currentPageDirectory % 4096 = 0)
include hdirectory

theorem pde_unmapped {a : Nat} (hne : k.currentPageDirectory + 4 * PD_INDEX a ≠ k.entryAddr v) :
    (k.unmapped v).pde (PD_INDEX a) = k.pde (PD_INDEX a) := by
  have hcurrent : (k.unmapped v).currentPageDirectory = k.currentPageDirectory := rfl
  unfold pde
  rw [hcurrent]
  exact unmapped_load32 (by omega) hne

theorem walk_of_through {a : Nat} (h : k.Through a (k.entryAddr v)) : (k.unmapped v).walk a = none := by
  refine if_neg fun hw => ?_
  by_cases hpde : k.currentPageDirectory + 4 * PD_INDEX a = k.entryAddr v
  · have hgone : (k.unmapped v).pde (PD_INDEX a) = cleared (load32 k.memory (k.entryAddr v)) := by
      rw [← unmapped_entry, ← hpde]
      rfl
    rw [hgone, isPresent_cleared] at hw
    cases hw.1
  · have hsame := pde_unmapped hdirectory hpde
    have hpage : k.entryAddr a = k.entryAddr v := h.resolve_left hpde
    have hgone : (k.unmapped v).pte a = cleared (load32 k.memory (k.entryAddr v)) := by
      rw [pte_of_present hw.1, tableAt, hsame, ← unmapped_entry, ← hpage]
      rfl
    rw [hgone, isPresent_cleared] at hw
    cases hw.2

theorem walk_of_not_through {a : Nat} (h : ¬k.Through a (k.entryAddr v)) :
    (k.unmapped v).walk a = k.walk a := by
  have hsame := pde_unmapped hdirectory (a := a) fun he => h (Or.inl he)
  have htable : (k.unmapped v).tableAt (PD_INDEX a) = k.tableAt (PD_INDEX a) := by
    rw [tableAt, tableAt, hsame]
  have hpte : (k.unmapped v).pte a = k.pte a := by
    have haligned := k.tableAt_aligned (PD_INDEX a)
    have hword : load32 (k.unmapped v).memory (k.tableAt (PD_INDEX a) + 4 * PT_INDEX a) =
        load32 k.memory (k.tableAt (PD_INDEX a) + 4 * PT_INDEX a) :=
      unmapped_load32 (by omega) fun he => h (Or.inr he)
    unfold pte
    rw [hsame, htable, hword]
  unfold walk
  rw [hsame, hpte]

end Store

section Exact

variable {k : Kernel} {v : Nat} (hdirectory : k.currentPageDirectory % 4096 = 0)
include hdirectory

-- A call that does what it should has met the condition.
theorem unmapOk_of_unmaps {k' : Kernel} (hrun : k.unmapPage v = .ok k') (h : k.Unmaps k' v) :
    k.UnmapOk v := by
  obtain ⟨hreach, hentry, rfl⟩ := unmapPage_iff.mp hrun
  refine ⟨hreach, hentry, ?_⟩
  split
  · rename_i hpresent
    have hframe := h.frame hpresent
    rw [unmapped_entry, PAGE_PHYS_ADDRESS_cleared_iff] at hframe
    refine ⟨hframe, fun a ha hpage hmapped hthrough => hmapped ?_⟩
    rw [← h.walk_other a ha hpage]
    exact walk_of_through hdirectory hthrough
  · rename_i habsent
    rw [← cleared_eq_iff, ← unmapped_entry]
    exact load32_congr fun b _ _ => h.memory b fun hb => habsent hb.1

theorem unmaps_of_ok (h : k.UnmapOk v) : k.unmapPage v = .ok (k.unmapped v) ∧ k.Unmaps (k.unmapped v) v := by
  obtain ⟨hreach, hentry, hcase⟩ := h
  refine ⟨unmapPage_iff.mpr ⟨hreach, hentry, rfl⟩, ?_⟩
  split at hcase
  · rename_i hpresent
    obtain ⟨hbit, hshared⟩ := hcase
    refine ⟨walk_of_through hdirectory (Or.inr rfl), fun _ => ?_, fun a ha hpage => ?_, fun b hb => ?_⟩
    · rwa [unmapped_entry, PAGE_PHYS_ADDRESS_cleared_iff]
    · by_cases hthrough : k.Through a (k.entryAddr v)
      · rw [walk_of_through hdirectory hthrough]
        by_contra hmapped
        exact hshared a ha hpage (fun hn => hmapped hn.symm) hthrough
      · exact walk_of_not_through hdirectory hthrough
    · refine store32_of_ne ?_ _
      have hout : ¬(k.entryAddr v ≤ b ∧ b < k.entryAddr v + 4) := fun hin => hb ⟨hpresent, hin⟩
      omega
  · rename_i habsent
    -- The word is written with the value it had.
    have hmemory : ∀ b, (k.unmapped v).memory b = k.memory b := by
      intro b
      have hword := (cleared_eq_iff _).mpr hcase
      change store32 k.memory (k.entryAddr v) (cleared (load32 k.memory (k.entryAddr v))) b = _
      rw [hword]
      exact store32_load32 k.memory (k.entryAddr v) b
    have hsame : k.unmapped v = k :=
      congrArg (fun memory => { k with memory := memory }) (funext hmemory)
    rw [hsame]
    exact ⟨if_neg fun hw => habsent hw.1, fun hp => absurd hp habsent, fun _ _ _ => rfl, fun _ _ => rfl⟩

end Exact

theorem unmaps_iff (k : Kernel) (v : BitVec 32) (hdirectory : k.currentPageDirectory % 4096 = 0) :
    (∃ k', k.unmapPage v.toNat = .ok k' ∧ k.Unmaps k' v.toNat) ↔ k.UnmapOk v.toNat := by
  constructor
  · rintro ⟨k', hrun, h⟩
    exact unmapOk_of_unmaps hdirectory hrun h
  · intro h
    exact ⟨k.unmapped v.toNat, unmaps_of_ok hdirectory h⟩

section Boot

variable {image : KernelImage} {ram : Nat → BitVec 32} {params : BootParams} {kept : Set Nat}

-- Frame 0 is reserved, so INITIALIZE_VMEMORY leaves what it holds.
theorem booted_firstPage (memory : Memory) (cr3 : Nat)
    (hroom : Room kept (Pmm.initMemory image ram params) 3) :
    ∃ directory low high,
      Layout (booted image ram params memory cr3).initialized directory (bootTables low high) ∧
        ∀ b < 4096, (booted image ram params memory cr3).initialized.memory b = memory b := by
  obtain ⟨k, directory, low, high, hinit, hl, -, -, hfresh⟩ := booted_boot memory cr3 hroom
  have hk : (booted image ram params memory cr3).initialized = k := initialized_eq hinit
  have hopen := hroom.1
  have hzero := Pmm.initMemory_testBit_zero image ram params (by omega)
  refine ⟨directory, low, high, hk ▸ hl, fun b hb => ?_⟩
  have hframe : b / 4096 = 0 := by omega
  rw [hk]
  refine hfresh.kept b ?_
  rw [hframe]
  exact hzero

-- Where an address has no table, its entry is taken to be in frame 0.
theorem not_unmaps_of_absent {k : Kernel} {directory : Nat} {table : Nat → Option Nat}
    (hl : Layout k directory table) {v : Nat} (hv : v < 4294967296) (hnone : table (PD_INDEX v) = none)
    (hword : load32 k.memory (4 * PT_INDEX v) &&& 0x7FFFF001#32 ≠ 0#32) :
    isPresent (k.pde (PD_INDEX v)) = false ∧ ∃ k', k.unmapPage v = .ok k' ∧ ¬k.Unmaps k' v := by
  have hlt := hl.directory_lt
  have hpd := Layout.PD_INDEX_lt hv
  have hslot := PT_INDEX_lt v
  have hpde : k.pde (PD_INDEX v) = 0#32 := by
    unfold pde
    rw [hl.current]
    exact hl.absent _ hpd hnone
  have hzero : PAGE_PHYS_ADDRESS 0#32 = 0 := by decide
  have hentry : k.entryAddr v = 4 * PT_INDEX v := by
    rw [entryAddr, tableAt, hpde, hzero, Nat.zero_add]
  have habsent : isPresent (k.pde (PD_INDEX v)) = false := by
    rw [hpde, isPresent_zero]
  have hrun : k.unmapPage v = .ok (k.unmapped v) := by
    refine unmapPage_iff.mpr ⟨hl.reaches_low ?_, hl.reaches_low ?_, rfl⟩
    · rw [hl.current]
      omega
    · rw [hentry]
      omega
  have hdirectory : k.currentPageDirectory % 4096 = 0 := by
    rw [hl.current]
    omega
  refine ⟨habsent, _, hrun, fun h => ?_⟩
  obtain ⟨-, -, hcase⟩ := unmapOk_of_unmaps hdirectory hrun h
  rw [if_neg (by rw [habsent]; exact Bool.false_ne_true), hentry] at hcase
  exact hword hcase

end Boot

section Sample

-- Memory that is not zero, such as the vectors of the BIOS are in its first page.
@[irreducible] def filledSample : Kernel :=
  (booted Pmm.sampleImage (fun _ => 0) Pmm.sampleParams (fun _ => 0xFF) 0).initialized

theorem filledSample_boot : ∃ directory low high, Layout filledSample directory (bootTables low high) ∧
    ∀ b < 4096, filledSample.memory b = 0xFF := by
  unfold filledSample
  exact booted_firstPage (fun _ => 0xFF) 0 room_empty_sample

theorem filledSample_directory : filledSample.currentPageDirectory % 4096 = 0 := by
  obtain ⟨directory, low, high, hl, -⟩ := filledSample_boot
  rw [hl.current]
  omega

theorem unmaps_iff_filled :
    (∃ k', filledSample.unmapPage (0xC0000000#32).toNat = .ok k' ∧
      filledSample.Unmaps k' (0xC0000000#32).toNat) ↔ filledSample.UnmapOk (0xC0000000#32).toNat :=
  filledSample.unmaps_iff 0xC0000000#32 filledSample_directory

-- 4 MiB has no table: the call clears bits in the word at the physical address 0.
theorem not_unmaps_filled : isPresent (filledSample.pde (PD_INDEX 0x400000)) = false ∧
    ∃ k', filledSample.unmapPage 0x400000 = .ok k' ∧ ¬filledSample.Unmaps k' 0x400000 := by
  obtain ⟨directory, low, high, hl, hfilled⟩ := filledSample_boot
  refine not_unmaps_of_absent hl (by decide) rfl ?_
  have hslot : 4 * PT_INDEX 0x400000 = 0 := rfl
  have hword : load32 filledSample.memory 0 = load32 (fun _ => 0xFF) 0 :=
    load32_congr fun b _ hb => hfilled b (by omega)
  rw [hslot, hword]
  decide

end Sample

end Kernel

end ToyKernel
