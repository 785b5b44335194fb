import ToyKernel.Vmm.Steps

namespace ToyKernel

open Library ByteMemory FirstFit

namespace Kernel

def pde (k : Kernel) (i : Nat) : BitVec 32 := load32 k.memory (k.currentPageDirectory + 4 * i)

def tableAt (k : Kernel) (i : Nat) : Nat := PAGE_PHYS_ADDRESS (k.pde i)

-- The table entry for an address; where there is no table it counts as empty.
def pte (k : Kernel) (address : Nat) : BitVec 32 :=
  if isPresent (k.pde (PD_INDEX address)) then
    load32 k.memory (k.tableAt (PD_INDEX address) + 4 * PT_INDEX address)
  else 0#32

end Kernel

-- Directory and tables that the MMU and the kernel agree on: no two of them share a frame.
structure Walkable (k : Kernel) : Prop where
  paging : k.paging = true
  cr3 : k.cr3 = k.currentPageDirectory
  directory_aligned : k.currentPageDirectory % 4096 = 0
  directory_lt : k.currentPageDirectory < 4294967296
  absent : ∀ i < 1024, isPresent (k.pde i) = false → k.pde i = 0#32
  table_ne : ∀ i < 1024, isPresent (k.pde i) = true → k.tableAt i ≠ k.currentPageDirectory
  table_inj : ∀ i j, i < 1024 → j < 1024 → isPresent (k.pde i) = true → isPresent (k.pde j) = true →
    k.tableAt i = k.tableAt j → i = j

theorem PT_INDEX_lt (address : Nat) : PT_INDEX address < 1024 := Nat.mod_lt _ (by omega)

-- The two indices of an address tell its page.
theorem page_eq_of_index {a b : Nat} (hpd : PD_INDEX a = PD_INDEX b) (hpt : PT_INDEX a = PT_INDEX b) :
    a / 4096 = b / 4096 := by
  unfold PD_INDEX PT_INDEX at *
  omega

theorem index_of_page_eq {a b : Nat} (h : a / 4096 = b / 4096) :
    PD_INDEX a = PD_INDEX b ∧ PT_INDEX a = PT_INDEX b := by
  unfold PD_INDEX PT_INDEX
  omega

theorem PAGE_PHYS_ADDRESS_aligned (entry : BitVec 32) : PAGE_PHYS_ADDRESS entry % 4096 = 0 := by
  rw [PAGE_PHYS_ADDRESS_eq]
  omega

namespace Kernel

variable {k k' : Kernel}

theorem tableAt_aligned (k : Kernel) (i : Nat) : k.tableAt i % 4096 = 0 :=
  PAGE_PHYS_ADDRESS_aligned _

theorem pte_of_present {address : Nat} (h : isPresent (k.pde (PD_INDEX address)) = true) :
    k.pte address = load32 k.memory (k.tableAt (PD_INDEX address) + 4 * PT_INDEX address) := if_pos h

theorem pte_of_absent {address : Nat} (h : isPresent (k.pde (PD_INDEX address)) = false) :
    k.pte address = 0#32 := if_neg (by rw [h]; exact Bool.false_ne_true)

theorem pte_page {a b : Nat} (h : a / 4096 = b / 4096) : k.pte a = k.pte b := by
  obtain ⟨hpd, hpt⟩ := index_of_page_eq h
  unfold pte
  rw [hpd, hpt]

end Kernel

namespace Walkable

variable {k k' : Kernel}

-- The walk of the MMU needs no more than the table entries.
theorem translate_eq (h : Walkable k) (address : Nat) :
    k.translate address =
      if isPresent (k.pte address) then some (PAGE_PHYS_ADDRESS (k.pte address) + address % 4096)
      else none := by
  simp only [Kernel.translate, h.paging, h.cr3, if_true]
  change (if isPresent (k.pde (PD_INDEX address)) = true then _ else none) = _
  cases hp : isPresent (k.pde (PD_INDEX address)) with
  | true =>
      rw [if_pos rfl, Kernel.pte_of_present hp]
      rfl
  | false =>
      rw [Kernel.pte_of_absent hp, isPresent_zero]
      rfl

theorem reaches_congr (h : Walkable k) (h' : Walkable k')
    (hpages : ∀ a < 4294967296, k'.pte a = k.pte a) {address count : Nat}
    (hend : address + count ≤ 4294967296) (hreach : k.Reaches address count) :
    k'.Reaches address count := by
  intro i hi
  rw [h'.translate_eq, hpages _ (by omega), ← h.translate_eq]
  exact hreach i hi

-- Nothing but the directory decides whether the tables are apart.
theorem of_directory (h : Walkable k) (hpaging : k'.paging = k.paging) (hcr3 : k'.cr3 = k.cr3)
    (hcurrent : k'.currentPageDirectory = k.currentPageDirectory)
    (hpde : ∀ i < 1024, k'.pde i = k.pde i) : Walkable k' where
  paging := hpaging.trans h.paging
  cr3 := hcr3.trans (h.cr3.trans hcurrent.symm)
  directory_aligned := by
    rw [hcurrent]
    exact h.directory_aligned
  directory_lt := by
    rw [hcurrent]
    exact h.directory_lt
  absent i hi ha := by
    rw [hpde i hi] at *
    exact h.absent i hi ha
  table_ne i hi hp := by
    rw [hpde i hi] at hp
    rw [Kernel.tableAt, hpde i hi, hcurrent]
    exact h.table_ne i hi hp
  table_inj i j hi hj hpi hpj he := by
    rw [hpde i hi] at hpi
    rw [hpde j hj] at hpj
    rw [Kernel.tableAt, Kernel.tableAt, hpde i hi, hpde j hj] at he
    exact h.table_inj i j hi hj hpi hpj he

end Walkable

-- `k'` has the entries of `k`, in directory and tables.
structure SameEntries (k k' : Kernel) : Prop where
  current : k'.currentPageDirectory = k.currentPageDirectory
  pde : ∀ i < 1024, k'.pde i = k.pde i
  pte : ∀ a < 4294967296, k'.pte a = k.pte a

theorem SameEntries.refl (k : Kernel) : SameEntries k k := ⟨rfl, fun _ _ => rfl, fun _ _ => rfl⟩

theorem SameEntries.trans {k mid k' : Kernel} (h : SameEntries k mid) (h' : SameEntries mid k') :
    SameEntries k k' where
  current := h'.current.trans h.current
  pde i hi := (h'.pde i hi).trans (h.pde i hi)
  pte a ha := (h'.pte a ha).trans (h.pte a ha)

-- The frame at `address` holds neither the directory nor a table.
def Spare (k : Kernel) (address : Nat) : Prop :=
  address ≠ k.currentPageDirectory ∧
    ∀ i < 1024, isPresent (k.pde i) = true → k.tableAt i ≠ address

theorem Spare.of_directory {k k' : Kernel} {address : Nat} (h : Spare k address)
    (hcurrent : k'.currentPageDirectory = k.currentPageDirectory)
    (hpde : ∀ i < 1024, k'.pde i = k.pde i) : Spare k' address := by
  refine ⟨by rw [hcurrent]; exact h.1, fun i hi hp => ?_⟩
  rw [hpde i hi] at hp
  rw [Kernel.tableAt, hpde i hi]
  exact h.2 i hi hp

-- The frame `f` is in use, and not by the tables.
def Owned (k : Kernel) (f : Nat) : Prop := k.pmm.testBit f = true ∧ Spare k (4096 * f)

-- The frame `f` stays in use, with what it holds.
def KeepsFrame (k k' : Kernel) (f : Nat) : Prop :=
  Owned k' f ∧ ∀ b, b / 4096 = f → k'.memory b = k.memory b

def Keeps (k k' : Kernel) : Prop := ∀ f, Owned k f → KeepsFrame k k' f

section Keeps

variable {k mid k' : Kernel}

theorem Keeps.refl (k : Kernel) : Keeps k k := fun _ h => ⟨h, fun _ _ => rfl⟩

theorem KeepsFrame.trans {f : Nat} (h : KeepsFrame k mid f) (h' : KeepsFrame mid k' f) :
    KeepsFrame k k' f :=
  ⟨h'.1, fun b hb => (h'.2 b hb).trans (h.2 b hb)⟩

theorem Keeps.trans (h : Keeps k mid) (h' : Keeps mid k') : Keeps k k' :=
  fun f hf => (h f hf).trans (h' f (h f hf).1)

-- What the frames in use need of a change that leaves the directory as it is
theorem Keeps.of_directory (hcurrent : k'.currentPageDirectory = k.currentPageDirectory)
    (hpde : ∀ i < 1024, k'.pde i = k.pde i)
    (hmarks : ∀ f, k.pmm.testBit f = true → k'.pmm.testBit f = true)
    (hmemory : ∀ b, Owned k (b / 4096) → k'.memory b = k.memory b) : Keeps k k' :=
  fun f hf => ⟨⟨hmarks f hf.1, hf.2.of_directory hcurrent hpde⟩, fun b hb => hmemory b (hb.symm ▸ hf)⟩

end Keeps

namespace Walkable

variable {k : Kernel}

-- What the frames without a table hold is of no account to the walk.
theorem writingFrames (h : Walkable k) {m : Memory}
    (hmemory : ∀ b, ¬Spare k (4096 * (b / 4096)) → m b = k.memory b) (p : Pmm) :
    Walkable { k with pmm := p, memory := m } ∧ SameEntries k { k with pmm := p, memory := m } := by
  have hdirectory := h.directory_aligned
  have hpde : ∀ i < 1024, Kernel.pde { k with pmm := p, memory := m } i = k.pde i := by
    intro i hi
    refine load32_congr fun b hlo hhi => hmemory b fun hspare => hspare.1 ?_
    dsimp only at hlo hhi
    omega
  refine ⟨h.of_directory rfl rfl rfl hpde, rfl, hpde, fun a ha => ?_⟩
  have hpd := Layout.PD_INDEX_lt ha
  cases hp : isPresent (k.pde (PD_INDEX a)) with
  | false => rw [Kernel.pte_of_absent hp, Kernel.pte_of_absent (by rwa [hpde _ hpd])]
  | true =>
      have haddress := k.tableAt_aligned (PD_INDEX a)
      have hslot := PT_INDEX_lt a
      rw [Kernel.pte_of_present hp, Kernel.pte_of_present (by rwa [hpde _ hpd]), Kernel.tableAt,
        hpde _ hpd]
      refine load32_congr fun b hlo hhi => hmemory b fun hspare => hspare.2 _ hpd hp ?_
      unfold Kernel.tableAt at *
      omega

-- A frame that holds no table may hold anything.
theorem writing (h : Walkable k) {address : Nat} (haligned : address % 4096 = 0)
    (hspare : Spare k address) {m : Memory}
    (hmemory : ∀ b, b < address ∨ address + 4096 ≤ b → m b = k.memory b) (p : Pmm) :
    Walkable { k with pmm := p, memory := m } ∧ SameEntries k { k with pmm := p, memory := m } := by
  refine h.writingFrames (fun b hb => hmemory b ?_) p
  by_contra hin
  rw [show 4096 * (b / 4096) = address by omega] at hb
  exact hb hspare

-- A directory entry may be pointed to a frame of its own that has the old table entries.
theorem setEntry (h : Walkable k) {i : Nat} (hi : i < 1024) {entry : BitVec 32}
    (hpresent : isPresent entry = true) (hne : PAGE_PHYS_ADDRESS entry ≠ k.currentPageDirectory)
    (hother : ∀ j < 1024, j ≠ i → isPresent (k.pde j) = true →
      k.tableAt j ≠ PAGE_PHYS_ADDRESS entry)
    (hpages : ∀ a, PD_INDEX a = i →
      load32 k.memory (PAGE_PHYS_ADDRESS entry + 4 * PT_INDEX a) = k.pte a) :
    let k' := { k with memory := store32 k.memory (k.currentPageDirectory + 4 * i) entry }
    Walkable k' ∧ k'.pde i = entry ∧ (∀ j < 1024, j ≠ i → k'.pde j = k.pde j) ∧
      ∀ a < 4294967296, k'.pte a = k.pte a := by
  intro k'
  have hdirectory := h.directory_aligned
  have hcurrent : k'.currentPageDirectory = k.currentPageDirectory := rfl
  have hself : k'.pde i = entry := load32_store32_self ..
  have hrest : ∀ j < 1024, j ≠ i → k'.pde j = k.pde j := by
    intro j hj hji
    exact load32_store32_of_apart (by omega) entry
  refine ⟨⟨h.paging, h.cr3, hdirectory, h.directory_lt, ?_, ?_, ?_⟩, hself, hrest, fun a ha => ?_⟩
  · intro j hj ha
    by_cases hji : j = i
    · rw [hji, hself, hpresent] at ha
      cases ha
    · rw [hrest j hj hji] at *
      exact h.absent j hj ha
  · intro j hj hp
    by_cases hji : j = i
    · rw [Kernel.tableAt, hji, hself]
      exact hne
    · rw [hrest j hj hji] at hp
      rw [Kernel.tableAt, hrest j hj hji]
      exact h.table_ne j hj hp
  · intro j l hj hl hpj hpl he
    by_cases hji : j = i <;> by_cases hli : l = i
    · rw [hji, hli]
    · rw [hrest l hl hli] at hpl
      rw [Kernel.tableAt, Kernel.tableAt, hji, hself, hrest l hl hli] at he
      exact absurd he.symm (hother l hl hli hpl)
    · rw [hrest j hj hji] at hpj
      rw [Kernel.tableAt, Kernel.tableAt, hli, hself, hrest j hj hji] at he
      exact absurd he (hother j hj hji hpj)
    · rw [hrest j hj hji] at hpj
      rw [hrest l hl hli] at hpl
      rw [Kernel.tableAt, Kernel.tableAt, hrest j hj hji, hrest l hl hli] at he
      exact h.table_inj j l hj hl hpj hpl he
  · have hpd := Layout.PD_INDEX_lt ha
    have hslot := PT_INDEX_lt a
    by_cases hai : PD_INDEX a = i
    · have haligned := PAGE_PHYS_ADDRESS_aligned entry
      rw [Kernel.pte_of_present (by rwa [hai, hself]), Kernel.tableAt, hai, hself, ← hpages a hai]
      exact load32_store32_of_apart (by omega) entry
    · have hpde := hrest _ hpd hai
      cases hp : isPresent (k.pde (PD_INDEX a)) with
      | false => rw [Kernel.pte_of_absent hp, Kernel.pte_of_absent (by rwa [hpde])]
      | true =>
          have haligned := k.tableAt_aligned (PD_INDEX a)
          have hapart := h.table_ne _ hpd hp
          rw [Kernel.pte_of_present hp, Kernel.pte_of_present (by rwa [hpde]), Kernel.tableAt, hpde]
          exact load32_store32_of_apart (by unfold Kernel.tableAt at *; omega) entry

-- A table entry may be anything.
theorem setPage (h : Walkable k) {virt : Nat} (hvirt : virt < 4294967296)
    (hpresent : isPresent (k.pde (PD_INDEX virt)) = true) (value : BitVec 32) :
    let k' := { k with
      memory := store32 k.memory (k.tableAt (PD_INDEX virt) + 4 * PT_INDEX virt) value }
    Walkable k' ∧ (∀ i < 1024, k'.pde i = k.pde i) ∧ k'.pte virt = value ∧
      ∀ a < 4294967296, a / 4096 ≠ virt / 4096 → k'.pte a = k.pte a := by
  intro k'
  have hpd := Layout.PD_INDEX_lt hvirt
  have hslot := PT_INDEX_lt virt
  have hdirectory := h.directory_aligned
  have hcurrent : k'.currentPageDirectory = k.currentPageDirectory := rfl
  have haligned := k.tableAt_aligned (PD_INDEX virt)
  have hne := h.table_ne _ hpd hpresent
  have hpde : ∀ i < 1024, k'.pde i = k.pde i := by
    intro i hi
    exact load32_store32_of_apart (by omega) value
  refine ⟨h.of_directory rfl rfl rfl hpde, hpde, ?_, fun a ha hpage => ?_⟩
  · rw [Kernel.pte_of_present (by rwa [hpde _ hpd]), Kernel.tableAt, hpde _ hpd]
    exact load32_store32_self ..
  · have hpda := Layout.PD_INDEX_lt ha
    have hslota := PT_INDEX_lt a
    cases hp : isPresent (k.pde (PD_INDEX a)) with
    | false => rw [Kernel.pte_of_absent hp, Kernel.pte_of_absent (by rwa [hpde _ hpda])]
    | true =>
        have haligneda := k.tableAt_aligned (PD_INDEX a)
        rw [Kernel.pte_of_present hp, Kernel.pte_of_present (by rwa [hpde _ hpda]), Kernel.tableAt,
          hpde _ hpda]
        change load32 (store32 _ _ _) (k.tableAt _ + _) = load32 _ (k.tableAt _ + _)
        apply load32_store32_of_apart
        -- another table, or another entry of this one
        by_cases hsame : PD_INDEX a = PD_INDEX virt
        · have hother : PT_INDEX a ≠ PT_INDEX virt := fun he => hpage (page_eq_of_index hsame he)
          rw [hsame]
          omega
        · have hapart : k.tableAt (PD_INDEX a) ≠ k.tableAt (PD_INDEX virt) :=
            fun he => hsame (h.table_inj _ _ hpda hpd hp hpresent he)
          omega

end Walkable

end ToyKernel
