import ToyKernel.Pmm.Request
import ToyKernel.Vmm.Entry

namespace ToyKernel

open Library ByteMemory FirstFit

-- Where the page tables stand: the directory in the frame `directory`, and the table of
-- each directory entry that has one. They are marked frames below 4 MiB, no two the same.
structure Tables (p : Pmm) (m : Memory) (directory : Nat) (table : Nat → Option Nat) : Prop where
  directory_lt : directory < 1024
  directory_marked : p.testBit directory = true
  absent : ∀ i < 1024, table i = none → load32 m (4096 * directory + 4 * i) = 0
  present : ∀ i t, i < 1024 → table i = some t →
    isPresent (load32 m (4096 * directory + 4 * i)) = true ∧
      PAGE_PHYS_ADDRESS (load32 m (4096 * directory + 4 * i)) = 4096 * t
  table_lt : ∀ i t, table i = some t → t < 1024
  table_marked : ∀ i t, table i = some t → p.testBit t = true
  table_ne : ∀ i t, table i = some t → t ≠ directory
  table_inj : ∀ i j t, table i = some t → table j = some t → i = j

-- The table in the frame `t` maps the 4 MiB from `frame` on.
def MapsFrom (m : Memory) (t frame : Nat) : Prop :=
  ∀ f < 1024, isPresent (load32 m (4096 * t + 4 * f)) = true ∧
    PAGE_PHYS_ADDRESS (load32 m (4096 * t + 4 * f)) = frame + 4096 * f

-- The tables are in use, and the first of them maps the first 4 MiB to themselves.
structure Layout (k : Kernel) (directory : Nat) (table : Nat → Option Nat) : Prop
    extends Tables k.pmm k.memory directory table where
  paging : k.paging = true
  cr3 : k.cr3 = 4096 * directory
  current : k.currentPageDirectory = 4096 * directory
  low : ∃ t, table 0 = some t ∧ MapsFrom k.memory t 0

-- The frames the tables take.
def Uses (directory : Nat) (table : Nat → Option Nat) (f : Nat) : Prop :=
  f = directory ∨ ∃ i, table i = some f

theorem update_eq_some (table : Nat → Option Nat) (i t j u : Nat) :
    Function.update table i (some t) j = some u ↔ j = i ∧ u = t ∨ j ≠ i ∧ table j = some u := by
  by_cases hji : j = i
  · simp [hji, eq_comm]
  · simp [hji]

namespace Tables

variable {p p' : Pmm} {m m' : Memory} {directory : Nat} {table : Nat → Option Nat}

theorem uses_marked (h : Tables p m directory table) {f : Nat} (hf : Uses directory table f) :
    p.testBit f = true := by
  rcases hf with rfl | ⟨i, hi⟩
  · exact h.directory_marked
  · exact h.table_marked i f hi

theorem not_uses (h : Tables p m directory table) {f : Nat} (hfree : p.testBit f = false) :
    ¬Uses directory table f := by
  intro huses
  rw [h.uses_marked huses] at hfree
  cases hfree

-- What the tables need of a change: the directory stays as it is, and no frame loses its mark.
theorem keep (h : Tables p m directory table)
    (hmarks : ∀ f, p.testBit f = true → p'.testBit f = true)
    (hmemory : ∀ i < 1024,
      load32 m' (4096 * directory + 4 * i) = load32 m (4096 * directory + 4 * i)) :
    Tables p' m' directory table where
  directory_lt := h.directory_lt
  directory_marked := hmarks _ h.directory_marked
  absent i hi hnone := by
    rw [hmemory i hi]
    exact h.absent i hi hnone
  present i t hi ht := by
    rw [hmemory i hi]
    exact h.present i t hi ht
  table_lt := h.table_lt
  table_marked i t ht := hmarks _ (h.table_marked i t ht)
  table_ne := h.table_ne
  table_inj := h.table_inj

-- A new directory entry for a frame that no other entry names.
theorem addTable (h : Tables p m directory table) (i t : Nat) {entry : BitVec 32} (ht : t < 1024)
    (hmarked : p.testBit t = true) (hnew : ¬Uses directory table t)
    (hpresent : isPresent entry = true) (haddress : PAGE_PHYS_ADDRESS entry = 4096 * t) :
    Tables p (store32 m (4096 * directory + 4 * i) entry) directory
      (Function.update table i (some t)) where
  directory_lt := h.directory_lt
  directory_marked := h.directory_marked
  absent j hj hnone := by
    by_cases hji : j = i
    · rw [hji, Function.update_self] at hnone
      cases hnone
    · rw [Function.update_of_ne hji] at hnone
      rw [load32_store32_of_apart (by omega)]
      exact h.absent j hj hnone
  present j u hj hu := by
    rcases (update_eq_some table i t j u).mp hu with ⟨rfl, rfl⟩ | ⟨hji, hold⟩
    · rw [load32_store32_self]
      exact ⟨hpresent, haddress⟩
    · rw [load32_store32_of_apart (by omega)]
      exact h.present j u hj hold
  table_lt j u hu := by
    rcases (update_eq_some table i t j u).mp hu with ⟨_, rfl⟩ | ⟨_, hold⟩
    · exact ht
    · exact h.table_lt j u hold
  table_marked j u hu := by
    rcases (update_eq_some table i t j u).mp hu with ⟨_, rfl⟩ | ⟨_, hold⟩
    · exact hmarked
    · exact h.table_marked j u hold
  table_ne j u hu := by
    rcases (update_eq_some table i t j u).mp hu with ⟨_, rfl⟩ | ⟨_, hold⟩
    · exact fun he => hnew (Or.inl he)
    · exact h.table_ne j u hold
  table_inj j l u hj hl := by
    rcases (update_eq_some table i t j u).mp hj with ⟨rfl, rfl⟩ | ⟨_, hold⟩ <;>
      rcases (update_eq_some table _ _ l u).mp hl with ⟨rfl, hu⟩ | ⟨_, hold'⟩
    · rfl
    · exact absurd (Or.inr ⟨l, hold'⟩) hnew
    · exact absurd (Or.inr ⟨j, hu ▸ hold⟩) hnew
    · exact h.table_inj j l u hold hold'

end Tables

theorem MapsFrom.congr {m m' : Memory} {t frame : Nat} (h : MapsFrom m t frame)
    (hmemory : ∀ f < 1024, load32 m' (4096 * t + 4 * f) = load32 m (4096 * t + 4 * f)) :
    MapsFrom m' t frame := by
  intro f hf
  rw [hmemory f hf]
  exact h f hf

-- An entry may get its own frame once more.
theorem MapsFrom.again {m : Memory} {t f phys : Nat} (h : MapsFrom m t 0) (hf : f < 1024)
    (hsame : phys / 4096 = f) {attributes : BitVec 32} (hattributes : attributes.toNat < 4096) :
    MapsFrom (store32 m (4096 * t + 4 * f)
      (SET_FRAME (load32 m (4096 * t + 4 * f) ||| attributes) phys)) t 0 := by
  intro g hg
  by_cases hgf : g = f
  · obtain ⟨hp, ha⟩ := h f hf
    rw [hgf, load32_store32_self]
    refine ⟨isPresent_SET_FRAME _ _ (isPresent_or_left _ _ hp), ?_⟩
    rw [PAGE_PHYS_ADDRESS_SET_FRAME, hsame]
    · omega
    · rw [PAGE_PHYS_ADDRESS_or _ _ hattributes, ha]
      omega
    · omega
  · rw [load32_store32_of_apart (by omega)]
    exact h g hg

namespace Layout

variable {k k' : Kernel} {directory : Nat} {table : Nat → Option Nat}

section Translation

-- Every address below 4 MiB is its own translation.
theorem translate_low (h : Layout k directory table) {a : Nat} (ha : a < 4194304) :
    k.translate a = some a := by
  obtain ⟨t, ht, hlow⟩ := h.low
  obtain ⟨hpde, haddress⟩ := h.present 0 t (by omega) ht
  obtain ⟨hpte, hframe⟩ := hlow (a / 4096) (by omega)
  have hpd : PD_INDEX a = 0 := by
    unfold PD_INDEX
    omega
  have hpt : PT_INDEX a = a / 4096 := by
    unfold PT_INDEX
    omega
  simp only [Kernel.translate, h.paging, h.cr3, hpd, hpde, haddress, hpt, hpte, hframe, ite_true]
  congr 1
  omega

theorem reaches_low (h : Layout k directory table) {address count : Nat}
    (hend : address + count ≤ 4194304) : k.Reaches address count :=
  fun i hi => h.translate_low (by omega)

theorem access_low (h : Layout k directory table) {α : Type} {address count : Nat} (act : α)
    (hend : address + count ≤ 4194304) : k.access address count act = .ok act :=
  if_pos (h.reaches_low hend)

-- Without a table in the second directory slot the address 4 MiB has no translation.
theorem translate_second (h : Layout k directory table) (habsent : table 1 = none) :
    k.translate 4194304 = none := by
  have hpde := h.absent 1 (by omega) habsent
  have hpd : PD_INDEX 4194304 = 1 := rfl
  simp [Kernel.translate, h.paging, h.cr3, hpd, hpde]

-- The present bit tells whether there is a table.
theorem isPresent_iff (h : Layout k directory table) {i : Nat} (hi : i < 1024) :
    isPresent (load32 k.memory (k.currentPageDirectory + 4 * i)) = true ↔ ∃ t, table i = some t := by
  rw [h.current]
  cases ht : table i with
  | none => simp [h.absent i hi ht]
  | some t => simp [(h.present i t hi ht).1]

theorem not_isPresent (h : Layout k directory table) {i : Nat} (hi : i < 1024) (ht : table i = none) :
    ¬isPresent (load32 k.memory (k.currentPageDirectory + 4 * i)) = true := by
  rw [h.isPresent_iff hi, ht]
  rintro ⟨t, he⟩
  cases he

end Translation

section Changes

-- What the layout needs of a change: its own frames stay as they are, and no frame loses
-- its mark.
theorem keep (h : Layout k directory table) (hpaging : k'.paging = k.paging) (hcr3 : k'.cr3 = k.cr3)
    (hcurrent : k'.currentPageDirectory = k.currentPageDirectory)
    (hmarks : ∀ f, k.pmm.testBit f = true → k'.pmm.testBit f = true)
    (hmemory : ∀ f, Uses directory table f → ∀ i < 1024,
      load32 k'.memory (4096 * f + 4 * i) = load32 k.memory (4096 * f + 4 * i)) :
    Layout k' directory table where
  toTables := h.toTables.keep hmarks (hmemory directory (Or.inl rfl))
  paging := hpaging.trans h.paging
  cr3 := hcr3.trans h.cr3
  current := hcurrent.trans h.current
  low := by
    obtain ⟨t, ht, hlow⟩ := h.low
    exact ⟨t, ht, hlow.congr (hmemory t (Or.inr ⟨0, ht⟩))⟩

-- The PMM may mark further frames.
theorem marking (h : Layout k directory table) {p : Pmm}
    (hmarks : ∀ f, k.pmm.testBit f = true → p.testBit f = true) :
    Layout { k with pmm := p } directory table :=
  h.keep rfl rfl rfl hmarks fun _ _ _ _ => rfl

-- Pages apart from the tables may hold anything.
theorem writing (h : Layout k directory table) (start count : Nat) {m : Memory}
    (hapart : ∀ f, start ≤ f → f < start + count → ¬Uses directory table f)
    (hmemory : ∀ b, b < 4096 * start ∨ 4096 * (start + count) ≤ b → m b = k.memory b) :
    Layout { k with memory := m } directory table := by
  refine h.keep rfl rfl rfl (fun _ hf => hf) fun f hf i hi => ?_
  have hout : f < start ∨ start + count ≤ f := by
    by_contra hn
    exact hapart f (by omega) (by omega) hf
  exact load32_congr fun b hlo hhi => hmemory b (by omega)

end Changes

end Layout

end ToyKernel
