import Mathlib.Data.Finset.Card
import ToyKernel.Malloc.Backed

namespace ToyKernel

open Library

-- The PMM hands out `n` more frames, one at a time.
def Pmm.Supplies : (n : Nat) → Pmm → Prop
  | 0, _ => True
  | n + 1, p => (p.allocateBlock 1).1 ≠ 0 ∧ Supplies n (p.allocateBlock 1).2

instance Pmm.Supplies.decidable : (n : Nat) → (p : Pmm) → Decidable (p.Supplies n)
  | 0, _ => isTrue trivial
  | n + 1, p =>
      have := Pmm.Supplies.decidable n (p.allocateBlock 1).2
      inferInstanceAs (Decidable ((p.allocateBlock 1).1 ≠ 0 ∧ (p.allocateBlock 1).2.Supplies n))

-- The tables that are not there yet for `count` pages from `virt` on
def Kernel.tablesMissing (k : Kernel) (virt count : Nat) : Nat :=
  (((List.range count).map fun i => PD_INDEX (u32 (virt + i * PAGE_SIZE))).dedup.filter
    fun i => !isPresent (k.pde i)).length

namespace Kernel

variable {k k' : Kernel} {virt count : Nat}

-- The directory entries of the pages
def pageIndices (virt count : Nat) : Finset Nat :=
  ((List.range count).map fun i => PD_INDEX (u32 (virt + i * PAGE_SIZE))).toFinset

theorem mem_pageIndices {j : Nat} :
    j ∈ pageIndices virt count ↔ ∃ i < count, PD_INDEX (u32 (virt + i * PAGE_SIZE)) = j := by
  simp [pageIndices]

theorem lt_of_mem_pageIndices {j : Nat} (h : j ∈ pageIndices virt count) : j < 1024 := by
  obtain ⟨i, -, rfl⟩ := mem_pageIndices.mp h
  exact Layout.PD_INDEX_lt (u32_lt _)

-- The first page's and those of the pages behind it
theorem pageIndices_succ (hvirt : virt < 4294967296) :
    pageIndices virt (count + 1) = insert (PD_INDEX virt) (pageIndices (virt + 4096) count) := by
  ext j
  rw [Finset.mem_insert, mem_pageIndices, mem_pageIndices]
  have hshift : ∀ i, virt + 4096 + i * PAGE_SIZE = virt + (i + 1) * PAGE_SIZE := fun i => by
    unfold PAGE_SIZE
    omega
  constructor
  · rintro ⟨i, hi, rfl⟩
    cases i with
    | zero =>
        left
        rw [Nat.zero_mul, Nat.add_zero, u32_of_lt hvirt]
    | succ i =>
        right
        exact ⟨i, by omega, by rw [hshift]⟩
  · rintro (rfl | ⟨i, hi, rfl⟩)
    · exact ⟨0, by omega, by rw [Nat.zero_mul, Nat.add_zero, u32_of_lt hvirt]⟩
    · exact ⟨i + 1, by omega, by rw [hshift]⟩

theorem tablesMissing_eq_card (k : Kernel) (virt count : Nat) :
    k.tablesMissing virt count = ((pageIndices virt count).filter fun i => isPresent (k.pde i) = false).card := by
  unfold tablesMissing pageIndices
  rw [← List.toFinset_card_of_nodup ((List.nodup_dedup _).filter _)]
  congr 1
  ext j
  simp

theorem tablesMissing_le (k : Kernel) (virt count : Nat) : k.tablesMissing virt count ≤ count := by
  rw [tablesMissing_eq_card]
  calc _ ≤ (pageIndices virt count).card := Finset.card_filter_le ..
    _ ≤ ((List.range count).map fun i => PD_INDEX (u32 (virt + i * PAGE_SIZE))).length := List.toFinset_card_le _
    _ = count := by rw [List.length_map, List.length_range]

theorem tablesMissing_congr (h : ∀ i < 1024, k'.pde i = k.pde i) (virt count : Nat) :
    k'.tablesMissing virt count = k.tablesMissing virt count := by
  rw [tablesMissing_eq_card, tablesMissing_eq_card]
  congr 1
  refine Finset.filter_congr fun i hi => ?_
  rw [h i (lt_of_mem_pageIndices hi)]

theorem tablesMissing_pos (hvirt : virt < 4294967296) (habsent : isPresent (k.pde (PD_INDEX virt)) = false) :
    1 ≤ k.tablesMissing virt (count + 1) := by
  rw [tablesMissing_eq_card, pageIndices_succ hvirt]
  exact Finset.card_pos.mpr ⟨_, Finset.mem_filter.mpr ⟨Finset.mem_insert_self .., habsent⟩⟩

-- A mapping of the first page leaves the tables of the others to be missed.
theorem tablesMissing_succ (hvirt : virt < 4294967296)
    (hother : ∀ i < 1024, i ≠ PD_INDEX virt → k'.pde i = k.pde i)
    (hpresent : isPresent (k'.pde (PD_INDEX virt)) = true) :
    k.tablesMissing virt (count + 1) =
      k'.tablesMissing (virt + 4096) count + if isPresent (k.pde (PD_INDEX virt)) then 0 else 1 := by
  rw [tablesMissing_eq_card, tablesMissing_eq_card, pageIndices_succ hvirt]
  have hnot : PD_INDEX virt ∉ (pageIndices (virt + 4096) count).filter fun i => isPresent (k'.pde i) = false := by
    rw [Finset.mem_filter, hpresent]
    exact fun h => Bool.noConfusion h.2
  have hrest : ∀ i ≠ PD_INDEX virt,
      i ∈ (pageIndices (virt + 4096) count).filter (fun i => isPresent (k'.pde i) = false) ↔
        i ∈ pageIndices (virt + 4096) count ∧ isPresent (k.pde i) = false := by
    intro i hne
    rw [Finset.mem_filter]
    exact and_congr_right fun hi => by rw [hother i (lt_of_mem_pageIndices hi) hne]
  cases hp : isPresent (k.pde (PD_INDEX virt)) with
  | true =>
      rw [if_pos rfl]
      refine (congrArg Finset.card ?_).trans (Nat.add_zero _).symm
      ext i
      by_cases he : i = PD_INDEX virt
      · simp [he, hp, hpresent]
      · rw [hrest i he, Finset.mem_filter, Finset.mem_insert, or_iff_right he]
  | false =>
      rw [if_neg Bool.false_ne_true, ← Finset.card_insert_of_notMem hnot]
      apply congrArg Finset.card
      ext i
      by_cases he : i = PD_INDEX virt
      · simp [he, hp]
      · rw [Finset.mem_insert, or_iff_right he, hrest i he, Finset.mem_filter, Finset.mem_insert, or_iff_right he]

end Kernel

namespace Pmm.Supplies

variable {p : Pmm} {k : Kernel} {n : Nat}

theorem of_le {m : Nat} (h : p.Supplies n) (hle : m ≤ n) : p.Supplies m := by
  induction m generalizing n p with
  | zero => trivial
  | succ m ih =>
      obtain ⟨n, rfl⟩ := Nat.exists_eq_add_of_le' (show 1 ≤ n by omega)
      exact ⟨h.1, ih h.2 (by omega)⟩

theorem allocateBlock (h : k.pmm.Supplies (n + 1)) {r : Nat × Kernel} (hr : k.allocateBlock 1 = .ok r) :
    r.1 ≠ 0 ∧ r.2.pmm.Supplies n := by
  have hresult := Kernel.allocateBlock_result hr
  unfold Pmm.Supplies at h
  rw [hresult] at h
  exact h

-- A mapping takes the frame of its table where that is missing.
theorem mapPage {phys virt count : Nat} (h : k.pmm.Supplies (n + k.tablesMissing virt (count + 1)))
    (hp : Paged k) (hvirt : virt < 4294967296) {r : Bool × Kernel} (hr : k.mapPage phys virt = .ok r) :
    r.1 = true ∧ r.2.pmm.Supplies (n + r.2.tablesMissing (virt + 4096) count) := by
  have htakes := Kernel.mapPage_takes hr
  have hmapped := (hp.mapPage_ok hp.marked hvirt hr).1
  have hsucc : r.1 = true → k.tablesMissing virt (count + 1) = _ :=
    fun hok => Kernel.tablesMissing_succ hvirt (hmapped hok).pde_other (hmapped hok).present
  cases hpresent : isPresent (k.pde (PD_INDEX virt)) with
  | true =>
      rw [hpresent, if_pos rfl] at htakes
      obtain ⟨hok, hsame⟩ := htakes
      rw [hsucc hok, hpresent, if_pos rfl, Nat.add_zero] at h
      exact ⟨hok, by rwa [hsame]⟩
  | false =>
      rw [hpresent, if_neg Bool.false_ne_true] at htakes
      obtain ⟨htaken, hnone⟩ := htakes
      have hpos : 1 ≤ k.tablesMissing virt (count + 1) := Kernel.tablesMissing_pos hvirt hpresent
      have hne : (k.pmm.allocateBlock 1).1 ≠ 0 :=
        (h.of_le (show 1 ≤ n + k.tablesMissing virt (count + 1) by omega)).1
      have hok : r.1 = true := Bool.eq_true_of_not_eq_false fun hfalse => hne (hnone.mp hfalse)
      rw [hsucc hok, hpresent, if_neg Bool.false_ne_true] at h
      exact ⟨hok, by rw [htaken]; exact h.2⟩

end Pmm.Supplies

end ToyKernel
