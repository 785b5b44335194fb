import Mathlib.Algebra.GroupWithZero.Nat
import Mathlib.Data.Finset.Card
import Mathlib.Data.Finset.Range
import ToyKernel.Library.BitArray

namespace Library.BitArray

variable {w : Nat}

def wordPopulation (word : BitVec w) : Nat := (List.range w).countP word.getLsbD

-- The number of set bits in the first `count` words
def population (words : Nat → BitVec w) (count : Nat) : Nat :=
  ((List.range count).map fun i => wordPopulation (words i)).sum

-- The set bits of the first `count` words, by their numbers
def setBits (words : Nat → BitVec w) (count : Nat) : Finset Nat :=
  (Finset.range (count * w)).filter fun bit => test words bit = true

theorem mem_setBits {words : Nat → BitVec w} {count bit : Nat} :
    bit ∈ setBits words count ↔ bit < count * w ∧ test words bit = true := by
  simp [setBits]

theorem countP_range_eq_card (p : Nat → Bool) (n : Nat) :
    (List.range n).countP p = ((Finset.range n).filter fun i => p i = true).card := by
  rw [List.countP_eq_length_filter, Finset.card_def, Finset.filter_val, Finset.range_val]
  simp [Multiset.range]

theorem wordPopulation_eq (hw : 0 < w) (words : Nat → BitVec w) (i : Nat) :
    wordPopulation (words i) = ((List.range w).map (i * w + ·)).countP (test words) := by
  rw [wordPopulation, List.countP_map]
  apply List.countP_congr
  intro j hj
  have hlt : j < w := List.mem_range.mp hj
  have hdiv : (i * w + j) / w = i := by
    rw [Nat.mul_comm, Nat.mul_add_div hw, Nat.div_eq_of_lt hlt, Nat.add_zero]
  have hmod : (i * w + j) % w = j := by
    rw [Nat.mul_comm, Nat.mul_add_mod, Nat.mod_eq_of_lt hlt]
  rw [Function.comp_apply, test_eq_getLsbD hw, hdiv, hmod]

-- The words are counted one by one, the bits all at once.
theorem population_eq_card (hw : 0 < w) (words : Nat → BitVec w) (count : Nat) :
    population words count = (setBits words count).card := by
  rw [setBits, ← countP_range_eq_card]
  induction count with
  | zero => simp [population]
  | succ count ih =>
      have hsum : population words (count + 1) =
          population words count + wordPopulation (words count) := by
        simp [population, List.range_succ]
      rw [hsum, ih, wordPopulation_eq hw, Nat.succ_mul, List.range_add, List.countP_append]

variable {words : Nat → BitVec w} {count bit : Nat}

theorem population_set (hw : 0 < w) (hlt : bit < count * w) (hclear : test words bit = false) :
    population (set words bit) count = population words count + 1 := by
  have hinsert : setBits (set words bit) count = insert bit (setBits words count) := by
    ext other
    rw [Finset.mem_insert, mem_setBits, mem_setBits, test_set hw, Bool.or_eq_true, decide_eq_true_eq]
    constructor
    · rintro ⟨ho, rfl | hset⟩
      · exact .inl rfl
      · exact .inr ⟨ho, hset⟩
    · rintro (rfl | ⟨ho, hset⟩)
      · exact ⟨hlt, .inl rfl⟩
      · exact ⟨ho, .inr hset⟩
  have hnew : bit ∉ setBits words count := by simp [mem_setBits, hclear]
  rw [population_eq_card hw, population_eq_card hw, hinsert, Finset.card_insert_of_notMem hnew]

theorem population_unset (hw : 0 < w) (hlt : bit < count * w) (hset : test words bit = true) :
    population (unset words bit) count + 1 = population words count := by
  have herase : setBits (unset words bit) count = (setBits words count).erase bit := by
    ext other
    rw [Finset.mem_erase, mem_setBits, mem_setBits, test_unset hw, Bool.and_eq_true, decide_eq_true_eq,
      and_left_comm]
  have hmem : bit ∈ setBits words count := mem_setBits.mpr ⟨hlt, hset⟩
  rw [population_eq_card hw, population_eq_card hw, herase, Finset.card_erase_add_one hmem]

-- An array that has some of the bits of another one, but not all
theorem population_lt (hw : 0 < w) {other : Nat → BitVec w} (hsub : ∀ bit, test other bit = true →
    test words bit = true) (hlt : bit < count * w) (hset : test words bit = true)
    (hclear : test other bit = false) : population other count < population words count := by
  have hmem : bit ∈ setBits words count := mem_setBits.mpr ⟨hlt, hset⟩
  have hnot : bit ∉ setBits other count := by simp [mem_setBits, hclear]
  have hsubset : setBits other count ⊆ setBits words count := fun i hi =>
    mem_setBits.mpr ⟨(mem_setBits.mp hi).1, hsub i (mem_setBits.mp hi).2⟩
  rw [population_eq_card hw, population_eq_card hw]
  exact Finset.card_lt_card ⟨hsubset, fun hback => hnot (hback hmem)⟩

-- It does not matter how far the count goes, as long as it goes far enough.
theorem population_congr (hw : 0 < w) {other : Nat}
    (hcount : ∀ bit, test words bit = true → bit < count * w)
    (hother : ∀ bit, test words bit = true → bit < other * w) :
    population words count = population words other := by
  have hsame : setBits words count = setBits words other := by
    ext bit
    rw [mem_setBits, mem_setBits]
    exact ⟨fun h => ⟨hother bit h.2, h.2⟩, fun h => ⟨hcount bit h.2, h.2⟩⟩
  rw [population_eq_card hw, population_eq_card hw, hsame]

theorem population_zero (hzero : ∀ i, words i = 0) (count : Nat) : population words count = 0 := by
  have hword : (List.range w).countP (0#w).getLsbD = 0 := by simp [List.countP_eq_zero]
  simp [population, wordPopulation, hzero, hword]

theorem population_le (words : Nat → BitVec w) (count : Nat) : population words count ≤ count * w := by
  induction count with
  | zero => simp [population]
  | succ count ih =>
      have hword : wordPopulation (words count) ≤ w := by
        have hlength := List.countP_le_length (p := (words count).getLsbD) (l := List.range w)
        rwa [List.length_range] at hlength
      simp only [population, List.range_succ, List.map_append, List.sum_append, List.map_cons,
        List.map_nil, List.sum_singleton, Nat.succ_mul] at ih ⊢
      omega

end Library.BitArray
