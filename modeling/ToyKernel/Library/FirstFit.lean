import Mathlib.Data.Nat.Find
import Mathlib.Data.List.Basic

namespace Library.FirstFit

section Scan

variable {α : Type*}

-- A counting loop with an early return finds the first index that answers.
theorem findSome?_range_eq_some_iff (f : Nat → Option α) (count : Nat) (a : α) :
    (List.range count).findSome? f = some a ↔
      ∃ i, i < count ∧ f i = some a ∧ ∀ j < i, f j = none := by
  induction count with
  | zero => simp
  | succ count ih =>
      rw [List.range_succ, List.findSome?_append, Option.or_eq_some_iff, ih,
        List.findSome?_eq_none_iff]
      simp only [List.mem_range, List.findSome?_singleton]
      constructor
      · rintro (⟨i, hi, ha, hbefore⟩ | ⟨hnone, ha⟩)
        · exact ⟨i, by omega, ha, hbefore⟩
        · exact ⟨count, by omega, ha, hnone⟩
      · rintro ⟨i, hi, ha, hbefore⟩
        by_cases he : i = count
        · subst he
          exact Or.inr ⟨hbefore, ha⟩
        · exact Or.inl ⟨i, by omega, ha, hbefore⟩

theorem findSome?_range_eq_none_iff (f : Nat → Option α) (count : Nat) :
    (List.range count).findSome? f = none ↔ ∀ i < count, f i = none := by
  simp [List.findSome?_eq_none_iff]

theorem findSome?_range_congr {f g : Nat → Option α} {count : Nat}
    (h : ∀ i < count, f i = g i) :
    (List.range count).findSome? f = (List.range count).findSome? g := by
  induction count with
  | zero => rfl
  | succ count ih =>
      rw [List.range_succ, List.findSome?_append, List.findSome?_append,
        ih fun i hi => h i (by omega)]
      simp [h count (by omega)]

-- The word loop around the bit loop visits the bits in order. A word may be passed
-- over when none of its bits would answer.
theorem findSome?_words (w words : Nat) (answer : Nat → Option α)
    (skip : Nat → Prop) [DecidablePred skip]
    (hskip : ∀ i, skip i → ∀ j < w, answer (i * w + j) = none) :
    ((List.range words).findSome? fun i =>
      if skip i then none else (List.range w).findSome? fun j => answer (i * w + j)) =
      (List.range (words * w)).findSome? answer := by
  induction words with
  | zero => simp
  | succ words ih =>
      rw [List.range_succ, List.findSome?_append, ih, Nat.succ_mul, List.range_add,
        List.findSome?_append, List.findSome?_singleton, List.findSome?_map]
      congr 1
      split
      · rename_i hs
        exact ((findSome?_range_eq_none_iff _ w).mpr (hskip words hs)).symm
      · rfl

-- The part of a list that a search with an early return looks at.
def visited {β : Type*} (answer : β → Option α) : List β → List β
  | [] => []
  | b :: l => b :: if (answer b).isSome then [] else visited answer l

theorem visited_append {β : Type*} (answer : β → Option α) (first second : List β) :
    visited answer (first ++ second) =
      visited answer first ++ if (first.findSome? answer).isSome then [] else visited answer second := by
  induction first with
  | nil => simp [visited]
  | cons b first ih =>
      cases hb : answer b with
      | some a => simp [visited, hb]
      | none => simp [visited, hb, ih]

theorem mem_visited_range (answer : Nat → Option α) (count i : Nat) :
    i ∈ visited answer (List.range count) ↔ i < count ∧ ∀ j < i, answer j = none := by
  induction count with
  | zero => simp [visited]
  | succ count ih =>
      rw [List.range_succ, visited_append, List.mem_append, ih]
      cases hfound : (List.range count).findSome? answer with
      | some a =>
          obtain ⟨k, hk, ha, _⟩ := (findSome?_range_eq_some_iff answer count a).mp hfound
          simp only [Option.isSome_some, ite_true, List.not_mem_nil, or_false]
          refine ⟨fun h => ⟨by omega, h.2⟩, fun h => ⟨?_, h.2⟩⟩
          by_contra hi
          have hn := h.2 k (by omega)
          rw [ha] at hn
          cases hn
      | none =>
          have hnone := (findSome?_range_eq_none_iff answer count).mp hfound
          simp only [Option.isSome_none, Bool.false_eq_true, ite_false, visited, ite_self,
            List.mem_singleton]
          constructor
          · rintro (h | rfl)
            · exact ⟨by omega, h.2⟩
            · exact ⟨by omega, hnone⟩
          · rintro ⟨hlt, hbefore⟩
            by_cases hi : i = count
            · exact Or.inr hi
            · exact Or.inl ⟨by omega, hbefore⟩

-- What a search has not looked at does not change its answer.
theorem findSome?_congr_visited {β : Type*} {f g : β → Option α} {l : List β}
    (h : ∀ b ∈ visited f l, f b = g b) : l.findSome? f = l.findSome? g := by
  induction l with
  | nil => rfl
  | cons b l ih =>
      have hb : f b = g b := h b (by simp [visited])
      cases hf : f b with
      | some a => simp [hf, ← hb]
      | none =>
          simp only [List.findSome?_cons, ← hb, hf]
          exact ih fun c hc => h c (by simp [visited, hf, hc])

end Scan

variable (used : Nat → Bool)

-- A run of `count` unused cells that begins at `start`.
def Clear (start count : Nat) : Prop :=
  ∀ i < count, used (start + i) = false

instance (start count : Nat) : Decidable (Clear used start count) :=
  inferInstanceAs (Decidable (∀ i < count, used (start + i) = false))

-- The first fit below `limit`: only the start is bounded, the run may pass it.
structure IsFirst (limit count start : Nat) : Prop where
  start_lt : start < limit
  clear : Clear used start count
  least : ∀ other, Clear used other count → start ≤ other

variable {used}

@[simp] theorem clear_zero (start : Nat) : Clear used start 0 := fun _ hi => absurd hi (by omega)

theorem clear_one_iff (start : Nat) : Clear used start 1 ↔ used start = false := by
  simp [Clear]

theorem Clear.mono {start count smaller : Nat} (h : Clear used start count)
    (hle : smaller ≤ count) : Clear used start smaller :=
  fun i hi => h i (by omega)

-- The cells of a run, named by their own index.
theorem Clear.cell {start count : Nat} (h : Clear used start count) (cell : Nat)
    (hlo : start ≤ cell) (hhi : cell < start + count) : used cell = false := by
  have hc := h (cell - start) (by omega)
  rwa [Nat.add_sub_of_le hlo] at hc

theorem clear_congr {other : Nat → Bool} {start count : Nat}
    (h : ∀ cell, start ≤ cell → cell < start + count → used cell = other cell) :
    Clear used start count ↔ Clear other start count := by
  constructor <;> intro hc i hi
  · rw [← h (start + i) (by omega) (by omega)]
    exact hc i hi
  · rw [h (start + i) (by omega) (by omega)]
    exact hc i hi

theorem IsFirst.unique {limit count start other : Nat} (h : IsFirst used limit count start)
    (ho : IsFirst used limit count other) : start = other :=
  Nat.le_antisymm (h.least other ho.clear) (ho.least start h.clear)

-- A run that starts below the limit is witness enough for a first fit.
theorem exists_isFirst {limit count start : Nat} (hlt : start < limit)
    (hc : Clear used start count) : ∃ first, IsFirst used limit count first := by
  have hex : ∃ s, Clear used s count := ⟨start, hc⟩
  refine ⟨Nat.find hex, ?_, Nat.find_spec hex, fun other ho => Nat.find_min' hex ho⟩
  exact Nat.lt_of_le_of_lt (Nat.find_min' hex hc) hlt

-- The first fit ends no later than any other run of the same length.
theorem IsFirst.end_le {limit count start other : Nat} (h : IsFirst used limit count start)
    (ho : Clear used other count) : start + count ≤ other + count :=
  Nat.add_le_add_right (h.least other ho) count

-- The first fit covers `cell` exactly when some run does and none ends before it.
theorem IsFirst.covers_iff {limit count start : Nat} (h : IsFirst used limit count start)
    (cell : Nat) :
    (start ≤ cell ∧ cell < start + count) ↔
      (∃ s, s ≤ cell ∧ cell < s + count ∧ Clear used s count) ∧
        ∀ s, s + count ≤ cell → ¬Clear used s count := by
  constructor
  · rintro ⟨hlo, hhi⟩
    refine ⟨⟨start, hlo, hhi, h.clear⟩, fun s hs hc => ?_⟩
    have := h.least s hc
    omega
  · rintro ⟨⟨s, hlo, hhi, hc⟩, hnone⟩
    refine ⟨Nat.le_trans (h.least s hc) hlo, ?_⟩
    by_contra hend
    exact hnone start (by omega) h.clear

end Library.FirstFit
