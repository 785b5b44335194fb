import Mathlib.Data.Set.BooleanAlgebra
import Mathlib.Order.CompletePartialOrder
import Mathlib.Data.Set.Basic
import Mathlib.Data.Set.Disjoint
import Mathlib.Data.List.Pairwise

namespace Library

variable {α : Type*}

-- Who holds which cells. The invariant is part of the value: blocks handed out are
-- disjoint from each other and from the reserved cells, and all of these count as used.
structure Ledger (reserved : Set α) where
  used : Set α
  held : List (Set α)
  pairwise : held.Pairwise Disjoint
  held_subset : ∀ block ∈ held, block ⊆ used
  reserved_subset : reserved ⊆ used
  apart : ∀ block ∈ held, Disjoint reserved block

namespace Ledger

variable {reserved : Set α}

def start (reserved : Set α) : Ledger reserved where
  used := reserved
  held := []
  pairwise := List.Pairwise.nil
  held_subset := by simp
  reserved_subset := Set.Subset.refl _
  apart := by simp

-- Only cells that nobody uses can be handed out.
def grant (l : Ledger reserved) (block : Set α) (hfree : Disjoint l.used block) :
    Ledger reserved where
  used := l.used ∪ block
  held := block :: l.held
  pairwise := List.pairwise_cons.mpr
    ⟨fun other ho => (hfree.mono_left (l.held_subset other ho)).symm, l.pairwise⟩
  held_subset := by
    intro other ho
    rcases List.mem_cons.mp ho with rfl | ho
    · exact Set.subset_union_right
    · exact (l.held_subset other ho).trans Set.subset_union_left
  reserved_subset := l.reserved_subset.trans Set.subset_union_left
  apart := by
    intro other ho
    rcases List.mem_cons.mp ho with rfl | ho
    · exact hfree.mono_left l.reserved_subset
    · exact l.apart other ho

theorem rest_pairwise (l : Ledger reserved) {block : Set α} {rest : List (Set α)}
    (hperm : l.held.Perm (block :: rest)) :
    (∀ other ∈ rest, Disjoint block other) ∧ rest.Pairwise Disjoint :=
  List.pairwise_cons.mp ((hperm.pairwise_iff fun h => h.symm).mp l.pairwise)

-- Giving a block back may return fewer cells than it has, never others.
def release (l : Ledger reserved) {block : Set α} {rest : List (Set α)}
    (hperm : l.held.Perm (block :: rest)) (dropped : Set α) (hsub : dropped ⊆ block) :
    Ledger reserved where
  used := l.used \ dropped
  held := rest
  pairwise := (l.rest_pairwise hperm).2
  held_subset := by
    intro other ho cell hc
    have hd := (l.rest_pairwise hperm).1 other ho
    have hm : other ∈ l.held := hperm.mem_iff.mpr (List.mem_cons_of_mem _ ho)
    exact ⟨l.held_subset other hm hc, fun hdrop => Set.disjoint_left.mp hd (hsub hdrop) hc⟩
  reserved_subset := by
    intro cell hc
    have hm : block ∈ l.held := hperm.mem_iff.mpr List.mem_cons_self
    exact ⟨l.reserved_subset hc,
      fun hdrop => Set.disjoint_left.mp (l.apart block hm) hc (hsub hdrop)⟩
  apart := fun other ho => l.apart other (hperm.mem_iff.mpr (List.mem_cons_of_mem _ ho))

end Ledger

end Library
