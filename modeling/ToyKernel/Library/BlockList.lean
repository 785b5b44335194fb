import Mathlib.Data.List.Basic

namespace Library.BlockList

-- A region cut into blocks that stand side by side, each behind a header.
structure Block where
  size : Nat
  free : Bool
  deriving DecidableEq

variable (header : Nat)

def extent : List Block → Nat
  | [] => 0
  | b :: blocks => header + b.size + extent blocks

-- The blocks with their addresses, from `a` on.
def placed : (a : Nat) → List Block → List (Nat × Block)
  | _, [] => []
  | a, b :: blocks => (a, b) :: placed (a + header + b.size) blocks

-- One pass that joins neighbours which are both free; it goes on behind a joined block.
def mergePass : List Block → List Block
  | b :: c :: blocks =>
      if b.free && c.free then ⟨b.size + (c.size + header), true⟩ :: mergePass blocks
      else b :: mergePass (c :: blocks)
  | blocks => blocks

variable {header} {a : Nat} {blocks : List Block}

theorem extent_append (first second : List Block) :
    extent header (first ++ second) = extent header first + extent header second := by
  induction first with
  | nil => simp [extent]
  | cons b first ih =>
      simp only [List.cons_append, extent, ih]
      omega

theorem placed_append (a : Nat) (first second : List Block) :
    placed header a (first ++ second) =
      placed header a first ++ placed header (a + extent header first) second := by
  induction first generalizing a with
  | nil => simp [placed, extent]
  | cons b first ih =>
      simp only [List.cons_append, placed, extent, ih]
      rw [show a + header + b.size + extent header first = a + (header + b.size + extent header first)
        by omega]

-- A placed block lies inside the region.
theorem placed_bounds {x : Nat × Block} (h : x ∈ placed header a blocks) :
    a ≤ x.1 ∧ x.1 + header + x.2.size ≤ a + extent header blocks := by
  induction blocks generalizing a with
  | nil => cases h
  | cons b blocks ih =>
      rcases List.mem_cons.mp h with rfl | htail
      · simp only [extent]
        omega
      · have hrest := ih htail
        simp only [extent]
        omega

-- Blocks come in the order of their addresses and do not overlap.
theorem placed_pairwise (a : Nat) (blocks : List Block) :
    (placed header a blocks).Pairwise fun x y => x.1 + header + x.2.size ≤ y.1 := by
  induction blocks generalizing a with
  | nil => exact List.Pairwise.nil
  | cons b blocks ih =>
      refine List.pairwise_cons.mpr ⟨fun y hy => ?_, ih _⟩
      exact (placed_bounds hy).1

-- Where a placed block cuts the list in two.
theorem exists_split {x : Nat × Block} (h : x ∈ placed header a blocks) :
    ∃ before after, blocks = before ++ x.2 :: after ∧ x.1 = a + extent header before := by
  induction blocks generalizing a with
  | nil => cases h
  | cons b blocks ih =>
      rcases List.mem_cons.mp h with rfl | htail
      · exact ⟨[], blocks, rfl, rfl⟩
      · obtain ⟨before, after, hsplit, haddress⟩ := ih htail
        refine ⟨b :: before, after, by rw [hsplit, List.cons_append], ?_⟩
        simp only [extent]
        omega

-- Two placed blocks are apart unless they are the same.
theorem placed_apart {x y : Nat × Block} (hx : x ∈ placed header a blocks)
    (hy : y ∈ placed header a blocks) :
    x = y ∨ x.1 + header + x.2.size ≤ y.1 ∨ y.1 + header + y.2.size ≤ x.1 := by
  induction blocks generalizing a with
  | nil => cases hx
  | cons b blocks ih =>
      rcases List.mem_cons.mp hx with rfl | hx <;> rcases List.mem_cons.mp hy with rfl | hy
      · exact Or.inl rfl
      · exact Or.inr (Or.inl (placed_bounds hy).1)
      · exact Or.inr (Or.inr (placed_bounds hx).1)
      · exact ih hx hy

theorem mem_placed_middle (a : Nat) (before after : List Block) (b : Block) :
    (a + extent header before, b) ∈ placed header a (before ++ b :: after) := by
  rw [placed_append, List.mem_append]
  exact Or.inr List.mem_cons_self

-- Another cut of one block leaves the others where they are.
theorem mem_placed_replace {before after : List Block} (middle : List Block) {b : Block}
    {x : Nat × Block} (hx : x ∈ placed header a (before ++ b :: after)) (hne : x.1 ≠ a + extent header before)
    (hextent : after ≠ [] → extent header middle = extent header [b]) :
    x ∈ placed header a (before ++ (middle ++ after)) := by
  rw [placed_append, List.mem_append] at hx ⊢
  rcases hx with hx | hx
  · exact Or.inl hx
  · right
    rcases List.mem_cons.mp hx with rfl | hx
    · exact absurd rfl hne
    · have hafter : after ≠ [] := by
        intro hnil
        rw [hnil] at hx
        cases hx
      rw [placed_append, List.mem_append, hextent hafter]
      right
      simp only [extent]
      rwa [show a + extent header before + (header + b.size + 0) = a + extent header before + header + b.size
        by omega]

section Cover

variable {free : Bool} {byte : Nat}

end Cover

section Merge

theorem mergePass_joined {b c : Block} (h : (b.free && c.free) = true) (blocks : List Block) :
    mergePass header (b :: c :: blocks) = ⟨b.size + (c.size + header), true⟩ :: mergePass header blocks := by
  rw [mergePass, if_pos h]

theorem mergePass_kept {b c : Block} (h : ¬(b.free && c.free) = true) (blocks : List Block) :
    mergePass header (b :: c :: blocks) = b :: mergePass header (c :: blocks) := by
  rw [mergePass, if_neg h]

theorem extent_mergePass (blocks : List Block) :
    extent header (mergePass header blocks) = extent header blocks := by
  induction blocks using mergePass.induct with
  | case1 b c blocks h ih =>
      rw [mergePass_joined h]
      simp only [extent, ih]
      omega
  | case2 b c blocks h ih =>
      rw [mergePass_kept h]
      simp only [extent, ih]
  | case3 blocks h => rw [mergePass.eq_2 header blocks h]

-- Blocks in use are not merged, whatever follows the last of them.
theorem mergePass_of_used {b : Block} (hused : ∀ c ∈ blocks, c.free = false) :
    mergePass header (blocks ++ [b]) = blocks ++ [b] := by
  induction blocks with
  | nil => rfl
  | cons c blocks ih =>
      have hrest := ih fun d hd => hused d (List.mem_cons_of_mem _ hd)
      have hc := hused c List.mem_cons_self
      cases blocks with
      | nil => exact mergePass_kept (by simp [hc]) []
      | cons d blocks =>
          rw [List.cons_append] at hrest ⊢
          rw [List.cons_append, mergePass_kept (by simp [hc]), hrest]

-- A block in use keeps its place and its size.
theorem used_mergePass {x : Nat × Block} (hused : x.2.free = false)
    (hx : x ∈ placed header a blocks) : x ∈ placed header a (mergePass header blocks) := by
  induction blocks using mergePass.induct generalizing a with
  | case1 b c blocks h ih =>
      rw [Bool.and_eq_true] at h
      simp only [placed, List.mem_cons] at hx
      rcases hx with rfl | rfl | hx
      · rw [h.1] at hused
        cases hused
      · rw [h.2] at hused
        cases hused
      · rw [mergePass_joined (by rw [h.1, h.2]; rfl), placed]
        apply List.mem_cons_of_mem
        rw [show a + header + (b.size + (c.size + header)) = a + header + b.size + header + c.size
          by omega]
        exact ih hx
  | case2 b c blocks h ih =>
      rw [mergePass_kept h, placed]
      rcases List.mem_cons.mp hx with rfl | hx
      · exact List.mem_cons_self
      · exact List.mem_cons_of_mem _ (ih hx)
  | case3 blocks h =>
      rw [mergePass.eq_2 header blocks h]
      exact hx

-- No two neighbours are both free.
def Settled (blocks : List Block) : Prop := blocks.IsChain fun b c => (b.free && c.free) = false

theorem settled_cons {b c : Block} :
    Settled (b :: c :: blocks) ↔ (b.free && c.free) = false ∧ Settled (c :: blocks) :=
  List.isChain_cons_cons

-- A block that is in use after a pass was there before it.
theorem of_used_mergePass {x : Nat × Block} (hused : x.2.free = false)
    (hx : x ∈ placed header a (mergePass header blocks)) : x ∈ placed header a blocks := by
  induction blocks using mergePass.induct generalizing a with
  | case1 b c blocks h ih =>
      rw [mergePass_joined h, placed] at hx
      rcases List.mem_cons.mp hx with rfl | hx
      · cases hused
      · rw [show a + header + (b.size + (c.size + header)) = a + header + b.size + header + c.size
          by omega] at hx
        simp only [placed, List.mem_cons]
        exact Or.inr (Or.inr (ih hx))
  | case2 b c blocks h ih =>
      rw [mergePass_kept h, placed] at hx
      rcases List.mem_cons.mp hx with rfl | hx
      · exact List.mem_cons_self
      · exact List.mem_cons_of_mem _ (ih hx)
  | case3 blocks h => rwa [mergePass.eq_2 header blocks h] at hx

-- A block that is there after a pass begins where one as free as it is began.
theorem exists_of_mem_mergePass {x : Nat × Block} (hx : x ∈ placed header a (mergePass header blocks)) :
    ∃ y ∈ placed header a blocks, y.1 = x.1 ∧ y.2.free = x.2.free := by
  induction blocks using mergePass.induct generalizing a with
  | case1 b c blocks h ih =>
      rw [mergePass_joined h, placed] at hx
      rcases List.mem_cons.mp hx with rfl | hx
      · exact ⟨(a, b), List.mem_cons_self, rfl, ((Bool.and_eq_true _ _).mp h).1⟩
      · rw [show a + header + (b.size + (c.size + header)) = a + header + b.size + header + c.size
          by omega] at hx
        obtain ⟨y, hy, hsame⟩ := ih hx
        simp only [placed, List.mem_cons]
        exact ⟨y, Or.inr (Or.inr hy), hsame⟩
  | case2 b c blocks h ih =>
      rw [mergePass_kept h, placed] at hx
      rcases List.mem_cons.mp hx with rfl | hx
      · exact ⟨(a, b), List.mem_cons_self, rfl, rfl⟩
      · obtain ⟨y, hy, hsame⟩ := ih hx
        exact ⟨y, List.mem_cons_of_mem _ hy, hsame⟩
  | case3 blocks h =>
      rw [mergePass.eq_2 header blocks h] at hx
      exact ⟨x, hx, rfl, rfl⟩

variable (header) in
-- The first block is as free as it was.
theorem head_free_mergePass (blocks : List Block) :
    (mergePass header blocks).head?.map Block.free = blocks.head?.map Block.free := by
  induction blocks using mergePass.induct with
  | case1 b c blocks h _ =>
      rw [mergePass_joined h]
      rw [Bool.and_eq_true] at h
      simp only [List.head?_cons, Option.map_some, h.1]
  | case2 b c blocks h _ =>
      rw [mergePass_kept h]
      rfl
  | case3 blocks h => rw [mergePass.eq_2 header blocks h]

theorem settled_cons_iff {b : Block} : Settled (b :: blocks) ↔
    (b.free = true → blocks.head?.map Block.free ≠ some true) ∧ Settled blocks := by
  cases blocks with
  | nil => exact iff_of_true (List.IsChain.singleton b) ⟨fun _ => nofun, List.IsChain.nil⟩
  | cons c blocks =>
      rw [settled_cons]
      refine and_congr_left fun _ => ?_
      cases b.free <;> cases hc : c.free <;> simp [hc]

-- In terms of the flags alone
theorem settled_iff : Settled blocks ↔ ¬[true, true] <:+: blocks.map Block.free := by
  induction blocks with
  | nil => exact iff_of_true List.IsChain.nil (by simp)
  | cons b blocks ih =>
      rw [settled_cons_iff, ih, List.map_cons, List.infix_cons_iff, List.cons_prefix_cons, not_or]
      refine and_congr_left fun _ => ?_
      cases blocks with
      | nil => simp
      | cons c blocks => cases hb : b.free <;> cases hc : c.free <;> simp [hc]

-- No run of three flags that are all set
def NoThree (flags : List Bool) : Prop := ¬[true, true, true] <:+: flags

theorem noThree_cons {f : Bool} {flags : List Bool} : NoThree (f :: flags) ↔
    ¬([true, true] <+: flags ∧ f = true) ∧ NoThree flags := by
  unfold NoThree
  rw [List.infix_cons_iff, List.cons_prefix_cons, not_or, and_comm (a := true = f), eq_comm (a := true)]

variable (header) in
-- A pass joins pairs, so it leaves neighbours only where there were three in a row.
theorem settled_mergePass_iff :
    Settled (mergePass header blocks) ↔ NoThree (blocks.map Block.free) := by
  induction blocks using mergePass.induct with
  | case1 b c blocks h ih =>
      rw [mergePass_joined h, settled_cons_iff, head_free_mergePass, ih]
      rw [Bool.and_eq_true] at h
      simp only [List.map_cons, noThree_cons, h.1, h.2, List.cons_prefix_cons]
      cases blocks with
      | nil => simp
      | cons d blocks => cases hd : d.free <;> simp [hd]
  | case2 b c blocks h ih =>
      rw [mergePass_kept h, settled_cons_iff, head_free_mergePass, ih]
      simp only [List.map_cons, List.head?_cons, Option.map_some, noThree_cons (f := b.free)]
      refine and_congr_left fun _ => ?_
      cases hb : b.free <;> cases hc : c.free <;> simp_all
  | case3 blocks hshort =>
      rw [mergePass.eq_2 header blocks hshort]
      match blocks, hshort with
      | [], _ => exact iff_of_true List.IsChain.nil (by simp [NoThree])
      | [b], _ =>
          refine iff_of_true (List.IsChain.singleton b) fun hthree => ?_
          exact absurd hthree.length_le (by simp)
      | b :: c :: blocks, hshort => exact absurd rfl (hshort b c blocks)

-- The first block only grows.
theorem head_mergePass {size : Nat} (h : ∃ b rest, blocks = b :: rest ∧ size < b.size) :
    ∃ b rest, mergePass header blocks = b :: rest ∧ size < b.size := by
  obtain ⟨b, rest, rfl, hsize⟩ := h
  cases rest with
  | nil => exact ⟨b, [], rfl, hsize⟩
  | cons c rest =>
      by_cases hfree : (b.free && c.free) = true
      · refine ⟨_, _, mergePass_joined hfree rest, ?_⟩
        simp only
        omega
      · exact ⟨b, _, mergePass_kept hfree rest, hsize⟩

end Merge

end Library.BlockList
