import ToyKernel.Heap.Chain

namespace ToyKernel.Heap

open Library ByteMemory BlockList

variable {m : Memory} {a stop : Nat} {b : Block} {blocks : List Block}

section Search

-- The block the search takes when it gets to it.
def Fits (size : Nat) (b : Block) : Prop := size ≤ b.size ∧ b.free = true

theorem not_fits_of_used (hused : ∀ c ∈ blocks, c.free = false) (size : Nat) :
    ∀ c ∈ blocks, ¬Fits size c :=
  fun c hc hfits => Bool.noConfusion ((hused c hc).symm.trans hfits.2)

theorem exists_stop (hne : blocks ≠ []) (size : Nat) :
    ∃ before b after, blocks = before ++ b :: after ∧ (∀ c ∈ before, ¬Fits size c) ∧
      (Fits size b ∨ after = []) := by
  induction blocks with
  | nil => exact absurd rfl hne
  | cons b blocks ih =>
      by_cases hstop : Fits size b ∨ blocks = []
      · exact ⟨[], b, blocks, rfl, fun c hc => absurd hc List.not_mem_nil, hstop⟩
      · obtain ⟨hpass, hnil⟩ := not_or.mp hstop
        obtain ⟨before, c, after, hsplit, hbefore, hstop⟩ := ih hnil
        refine ⟨b :: before, c, after, by rw [hsplit, List.cons_append], fun d hd => ?_, hstop⟩
        rcases List.mem_cons.mp hd with rfl | hd
        · exact hpass
        · exact hbefore d hd

-- The search goes past blocks that do not fit, and stops at one that does or is the last.
theorem findBlock_stops {before after : List Block} {size steps : Nat}
    (h : Chain m a stop (before ++ b :: after)) (hbefore : ∀ c ∈ before, ¬Fits size c)
    (hstop : Fits size b ∨ after = []) (hsteps : before.length < steps) :
    findBlock m size steps a = some (a + extent 12 before) := by
  induction before generalizing a steps with
  | nil =>
      obtain ⟨steps, rfl⟩ := Nat.exists_eq_succ_of_ne_zero (Nat.ne_of_gt hsteps)
      rw [List.nil_append] at h
      obtain ⟨hsize, hfree, _⟩ := h.head
      simp only at hsize hfree
      rw [findBlock, hsize, hfree, h.nextOf_eq]
      rcases hstop with ⟨hlarge, hfree⟩ | rfl
      · simp [hfree, extent, Nat.not_lt.mpr hlarge]
      · simp [extent]
  | cons c before ih =>
      obtain ⟨steps, rfl⟩ := Nat.exists_eq_succ_of_ne_zero (show steps ≠ 0 by omega)
      rw [List.cons_append] at h
      obtain ⟨hsize, hfree, _⟩ := h.head
      simp only at hsize hfree
      have hpass : c.size < size ∨ (!c.free) = true := by
        by_cases hsmall : c.size < size
        · exact Or.inl hsmall
        · right
          rw [Bool.not_eq_true']
          exact Bool.eq_false_iff.mpr fun hf => hbefore c List.mem_cons_self ⟨by omega, hf⟩
      have hnext : nextOf m a = a + 12 + c.size := h.nextOf_eq.trans (if_neg (by simp))
      rw [findBlock, hsize, hfree, hnext, if_pos ⟨hpass, by omega⟩]
      rw [ih h.tail (fun d hd => hbefore d (List.mem_cons_of_mem _ hd)) (Nat.lt_of_succ_lt_succ hsteps)]
      simp only [extent]
      congr 1
      omega

theorem findBlock_chain (h : Chain m a stop blocks) (hne : blocks ≠ []) (size : Nat) {steps : Nat}
    (hsteps : blocks.length ≤ steps) :
    ∃ before b after, blocks = before ++ b :: after ∧
      findBlock m size steps a = some (a + extent 12 before) ∧ (Fits size b ∨ after = []) := by
  obtain ⟨before, b, after, rfl, hbefore, hstop⟩ := exists_stop hne size
  refine ⟨before, b, after, rfl, findBlock_stops h hbefore hstop ?_, hstop⟩
  simp only [List.length_append, List.length_cons] at hsteps
  omega

-- The loop of malloc_free finds the node of a pointer, unless that is the last one.
theorem findNode_finds {before after : List Block} {steps : Nat}
    (h : Chain m a stop (before ++ b :: after)) (hafter : after ≠ []) (hstop : stop < 4294967296)
    (hsteps : before.length < steps) :
    findNode m (a + extent 12 before + 12) steps a = some (some (a + extent 12 before)) := by
  induction before generalizing a steps with
  | nil =>
      obtain ⟨steps, rfl⟩ := Nat.exists_eq_succ_of_ne_zero (Nat.ne_of_gt hsteps)
      rw [List.nil_append] at h
      have hend := h.tail.le
      have hnext : nextOf m a = a + 12 + b.size := h.nextOf_eq.trans (if_neg hafter)
      have haddress : u32 (a + SIZEOF_BLOCK) = a + 12 := u32_of_lt (by
        change a + 12 < _
        omega)
      rw [findNode, hnext, haddress, if_neg (by omega)]
      exact if_pos rfl
  | cons c before ih =>
      obtain ⟨steps, rfl⟩ := Nat.exists_eq_succ_of_ne_zero (show steps ≠ 0 by omega)
      rw [List.cons_append] at h
      have hend := h.tail.le
      have hnext : nextOf m a = a + 12 + c.size := h.nextOf_eq.trans (if_neg (by simp))
      have haddress : u32 (a + SIZEOF_BLOCK) = a + 12 := u32_of_lt (by
        change a + 12 < _
        omega)
      have haway : a + extent 12 (c :: before) = a + 12 + c.size + extent 12 before := by
        simp only [extent]
        omega
      rw [findNode, hnext, haddress, if_neg (by omega), if_neg (by omega), haway]
      exact ih h.tail (Nat.lt_of_succ_lt_succ hsteps)

theorem findNode_chain (h : Chain m a stop blocks) (hne : blocks ≠ []) (hstop : stop < 4294967296)
    (ptr : Nat) {steps : Nat} (hsteps : blocks.length ≤ steps) :
    findNode m ptr steps a = some none ∨
      ∃ before b after, blocks = before ++ b :: after ∧ after ≠ [] ∧
        ptr = a + extent 12 before + 12 ∧
        findNode m ptr steps a = some (some (a + extent 12 before)) := by
  induction blocks generalizing a steps with
  | nil => exact absurd rfl hne
  | cons b blocks ih =>
      obtain ⟨steps, rfl⟩ := Nat.exists_eq_succ_of_ne_zero (show steps ≠ 0 by
        simp only [List.length_cons] at hsteps
        omega)
      have hend := h.tail.le
      have haddress : u32 (a + SIZEOF_BLOCK) = a + 12 := u32_of_lt (by
        change a + 12 < _
        omega)
      rw [findNode, h.nextOf_eq, haddress]
      by_cases hnil : blocks = []
      · left
        rw [if_pos hnil, if_pos rfl]
      rw [if_neg hnil, if_neg (by omega)]
      by_cases hptr : a + 12 = ptr
      · right
        refine ⟨[], b, blocks, rfl, hnil, ?_, ?_⟩
        · simp only [extent]
          omega
        · rw [if_pos hptr]
          rfl
      · rw [if_neg hptr]
        rcases ih h.tail hnil (Nat.le_of_succ_le_succ hsteps) with
          hlast | ⟨before, c, after, hsplit, hafter, hp, hfound⟩
        · exact Or.inl hlast
        · right
          have haway : a + extent 12 (b :: before) = a + 12 + b.size + extent 12 before := by
            simp only [extent]
            omega
          refine ⟨b :: before, c, after, by rw [hsplit, List.cons_append], hafter, ?_, ?_⟩
          · rw [haway]
            exact hp
          · rw [haway]
            exact hfound

end Search

section Merge

-- How the list of the blocks from `a` on is named: by the null pointer if there are none.
def first (a stop : Nat) : Nat := if a = stop then 0 else a

theorem first_cons (h : Chain m a stop (b :: blocks)) : first a stop = a := by
  have hextent := h.extent_eq
  simp only [extent] at hextent
  exact if_neg (by omega)

theorem nextOf_first (h : Chain m a stop (b :: blocks)) :
    nextOf m a = first (a + 12 + b.size) stop := h.head.2.2

-- Joining the first two blocks of a list.
theorem join_chain {b c : Block} (h : Chain m a stop (b :: c :: blocks)) (hb : b.free = true)
    (hstop : stop < 4294967296) {m' : Memory}
    (hm' : m' = setNext (setSize m a (b.size + (c.size + 12))) a
      (first (a + 12 + b.size + 12 + c.size) stop)) :
    Header m' stop (a, ⟨b.size + (c.size + 12), true⟩) ∧
      Chain m' (a + 12 + b.size + 12 + c.size) stop blocks ∧ ∀ d < a, m' d = m d := by
  have hle := h.tail.tail.le
  have hagree : AgreeOff m m' [a] := by
    rw [hm']
    exact (agreeOff_setSize (List.mem_singleton_self a)).trans
      (agreeOff_setNext (List.mem_singleton_self a))
  have hfirst : first (a + 12 + b.size + 12 + c.size) stop < 4294967296 := by
    unfold first
    split <;> omega
  refine ⟨⟨?_, ?_, ?_⟩, h.tail.tail.agree hagree ?_, fun d hd => hagree d ?_⟩
  · rw [hm', sizeOf_setNext, sizeOf_setSize]
    omega
  · rw [hm', isFree_setNext, isFree_setSize]
    exact h.head.2.1.trans hb
  · rw [hm', nextOf_setNext hfirst]
    simp only [first, show a + 12 + (b.size + (c.size + 12)) = a + 12 + b.size + 12 + c.size by omega]
  · intro n hn
    rw [List.mem_singleton.mp hn]
    omega
  · intro n hn
    rw [List.mem_singleton.mp hn]
    omega

-- What the code writes when it joins the first two blocks
theorem joined_eq {b c : Block} (h : Chain m a stop (b :: c :: blocks)) (hstop : stop < 4294967296) :
    let size := u32 (sizeOf m a + u32 (sizeOf m (a + 12 + b.size) + SIZEOF_BLOCK))
    setNext (setSize m a size) a (nextOf (setSize m a size) (a + 12 + b.size)) =
      setNext (setSize m a (b.size + (c.size + 12))) a (first (a + 12 + b.size + 12 + c.size) stop) := by
  intro size
  have hle := h.tail.tail.le
  have hsize : size = b.size + (c.size + 12) := by
    have hb : sizeOf m a = b.size := h.head.1
    have hc : sizeOf m (a + 12 + b.size) = c.size := h.tail.head.1
    have hpad : SIZEOF_BLOCK = 12 := rfl
    change u32 (sizeOf m a + u32 (sizeOf m (a + 12 + b.size) + SIZEOF_BLOCK)) = _
    rw [hb, hc, hpad, u32_of_lt (show c.size + 12 < 4294967296 by omega), u32_of_lt (by omega)]
  have hbehind : nextOf (setSize m a size) (a + 12 + b.size) =
      first (a + 12 + b.size + 12 + c.size) stop := by
    have hagree : AgreeOff m (setSize m a size) [a] := agreeOff_setSize (List.mem_singleton_self a)
    rw [← nextOf_first h.tail]
    apply (hagree.fields (a + 12 + b.size) _).2.2
    intro n hn
    rw [List.mem_singleton.mp hn]
    omega
  rw [hbehind, hsize]

theorem isFree_both {b c : Block} (h : Chain m a stop (b :: c :: blocks)) :
    (isFree m a && isFree m (a + 12 + b.size)) = (b.free && c.free) := by
  rw [show isFree m a = b.free from h.head.2.1, show isFree m (a + 12 + b.size) = c.free from h.tail.head.2.1]

-- One round of the pass at two neighbours that are both free.
theorem mergeFrom_joined {b c : Block} (h : Chain m a stop (b :: c :: blocks)) (ha : 0 < a)
    (hfree : (b.free && c.free) = true) (hstop : stop < 4294967296) (steps : Nat) :
    mergeFrom (steps + 1) m a =
      mergeFrom steps (setNext (setSize m a (b.size + (c.size + 12))) a
        (first (a + 12 + b.size + 12 + c.size) stop)) (first (a + 12 + b.size + 12 + c.size) stop) := by
  have hle := h.tail.tail.le
  have hnext := nextOf_first h
  rw [first_cons h.tail] at hnext
  have hjoined := joined_eq h hstop
  have hfirst : first (a + 12 + b.size + 12 + c.size) stop < 4294967296 := by
    unfold first
    split <;> omega
  have hboth := (isFree_both h).trans hfree
  rw [mergeFrom, if_pos ⟨by omega, by rw [hnext]; omega⟩]
  simp only [hnext, hboth, ite_true, nextOf_setSize]
  rw [hjoined, nextOf_setNext hfirst]

-- One round at two neighbours that are not.
theorem mergeFrom_kept {b c : Block} (h : Chain m a stop (b :: c :: blocks)) (ha : 0 < a)
    (hfree : ¬(b.free && c.free) = true) (steps : Nat) :
    mergeFrom (steps + 1) m a = mergeFrom steps m (first (a + 12 + b.size) stop) := by
  have hnext := nextOf_first h
  have hneither : ¬(isFree m a && isFree m (a + 12 + b.size)) = true := by rwa [isFree_both h]
  rw [first_cons h.tail] at hnext ⊢
  rw [mergeFrom, if_pos ⟨by omega, by rw [hnext]; omega⟩]
  simp only [hnext, hneither, Bool.false_eq_true, ite_false]

-- The pass is over at the last block.
theorem mergeFrom_done (h : Chain m a stop blocks) (hshort : ∀ b c rest, blocks = b :: c :: rest → False)
    (steps : Nat) :
    mergeFrom (steps + 1) m (first a stop) = some m := by
  rw [mergeFrom]
  apply if_neg
  intro hcond
  have hextent := h.extent_eq
  cases blocks with
  | nil =>
      simp only [extent] at hextent
      exact hcond.1 (if_pos hextent)
  | cons b rest =>
      cases rest with
      | nil =>
          simp only [extent] at hextent
          rw [first_cons h, nextOf_first h] at hcond
          exact hcond.2 (if_pos (by omega))
      | cons c rest => exact hshort b c rest rfl

-- The pass over the list in memory is the pass over the blocks.
theorem mergeFrom_chain (h : Chain m a stop blocks) (ha : 0 < a) (hstop : stop < 4294967296)
    (steps : Nat) (hsteps : blocks.length < steps) :
    ∃ m', mergeFrom steps m (first a stop) = some m' ∧ Chain m' a stop (mergePass 12 blocks) ∧
      ∀ c < a, m' c = m c := by
  induction blocks using mergePass.induct generalizing m a steps with
  | case1 b c blocks hfree ih =>
      obtain ⟨steps, rfl⟩ := Nat.exists_eq_succ_of_ne_zero (show steps ≠ 0 by omega)
      simp only [List.length_cons] at hsteps
      have hb : b.free = true := (Bool.and_eq_true _ _ ▸ hfree).1
      obtain ⟨hjoined, hrest, hbelow⟩ := join_chain h hb hstop rfl
      obtain ⟨m', hmerge, hchain, hsame⟩ := ih hrest (by omega) steps (by omega)
      rw [first_cons h, Nat.succ_eq_add_one, mergeFrom_joined h ha hfree hstop, mergePass_joined hfree]
      refine ⟨m', hmerge, ⟨fun x hx => ?_, ?_⟩, fun d hd => ?_⟩
      · rcases List.mem_cons.mp hx with rfl | hx
        · exact hjoined.congr fun d _ hd => hsame d (by
            simp only at hd
            omega)
        · apply hchain.headers
          rwa [show a + 12 + (b.size + (c.size + 12)) = a + 12 + b.size + 12 + c.size by omega] at hx
      · have hextent := hchain.extent_eq
        simp only [extent]
        omega
      · rw [hsame d (by omega), hbelow d hd]
  | case2 b c blocks hfree ih =>
      obtain ⟨steps, rfl⟩ := Nat.exists_eq_succ_of_ne_zero (show steps ≠ 0 by omega)
      simp only [List.length_cons] at hsteps
      obtain ⟨m', hmerge, hchain, hsame⟩ := ih h.tail (by omega) steps (by
        simp only [List.length_cons]
        omega)
      rw [first_cons h, Nat.succ_eq_add_one, mergeFrom_kept h ha hfree, mergePass_kept hfree]
      refine ⟨m', hmerge, ⟨fun x hx => ?_, ?_⟩, fun d hd => hsame d (by omega)⟩
      · rcases List.mem_cons.mp hx with rfl | hx
        · exact h.head.congr fun d _ hd => hsame d (by
            simp only at hd
            omega)
        · exact hchain.headers x hx
      · have hextent := hchain.extent_eq
        simp only [extent]
        omega
  | case3 blocks hshort =>
      obtain ⟨steps, rfl⟩ := Nat.exists_eq_succ_of_ne_zero (show steps ≠ 0 by omega)
      rw [mergePass.eq_2 12 blocks hshort]
      exact ⟨m, mergeFrom_done h hshort steps, h, fun _ _ => rfl⟩

-- Where no two neighbours are both free, the pass writes nothing.
theorem mergeFrom_settled (h : Chain m a stop blocks) (ha : 0 < a) (hsettled : Settled blocks)
    {steps : Nat} (hsteps : blocks.length < steps) : mergeFrom steps m (first a stop) = some m := by
  induction blocks generalizing a steps with
  | nil =>
      obtain ⟨steps, rfl⟩ := Nat.exists_eq_succ_of_ne_zero (Nat.ne_of_gt hsteps)
      rw [mergeFrom, show first a stop = 0 from if_pos h.extent_eq, if_neg fun hc => hc.1 rfl]
  | cons b blocks ih =>
      obtain ⟨steps, rfl⟩ := Nat.exists_eq_succ_of_ne_zero (show steps ≠ 0 by omega)
      rw [first_cons h, mergeFrom]
      by_cases hnil : blocks = []
      · rw [if_neg fun hc => hc.2 (h.nextOf_eq.trans (if_pos hnil))]
      · obtain ⟨c, rest, rfl⟩ := List.exists_cons_of_ne_nil hnil
        have hnext : nextOf m a = a + 12 + b.size := h.nextOf_eq.trans (if_neg hnil)
        have hapart : (isFree m a && isFree m (a + 12 + b.size)) = false := by
          rw [show isFree m a = b.free from h.head.2.1,
            show isFree m (a + 12 + b.size) = c.free from h.tail.head.2.1]
          exact (settled_cons.mp hsettled).1
        have hrest := ih h.tail (by omega) (settled_cons.mp hsettled).2 (Nat.lt_of_succ_lt_succ hsteps)
        rw [first_cons h.tail] at hrest
        rw [if_pos ⟨by omega, by omega⟩]
        simp only [hnext, hapart, Bool.false_eq_true, ite_false]
        exact hrest

section Pass

variable {h : Heap}

theorem Chain.length_lt (hc : Chain m a stop blocks) (hstop : stop < 4294967296) :
    blocks.length < LIST_STEPS := by
  have hlength := length_le_extent blocks
  have hextent := hc.extent_eq
  change blocks.length < 4294967296
  omega

theorem mergeFreeBlocks_chain (hc : Chain h.bytes a stop blocks) (hhead : h.mallocListHead = first a stop)
    (ha : 0 < a) (hstop : stop < 4294967296) : ∃ m, h.mergeFreeBlocks = .ok { h with bytes := m } ∧
      Chain m a stop (mergePass 12 blocks) := by
  obtain ⟨m, hmerge, hchain, -⟩ := mergeFrom_chain hc ha hstop LIST_STEPS (hc.length_lt hstop)
  refine ⟨m, ?_, hchain⟩
  unfold mergeFreeBlocks
  rw [hhead, hmerge]
  rfl

theorem mergeFreeBlocks_of_settled (hc : Chain h.bytes a stop blocks)
    (hhead : h.mallocListHead = first a stop) (ha : 0 < a) (hstop : stop < 4294967296)
    (hsettled : Settled blocks) : h.mergeFreeBlocks = .ok h := by
  have hmerge := mergeFrom_settled hc ha hsettled (hc.length_lt hstop)
  rw [← hhead] at hmerge
  unfold mergeFreeBlocks
  rw [hmerge]
  rfl

end Pass

end Merge

end ToyKernel.Heap
