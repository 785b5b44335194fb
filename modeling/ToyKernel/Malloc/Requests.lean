import ToyKernel.Malloc.Growing

namespace ToyKernel.Malloc

open Library ByteMemory BlockList
open Heap (fault ok_of_fault LIST_STEPS)

section Pages

variable {old size n : Nat}

-- The pages, at least one, that a block of `old` bytes lacks for `size` bytes and a header
def pagesNeeded (old size : Nat) : Nat := max 1 ((size + SIZEOF_BLOCK - old + (PAGE_SIZE - 1)) / PAGE_SIZE)

theorem pagesNeeded_pos (old size : Nat) : 1 ≤ pagesNeeded old size := Nat.le_max_left ..

theorem pagesNeeded_enough (old size : Nat) : size + 12 ≤ old + pagesNeeded old size * 4096 := by
  change size + 12 ≤ old + max 1 ((size + 12 - old + 4095) / 4096) * 4096
  omega

theorem pagesNeeded_le (hpos : 1 ≤ n) (henough : size + 12 ≤ old + n * 4096) : pagesNeeded old size ≤ n := by
  change max 1 ((size + 12 - old + 4095) / 4096) ≤ n
  omega

theorem numPages_some (h : numPages old size = some n) :
    n ≤ 255 ∧ u32 (size + 12) ≤ u32 (old + n * 4096) := by
  have hmem := List.mem_of_find?_eq_some h
  have hfits := List.find?_some h
  simp only [List.mem_map, List.mem_range, decide_eq_true_eq] at hmem hfits
  obtain ⟨i, -, rfl⟩ := hmem
  exact ⟨by omega, hfits⟩

-- The loop ends at the least number of pages, while 8 bits and 32 bits are enough.
theorem numPages_eq (hbyte : pagesNeeded old size ≤ 255)
    (hword : old + pagesNeeded old size * 4096 < 4294967296) :
    numPages old size = some (pagesNeeded old size) := by
  have hpos := pagesNeeded_pos old size
  have henough := pagesNeeded_enough old size
  have hindex : (pagesNeeded old size - 1 + 1) % 256 = pagesNeeded old size := by omega
  unfold numPages
  rw [List.find?_map, Option.map_eq_some_iff]
  refine ⟨pagesNeeded old size - 1, List.find?_range_eq_some.mpr ⟨?_, ?_, fun j hj => ?_⟩, hindex⟩
  · rw [Function.comp_apply, hindex, decide_eq_true_eq]
    change (size + 12) % 4294967296 ≤ (old + pagesNeeded old size * 4096) % 4294967296
    omega
  · rw [List.mem_range]
    omega
  · have hless : ¬size + 12 ≤ old + (j + 1) * 4096 := by
      intro hle
      have hleast := pagesNeeded_le (show 1 ≤ j + 1 by omega) hle
      omega
    rw [Function.comp_apply, Bool.not_eq_true', decide_eq_false_iff_not, Nat.mod_eq_of_lt (by omega)]
    change ¬(size + 12) % 4294967296 ≤ (old + (j + 1) * 4096) % 4294967296
    omega

theorem eq_of_numPages (hsize : size + 12 < 4294967296) (hold : old < 2147483648)
    (h : numPages old size = some n) : n = pagesNeeded old size := by
  obtain ⟨hbyte, hfits⟩ := numPages_some h
  have hle : size + 12 ≤ old + n * 4096 := by
    unfold u32 at hfits
    omega
  have hleast : pagesNeeded old size ≤ max 1 n :=
    pagesNeeded_le (Nat.le_max_left ..) (Nat.le_trans hle (by omega))
  have hsame := @numPages_eq old size (by omega) (by omega)
  exact Option.some.inj (h.symm.trans hsame)

-- malloc_init takes enough pages but for one; where it wraps round, more pages are lacking
-- than can be counted.
theorem pagesNeeded_initial (hsize : size + 12 < 4294967296)
    (hbyte : pagesNeeded (Heap.initialPages size * 4096 - 12) size ≤ 255) :
    pagesNeeded (Heap.initialPages size * 4096 - 12) size ≤ 1 := by
  have hpages : (size + 4095 < 4294967296 → size ≤ Heap.initialPages size * 4096) ∧
      (4294967296 ≤ size + 4095 → Heap.initialPages size ≤ 1) := by
    change (_ → size ≤ ((size + 4095) % 4294967296 / 4096 + if size % 4096 > 0 then 1 else 0) * 4096) ∧
      (_ → (size + 4095) % 4294967296 / 4096 + (if size % 4096 > 0 then 1 else 0) ≤ 1)
    split <;> omega
  have henough := pagesNeeded_enough (Heap.initialPages size * 4096 - 12) size
  apply pagesNeeded_le (Nat.le_refl 1)
  generalize pagesNeeded (Heap.initialPages size * 4096 - 12) size = n at hbyte henough
  generalize Heap.initialPages size = pages at hpages henough ⊢
  rcases Nat.lt_or_ge (size + 4095) 4294967296 with hlt | hge
  · have hle := hpages.1 hlt
    clear hpages henough
    omega
  · have hle := hpages.2 hge
    have hmore : n * 4096 ≤ 1044480 := by omega
    have hfew : pages * 4096 - 12 ≤ 4084 := by omega
    clear hpages hle hbyte
    exact absurd henough (by omega)

end Pages

-- The search would stop at a node that is not the last and exceeds the request by a header
-- or less: it would grow into its neighbour.
def Slack (M : Malloc) (size : Nat) : Prop :=
  M.mallocListHead ≠ 0 ∧ ∃ cur old next, M.findBlock size LIST_STEPS M.mallocListHead = .ok cur ∧
    M.sizeAt cur = .ok old ∧ M.nextAt cur = .ok next ∧ next ≠ 0 ∧ size < old ∧ old ≤ size + SIZEOF_BLOCK

-- Where the search ends at a node that must grow by no more pages than the code can count,
-- the PMM has a frame for each of them and for each table that they lack.
def Grows (M : Malloc) (size : Nat) : Prop :=
  ∀ cur old, M.findBlock size LIST_STEPS M.mallocListHead = .ok cur → M.sizeAt cur = .ok old →
    size ≠ old → old ≤ size + SIZEOF_BLOCK → pagesNeeded old size ≤ 255 →
      M.kernel.pmm.Supplies
        (pagesNeeded old size + M.kernel.tablesMissing M.nextVirt (pagesNeeded old size))

-- The page that is lacking where the first block is neither the request nor more than that and
-- a header
def furtherPages (size : Nat) : Nat :=
  if size ≠ Heap.initialPages size * PAGE_SIZE - SIZEOF_BLOCK ∧
    Heap.initialPages size * PAGE_SIZE - SIZEOF_BLOCK ≤ size + SIZEOF_BLOCK then 1 else 0

-- The PMM has what the request takes. The first one makes the heap, in one block of frames
-- that ends below the top of the address space, and may need another page at once.
def Supplied (M : Malloc) (size : Nat) : Prop :=
  if M.mallocListHead = 0 then
    Heap.initialPages size ≤ 192511 ∧ (M.kernel.pmm.allocateBlock (Heap.initialPages size)).1 ≠ 0 ∧
      (M.kernel.pmm.allocateBlock (Heap.initialPages size)).2.Supplies (furtherPages size +
        M.kernel.tablesMissing KERNEL_HEAP_START (Heap.initialPages size + furtherPages size))
  else M.Grows size

variable {g : Ground} {M M' : Malloc} {h : Heap} {frame : Nat → Nat} {blocks before after : List Block} {b : Block}
  {size : Nat}

theorem Shows.nextVirt_eq (hs : Shows g M h frame) (hst : Heap.Tidy h blocks) : M.nextVirt = h.heapEnd := by
  have hlt := hst.heapEnd_lt
  unfold Heap.heapEnd at hlt
  unfold nextVirt
  rw [← hs.pages, u32_of_lt (show h.totalMallocPages * PAGE_SIZE < 4294967296 by omega), u32_of_lt hlt]
  rfl

section Taking

-- The last block grows by the pages it needs and is split then.
theorem grown_shows (hs : Shows g M h frame) (hst : Heap.Tidy h (before ++ [b])) (hlo : 1 ≤ size)
    (hsupplies : M.kernel.pmm.Supplies
      (pagesNeeded b.size size + M.kernel.tablesMissing M.nextVirt (pagesNeeded b.size size)))
    {grown : Malloc}
    (hgrow : growPages (pagesNeeded b.size size) M (KERNEL_HEAP_START + extent 12 before) M.nextVirt = .ok grown)
    (hsplit : grown.mallocSplit (KERNEL_HEAP_START + extent 12 before) size = .ok M') :
    ∃ h' frame', Shows g M' h' frame' ∧
      Heap.Tidy h' (before ++ [⟨size, false⟩, ⟨b.size + pagesNeeded b.size size * 4096 - size - 12, true⟩]) ∧
      h.heapEnd ≤ h'.heapEnd := by
  rw [hs.nextVirt_eq hst] at hsupplies hgrow
  obtain ⟨h₁, frame₁, hs₁, hst₁⟩ := growPages_shows hs hst hsupplies hgrow
  have henough := pagesNeeded_enough b.size size
  obtain ⟨hstart, -⟩ := node_inside hst
  obtain ⟨-, hend⟩ := node_inside hst₁
  simp only at hend
  have hgrown : h.heapEnd ≤ h₁.heapEnd := by
    have hextent := hst.chain.extent_eq
    have hextent₁ := hst₁.chain.extent_eq
    rw [extent_append] at hextent hextent₁
    simp only [extent] at hextent hextent₁
    omega
  obtain ⟨M₁, hsplit', hs'⟩ := hs₁.mallocSplit hstart
    (show _ + size + 12 ≤ h₁.heapEnd by omega) hst₁.heapEnd_lt
  obtain rfl := Except.ok.inj (hsplit'.symm.trans hsplit)
  exact ⟨_, frame₁, hs', hst₁.split hlo henough, hgrown⟩

-- The three ways of taking the block at which the search stopped
theorem takeBlock_shows (hs : Shows g M h frame) (hst : Heap.Tidy h (before ++ b :: after))
    (hlo : 1 ≤ size) (hhi : size + 12 < 4294967296) (hstop : Heap.Fits size b ∨ after = [])
    (hslack : after ≠ [] → ¬(size < b.size ∧ b.size ≤ size + 12))
    (hsupplies : size ≠ b.size → b.size ≤ size + 12 → pagesNeeded b.size size ≤ 255 →
      M.kernel.pmm.Supplies
        (pagesNeeded b.size size + M.kernel.tablesMissing M.nextVirt (pagesNeeded b.size size)))
    (ht : M.takeBlock (KERNEL_HEAP_START + extent 12 before) size = .ok M') :
    ∃ h' frame' extra, Shows g M' h' frame' ∧
      Heap.Tidy h' (before ++ ⟨size, false⟩ :: (extra ++ after)) ∧
      Heap.Carved before after b size extra ∧ h.heapEnd ≤ h'.heapEnd := by
  obtain ⟨hstart, hend⟩ := node_inside hst
  have hsize : sizeOf h.bytes (KERNEL_HEAP_START + extent 12 before) = b.size := hst.chain.headerAt.1
  have hread := hs.sizeAt hstart (by omega)
  rw [hsize] at hread
  unfold takeBlock at ht
  rw [hread, Kernel.ok_bind] at ht
  by_cases hexact : size = b.size
  · subst hexact
    rw [if_pos rfl] at ht
    obtain ⟨M₁, hput, hs₁⟩ := hs.putFree hstart (by omega) false
    obtain rfl := Except.ok.inj (hput.symm.trans ht)
    exact ⟨_, frame, [], hs₁, hst.take hlo,
      ⟨hstop, fun c hc => absurd hc List.not_mem_nil, fun _ => rfl⟩, Nat.le_refl _⟩
  have hlimit : u32 (size + SIZEOF_BLOCK) = size + 12 := u32_of_lt hhi
  rw [if_neg hexact, hlimit] at ht
  by_cases hlarge : b.size > size + 12
  · rw [if_pos hlarge] at ht
    obtain ⟨M₁, hsplit, hs₁⟩ := hs.mallocSplit hstart (show _ + size + 12 ≤ h.heapEnd by omega) hst.heapEnd_lt
    obtain rfl := Except.ok.inj (hsplit.symm.trans ht)
    refine ⟨_, frame, [⟨b.size - size - 12, true⟩], hs₁,
      hst.split hlo (by omega),
      ⟨hstop, fun c hc => by rw [List.mem_singleton.mp hc], fun _ => ?_⟩, Nat.le_refl _⟩
    simp only [extent]
    omega
  obtain rfl := Heap.last_of_grows hstop hslack hexact hlarge
  rw [if_neg hlarge] at ht
  cases hcount : numPages b.size size with
  | none =>
      rw [hcount] at ht
      cases ht
  | some count =>
      rw [hcount] at ht
      obtain ⟨grown, hgrow, hsplit⟩ := exists_of_bind ht
      have hneeded := eq_of_numPages hhi hst.size_lt hcount
      have hbyte := (numPages_some hcount).1
      rw [hneeded] at hgrow hbyte
      obtain ⟨h', frame', hs', hst', hgrown⟩ :=
        grown_shows hs hst hlo (hsupplies hexact (by omega) hbyte) hgrow hsplit
      exact ⟨h', frame', [⟨b.size + pagesNeeded b.size size * 4096 - size - 12, true⟩], hs', hst',
        ⟨hstop, fun c hc => by rw [List.mem_singleton.mp hc], fun hne => absurd rfl hne⟩, hgrown⟩

end Taking

section Search

theorem Shows.search (hs : Shows g M h frame) (hst : Heap.Tidy h blocks) (size : Nat) :
    ∃ before b after, blocks = before ++ b :: after ∧ (Heap.Fits size b ∨ after = []) ∧
      M.findBlock size LIST_STEPS M.mallocListHead = .ok (KERNEL_HEAP_START + extent 12 before) := by
  obtain ⟨before, b, after, rfl, hfound, hstop⟩ :=
    Heap.findBlock_chain hst.chain hst.ne_nil size (Nat.le_of_lt hst.length_lt)
  refine ⟨before, b, after, rfl, hstop, ?_⟩
  rw [← hs.head, hst.head_eq]
  exact hs.findBlock hst.chain (Nat.le_refl _) hst.ne_nil hfound

theorem Shows.sizeAt_block (hs : Shows g M h frame) (hst : Heap.Tidy h (before ++ b :: after)) :
    M.sizeAt (KERNEL_HEAP_START + extent 12 before) = .ok b.size := by
  obtain ⟨hlo, hhi⟩ := node_inside hst
  rw [hs.sizeAt hlo (by omega)]
  exact congrArg Except.ok hst.chain.headerAt.1

theorem Shows.head_eq (hs : Shows g M h frame) (hst : Heap.Tidy h blocks) :
    M.mallocListHead = KERNEL_HEAP_START := hs.head.symm.trans hst.head_eq

theorem Shows.head_ne (hs : Shows g M h frame) (hst : Heap.Tidy h blocks) : M.mallocListHead ≠ 0 := by
  rw [hs.head_eq hst]
  decide

-- The first block is not empty, so there is no second malloc_init.
theorem Shows.head_pos (hs : Shows g M h frame) (hst : Heap.Tidy h blocks) :
    ∃ old, M.sizeAt M.mallocListHead = .ok old ∧ old ≠ 0 := by
  obtain ⟨c, rest, rfl, hpos⟩ := hst.head_pos
  refine ⟨c.size, ?_, by omega⟩
  rw [hs.head_eq hst]
  exact @Shows.sizeAt_block _ _ _ _ [] _ _ hs hst

theorem not_slack_block (hs : Shows g M h frame) (hst : Heap.Tidy h (before ++ b :: after))
    (hfound : M.findBlock size LIST_STEPS M.mallocListHead = .ok (KERNEL_HEAP_START + extent 12 before))
    (hslack : ¬M.Slack size) (hne : after ≠ []) : ¬(size < b.size ∧ b.size ≤ size + 12) := by
  obtain ⟨hlo, hhi⟩ := node_inside hst
  intro hc
  exact hslack ⟨hs.head_ne hst, _, b.size, _, hfound, hs.sizeAt_block hst, hs.nextAt hlo (by omega),
    hst.chain.nextOf_ne_zero hne, hc⟩

end Search

section Requests

theorem mallocNextBlock_shows {r : Nat × Malloc} (hs : Shows g M h frame) (hst : Heap.Tidy h blocks)
    (hlo : 1 ≤ size) (hhi : size + 12 < 4294967296) (hslack : ¬M.Slack size) (hgrows : M.Grows size)
    (hr : M.mallocNextBlock size = .ok r) :
    ∃ before b after extra h' frame', blocks = before ++ b :: after ∧
      r.1 = KERNEL_HEAP_START + extent 12 before + 12 ∧ Shows g r.2 h' frame' ∧
      Heap.Tidy h' (before ++ ⟨size, false⟩ :: (extra ++ after)) ∧
      Heap.Carved before after b size extra ∧ h.heapEnd ≤ h'.heapEnd := by
  obtain ⟨before, b, after, rfl, hstop, hfound⟩ := hs.search hst size
  obtain ⟨first, hfirst, hpos⟩ := hs.head_pos hst
  have hnonzero : ¬size = 0 := by omega
  unfold mallocNextBlock at hr
  simp only [hnonzero, ite_false, hfirst, Kernel.ok_bind, hpos, Kernel.pure_bind, hfound] at hr
  obtain ⟨M₁, htake, hdone⟩ := exists_of_bind hr
  obtain rfl := Except.ok.inj hdone
  have hread := hs.sizeAt_block hst
  obtain ⟨h', frame', extra, hs', hst', hcarved⟩ := takeBlock_shows hs hst hlo hhi hstop
    (not_slack_block hs hst hfound hslack) (hgrows _ _ hfound hread) htake
  exact ⟨before, b, after, extra, h', frame', rfl, Heap.pointer_eq hst.toStands, hs', hst', hcarved⟩

-- SYS_MALLOC, once there is a heap
theorem syscallMalloc_shows {r : Nat × Malloc} (hs : Shows g M h frame) (hst : Heap.Tidy h blocks)
    (hlo : 1 ≤ size) (hhi : size + 12 < 4294967296) (hslack : ¬M.Slack size) (hgrows : M.Grows size)
    (hr : M.syscallMalloc size = .ok r) :
    ∃ before b after extra h' frame', blocks = before ++ b :: after ∧
      r.1 = KERNEL_HEAP_START + extent 12 before + 12 ∧ Shows g r.2 h' frame' ∧
      Heap.Tidy h' (mergePass 12 (before ++ ⟨size, false⟩ :: (extra ++ after))) ∧
      Heap.Carved before after b size extra ∧ h.heapEnd ≤ h'.heapEnd ∧ r.1 + size ≤ h'.heapEnd := by
  have hhead := hs.head_ne hst
  unfold Malloc.syscallMalloc at hr
  simp only [hhead, ite_false, Kernel.pure_bind] at hr
  obtain ⟨⟨ptr, M₁⟩, hnext, hrest⟩ := exists_of_bind hr
  obtain ⟨M₂, hmerge, hdone⟩ := exists_of_bind hrest
  obtain rfl := Except.ok.inj hdone
  obtain ⟨before, b, after, extra, h₁, frame₁, hsplit, hptr, hs₁, hst₁, hcarved, hgrown⟩ :=
    mallocNextBlock_shows hs hst hlo hhi hslack hgrows hnext
  have hpayload : ptr + size ≤ h₁.heapEnd := by
    have hend := hst₁.chain.end_le
    simp only at hend hptr
    omega
  obtain ⟨M', m, hmerged, hs', hst'⟩ := hs₁.mergeFreeBlocks hst₁
  obtain rfl := Except.ok.inj (hmerged.symm.trans hmerge)
  exact ⟨before, b, after, extra, _, frame₁, hsplit, hptr, hs', hst', hcarved, hgrown, hpayload⟩

-- The heap that malloc_init makes for a request has one block, which lacks one page at most.
theorem initial_grows (hs : Shows g M h frame)
    (hst : Heap.Tidy h [⟨Heap.initialPages size * 4096 - 12, true⟩]) (hhi : size + 12 < 4294967296)
    (hsupplies : M.kernel.pmm.Supplies
      (furtherPages size + M.kernel.tablesMissing h.heapEnd (furtherPages size))) :
    ¬M.Slack size ∧ M.Grows size := by
  have hst₀ : Heap.Tidy h ([] ++ ⟨Heap.initialPages size * 4096 - 12, true⟩ :: []) := hst
  obtain ⟨before, b, after, hsplit, -, hfound⟩ := hs.search hst size
  obtain ⟨rfl, rfl⟩ := Heap.eq_nil_of_singleton hsplit
  obtain rfl := (List.cons_eq_cons.mp hsplit).1
  have hread := hs.sizeAt_block hst₀
  obtain ⟨hlo, hend⟩ := node_inside hst₀
  refine ⟨fun ⟨_, cur, old, next, hcur, _, hnext, hne, _⟩ => ?_, fun cur old hcur hold hneq hsmall hbyte => ?_⟩
  · obtain rfl := Except.ok.inj (hfound.symm.trans hcur)
    rw [hs.nextAt hlo (by omega)] at hnext
    obtain rfl := Except.ok.inj hnext
    exact hne hst₀.chain.nextOf_last
  · obtain rfl := Except.ok.inj (hfound.symm.trans hcur)
    obtain rfl := Except.ok.inj (hread.symm.trans hold)
    have hone : pagesNeeded (Heap.initialPages size * 4096 - 12) size = 1 :=
      Nat.le_antisymm (pagesNeeded_initial hhi hbyte) (pagesNeeded_pos _ _)
    have hfurther : furtherPages size = 1 := if_pos ⟨hneq, hsmall⟩
    rw [hfurther, ← hs.nextVirt_eq hst] at hsupplies
    rwa [hone]

-- The first SYS_MALLOC makes the heap and then goes on as the others do.
theorem syscallMalloc_init {M₀ : Malloc} (hnull : M.mallocListHead = 0) (hinit : M.mallocInit size = .ok M₀)
    (hhead : M₀.mallocListHead ≠ 0) : M.syscallMalloc size = M₀.syscallMalloc size := by
  unfold Malloc.syscallMalloc
  simp only [hnull, hhead, ite_true, ite_false, hinit, Kernel.ok_bind, Kernel.pure_bind]

theorem exists_init {r : Nat × Malloc} (hnull : M.mallocListHead = 0) (hr : M.syscallMalloc size = .ok r) :
    ∃ M₀, M.mallocInit size = .ok M₀ := by
  unfold Malloc.syscallMalloc at hr
  simp only [hnull, ite_true] at hr
  obtain ⟨M₀, hinit, -⟩ := exists_of_bind hr
  exact ⟨M₀, hinit⟩

theorem syscallMalloc_first {r : Nat × Malloc} (hb : Backed g M.kernel frame KERNEL_HEAP_START)
    (hnull : M.mallocListHead = 0) (hlo : 1 ≤ size) (hhi : size + 12 < 4294967296)
    (hsupplied : M.Supplied size) (hr : M.syscallMalloc size = .ok r) :
    ∃ extra h' frame', r.1 = KERNEL_HEAP_START + 12 ∧ Shows g r.2 h' frame' ∧
      Heap.Tidy h' (mergePass 12 (⟨size, false⟩ :: extra)) ∧ (∀ c ∈ extra, c.free = true) ∧
      r.1 + size ≤ h'.heapEnd := by
  unfold Supplied at hsupplied
  rw [if_pos hnull] at hsupplied
  obtain ⟨hend, hblock, hsupplies⟩ := hsupplied
  obtain ⟨M₀, hinit⟩ := exists_init hnull hr
  obtain ⟨h₀, frame₀, hs₀, hst₀, hsupplies₀⟩ :=
    mallocInit_shows hb hlo (by omega) hend hblock hsupplies hinit
  rw [syscallMalloc_init hnull hinit (hs₀.head_ne hst₀)] at hr
  obtain ⟨hslack, hgrows⟩ := initial_grows hs₀ hst₀ hhi hsupplies₀
  obtain ⟨before, c, after, extra, h', frame', hsplit, hptr, hs', hst', hcarved, -, hpayload⟩ :=
    syscallMalloc_shows hs₀ hst₀ hlo hhi hslack hgrows hr
  obtain ⟨rfl, rfl⟩ := Heap.eq_nil_of_singleton hsplit
  rw [List.nil_append, List.append_nil] at hst'
  exact ⟨extra, h', frame', hptr, hs', hst', hcarved.extra_free, hpayload⟩

-- A request of no bytes only merges.
theorem Shows.syscallMalloc_zero (hs : Shows g M h frame) (hst : Heap.Tidy h blocks) :
    ∃ M' m, M.syscallMalloc 0 = .ok (0, M') ∧ M.mergeFreeBlocks = .ok M' ∧
      Shows g M' { h with bytes := m } frame ∧ Heap.Tidy { h with bytes := m } (mergePass 12 blocks) := by
  obtain ⟨M', m, hmerge, hs', hst'⟩ := hs.mergeFreeBlocks hst
  have hhead := hs.head_ne hst
  refine ⟨M', m, ?_, hmerge, hs', hst'⟩
  unfold Malloc.syscallMalloc mallocNextBlock
  simp only [hhead, ite_true, ite_false, Kernel.pure_bind, hmerge, Kernel.ok_bind]
  rfl

end Requests

end ToyKernel.Malloc
