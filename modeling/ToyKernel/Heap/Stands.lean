import ToyKernel.Heap.Pages
import ToyKernel.Heap.Walk

namespace ToyKernel.Heap

open Library ByteMemory BlockList

-- The address behind the last page.
def heapEnd (h : Heap) : Nat := KERNEL_HEAP_START + h.totalMallocPages * PAGE_SIZE

-- The heap stands: its list tiles its pages, the first block is not empty, and every page
-- is counted among the frames in use; the pages end below the top of the address space.
structure Stands (h : Heap) (blocks : List Block) : Prop where
  head_eq : h.mallocListHead = KERNEL_HEAP_START
  chain : Chain h.bytes KERNEL_HEAP_START h.heapEnd blocks
  counted : h.totalMallocPages ≤ h.kernel.used
  bounded : h.totalMallocPages ≤ 192511
  head_pos : ∃ b rest, blocks = b :: rest ∧ 0 < b.size

variable {h h' : Heap} {blocks before after : List Block} {b : Block}

theorem Stands.heapEnd_lt (hs : Stands h blocks) : h.heapEnd < 4294967296 := by
  have hbounded := hs.bounded
  change 3506438144 + h.totalMallocPages * 4096 < _
  omega

theorem Stands.size_lt (hs : Stands h (before ++ b :: after)) : b.size < 2147483648 := by
  have hend := hs.chain.end_le
  have hbounded := hs.bounded
  change 3506438144 + extent 12 before + 12 + b.size ≤ 3506438144 + h.totalMallocPages * 4096 at hend
  omega

theorem Stands.ne_nil (hs : Stands h blocks) : blocks ≠ [] := by
  obtain ⟨b, rest, he, _⟩ := hs.head_pos
  rw [he]
  exact List.cons_ne_nil b rest

theorem Stands.head_ne (hs : Stands h blocks) : ¬h.mallocListHead = 0 := by
  rw [hs.head_eq]
  decide

theorem Stands.first_eq (hs : Stands h blocks) : first KERNEL_HEAP_START h.heapEnd = KERNEL_HEAP_START := by
  obtain ⟨b, rest, rfl, _⟩ := hs.head_pos
  exact first_cons hs.chain

theorem Stands.head_first (hs : Stands h blocks) :
    h.mallocListHead = first KERNEL_HEAP_START h.heapEnd := hs.head_eq.trans hs.first_eq.symm

theorem Stands.length_lt (hs : Stands h blocks) : blocks.length < LIST_STEPS :=
  hs.chain.length_lt hs.heapEnd_lt

-- A change of the list that leaves pages and frames alone.
theorem Stands.rewrite (hs : Stands h blocks) {m : Memory} {blocks' : List Block}
    (hchain : Chain m KERNEL_HEAP_START h.heapEnd blocks')
    (hpos : ∃ b rest, blocks' = b :: rest ∧ 0 < b.size) : Stands { h with bytes := m } blocks' where
  head_eq := hs.head_eq
  chain := hchain
  counted := hs.counted
  bounded := hs.bounded
  head_pos := hpos

theorem ok_of_fault {α : Type} {x : Except Fault α} {a : α} (hx : fault x = .ok a) : x = .ok a := by
  cases x with
  | error e => cases hx
  | ok a' =>
      obtain rfl := Except.ok.inj hx
      rfl

section Init

theorem used_mapInitialPage {k k' : Kernel} {phys virt : Nat}
    (hm : mapInitialPage k phys virt = .ok k') : k.used ≤ k'.used := by
  obtain ⟨⟨ok, k₁⟩, hmap, hrest⟩ := exists_of_bind hm
  have hused := Kernel.used_mapPage (ok_of_fault hmap)
  cases ok with
  | false => cases hrest
  | true =>
      obtain ⟨page, _, hupdate⟩ := exists_of_bind hrest
      rw [Kernel.used_of_pmm (Kernel.update32_pmm (ok_of_fault hupdate))]
      exact hused.1

theorem used_mapInitialPages {phys virt : Nat → Nat} {pages : List Nat} {k k' : Kernel}
    (hm : pages.foldlM (fun k i => mapInitialPage k (phys i) (virt i)) k = .ok k') :
    k.used ≤ k'.used := by
  induction pages generalizing k with
  | nil =>
      obtain rfl := Except.ok.inj hm
      omega
  | cons page pages ih =>
      rw [List.foldlM_cons] at hm
      obtain ⟨k₁, hfirst, hrest⟩ := exists_of_bind hm
      exact Nat.le_trans (used_mapInitialPage hfirst) (ih hrest)

-- The pages that malloc_init takes.
def initialPages (bytes : Nat) : Nat :=
  u32 (bytes + PAGE_SIZE - 1) / PAGE_SIZE + if bytes % PAGE_SIZE > 0 then 1 else 0

theorem initialPages_pos {bytes : Nat} (hlo : 1 ≤ bytes) (hhi : bytes < 4294967296) :
    1 ≤ initialPages bytes := by
  change 1 ≤ (bytes + 4095) % 4294967296 / 4096 + if bytes % 4096 > 0 then 1 else 0
  split <;> omega

theorem initialPages_le {bytes : Nat} (h : bytes ≤ 1048576) : initialPages bytes ≤ 192511 := by
  change (bytes + 4095) % 4294967296 / 4096 + (if bytes % 4096 > 0 then 1 else 0) ≤ 192511
  split <;> omega

-- The initial heap is one free block.
theorem mallocInit_stands {bytes : Nat} (hlo : 1 ≤ bytes) (hhi : bytes < 4294967296)
    (hend : initialPages bytes ≤ 192511) (hi : h.mallocInit bytes = .ok h') :
    Stands h' [⟨h'.totalMallocPages * 4096 - 12, true⟩] := by
  unfold mallocInit at hi
  obtain ⟨pages, hdef⟩ : ∃ pages, pages = initialPages bytes := ⟨_, rfl⟩
  have hcount : 1 ≤ pages ∧ pages ≤ 192511 := by
    rw [hdef]
    exact ⟨initialPages_pos hlo hhi, hend⟩
  rw [show u32 (bytes + PAGE_SIZE - 1) / PAGE_SIZE + (if bytes % PAGE_SIZE > 0 then 1 else 0) =
    pages from hdef.symm] at hi
  obtain ⟨⟨phys, k₁⟩, halloc, hrest⟩ := exists_of_bind hi
  have hused := Kernel.used_allocateBlock (by omega) (ok_of_fault halloc)
  by_cases hz : phys = 0
  · simp only [hz, ite_true] at hrest
    cases hrest
  simp only [hz, ite_false, false_and, false_or] at hrest hused
  obtain ⟨k₂, hmap, hdone⟩ := exists_of_bind hrest
  have hused' := used_mapInitialPages hmap
  obtain rfl := Except.ok.inj hdone
  have hbytes : u32Sub (pages * PAGE_SIZE) SIZEOF_BLOCK = pages * 4096 - 12 := by
    apply u32Sub_of_le
    · change 12 ≤ pages * 4096
      omega
    · change pages * 4096 < _
      omega
  refine ⟨rfl, ⟨fun x hx => ?_, ?_⟩, ?_, ?_, _, _, rfl, ?_⟩
  · rw [List.mem_singleton.mp hx, hbytes]
    refine ⟨?_, ?_, ?_⟩
    · rw [sizeOf_setNext, sizeOf_setFree, sizeOf_setSize]
      omega
    · rw [isFree_setNext, isFree_setFree]
    · rw [nextOf_setNext (by omega)]
      exact (if_pos (by
        change 3506438144 + 12 + (pages * 4096 - 12) = 3506438144 + pages * 4096
        omega)).symm
  · change 3506438144 + (12 + (pages * 4096 - 12) + 0) = 3506438144 + pages * 4096
    omega
  · change pages ≤ k₂.used
    omega
  · exact hcount.2
  · change 0 < pages * 4096 - 12
    omega

end Init

section Growth

-- The last block may be given the page behind it.
theorem Chain.grow {m : Memory} {a stop : Nat} (hc : Chain m a stop (before ++ [b]))
    (hstop : stop + 4096 < 4294967296) :
    Chain (setSize (fill m stop 4096 0) (a + extent 12 before) (b.size + 4096)) a (stop + 4096)
      (before ++ [⟨b.size + 4096, b.free⟩]) := by
  have hend := hc.end_le
  have hextent := hc.extent_eq
  rw [extent_append] at hextent
  simp only [extent] at hextent
  have hsame : ∀ c < stop, fill m stop 4096 0 c = m c := fun c hc => fill_of_apart (Or.inl hc) 0
  have hagree := agreeOff_setSize (m := fill m stop 4096 0) (v := b.size + 4096)
    (List.mem_singleton_self (a + extent 12 before))
  refine ⟨fun x hx => ?_, ?_⟩
  · rw [placed_append, List.mem_append] at hx
    rcases hx with hx | hx
    · have hbounds := placed_bounds hx
      have hold := hc.headers x (by
        rw [placed_append]
        exact List.mem_append_left _ hx)
      have hkept : Header (setSize (fill m stop 4096 0) (a + extent 12 before) (b.size + 4096)) stop x := by
        apply (hold.congr fun c _ hhi => hsame c (by omega)).agree hagree
        intro n hn
        rw [List.mem_singleton.mp hn]
        omega
      refine ⟨hkept.1, hkept.2.1, ?_⟩
      rw [hkept.2.2, if_neg (by omega), if_neg (by omega)]
    · rw [List.mem_singleton.mp hx]
      have hold := hc.headerAt.congr fun c _ hhi => hsame c (by
        simp only at hhi
        omega)
      refine ⟨?_, ?_, ?_⟩
      · rw [sizeOf_setSize]
        omega
      · rw [isFree_setSize]
        exact hold.2.1
      · rw [nextOf_setSize, hold.2.2, if_pos, if_pos]
        · simp only
          omega
        · simp only
          omega
  · rw [extent_append]
    simp only [extent]
    omega

theorem growPage_stands (hs : Stands h (before ++ [b]))
    (hg : h.growPage (KERNEL_HEAP_START + extent 12 before) h.heapEnd = .ok h') :
    Stands h' (before ++ [⟨b.size + 4096, b.free⟩]) ∧ h'.heapEnd = h.heapEnd + 4096 := by
  have hcounted := hs.counted
  have hbounded := hs.bounded
  have hend : h.heapEnd = 3506438144 + h.totalMallocPages * 4096 := rfl
  have hblock := hs.chain.end_le
  obtain ⟨⟨temp, k₁⟩, halloc, hrest⟩ := exists_of_bind hg
  have hused := Kernel.used_allocateBlock (by omega) (ok_of_fault halloc)
  by_cases hz : temp = 0
  · simp only [hz, ite_true] at hrest
    cases hrest
  simp only [hz, ite_false, false_and, false_or] at hrest hused
  obtain ⟨⟨ok, k₂⟩, hmap, hrest⟩ := exists_of_bind hrest
  have hused' : k₁.used ≤ k₂.used ∧ k₂.used ≤ max k₁.used 32768 :=
    Kernel.used_mapPage (ok_of_fault hmap)
  cases ok with
  | false => cases hrest
  | true =>
      obtain rfl := Except.ok.inj hrest
      have hsize : sizeOf (fill h.bytes h.heapEnd PAGE_SIZE 0) (KERNEL_HEAP_START + extent 12 before) =
          b.size := by
        rw [← show sizeOf h.bytes (KERNEL_HEAP_START + extent 12 before) = b.size from hs.chain.headerAt.1]
        apply (fields_congr fun c _ hhi => ?_).1
        exact fill_of_apart (by omega) 0
      have hgrown : u32 (b.size + PAGE_SIZE) = b.size + 4096 := u32_of_lt (by
        change b.size + 4096 < _
        omega)
      have hpages : u32 (h.totalMallocPages + 1) = h.totalMallocPages + 1 := u32_of_lt (by omega)
      rw [hsize, hgrown, hpages]
      have hstop : 3506438144 + (h.totalMallocPages + 1) * 4096 = h.heapEnd + 4096 := by omega
      refine ⟨⟨hs.head_eq, ?_, ?_, ?_, ?_⟩, hstop⟩
      · change Chain _ _ (3506438144 + (h.totalMallocPages + 1) * 4096) _
        rw [hstop]
        exact hs.chain.grow (by omega)
      · change h.totalMallocPages + 1 ≤ k₂.used
        omega
      · change h.totalMallocPages + 1 ≤ 192511
        omega
      · obtain ⟨c, rest, he, hpos⟩ := hs.head_pos
        cases before with
        | nil => exact ⟨_, [], rfl, by simp⟩
        | cons d before =>
            obtain ⟨rfl, _⟩ := List.cons_eq_cons.mp he
            exact ⟨d, _, rfl, hpos⟩

theorem growPages_stands {count : Nat} (hs : Stands h (before ++ [b]))
    (hg : growPages count h (KERNEL_HEAP_START + extent 12 before) h.heapEnd = .ok h') :
    Stands h' (before ++ [⟨b.size + count * 4096, b.free⟩]) := by
  induction count generalizing h b with
  | zero =>
      obtain rfl := Except.ok.inj hg
      simpa using hs
  | succ count ih =>
      obtain ⟨h₁, hfirst, hrest⟩ := exists_of_bind hg
      obtain ⟨hs₁, hend⟩ := growPage_stands hs hfirst
      have hvirt : u32 (h.heapEnd + PAGE_SIZE) = h₁.heapEnd := by
        rw [hend]
        apply u32_of_lt
        change h.heapEnd + 4096 < _
        rw [← hend]
        exact hs₁.heapEnd_lt
      rw [hvirt] at hrest
      have hgrown := ih hs₁ hrest
      simp only [Nat.succ_mul, Nat.add_assoc, Nat.add_comm 4096] at hgrown ⊢
      exact hgrown

theorem numPages_spec {curSize size count : Nat} (hsize : size + 12 < 4294967296)
    (hcur : curSize < 2147483648) (hn : numPages curSize size = some count) :
    size + 12 ≤ curSize + count * 4096 := by
  have hmem := List.mem_of_find?_eq_some hn
  have hfits := List.find?_some hn
  simp only [List.mem_map, List.mem_range, decide_eq_true_eq] at hmem hfits
  obtain ⟨i, hi, rfl⟩ := hmem
  change (size + 12) % 4294967296 ≤ (curSize + (i + 1) * 4096) % 4294967296 at hfits
  omega

-- No fewer pages would do.
theorem numPages_le {curSize size count n : Nat} (hn : numPages curSize size = some count) (hpos : 1 ≤ n)
    (henough : u32 (size + SIZEOF_BLOCK) ≤ u32 (curSize + n * PAGE_SIZE)) : count ≤ n := by
  unfold numPages at hn
  rw [List.find?_map, Option.map_eq_some_iff] at hn
  obtain ⟨i, hfirst, rfl⟩ := hn
  obtain ⟨-, -, hleast⟩ := List.find?_range_eq_some.mp hfirst
  by_contra hlt
  have hfailed := hleast (n - 1) (by omega)
  simp only [Function.comp_apply, show n - 1 + 1 = n by omega, henough, decide_true] at hfailed
  cases hfailed

end Growth

section Requests

-- The block a request gets stands where the search stopped; what is left of the old block
-- follows it.
structure Carved (before after : List Block) (b : Block) (size : Nat) (extra : List Block) : Prop where
  stop : Fits size b ∨ after = []
  extra_free : ∀ c ∈ extra, c.free = true
  extent_eq : after ≠ [] → extent 12 (⟨size, false⟩ :: extra) = extent 12 [b]

theorem head_pos_of (hpos : ∃ c rest, before ++ b :: after = c :: rest ∧ 0 < c.size) {size : Nat}
    (hsize : 0 < size) (rest : List Block) :
    ∃ c rest', before ++ ⟨size, false⟩ :: rest = c :: rest' ∧ 0 < c.size := by
  cases before with
  | nil => exact ⟨⟨size, false⟩, rest, rfl, hsize⟩
  | cons d before =>
      obtain ⟨c, rest', he, hc⟩ := hpos
      obtain ⟨rfl, _⟩ := List.cons_eq_cons.mp he
      exact ⟨d, _, rfl, hc⟩

section Taking

variable {size : Nat}

-- The three ways of taking the block at which the search stopped.
theorem takeBlock_exact (hs : Stands h (before ++ b :: after)) (hpos : 0 < b.size) :
    ∃ m, h.takeBlock (KERNEL_HEAP_START + extent 12 before) b.size = .ok { h with bytes := m } ∧
      Stands { h with bytes := m } (before ++ ⟨b.size, false⟩ :: after) := by
  have hsize : sizeOf h.bytes (KERNEL_HEAP_START + extent 12 before) = b.size := hs.chain.headerAt.1
  refine ⟨setFree h.bytes (KERNEL_HEAP_START + extent 12 before) false, ?_,
    hs.rewrite (hs.chain.setFree false) (head_pos_of hs.head_pos hpos _)⟩
  unfold takeBlock
  rw [hsize, if_pos rfl]
  rfl

theorem takeBlock_split (hs : Stands h (before ++ b :: after)) (hpos : 0 < size)
    (hlarge : size + 12 < b.size) :
    ∃ m, h.takeBlock (KERNEL_HEAP_START + extent 12 before) size = .ok { h with bytes := m } ∧
      Stands { h with bytes := m }
        (before ++ ⟨size, false⟩ :: ⟨b.size - size - 12, true⟩ :: after) := by
  have hsize : sizeOf h.bytes (KERNEL_HEAP_START + extent 12 before) = b.size := hs.chain.headerAt.1
  have hend := hs.chain.end_le
  have hlt := hs.heapEnd_lt
  have hlimit : u32 (size + SIZEOF_BLOCK) = size + 12 := u32_of_lt (by
    change size + 12 < _
    omega)
  refine ⟨mallocSplit h.bytes (KERNEL_HEAP_START + extent 12 before) size, ?_,
    hs.rewrite (hs.chain.split (by omega) hlt) (head_pos_of hs.head_pos hpos _)⟩
  unfold takeBlock
  rw [hsize, hlimit, if_neg (by omega), if_pos hlarge]
  rfl

theorem takeBlock_grow (hs : Stands h (before ++ b :: after)) (hhi : size + 12 < 4294967296)
    (hexact : size ≠ b.size) (hsmall : b.size ≤ size + 12) :
    h.takeBlock (KERNEL_HEAP_START + extent 12 before) size =
      match numPages b.size size with
      | none => throw .numPages
      | some count => do
          let h ← growPages count h (KERNEL_HEAP_START + extent 12 before) h.heapEnd
          return { h with bytes := mallocSplit h.bytes (KERNEL_HEAP_START + extent 12 before) size } := by
  have hsize : sizeOf h.bytes (KERNEL_HEAP_START + extent 12 before) = b.size := hs.chain.headerAt.1
  have hlimit : u32 (size + SIZEOF_BLOCK) = size + 12 := u32_of_lt hhi
  have hend := hs.heapEnd_lt
  have hvirt : u32 (KERNEL_HEAP_START + u32 (h.totalMallocPages * PAGE_SIZE)) = h.heapEnd := by
    rw [u32_of_lt (show h.totalMallocPages * PAGE_SIZE < 4294967296 by
      unfold heapEnd at hend
      omega)]
    exact u32_of_lt hend
  have hlarge : ¬b.size > size + 12 := by omega
  cases hcount : numPages b.size size <;> simp [takeBlock, hsize, hlimit, hvirt, hexact, hlarge, hcount]

theorem takeBlock_grown {count : Nat} {h₁ : Heap} (hs : Stands h (before ++ [b])) (hpos : 0 < size)
    (hhi : size + 12 < 4294967296) (hexact : size ≠ b.size) (hsmall : b.size ≤ size + 12)
    (hcount : numPages b.size size = some count)
    (hgrow : growPages count h (KERNEL_HEAP_START + extent 12 before) h.heapEnd = .ok h₁) :
    ∃ m, h.takeBlock (KERNEL_HEAP_START + extent 12 before) size = .ok { h₁ with bytes := m } ∧
      Stands { h₁ with bytes := m }
        (before ++ [⟨size, false⟩, ⟨b.size + count * 4096 - size - 12, true⟩]) := by
  have henough := numPages_spec hhi hs.size_lt hcount
  have hs₁ := growPages_stands hs hgrow
  refine ⟨mallocSplit h₁.bytes (KERNEL_HEAP_START + extent 12 before) size, ?_,
    hs₁.rewrite (hs₁.chain.split henough hs₁.heapEnd_lt) (head_pos_of hs₁.head_pos hpos _)⟩
  rw [takeBlock_grow hs hhi hexact hsmall, hcount]
  simp only [hgrow, Kernel.ok_bind]
  rfl

-- Only the last node is too small for the request.
theorem last_of_grows (hstop : Fits size b ∨ after = [])
    (hslack : after ≠ [] → ¬(size < b.size ∧ b.size ≤ size + 12)) (hexact : size ≠ b.size)
    (hsmall : ¬b.size > size + 12) : after = [] := by
  by_contra hne
  have hfits := (hstop.resolve_right hne).1
  exact hslack hne ⟨by omega, by omega⟩

-- Taking a block, where a node that is not the last is not larger than the request by a
-- header or less.
theorem takeBlock_stands (hs : Stands h (before ++ b :: after)) (hlo : 1 ≤ size)
    (hhi : size + 12 < 4294967296) (hstop : Fits size b ∨ after = [])
    (hslack : after ≠ [] → ¬(size < b.size ∧ b.size ≤ size + 12))
    (ht : h.takeBlock (KERNEL_HEAP_START + extent 12 before) size = .ok h') :
    ∃ extra, Stands h' (before ++ ⟨size, false⟩ :: (extra ++ after)) ∧
      Carved before after b size extra := by
  by_cases hexact : size = b.size
  · subst hexact
    obtain ⟨m, htake, hs'⟩ := takeBlock_exact hs hlo
    obtain rfl := Except.ok.inj (htake.symm.trans ht)
    exact ⟨[], hs', hstop, fun c hc => absurd hc List.not_mem_nil, fun _ => rfl⟩
  by_cases hlarge : b.size > size + 12
  · obtain ⟨m, htake, hs'⟩ := takeBlock_split hs hlo hlarge
    obtain rfl := Except.ok.inj (htake.symm.trans ht)
    refine ⟨[⟨b.size - size - 12, true⟩], hs', hstop, fun c hc => by rw [List.mem_singleton.mp hc],
      fun _ => ?_⟩
    simp only [extent]
    omega
  obtain rfl := last_of_grows hstop hslack hexact hlarge
  have hgrown := takeBlock_grow hs hhi hexact (by omega)
  cases hn : numPages b.size size with
  | none =>
      rw [hgrown, hn] at ht
      cases ht
  | some count =>
      rw [hgrown, hn] at ht
      obtain ⟨h₁, hgrow, _⟩ := exists_of_bind ht
      rw [hn] at hgrown
      obtain ⟨m, htake, hs'⟩ := takeBlock_grown hs hlo hhi hexact (by omega) hn hgrow
      obtain rfl := Except.ok.inj (htake.symm.trans (hgrown.trans ht))
      exact ⟨[⟨b.size + count * 4096 - size - 12, true⟩], hs', hstop,
        fun c hc => by rw [List.mem_singleton.mp hc], fun hne => absurd rfl hne⟩

end Taking

-- Merging comes to its end on a heap that stands.
theorem mergeFreeBlocks_ok (hs : Stands h blocks) :
    ∃ m, h.mergeFreeBlocks = .ok { h with bytes := m } ∧
      Stands { h with bytes := m } (mergePass 12 blocks) := by
  obtain ⟨m, hmerge, hchain⟩ :=
    mergeFreeBlocks_chain hs.chain hs.head_first (by decide) hs.heapEnd_lt
  exact ⟨m, hmerge, hs.rewrite hchain (head_mergePass hs.head_pos)⟩

theorem mergeFreeBlocks_stands (hs : Stands h blocks) (hm : h.mergeFreeBlocks = .ok h') :
    Stands h' (mergePass 12 blocks) := by
  obtain ⟨m, hok, hs'⟩ := mergeFreeBlocks_ok hs
  obtain rfl := Except.ok.inj (hok.symm.trans hm)
  exact hs'

-- The search would stop at a node that is not the last and exceeds the request by less
-- than a header, or by exactly one: too large to be taken whole, too small to be split.
def Slack (h : Heap) (size : Nat) : Prop :=
  ∃ cur, findBlock h.bytes size LIST_STEPS h.mallocListHead = some cur ∧ nextOf h.bytes cur ≠ 0 ∧
    size < sizeOf h.bytes cur ∧ sizeOf h.bytes cur ≤ size + SIZEOF_BLOCK

theorem Stands.search {size : Nat} (hs : Stands h (before ++ b :: after))
    (hbefore : ∀ c ∈ before, ¬Fits size c) (hstop : Fits size b ∨ after = []) :
    findBlock h.bytes size LIST_STEPS h.mallocListHead =
      some (KERNEL_HEAP_START + extent 12 before) := by
  have hlength := hs.length_lt
  rw [List.length_append] at hlength
  rw [hs.head_eq]
  exact findBlock_stops hs.chain hbefore hstop (by omega)

-- A search that ends at the last node finds no slack.
theorem not_slack_of_last {size : Nat} (hs : Stands h (before ++ [b]))
    (hbefore : ∀ c ∈ before, ¬Fits size c) : ¬Slack h size := by
  intro ⟨cur, hfound, hnext, _⟩
  rw [hs.search hbefore (Or.inr rfl)] at hfound
  obtain rfl := Option.some.inj hfound
  exact hnext hs.chain.nextOf_last

-- What a request comes down to on a heap that stands: taking the block at which the search
-- stops, and merging.
theorem mallocNextBlock_eq {size cur : Nat} (hs : Stands h blocks) (hlo : 1 ≤ size)
    (hfound : findBlock h.bytes size LIST_STEPS h.mallocListHead = some cur) :
    h.mallocNextBlock size = do
      let h ← h.takeBlock cur size
      return (u32 (cur + SIZEOF_BLOCK), h) := by
  have hnonzero : ¬size = 0 := by omega
  have hhead : ¬sizeOf h.bytes h.mallocListHead = 0 := by
    obtain ⟨c, rest, he, hpos⟩ := hs.head_pos
    have hchain := hs.chain
    rw [he] at hchain
    rw [hs.head_eq, show sizeOf h.bytes KERNEL_HEAP_START = c.size from hchain.head.1]
    omega
  unfold mallocNextBlock
  simp only [hnonzero, hhead, ite_false, Kernel.pure_bind, hfound]

theorem syscallMalloc_eq {size cur : Nat} (hs : Stands h blocks) (hlo : 1 ≤ size)
    (hfound : findBlock h.bytes size LIST_STEPS h.mallocListHead = some cur) :
    h.syscallMalloc size = do
      let h ← h.takeBlock cur size
      let h ← h.mergeFreeBlocks
      return (u32 (cur + SIZEOF_BLOCK), h) := by
  unfold syscallMalloc
  simp only [hs.head_ne, ite_false, Kernel.pure_bind, mallocNextBlock_eq hs hlo hfound, bind_assoc]

-- The first request is made to the heap that malloc_init leaves.
theorem syscallMalloc_first {size : Nat} (hnull : h.mallocListHead = 0) (hinit : h.mallocInit size = .ok h')
    (hs : Stands h' blocks) : h.syscallMalloc size = h'.syscallMalloc size := by
  unfold syscallMalloc
  simp only [hnull, hs.head_ne, ite_true, ite_false, hinit]
  rfl

theorem pointer_eq (hs : Stands h (before ++ b :: after)) :
    u32 (KERNEL_HEAP_START + extent 12 before + SIZEOF_BLOCK) =
      KERNEL_HEAP_START + extent 12 before + 12 := by
  have hend := hs.chain.end_le
  have hlt := hs.heapEnd_lt
  apply u32_of_lt
  change KERNEL_HEAP_START + extent 12 before + 12 < _
  omega

theorem mallocNextBlock_stands {size : Nat} {r : Nat × Heap} (hs : Stands h blocks) (hlo : 1 ≤ size)
    (hhi : size + 12 < 4294967296) (hslack : ¬Slack h size) (hr : h.mallocNextBlock size = .ok r) :
    ∃ before b after extra, blocks = before ++ b :: after ∧
      findBlock h.bytes size LIST_STEPS h.mallocListHead = some (KERNEL_HEAP_START + extent 12 before) ∧
      r.1 = KERNEL_HEAP_START + extent 12 before + 12 ∧
      Stands r.2 (before ++ ⟨size, false⟩ :: (extra ++ after)) ∧ Carved before after b size extra := by
  obtain ⟨before, b, after, rfl, hfound, hstop⟩ :=
    findBlock_chain hs.chain hs.ne_nil size (Nat.le_of_lt hs.length_lt)
  rw [← hs.head_eq] at hfound
  rw [mallocNextBlock_eq hs hlo hfound] at hr
  obtain ⟨h₁, htake, hdone⟩ := exists_of_bind hr
  obtain rfl := Except.ok.inj hdone
  rw [hs.head_eq] at htake
  have hroom : after ≠ [] → ¬(size < b.size ∧ b.size ≤ size + 12) := by
    intro hne hc
    apply hslack
    refine ⟨_, hfound, ?_, ?_⟩
    · rw [hs.head_eq]
      exact hs.chain.nextOf_ne_zero hne
    · rw [hs.head_eq, show sizeOf h.bytes (KERNEL_HEAP_START + extent 12 before) = b.size from
        hs.chain.headerAt.1]
      exact hc
  obtain ⟨extra, hs₁, hcarved⟩ := takeBlock_stands hs hlo hhi hstop hroom htake
  rw [hs.head_eq] at hfound ⊢
  exact ⟨before, b, after, extra, rfl, hfound, pointer_eq hs, hs₁, hcarved⟩

-- SYS_MALLOC on a heap that stands.
theorem syscallMalloc_stands {size : Nat} {r : Nat × Heap} (hs : Stands h blocks) (hlo : 1 ≤ size)
    (hhi : size + 12 < 4294967296) (hslack : ¬Slack h size) (hr : h.syscallMalloc size = .ok r) :
    ∃ before b after extra, blocks = before ++ b :: after ∧
      findBlock h.bytes size LIST_STEPS h.mallocListHead = some (KERNEL_HEAP_START + extent 12 before) ∧
      r.1 = KERNEL_HEAP_START + extent 12 before + 12 ∧
      Stands r.2 (mergePass 12 (before ++ ⟨size, false⟩ :: (extra ++ after))) ∧
      Carved before after b size extra := by
  unfold syscallMalloc at hr
  simp only [hs.head_ne, ite_false] at hr
  obtain ⟨h₀, hpure, hr⟩ := exists_of_bind hr
  obtain rfl := Except.ok.inj hpure
  obtain ⟨⟨ptr, h₁⟩, hnext, hrest⟩ := exists_of_bind hr
  obtain ⟨h₂, hmerge, hdone⟩ := exists_of_bind hrest
  obtain rfl := Except.ok.inj hdone
  obtain ⟨before, b, after, extra, hsplit, hfound, hptr, hs₁, hcarved⟩ :=
    mallocNextBlock_stands hs hlo hhi hslack hnext
  exact ⟨before, b, after, extra, hsplit, hfound, hptr, mergeFreeBlocks_stands hs₁ hmerge, hcarved⟩

theorem eq_nil_of_singleton {c : Block} (hsplit : [b] = before ++ c :: after) :
    before = [] ∧ after = [] := by
  cases before with
  | nil => exact ⟨rfl, (List.cons_eq_cons.mp hsplit).2.symm⟩
  | cons d before => simp at hsplit

-- The first SYS_MALLOC: the one block of the new heap is the last one, whatever its size.
theorem syscallMalloc_init {size : Nat} {r : Nat × Heap} (hnull : h.mallocListHead = 0) (hlo : 1 ≤ size)
    (hhi : size + 12 < 4294967296) (hend : initialPages size ≤ 192511)
    (hr : h.syscallMalloc size = .ok r) :
    ∃ extra, r.1 = KERNEL_HEAP_START + 12 ∧
      Stands r.2 (mergePass 12 (⟨size, false⟩ :: extra)) ∧ ∀ c ∈ extra, c.free = true := by
  have hfirst := hr
  unfold syscallMalloc at hfirst
  simp only [hnull, ite_true] at hfirst
  obtain ⟨h₀, hinit, -⟩ := exists_of_bind hfirst
  have hs₀ : Stands h₀ ([] ++ [_]) := mallocInit_stands hlo (by omega) hend hinit
  have hslack : ¬Slack h₀ size := not_slack_of_last hs₀ fun c hc => absurd hc List.not_mem_nil
  rw [syscallMalloc_first hnull hinit hs₀] at hr
  obtain ⟨before, c, after, extra, hsplit, -, hptr, hs, hcarved⟩ :=
    syscallMalloc_stands hs₀ hlo hhi hslack hr
  obtain ⟨rfl, rfl⟩ := eq_nil_of_singleton hsplit
  rw [List.nil_append, List.append_nil] at hs
  exact ⟨extra, hptr, hs, hcarved.extra_free⟩

-- A request of no bytes only merges.
theorem syscallMalloc_zero (hs : Stands h blocks) {x : Nat × Heap} (hx : h.syscallMalloc 0 = .ok x) :
    x.1 = 0 ∧ Stands x.2 (mergePass 12 blocks) ∧ x.2.heapEnd = h.heapEnd := by
  obtain ⟨m, hmerge, hs'⟩ := mergeFreeBlocks_ok hs
  unfold syscallMalloc mallocNextBlock at hx
  simp only [hs.head_ne, ite_true, ite_false, Kernel.pure_bind] at hx
  obtain ⟨h₁, hmerged, hdone⟩ := exists_of_bind hx
  obtain rfl := Except.ok.inj (hmerge.symm.trans hmerged)
  obtain rfl := Except.ok.inj hdone
  exact ⟨rfl, hs', rfl⟩

-- A block keeps its size when it is given back.
theorem release_stands (hs : Stands h (before ++ b :: after)) :
    Stands { h with bytes := setFree h.bytes (KERNEL_HEAP_START + extent 12 before) true }
      (before ++ ⟨b.size, true⟩ :: after) := by
  apply hs.rewrite (hs.chain.setFree true)
  obtain ⟨c, rest, he, hpos⟩ := hs.head_pos
  cases before with
  | nil =>
      obtain ⟨rfl, _⟩ := List.cons_eq_cons.mp he
      exact ⟨⟨b.size, true⟩, after, rfl, hpos⟩
  | cons d before =>
      obtain ⟨rfl, _⟩ := List.cons_eq_cons.mp he
      exact ⟨d, _, rfl, hpos⟩

-- SYS_FREE changes one flag, or nothing when the pointer is not found.
theorem syscallFree_stands {ptr : Nat} (hs : Stands h blocks) (hf : h.syscallFree ptr = .ok h') :
    h' = h ∨ ∃ before b after, blocks = before ++ b :: after ∧
      ptr = KERNEL_HEAP_START + extent 12 before + 12 ∧
      Stands h' (mergePass 12 (before ++ ⟨b.size, true⟩ :: after)) := by
  obtain ⟨kernel, bytes, head, phys, pages⟩ := h
  obtain rfl : head = KERNEL_HEAP_START := hs.head_eq
  unfold syscallFree mallocFree at hf
  rcases findNode_chain hs.chain hs.ne_nil hs.heapEnd_lt ptr (Nat.le_of_lt hs.length_lt) with
    hlast | ⟨before, b, after, hsplit, -, hptr, hfound⟩
  · rw [hlast] at hf
    exact Or.inl (Except.ok.inj hf).symm
  · right
    rw [hfound] at hf
    rw [hsplit] at hs
    exact ⟨before, b, after, hsplit, hptr, mergeFreeBlocks_stands (release_stands hs) hf⟩

end Requests

end ToyKernel.Heap
