import ToyKernel.Heap.Progress
import ToyKernel.Malloc.Session
import ToyKernel.Vmm.Update

namespace ToyKernel

open Library ByteMemory BlockList

-- Where there is room, frames are handed out.
theorem Ready.supplies {k : Kernel} {n : Nat} (h : Ready k n) : k.pmm.Supplies n := by
  induction n generalizing k with
  | zero => trivial
  | succ n ih =>
      obtain ⟨frame, k', hne, halloc, hready⟩ := h.allocateBlock
      have hresult := Kernel.allocateBlock_result halloc
      refine ⟨?_, ?_⟩
      · rw [hresult]
        exact Nat.mul_ne_zero (by omega) hne
      · rw [hresult]
        exact ih hready

theorem Layout.allocateBlock_ready {k : Kernel} {directory : Nat} {table : Nat → Option Nat}
    (hl : Layout k directory table) {size frame n : Nat}
    (hfound : k.pmm.getFreeFrameBySize size = some frame) (hlow : frame + size ≤ 1024)
    (hblock : (k.pmm.allocateBlock size).1 ≠ 0) (hzero : (k.pmm.allocateBlock size).2.testBit 0 = true)
    (hroom : Room ∅ (k.pmm.allocateBlock size).2 n) :
    ∃ phys k₁, k.allocateBlock size = .ok (phys, k₁) ∧ phys ≠ 0 ∧ Ready k₁ n := by
  rcases hl.allocateBlock (fitsLow_of_found hfound hlow) with halloc | ⟨frame', k₁, halloc, hl', -⟩
  · rw [Kernel.allocateBlock_result halloc] at hblock
    exact absurd rfl hblock
  · rw [Kernel.allocateBlock_result halloc] at hblock hzero hroom
    exact ⟨_, k₁, halloc, hblock, ⟨_, _, hl'⟩, hzero, hroom⟩

namespace Malloc

open Heap (fault LIST_STEPS)

-- The bytes are the heap's, and each has a page.
structure Inside (M : Malloc) (ptr size : Nat) : Prop where
  start_le : KERNEL_HEAP_START ≤ ptr
  le_end : ptr + size ≤ KERNEL_HEAP_START + M.totalMallocPages * PAGE_SIZE
  present : M.kernel.Present ptr size

-- SYS_MALLOC as far as its list, which the first request makes
def prepared (M : Malloc) (bytes : Nat) : Except Stuck Malloc :=
  if M.mallocListHead = 0 then M.mallocInit bytes else .ok M

-- A block of `old` bytes is the request, or holds it with a header to spare, as it is or with
-- the pages that are counted.
def Holds (old size : Nat) : Prop :=
  size = old ∨ size + SIZEOF_BLOCK < old ∨ ∃ n, numPages old size = some n ∧
    size + SIZEOF_BLOCK ≤ old + n * PAGE_SIZE ∧ old + n * PAGE_SIZE < 4294967296

-- No sum and no difference of a request goes round.
structure Unwrapped (M : Malloc) (size : Nat) : Prop where
  header : size + SIZEOF_BLOCK < 4294967296
  pages : M.mallocListHead = 0 → size + PAGE_SIZE - 1 < 4294967296
  rest : ∃ M₀ cur old, M.prepared size = .ok M₀ ∧
    M₀.findBlock size LIST_STEPS M₀.mallocListHead = .ok cur ∧ M₀.sizeAt cur = .ok old ∧ Holds old size

-- What SYS_MALLOC is to return for `size` bytes
def Bounded (M : Malloc) (size : Nat) : Prop :=
  ∀ ptr M', M.syscallMalloc size = .ok (ptr, M') → ptr = 0 ∨ Inside M' ptr size ∧ Unwrapped M size

variable {g : Ground} {M M' : Malloc} {h : Heap} {frame : Nat → Nat} {blocks before after : List Block} {b : Block}
  {size ptr : Nat} {s : Session} {k : Kernel}

section Bounds

theorem Shows.inside (hs : Shows g M h frame) (hlo : KERNEL_HEAP_START ≤ ptr)
    (hhi : ptr + size ≤ h.heapEnd) : Inside M ptr size := by
  refine ⟨hlo, ?_, hs.backed.present hlo hhi⟩
  rw [← hs.pages]
  exact hhi

-- A request that comes to its end has found such a block.
theorem Shows.holds {r : Nat × Malloc} (hs : Shows g M h frame) (hst : Heap.Tidy h blocks) (hlo : 1 ≤ size)
    (hhi : size + 12 < 4294967296) (hr : M.syscallMalloc size = .ok r) :
    ∃ before b after, blocks = before ++ b :: after ∧
      M.findBlock size LIST_STEPS M.mallocListHead = .ok (KERNEL_HEAP_START + extent 12 before) ∧
      M.sizeAt (KERNEL_HEAP_START + extent 12 before) = .ok b.size ∧ Holds b.size size := by
  obtain ⟨before, b, after, rfl, -, hfound⟩ := hs.search hst size
  have hread := hs.sizeAt_block hst
  refine ⟨before, b, after, rfl, hfound, hread, ?_⟩
  have hlimit : u32 (size + SIZEOF_BLOCK) = size + 12 := u32_of_lt hhi
  by_cases hexact : size = b.size
  · exact Or.inl hexact
  by_cases hlarge : size + 12 < b.size
  · exact Or.inr (Or.inl hlarge)
  -- growth: the count of the pages has come to its end
  obtain ⟨first, hfirst, hpos⟩ := hs.head_pos hst
  have hnonzero : ¬size = 0 := by omega
  unfold Malloc.syscallMalloc mallocNextBlock takeBlock at hr
  simp only [hs.head_ne hst, hnonzero, ite_false, Kernel.pure_bind, hfirst, Kernel.ok_bind, hpos, hfound,
    hread, hexact, hlimit, gt_iff_lt, hlarge] at hr
  cases hcount : numPages b.size size with
  | none =>
      rw [hcount] at hr
      cases hr
  | some n =>
      have hneeded := eq_of_numPages hhi hst.size_lt hcount
      have henough := pagesNeeded_enough b.size size
      rw [← hneeded] at henough
      have hbyte := (numPages_some hcount).1
      have hold := hst.size_lt
      exact Or.inr (Or.inr ⟨n, hcount, henough, by change _ + n * 4096 < _; omega⟩)

theorem Shows.unwrapped {r : Nat × Malloc} (hs : Shows g M h frame) (hst : Heap.Tidy h blocks)
    (hlo : 1 ≤ size) (hhi : size + 12 < 4294967296) (hr : M.syscallMalloc size = .ok r) :
    Unwrapped M size := by
  obtain ⟨before, b, after, -, hfound, hread, hholds⟩ := hs.holds hst hlo hhi hr
  exact ⟨hhi, fun hnull => absurd hnull (hs.head_ne hst),
    M, _, b.size, if_neg (hs.head_ne hst), hfound, hread, hholds⟩

-- Where the sum of malloc_init went round, the heap has one page, too little by far.
theorem not_holds_of_wrap {pages : Nat} (hwrap : 4294967296 ≤ size + 4095) (hpages : pages ≤ 1) :
    ¬Holds (pages * 4096 - 12) size := by
  rintro (hexact | hlarge | ⟨n, hcount, henough, -⟩)
  · omega
  · change size + 12 < _ at hlarge
    omega
  · have hbyte := (numPages_some hcount).1
    change size + 12 ≤ _ + n * 4096 at henough
    omega

theorem initialPages_wrap (hwrap : 4294967296 ≤ size + 4095) (hlt : size < 4294967296) :
    Heap.initialPages size ≤ 1 := by
  change (size + 4095) % 4294967296 / 4096 + (if size % 4096 > 0 then 1 else 0) ≤ 1
  split <;> omega

theorem unwrapped_first {r : Nat × Malloc} (hb : Backed g M.kernel frame KERNEL_HEAP_START)
    (hnull : M.mallocListHead = 0) (hlo : 1 ≤ size) (hhi : size + 12 < 4294967296)
    (hsupplied : M.Supplied size) (hr : M.syscallMalloc size = .ok r) : Unwrapped M size := by
  unfold Supplied at hsupplied
  rw [if_pos hnull] at hsupplied
  obtain ⟨hend, hblock, hsupplies⟩ := hsupplied
  obtain ⟨M₀, hinit⟩ := exists_init hnull hr
  obtain ⟨h₀, frame₀, hs₀, hst₀, -⟩ := mallocInit_shows hb hlo (by omega) hend hblock hsupplies hinit
  rw [syscallMalloc_init hnull hinit (hs₀.head_ne hst₀)] at hr
  obtain ⟨before, b, after, hsplit, hfound, hread, hholds⟩ := hs₀.holds hst₀ hlo hhi hr
  refine ⟨hhi, fun _ => ?_, M₀, _, b.size, (if_pos hnull).trans hinit, hfound, hread, hholds⟩
  obtain ⟨rfl, rfl⟩ := Heap.eq_nil_of_singleton hsplit
  obtain rfl := (List.cons_eq_cons.mp hsplit).1
  by_contra hwrap
  have hwrap' : 4294967296 ≤ size + 4095 := Nat.le_of_not_lt hwrap
  exact not_holds_of_wrap hwrap' (initialPages_wrap hwrap' (by omega)) hholds

theorem Sound.bounded (hs : Sound g s h frame blocks) {ebx : BitVec 32} (hok : CallOk s (.malloc ebx)) :
    Bounded s.malloc ebx.toNat := by
  intro ptr M' hr
  by_cases hz : ebx.toNat = 0
  · obtain ⟨M₁, -, hmalloc, -⟩ := hs.shows.syscallMalloc_zero hs.stands
    rw [hz] at hr
    cases hmalloc.symm.trans hr
    exact Or.inl rfl
  · obtain ⟨hhi, hslack, hsupplied⟩ := hok.resolve_left hz
    unfold Supplied at hsupplied
    rw [if_neg (hs.shows.head_ne hs.stands)] at hsupplied
    have hunwrapped := hs.shows.unwrapped hs.stands (by omega) hhi hr
    obtain ⟨before, b, after, extra, h', frame', -, hptr, hshows, -, -, -, hpayload⟩ :=
      syscallMalloc_shows hs.shows hs.stands (by omega) hhi hslack hsupplied hr
    exact Or.inr ⟨hshows.inside (by simp only at hptr; omega) hpayload, hunwrapped⟩

theorem bounded_start (hb : Bare k) {ebx : BitVec 32} (hok : CallOk (Session.start k) (.malloc ebx)) :
    Bounded (Session.start k).malloc ebx.toNat := by
  intro ptr M' hr
  by_cases hz : ebx.toNat = 0
  · rw [hz, syscallMalloc_zero_start hb] at hr
    cases hr
  · obtain ⟨hhi, -, hsupplied⟩ := hok.resolve_left hz
    have hunwrapped := unwrapped_first (hb.backed fun _ => 0) rfl (by omega) hhi hsupplied hr
    obtain ⟨extra, h', frame', hptr, hshows, -, -, hpayload⟩ :=
      syscallMalloc_first (hb.backed fun _ => 0) rfl (by omega) hhi hsupplied hr
    exact Or.inr ⟨hshows.inside (by simp only at hptr; omega) hpayload, hunwrapped⟩

-- Where the search ends at a block that holds the request and a header more, no page is taken.
theorem Shows.syscallMalloc_split (hs : Shows g M h frame) (hst : Heap.Tidy h (before ++ b :: after))
    (hlo : 1 ≤ size) (hroom : size + 12 < b.size)
    (hfound : M.findBlock size LIST_STEPS M.mallocListHead = .ok (KERNEL_HEAP_START + extent 12 before)) :
    ∃ M' m, M.syscallMalloc size = .ok (KERNEL_HEAP_START + extent 12 before + 12, M') ∧
      Shows g M' { h with bytes := m } frame ∧
      Heap.Tidy { h with bytes := m }
        (mergePass 12 (before ++ ⟨size, false⟩ :: ⟨b.size - size - 12, true⟩ :: after)) := by
  obtain ⟨hstart, hend⟩ := node_inside hst
  have hlt := hst.heapEnd_lt
  obtain ⟨M₁, hsplit, hs₁⟩ := hs.mallocSplit hstart (show _ + size + 12 ≤ h.heapEnd by omega) hlt
  have hst₁ := hst.split hlo (show size + 12 ≤ b.size by omega)
  obtain ⟨M', m, hmerge, hs', hst'⟩ := hs₁.mergeFreeBlocks hst₁
  refine ⟨M', m, ?_, hs', hst'⟩
  obtain ⟨first, hfirst, hpos⟩ := hs.head_pos hst
  have hnonzero : ¬size = 0 := by omega
  have hexact : ¬size = b.size := by omega
  have hlimit : u32 (size + SIZEOF_BLOCK) = size + 12 := u32_of_lt (by change size + 12 < _; omega)
  unfold Malloc.syscallMalloc mallocNextBlock takeBlock
  simp only [hs.head_ne hst, hnonzero, ite_false, Kernel.pure_bind, hfirst, Kernel.ok_bind, hpos, hfound,
    hs.sizeAt_block hst, hexact, hlimit, gt_iff_lt, hroom, ite_true, hsplit, hmerge, Heap.pointer_eq hst.toStands]
  rfl

-- Where no block is large enough the search ends at the last one.
theorem Shows.search_last (hs : Shows g M h frame) (hst : Heap.Tidy h (before ++ [b]))
    (hsmall : ∀ c ∈ before ++ [b], c.size < size) :
    M.findBlock size LIST_STEPS M.mallocListHead = .ok (KERNEL_HEAP_START + extent 12 before) := by
  obtain ⟨first, c, rest, hsplit, hstop, hfound⟩ := hs.search hst size
  rcases hstop with hfits | rfl
  · have hless := hsmall c (by simp [hsplit])
    exact absurd hfits.1 (by omega)
  · obtain ⟨rfl, -⟩ := List.append_inj' hsplit rfl
    exact hfound

end Bounds

-- In every run whose calls are of that kind, what was returned lies in the heap, and what is
-- returned next will, with nothing gone round.
theorem bounded_of_met {calls : List Session.Call} (hb : Bare k)
    (hmet : AllMet Session.call CallOk (Session.start k) calls)
    (hrun : run Session.call (Session.start k) calls = .ok s) :
    (∀ x ∈ s.returned, x.1 = 0 ∨ Inside s.malloc x.1 x.2) ∧
      ∀ ebx, CallOk s (.malloc ebx) → Bounded s.malloc ebx.toNat := by
  rcases standing_of_run hb hmet hrun with ⟨-, rfl⟩ | ⟨h, frame, blocks, hs⟩
  · exact ⟨fun x hx => absurd hx List.not_mem_nil, fun ebx hok => bounded_start hb hok⟩
  · refine ⟨fun x hx => ?_, fun ebx hok => hs.bounded hok⟩
    rcases hs.inside x hx with hzero | ⟨hlo, hhi⟩
    · exact Or.inl hzero
    · exact Or.inr (hs.shows.inside hlo hhi)

section Start

-- Where the tables are those of the start, nothing is mapped in the heap.
theorem bare_of_layout {directory : Nat} {table : Nat → Option Nat} (hl : Layout k directory table)
    (hnone : ∀ i, i ≠ 0 → i ≠ 768 → table i = none) : Bare k := by
  refine ⟨⟨hl.walkable, hl.markedTables⟩, fun a hlo hhi => ?_⟩
  have hpd : PD_INDEX KERNEL_HEAP_START ≤ PD_INDEX a := Nat.div_le_div_right hlo
  change 836 ≤ PD_INDEX a at hpd
  have habsent : ¬isPresent (k.pde (PD_INDEX a)) = true := by
    intro hpresent
    obtain ⟨t, ht⟩ := (hl.isPresent_iff (Layout.PD_INDEX_lt hhi)).mp hpresent
    rw [hnone _ (by omega) (by omega)] at ht
    cases ht
  exact Kernel.pte_of_absent (Bool.eq_false_iff.mpr habsent)

theorem mapInitialPage_of_heap {k' : Kernel} {phys virt : Nat}
    (hm : Heap.mapInitialPage k phys virt = .ok k') : mapInitialPage k phys virt = .ok k' := by
  obtain ⟨⟨ok, k₁⟩, hmap, hrest⟩ := exists_of_bind hm
  cases ok with
  | false => cases hrest
  | true =>
      obtain ⟨page, hpage, hupdate⟩ := exists_of_bind hrest
      unfold mapInitialPage
      rw [Heap.ok_of_fault hmap]
      change (k₁.getPage virt >>= _) = _
      rw [Heap.ok_of_fault hpage]
      exact Heap.ok_of_fault hupdate

theorem mapInitialPages_ok {phys i count n : Nat} (hk : Ready k (count + n))
    (hend : KERNEL_HEAP_START + (i + count) * 4096 ≤ 4294967296) :
    ∃ k', mapInitialPages phys (List.range' i count) k = .ok k' ∧ Ready k' n := by
  induction count generalizing i k with
  | zero =>
      rw [Nat.zero_add] at hk
      exact ⟨k, rfl, hk⟩
  | succ count ih =>
      rw [show count + 1 + n = count + n + 1 by omega] at hk
      rw [show i + (count + 1) = i + 1 + count by omega] at hend
      have hvirt : u32 (KERNEL_HEAP_START + i * PAGE_SIZE) = KERNEL_HEAP_START + i * 4096 := u32_of_lt (by
        change KERNEL_HEAP_START + i * 4096 < _
        omega)
      have hfirst : PD_INDEX (KERNEL_HEAP_START + i * 4096) ≠ 0 := by
        change (3506438144 + i * 4096) / 4194304 ≠ 0
        omega
      obtain ⟨k₁, hmap, hready⟩ := Heap.mapInitialPage_ok hk (u32 (phys + i * PAGE_SIZE))
        (KERNEL_HEAP_START + i * 4096) (by omega) hfirst
      obtain ⟨k', hrest, hready'⟩ := ih hready hend
      refine ⟨k', ?_, hready'⟩
      rw [List.range'_succ, mapInitialPages, hvirt, mapInitialPage_of_heap hmap, Kernel.ok_bind]
      exact hrest

-- The first request makes the heap, of which it takes its bytes.
theorem syscallMalloc_ready {n phys : Nat} {k₁ : Kernel} (hbare : Bare k) (hlo : 1 ≤ size)
    (hhi : size < 4294967296) (hend : Heap.initialPages size ≤ 192511)
    (hfits : size + 12 < Heap.initialPages size * 4096 - 12)
    (halloc : k.allocateBlock (Heap.initialPages size) = .ok (phys, k₁)) (hblock : phys ≠ 0)
    (hready : Ready k₁ (Heap.initialPages size + n)) :
    ∃ M h frame, (Session.start k).malloc.syscallMalloc size = .ok (KERNEL_HEAP_START + 12, M) ∧
      Shows k.ground M h frame ∧
      Heap.Tidy h [⟨size, false⟩, ⟨Heap.initialPages size * 4096 - 12 - size - 12, true⟩] ∧
      M.kernel.pmm.Supplies n := by
  have hpages : ∀ n ≤ 192511, KERNEL_HEAP_START + (0 + n) * 4096 ≤ 4294967296 := by
    intro n hn
    change 3506438144 + (0 + n) * 4096 ≤ 4294967296
    omega
  obtain ⟨k₂, hmaps, -⟩ : ∃ k₂, mapInitialPages phys (List.range' 0 (Heap.initialPages size)) k₁ = .ok k₂ ∧
      Ready k₂ n := mapInitialPages_ok hready (hpages _ hend)
  rw [← List.range_eq_range'] at hmaps
  have hsupplies : k₁.pmm.Supplies (n + k.tablesMissing KERNEL_HEAP_START (Heap.initialPages size + 0)) := by
    have htables := k.tablesMissing_le KERNEL_HEAP_START (Heap.initialPages size + 0)
    exact hready.supplies.of_le (by omega)
  obtain ⟨M₀, h₀, frame, hinit, hs₀, hst₀, hsupplies⟩ := mallocInit_of_maps (M := (Session.start k).malloc)
    (hbare.backed fun _ => 0) hlo hhi hend halloc hblock hsupplies hmaps
  have hst₀' : Heap.Tidy h₀ ([] ++ ⟨Heap.initialPages size * 4096 - 12, true⟩ :: []) := hst₀
  obtain ⟨before, b, after, hsplit, -, hfound⟩ := hs₀.search hst₀ size
  obtain ⟨rfl, rfl⟩ := Heap.eq_nil_of_singleton hsplit
  obtain ⟨M, m, hmalloc, hs, hst⟩ := hs₀.syscallMalloc_split hst₀' hlo hfits hfound
  refine ⟨M, _, frame, ?_, hs, hst, ?_⟩
  · rw [syscallMalloc_init rfl hinit (hs₀.head_ne hst₀)]
    exact hmalloc
  · have hpmm : h₀.kernel.pmm = M.kernel.pmm := hs.pmm
    rw [← hpmm, hs₀.pmm]
    exact hsupplies.of_le (Nat.le_add_right ..)

end Start

section Sample

theorem bare_sample : Bare sampleKernel := by
  obtain ⟨directory, table, hl, hnone, -⟩ := layout_sample
  exact bare_of_layout hl hnone

theorem allocateBlock_sample : ∃ phys k, sampleKernel.allocateBlock 2 = .ok (phys, k) ∧ phys ≠ 0 ∧ Ready k 4 := by
  obtain ⟨directory, table, hl, -, hpmm⟩ := layout_sample
  have hfound : (Kernel.initialPmm Pmm.samplePmm).getFreeFrameBySize 2 = some 4 := by decide +kernel
  have hblock : ((Kernel.initialPmm Pmm.samplePmm).allocateBlock 2).1 ≠ 0 := by decide +kernel
  have hzero : ((Kernel.initialPmm Pmm.samplePmm).allocateBlock 2).2.testBit 0 = true := by decide +kernel
  have hroom : Room ∅ ((Kernel.initialPmm Pmm.samplePmm).allocateBlock 2).2 4 :=
    room_of_free {6, 8, 9, 10} (by decide +kernel) (by decide +kernel)
  rw [← hpmm] at hfound hblock hzero hroom
  exact hl.allocateBlock_ready hfound (by omega) hblock hzero hroom

-- A request for 221 bytes makes a heap of two pages.
theorem syscallMalloc_sample : ∃ M h frame,
    (Session.start sampleKernel).malloc.syscallMalloc 221 = .ok (KERNEL_HEAP_START + 12, M) ∧
      Shows sampleKernel.ground M h frame ∧ Heap.Tidy h [⟨221, false⟩, ⟨7947, true⟩] ∧ M.kernel.pmm.Supplies 2 := by
  obtain ⟨phys, k₁, halloc, hblock, hready⟩ := allocateBlock_sample
  exact syscallMalloc_ready bare_sample (by decide) (by decide) (by decide) (by decide)
    halloc hblock hready

-- A size of -1 makes the sum of the split go round: the new node begins in the last byte of
-- the header of the old one.
theorem mallocSplit_wrap {m : Memory} {cur : Nat} (hcur : cur + 24 < 4294967296)
    (hsize : sizeOf m cur = 7947) (hnext : nextOf m cur = 0) :
    let m' := Heap.mallocSplit m cur 4294967295
    (nextOf m' cur = cur + 11 ∧ isFree m' cur = false) ∧ nextOf m' (cur + 11) = 0 ∧
      ∀ b < cur, m' b = m b := by
  have hnew : u32 (cur + 4294967295 + SIZEOF_BLOCK) = cur + 11 := by
    change (cur + 4294967295 + 12) % 4294967296 = cur + 11
    omega
  have hrest : u32Sub (u32Sub 7947 4294967295) SIZEOF_BLOCK = 7936 := by decide
  have hzero : load32 m (cur + 8) = 0 := BitVec.eq_of_toNat_eq hnext
  have hlink : nextOf (setFree (setSize m (cur + 11) 7936) (cur + 11) true) cur = 0 := by
    have hbytes : load32 (setFree (setSize m (cur + 11) 7936) (cur + 11) true) (cur + 8) =
        load32 (fun _ => 0) (cur + 8) := by
      apply load32_congr
      intro b hlo hhi
      unfold setFree setSize
      rw [store8_of_ne (by omega)]
      by_cases he : b = cur + 11
      · rw [he]
        simp [store32]
      · obtain ⟨j, rfl⟩ := Nat.exists_eq_add_of_le hlo
        rw [store32_of_ne (by omega), ← extractLsb'_load32 m (cur + 8) j (by omega), hzero]
        exact BitVec.extractLsb'_zero
    unfold nextOf
    rw [hbytes]
    simp [load32]
  unfold Heap.mallocSplit
  simp only [hnew, hsize, hrest, hlink]
  refine ⟨⟨Heap.nextOf_setNext (by omega), ?_⟩, ?_, fun b hb => ?_⟩
  · rw [Heap.isFree_setNext, Heap.isFree_setFree]
  · unfold setNext setFree setSize nextOf
    rw [load32_store32_of_apart (by omega), load32_store8_of_apart (by omega),
      load32_store32_of_apart (by omega), load32_store32_self]
    rfl
  · unfold setNext setFree setSize
    rw [store32_of_ne (by omega), store8_of_ne (by omega), store32_of_ne (by omega),
      store32_of_ne (by omega), store8_of_ne (by omega), store32_of_ne (by omega)]

-- The pass goes on behind a node in use, and ends with the last one.
theorem Shows.mergeFrom_used (hs : Shows g M h frame) {node next : Nat} (hlo : KERNEL_HEAP_START ≤ node)
    (hhi : node + 12 ≤ h.heapEnd) (steps : Nat) (hused : isFree h.bytes node = false)
    (hnext : nextOf h.bytes node = next) (hne : next ≠ 0) :
    Malloc.mergeFrom (steps + 1) M node = Malloc.mergeFrom steps M next := by
  have hpos : 0 < KERNEL_HEAP_START := by decide
  have hnode : ¬node = 0 := by omega
  have hread := hs.nextAt hlo hhi
  rw [hnext] at hread
  have hfree := hs.freeAt hlo hhi
  rw [hused] at hfree
  rw [Malloc.mergeFrom, if_neg hnode, hread, Kernel.ok_bind, if_neg hne, hfree, Kernel.ok_bind]
  simp only [Bool.false_eq_true, ite_false, Kernel.pure_bind, hread, Kernel.ok_bind]

theorem Shows.mergeFrom_end (hs : Shows g M h frame) {node : Nat} (hlo : KERNEL_HEAP_START ≤ node)
    (hhi : node + 12 ≤ h.heapEnd) (steps : Nat) (hnext : nextOf h.bytes node = 0) :
    Malloc.mergeFrom (steps + 1) M node = .ok M := by
  have hpos : 0 < KERNEL_HEAP_START := by decide
  have hnode : ¬node = 0 := by omega
  have hread := hs.nextAt hlo hhi
  rw [hnext] at hread
  rw [Malloc.mergeFrom, if_neg hnode, hread, Kernel.ok_bind, if_pos rfl]
  rfl

theorem Shows.mergeFreeBlocks_three (hs : Shows g M h frame) {second third : Nat}
    (hhead : M.mallocListHead = KERNEL_HEAP_START) (hfirst : KERNEL_HEAP_START + 12 ≤ h.heapEnd)
    (hsecond : KERNEL_HEAP_START ≤ second) (hsecond' : second + 12 ≤ h.heapEnd)
    (hthird : KERNEL_HEAP_START ≤ third) (hthird' : third + 12 ≤ h.heapEnd)
    (hnext₁ : nextOf h.bytes KERNEL_HEAP_START = second) (hused₁ : isFree h.bytes KERNEL_HEAP_START = false)
    (hnext₂ : nextOf h.bytes second = third) (hused₂ : isFree h.bytes second = false)
    (hnext₃ : nextOf h.bytes third = 0) : M.mergeFreeBlocks = .ok M := by
  have hpos : 0 < KERNEL_HEAP_START := by decide
  have hsteps : LIST_STEPS = 4294967293 + 1 + 1 + 1 := by decide
  unfold Malloc.mergeFreeBlocks
  rw [hhead, hsteps, hs.mergeFrom_used (Nat.le_refl _) hfirst _ hused₁ hnext₁ (by omega),
    hs.mergeFrom_used hsecond hsecond' _ hused₂ hnext₂ (by omega), hs.mergeFrom_end hthird hthird' _ hnext₃]

-- The last block is handed out, for all the bytes there are but one.
theorem syscallMalloc_wrap (hs : Shows g M h frame) (hst : Heap.Tidy h [⟨221, false⟩, ⟨7947, true⟩]) :
    ∃ M', M.syscallMalloc 4294967295 = .ok (KERNEL_HEAP_START + 245, M') := by
  have hst' : Heap.Tidy h ([⟨221, false⟩] ++ ⟨7947, true⟩ :: []) := hst
  obtain ⟨cur, hcur⟩ : ∃ cur, cur = KERNEL_HEAP_START + 233 := ⟨_, rfl⟩
  have hextent : h.heapEnd = cur + 12 + 7947 := by
    rw [hcur, ← hst.chain.extent_eq]
    rfl
  have hlt := hst.heapEnd_lt
  have hplace : KERNEL_HEAP_START + extent 12 [⟨221, false⟩] = cur := hcur.symm
  have hfound : M.findBlock 4294967295 LIST_STEPS M.mallocListHead = _ :=
    hs.search_last hst' fun c hc => by rcases List.mem_pair.mp hc with rfl | rfl <;> decide
  have hread : M.sizeAt _ = .ok 7947 := hs.sizeAt_block hst'
  have hlast := hst'.chain.nextOf_last
  have hsize : sizeOf h.bytes _ = 7947 := hst'.chain.headerAt.1
  rw [hplace] at hfound hread hlast hsize
  have hnew : cur + 11 = u32 (cur + 4294967295 + SIZEOF_BLOCK) := by
    change _ = (cur + 4294967295 + 12) % 4294967296
    omega
  obtain ⟨M₁, hsplit, hs₁⟩ := hs.mallocSplit_at hnew (by omega) (by omega) (by omega) (by omega)
  obtain ⟨⟨hnext₂, hused₂⟩, hnext₃, hbelow⟩ := mallocSplit_wrap (by omega) hsize hlast
  obtain ⟨-, hused, hnext⟩ := Heap.fields_congr fun c (_ : KERNEL_HEAP_START ≤ c)
    (hc : c < KERNEL_HEAP_START + 12) => hbelow c (by omega)
  have hfirst : nextOf h.bytes KERNEL_HEAP_START = cur := by
    rw [hst.chain.nextOf_eq, if_neg (List.cons_ne_nil _ _), hcur]
    rfl
  have hmerge : M₁.mergeFreeBlocks = .ok M₁ :=
    hs₁.mergeFreeBlocks_three (hs₁.head.symm.trans hst.head_eq) (by change _ ≤ h.heapEnd; omega)
      (show KERNEL_HEAP_START ≤ cur by omega) (by change _ ≤ h.heapEnd; omega)
      (show KERNEL_HEAP_START ≤ cur + 11 by omega) (by change _ ≤ h.heapEnd; omega)
      (hnext.trans hfirst) (hused.trans hst.chain.head.2.1) hnext₂ hused₂ hnext₃
  obtain ⟨first, hread₁, hpos⟩ := hs.head_pos hst
  have hreturned : u32 (cur + SIZEOF_BLOCK) = KERNEL_HEAP_START + 245 := by
    rw [hcur]
    decide
  refine ⟨M₁, ?_⟩
  unfold Malloc.syscallMalloc mallocNextBlock takeBlock
  simp only [hs.head_ne hst, ite_false, Kernel.pure_bind, hread₁, Kernel.ok_bind, hpos, hfound, hread,
    show ¬4294967295 = 0 by omega, show ¬4294967295 = 7947 by omega,
    show 7947 > u32 (4294967295 + SIZEOF_BLOCK) by decide, ite_true, hsplit, hreturned, hmerge]
  rfl

theorem callOk_sample : CallOk (Session.start sampleKernel) (.malloc 221) := by
  obtain ⟨phys, k₁, halloc, hblock, hready⟩ := allocateBlock_sample
  have hpages : Heap.initialPages (221 : BitVec 32).toNat = 2 := by decide
  have hresult : (Session.start sampleKernel).malloc.kernel.pmm.allocateBlock 2 = (phys, k₁.pmm) :=
    Kernel.allocateBlock_result halloc
  have hnull : (Session.start sampleKernel).malloc.mallocListHead = 0 := rfl
  refine Or.inr ⟨by decide, fun hslack => hslack.1 rfl, ?_⟩
  unfold Supplied
  have hfurther : furtherPages (221 : BitVec 32).toNat = 0 := by decide
  rw [if_pos hnull, hpages, hresult, hfurther, Nat.zero_add]
  exact ⟨by decide, hblock,
    hready.supplies.of_le (Nat.le_trans (Kernel.tablesMissing_le ..) (by decide))⟩

theorem bounded_of_met_sample : ∃ s, run Session.call (Session.start sampleKernel) [.malloc 221] = .ok s ∧
    (∀ x ∈ s.returned, x.1 = 0 ∨ Inside s.malloc x.1 x.2) ∧
      ∀ ebx, CallOk s (.malloc ebx) → Bounded s.malloc ebx.toNat := by
  obtain ⟨M, h, frame, hmalloc, -⟩ := syscallMalloc_sample
  have hcall : (Session.start sampleKernel).call (.malloc 221) = _ := Session.call_malloc hmalloc
  have hmet : AllMet Session.call CallOk (Session.start sampleKernel) [.malloc 221] :=
    ⟨callOk_sample, fun _ _ => trivial⟩
  exact ⟨_, run_cons hcall [], bounded_of_met bare_sample hmet (run_cons hcall [])⟩

-- A request of -1 bytes after it
theorem not_bounded_wrap : ∃ s,
    run Session.call (Session.start sampleKernel) [.malloc 221, .malloc 4294967295] = .ok s ∧
      ∃ x ∈ s.returned, ¬(x.1 = 0 ∨ Inside s.malloc x.1 x.2) := by
  obtain ⟨M, h, frame, hmalloc, hs, hst, -⟩ := syscallMalloc_sample
  obtain ⟨M', hwrap⟩ := syscallMalloc_wrap hs hst
  have hfirst : (Session.start sampleKernel).call (.malloc 221) = _ := Session.call_malloc hmalloc
  have hsecond : (Session.mk M [(KERNEL_HEAP_START + 12, 221)] [KERNEL_HEAP_START + 12]).call
      (.malloc 4294967295) = _ := Session.call_malloc hwrap
  refine ⟨_, (run_cons hfirst _).trans (run_cons hsecond []), _, List.mem_cons_self, ?_⟩
  rintro (hzero | hinside)
  · cases hzero
  · have hpresent : KERNEL_HEAP_START + 245 + 4294967295 ≤ 4294967296 := hinside.present.1
    exact absurd hpresent (by decide)

end Sample

end Malloc

end ToyKernel
