import ToyKernel.Heap.Progress
import ToyKernel.Vmm.Identity

namespace ToyKernel.Heap

open Library ByteMemory BlockList

-- The heap with the allocations its clients hold: pointer and requested size.
structure Session where
  heap : Heap
  live : List (Nat × Nat)

inductive Request where
  | malloc (size : Nat)
  | free (ptr : Nat)

def exec (s : Session) : Request → Except Stuck Session
  | .malloc size => do
      let (ptr, heap) ← s.heap.syscallMalloc size
      return { heap, live := (ptr, size) :: s.live }
  | .free ptr => do
      let heap ← s.heap.syscallFree ptr
      return { heap, live := s.live.filter fun a => a.1 ≠ ptr }

theorem exec_malloc {s : Session} {size ptr : Nat} {heap : Heap}
    (h : s.heap.syscallMalloc size = .ok (ptr, heap)) :
    exec s (.malloc size) = .ok { heap, live := (ptr, size) :: s.live } := by
  change (s.heap.syscallMalloc size >>= _) = _
  rw [h]
  rfl

theorem exec_free {s : Session} {ptr : Nat} {heap : Heap} (h : s.heap.syscallFree ptr = .ok heap) :
    exec s (.free ptr) = .ok { heap, live := s.live.filter fun a => a.1 ≠ ptr } := by
  change (s.heap.syscallFree ptr >>= _) = _
  rw [h]
  rfl

-- The statics of malloc.c at the start.
def Session.start (kernel : Kernel) (bytes : Memory) : Session where
  heap := { kernel, bytes, mallocListHead := 0, mallocPhysAddress := 0, totalMallocPages := 0 }
  live := []

-- The list from a node on, followed through memory, tiles the bytes up to `stop`.
inductive Tiles (m : Memory) (stop : Nat) : Nat → List Nat → Prop where
  | last {node : Nat} (hnext : nextOf m node = 0) (hend : node + SIZEOF_BLOCK + sizeOf m node = stop) :
      Tiles m stop node [node]
  | cons {node : Nat} {nodes : List Nat} (hnext : nextOf m node ≠ 0)
      (hadjacent : nextOf m node = node + SIZEOF_BLOCK + sizeOf m node)
      (hrest : Tiles m stop (nextOf m node) nodes) : Tiles m stop node (node :: nodes)

-- `node` is on the list that begins at a node.
inductive Listed (m : Memory) (node : Nat) : Nat → Prop where
  | here : Listed m node node
  | next {cur : Nat} (hnext : nextOf m cur ≠ 0) (hrest : Listed m node (nextOf m cur)) :
      Listed m node cur

-- The list tiles the heap exactly; its nodes come in the order of their addresses and no
-- extent overlaps the next.
def Tiled (h : Heap) : Prop :=
  ∃ nodes, Tiles h.bytes h.heapEnd h.mallocListHead nodes ∧
    nodes.Pairwise fun a b => a + SIZEOF_BLOCK + sizeOf h.bytes a ≤ b

section Chain

variable {m : Memory} {a stop : Nat} {blocks : List Block}

theorem Chain.tiles (h : Chain m a stop blocks) (hne : blocks ≠ []) :
    Tiles m stop a ((placed 12 a blocks).map Prod.fst) := by
  induction blocks generalizing a with
  | nil => exact absurd rfl hne
  | cons b blocks ih =>
      have hsize : sizeOf m a = b.size := h.head.1
      have hnext := h.nextOf_eq
      cases blocks with
      | nil =>
          have hextent := h.extent_eq
          simp only [extent] at hextent
          refine Tiles.last hnext ?_
          rw [hsize]
          change a + 12 + b.size = stop
          omega
      | cons c blocks =>
          rw [if_neg (by simp)] at hnext
          refine Tiles.cons (by omega) (by rw [hnext, hsize]; rfl) ?_
          rw [hnext]
          exact ih h.tail (by simp)

theorem Chain.listed (h : Chain m a stop blocks) (hpos : 0 < a) {x : Nat × Block}
    (hx : x ∈ placed 12 a blocks) : Listed m x.1 a := by
  induction blocks generalizing a with
  | nil => cases hx
  | cons b blocks ih =>
      rcases List.mem_cons.mp hx with rfl | hx
      · exact Listed.here
      · have hnext := h.nextOf_eq
        rw [if_neg (fun hnil => by rw [hnil] at hx; cases hx)] at hnext
        apply Listed.next (by omega)
        rw [hnext]
        exact ih h.tail (by omega) hx

theorem Chain.pairwise (h : Chain m a stop blocks) :
    ((placed 12 a blocks).map Prod.fst).Pairwise fun x y => x + SIZEOF_BLOCK + sizeOf m x ≤ y := by
  rw [List.pairwise_map]
  apply (placed_pairwise a blocks).imp_of_mem
  intro x y hx _ hxy
  rw [(h.headers x hx).1]
  exact hxy

end Chain

theorem Stands.tiled {h : Heap} {blocks : List Block} (hs : Stands h blocks) : Tiled h := by
  refine ⟨_, ?_, hs.chain.pairwise⟩
  rw [hs.head_eq]
  exact hs.chain.tiles hs.ne_nil

-- What keeps the tiling: the first node that is free and large enough, unless it is the
-- last, fits exactly or leaves room for a header and more. A pointer to free is live.
def TilingOk (s : Session) : Request → Prop
  | .malloc size =>
      1 ≤ size ∧ size ≤ 1048576 ∧ (s.heap.mallocListHead ≠ 0 → ¬Slack s.heap size)
  | .free ptr => ∃ size, (ptr, size) ∈ s.live

-- Before the first request, or on a heap that stands.
def Kept (s : Session) : Prop :=
  s.heap.mallocListHead = 0 ∧ s.live = [] ∨ ∃ blocks, Stands s.heap blocks

theorem exec_stands {s s' : Session} {r : Request} (hk : Kept s) (hok : TilingOk s r)
    (hexec : exec s r = .ok s') : ∃ blocks, Stands s'.heap blocks := by
  cases r with
  | malloc size =>
      obtain ⟨hlo, hhi, hslack⟩ := hok
      obtain ⟨⟨ptr, heap⟩, hmalloc, hdone⟩ := exists_of_bind hexec
      obtain rfl := Except.ok.inj hdone
      rcases hk with ⟨hnull, _⟩ | ⟨blocks, hs⟩
      · obtain ⟨extra, _, hs', _⟩ := syscallMalloc_init hnull hlo (by omega) (initialPages_le hhi) hmalloc
        exact ⟨_, hs'⟩
      · obtain ⟨_, _, _, _, _, _, _, hs', _⟩ :=
          syscallMalloc_stands hs hlo (by omega) (hslack hs.head_ne) hmalloc
        exact ⟨_, hs'⟩
  | free ptr =>
      obtain ⟨size, hlive⟩ := hok
      obtain ⟨heap, hfree, hdone⟩ := exists_of_bind hexec
      obtain rfl := Except.ok.inj hdone
      rcases hk with ⟨_, hnone⟩ | ⟨blocks, hs⟩
      · rw [hnone] at hlive
        cases hlive
      · rcases syscallFree_stands hs hfree with rfl | ⟨_, _, _, _, _, hs'⟩
        · exact ⟨blocks, hs⟩
        · exact ⟨_, hs'⟩

-- malloc_init tiles its pages, and every run of requests that never meets a node too
-- large to take and too small to split keeps the heap tiled.
theorem tiled_of_met (kernel : Kernel) (bytes : Memory) :
    (∀ (size : Nat) (h' : Heap), 1 ≤ size → size ≤ 1048576 →
      (Session.start kernel bytes).heap.mallocInit size = .ok h' → Tiled h') ∧
    ∀ (requests : List Request) (s : Session),
      AllMet exec TilingOk (Session.start kernel bytes) requests →
      run exec (Session.start kernel bytes) requests = .ok s → requests ≠ [] → Tiled s.heap := by
  refine ⟨fun size h' hlo hhi hinit => ?_, fun requests s hmet hrun hne => ?_⟩
  · exact (mallocInit_stands hlo (by omega) (initialPages_le hhi) hinit).tiled
  · obtain ⟨blocks, hs⟩ := run_invariant_of_first (fun s => ∃ blocks, Stands s.heap blocks)
      (fun r s₁ hok hexec => exec_stands (Or.inl ⟨rfl, rfl⟩) hok hexec)
      (fun s r s' hs hok hexec => exec_stands (Or.inr hs) hok hexec) hmet hrun hne
    exact hs.tiled

section Sample

theorem ready_sample : Ready sampleKernel 6 := by
  obtain ⟨directory, table, hl, _, hpmm⟩ := layout_sample
  have hzero : (Kernel.initialPmm Pmm.samplePmm).testBit 0 = true := by decide +kernel
  have hroom : Room ∅ (Kernel.initialPmm Pmm.samplePmm) 6 :=
    room_of_free {4, 5, 6, 8, 9, 10} (by decide +kernel) (by decide +kernel)
  rw [← hpmm] at hzero hroom
  exact ⟨⟨directory, table, hl⟩, hzero, hroom⟩

def sampleStart : Session := Session.start sampleKernel fun _ => 0

-- After one request for a page the rest of a second page is free.
theorem first_sample : ∃ h, exec sampleStart (.malloc 4096) =
      .ok { heap := h, live := [(KERNEL_HEAP_START + 12, 4096)] } ∧
    Ready h.kernel 2 ∧ Stands h [⟨4096, false⟩, ⟨4072, true⟩] := by
  have hready : Ready sampleStart.heap.kernel (2 + 4) := ready_sample
  obtain ⟨h, hmalloc, hready', hs⟩ := syscallMalloc_page hready rfl
  exact ⟨h, exec_malloc hmalloc, hready', hs⟩

theorem page_used : ∀ c ∈ [(⟨4096, false⟩ : Block)], c.free = false := by simp

-- A second one takes that rest, which is the last block, and no block is free any more.
theorem second_sample {h : Heap} (hs : Stands h [⟨4096, false⟩, ⟨4072, true⟩]) :
    ∃ m, exec { heap := h, live := [(KERNEL_HEAP_START + 12, 4096)] } (.malloc 4072) =
        .ok { heap := { h with bytes := m },
              live := [(KERNEL_HEAP_START + 4120, 4072), (KERNEL_HEAP_START + 12, 4096)] } ∧
      Stands { h with bytes := m } [⟨4096, false⟩, ⟨4072, false⟩] := by
  have hs' : Stands h ([⟨4096, false⟩] ++ [⟨4072, true⟩]) := hs
  have hbefore := not_fits_of_used page_used 4072
  obtain ⟨m, hmalloc, hstands⟩ := syscallMalloc_exact hs' (by decide) hbefore (Or.inr rfl)
  exact ⟨m, exec_malloc hmalloc, hstands⟩

theorem tiled_of_met_sample : ∃ s, run exec sampleStart [.malloc 4096, .malloc 4072] = .ok s ∧
    Tiled s.heap := by
  obtain ⟨h, hfirst, _, hs⟩ := first_sample
  obtain ⟨m, hsecond, _⟩ := second_sample hs
  have hrun := (run_cons hfirst [.malloc 4072]).trans (run_cons hsecond [])
  refine ⟨_, hrun, (tiled_of_met sampleKernel (fun _ => 0)).2 [.malloc 4096, .malloc 4072] _
    ⟨⟨by decide, by decide, ?_⟩, ?_⟩ hrun (List.cons_ne_nil _ _)⟩
  · exact fun hne => absurd rfl hne
  · intro s₁ hs₁
    obtain rfl := Except.ok.inj (hfirst.symm.trans hs₁)
    refine ⟨⟨by decide, by decide, fun _ => ?_⟩, fun _ _ => trivial⟩
    have hs' : Stands h ([⟨4096, false⟩] ++ [⟨4072, true⟩]) := hs
    exact not_slack_of_last hs' (not_fits_of_used page_used 4072)

-- Growth at a node that is not the last: the node behind it is made of bytes that belong to
-- the next one.
theorem not_tiled_of_overlap (h : Heap) {m : Memory} {next size₁ size₂ : Nat}
    (hfirst : nextOf m h.mallocListHead = next) (hnext : next ≠ 0) (hsize : sizeOf m next = size₁)
    (hafter : nextOf m next = size₂) (hne : size₂ ≠ 0) (hoverlap : size₂ < next + 12 + size₁) :
    ¬Tiled { h with bytes := m } := by
  intro ⟨nodes, htiles, _⟩
  cases htiles with
  | last hzero _ => exact hnext (hfirst.symm.trans hzero)
  | cons _ _ hrest =>
      simp only [hfirst] at hrest
      cases hrest with
      | last hzero _ => exact hne (hafter.symm.trans hzero)
      | cons _ hadjacent _ =>
          rw [hafter, hsize] at hadjacent
          change size₂ = next + 12 + size₁ at hadjacent
          omega

theorem mergeFrom_skip {m : Memory} {cur next : Nat} (steps : Nat) (hcur : cur ≠ 0)
    (hnext : nextOf m cur = next) (hne : next ≠ 0) (hused : (isFree m cur && isFree m next) = false) :
    mergeFrom (steps + 1) m cur = mergeFrom steps m next := by
  rw [mergeFrom, hnext, if_pos ⟨hcur, hne⟩, hused]
  simp only [Bool.false_eq_true, ite_false, hnext]

theorem mergeFrom_last {m : Memory} {cur : Nat} (steps : Nat) (hnext : nextOf m cur = 0) :
    mergeFrom (steps + 1) m cur = some m := by
  rw [mergeFrom, if_neg fun h => h.2 hnext]

-- Three nodes, the first of them in use and none of them mergeable with the next.
theorem mergeFrom_three {m : Memory} {first second third : Nat} (hfirst : first ≠ 0)
    (hsecond : second ≠ 0) (hthird : third ≠ 0) (hnext₁ : nextOf m first = second)
    (hnext₂ : nextOf m second = third) (hnext₃ : nextOf m third = 0) (hused₁ : isFree m first = false)
    (hused₃ : isFree m third = false) : mergeFrom LIST_STEPS m first = some m := by
  have hsteps : LIST_STEPS = 4294967293 + 1 + 1 + 1 := by decide
  rw [hsteps, mergeFrom_skip _ hfirst hnext₁ hsecond (by rw [hused₁, Bool.false_and]),
    mergeFrom_skip _ hsecond hnext₂ hthird (by rw [hused₃, Bool.and_false]), mergeFrom_last _ hnext₃]

-- The node at `start` is free and twelve bytes larger than the request; it is credited with
-- a page and split, while the other node stays where it was.
theorem split_sample {m : Memory} {start stop : Nat} (hstop : start + 8192 = stop) (hlt : stop < 4294963200)
    (hchain : Chain m start stop [⟨4096, true⟩, ⟨4072, false⟩]) :
    let m' := mallocSplit (setSize m start 8192) start 4084
    (nextOf m' start = start + 4096 ∧ isFree m' start = false) ∧
      (nextOf m' (start + 4096) = start + 4108 ∧ sizeOf m' (start + 4096) = 4096) ∧
      nextOf m' (start + 4108) = 0 ∧ isFree m' (start + 4108) = false := by
  obtain ⟨_, _, hnext⟩ := hchain.head
  have hsecond : Header m stop (start + 4108, ⟨4072, false⟩) := hchain.tail.head
  simp only at hnext
  rw [if_neg (by omega)] at hnext
  have hnext' : nextOf (setSize m start 8192) start = start + 4108 := nextOf_setSize.trans hnext
  have hsize' : sizeOf (setSize m start 8192) start = 8192 := sizeOf_setSize (by omega)
  have hsplit := mallocSplit_eq (show 4084 + 12 ≤ sizeOf (setSize m start 8192) start by omega) (by omega)
  rw [hsize', hnext'] at hsplit
  obtain ⟨hsizeB, _, hnextB⟩ := writeHeader_fields (setSize m start 8192) (start + 12 + 4084) true
    (show 8192 - 4084 - 12 < 4294967296 by omega) (show start + 4108 < 4294967296 by omega)
  obtain ⟨_, hfreeA, hnextA⟩ := writeHeader_fields (writeHeader (setSize m start 8192) (start + 12 + 4084)
    (8192 - 4084 - 12) true (start + 4108)) start false (show 4084 < 4294967296 by omega)
    (show start + 12 + 4084 < 4294967296 by omega)
  have hagreeA := agreeOff_writeHeader (writeHeader (setSize m start 8192) (start + 12 + 4084)
    (8192 - 4084 - 12) true (start + 4108)) start 4084 false (start + 12 + 4084)
  have hagreeB := agreeOff_writeHeader (setSize m start 8192) (start + 12 + 4084) (8192 - 4084 - 12) true
    (start + 4108)
  rw [← hsplit] at hagreeA hfreeA hnextA
  have hapart : ∀ other n, start + 12 ≤ other → n ∈ [start] → other + 12 ≤ n ∨ n + 12 ≤ other := by
    intro other n hlo hn
    rw [List.mem_singleton.mp hn]
    omega
  obtain ⟨hsizeC, _, hnextC⟩ := hagreeA.fields (start + 12 + 4084) fun n => hapart _ n (by omega)
  -- the other node is apart from both headers
  have hother : Header (setSize m start 8192) stop (start + 4108, ⟨4072, false⟩) :=
    hsecond.agree (agreeOff_setSize (List.mem_singleton_self start)) fun n => hapart _ n (by simp only; omega)
  have hother' := hother.agree hagreeB fun n hn => by
    rw [List.mem_singleton.mp hn]
    simp only
    omega
  obtain ⟨_, hfree, hlast⟩ := hother'.agree hagreeA fun n => hapart _ n (by simp only; omega)
  simp only at hfree hlast
  rw [if_pos (by omega)] at hlast
  rw [show start + 12 + 4084 = start + 4096 by omega] at *
  exact ⟨⟨hnextA, hfreeA⟩, ⟨hnextC.trans hnextB, hsizeC.trans hsizeB⟩, hlast, hfree⟩

-- The page goes to the end of the heap, and the new node overlaps the other one.
theorem slack_sample (h : Heap) (hk : Ready h.kernel 2)
    (hs : Stands h [⟨4096, true⟩, ⟨4072, false⟩]) :
    ∃ h', h.syscallMalloc 4084 = .ok (KERNEL_HEAP_START + 12, h') ∧ ¬Tiled h' := by
  have hextent := hs.chain.extent_eq
  simp only [extent] at hextent
  have hs' : Stands h ([] ++ ⟨4096, true⟩ :: [⟨4072, false⟩]) := hs
  obtain ⟨h₁, hgrow, _, hbytes, hhead, _⟩ := growPage_ok hk KERNEL_HEAP_START h.heapEnd
    (by rw [← hextent]; decide) (by rw [← hextent]; decide)
  have hfilled := hs.chain.congr (fill h.bytes h.heapEnd PAGE_SIZE 0) fun c hc => fill_of_apart (Or.inl hc) 0
  have hsize : sizeOf (fill h.bytes h.heapEnd PAGE_SIZE 0) KERNEL_HEAP_START = 4096 := hfilled.head.1
  have hgrown : u32 (4096 + PAGE_SIZE) = 8192 := u32_of_lt (show 4096 + 4096 < 4294967296 by omega)
  rw [hsize, hgrown] at hbytes
  obtain ⟨⟨hnext₁, hused₁⟩, ⟨hnext₂, hsize₂⟩, hnext₃, hused₃⟩ :=
    split_sample hextent (by rw [← hextent]; decide) hfilled
  rw [← hbytes] at hnext₁ hused₁ hnext₂ hsize₂ hnext₃ hused₃
  have hmerge := mergeFrom_three (by decide) (by decide) (by decide) hnext₁ hnext₂ hnext₃ hused₁ hused₃
  have htake : h.takeBlock (KERNEL_HEAP_START + extent 12 []) 4084 =
      .ok { h₁ with bytes := mallocSplit h₁.bytes KERNEL_HEAP_START 4084 } := by
    rw [takeBlock_grow hs' (by omega) (by decide) (by decide),
      show numPages (Block.size ⟨4096, true⟩) 4084 = some 1 by decide]
    have hpages : growPages 1 h (KERNEL_HEAP_START + extent 12 []) h.heapEnd = .ok h₁ := by
      rw [growPages, show KERNEL_HEAP_START + extent 12 [] = KERNEL_HEAP_START from rfl, hgrow]
      rfl
    simp only [hpages]
    rfl
  refine ⟨{ h₁ with bytes := mallocSplit h₁.bytes KERNEL_HEAP_START 4084 }, ?_, ?_⟩
  · rw [syscallMalloc_eq hs (by omega) (hs'.search (fun c hc => absurd hc List.not_mem_nil)
      (Or.inl ⟨by decide, rfl⟩)), htake, Kernel.ok_bind]
    unfold mergeFreeBlocks
    simp only [hhead, hs.head_eq, hmerge]
    rfl
  · have hnext : nextOf (mallocSplit h₁.bytes KERNEL_HEAP_START 4084) h₁.mallocListHead =
        KERNEL_HEAP_START + 4096 := by
      rw [hhead, hs.head_eq]
      exact hnext₁
    have hstart : KERNEL_HEAP_START = 3506438144 := rfl
    refine not_tiled_of_overlap h₁ hnext ?_ hsize₂ hnext₂ ?_ ?_ <;> omega

theorem third_sample {h : Heap} (hs : Stands h [⟨4096, false⟩, ⟨4072, false⟩]) :
    ∃ m, exec { heap := h,
                live := [(KERNEL_HEAP_START + 4120, 4072), (KERNEL_HEAP_START + 12, 4096)] }
          (.free (KERNEL_HEAP_START + 12)) =
        .ok { heap := { h with bytes := m }, live := [(KERNEL_HEAP_START + 4120, 4072)] } ∧
      Stands { h with bytes := m } [⟨4096, true⟩, ⟨4072, false⟩] := by
  have hs' : Stands h ([] ++ ⟨4096, false⟩ :: [⟨4072, false⟩]) := hs
  obtain ⟨m, hfree, hstands⟩ := syscallFree_ok hs' (by simp)
  exact ⟨m, exec_free hfree, hstands⟩

-- Two requests, the release of the first and a third one that is twelve bytes smaller.
theorem not_tiled_sample : ∃ s, run exec sampleStart
      [.malloc 4096, .malloc 4072, .free (KERNEL_HEAP_START + 12), .malloc 4084] = .ok s ∧
    ¬Tiled s.heap := by
  obtain ⟨h₁, hfirst, hk, hs₁⟩ := first_sample
  obtain ⟨m₂, hsecond, hs₂⟩ := second_sample hs₁
  obtain ⟨m₃, hthird, hs₃⟩ := third_sample hs₂
  obtain ⟨h₄, hmalloc, hbroken⟩ := slack_sample { h₁ with bytes := m₃ } hk hs₃
  have hfourth : exec { heap := { h₁ with bytes := m₃ }, live := [(KERNEL_HEAP_START + 4120, 4072)] }
      (.malloc 4084) = _ := exec_malloc hmalloc
  refine ⟨{ heap := h₄, live := [(KERNEL_HEAP_START + 12, 4084), (KERNEL_HEAP_START + 4120, 4072)] }, ?_,
    hbroken⟩
  rw [run_cons hfirst, run_cons hsecond, run_cons hthird, run_cons hfourth]
  rfl

end Sample

end ToyKernel.Heap
