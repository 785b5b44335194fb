import ToyKernel.Heap.Tiling

namespace ToyKernel.Heap

open Library ByteMemory BlockList

-- The payload ranges of the live allocations are pairwise disjoint, inside the mapped
-- heap, and contain no header; no pointer is live twice.
structure Exclusive (s : Session) : Prop where
  apart : s.live.Pairwise fun x y => x.1 + x.2 ≤ y.1 ∨ y.1 + y.2 ≤ x.1
  mapped : ∀ x ∈ s.live, KERNEL_HEAP_START ≤ x.1 ∧ x.1 + x.2 ≤ s.heap.heapEnd
  headers : ∃ nodes, Tiles s.heap.bytes s.heap.heapEnd s.heap.mallocListHead nodes ∧
    ∀ node ∈ nodes, ∀ x ∈ s.live, node + SIZEOF_BLOCK ≤ x.1 ∨ x.1 + x.2 ≤ node
  distinct : (s.live.map Prod.fst).Nodup

-- As for the tiling; and the search does not stop at a node that is live.
def ExclusiveOk (s : Session) (r : Request) : Prop :=
  TilingOk s r ∧
    match r with
    | .malloc size => s.heap.mallocListHead ≠ 0 → ∀ cur,
        findBlock s.heap.bytes size LIST_STEPS s.heap.mallocListHead = some cur →
          ∀ x ∈ s.live, x.1 ≠ cur + SIZEOF_BLOCK
    | .free _ => True

-- Every live allocation is a block in use of its own.
structure Owned (s : Session) (blocks : List Block) : Prop where
  stands : Stands s.heap blocks
  block : ∀ x ∈ s.live, ∃ p, x.1 = p + 12 ∧ (p, ⟨x.2, false⟩) ∈ placed 12 KERNEL_HEAP_START blocks
  distinct : (s.live.map Prod.fst).Nodup

variable {s s' : Session} {blocks : List Block}

theorem Owned.exclusive (h : Owned s blocks) : Exclusive s where
  apart := by
    apply (List.pairwise_map.mp h.distinct).imp_of_mem
    intro x y hx hy hxy
    obtain ⟨p, hp, hpm⟩ := h.block x hx
    obtain ⟨q, hq, hqm⟩ := h.block y hy
    rcases placed_apart hpm hqm with he | hlo | hhi
    · have hpq : p = q := congrArg Prod.fst he
      omega
    · simp only at hlo
      omega
    · simp only at hhi
      omega
  mapped x hx := by
    obtain ⟨p, hp, hpm⟩ := h.block x hx
    have hbounds := placed_bounds hpm
    have hextent := h.stands.chain.extent_eq
    simp only at hbounds
    omega
  headers := by
    refine ⟨(placed 12 KERNEL_HEAP_START blocks).map Prod.fst, ?_, fun node hnode x hx => ?_⟩
    · rw [h.stands.head_eq]
      exact h.stands.chain.tiles h.stands.ne_nil
    · obtain ⟨y, hy, rfl⟩ := List.mem_map.mp hnode
      obtain ⟨p, hp, hpm⟩ := h.block x hx
      have hpad : SIZEOF_BLOCK = 12 := rfl
      rcases placed_apart hy hpm with rfl | hlo | hhi
      · simp only
        omega
      · simp only at hlo
        omega
      · simp only at hhi
        omega
  distinct := h.distinct

section Steps

theorem Owned.malloc (h : Owned s blocks) {size : Nat} (hlo : 1 ≤ size) (hhi : size + 12 < 4294967296)
    (hslack : ¬Slack s.heap size)
    (hsearch : ∀ cur, findBlock s.heap.bytes size LIST_STEPS s.heap.mallocListHead = some cur →
      ∀ x ∈ s.live, x.1 ≠ cur + SIZEOF_BLOCK)
    (hexec : exec s (.malloc size) = .ok s') : ∃ blocks', Owned s' blocks' := by
  obtain ⟨⟨ptr, heap⟩, hmalloc, hdone⟩ := exists_of_bind hexec
  obtain rfl := Except.ok.inj hdone
  obtain ⟨before, b, after, extra, rfl, hfound, hptr, hs', hcarved⟩ :=
    syscallMalloc_stands h.stands hlo hhi hslack hmalloc
  have hfresh := hsearch _ hfound
  refine ⟨_, hs', fun x hx => ?_, ?_⟩
  · rcases List.mem_cons.mp hx with rfl | hx
    · refine ⟨KERNEL_HEAP_START + extent 12 before, hptr, used_mergePass rfl ?_⟩
      exact mem_placed_middle _ before _ _
    · obtain ⟨p, hp, hpm⟩ := h.block x hx
      refine ⟨p, hp, used_mergePass rfl ?_⟩
      apply mem_placed_replace (⟨size, false⟩ :: extra) hpm ?_ hcarved.extent_eq
      intro he
      apply hfresh x hx
      rw [hp]
      exact congrArg (· + 12) he
  · refine List.nodup_cons.mpr ⟨fun hmem => ?_, h.distinct⟩
    obtain ⟨x, hx, he⟩ := List.mem_map.mp hmem
    exact hfresh x hx (he.trans hptr)

theorem Owned.free (h : Owned s blocks) {ptr : Nat} (hexec : exec s (.free ptr) = .ok s') :
    ∃ blocks', Owned s' blocks' := by
  obtain ⟨heap, hfree, hdone⟩ := exists_of_bind hexec
  obtain rfl := Except.ok.inj hdone
  have hdistinct : ((s.live.filter fun a => a.1 ≠ ptr).map Prod.fst).Nodup :=
    h.distinct.sublist (List.filter_sublist.map Prod.fst)
  rcases syscallFree_stands h.stands hfree with rfl | ⟨before, b, after, rfl, hptr, hs'⟩
  · exact ⟨blocks, h.stands, fun x hx => h.block x (List.mem_of_mem_filter hx), hdistinct⟩
  · refine ⟨_, hs', fun x hx => ?_, hdistinct⟩
    obtain ⟨hx, hne⟩ := List.mem_filter.mp hx
    rw [decide_eq_true_eq] at hne
    obtain ⟨p, hp, hpm⟩ := h.block x hx
    refine ⟨p, hp, used_mergePass rfl ?_⟩
    apply mem_placed_replace [⟨b.size, true⟩] hpm ?_ fun _ => rfl
    intro he
    apply hne
    rw [hp, hptr]
    exact congrArg (· + 12) he

end Steps

-- The first request of all
theorem owned_first {kernel : Kernel} {bytes : Memory} {size : Nat} (hlo : 1 ≤ size)
    (hhi : size + 12 < 4294967296) (hend : initialPages size ≤ 192511)
    (hexec : exec (Session.start kernel bytes) (.malloc size) = .ok s) : ∃ blocks, Owned s blocks := by
  obtain ⟨⟨ptr, heap⟩, hmalloc, hdone⟩ := exists_of_bind hexec
  obtain rfl := Except.ok.inj hdone
  obtain ⟨extra, hptr, hs, _⟩ := syscallMalloc_init rfl hlo hhi hend hmalloc
  refine ⟨_, hs, fun x hx => ?_, by simp [Session.start]⟩
  rw [List.mem_singleton.mp hx]
  exact ⟨KERNEL_HEAP_START, hptr, used_mergePass rfl List.mem_cons_self⟩

theorem owned_start {kernel : Kernel} {bytes : Memory} {r : Request}
    (hok : TilingOk (Session.start kernel bytes) r)
    (hexec : exec (Session.start kernel bytes) r = .ok s) : ∃ blocks, Owned s blocks := by
  cases r with
  | malloc size =>
      obtain ⟨hlo, hhi, _⟩ := hok
      exact owned_first hlo (by omega) (initialPages_le hhi) hexec
  | free ptr =>
      obtain ⟨size, hlive⟩ := hok
      cases hlive

-- In every run whose requests meet the condition, payloads are exclusive.
theorem exclusive_of_met (kernel : Kernel) (bytes : Memory) (requests : List Request) (s : Session)
    (hmet : AllMet exec ExclusiveOk (Session.start kernel bytes) requests)
    (hrun : run exec (Session.start kernel bytes) requests = .ok s) (hne : requests ≠ []) :
    Exclusive s := by
  obtain ⟨blocks, hs⟩ := run_invariant_of_first (fun s => ∃ blocks, Owned s blocks)
    (fun r s₁ hok hexec => owned_start hok.1 hexec) (fun s r s' ⟨blocks, hs⟩ hok hexec => by
      cases r with
      | malloc size =>
          obtain ⟨⟨hlo, hhi, hslack⟩, hsearch⟩ := hok
          exact hs.malloc hlo (by omega) (hslack hs.stands.head_ne) (hsearch hs.stands.head_ne) hexec
      | free ptr => exact hs.free hexec) hmet hrun hne
  exact hs.exclusive

section Sample

theorem exclusive_of_met_sample : ∃ s, run exec sampleStart [.malloc 4096, .malloc 4072] = .ok s ∧
    Exclusive s := by
  obtain ⟨h, hfirst, _, hs⟩ := first_sample
  obtain ⟨m, hsecond, _⟩ := second_sample hs
  have hrun := (run_cons hfirst [.malloc 4072]).trans (run_cons hsecond [])
  refine ⟨_, hrun, exclusive_of_met sampleKernel (fun _ => 0) [.malloc 4096, .malloc 4072] _
    ⟨⟨⟨by decide, by decide, ?_⟩, ?_⟩, ?_⟩ hrun (List.cons_ne_nil _ _)⟩
  · exact fun hne => absurd rfl hne
  · exact fun hne => absurd rfl hne
  · intro s₁ hs₁
    obtain rfl := Except.ok.inj (hfirst.symm.trans hs₁)
    have hs' : Stands h ([⟨4096, false⟩] ++ [⟨4072, true⟩]) := hs
    have hbefore := not_fits_of_used page_used 4072
    refine ⟨⟨⟨by decide, by decide, fun _ => not_slack_of_last hs' hbefore⟩, ?_⟩, fun _ _ => trivial⟩
    intro _ cur hfound x hx he
    rw [hs'.search hbefore (Or.inr rfl)] at hfound
    obtain rfl := Option.some.inj hfound
    rw [List.mem_singleton.mp hx] at he
    revert he
    decide

-- The heap is full; the search ends at the last node although it is in use.
theorem third_again_sample {h : Heap} (hs : Stands h [⟨4096, false⟩, ⟨4072, false⟩]) :
    ∃ m, exec { heap := h,
                live := [(KERNEL_HEAP_START + 4120, 4072), (KERNEL_HEAP_START + 12, 4096)] }
          (.malloc 4072) =
        .ok { heap := { h with bytes := m },
              live := [(KERNEL_HEAP_START + 4120, 4072), (KERNEL_HEAP_START + 4120, 4072),
                (KERNEL_HEAP_START + 12, 4096)] } := by
  have hs' : Stands h ([⟨4096, false⟩] ++ [⟨4072, false⟩]) := hs
  have hbefore := not_fits_of_used page_used 4072
  obtain ⟨m, hmalloc, _⟩ := syscallMalloc_exact hs' (by decide) hbefore (Or.inr rfl)
  exact ⟨m, exec_malloc hmalloc⟩

theorem not_exclusive_sample : ∃ s,
    run exec sampleStart [.malloc 4096, .malloc 4072, .malloc 4072] = .ok s ∧ ¬Exclusive s := by
  obtain ⟨h₁, hfirst, _, hs₁⟩ := first_sample
  obtain ⟨m₂, hsecond, hs₂⟩ := second_sample hs₁
  obtain ⟨m₃, hthird⟩ := third_again_sample hs₂
  refine ⟨_, (run_cons hfirst _).trans ((run_cons hsecond _).trans (run_cons hthird [])), fun he => ?_⟩
  have hdistinct := he.distinct
  simp at hdistinct

end Sample

end ToyKernel.Heap
