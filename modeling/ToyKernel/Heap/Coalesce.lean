import ToyKernel.Heap.Tiling

namespace ToyKernel.Heap

open Library ByteMemory BlockList

-- No list at all, or one that tiles the bytes up to `stop`, below the top of the address
-- space
def WellFormed (h : Heap) (stop : Nat) (nodes : List Nat) : Prop :=
  h.mallocListHead = 0 ∧ nodes = [] ∨
    0 < h.mallocListHead ∧ stop < 4294967296 ∧ Tiles h.bytes stop h.mallocListHead nodes

def total (m : Memory) (nodes : List Nat) : Nat :=
  (nodes.map fun node => sizeOf m node + SIZEOF_BLOCK).sum

def InUse (m : Memory) (nodes : List Nat) (node size : Nat) : Prop :=
  node ∈ nodes ∧ isFree m node = false ∧ sizeOf m node = size

-- What merge_free_blocks is to leave behind: no two neighbours that are both free, the nodes
-- in use and the total as they were, and nothing for a second pass to do.
structure Coalesced (h h' : Heap) (stop : Nat) (nodes nodes' : List Nat) : Prop where
  wellFormed : WellFormed h' stop nodes'
  apart : ¬[true, true] <:+: nodes'.map (isFree h'.bytes)
  inUse : ∀ node size, InUse h'.bytes nodes' node size ↔ InUse h.bytes nodes node size
  total_eq : total h'.bytes nodes' = total h.bytes nodes
  again : h'.mergeFreeBlocks = .ok h'

def CoalescesFully (h : Heap) (stop : Nat) (nodes : List Nat) : Prop :=
  ∃ h' nodes', h.mergeFreeBlocks = .ok h' ∧ Coalesced h h' stop nodes nodes'

section Blocks

variable {m : Memory} {a stop : Nat} {nodes : List Nat} {blocks : List Block}

-- A tiling read as blocks
theorem Tiles.chain (h : Tiles m stop a nodes) : ∃ blocks, blocks ≠ [] ∧ Chain m a stop blocks ∧
    nodes = (placed 12 a blocks).map Prod.fst := by
  induction h with
  | @last node hnext hend =>
      have hpad : SIZEOF_BLOCK = 12 := rfl
      refine ⟨[⟨sizeOf m node, isFree m node⟩], List.cons_ne_nil _ _, ⟨fun x hx => ?_, ?_⟩, rfl⟩
      · rw [List.mem_singleton.mp hx]
        exact ⟨rfl, rfl, by rw [hnext, if_pos (by simp only; omega)]⟩
      · simp only [extent]
        omega
  | @cons node nodes hnext hadjacent _ ih =>
      obtain ⟨blocks, hne, hchain, hnodes⟩ := ih
      have hpad : SIZEOF_BLOCK = 12 := rfl
      have hextent := hchain.extent_eq
      obtain ⟨b, rest, rfl⟩ := List.exists_cons_of_ne_nil hne
      simp only [extent] at hextent
      have hbehind : nextOf m node = node + 12 + sizeOf m node := by omega
      refine ⟨⟨sizeOf m node, isFree m node⟩ :: b :: rest, List.cons_ne_nil _ _, ⟨fun x hx => ?_, ?_⟩, ?_⟩
      · rcases List.mem_cons.mp hx with rfl | hx
        · exact ⟨rfl, rfl, by rw [if_neg (by simp only; omega)]; exact hbehind⟩
        · exact hchain.headers x (by rwa [hbehind])
      · simp only [extent]
        omega
      · rw [hnodes, hbehind]
        rfl

-- Whatever a list of blocks says of itself, the nodes say in memory.
theorem Chain.flags (h : Chain m a stop blocks) :
    ((placed 12 a blocks).map Prod.fst).map (isFree m) = blocks.map Block.free := by
  induction blocks generalizing a with
  | nil => rfl
  | cons b blocks ih =>
      simp only [placed, List.map_cons, ih h.tail]
      rw [show isFree m a = b.free from h.head.2.1]

theorem Chain.total (h : Chain m a stop blocks) :
    total m ((placed 12 a blocks).map Prod.fst) = extent 12 blocks := by
  induction blocks generalizing a with
  | nil => rfl
  | cons b blocks ih =>
      have hrest := ih h.tail
      unfold Heap.total at hrest ⊢
      simp only [placed, List.map_cons, List.sum_cons, extent, hrest]
      rw [show sizeOf m a = b.size from h.head.1, show SIZEOF_BLOCK = 12 from rfl]
      omega

theorem Chain.inUse_iff (h : Chain m a stop blocks) {node size : Nat} :
    InUse m ((placed 12 a blocks).map Prod.fst) node size ↔
      (node, ⟨size, false⟩) ∈ placed 12 a blocks := by
  unfold InUse
  rw [List.mem_map]
  constructor
  · rintro ⟨⟨x, hx, rfl⟩, hused, rfl⟩
    obtain ⟨hsize, hfree, -⟩ := h.headers x hx
    rw [hsize, ← hused, hfree]
    exact hx
  · intro hx
    obtain ⟨hsize, hfree, -⟩ := h.headers _ hx
    exact ⟨⟨_, hx, rfl⟩, hfree, hsize⟩

end Blocks

variable {h : Heap} {stop : Nat} {nodes : List Nat} {blocks : List Block}

-- A well-formed list as blocks; where there is none, no blocks stand at any place.
theorem WellFormed.chain (hw : WellFormed h stop nodes) : ∃ a stop' blocks, 0 < a ∧ stop' < 4294967296 ∧
    (blocks ≠ [] → stop' = stop) ∧ h.mallocListHead = first a stop' ∧ Chain h.bytes a stop' blocks ∧
      nodes = (placed 12 a blocks).map Prod.fst := by
  rcases hw with ⟨hnull, rfl⟩ | ⟨hpos, hstop, htiles⟩
  · exact ⟨1, 1, [], by omega, by omega, fun hne => absurd rfl hne, hnull.trans (if_pos rfl).symm,
      ⟨fun x hx => absurd hx List.not_mem_nil, rfl⟩, rfl⟩
  · obtain ⟨blocks, hne, hchain, hnodes⟩ := htiles.chain
    obtain ⟨b, rest, rfl⟩ := List.exists_cons_of_ne_nil hne
    exact ⟨h.mallocListHead, stop, b :: rest, hpos, hstop, fun _ => rfl, (first_cons hchain).symm, hchain,
      hnodes⟩

theorem wellFormed_of_chain {a stop' : Nat} (hpos : 0 < a) (hstop : stop' < 4294967296)
    (hend : blocks ≠ [] → stop' = stop) (hhead : h.mallocListHead = first a stop')
    (hc : Chain h.bytes a stop' blocks) : WellFormed h stop ((placed 12 a blocks).map Prod.fst) := by
  cases blocks with
  | nil => exact Or.inl ⟨hhead.trans (if_pos hc.extent_eq), rfl⟩
  | cons b rest =>
      obtain rfl := hend (List.cons_ne_nil b rest)
      rw [first_cons hc] at hhead
      refine Or.inr ⟨by omega, hstop, ?_⟩
      rw [hhead]
      exact hc.tiles (List.cons_ne_nil b rest)

-- For a list given as blocks the pass does what it is to do exactly where it leaves no two
-- neighbours that are both free.
theorem coalescesFully_of_chain {a stop' : Nat} (hpos : 0 < a) (hstop : stop' < 4294967296)
    (hend : blocks ≠ [] → stop' = stop) (hhead : h.mallocListHead = first a stop')
    (hc : Chain h.bytes a stop' blocks) :
    CoalescesFully h stop ((placed 12 a blocks).map Prod.fst) ↔ Settled (mergePass 12 blocks) := by
  obtain ⟨m, hmerge, hmerged⟩ := mergeFreeBlocks_chain hc hhead hpos hstop
  have hkept : mergePass 12 blocks ≠ [] → stop' = stop := fun hne => hend fun hnil => hne (by
    rw [hnil]
    rfl)
  constructor
  · rintro ⟨h', nodes', hrun, hdone⟩
    obtain rfl := Except.ok.inj (hmerge.symm.trans hrun)
    by_cases hnil : mergePass 12 blocks = []
    · rw [hnil]
      exact List.IsChain.nil
    · obtain rfl := hkept hnil
      obtain ⟨b, rest, hcons⟩ := List.exists_cons_of_ne_nil hnil
      have hfirst : first a stop' = a := first_cons (hcons ▸ hmerged)
      rcases hdone.wellFormed with ⟨hnull, -⟩ | ⟨-, -, htiles⟩
      · exact absurd (hfirst.symm.trans (hhead.symm.trans hnull)) (by omega)
      · obtain ⟨blocks', -, hchain, hnodes⟩ := htiles.chain
        have hapart := hdone.apart
        simp only [hhead, hfirst] at hchain hnodes
        rw [hnodes, hchain.flags, hchain.unique hmerged] at hapart
        exact settled_iff.mpr hapart
  · intro hall
    refine ⟨_, _, hmerge, wellFormed_of_chain hpos hstop hkept hhead hmerged, ?_, fun node size => ?_, ?_, ?_⟩
    · rw [hmerged.flags]
      exact settled_iff.mp hall
    · rw [hmerged.inUse_iff, hc.inUse_iff]
      exact ⟨of_used_mergePass rfl, used_mergePass rfl⟩
    · rw [hmerged.total, hc.total, extent_mergePass]
    · exact mergeFreeBlocks_of_settled hmerged hhead hpos hstop hall

-- The pass coalesces fully exactly where no three free nodes stand in a row.
theorem coalescesFully_iff (hw : WellFormed h stop nodes) :
    CoalescesFully h stop nodes ↔ ¬[true, true, true] <:+: nodes.map (isFree h.bytes) := by
  obtain ⟨a, stop', blocks, hpos, hstop, hend, hhead, hc, rfl⟩ := hw.chain
  rw [coalescesFully_of_chain hpos hstop hend hhead hc, settled_mergePass_iff, hc.flags]
  rfl

section Sample

-- Any blocks can be laid out as a list from `a` on.
def layOut (stop : Nat) : (a : Nat) → List Block → Memory
  | _, [] => fun _ => 0
  | a, b :: blocks =>
      writeHeader (layOut stop (a + 12 + b.size) blocks) a b.size b.free (first (a + 12 + b.size) stop)

theorem chain_layOut (blocks : List Block) {a stop : Nat} (hextent : a + extent 12 blocks = stop)
    (hstop : stop < 4294967296) : Chain (layOut stop a blocks) a stop blocks := by
  induction blocks generalizing a with
  | nil => exact ⟨fun x hx => absurd hx List.not_mem_nil, hextent⟩
  | cons b blocks ih =>
      simp only [extent] at hextent
      have hrest : Chain (layOut stop (a + 12 + b.size) blocks) (a + 12 + b.size) stop blocks :=
        ih (by omega)
      have hagree := agreeOff_writeHeader (layOut stop (a + 12 + b.size) blocks) a b.size b.free
        (first (a + 12 + b.size) stop)
      have hkept := hrest.agree hagree fun n hn => by
        rw [List.mem_singleton.mp hn]
        omega
      refine ⟨fun x hx => ?_, by simp only [extent]; omega⟩
      rcases List.mem_cons.mp hx with rfl | hx
      · apply header_writeHeader _ (a, b)
        · simp only
          omega
        · unfold first
          split <;> omega
        · rfl
      · exact hkept.headers x hx

-- Blocks at the start of the heap
def laidOut (blocks : List Block) : Heap where
  kernel := sampleKernel
  bytes := layOut (KERNEL_HEAP_START + extent 12 blocks) KERNEL_HEAP_START blocks
  mallocListHead := first KERNEL_HEAP_START (KERNEL_HEAP_START + extent 12 blocks)
  mallocPhysAddress := 0
  totalMallocPages := 1

theorem laidOut_chain {blocks : List Block} (hlt : KERNEL_HEAP_START + extent 12 blocks < 4294967296) :
    Chain (laidOut blocks).bytes KERNEL_HEAP_START (KERNEL_HEAP_START + extent 12 blocks) blocks :=
  chain_layOut blocks rfl hlt

theorem laidOut_wellFormed {blocks : List Block} (hlt : KERNEL_HEAP_START + extent 12 blocks < 4294967296) :
    WellFormed (laidOut blocks) (KERNEL_HEAP_START + extent 12 blocks)
      ((placed 12 KERNEL_HEAP_START blocks).map Prod.fst) :=
  wellFormed_of_chain (by decide) hlt (fun _ => rfl) rfl (laidOut_chain hlt)

def freeBlocks (count : Nat) : List Block := List.replicate count ⟨52, true⟩

-- Two free blocks become one.
theorem coalescesFully_two : CoalescesFully (laidOut (freeBlocks 2)) (KERNEL_HEAP_START + 128)
    [KERNEL_HEAP_START, KERNEL_HEAP_START + 64] := by
  have hlt : KERNEL_HEAP_START + extent 12 (freeBlocks 2) < 4294967296 := by decide
  refine (coalescesFully_iff (laidOut_wellFormed hlt)).mpr ?_
  rw [(laidOut_chain hlt).flags]
  decide

-- Three become two that are both free.
theorem not_coalescesFully_three : WellFormed (laidOut (freeBlocks 3)) (KERNEL_HEAP_START + 192)
      [KERNEL_HEAP_START, KERNEL_HEAP_START + 64, KERNEL_HEAP_START + 128] ∧
    ¬CoalescesFully (laidOut (freeBlocks 3)) (KERNEL_HEAP_START + 192)
      [KERNEL_HEAP_START, KERNEL_HEAP_START + 64, KERNEL_HEAP_START + 128] := by
  have hlt : KERNEL_HEAP_START + extent 12 (freeBlocks 3) < 4294967296 := by decide
  refine ⟨laidOut_wellFormed hlt, fun hall => ?_⟩
  have hsettled := (coalescesFully_of_chain (by decide) hlt (fun _ => rfl) rfl (laidOut_chain hlt)).mp hall
  exact Bool.noConfusion (settled_cons.mp hsettled).1

end Sample

end ToyKernel.Heap
