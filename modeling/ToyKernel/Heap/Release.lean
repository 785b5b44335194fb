import ToyKernel.Heap.Exclusive

namespace ToyKernel.Heap

open Library ByteMemory BlockList

-- The allocations that are held; NULL is none.
def Session.held (s : Session) : List (Nat × Nat) := s.live.filter fun x => x.1 ≠ 0

-- Which requests keep the list and the held blocks in order: a first one whose heap ends
-- below the top of the address space; later ones of no bytes, or whose search stops neither
-- at a node with slack nor at one that is held. Any pointer may be freed once there is a list.
def GrantOk (s : Session) : Request → Prop
  | .malloc size =>
      (s.heap.mallocListHead = 0 → 1 ≤ size ∧ size + SIZEOF_BLOCK < 4294967296 ∧
        KERNEL_HEAP_START + initialPages size * PAGE_SIZE < 4294967296) ∧
      (s.heap.mallocListHead ≠ 0 → size = 0 ∨ size + SIZEOF_BLOCK < 4294967296 ∧
        ¬Slack s.heap size ∧
        ∀ cur, findBlock s.heap.bytes size LIST_STEPS s.heap.mallocListHead = some cur →
          ∀ x ∈ s.live, x.1 ≠ cur + SIZEOF_BLOCK)
  | .free _ => s.heap.mallocListHead ≠ 0

section Lists

variable {m : Memory} {a stop : Nat} {blocks : List Block} {h : Heap}

theorem Chain.settled_iff (hc : Chain m a stop blocks) (hne : blocks ≠ []) :
    (∀ node, Listed m node a → nextOf m node ≠ 0 → isFree m node = true →
      isFree m (nextOf m node) = false) ↔ Settled blocks := by
  induction blocks generalizing a with
  | nil => exact absurd rfl hne
  | cons b blocks ih =>
      have hnext := hc.nextOf_eq
      cases blocks with
      | nil =>
          rw [if_pos rfl] at hnext
          refine iff_of_true (fun node hl hsucc => ?_) (List.IsChain.singleton b)
          cases hl with
          | here => exact absurd hnext hsucc
          | next hmore _ => exact absurd hnext hmore
      | cons c blocks =>
          rw [if_neg (List.cons_ne_nil c blocks)] at hnext
          have hb : isFree m a = b.free := hc.head.2.1
          have hfree : isFree m (nextOf m a) = c.free := by
            rw [hnext]
            exact hc.tail.head.2.1
          have hrest := ih hc.tail (List.cons_ne_nil c blocks)
          rw [← hnext] at hrest
          have hpos : nextOf m a ≠ 0 := by omega
          rw [settled_cons, ← hb, ← hfree, ← hrest]
          constructor
          · intro hall
            refine ⟨?_, fun node hl => hall node (Listed.next hpos hl)⟩
            cases hfirst : isFree m a with
            | false => rfl
            | true => exact hall a Listed.here hpos hfirst
          · rintro ⟨hpair, htail⟩ node hl hsucc hfirst
            cases hl with
            | here => rwa [hfirst] at hpair
            | next _ hl => exact htail node hl hsucc hfirst

end Lists

section Frees

variable {s : Session} {blocks : List Block} {ptr size : Nat}

-- The blocks of what is held
abbrev Held (s : Session) (blocks : List Block) : Prop :=
  Owned { heap := s.heap, live := s.held } blocks

-- A held pointer cuts the list in two at its block.
theorem Owned.split (h : Held s blocks) (hptr : (ptr, size) ∈ s.held) :
    ∃ before after, blocks = before ++ ⟨size, false⟩ :: after ∧
      ptr = KERNEL_HEAP_START + extent 12 before + 12 := by
  obtain ⟨p, rfl, hplaced⟩ := h.block _ hptr
  obtain ⟨before, after, hsplit, rfl⟩ := exists_split hplaced
  exact ⟨before, after, hsplit, rfl⟩

end Frees

section Steps

variable {s s' : Session} {blocks : List Block}

-- A pointer into the heap is not NULL.
theorem held_cons {heap : Heap} {ptr size : Nat} (hptr : ptr ≠ 0) :
    Session.held { heap, live := (ptr, size) :: s.live } = (ptr, size) :: s.held :=
  List.filter_cons_of_pos (decide_eq_true hptr)

theorem Owned.granted (h : Held s blocks) {size : Nat} (hok : GrantOk s (.malloc size))
    (hexec : exec s (.malloc size) = .ok s') : ∃ blocks', Held s' blocks' := by
  have hne : s.heap.mallocListHead ≠ 0 := h.stands.head_ne
  have hs : Stands s.heap blocks := h.stands
  have hok := hok.2 hne
  obtain ⟨⟨ptr, heap⟩, hmalloc, hdone⟩ := exists_of_bind hexec
  obtain rfl := Except.ok.inj hdone
  by_cases hzero : size = 0
  · rw [hzero] at hmalloc
    obtain ⟨hptr, hs', -⟩ := syscallMalloc_zero hs hmalloc
    have hheld : Session.held { heap, live := (ptr, size) :: s.live } = s.held :=
      List.filter_cons_of_neg (by simp [show ptr = 0 from hptr])
    refine ⟨_, hs', fun x hx => ?_, ?_⟩
    · rw [hheld] at hx
      obtain ⟨p, hp, hplaced⟩ := h.block x hx
      exact ⟨p, hp, used_mergePass rfl hplaced⟩
    · rw [hheld]
      exact h.distinct
  · obtain ⟨hhi, hslack, hsearch⟩ := hok.resolve_left hzero
    obtain ⟨blocks', howned⟩ := h.malloc (Nat.one_le_iff_ne_zero.mpr hzero) hhi hslack
      (fun cur hcur x hx => hsearch cur hcur x (List.mem_of_mem_filter hx)) (exec_malloc hmalloc)
    refine ⟨blocks', ?_⟩
    obtain ⟨p, hp, -⟩ := howned.block (ptr, size) List.mem_cons_self
    rwa [← held_cons (s := s) (by simp only at hp; omega)] at howned

end Steps

section Sample

end Sample

end ToyKernel.Heap
