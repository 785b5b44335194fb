import ToyKernel.Heap.Flags
import ToyKernel.Malloc.Backed

namespace ToyKernel.Malloc

open Library ByteMemory BlockList
open Heap (fault LIST_STEPS)

-- The bytes that are seen through the page tables are the heap `h`.
structure Shows (g : Ground) (M : Malloc) (h : Heap) (frame : Nat → Nat) : Prop where
  backed : Backed g M.kernel frame h.heapEnd
  pmm : h.kernel.pmm = M.kernel.pmm
  bytes : ∀ a, KERNEL_HEAP_START ≤ a → a < h.heapEnd → M.kernel.view a = h.bytes a
  head : h.mallocListHead = M.mallocListHead
  pages : h.totalMallocPages = M.totalMallocPages

variable {g : Ground} {M M' : Malloc} {h : Heap} {frame : Nat → Nat} {node v : Nat}

theorem Shows.bounded (hs : Shows g M h frame) : h.heapEnd ≤ 4294967296 := hs.backed.bounded

section Nodes

theorem field_address (hs : Shows g M h frame) (hhi : node + 12 ≤ h.heapEnd) :
    u32 (node + 4) = node + 4 ∧ u32 (node + 8) = node + 8 := by
  have hbounded := hs.bounded
  exact ⟨u32_of_lt (by omega), u32_of_lt (by omega)⟩

theorem peek_ok (hs : Shows g M h frame) {address count : Nat} (hlo : KERNEL_HEAP_START ≤ address)
    (hhi : address + count ≤ h.heapEnd) {α : Type} {value : Memory → α}
    (hvalue : ∀ m, (∀ a, address ≤ a → a < address + count → m a = h.bytes a) → value m = value h.bytes) :
    M.kernel.peek address count value = .ok (value h.bytes) := by
  unfold Kernel.peek
  rw [if_pos (hs.backed.present hlo hhi), hvalue _ fun a ha ha' => hs.bytes a (by omega) (by omega)]

-- The fields of a node in the heap are read as they are.
theorem Shows.sizeAt (hs : Shows g M h frame) (hlo : KERNEL_HEAP_START ≤ node)
    (hhi : node + 12 ≤ h.heapEnd) : M.sizeAt node = .ok (sizeOf h.bytes node) := by
  unfold Malloc.sizeAt
  rw [peek_ok hs hlo (by omega) fun m hm => congrArg BitVec.toNat (load32_congr hm)]
  rfl

theorem Shows.freeAt (hs : Shows g M h frame) (hlo : KERNEL_HEAP_START ≤ node)
    (hhi : node + 12 ≤ h.heapEnd) : M.freeAt node = .ok (isFree h.bytes node) := by
  unfold Malloc.freeAt
  rw [(field_address hs hhi).1, peek_ok hs (by omega) (by omega) fun m hm => by
    rw [hm _ (Nat.le_refl _) (by omega)]]
  rfl

theorem Shows.nextAt (hs : Shows g M h frame) (hlo : KERNEL_HEAP_START ≤ node)
    (hhi : node + 12 ≤ h.heapEnd) : M.nextAt node = .ok (nextOf h.bytes node) := by
  unfold Malloc.nextAt
  rw [(field_address hs hhi).2, peek_ok hs (by omega) (by omega) fun m hm =>
    congrArg BitVec.toNat (load32_congr hm)]
  rfl

-- A write that is seen inside its bytes and nowhere else
theorem put_ok (hs : Shows g M h frame) {address count : Nat} (hlo : KERNEL_HEAP_START ≤ address)
    (hhi : address + count ≤ h.heapEnd) {change : Memory → Memory} {m : Memory}
    (hinside : ∀ a, address ≤ a → a < address + count → change M.kernel.view a = m a)
    (houtside : ∀ a, a < address ∨ address + count ≤ a → m a = h.bytes a) :
    ∃ M', M.put address count change = .ok M' ∧ Shows g M' { h with bytes := m } frame := by
  obtain ⟨k', hpoke, hbacked, -, hpmm, hview⟩ := hs.backed.poke hlo hhi change
  refine ⟨{ M with kernel := k' }, ?_, hbacked, hs.pmm.trans hpmm.symm, fun a ha ha' => ?_, hs.head,
    hs.pages⟩
  · unfold put
    rw [hpoke]
    rfl
  · change k'.view a = m a
    rw [hview a ha ha']
    split
    · exact hinside a (by omega) (by omega)
    · rw [houtside a (by omega)]
      exact hs.bytes a ha ha'

-- It is not one to the page tables.
theorem put_same (hs : Shows g M h frame) {address count : Nat} (hlo : KERNEL_HEAP_START ≤ address)
    (hhi : address + count ≤ h.heapEnd) {change : Memory → Memory}
    (hput : M.put address count change = .ok M') : SameEntries M.kernel M'.kernel := by
  obtain ⟨k', hpoke, -, hsame, -⟩ := hs.backed.poke hlo hhi change
  unfold put at hput
  rw [hpoke] at hput
  obtain rfl := Except.ok.inj hput
  exact hsame

-- A word is what was stored, whatever was there.
theorem store32_inside {m m' : Memory} {a b : Nat} (hlo : a ≤ b) (hhi : b < a + 4) (value : BitVec 32) :
    store32 m a value b = store32 m' a value b := by
  unfold store32
  split_ifs <;> first | rfl | omega

theorem Shows.putSize (hs : Shows g M h frame) (hlo : KERNEL_HEAP_START ≤ node)
    (hhi : node + 12 ≤ h.heapEnd) (size : Nat) :
    ∃ M', M.putSize node size = .ok M' ∧ Shows g M' { h with bytes := setSize h.bytes node size } frame :=
  put_ok hs hlo (by omega) (fun _ ha ha' => store32_inside ha ha' _) fun _ ha => store32_of_ne ha _

theorem Shows.putFree (hs : Shows g M h frame) (hlo : KERNEL_HEAP_START ≤ node)
    (hhi : node + 12 ≤ h.heapEnd) (free : Bool) :
    ∃ M', M.putFree node free = .ok M' ∧ Shows g M' { h with bytes := setFree h.bytes node free } frame := by
  unfold Malloc.putFree
  rw [(field_address hs hhi).1]
  refine put_ok hs (by omega) (by omega) (fun a ha ha' => ?_) fun a ha => store8_of_ne (by omega) _
  obtain rfl : a = node + 4 := by omega
  unfold setFree
  rw [store8_self, store8_self]

theorem Shows.putNext (hs : Shows g M h frame) (hlo : KERNEL_HEAP_START ≤ node)
    (hhi : node + 12 ≤ h.heapEnd) (next : Nat) :
    ∃ M', M.putNext node next = .ok M' ∧ Shows g M' { h with bytes := setNext h.bytes node next } frame := by
  unfold Malloc.putNext
  rw [(field_address hs hhi).2]
  exact put_ok hs (by omega) (by omega) (fun _ ha ha' => store32_inside ha ha' _)
    fun _ ha => store32_of_ne ha _

-- A whole header
theorem Shows.putHeader (hs : Shows g M h frame) (hlo : KERNEL_HEAP_START ≤ node)
    (hhi : node + 12 ≤ h.heapEnd) (size : Nat) (free : Bool) (next : Nat) :
    ∃ M₁ M₂ M', M.putSize node size = .ok M₁ ∧ M₁.putFree node free = .ok M₂ ∧ M₂.putNext node next = .ok M' ∧
      Shows g M' { h with bytes := setNext (setFree (setSize h.bytes node size) node free) node next } frame ∧
      SameEntries M.kernel M'.kernel := by
  obtain ⟨M₁, hsize, hs₁⟩ := hs.putSize hlo hhi size
  obtain ⟨M₂, hfree, hs₂⟩ := hs₁.putFree hlo hhi free
  obtain ⟨M', hnext, hs'⟩ := hs₂.putNext hlo hhi next
  refine ⟨M₁, M₂, M', hsize, hfree, hnext, hs', ?_⟩
  obtain ⟨hfield₄, hfield₈⟩ := field_address hs hhi
  have hsame₁ := put_same hs hlo (by omega) hsize
  have hsame₂ := put_same hs₁ (by rw [hfield₄]; omega) (by change _ ≤ h.heapEnd; rw [hfield₄]; omega) hfree
  have hsame₃ := put_same hs₂ (by rw [hfield₈]; omega) (by change _ ≤ h.heapEnd; rw [hfield₈]; omega) hnext
  exact (hsame₁.trans hsame₂).trans hsame₃

end Nodes

-- malloc_split where both nodes are in the heap, wherever they are
theorem Shows.mallocSplit_at (hs : Shows g M h frame) {size newNode : Nat}
    (hnew : newNode = u32 (node + size + SIZEOF_BLOCK)) (hlo : KERNEL_HEAP_START ≤ node)
    (hhi : node + 12 ≤ h.heapEnd) (hlo' : KERNEL_HEAP_START ≤ newNode)
    (hhi' : newNode + 12 ≤ h.heapEnd) :
    ∃ M', M.mallocSplit node size = .ok M' ∧
      Shows g M' { h with bytes := Heap.mallocSplit h.bytes node size } frame := by
  obtain ⟨M₁, h₁, hs₁⟩ := hs.putSize hlo' hhi' (u32Sub (u32Sub (sizeOf h.bytes node) size) SIZEOF_BLOCK)
  obtain ⟨M₂, h₂, hs₂⟩ := hs₁.putFree hlo' hhi' true
  have hnext := hs₂.nextAt hlo hhi
  obtain ⟨M₃, h₃, hs₃⟩ := hs₂.putNext hlo' hhi' (nextOf (setFree (setSize h.bytes newNode
    (u32Sub (u32Sub (sizeOf h.bytes node) size) SIZEOF_BLOCK)) newNode true) node)
  obtain ⟨M₄, h₄, hs₄⟩ := hs₃.putSize hlo hhi size
  obtain ⟨M₅, h₅, hs₅⟩ := hs₄.putFree hlo hhi false
  obtain ⟨M₆, h₆, hs₆⟩ := hs₅.putNext hlo hhi newNode
  refine ⟨M₆, ?_, ?_⟩
  · unfold Malloc.mallocSplit
    simp only [← hnew, hs.sizeAt hlo hhi, Kernel.ok_bind, h₁, h₂, hnext, h₃, h₄, h₅, h₆]
  · unfold Heap.mallocSplit
    rw [← hnew]
    exact hs₆

-- The rest of the node holds the new one.
theorem Shows.mallocSplit (hs : Shows g M h frame) {size : Nat} (hlo : KERNEL_HEAP_START ≤ node)
    (hhi : node + 12 + size + 12 ≤ h.heapEnd) (hlt : h.heapEnd < 4294967296) :
    ∃ M', M.mallocSplit node size = .ok M' ∧
      Shows g M' { h with bytes := Heap.mallocSplit h.bytes node size } frame := by
  have hnew : node + 12 + size = u32 (node + size + SIZEOF_BLOCK) := by
    rw [u32_of_lt (by change node + size + 12 < _; omega)]
    change node + 12 + size = node + size + 12
    omega
  exact hs.mallocSplit_at hnew hlo (by omega) (by omega) (by omega)

section Lists

variable {blocks before after : List Block} {a : Nat} {b : Block}

-- One round of the search
theorem Shows.findBlock_step (hs : Shows g M h frame) (hlo : KERNEL_HEAP_START ≤ a)
    (hhi : a + 12 ≤ h.heapEnd) (size steps : Nat) :
    M.findBlock size (steps + 1) a =
      if (sizeOf h.bytes a < size ∨ !isFree h.bytes a) ∧ nextOf h.bytes a ≠ 0 then
        M.findBlock size steps (nextOf h.bytes a)
      else .ok a := by
  rw [Malloc.findBlock, hs.sizeAt hlo hhi, hs.freeAt hlo hhi, hs.nextAt hlo hhi]
  by_cases hz : nextOf h.bytes a = 0 <;> by_cases hsmall : sizeOf h.bytes a < size <;>
    cases hfree : isFree h.bytes a <;> simp [hz, hsmall] <;> rfl

-- The search through the page tables is the search of the list.
theorem Shows.findBlock (hs : Shows g M h frame) (hc : Heap.Chain h.bytes a h.heapEnd blocks)
    (hlo : KERNEL_HEAP_START ≤ a) (hne : blocks ≠ []) {size steps cur : Nat}
    (hfound : Heap.findBlock h.bytes size steps a = some cur) : M.findBlock size steps a = .ok cur := by
  induction blocks generalizing a steps with
  | nil => exact absurd rfl hne
  | cons b blocks ih =>
      have hend := hc.tail.le
      cases steps with
      | zero => cases hfound
      | succ steps =>
          rw [Heap.findBlock] at hfound
          rw [hs.findBlock_step hlo (by omega)]
          have hnext := hc.nextOf_eq
          by_cases hpass : (sizeOf h.bytes a < size ∨ !isFree h.bytes a) ∧ nextOf h.bytes a ≠ 0
          · rw [if_pos hpass] at hfound ⊢
            have hnil : blocks ≠ [] := fun he => hpass.2 (hnext.trans (if_pos he))
            rw [if_neg hnil] at hnext
            rw [hnext] at hfound ⊢
            exact ih hc.tail (by omega) hnil hfound
          · rw [if_neg hpass] at hfound ⊢
            obtain rfl := Option.some.inj hfound
            rfl

-- So is the loop of malloc_free.
theorem Shows.findNode (hs : Shows g M h frame) (hc : Heap.Chain h.bytes a h.heapEnd blocks)
    (hlo : KERNEL_HEAP_START ≤ a) (hne : blocks ≠ []) {ptr steps : Nat} {r : Option Nat}
    (hfound : Heap.findNode h.bytes ptr steps a = some r) : M.findNode ptr steps a = .ok r := by
  induction blocks generalizing a steps with
  | nil => exact absurd rfl hne
  | cons b blocks ih =>
      have hend := hc.tail.le
      cases steps with
      | zero => cases hfound
      | succ steps =>
          rw [Heap.findNode] at hfound
          rw [Malloc.findNode, hs.nextAt hlo (by omega), Kernel.ok_bind]
          have hnext := hc.nextOf_eq
          by_cases hz : nextOf h.bytes a = 0
          · rw [if_pos hz] at hfound ⊢
            obtain rfl := Option.some.inj hfound
            rfl
          · rw [if_neg hz] at hfound ⊢
            by_cases hptr : u32 (a + SIZEOF_BLOCK) = ptr
            · rw [if_pos hptr] at hfound ⊢
              obtain rfl := Option.some.inj hfound
              rfl
            · rw [if_neg hptr] at hfound ⊢
              have hnil : blocks ≠ [] := fun he => hz (hnext.trans (if_pos he))
              rw [if_neg hnil] at hnext
              rw [hnext] at hfound ⊢
              exact ih hc.tail (by omega) hnil hfound

-- Joining two neighbours, by the bytes
theorem Shows.join (hs : Shows g M h frame) {next : Nat} (hlo : KERNEL_HEAP_START ≤ a)
    (hhi : a + 12 ≤ h.heapEnd) (hlo' : KERNEL_HEAP_START ≤ next) (hhi' : next + 12 ≤ h.heapEnd) :
    ∃ M', M.join a next = .ok M' ∧
      Shows g M' { h with
        bytes := setNext
          (setSize h.bytes a (u32 (sizeOf h.bytes a + u32 (sizeOf h.bytes next + SIZEOF_BLOCK)))) a
          (nextOf (setSize h.bytes a
            (u32 (sizeOf h.bytes a + u32 (sizeOf h.bytes next + SIZEOF_BLOCK)))) next) } frame := by
  obtain ⟨M₁, h₁, hs₁⟩ := hs.putSize hlo hhi
    (u32 (sizeOf h.bytes a + u32 (sizeOf h.bytes next + SIZEOF_BLOCK)))
  have hnext := hs₁.nextAt hlo' hhi'
  obtain ⟨M₂, h₂, hs₂⟩ := hs₁.putNext hlo hhi (nextOf (setSize h.bytes a
    (u32 (sizeOf h.bytes a + u32 (sizeOf h.bytes next + SIZEOF_BLOCK)))) next)
  refine ⟨M₂, ?_, hs₂⟩
  unfold Malloc.join
  simp only [hs.sizeAt hlo hhi, hs.sizeAt hlo' hhi', Kernel.ok_bind, h₁, hnext, h₂]

-- The pass that merges is over at the last block, as it is on the bytes.
theorem Shows.mergeFrom_done (hs : Shows g M h frame) (hc : Heap.Chain h.bytes a h.heapEnd blocks)
    (hlo : KERNEL_HEAP_START ≤ a) (hshort : ∀ b c rest, blocks = b :: c :: rest → False) (steps : Nat) :
    Malloc.mergeFrom (steps + 1) M (Heap.first a h.heapEnd) = .ok M := by
  have hstart : 0 < KERNEL_HEAP_START := by decide
  cases blocks with
  | nil =>
      have hzero : Heap.first a h.heapEnd = 0 := if_pos hc.extent_eq
      rw [hzero, Malloc.mergeFrom, if_pos rfl]
      rfl
  | cons b blocks =>
      have hend := hc.tail.le
      rw [Heap.first_cons hc, Malloc.mergeFrom, if_neg (by omega), hs.nextAt hlo (by omega), Kernel.ok_bind]
      cases blocks with
      | nil =>
          rw [if_pos (hc.nextOf_eq.trans (if_pos rfl))]
          rfl
      | cons c blocks => exact (hshort b c blocks rfl).elim

section Step

variable {c : Block}

-- At two neighbours it reads whether both are free.
theorem Shows.mergeFrom_step (hs : Shows g M h frame)
    (hc : Heap.Chain h.bytes a h.heapEnd (b :: c :: blocks)) (hlo : KERNEL_HEAP_START ≤ a) (steps : Nat) :
    Malloc.mergeFrom (steps + 1) M a =
      (if b.free && c.free then M.join a (a + 12 + b.size) else pure M) >>= fun M =>
        M.nextAt a >>= fun next => Malloc.mergeFrom steps M next := by
  have hstart : 0 < KERNEL_HEAP_START := by decide
  have hend := hc.tail.tail.le
  have hnext : nextOf h.bytes a = a + 12 + b.size := hc.nextOf_eq.trans (if_neg (by simp))
  have hb : isFree h.bytes a = b.free := hc.head.2.1
  have hc' : isFree h.bytes (a + 12 + b.size) = c.free := hc.tail.head.2.1
  rw [Malloc.mergeFrom, if_neg (by omega), hs.nextAt hlo (by omega), Kernel.ok_bind, if_neg (by omega), hnext,
    hs.freeAt hlo (by omega), hs.freeAt (show KERNEL_HEAP_START ≤ a + 12 + b.size by omega) (by omega),
    hb, hc']
  cases b.free with
  | false => rfl
  | true =>
      cases c.free with
      | false => rfl
      | true => rfl

-- Where they stay apart it goes on with the second.
theorem Shows.mergeFrom_kept (hs : Shows g M h frame)
    (hc : Heap.Chain h.bytes a h.heapEnd (b :: c :: blocks)) (hlo : KERNEL_HEAP_START ≤ a)
    (hfree : ¬(b.free && c.free) = true) (steps : Nat) :
    Malloc.mergeFrom (steps + 1) M a =
      Malloc.mergeFrom steps M (Heap.first (a + 12 + b.size) h.heapEnd) := by
  have hend := hc.tail.tail.le
  rw [hs.mergeFrom_step hc hlo, if_neg hfree, ← Heap.nextOf_first hc]
  change (M.nextAt a >>= fun next => Malloc.mergeFrom steps M next) = _
  rw [hs.nextAt hlo (by omega)]
  rfl

-- Where it joins them it goes on behind both.
theorem Shows.mergeFrom_joined (hs : Shows g M h frame)
    (hc : Heap.Chain h.bytes a h.heapEnd (b :: c :: blocks)) (hlo : KERNEL_HEAP_START ≤ a)
    (hfree : (b.free && c.free) = true) (hlt : h.heapEnd < 4294967296) (steps : Nat) :
    ∃ M', Shows g M' { h with
        bytes := setNext (setSize h.bytes a (b.size + (c.size + 12))) a
          (Heap.first (a + 12 + b.size + 12 + c.size) h.heapEnd) } frame ∧
      Malloc.mergeFrom (steps + 1) M a =
        Malloc.mergeFrom steps M' (Heap.first (a + 12 + b.size + 12 + c.size) h.heapEnd) := by
  have hend := hc.tail.tail.le
  obtain ⟨M', hjoin, hs'⟩ := hs.join hlo (by omega)
    (show KERNEL_HEAP_START ≤ a + 12 + b.size by omega) (by omega)
  rw [Heap.joined_eq hc hlt] at hs'
  have hbehind := hs'.nextAt hlo (show a + 12 ≤ h.heapEnd by omega)
  have hfirst : Heap.first (a + 12 + b.size + 12 + c.size) h.heapEnd < 4294967296 := by
    unfold Heap.first
    split <;> omega
  rw [Heap.nextOf_setNext hfirst] at hbehind
  refine ⟨M', hs', ?_⟩
  rw [hs.mergeFrom_step hc hlo, if_pos hfree, hjoin, Kernel.ok_bind, hbehind]
  rfl

end Step

-- So the pass through the pages is the one on the bytes.
theorem Shows.mergeFrom (hs : Shows g M h frame) (hc : Heap.Chain h.bytes a h.heapEnd blocks)
    (hlo : KERNEL_HEAP_START ≤ a) (hlt : h.heapEnd < 4294967296) {steps : Nat} {m : Memory}
    (hmerge : Heap.mergeFrom steps h.bytes (Heap.first a h.heapEnd) = some m) :
    ∃ M', Malloc.mergeFrom steps M (Heap.first a h.heapEnd) = .ok M' ∧
      Shows g M' { h with bytes := m } frame := by
  induction steps generalizing M h a blocks with
  | zero => cases hmerge
  | succ steps ih =>
      have hstart : 0 < KERNEL_HEAP_START := by decide
      rcases blocks with _ | ⟨b, _ | ⟨c, blocks⟩⟩
      · rw [Heap.mergeFrom_done hc nofun] at hmerge
        obtain rfl := Option.some.inj hmerge
        exact ⟨M, hs.mergeFrom_done hc hlo nofun steps, hs⟩
      · rw [Heap.mergeFrom_done hc nofun] at hmerge
        obtain rfl := Option.some.inj hmerge
        exact ⟨M, hs.mergeFrom_done hc hlo nofun steps, hs⟩
      · rw [Heap.first_cons hc] at hmerge ⊢
        by_cases hfree : (b.free && c.free) = true
        · obtain ⟨M₁, hs₁, hstep⟩ := hs.mergeFrom_joined hc hlo hfree hlt steps
          rw [Heap.mergeFrom_joined hc (by omega) hfree hlt] at hmerge
          obtain ⟨-, hrest, -⟩ := Heap.join_chain hc ((Bool.and_eq_true _ _).mp hfree).1 hlt rfl
          obtain ⟨M', hpass, hs'⟩ := ih hs₁ hrest (by omega) hlt hmerge
          exact ⟨M', hstep.trans hpass, hs'⟩
        · rw [Heap.mergeFrom_kept hc (by omega) hfree] at hmerge
          rw [hs.mergeFrom_kept hc hlo hfree]
          exact ih hs hc.tail (by omega) hlt hmerge

end Lists

section Requests

variable {blocks before after : List Block} {b : Block}

-- A node of the list is in the heap, with its block.
theorem node_inside (hst : Heap.Tidy h (before ++ b :: after)) :
    KERNEL_HEAP_START ≤ KERNEL_HEAP_START + extent 12 before ∧
      KERNEL_HEAP_START + extent 12 before + 12 + b.size ≤ h.heapEnd :=
  ⟨Nat.le_add_right _ _, hst.chain.end_le⟩

theorem Shows.kernel (hs : Shows g M h frame) : Shows g M { h with kernel := M.kernel } frame :=
  ⟨hs.backed, rfl, hs.bytes, hs.head, hs.pages⟩

theorem tidy_kernel (hs : Shows g M h frame) (hst : Heap.Tidy h blocks) :
    Heap.Tidy { h with kernel := M.kernel } blocks where
  head_eq := hst.head_eq
  chain := hst.chain
  counted := by
    rw [← Kernel.used_of_pmm hs.pmm]
    exact hst.counted
  bounded := hst.bounded
  head_pos := hst.head_pos
  flags := hst.flags

-- Merging comes to its end.
theorem Shows.mergeFreeBlocks (hs : Shows g M h frame) (hst : Heap.Tidy h blocks) :
    ∃ M' m, M.mergeFreeBlocks = .ok M' ∧ Shows g M' { h with bytes := m } frame ∧
      Heap.Tidy { h with bytes := m } (mergePass 12 blocks) := by
  obtain ⟨m, hmerge, hchain, -⟩ := Heap.mergeFrom_chain hst.chain (show 0 < KERNEL_HEAP_START by decide)
    hst.heapEnd_lt LIST_STEPS hst.length_lt
  obtain ⟨M', hpass, hs'⟩ := hs.mergeFrom hst.chain (Nat.le_refl _) hst.heapEnd_lt hmerge
  refine ⟨M', m, ?_, hs', hst.rewrite hchain (head_mergePass hst.head_pos),
    hst.flags.mergePass hst.chain (by decide) hst.heapEnd_lt hmerge⟩
  unfold Malloc.mergeFreeBlocks
  rw [← hs.head, hst.head_first]
  exact hpass

-- Where malloc_free finds a node that is not the last, it sets the flag and merges; else it
-- does nothing.
theorem Shows.syscallFree (hs : Shows g M h frame) (hst : Heap.Tidy h blocks) (ptr : Nat) :
    (M.syscallFree ptr = .ok M ∧ ∀ before b after, blocks = before ++ b :: after → after ≠ [] →
        ptr ≠ KERNEL_HEAP_START + extent 12 before + 12) ∨
      ∃ before b after M₁, blocks = before ++ b :: after ∧ after ≠ [] ∧
        ptr = KERNEL_HEAP_START + extent 12 before + 12 ∧
        M.putFree (KERNEL_HEAP_START + extent 12 before) true = .ok M₁ ∧
        M.syscallFree ptr = M₁.mergeFreeBlocks ∧
        Shows g M₁ { h with bytes := setFree h.bytes (KERNEL_HEAP_START + extent 12 before) true } frame := by
  have hnode : ∀ {r : Option Nat}, Heap.findNode h.bytes ptr LIST_STEPS KERNEL_HEAP_START = some r →
      M.findNode ptr LIST_STEPS KERNEL_HEAP_START = .ok r :=
    fun hfound => hs.findNode hst.chain (Nat.le_refl _) hst.ne_nil hfound
  unfold Malloc.syscallFree mallocFree
  rw [show M.mallocListHead = KERNEL_HEAP_START from hs.head.symm.trans hst.head_eq]
  rcases Heap.findNode_chain hst.chain hst.ne_nil hst.heapEnd_lt ptr (Nat.le_of_lt hst.length_lt) with
    hlast | ⟨before, b, after, rfl, hafter, hptr, hfound⟩
  · left
    refine ⟨by rw [hnode hlast]; rfl, ?_⟩
    rintro before b after rfl hafter rfl
    have hlength := hst.length_lt
    rw [List.length_append] at hlength
    rw [Heap.findNode_finds hst.chain hafter hst.heapEnd_lt (by omega)] at hlast
    cases hlast
  · right
    obtain ⟨hlo, hhi⟩ := node_inside hst
    obtain ⟨M₁, hput, hs₁⟩ := hs.putFree hlo (by omega) true
    refine ⟨before, b, after, M₁, rfl, hafter, hptr, hput, ?_, hs₁⟩
    rw [hnode hfound, Kernel.ok_bind]
    simp only [hput, Kernel.ok_bind]

end Requests

end ToyKernel.Malloc
