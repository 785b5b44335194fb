import ToyKernel.Heap
import ToyKernel.Library.BlockList

namespace ToyKernel.Heap

open Library ByteMemory BlockList

section Fields

variable {m : Memory} {node v : Nat}

@[simp] theorem sizeOf_setSize (h : v < 4294967296) : sizeOf (setSize m node v) node = v := by
  unfold sizeOf setSize
  rw [load32_store32_self, BitVec.toNat_ofNat]
  exact Nat.mod_eq_of_lt h

@[simp] theorem isFree_setSize : isFree (setSize m node v) node = isFree m node := by
  unfold isFree setSize
  rw [store32_of_ne (by omega)]

@[simp] theorem nextOf_setSize : nextOf (setSize m node v) node = nextOf m node := by
  unfold nextOf setSize
  rw [load32_store32_of_apart (by omega)]

@[simp] theorem sizeOf_setFree (free : Bool) : sizeOf (setFree m node free) node = sizeOf m node := by
  unfold sizeOf setFree
  rw [load32_store8_of_apart (by omega)]

@[simp] theorem isFree_setFree (free : Bool) : isFree (setFree m node free) node = free := by
  unfold isFree setFree
  rw [store8_self]
  cases free <;> decide

@[simp] theorem nextOf_setFree (free : Bool) : nextOf (setFree m node free) node = nextOf m node := by
  unfold nextOf setFree
  rw [load32_store8_of_apart (by omega)]

@[simp] theorem sizeOf_setNext : sizeOf (setNext m node v) node = sizeOf m node := by
  unfold sizeOf setNext
  rw [load32_store32_of_apart (by omega)]

@[simp] theorem isFree_setNext : isFree (setNext m node v) node = isFree m node := by
  unfold isFree setNext
  rw [store32_of_ne (by omega)]

@[simp] theorem nextOf_setNext (h : v < 4294967296) : nextOf (setNext m node v) node = v := by
  unfold nextOf setNext
  rw [load32_store32_self, BitVec.toNat_ofNat]
  exact Nat.mod_eq_of_lt h

end Fields

-- Two memories that agree but for the headers of some nodes.
def AgreeOff (m m' : Memory) (nodes : List Nat) : Prop :=
  ∀ b, (∀ n ∈ nodes, b < n ∨ n + 12 ≤ b) → m' b = m b

section Agree

variable {m m' m'' : Memory} {nodes : List Nat} {node v : Nat}

theorem AgreeOff.trans (h : AgreeOff m m' nodes) (h' : AgreeOff m' m'' nodes) :
    AgreeOff m m'' nodes :=
  fun b hb => (h' b hb).trans (h b hb)

theorem agreeOff_setSize (hmem : node ∈ nodes) : AgreeOff m (setSize m node v) nodes := by
  intro b hb
  have hout := hb node hmem
  exact store32_of_ne (by omega) _

theorem agreeOff_setFree (hmem : node ∈ nodes) (free : Bool) :
    AgreeOff m (setFree m node free) nodes := by
  intro b hb
  have hout := hb node hmem
  exact store8_of_ne (by omega) _

theorem agreeOff_setNext (hmem : node ∈ nodes) : AgreeOff m (setNext m node v) nodes := by
  intro b hb
  have hout := hb node hmem
  exact store32_of_ne (by omega) _

-- The fields of a node depend on its header only.
theorem fields_congr {node : Nat} (h : ∀ c, node ≤ c → c < node + 12 → m' c = m c) :
    sizeOf m' node = sizeOf m node ∧ isFree m' node = isFree m node ∧
      nextOf m' node = nextOf m node := by
  refine ⟨?_, ?_, ?_⟩
  · unfold sizeOf
    rw [load32_congr fun c hlo hhi => h c hlo (by omega)]
  · unfold isFree
    rw [h (node + 4) (by omega) (by omega)]
  · unfold nextOf
    rw [load32_congr fun c hlo hhi => h c (by omega) (by omega)]

theorem AgreeOff.fields (h : AgreeOff m m' nodes) (other : Nat)
    (hapart : ∀ n ∈ nodes, other + 12 ≤ n ∨ n + 12 ≤ other) :
    sizeOf m' other = sizeOf m other ∧ isFree m' other = isFree m other ∧
      nextOf m' other = nextOf m other := by
  apply fields_congr
  intro c hlo hhi
  apply h
  intro n hn
  have hout := hapart n hn
  omega

end Agree

-- The header of a placed block: the next node follows at once, unless this is the last.
def Header (m : Memory) (stop : Nat) (x : Nat × Block) : Prop :=
  sizeOf m x.1 = x.2.size ∧ isFree m x.1 = x.2.free ∧
    nextOf m x.1 = if x.1 + 12 + x.2.size = stop then 0 else x.1 + 12 + x.2.size

-- The list in memory from `a` on is the list of blocks, and tiles the bytes up to `stop`.
structure Chain (m : Memory) (a stop : Nat) (blocks : List Block) : Prop where
  headers : ∀ x ∈ placed 12 a blocks, Header m stop x
  extent_eq : a + extent 12 blocks = stop

theorem Header.congr {m m' : Memory} {stop : Nat} {x : Nat × Block} (h : Header m stop x)
    (hsame : ∀ c, x.1 ≤ c → c < x.1 + 12 → m' c = m c) : Header m' stop x := by
  obtain ⟨hsize, hfree, hnext⟩ := fields_congr hsame
  unfold Header
  rw [hsize, hfree, hnext]
  exact h

theorem Header.agree {m m' : Memory} {stop : Nat} {x : Nat × Block} {nodes : List Nat}
    (h : Header m stop x) (hagree : AgreeOff m m' nodes)
    (hapart : ∀ n ∈ nodes, x.1 + 12 ≤ n ∨ n + 12 ≤ x.1) : Header m' stop x := by
  apply h.congr
  intro c hlo hhi
  apply hagree
  intro n hn
  have hout := hapart n hn
  omega

section Split

variable {m : Memory} {stop p q size v next : Nat} {b : Block}

-- A header written field by field.
def writeHeader (m : Memory) (node size : Nat) (free : Bool) (next : Nat) : Memory :=
  setNext (setFree (setSize m node size) node free) node next

theorem agreeOff_writeHeader (m : Memory) (node size : Nat) (free : Bool) (next : Nat) :
    AgreeOff m (writeHeader m node size free next) [node] := by
  have hmem : node ∈ [node] := List.mem_singleton_self node
  exact ((agreeOff_setSize hmem).trans (agreeOff_setFree hmem free)).trans (agreeOff_setNext hmem)

theorem writeHeader_fields (m : Memory) (node : Nat) {size next : Nat} (free : Bool)
    (hsize : size < 4294967296) (hnext : next < 4294967296) :
    sizeOf (writeHeader m node size free next) node = size ∧
      isFree (writeHeader m node size free next) node = free ∧
      nextOf (writeHeader m node size free next) node = next := by
  simp [writeHeader, hsize, hnext]

theorem header_writeHeader (m : Memory) (x : Nat × Block) (hsize : x.2.size < 4294967296)
    (hnext : next < 4294967296)
    (he : next = if x.1 + 12 + x.2.size = stop then 0 else x.1 + 12 + x.2.size) :
    Header (writeHeader m x.1 x.2.size x.2.free next) stop x := by
  obtain ⟨hs, hf, hn⟩ := writeHeader_fields m x.1 x.2.free hsize hnext
  exact ⟨hs, hf, hn.trans he⟩

-- What malloc_split leaves: the node with the wanted size, and a free one behind it.
theorem mallocSplit_eq (hfit : size + 12 ≤ sizeOf m p) (hend : p + 12 + sizeOf m p < 4294967296) :
    mallocSplit m p size =
      writeHeader (writeHeader m (p + 12 + size) (sizeOf m p - size - 12) true (nextOf m p))
        p size false (p + 12 + size) := by
  have hq : u32 (p + size + SIZEOF_BLOCK) = p + 12 + size := by
    rw [u32_of_lt]
    · change p + size + 12 = _
      omega
    · change p + size + 12 < _
      omega
  have hv : u32Sub (u32Sub (sizeOf m p) size) SIZEOF_BLOCK = sizeOf m p - size - 12 := by
    have hinner : u32Sub (sizeOf m p) size = sizeOf m p - size := u32Sub_of_le (by omega) (by omega)
    rw [hinner]
    apply u32Sub_of_le
    · change 12 ≤ _
      omega
    · omega
  have hagree : AgreeOff m (setFree (setSize m (p + 12 + size) (sizeOf m p - size - 12))
      (p + 12 + size) true) [p + 12 + size] :=
    (agreeOff_setSize (List.mem_singleton_self _)).trans (agreeOff_setFree (List.mem_singleton_self _) true)
  have hnext := (hagree.fields p (by
    intro n hn
    rw [List.mem_singleton.mp hn]
    omega)).2.2
  unfold mallocSplit
  simp only [hq, hv, hnext]
  rfl

theorem mallocSplit_headers (hheader : Header m stop (p, b)) (hfit : size + 12 ≤ b.size)
    (hend : p + 12 + b.size ≤ stop) (hstop : stop < 4294967296) :
    Header (mallocSplit m p size) stop (p, ⟨size, false⟩) ∧
      Header (mallocSplit m p size) stop (p + 12 + size, ⟨b.size - size - 12, true⟩) ∧
      AgreeOff m (mallocSplit m p size) [p, p + 12 + size] := by
  obtain ⟨hsize, _, hnext⟩ := hheader
  simp only at hsize hnext
  rw [mallocSplit_eq (by omega) (by omega), hsize, hnext]
  refine ⟨?_, ?_, ?_⟩
  · apply header_writeHeader _ (p, ⟨size, false⟩)
    · simp only
      omega
    · omega
    · simp only
      rw [if_neg (by omega)]
  · have hbehind : Header (writeHeader m (p + 12 + size) (b.size - size - 12) true
        (if p + 12 + b.size = stop then 0 else p + 12 + b.size)) stop
        (p + 12 + size, ⟨b.size - size - 12, true⟩) := by
      apply header_writeHeader _ (p + 12 + size, ⟨b.size - size - 12, true⟩)
      · simp only
        omega
      · split <;> omega
      · simp only
        rw [show p + 12 + size + 12 + (b.size - size - 12) = p + 12 + b.size by omega]
    apply hbehind.agree (agreeOff_writeHeader _ p size false _)
    intro n hn
    rw [List.mem_singleton.mp hn]
    simp only
    omega
  · intro a ha
    have hfirst := agreeOff_writeHeader m (p + 12 + size) (b.size - size - 12) true
      (if p + 12 + b.size = stop then 0 else p + 12 + b.size) a
    have hsecond := agreeOff_writeHeader (writeHeader m (p + 12 + size) (b.size - size - 12) true
      (if p + 12 + b.size = stop then 0 else p + 12 + b.size)) p size false (p + 12 + size) a
    simp only [List.mem_cons, List.not_mem_nil, or_false, forall_eq_or_imp, forall_eq] at *
    rw [hsecond ha.1, hfirst ha.2]

end Split

section Lists

variable {m m' : Memory} {a stop : Nat} {b : Block} {blocks before after : List Block}

theorem Chain.tail (h : Chain m a stop (b :: blocks)) : Chain m (a + 12 + b.size) stop blocks where
  headers x hx := h.headers x (List.mem_cons_of_mem _ hx)
  extent_eq := by
    have hextent := h.extent_eq
    simp only [extent] at hextent
    omega

theorem Chain.head (h : Chain m a stop (b :: blocks)) : Header m stop (a, b) :=
  h.headers (a, b) List.mem_cons_self

theorem Chain.le (h : Chain m a stop blocks) : a ≤ stop := by
  have hextent := h.extent_eq
  omega

-- Every block takes at least its header.
theorem length_le_extent (blocks : List Block) : 12 * blocks.length ≤ extent 12 blocks := by
  induction blocks with
  | nil => exact Nat.le_refl 0
  | cons b blocks ih =>
      simp only [List.length_cons, extent]
      omega

-- The node after the first one, as the code follows it.
theorem Chain.nextOf_eq (h : Chain m a stop (b :: blocks)) :
    nextOf m a = if blocks = [] then 0 else a + 12 + b.size := by
  have hnext := h.head.2.2
  have hextent := h.extent_eq
  simp only at hnext
  rw [hnext]
  cases blocks with
  | nil =>
      simp only [extent] at hextent
      rw [if_pos (by omega), if_pos rfl]
  | cons c blocks =>
      simp only [extent] at hextent
      rw [if_neg (by omega), if_neg (by simp)]

theorem Chain.congr (h : Chain m a stop blocks) (m' : Memory) (hsame : ∀ c < stop, m' c = m c) :
    Chain m' a stop blocks where
  headers x hx := by
    have hbounds := placed_bounds hx
    have hextent := h.extent_eq
    exact (h.headers x hx).congr fun c _ hhi => hsame c (by omega)
  extent_eq := h.extent_eq

theorem Chain.agree (h : Chain m a stop blocks) {nodes : List Nat} (hagree : AgreeOff m m' nodes)
    (hapart : ∀ n ∈ nodes, n + 12 ≤ a ∨ stop ≤ n) : Chain m' a stop blocks where
  headers x hx := by
    apply (h.headers x hx).agree hagree
    intro n hn
    have hbounds := placed_bounds hx
    have hextent := h.extent_eq
    rcases hapart n hn with hlo | hhi
    · exact Or.inr (by omega)
    · exact Or.inl (by omega)
  extent_eq := h.extent_eq

-- A stretch of blocks may be cut anew, as long as only headers inside it are written.
theorem Chain.replace (middle middle' : List Block) (h : Chain m a stop (before ++ (middle ++ after)))
    {nodes : List Nat} (hagree : AgreeOff m m' nodes)
    (hnodes : ∀ n ∈ nodes, a + extent 12 before ≤ n ∧
      n + 12 ≤ a + extent 12 before + extent 12 middle)
    (hextent : extent 12 middle' = extent 12 middle)
    (hmiddle : ∀ x ∈ placed 12 (a + extent 12 before) middle', Header m' stop x) :
    Chain m' a stop (before ++ (middle' ++ after)) where
  headers x hx := by
    have hold := h.headers
    simp only [placed_append, List.mem_append, hextent] at hx hold
    rcases hx with hx | hx | hx
    · apply (hold x (Or.inl hx)).agree hagree
      intro n hn
      have hbounds := placed_bounds hx
      have hn' := hnodes n hn
      omega
    · exact hmiddle x hx
    · apply (hold x (Or.inr (Or.inr hx))).agree hagree
      intro n hn
      have hbounds := placed_bounds hx
      have hn' := hnodes n hn
      omega
  extent_eq := by
    have hextent' := h.extent_eq
    simp only [extent_append, hextent] at hextent' ⊢
    exact hextent'

-- The block that a cut of the list begins with.
theorem Chain.headerAt (h : Chain m a stop (before ++ b :: after)) :
    Header m stop (a + extent 12 before, b) := by
  apply h.headers
  rw [placed_append, List.mem_append]
  exact Or.inr List.mem_cons_self

theorem Chain.end_le (h : Chain m a stop (before ++ b :: after)) :
    a + extent 12 before + 12 + b.size ≤ stop := by
  have hextent := h.extent_eq
  rw [extent_append] at hextent
  simp only [extent] at hextent
  omega

theorem Chain.nextOf_last (h : Chain m a stop (before ++ [b])) : nextOf m (a + extent 12 before) = 0 := by
  have hextent := h.extent_eq
  rw [extent_append] at hextent
  simp only [extent] at hextent
  rw [h.headerAt.2.2, if_pos (by simp only; omega)]

-- Only the last node has no successor.
theorem Chain.nextOf_ne_zero (h : Chain m a stop (before ++ b :: after)) (hne : after ≠ []) :
    nextOf m (a + extent 12 before) ≠ 0 := by
  have hextent := h.extent_eq
  rw [h.headerAt.2.2]
  cases after with
  | nil => exact absurd rfl hne
  | cons c after =>
      rw [extent_append] at hextent
      simp only [extent] at hextent ⊢
      rw [if_neg (by omega)]
      omega

-- A node is taken, or set free, as it is.
theorem Chain.setFree (h : Chain m a stop (before ++ b :: after)) (free : Bool) :
    Chain (setFree m (a + extent 12 before) free) a stop (before ++ ⟨b.size, free⟩ :: after) := by
  have hhead := h.headerAt
  apply Chain.replace [b] [⟨b.size, free⟩] h
    (agreeOff_setFree (List.mem_singleton_self _) free)
  · intro n hn
    rw [List.mem_singleton.mp hn]
    simp only [extent]
    omega
  · rfl
  · intro x hx
    rw [List.mem_singleton.mp hx]
    exact ⟨by rw [sizeOf_setFree]; exact hhead.1, isFree_setFree free,
      by rw [nextOf_setFree]; exact hhead.2.2⟩

-- What is in memory is one list of blocks.
theorem Chain.unique {blocks' : List Block} (h : Chain m a stop blocks) (h' : Chain m a stop blocks') :
    blocks = blocks' := by
  have hextent := h.extent_eq
  have hextent' := h'.extent_eq
  induction blocks generalizing a blocks' with
  | nil =>
      cases blocks' with
      | nil => rfl
      | cons c blocks' =>
          simp only [extent] at hextent hextent'
          omega
  | cons b blocks ih =>
      cases blocks' with
      | nil =>
          simp only [extent] at hextent hextent'
          omega
      | cons c blocks' =>
          have hsize : b.size = c.size := h.head.1.symm.trans h'.head.1
          have hfree : b.free = c.free := h.head.2.1.symm.trans h'.head.2.1
          obtain rfl : b = c := by
            cases b
            cases c
            exact congrArg₂ Block.mk hsize hfree
          rw [ih h.tail h'.tail h.tail.extent_eq h'.tail.extent_eq]

theorem Chain.split (h : Chain m a stop (before ++ b :: after)) {size : Nat} (hfit : size + 12 ≤ b.size)
    (hstop : stop < 4294967296) :
    Chain (mallocSplit m (a + extent 12 before) size) a stop
      (before ++ ⟨size, false⟩ :: ⟨b.size - size - 12, true⟩ :: after) := by
  obtain ⟨hfirst, hsecond, hagree⟩ := mallocSplit_headers h.headerAt hfit h.end_le hstop
  apply Chain.replace [b] [⟨size, false⟩, ⟨b.size - size - 12, true⟩] h hagree
  · intro n hn
    simp only [List.mem_cons, List.not_mem_nil, or_false] at hn
    simp only [extent]
    omega
  · simp only [extent]
    omega
  · intro x hx
    simp only [placed, List.mem_cons, List.not_mem_nil, or_false] at hx
    rcases hx with rfl | rfl
    · exact hfirst
    · exact hsecond

end Lists

end ToyKernel.Heap
