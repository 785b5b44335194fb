import ToyKernel.Heap.Stands

namespace ToyKernel.Heap

open Library ByteMemory BlockList

-- The flag of every free block is 1, as the code writes it.
def Flagged (m : Memory) (a : Nat) (blocks : List Block) : Prop :=
  ∀ x ∈ placed 12 a blocks, x.2.free = true → m (x.1 + 4) = 1

section Flags

variable {m m' : Memory} {a stop p : Nat} {blocks before after : List Block} {b : Block}

theorem Flagged.cons (hb : b.free = true → m (a + 4) = 1) (h : Flagged m (a + 12 + b.size) blocks) :
    Flagged m a (b :: blocks) := by
  intro x hx hfree
  rcases List.mem_cons.mp hx with rfl | hx
  · exact hb hfree
  · exact h x hx hfree

theorem Flagged.head (h : Flagged m a (b :: blocks)) (hfree : b.free = true) : m (a + 4) = 1 :=
  h (a, b) List.mem_cons_self hfree

theorem Flagged.tail (h : Flagged m a (b :: blocks)) : Flagged m (a + 12 + b.size) blocks :=
  fun x hx => h x (List.mem_cons_of_mem _ hx)

theorem Flagged.congr (h : Flagged m a blocks) (hsame : ∀ x ∈ placed 12 a blocks, m' (x.1 + 4) = m (x.1 + 4)) :
    Flagged m' a blocks :=
  fun x hx hfree => (hsame x hx).trans (h x hx hfree)

theorem Flagged.append (h : Flagged m a before) (h' : Flagged m (a + extent 12 before) after) :
    Flagged m a (before ++ after) := by
  intro x hx
  rw [placed_append, List.mem_append] at hx
  rcases hx with hx | hx
  · exact h x hx
  · exact h' x hx

theorem Flagged.left (h : Flagged m a (before ++ after)) : Flagged m a before := by
  intro x hx
  apply h x
  rw [placed_append]
  exact List.mem_append_left _ hx

theorem Flagged.right (h : Flagged m a (before ++ after)) : Flagged m (a + extent 12 before) after := by
  intro x hx
  apply h x
  rw [placed_append]
  exact List.mem_append_right _ hx

-- As with `Chain.replace`: writes inside a stretch of blocks do not reach the others' flags.
theorem Flagged.replace (middle middle' : List Block) (h : Flagged m a (before ++ (middle ++ after)))
    {nodes : List Nat} (hagree : AgreeOff m m' nodes)
    (hnodes : ∀ n ∈ nodes, a + extent 12 before ≤ n ∧
      n + 12 ≤ a + extent 12 before + extent 12 middle)
    (hextent : extent 12 middle' = extent 12 middle)
    (hmiddle : Flagged m' (a + extent 12 before) middle') : Flagged m' a (before ++ (middle' ++ after)) := by
  have hbelow : Flagged m' a before := h.left.congr fun x hx => hagree _ fun n hn => by
    have hbounds := placed_bounds hx
    have hn' := hnodes n hn
    omega
  have habove : Flagged m' (a + extent 12 before + extent 12 middle') after := by
    rw [hextent]
    refine h.right.right.congr fun x hx => hagree _ fun n hn => ?_
    have hbounds := placed_bounds hx
    have hn' := hnodes n hn
    omega
  exact hbelow.append (hmiddle.append habove)

theorem Flagged.setFree (h : Flagged m a (before ++ b :: after)) (free : Bool) :
    Flagged (setFree m (a + extent 12 before) free) a (before ++ ⟨b.size, free⟩ :: after) := by
  refine Flagged.replace [b] [⟨b.size, free⟩] h (agreeOff_setFree (List.mem_singleton_self _) free) ?_ rfl ?_
  · intro n hn
    rw [List.mem_singleton.mp hn]
    simp only [extent]
    omega
  · intro x hx hfree
    rw [List.mem_singleton.mp hx] at hfree ⊢
    simp only at hfree
    rw [hfree]
    exact store8_self ..

theorem flag_setNext (m : Memory) (p next : Nat) : setNext (setFree m p true) p next (p + 4) = 1 := by
  unfold setNext setFree
  rw [store32_of_ne (by omega), store8_self]
  rfl

-- The last block may become larger.
theorem Flagged.grow (h : Flagged m a (before ++ [b])) (size : Nat)
    (hsame : ∀ c < a + extent 12 before + 12,
      c < a + extent 12 before ∨ a + extent 12 before + 4 ≤ c → m' c = m c) :
    Flagged m' a (before ++ [⟨size, b.free⟩]) := by
  refine (h.left.congr fun x hx => ?_).append (Flagged.cons (fun hfree => ?_) fun x hx => ?_)
  · have hbounds := placed_bounds hx
    exact hsame _ (by omega) (Or.inl (by omega))
  · rw [hsame _ (by omega) (Or.inr (Nat.le_refl _))]
    exact h.right.head hfree
  · exact absurd hx List.not_mem_nil

theorem Flagged.split (h : Flagged m a (before ++ b :: after)) (hc : Chain m a stop (before ++ b :: after))
    {size : Nat} (hfit : size + 12 ≤ b.size) (hstop : stop < 4294967296) :
    Flagged (mallocSplit m (a + extent 12 before) size) a
      (before ++ ⟨size, false⟩ :: ⟨b.size - size - 12, true⟩ :: after) := by
  have hend := hc.end_le
  have hsize : sizeOf m (a + extent 12 before) = b.size := hc.headerAt.1
  obtain ⟨-, -, hagree⟩ := mallocSplit_headers hc.headerAt hfit hend hstop
  refine Flagged.replace [b] [⟨size, false⟩, ⟨b.size - size - 12, true⟩] h hagree ?_ ?_ ?_
  · intro n hn
    simp only [List.mem_cons, List.not_mem_nil, or_false] at hn
    simp only [extent]
    omega
  · simp only [extent]
    omega
  · -- the header of the second one is written first, that of the first one below it
    refine Flagged.cons (fun hfree => Bool.noConfusion hfree) ?_
    refine Flagged.cons (fun _ => ?_) fun x hx => absurd hx List.not_mem_nil
    rw [mallocSplit_eq (by omega) (by omega)]
    have hother := agreeOff_writeHeader (writeHeader m (a + extent 12 before + 12 + size)
      (sizeOf m (a + extent 12 before) - size - 12) true (nextOf m (a + extent 12 before)))
      (a + extent 12 before) size false (a + extent 12 before + 12 + size)
    rw [hother _ fun n hn => by
      rw [List.mem_singleton.mp hn]
      simp only
      omega]
    exact flag_setNext ..

-- The pass that merges writes no flag, and nothing below the list.
theorem mergeFrom_flags (h : Chain m a stop blocks) (ha : 0 < a) (hstop : stop < 4294967296) {steps : Nat}
    (hmerge : mergeFrom steps m (first a stop) = some m') :
    (∀ c < a, m' c = m c) ∧ ∀ x ∈ placed 12 a blocks, m' (x.1 + 4) = m (x.1 + 4) := by
  induction blocks using mergePass.induct generalizing m a steps with
  | case1 b c blocks hfree ih =>
      cases steps with
      | zero => cases hmerge
      | succ steps =>
          have hb : b.free = true := (Bool.and_eq_true _ _ ▸ hfree).1
          obtain ⟨-, hrest, hbelow⟩ := join_chain h hb hstop rfl
          rw [first_cons h, mergeFrom_joined h ha hfree hstop] at hmerge
          obtain ⟨hlow, hflags⟩ := ih hrest (by omega) hmerge
          refine ⟨fun d hd => by rw [hlow d (by omega), hbelow d hd], fun x hx => ?_⟩
          have hjoined : ∀ d, d = a + 4 ∨ a + 12 ≤ d → setNext (setSize m a (b.size + (c.size + 12))) a
              (first (a + 12 + b.size + 12 + c.size) stop) d = m d := by
            intro d hd
            unfold setNext setSize
            rw [store32_of_ne (by omega), store32_of_ne (by omega)]
          rcases List.mem_cons.mp hx with rfl | hx
          · rw [hlow _ (by simp only; omega), hjoined _ (Or.inl rfl)]
          · rcases List.mem_cons.mp hx with rfl | hx
            · rw [hlow _ (by simp only; omega), hjoined _ (Or.inr (by simp only; omega))]
            · have hbounds := placed_bounds hx
              rw [hflags x hx, hjoined _ (Or.inr (by omega))]
  | case2 b c blocks hfree ih =>
      cases steps with
      | zero => cases hmerge
      | succ steps =>
          rw [first_cons h, mergeFrom_kept h ha hfree] at hmerge
          obtain ⟨hlow, hflags⟩ := ih h.tail (by omega) hmerge
          refine ⟨fun d hd => hlow d (by omega), fun x hx => ?_⟩
          rcases List.mem_cons.mp hx with rfl | hx
          · exact hlow _ (by simp only; omega)
          · exact hflags x hx
  | case3 blocks hshort =>
      cases steps with
      | zero => cases hmerge
      | succ steps =>
          have hdone := mergeFrom_done h hshort steps
          obtain rfl := Option.some.inj (hdone.symm.trans hmerge)
          exact ⟨fun _ _ => rfl, fun _ _ => rfl⟩

theorem Flagged.mergePass (h : Flagged m a blocks) (hc : Chain m a stop blocks) (ha : 0 < a)
    (hstop : stop < 4294967296) {steps : Nat} (hmerge : mergeFrom steps m (first a stop) = some m') :
    Flagged m' a (mergePass 12 blocks) := by
  obtain ⟨-, hflags⟩ := mergeFrom_flags hc ha hstop hmerge
  intro x hx hfree
  obtain ⟨y, hy, hplace, hsame⟩ := exists_of_mem_mergePass hx
  rw [← hplace, hflags y hy]
  exact h y hy (hsame.trans hfree)

end Flags

-- The heap stands, and its flags are as the code writes them.
structure Tidy (h : Heap) (blocks : List Block) : Prop extends Stands h blocks where
  flags : Flagged h.bytes KERNEL_HEAP_START blocks

section Tidy

variable {h : Heap} {blocks before after : List Block} {b : Block}

theorem Tidy.split (hs : Tidy h (before ++ b :: after)) {size : Nat} (hlo : 1 ≤ size) (hfit : size + 12 ≤ b.size) :
    Tidy { h with bytes := mallocSplit h.bytes (KERNEL_HEAP_START + extent 12 before) size }
      (before ++ ⟨size, false⟩ :: ⟨b.size - size - 12, true⟩ :: after) where
  toStands := hs.rewrite (hs.chain.split hfit hs.heapEnd_lt) (head_pos_of hs.head_pos hlo _)
  flags := hs.flags.split hs.chain hfit hs.heapEnd_lt

theorem Tidy.take (hs : Tidy h (before ++ b :: after)) (hlo : 1 ≤ b.size) :
    Tidy { h with bytes := setFree h.bytes (KERNEL_HEAP_START + extent 12 before) false }
      (before ++ ⟨b.size, false⟩ :: after) where
  toStands := hs.rewrite (hs.chain.setFree false) (head_pos_of hs.head_pos hlo _)
  flags := hs.flags.setFree false

theorem Tidy.release (hs : Tidy h (before ++ b :: after)) :
    Tidy { h with bytes := setFree h.bytes (KERNEL_HEAP_START + extent 12 before) true }
      (before ++ ⟨b.size, true⟩ :: after) where
  toStands := release_stands hs.toStands
  flags := hs.flags.setFree true

-- What is written behind the header of a block is no concern of the list.
theorem Tidy.payload (hs : Tidy h blocks) {x : Nat × Block} (hx : x ∈ placed 12 KERNEL_HEAP_START blocks)
    {m : Memory} (houtside : ∀ a, a < x.1 + 12 ∨ x.1 + 12 + x.2.size ≤ a → m a = h.bytes a) :
    Tidy { h with bytes := m } blocks := by
  have hheader : ∀ y ∈ placed 12 KERNEL_HEAP_START blocks, ∀ c, y.1 ≤ c → c < y.1 + 12 → m c = h.bytes c := by
    intro y hy c hlo hhi
    apply houtside
    rcases placed_apart hx hy with rfl | hbefore | hafter
    · exact .inl hhi
    · exact .inr (by omega)
    · exact .inl (by omega)
  refine ⟨hs.rewrite ⟨fun y hy => (hs.chain.headers y hy).congr (hheader y hy), hs.chain.extent_eq⟩
    hs.head_pos, ?_⟩
  exact hs.flags.congr fun y hy => hheader y hy _ (by omega) (by omega)

end Tidy

end ToyKernel.Heap
