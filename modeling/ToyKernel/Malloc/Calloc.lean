import ToyKernel.Malloc.Inside

namespace ToyKernel.Malloc

open Library ByteMemory BlockList

variable {g : Ground} {M M' : Malloc} {h : Heap} {frame : Nat → Nat} {blocks : List Block} {s s' : Session}
  {k : Kernel} {nmemb size : BitVec 32} {ptr : Nat}

section Clearing

-- The loop leaves zeros and nothing else.
theorem Shows.clear (hs : Shows g M h frame) (hlo : KERNEL_HEAP_START ≤ ptr) {count : Nat}
    (hhi : ptr + count ≤ h.heapEnd) :
    ∃ M', M.clear ptr count = .ok M' ∧ Shows g M' { h with bytes := fill h.bytes ptr count 0 } frame := by
  induction count with
  | zero =>
      have hsame : fill h.bytes ptr 0 0 = h.bytes := funext fun b => if_neg (by omega)
      rw [hsame]
      exact ⟨M, rfl, hs⟩
  | succ count ih =>
      obtain ⟨M₁, hclear, hs₁⟩ := ih (by omega)
      have hbounded := hs.bounded
      have haddress : u32 (ptr + count) = ptr + count := u32_of_lt (by omega)
      obtain ⟨M₂, hput, hs₂⟩ : ∃ M₂, M₁.put (ptr + count) 1 (fun m => store8 m (ptr + count) 0) = .ok M₂ ∧
          Shows g M₂ { h with bytes := fill h.bytes ptr (count + 1) 0 } frame := by
        refine put_ok hs₁ ?_ ?_ (fun a ha ha' => ?_) fun a ha => ?_
        · omega
        · exact hhi
        · obtain rfl : a = ptr + count := by omega
          rw [store8_self]
          exact (if_pos ⟨by omega, by omega⟩).symm
        · unfold fill
          simp only
          split_ifs <;> first | rfl | omega
      refine ⟨M₂, ?_, hs₂⟩
      rw [Malloc.clear, hclear, haddress]
      exact hput

end Clearing

-- What a program does with the allocator
inductive Use where
  | call (c : Session.Call)
  | calloc (nmemb size : BitVec 32)

def Session.use (s : Session) : Use → Except Stuck Session
  | .call c => s.call c
  | .calloc nmemb size => do
      let (ptr, malloc) ← s.malloc.calloc nmemb size
      return { malloc
               returned := (ptr, (nmemb * size).toNat) :: s.returned
               live := if ptr = 0 then s.live else ptr :: s.live }

-- calloc makes the request of its product, which has 32 bits.
def UseOk (s : Session) : Use → Prop
  | .call c => CallOk s c
  | .calloc nmemb size => CallOk s (.malloc (nmemb * size))

-- The block of the pointer has that size, and its bytes are zero.
structure Cleared (M : Malloc) (ptr bytes : Nat) : Prop where
  nonnull : ptr ≠ 0
  size : M.sizeAt (ptr - SIZEOF_BLOCK) = .ok bytes
  present : M.kernel.Present ptr bytes
  zero : ∀ i < bytes, M.kernel.view (ptr + i) = 0

section Calls

theorem Granted.cleared (hs : Sound g s h frame blocks) {bytes : Nat}
    (hgranted : Granted s blocks bytes) (hreturned : s.returned.head? = some (ptr, bytes)) :
    ∃ M', s.malloc.clear ptr bytes = .ok M' ∧ Cleared M' ptr bytes ∧
      ∃ h', Sound g { s with malloc := M' } h' frame blocks := by
  obtain ⟨address, hmem, hhead⟩ := hgranted
  obtain rfl : ptr = address + 12 := congrArg Prod.fst (Option.some.inj (hreturned.symm.trans hhead))
  have hbounds := placed_bounds hmem
  have hend := Sound.end_eq hs.stands
  simp only at hbounds
  obtain ⟨M', hclear, hs'⟩ := hs.shows.clear (show KERNEL_HEAP_START ≤ address + 12 by omega)
    (show address + 12 + bytes ≤ h.heapEnd by omega)
  have htidy : Heap.Tidy { h with bytes := fill h.bytes (address + 12) bytes 0 } blocks :=
    hs.stands.payload hmem fun a ha => fill_of_apart ha 0
  refine ⟨M', hclear, ⟨by omega, ?_, hs'.backed.present (by omega) ?_, fun i hi => ?_⟩,
    _, hs', htidy, hs.inside, hs.live⟩
  · rw [show address + 12 - SIZEOF_BLOCK = address from Nat.add_sub_cancel address 12,
      hs'.sizeAt hbounds.1 (by change address + 12 ≤ h.heapEnd; omega)]
    exact congrArg Except.ok (htidy.chain.headers _ hmem).1
  · change address + 12 + bytes ≤ h.heapEnd
    omega
  · rw [hs'.bytes _ (by omega) (by change address + 12 + i < h.heapEnd; omega)]
    exact if_pos ⟨by omega, by omega⟩

theorem Standing.null (hs : Standing k s) {r : Nat × Malloc} (hr : s.malloc.syscallMalloc 0 = .ok r) :
    r.1 = 0 := by
  rcases hs with ⟨hb, rfl⟩ | ⟨h, frame, blocks, hs⟩
  · cases (syscallMalloc_zero_start hb).symm.trans hr
  · obtain ⟨M₁, -, hmalloc, -⟩ := hs.shows.syscallMalloc_zero hs.stands
    obtain rfl := Except.ok.inj (hmalloc.symm.trans hr)
    rfl

-- calloc returns null for a product of 0, and else a block of as many bytes as the product has.
theorem Standing.calloc (hs : Standing k s) (hok : UseOk s (.calloc nmemb size)) {r : Nat × Malloc}
    (hr : s.malloc.calloc nmemb size = .ok r) :
    (nmemb * size = 0 ∧ r.1 = 0 ∨ nmemb * size ≠ 0 ∧ Cleared r.2 r.1 (nmemb * size).toNat) ∧
      ∃ h frame blocks, Sound k.ground
        { malloc := r.2
          returned := (r.1, (nmemb * size).toNat) :: s.returned
          live := if r.1 = 0 then s.live else r.1 :: s.live } h frame blocks := by
  obtain ⟨⟨ptr, M₁⟩, hmalloc, hrest⟩ := exists_of_bind hr
  have hcall : s.call (.malloc (nmemb * size)) = .ok _ := Session.call_malloc hmalloc
  by_cases hz : nmemb * size = 0
  · have hnull : ptr = 0 := hs.null (by rw [hz] at hmalloc; exact hmalloc)
    subst hnull
    obtain rfl := Except.ok.inj hrest
    exact ⟨.inl ⟨hz, rfl⟩, hs.call (show CallOk s (.malloc (nmemb * size)) from hok) hcall⟩
  · have hne : (nmemb * size).toNat ≠ 0 := fun he => hz (BitVec.eq_of_toNat_eq he)
    obtain ⟨h, frame, blocks, hsound, hgranted⟩ := hs.granted hok hne hcall
    obtain ⟨M', hclear, hcleared, h', hsound'⟩ := hgranted.cleared hsound rfl
    simp only [hcleared.nonnull, ite_false] at hrest
    rw [hclear] at hrest
    obtain rfl := Except.ok.inj hrest
    exact ⟨.inr ⟨hz, hcleared⟩, h', frame, blocks, hsound'⟩

theorem Standing.use {u : Use} (hs : Standing k s) (hok : UseOk s u) (huse : s.use u = .ok s') : Standing k s' := by
  cases u with
  | call c => exact Or.inr (hs.call hok huse)
  | calloc nmemb size =>
      obtain ⟨r, hr, hdone⟩ := exists_of_bind huse
      obtain rfl := Except.ok.inj hdone
      exact Or.inr (hs.calloc hok hr).2

end Calls

-- A null pointer, or the block has the bytes and they are zero.
def Enough (M : Malloc) (ptr bytes : Nat) : Prop :=
  ptr = 0 ∨ ∃ old, M.sizeAt (ptr - SIZEOF_BLOCK) = .ok old ∧ bytes ≤ old ∧ M.kernel.Present ptr bytes ∧
    ∀ i < bytes, M.kernel.view (ptr + i) = 0

-- Whatever the program has requested before, what calloc returns is enough exactly when the
-- product has no more than 32 bits, or is 0 in them.
theorem calloc_enough_iff (hb : Bare k) {uses : List Use}
    (hmet : AllMet Session.use UseOk (Session.start k) uses)
    (hrun : run Session.use (Session.start k) uses = .ok s) (hok : UseOk s (.calloc nmemb size))
    (hr : s.malloc.calloc nmemb size = .ok (ptr, M')) :
    Enough M' ptr (nmemb.toNat * size.toNat) ↔
      nmemb.toNat * size.toNat < 4294967296 ∨ nmemb * size = 0 := by
  have hs : Standing k s :=
    run_invariant (Standing k) (fun _ _ _ hs hok huse => hs.use hok huse) (Or.inl ⟨hb, rfl⟩) hmet hrun
  have hproduct : (nmemb * size).toNat = nmemb.toNat * size.toNat % 4294967296 := BitVec.toNat_mul ..
  rcases (hs.calloc hok hr).1 with ⟨hz, hnull⟩ | ⟨hz, hcleared⟩
  · exact iff_of_true (.inl hnull) (.inr hz)
  · rw [or_iff_left hz]
    constructor
    · rintro (hnull | ⟨old, hsize, hle, -⟩)
      · exact absurd hnull hcleared.nonnull
      · obtain rfl := Except.ok.inj (hcleared.size.symm.trans hsize)
        omega
    · intro hlt
      rw [Nat.mod_eq_of_lt hlt] at hproduct
      rw [← hproduct]
      exact .inr ⟨_, hcleared.size, Nat.le_refl _, hcleared.present, hcleared.zero⟩

section Sample

theorem useOk_sample : UseOk (Session.start sampleKernel) (.calloc 1431655839 3) := callOk_sample

-- 1431655839 objects of 3 bytes are 4 GiB and 221 bytes.
theorem calloc_sample : ∃ M,
    (Session.start sampleKernel).malloc.calloc 1431655839 3 = .ok (KERNEL_HEAP_START + 12, M) := by
  obtain ⟨M, h, frame, hmalloc, hs, hst, -⟩ := syscallMalloc_sample
  have hend : KERNEL_HEAP_START + 12 + 221 ≤ h.heapEnd := by
    rw [Sound.end_eq hst]
    simp only [extent]
    omega
  obtain ⟨M', hclear, -⟩ := hs.clear (Nat.le_add_right KERNEL_HEAP_START 12) hend
  have hproduct : ((1431655839 : BitVec 32) * 3).toNat = 221 := by decide
  refine ⟨M', ?_⟩
  unfold Malloc.calloc
  simp only [hproduct, hmalloc, Kernel.ok_bind]
  change (M.clear (KERNEL_HEAP_START + 12) 221 >>= _) = _
  rw [hclear]
  rfl

theorem calloc_enough_iff_sample : ∃ M,
    (Session.start sampleKernel).malloc.calloc 1431655839 3 = .ok (KERNEL_HEAP_START + 12, M) ∧
      (Enough M (KERNEL_HEAP_START + 12) (1431655839 * 3) ↔
        1431655839 * 3 < 4294967296 ∨ (1431655839 : BitVec 32) * 3 = 0) := by
  obtain ⟨M, hr⟩ := calloc_sample
  have hmet : AllMet Session.use UseOk (Session.start sampleKernel) [] := trivial
  exact ⟨M, hr, calloc_enough_iff bare_sample hmet rfl useOk_sample hr⟩

-- Of which the block has the 221 bytes.
theorem not_calloc_enough : ¬∀ (k : Kernel) (uses : List Use) (s : Session) (nmemb size : BitVec 32)
    (ptr : Nat) (M : Malloc), Bare k → AllMet Session.use UseOk (Session.start k) uses →
      run Session.use (Session.start k) uses = .ok s → UseOk s (.calloc nmemb size) →
      s.malloc.calloc nmemb size = .ok (ptr, M) → Enough M ptr (nmemb.toNat * size.toNat) := by
  intro h
  obtain ⟨M, hr⟩ := calloc_sample
  have hs : Standing sampleKernel (Session.start sampleKernel) := Or.inl ⟨bare_sample, rfl⟩
  rcases h _ [] _ 1431655839 3 _ M bare_sample trivial rfl useOk_sample hr with hnull | ⟨old, hsize, hle, -⟩
  · cases hnull
  · rcases (hs.calloc useOk_sample hr).1 with ⟨-, hnull⟩ | ⟨-, hcleared⟩
    · cases hnull
    · obtain rfl := Except.ok.inj (hcleared.size.symm.trans hsize)
      exact absurd hle (by decide)

end Sample

end ToyKernel.Malloc
