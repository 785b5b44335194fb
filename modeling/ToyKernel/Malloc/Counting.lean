import ToyKernel.Malloc.Inside

namespace ToyKernel.Malloc

open Library ByteMemory BlockList
open Heap (fault LIST_STEPS)

-- The loop that counts the pages, a round at a time, with its counter of 8 bits
def countPages (old size : Nat) : (rounds : Nat) → (count : BitVec 8) → Option (BitVec 8)
  | 0, _ => none
  | rounds + 1, count =>
      if u32 (old + count.toNat * PAGE_SIZE) < u32 (size + SIZEOF_BLOCK) then
        countPages old size rounds (count + 1)
      else some count

variable {M M' : Malloc} {cur old size : Nat} {count result : BitVec 8}

section Loop

theorem countPages_fits {rounds : Nat} (h : countPages old size rounds count = some result) :
    u32 (size + SIZEOF_BLOCK) ≤ u32 (old + result.toNat * PAGE_SIZE) := by
  induction rounds generalizing count with
  | zero => cases h
  | succ rounds ih =>
      rw [countPages] at h
      split at h
      · exact ih h
      · obtain rfl := Option.some.inj h
        omega

-- How long it may take is no matter of the result.
theorem countPages_unique {rounds rounds' : Nat} {result' : BitVec 8}
    (h : countPages old size rounds count = some result)
    (h' : countPages old size rounds' count = some result') : result = result' := by
  induction rounds generalizing count rounds' with
  | zero => cases h
  | succ rounds ih =>
      cases rounds' with
      | zero => cases h'
      | succ rounds' =>
          rw [countPages] at h h'
          split at h
          · rename_i hless
            rw [if_pos hless] at h'
            exact ih h h'
          · rename_i hless
            rw [if_neg hless] at h'
            exact Option.some.inj (h.symm.trans h')

theorem countPages_of_first {i start : Nat}
    (hfits : u32 (size + SIZEOF_BLOCK) ≤ u32 (old + (start + i) % 256 * PAGE_SIZE))
    (hfirst : ∀ j < i, ¬u32 (size + SIZEOF_BLOCK) ≤ u32 (old + (start + j) % 256 * PAGE_SIZE)) :
    countPages old size (i + 1) (BitVec.ofNat 8 start) = some (BitVec.ofNat 8 (start + i)) := by
  induction i generalizing start with
  | zero =>
      have hthere : ¬u32 (old + start % 256 * PAGE_SIZE) < u32 (size + SIZEOF_BLOCK) := Nat.not_lt.mpr hfits
      rw [countPages, BitVec.toNat_ofNat, if_neg hthere]
      rfl
  | succ i ih =>
      have hpass : u32 (old + start % 256 * PAGE_SIZE) < u32 (size + SIZEOF_BLOCK) :=
        Nat.lt_of_not_le (hfirst 0 (by omega))
      have hnext : BitVec.ofNat 8 start + 1 = BitVec.ofNat 8 (start + 1) := (BitVec.ofNat_add start 1).symm
      have hshift : start + (i + 1) = start + 1 + i := by omega
      rw [countPages, BitVec.toNat_ofNat, if_pos hpass, hnext, hshift]
      apply ih
      · rwa [← hshift]
      · intro j hj
        rw [show start + 1 + j = start + (j + 1) by omega]
        exact hfirst (j + 1) (by omega)

-- `numPages` is what the loop comes to, in however many rounds.
theorem numPages_eq_some_iff : numPages old size = some result.toNat ↔
    ∃ rounds, countPages old size rounds 1 = some result := by
  have hcounted : ∀ m, numPages old size = some m →
      ∃ rounds, countPages old size rounds 1 = some (BitVec.ofNat 8 m) := by
    intro m h
    unfold numPages at h
    rw [List.find?_map, Option.map_eq_some_iff] at h
    obtain ⟨i, hi, rfl⟩ := h
    obtain ⟨hfits, -, hfirst⟩ := List.find?_range_eq_some.mp hi
    simp only [Function.comp_apply, decide_eq_true_eq, Bool.not_eq_true', decide_eq_false_iff_not] at hfits hfirst
    rw [Nat.add_comm i 1] at hfits
    have hcount := countPages_of_first hfits fun j hj => by
      rw [Nat.add_comm 1 j]
      exact hfirst j hj
    refine ⟨i + 1, hcount.trans (congrArg some ?_)⟩
    apply BitVec.eq_of_toNat_eq
    rw [BitVec.toNat_ofNat, BitVec.toNat_ofNat]
    omega
  constructor
  · intro h
    obtain ⟨rounds, hcount⟩ := hcounted _ h
    rw [BitVec.ofNat_toNat, BitVec.setWidth_eq] at hcount
    exact ⟨rounds, hcount⟩
  · rintro ⟨rounds, hcount⟩
    -- no value of the counter is left out
    cases h : numPages old size with
    | none =>
        have hlt := result.isLt
        have hnone := List.find?_eq_none.mp h result.toNat (List.mem_map.mpr
          ⟨(result.toNat + 255) % 256, List.mem_range.mpr (Nat.mod_lt _ (by omega)), by omega⟩)
        exact absurd (decide_eq_true (countPages_fits hcount)) hnone
    | some m =>
        obtain ⟨rounds', hcount'⟩ := hcounted m h
        have hbyte := (numPages_some h).1
        rw [countPages_unique hcount hcount', BitVec.toNat_ofNat, Nat.mod_eq_of_lt (by omega)]

end Loop

-- The list begins where it did, and the heap has as many pages.
def SameStatics (M M' : Malloc) : Prop :=
  M'.mallocListHead = M.mallocListHead ∧ M'.totalMallocPages = M.totalMallocPages

section Statics

theorem SameStatics.trans {mid : Malloc} (h : SameStatics M mid) (h' : SameStatics mid M') : SameStatics M M' :=
  ⟨h'.1.trans h.1, h'.2.trans h.2⟩

theorem put_statics {address bytes : Nat} {change : Memory → Memory}
    (h : M.put address bytes change = .ok M') : SameStatics M M' := by
  obtain ⟨kernel, -, hdone⟩ := exists_of_bind h
  obtain rfl := Except.ok.inj hdone
  exact ⟨rfl, rfl⟩

theorem mallocSplit_statics {node : Nat} (h : M.mallocSplit node size = .ok M') : SameStatics M M' := by
  obtain ⟨old, -, h⟩ := exists_of_bind h
  obtain ⟨M₁, hsize, h⟩ := exists_of_bind h
  obtain ⟨M₂, hfree, h⟩ := exists_of_bind h
  obtain ⟨next, -, h⟩ := exists_of_bind h
  obtain ⟨M₃, hnext, h⟩ := exists_of_bind h
  obtain ⟨M₄, hsize', h⟩ := exists_of_bind h
  obtain ⟨M₅, hfree', h⟩ := exists_of_bind h
  exact (put_statics hsize).trans ((put_statics hfree).trans ((put_statics hnext).trans
    ((put_statics hsize').trans ((put_statics hfree').trans (put_statics h)))))

theorem growPage_statics {virt : Nat} (h : M.growPage cur virt = .ok M') :
    M'.mallocListHead = M.mallocListHead ∧ M'.totalMallocPages = u32 (M.totalMallocPages + 1) := by
  obtain ⟨⟨temp, k₁⟩, -, h⟩ := exists_of_bind h
  obtain ⟨⟨ok, k₂⟩, -, h⟩ := exists_of_bind h
  obtain ⟨old, -, h⟩ := exists_of_bind h
  obtain ⟨M₁, hsize, h⟩ := exists_of_bind h
  obtain rfl := Except.ok.inj h
  obtain ⟨hhead, htotal⟩ := put_statics (M := { M with kernel := k₂ }) hsize
  exact ⟨hhead, congrArg (fun n => u32 (n + 1)) htotal⟩

theorem growPages_head {n virt : Nat} (h : growPages n M cur virt = .ok M') :
    M'.mallocListHead = M.mallocListHead := by
  induction n generalizing M virt with
  | zero =>
      obtain rfl := Except.ok.inj h
      rfl
  | succ n ih =>
      obtain ⟨M₁, hgrow, h⟩ := exists_of_bind h
      rw [ih h, (growPage_statics hgrow).1]

theorem growPages_total {n virt : Nat} (h : growPages (n + 1) M cur virt = .ok M') :
    M'.totalMallocPages = u32 (M.totalMallocPages + (n + 1)) := by
  induction n generalizing M virt with
  | zero =>
      obtain ⟨M₁, hgrow, h⟩ := exists_of_bind h
      obtain rfl := Except.ok.inj h
      exact (growPage_statics hgrow).2
  | succ n ih =>
      obtain ⟨M₁, hgrow, h⟩ := exists_of_bind h
      rw [ih h, (growPage_statics hgrow).2]
      unfold u32
      omega

end Statics

-- The loop ends with the least number of pages, at least one, with which the block holds the
-- request and a header, and this many are added.
def GrowsRight (M : Malloc) (cur old size : Nat) : Prop :=
  ∃ pages : BitVec 8, (∃ rounds, countPages old size rounds 1 = some pages) ∧
    IsLeast {n | 1 ≤ n ∧ size + SIZEOF_BLOCK ≤ old + n * PAGE_SIZE} pages.toNat ∧
    M.takeBlock cur size = (growPages pages.toNat M cur M.nextVirt >>= fun M => M.mallocSplit cur size) ∧
    ∀ M', M.takeBlock cur size = .ok M' → M'.totalMallocPages = u32 (M.totalMallocPages + pages.toNat)

section Growth

theorem pagesNeeded_least (old size : Nat) :
    IsLeast {n | 1 ≤ n ∧ size + SIZEOF_BLOCK ≤ old + n * PAGE_SIZE} (pagesNeeded old size) :=
  ⟨⟨pagesNeeded_pos old size, pagesNeeded_enough old size⟩, fun _ hn => pagesNeeded_le hn.1 hn.2⟩

theorem sizeAt_lt (h : M.sizeAt cur = .ok old) : old < 4294967296 := by
  have hpeek := Heap.ok_of_fault h
  unfold Kernel.peek at hpeek
  split at hpeek
  · obtain rfl := Except.ok.inj hpeek
    exact (load32 M.kernel.view cur).isLt
  · cases hpeek

theorem takeBlock_grows {n : Nat} (hsize : M.sizeAt cur = .ok old) (hne : size ≠ old)
    (hsmall : old ≤ u32 (size + SIZEOF_BLOCK)) (hcount : numPages old size = some n) :
    M.takeBlock cur size = (growPages n M cur M.nextVirt >>= fun M => M.mallocSplit cur size) := by
  unfold takeBlock
  rw [hsize, Kernel.ok_bind, if_neg hne, if_neg (Nat.not_lt.mpr hsmall), hcount]

theorem takeBlock_stuck (hsize : M.sizeAt cur = .ok old) (hne : size ≠ old)
    (hsmall : old ≤ u32 (size + SIZEOF_BLOCK)) (hcount : numPages old size = none) :
    M.takeBlock cur size = .error .numPages := by
  unfold takeBlock
  rw [hsize, Kernel.ok_bind, if_neg hne, if_neg (Nat.not_lt.mpr hsmall), hcount]
  rfl

-- A count that ends too late goes round the 8 bits, one that ends too early the 32.
theorem word_of_fits {n : Nat} (hbyte : n ≤ 255) (hold : old < 4294967296)
    (hsmall : old ≤ u32 (size + SIZEOF_BLOCK))
    (hfits : u32 (size + SIZEOF_BLOCK) ≤ u32 (old + n * PAGE_SIZE))
    (henough : size + SIZEOF_BLOCK ≤ old + n * PAGE_SIZE) :
    old + n * PAGE_SIZE < 4294967296 := by
  change old ≤ (size + 12) % 4294967296 at hsmall
  change (size + 12) % 4294967296 ≤ (old + n * 4096) % 4294967296 at hfits
  change size + 12 ≤ old + n * 4096 at henough
  change old + n * 4096 < 4294967296
  omega

end Growth

-- Growth is right as long as the pages are counted in 8 bits and the bytes in 32.
theorem growsRight_iff {ebx : BitVec 32} (hsize : M.sizeAt cur = .ok old) (hne : ebx.toNat ≠ old)
    (hsmall : old ≤ u32 (ebx.toNat + SIZEOF_BLOCK)) :
    GrowsRight M cur old ebx.toNat ↔
      pagesNeeded old ebx.toNat ≤ 255 ∧ old + pagesNeeded old ebx.toNat * PAGE_SIZE < 4294967296 := by
  constructor
  · rintro ⟨pages, ⟨rounds, hcount⟩, hleast, -⟩
    have hsame : pages.toNat = pagesNeeded old ebx.toNat := hleast.unique (pagesNeeded_least old ebx.toNat)
    have hbyte := pages.isLt
    rw [← hsame]
    exact ⟨by omega, word_of_fits (by omega) (sizeAt_lt hsize) hsmall (countPages_fits hcount) hleast.1.2⟩
  · intro ⟨hbyte, hword⟩
    have hcount := numPages_eq hbyte hword
    have htake := takeBlock_grows hsize hne hsmall hcount
    obtain ⟨n, hn⟩ := Nat.exists_eq_add_of_le' (pagesNeeded_pos old ebx.toNat)
    have hpages : (BitVec.ofNat 8 (pagesNeeded old ebx.toNat)).toNat = pagesNeeded old ebx.toNat := by
      rw [BitVec.toNat_ofNat]
      omega
    refine ⟨BitVec.ofNat 8 (pagesNeeded old ebx.toNat), numPages_eq_some_iff.mp (by rw [hpages, hcount]), ?_⟩
    rw [hpages]
    refine ⟨pagesNeeded_least old ebx.toNat, htake, fun M' hM' => ?_⟩
    obtain ⟨M₁, hgrow, hsplit⟩ := exists_of_bind (htake.symm.trans hM')
    rw [hn] at hgrow ⊢
    rw [(mallocSplit_statics hsplit).2, growPages_total hgrow]

section Sample

-- 8000 bytes where 7947 are free take one page, 2 MiB take 511.
theorem growsRight_iff_sample : ∃ M cur, M.sizeAt cur = .ok 7947 ∧
    (GrowsRight M cur 7947 (8000#32).toNat ↔ pagesNeeded 7947 (8000#32).toNat ≤ 255 ∧
      7947 + pagesNeeded 7947 (8000#32).toNat * PAGE_SIZE < 4294967296) := by
  obtain ⟨M, h, frame, -, hs, ht, -⟩ := syscallMalloc_sample
  have ht' : Heap.Tidy h ([⟨221, false⟩] ++ ⟨7947, true⟩ :: []) := ht
  exact ⟨M, _, hs.sizeAt_block ht', growsRight_iff (hs.sizeAt_block ht') (by decide) (by decide)⟩

theorem not_growsRight_sample : ∃ s cur,
    run Session.call (Session.start sampleKernel) [.malloc 221] = .ok s ∧
      s.malloc.findBlock 2097152 LIST_STEPS s.malloc.mallocListHead = .ok cur ∧
      s.malloc.sizeAt cur = .ok 7947 ∧ 7947 ≤ u32 (2097152 + SIZEOF_BLOCK) ∧
      ¬GrowsRight s.malloc cur 7947 2097152 := by
  obtain ⟨M, h, frame, hmalloc, hs, ht, -⟩ := syscallMalloc_sample
  have ht' : Heap.Tidy h ([⟨221, false⟩] ++ ⟨7947, true⟩ :: []) := ht
  have hcall : (Session.start sampleKernel).call (.malloc 221) = _ := Session.call_malloc hmalloc
  have hfound : M.findBlock 2097152 LIST_STEPS M.mallocListHead = _ :=
    hs.search_last ht' fun c hc => by rcases List.mem_pair.mp hc with rfl | rfl <;> decide
  refine ⟨_, _, run_cons hcall [], hfound, hs.sizeAt_block ht', by decide, ?_⟩
  rintro ⟨pages, -, hleast, -⟩
  have hbyte := pages.isLt
  have henough : 2097152 + 12 ≤ 7947 + pages.toNat * 4096 := hleast.1.2
  omega

end Sample

end ToyKernel.Malloc
