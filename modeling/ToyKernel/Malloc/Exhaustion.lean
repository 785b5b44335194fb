import ToyKernel.Malloc.Counting
import ToyKernel.Pmm.Exhaustion

namespace ToyKernel

open Library

-- mm/handler/malloc.h; no function looks at it.
def KERNEL_HEAP_MAX : Nat := 0xD2000000

namespace Malloc

open Heap (fault LIST_STEPS)

-- The heap is to have its first pages, in one block of frames, and the PMM has no such block
-- or not the frames for the tables; or they would go past the end.
def InitUnbacked (M : Malloc) (bytes : Nat) : Prop :=
  (M.kernel.pmm.allocateBlock (Heap.initialPages bytes)).1 = 0 ∨
    ¬(M.kernel.pmm.allocateBlock (Heap.initialPages bytes)).2.Supplies
      (M.kernel.tablesMissing KERNEL_HEAP_START (Heap.initialPages bytes)) ∨
    KERNEL_HEAP_MAX < KERNEL_HEAP_START + Heap.initialPages bytes * PAGE_SIZE

-- The same for the pages that a block of the list has to grow by, a frame at a time. (The loop
-- counts no page at all only where a block has all the bytes of 32 bits but a page.)
def GrowthUnbacked (M : Malloc) (bytes : Nat) : Prop :=
  M.sizeAt M.mallocListHead ≠ .ok 0 ∧ ∃ cur old,
    M.findBlock bytes LIST_STEPS M.mallocListHead = .ok cur ∧ M.sizeAt cur = .ok old ∧ bytes ≠ old ∧
      old ≤ u32 (bytes + SIZEOF_BLOCK) ∧ numPages old bytes ≠ some 0 ∧
      (¬M.kernel.pmm.Supplies
          (pagesNeeded old bytes + M.kernel.tablesMissing M.nextVirt (pagesNeeded old bytes)) ∨
        KERNEL_HEAP_MAX < M.nextVirt + pagesNeeded old bytes * PAGE_SIZE)

-- The request cannot be backed.
def Unbacked (M : Malloc) (bytes : Nat) : Prop :=
  1 ≤ bytes ∧ if M.mallocListHead = 0 then M.InitUnbacked bytes else M.GrowthUnbacked bytes

-- SYS_MALLOC answers 0, the list begins where it did, and no page has come or gone.
def Reported (M : Malloc) (bytes : Nat) : Prop :=
  ∃ M', M.syscallMalloc bytes = .ok (0, M') ∧ SameStatics M M' ∧
    ∀ a < 4294967296, M'.kernel.pte a = M.kernel.pte a

variable {M M' : Malloc} {bytes cur : Nat}

section Statics

theorem join_statics {next : Nat} (h : M.join cur next = .ok M') : SameStatics M M' := by
  obtain ⟨size, -, h⟩ := exists_of_bind h
  obtain ⟨more, -, h⟩ := exists_of_bind h
  obtain ⟨M₁, hsize, h⟩ := exists_of_bind h
  obtain ⟨behind, -, h⟩ := exists_of_bind h
  exact (put_statics hsize).trans (put_statics h)

theorem mergeFrom_statics {steps : Nat} (h : mergeFrom steps M cur = .ok M') : SameStatics M M' := by
  induction steps generalizing M cur with
  | zero => cases h
  | succ steps ih =>
      rw [mergeFrom] at h
      split at h
      · obtain rfl := Except.ok.inj h
        exact ⟨rfl, rfl⟩
      obtain ⟨next, -, h⟩ := exists_of_bind h
      split at h
      · obtain rfl := Except.ok.inj h
        exact ⟨rfl, rfl⟩
      obtain ⟨free, -, h⟩ := exists_of_bind h
      have hkept : (M.nextAt cur >>= fun next => mergeFrom steps M next) = .ok M' → SameStatics M M' := by
        intro h
        obtain ⟨next', -, h⟩ := exists_of_bind h
        exact ih h
      cases free with
      | false => exact hkept h
      | true =>
          obtain ⟨both, -, h⟩ := exists_of_bind h
          cases both with
          | false => exact hkept h
          | true =>
              obtain ⟨M₁, hjoin, h⟩ := exists_of_bind h
              obtain ⟨next', -, h⟩ := exists_of_bind h
              exact (join_statics hjoin).trans (ih h)

theorem mallocInit_head (h : M.mallocInit bytes = .ok M') : M'.mallocListHead = KERNEL_HEAP_START := by
  obtain ⟨⟨phys, k₁⟩, -, h⟩ := exists_of_bind h
  obtain ⟨k₂, -, h⟩ := exists_of_bind h
  obtain ⟨M₁, hsize, h⟩ := exists_of_bind h
  obtain ⟨M₂, hfree, h⟩ := exists_of_bind h
  rw [(put_statics h).1, (put_statics hfree).1, (put_statics hsize).1]

theorem takeBlock_head (h : M.takeBlock cur bytes = .ok M') : M'.mallocListHead = M.mallocListHead := by
  obtain ⟨old, -, h⟩ := exists_of_bind h
  split at h
  · exact (put_statics h).1
  split at h
  · exact (mallocSplit_statics h).1
  split at h
  · cases h
  · obtain ⟨M₁, hgrow, h⟩ := exists_of_bind h
    rw [(mallocSplit_statics h).1, growPages_head hgrow]

end Statics

section Requests

-- A request that is taken for the first one leaves a list behind.
theorem mallocNextBlock_head {r : Nat × Malloc} (hhead : M.mallocListHead = KERNEL_HEAP_START)
    (h : M.mallocNextBlock bytes = .ok r) : r.2.mallocListHead = KERNEL_HEAP_START := by
  unfold mallocNextBlock at h
  by_cases hz : bytes = 0
  · simp only [hz, ite_true] at h
    obtain rfl := Except.ok.inj h
    exact hhead
  simp only [hz, ite_false] at h
  obtain ⟨size, -, h⟩ := exists_of_bind h
  have hrest : ∀ M₁ : Malloc, M₁.mallocListHead = KERNEL_HEAP_START →
      (M₁.findBlock bytes LIST_STEPS M₁.mallocListHead >>= fun cur => M₁.takeBlock cur bytes >>= fun M₂ =>
        .ok (u32 (cur + SIZEOF_BLOCK), M₂)) = .ok r → r.2.mallocListHead = KERNEL_HEAP_START := by
    intro M₁ hhead₁ h
    obtain ⟨cur, -, h⟩ := exists_of_bind h
    obtain ⟨M₂, htake, h⟩ := exists_of_bind h
    obtain rfl := Except.ok.inj h
    exact (takeBlock_head htake).trans hhead₁
  by_cases hempty : size = 0
  · simp only [hempty, ite_true] at h
    obtain ⟨M₁, hinit, h⟩ := exists_of_bind h
    exact hrest M₁ (mallocInit_head hinit) h
  · simp only [hempty, ite_false] at h
    exact hrest M hhead h

theorem syscallMalloc_head {r : Nat × Malloc} (hnull : M.mallocListHead = 0)
    (h : M.syscallMalloc bytes = .ok r) : r.2.mallocListHead = KERNEL_HEAP_START := by
  unfold Malloc.syscallMalloc at h
  simp only [hnull, ite_true] at h
  obtain ⟨M₁, hinit, h⟩ := exists_of_bind h
  obtain ⟨⟨ptr, M₂⟩, hnext, h⟩ := exists_of_bind h
  obtain ⟨M₃, hmerge, h⟩ := exists_of_bind h
  obtain rfl := Except.ok.inj h
  rw [(mergeFrom_statics hmerge).1]
  exact mallocNextBlock_head (mallocInit_head hinit) hnext

-- Growth that comes to its end adds its pages to the count whatever the PMM says.
theorem syscallMalloc_grown {r : Nat × Malloc} {old : Nat} (hhead : M.mallocListHead ≠ 0)
    (hbytes : 1 ≤ bytes) (hsize : M.sizeAt M.mallocListHead ≠ .ok 0)
    (hfound : M.findBlock bytes LIST_STEPS M.mallocListHead = .ok cur) (hold : M.sizeAt cur = .ok old)
    (hne : bytes ≠ old) (hsmall : old ≤ u32 (bytes + SIZEOF_BLOCK))
    (hcount : numPages old bytes ≠ some 0) (h : M.syscallMalloc bytes = .ok r) :
    ∃ pages, pages < 255 ∧ r.2.totalMallocPages = u32 (M.totalMallocPages + (pages + 1)) := by
  have hz : ¬bytes = 0 := by omega
  unfold Malloc.syscallMalloc mallocNextBlock at h
  simp only [hhead, hz, ite_false, Kernel.pure_bind] at h
  obtain ⟨⟨ptr, M₂⟩, hnext, h⟩ := exists_of_bind h
  obtain ⟨M₃, hmerge, h⟩ := exists_of_bind h
  obtain rfl := Except.ok.inj h
  obtain ⟨size, hfirst, hnext⟩ := exists_of_bind hnext
  have hpos : ¬size = 0 := fun hs => hsize (hs ▸ hfirst)
  simp only [hpos, ite_false, hfound, Kernel.ok_bind] at hnext
  obtain ⟨M₄, htake, hnext⟩ := exists_of_bind hnext
  obtain rfl := (Prod.mk.inj (Except.ok.inj hnext)).2
  cases hn : numPages old bytes with
  | none =>
      rw [takeBlock_stuck hold hne hsmall hn] at htake
      cases htake
  | some n =>
      obtain ⟨pages, rfl⟩ := Nat.exists_eq_add_of_le' (Nat.pos_of_ne_zero fun h0 => hcount (h0 ▸ hn))
      rw [takeBlock_grows hold hne hsmall hn] at htake
      obtain ⟨M₅, hgrow, hsplit⟩ := exists_of_bind htake
      have hbyte := (numPages_some hn).1
      refine ⟨pages, by omega, ?_⟩
      rw [(mergeFrom_statics hmerge).2, (mallocSplit_statics hsplit).2, growPages_total hgrow]

end Requests

-- No request that cannot be backed is refused.
theorem not_reported {ebx : BitVec 32} (h : M.Unbacked ebx.toNat) : ¬M.Reported ebx.toNat := by
  obtain ⟨hbytes, hunbacked⟩ := h
  rintro ⟨M', hmalloc, ⟨hhead, htotal⟩, -⟩
  by_cases hnull : M.mallocListHead = 0
  · have hstart := syscallMalloc_head hnull hmalloc
    rw [hhead, hnull] at hstart
    cases hstart
  · rw [if_neg hnull] at hunbacked
    obtain ⟨hsize, cur, old, hfound, hold, hne, hsmall, hcount, -⟩ := hunbacked
    obtain ⟨pages, hbyte, hgrown⟩ := syscallMalloc_grown hnull hbytes hsize hfound hold hne hsmall hcount hmalloc
    rw [htotal] at hgrown
    unfold u32 at hgrown
    omega

section Sample

-- 106 more frames in use, which is all that the PMM gives away
@[irreducible] def spentPmm : Pmm := (Kernel.initialPmm Pmm.samplePmm).takeFrames 2048 106

theorem spentPmm_none : spentPmm.allocateBlock 1 = (0, spentPmm) := by
  apply Pmm.allocateBlock_of_closed
  unfold spentPmm
  rw [Pmm.totalUsedBlocks_takeFrames]
  decide +kernel

def spentStart : Malloc := (Session.start { sampleKernel with pmm := spentPmm }).malloc

theorem unbacked_spent : spentStart.Unbacked (4096#32).toNat := by
  refine ⟨by decide, ?_⟩
  have hnull : spentStart.mallocListHead = 0 := rfl
  have hpages : Heap.initialPages (4096#32).toNat = 1 := by decide
  rw [if_pos hnull]
  unfold InitUnbacked
  rw [hpages, show spentStart.kernel.pmm = spentPmm from rfl, spentPmm_none]
  exact Or.inl rfl

theorem not_reported_spent : ¬spentStart.Reported (4096#32).toNat := not_reported unbacked_spent

-- The first request with no frame left
theorem unbacked_not_reported : spentStart.Unbacked (4096#32).toNat ∧ ¬spentStart.Reported (4096#32).toNat := by
  refine ⟨unbacked_spent, fun ⟨M', hmalloc, ⟨hhead, _⟩, _⟩ => ?_⟩
  have hstart := syscallMalloc_head (show spentStart.mallocListHead = 0 from rfl) hmalloc
  rw [hhead] at hstart
  cases hstart

end Sample

end Malloc

end ToyKernel
