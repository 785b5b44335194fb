import ToyKernel.Malloc.Inside

namespace ToyKernel.Malloc

open Library ByteMemory BlockList
open Heap (fault LIST_STEPS)

-- Nothing has changed, or free neighbours have become one: a pass of merge_free_blocks over a
-- list in order, which leaves statics, pages and what is below the heap alone.
def Coalesced (M M' : Malloc) : Prop :=
  M' = M ∨ M.mergeFreeBlocks = .ok M' ∧ ∃ g h m frame blocks, Shows g M h frame ∧ Heap.Tidy h blocks ∧
    Shows g M' { h with bytes := m } frame ∧ Heap.Tidy { h with bytes := m } (mergePass 12 blocks)

-- SYS_MALLOC(0) returns 0, and SYS_FREE of a pointer that no client holds returns; both may
-- coalesce and do nothing else.
def Harmless (s : Session) : Prop :=
  (∃ M', s.malloc.syscallMalloc 0 = .ok (0, M') ∧ Coalesced s.malloc M') ∧
    ∀ ebx : BitVec 32, ebx.toNat ∉ s.live →
      ∃ M', s.malloc.syscallFree ebx.toNat = .ok M' ∧ Coalesced s.malloc M'

variable {g : Ground} {M M' : Malloc} {h : Heap} {frame : Nat → Nat} {blocks : List Block} {node : Nat} {s : Session}
  {k : Kernel}

section Free

-- The flag of a free block is written as it is.
theorem Shows.putFree_same (hs : Shows g M h frame) (hlo : KERNEL_HEAP_START ≤ node)
    (hhi : node + 12 ≤ h.heapEnd) (hflag : h.bytes (node + 4) = 1) : M.putFree node true = .ok M := by
  have hpresent : M.kernel.Present (node + 4) 1 := hs.backed.present (by omega) (by omega)
  have hthere : M.kernel.memory (M.kernel.physical (node + 4)) = 1 := by
    rw [← hflag, ← hs.bytes (node + 4) (by omega) (by omega)]
    rfl
  have hsame : M.kernel.written (node + 4) (store8 M.kernel.view (node + 4) 1) 1 = M.kernel.memory := by
    funext b
    rw [Kernel.written, Kernel.written, Nat.add_zero, store8_self]
    by_cases hb : b = M.kernel.physical (node + 4)
    · rw [hb, store8_self, hthere]
    · exact store8_of_ne hb 1
  unfold Malloc.putFree put Kernel.poke
  rw [(field_address hs hhi).1, if_pos hpresent, if_pos rfl, hsame]
  rfl

theorem Shows.coalesced (hs : Shows g M h frame) (ht : Heap.Tidy h blocks) :
    ∃ M', M.mergeFreeBlocks = .ok M' ∧ Coalesced M M' := by
  obtain ⟨M', m, hmerge, hs', ht'⟩ := hs.mergeFreeBlocks ht
  exact ⟨M', hmerge, Or.inr ⟨hmerge, _, h, m, frame, blocks, hs, ht, hs', ht'⟩⟩

-- A pointer to a block that is in use, and not the last one, is held by a client; so the block
-- that is found is free.
theorem Sound.syscallFree (hs : Sound g s h frame blocks) {ptr : Nat} (hptr : ptr ∉ s.live) :
    ∃ M', s.malloc.syscallFree ptr = .ok M' ∧ Coalesced s.malloc M' := by
  rcases hs.shows.syscallFree hs.stands ptr with
    ⟨hnone, -⟩ | ⟨before, b, after, M₁, rfl, hafter, rfl, hput, hfree, -⟩
  · exact ⟨s.malloc, hnone, Or.inl rfl⟩
  · obtain ⟨hlo, hhi⟩ := node_inside hs.stands
    have hplace : (_, b) ∈ placed 12 KERNEL_HEAP_START (before ++ b :: after) := mem_placed_middle ..
    have hunused : b.free = true := by
      by_contra hused
      refine hptr (hs.live _ hplace (Bool.eq_false_iff.mpr hused) ?_)
      rw [Sound.end_eq hs.stands, extent_append]
      obtain ⟨c, rest, rfl⟩ := List.exists_cons_of_ne_nil hafter
      simp only [extent]
      omega
    have hsame := hs.shows.putFree_same hlo (by omega) (hs.stands.flags _ hplace hunused)
    obtain rfl := Except.ok.inj (hsame.symm.trans hput)
    rw [hfree]
    exact hs.shows.coalesced hs.stands

end Free

-- In every run whose calls are of that kind degenerate requests do no harm, but for the time
-- before the first allocation.
theorem harmless_iff {calls : List Session.Call} (hb : Bare k)
    (hmet : AllMet Session.call CallOk (Session.start k) calls)
    (hrun : run Session.call (Session.start k) calls = .ok s) :
    Harmless s ↔ s.malloc.mallocListHead ≠ 0 := by
  rcases standing_of_run hb hmet hrun with ⟨-, rfl⟩ | ⟨h, frame, blocks, hs⟩
  · refine ⟨fun hharmless => ?_, fun hhead => absurd rfl hhead⟩
    obtain ⟨M', hmalloc, -⟩ := hharmless.1
    rw [syscallMalloc_zero_start hb] at hmalloc
    cases hmalloc
  · refine ⟨fun _ => hs.shows.head_ne hs.stands, fun _ => ⟨?_, fun ebx hptr => hs.syscallFree hptr⟩⟩
    obtain ⟨M', m, hmalloc, hmerge, hs', ht'⟩ := hs.shows.syscallMalloc_zero hs.stands
    exact ⟨M', hmalloc, Or.inr ⟨hmerge, _, h, m, frame, blocks, hs.shows, hs.stands, hs', ht'⟩⟩

theorem harmless_iff_sample : ∃ s, run Session.call (Session.start sampleKernel) [.malloc 221] = .ok s ∧
    (Harmless s ↔ s.malloc.mallocListHead ≠ 0) := by
  obtain ⟨M, h, frame, hmalloc, -⟩ := syscallMalloc_sample
  have hcall : (Session.start sampleKernel).call (.malloc 221) = _ := Session.call_malloc hmalloc
  have hmet : AllMet Session.call CallOk (Session.start sampleKernel) [.malloc 221] :=
    ⟨callOk_sample, fun _ _ => trivial⟩
  exact ⟨_, run_cons hcall [], harmless_iff bare_sample hmet (run_cons hcall [])⟩

-- SYS_MALLOC(0) as the first request of all
theorem not_harmless_start : ¬Harmless (Session.start sampleKernel) := by
  intro ⟨⟨M', hmalloc, _⟩, _⟩
  rw [syscallMalloc_zero_start bare_sample] at hmalloc
  cases hmalloc

end ToyKernel.Malloc
