import ToyKernel.Malloc.Requests

namespace ToyKernel.Malloc

open Library ByteMemory BlockList
open Heap (fault)

-- malloc.c with what its clients were given: every pointer with the size that was asked for,
-- and the pointers that were not given back since.
structure Session where
  malloc : Malloc
  returned : List (Nat × Nat)
  live : List Nat

namespace Session

-- The statics at the start
def start (kernel : Kernel) : Session where
  malloc := { kernel, mallocListHead := 0, mallocPhysAddress := 0, totalMallocPages := 0 }
  returned := []
  live := []

-- The system calls, with EBX as it comes
inductive Call where
  | malloc (ebx : BitVec 32)
  | free (ebx : BitVec 32)

def call (s : Session) : Call → Except Stuck Session
  | .malloc ebx => do
      let (ptr, malloc) ← s.malloc.syscallMalloc ebx.toNat
      return { malloc
               returned := (ptr, ebx.toNat) :: s.returned
               live := if ptr = 0 then s.live else ptr :: s.live }
  | .free ebx => do
      let malloc ← s.malloc.syscallFree ebx.toNat
      return { s with malloc, live := s.live.filter (· ≠ ebx.toNat) }

theorem call_malloc {s : Session} {ebx : BitVec 32} {r : Nat × Malloc}
    (h : s.malloc.syscallMalloc ebx.toNat = .ok r) :
    s.call (.malloc ebx) = .ok { malloc := r.2
                                 returned := (r.1, ebx.toNat) :: s.returned
                                 live := if r.1 = 0 then s.live else r.1 :: s.live } := by
  change (s.malloc.syscallMalloc _ >>= _) = _
  rw [h]
  rfl

end Session

-- Nothing is mapped where the heap goes.
structure Bare (k : Kernel) : Prop where
  paged : Paged k
  vacant : ∀ a, KERNEL_HEAP_START ≤ a → a < 4294967296 → k.pte a = 0#32

theorem Bare.backed {k : Kernel} (h : Bare k) (frame : Nat → Nat) :
    Backed k.ground k frame KERNEL_HEAP_START where
  paged := h.paged
  bounded := by decide
  aligned := by decide
  walks a hlo hhi := by omega
  owned a hlo hhi := by omega
  distinct a b hlo hhi := by omega
  vacant := h.vacant
  pos a hlo hhi := by omega
  ground := k.onGround
  apart f hf a hlo hhi := by omega

-- A size with room for a header, no slack, and the frames for it. SYS_FREE comes after a
-- heap is there; SYS_MALLOC(0) does no harm then.
def CallOk (s : Session) : Session.Call → Prop
  | .malloc ebx => ebx.toNat = 0 ∨ ebx.toNat + SIZEOF_BLOCK < 4294967296 ∧
      ¬s.malloc.Slack ebx.toNat ∧ s.malloc.Supplied ebx.toNat
  | .free _ => s.malloc.mallocListHead ≠ 0

-- What was returned lies in the heap, and a block that is in use is a client's, unless it
-- is the last one: SYS_FREE does not look at that.
structure Sound (g : Ground) (s : Session) (h : Heap) (frame : Nat → Nat) (blocks : List Block) : Prop where
  shows : Shows g s.malloc h frame
  stands : Heap.Tidy h blocks
  inside : ∀ x ∈ s.returned, x.1 = 0 ∨ KERNEL_HEAP_START ≤ x.1 ∧ x.1 + x.2 ≤ h.heapEnd
  live : ∀ x ∈ placed 12 KERNEL_HEAP_START blocks, x.2.free = false →
    x.1 + 12 + x.2.size ≠ h.heapEnd → x.1 + 12 ∈ s.live

-- There is no heap yet, or a sound one; what was in use before it is as it was.
def Standing (k : Kernel) (s : Session) : Prop :=
  (Bare k ∧ s = Session.start k) ∨ ∃ h frame blocks, Sound k.ground s h frame blocks

-- The pointer that was returned last is that of a block of its size.
def Granted (s : Session) (blocks : List Block) (size : Nat) : Prop :=
  ∃ address, (address, ⟨size, false⟩) ∈ placed 12 KERNEL_HEAP_START blocks ∧
    s.returned.head? = some (address + 12, size)

variable {g : Ground} {s s' : Session} {h h' : Heap} {frame : Nat → Nat} {blocks before after extra : List Block}
  {b : Block} {k : Kernel}

section Start

-- SYS_MALLOC(0) as the first call makes a heap of no pages and writes its header.
theorem syscallMalloc_zero_start (hb : Bare k) :
    (Session.start k).malloc.syscallMalloc 0 = .error (.fault ⟨KERNEL_HEAP_START⟩) := by
  have halloc : k.allocateBlock 0 = .ok (0, k) := Kernel.allocateBlock_none (if_pos rfl)
  have habsent : ∀ pages (change : Memory → Memory),
      (⟨k, KERNEL_HEAP_START, 0, pages⟩ : Malloc).put KERNEL_HEAP_START 4 change =
        .error (.fault ⟨KERNEL_HEAP_START⟩) := by
    intro pages change
    have hnot : ¬k.Present KERNEL_HEAP_START 4 := by
      intro hpresent
      have hwalk := hpresent.2 0 (by omega)
      rw [Nat.add_zero, hb.paged.translate_eq, hb.vacant _ (Nat.le_refl _) (by decide)] at hwalk
      cases hwalk
    unfold put Kernel.poke
    rw [if_neg hnot]
    rfl
  have hinit : (Session.start k).malloc.mallocInit 0 = .error (.fault ⟨KERNEL_HEAP_START⟩) := by
    unfold mallocInit
    have hpages : u32 (0 + PAGE_SIZE - 1) / PAGE_SIZE + (if 0 % PAGE_SIZE > 0 then 1 else 0) = 0 := by decide
    simp only [hpages, Session.start, halloc, fault, Except.mapError, Kernel.ok_bind, List.range_zero]
    change ((⟨k, KERNEL_HEAP_START, 0, 0⟩ : Malloc).put KERNEL_HEAP_START 4 _ >>= _) = _
    rw [habsent]
    rfl
  have hnull : (Session.start k).malloc.mallocListHead = 0 := rfl
  unfold Malloc.syscallMalloc
  simp only [hnull, ite_true, hinit]
  rfl

end Start

section Steps

theorem Sound.call_zero (hs : Sound g s h frame blocks) (hcall : s.call (.malloc 0) = .ok s') :
    ∃ h' blocks', Sound g s' h' frame blocks' := by
  obtain ⟨M', m, hmalloc, -, hshows, hstands⟩ := hs.shows.syscallMalloc_zero hs.stands
  have hdone : s.call (.malloc 0) = .ok _ := Session.call_malloc hmalloc
  obtain rfl := Except.ok.inj (hdone.symm.trans hcall)
  refine ⟨_, _, hshows, hstands, fun x hx => ?_, fun x hx hused hlast => ?_⟩
  · rcases List.mem_cons.mp hx with rfl | hx
    · exact Or.inl rfl
    · exact hs.inside x hx
  · exact hs.live x (of_used_mergePass hused hx) hused hlast

-- The blocks in use after a request are the one that was taken and those from before.
theorem live_of_carved {live : List Nat} {size : Nat}
    (hlive : ∀ x ∈ placed 12 KERNEL_HEAP_START (before ++ b :: after), x.2.free = false →
      x.1 + 12 + x.2.size ≠ KERNEL_HEAP_START + extent 12 (before ++ b :: after) → x.1 + 12 ∈ live)
    (hcarved : Heap.Carved before after b size extra) :
    ∀ x ∈ placed 12 KERNEL_HEAP_START (before ++ ⟨size, false⟩ :: (extra ++ after)), x.2.free = false →
      x.1 + 12 + x.2.size ≠
        KERNEL_HEAP_START + extent 12 (before ++ ⟨size, false⟩ :: (extra ++ after)) →
      x.1 + 12 ∈ (KERNEL_HEAP_START + extent 12 before + 12) :: live := by
  intro x hx hused hlast
  rw [placed_append, List.mem_append] at hx
  rcases hx with hx | hx
  · have hbounds := placed_bounds hx
    refine List.mem_cons_of_mem _ (hlive x ?_ hused ?_)
    · rw [placed_append]
      exact List.mem_append_left _ hx
    · rw [extent_append]
      simp only [extent]
      omega
  rcases List.mem_cons.mp hx with rfl | hx
  · exact List.mem_cons_self
  rw [placed_append, List.mem_append] at hx
  rcases hx with hx | hx
  · obtain ⟨first, rest, hsplit, -⟩ := exists_split hx
    have hfree := hcarved.extra_free x.2 (by simp [hsplit])
    rw [hfree] at hused
    cases hused
  · have hne : after ≠ [] := by
      rintro rfl
      cases hx
    have hextent := hcarved.extent_eq hne
    simp only [extent] at hextent
    have hplace : KERNEL_HEAP_START + extent 12 before + 12 + size + extent 12 extra =
        KERNEL_HEAP_START + extent 12 before + 12 + b.size := by omega
    rw [hplace] at hx
    refine List.mem_cons_of_mem _ (hlive x ?_ hused fun he => hlast ?_)
    · rw [placed_append]
      exact List.mem_append_right _ (List.mem_cons_of_mem _ hx)
    · rw [he, extent_append, extent_append]
      simp only [extent, extent_append]
      omega

theorem Sound.end_eq (hs : Heap.Tidy h blocks) : h.heapEnd = KERNEL_HEAP_START + extent 12 blocks :=
  hs.chain.extent_eq.symm

theorem Sound.call_malloc {ebx : BitVec 32} (hs : Sound g s h frame blocks) (hlo : 1 ≤ ebx.toNat)
    (hhi : ebx.toNat + 12 < 4294967296) (hslack : ¬s.malloc.Slack ebx.toNat)
    (hgrows : s.malloc.Grows ebx.toNat) (hcall : s.call (.malloc ebx) = .ok s') :
    ∃ h' frame' blocks', Sound g s' h' frame' blocks' ∧ Granted s' blocks' ebx.toNat := by
  obtain ⟨r, hmalloc, hdone⟩ := exists_of_bind hcall
  obtain ⟨before, b, after, extra, h', frame', rfl, hptr, hshows, hstands, hcarved, hgrown, hpayload⟩ :=
    syscallMalloc_shows hs.shows hs.stands hlo hhi hslack hgrows hmalloc
  obtain rfl := Except.ok.inj ((Session.call_malloc hmalloc).symm.trans hcall)
  refine ⟨h', frame', _, ⟨hshows, hstands, fun x hx => ?_, fun x hx hused hlast => ?_⟩,
    _, used_mergePass rfl (mem_placed_middle _ before (extra ++ after) _), by rw [← hptr]; rfl⟩
  · rcases List.mem_cons.mp hx with rfl | hx
    · exact Or.inr ⟨by simp only; omega, hpayload⟩
    · rcases hs.inside x hx with hzero | ⟨hstart, hend⟩
      · exact Or.inl hzero
      · exact Or.inr ⟨hstart, by omega⟩
  · have hlive := hs.live
    rw [Sound.end_eq hs.stands] at hlive
    rw [Sound.end_eq hstands, extent_mergePass] at hlast
    simp only [hptr]
    exact live_of_carved hlive hcarved x (of_used_mergePass hused hx) hused hlast

theorem sound_first {ebx : BitVec 32} (hb : Bare k) (hlo : 1 ≤ ebx.toNat)
    (hhi : ebx.toNat + 12 < 4294967296) (hsupplied : (Session.start k).malloc.Supplied ebx.toNat)
    (hcall : (Session.start k).call (.malloc ebx) = .ok s') :
    ∃ h' frame' blocks', Sound k.ground s' h' frame' blocks' ∧ Granted s' blocks' ebx.toNat := by
  obtain ⟨r, hmalloc, hdone⟩ := exists_of_bind hcall
  obtain ⟨extra, h', frame', hptr, hshows, hstands, hfree, hpayload⟩ :=
    syscallMalloc_first (hb.backed fun _ => 0) rfl hlo hhi hsupplied hmalloc
  obtain rfl := Except.ok.inj ((Session.call_malloc hmalloc).symm.trans hcall)
  refine ⟨h', frame', _, ⟨hshows, hstands, fun x hx => ?_, fun x hx hused _ => ?_⟩,
    KERNEL_HEAP_START, used_mergePass rfl List.mem_cons_self, by rw [← hptr]; rfl⟩
  · obtain rfl := List.mem_singleton.mp hx
    exact Or.inr ⟨by simp only; omega, hpayload⟩
  · simp only [hptr]
    rcases List.mem_cons.mp (of_used_mergePass hused hx) with rfl | hx
    · exact List.mem_singleton_self _
    · obtain ⟨first, rest, hsplit, -⟩ := exists_split hx
      rw [hfree x.2 (by simp [hsplit])] at hused
      cases hused

theorem Sound.call_free {ebx : BitVec 32} (hs : Sound g s h frame blocks)
    (hcall : s.call (.free ebx) = .ok s') : ∃ h' blocks', Sound g s' h' frame blocks' := by
  obtain ⟨M', hfree, hdone⟩ := exists_of_bind hcall
  obtain rfl := Except.ok.inj hdone
  rcases hs.shows.syscallFree hs.stands ebx.toNat with
    ⟨hnone, hother⟩ | ⟨before, b, after, M₁, rfl, hafter, hptr, -, hmerge, hshows₁⟩
  · obtain rfl := Except.ok.inj (hnone.symm.trans hfree)
    refine ⟨h, blocks, hs.shows, hs.stands, hs.inside, fun x hx hused hlast => ?_⟩
    refine List.mem_filter.mpr ⟨hs.live x hx hused hlast, ?_⟩
    rw [decide_eq_true_eq]
    intro he
    obtain ⟨before, after, rfl, hplace⟩ := exists_split hx
    refine hother before x.2 after rfl ?_ (by omega)
    rintro rfl
    rw [Sound.end_eq hs.stands, extent_append] at hlast
    simp only [extent] at hlast
    omega
  · have hstands₁ := hs.stands.release
    obtain ⟨M₂, m, hmerge', hshows, hstands⟩ := hshows₁.mergeFreeBlocks hstands₁
    obtain rfl := Except.ok.inj (hmerge'.symm.trans (hmerge.symm.trans hfree))
    refine ⟨_, _, hshows, hstands, hs.inside, fun x hx hused hlast => ?_⟩
    have hx := of_used_mergePass hused hx
    have hne : x.1 ≠ KERNEL_HEAP_START + extent 12 before := by
      intro he
      rcases placed_apart hx (mem_placed_middle KERNEL_HEAP_START before after ⟨b.size, true⟩) with
        hsame | hapart | hapart
      · rw [hsame] at hused
        cases hused
      · simp only at hapart
        omega
      · simp only at hapart
        omega
    have hold : x ∈ placed 12 KERNEL_HEAP_START (before ++ b :: after) :=
      mem_placed_replace [b] hx hne fun _ => rfl
    refine List.mem_filter.mpr ⟨hs.live x hold hused hlast, ?_⟩
    rw [decide_eq_true_eq]
    omega

theorem Standing.granted {ebx : BitVec 32} (hs : Standing k s) (hok : CallOk s (.malloc ebx))
    (hne : ebx.toNat ≠ 0) (hcall : s.call (.malloc ebx) = .ok s') :
    ∃ h' frame' blocks', Sound k.ground s' h' frame' blocks' ∧ Granted s' blocks' ebx.toNat := by
  obtain ⟨hhi, hslack, hsupplied⟩ := hok.resolve_left hne
  rcases hs with ⟨hb, rfl⟩ | ⟨h, frame, blocks, hs⟩
  · exact sound_first hb (by omega) hhi hsupplied hcall
  · unfold Supplied at hsupplied
    rw [if_neg (hs.shows.head_ne hs.stands)] at hsupplied
    exact hs.call_malloc (by omega) hhi hslack hsupplied hcall

-- What one call keeps
theorem Standing.call {c : Session.Call} (hs : Standing k s) (hok : CallOk s c) (hcall : s.call c = .ok s') :
    ∃ h' frame' blocks', Sound k.ground s' h' frame' blocks' := by
  cases c with
  | malloc ebx =>
      by_cases hz : ebx.toNat = 0
      · obtain rfl : ebx = 0 := BitVec.eq_of_toNat_eq hz
        rcases hs with ⟨hb, rfl⟩ | ⟨h, frame, blocks, hs⟩
        · obtain ⟨r, hmalloc, -⟩ := exists_of_bind hcall
          cases (syscallMalloc_zero_start hb).symm.trans hmalloc
        · obtain ⟨h', blocks', hs'⟩ := hs.call_zero hcall
          exact ⟨h', frame, blocks', hs'⟩
      · obtain ⟨h', frame', blocks', hs', -⟩ := hs.granted hok hz hcall
        exact ⟨h', frame', blocks', hs'⟩
  | free ebx =>
      rcases hs with ⟨hb, rfl⟩ | ⟨h, frame, blocks, hs⟩
      · exact absurd rfl hok
      · obtain ⟨h', blocks', hs'⟩ := hs.call_free hcall
        exact ⟨h', frame, blocks', hs'⟩

-- And what a whole run keeps
theorem standing_of_run {calls : List Session.Call} (hb : Bare k)
    (hmet : AllMet Session.call CallOk (Session.start k) calls)
    (hrun : run Session.call (Session.start k) calls = .ok s) : Standing k s :=
  run_invariant (Standing k) (fun _ _ _ hs hok hcall => Or.inr (hs.call hok hcall)) (Or.inl ⟨hb, rfl⟩)
    hmet hrun

end Steps

end ToyKernel.Malloc
