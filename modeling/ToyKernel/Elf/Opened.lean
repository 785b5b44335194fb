import ToyKernel.Elf.Failure
import ToyKernel.Vmm.Release

namespace ToyKernel

open Library ByteMemory FirstFit

-- Bit 31 of an entry outlives a change of its frame, so it has to be wanted in the new one.
def KeepsTop (k : Kernel) (phys virt : BitVec 32) : Prop :=
  (k.pte virt.toNat).getLsbD 31 = true → phys.getLsbD 31 = true

-- The page is open to ring 3, on a frame that was free in `base` and is in use.
def OwnPage (base k : Kernel) (virt : Nat) : Prop :=
  k.Ring3 virt ∧ ∃ frame, 0 < frame ∧ base.pmm.testBit frame = false ∧ Owned k frame ∧
    PAGE_PHYS_ADDRESS (k.pte virt) = 4096 * frame

-- A page on frame 0 has the entry that it had.
def NoneOnZero (k k' : Kernel) : Prop :=
  ∀ virt < 4294967296, PAGE_PHYS_ADDRESS (k'.pte virt) = 0 → k'.pte virt = k.pte virt

section Pages

variable {base k mid k' : Kernel} {frame virt : Nat}

theorem NoneOnZero.trans (h : NoneOnZero k mid) (h' : NoneOnZero mid k') : NoneOnZero k k' := by
  intro virt hvirt hz
  have hsame := h' virt hvirt hz
  rw [hsame] at hz ⊢
  exact h virt hvirt hz

theorem SameEntries.noneOnZero (h : SameEntries k k') : NoneOnZero k k' := fun virt hvirt _ => h.pte virt hvirt

theorem OwnPage.of_page {a : Nat} (hpage : a / 4096 = virt / 4096) (h : OwnPage base k virt) :
    OwnPage base k a := by
  obtain ⟨hring, hframe⟩ := h
  refine ⟨(Kernel.ring3_page hpage).mpr hring, ?_⟩
  rw [Kernel.pte_page hpage]
  exact hframe

-- A page whose entries stay, on a frame that is kept, stays its own.
theorem OwnPage.keep (h : OwnPage base k virt) (hring : k.Ring3 virt → k'.Ring3 virt)
    (hpte : k'.pte virt = k.pte virt) (hkeeps : ∀ f, base.pmm.testBit f = false → Owned k f → Owned k' f) :
    OwnPage base k' virt := by
  obtain ⟨hopen, f, hpos, hfree, howned, haddress⟩ := h
  exact ⟨hring hopen, f, hpos, hfree, hkeeps f hfree howned, by rw [hpte, haddress]⟩

theorem Undisturbed.ownPage (hu : Undisturbed k k') (hvirt : virt < 4294967296) (h : OwnPage base k virt) :
    OwnPage base k' virt :=
  h.keep (hu.ring3 hvirt) (hu.pte virt hvirt) fun f _ hf => (hu.keeps f hf).1

-- A mapping that is made, of a frame that was taken for it
theorem mapPageUser_own (h : Paged k) (hframe : Owned k frame) (hlt : frame < 1048576) (hpos : 0 < frame)
    (hfree : base.pmm.testBit frame = false) (hvirt : virt < 4294967296)
    (htop : (k.pte virt).getLsbD 31 = true → (4096 * frame).testBit 31 = true)
    (hr : k.mapPageUser (4096 * frame) virt = .ok (true, k')) :
    OwnPage base k' virt ∧ ∀ a < 4294967296, OwnPage base k a → OwnPage base k' a := by
  have hm := (h.mapPageUser_ok h.marked hvirt hr).1 rfl
  have hself : OwnPage base k' virt := by
    refine ⟨hm.ring3, frame, hpos, hfree, (hm.keeps frame hframe).1, ?_⟩
    rw [hm.pte]
    refine (PAGE_PHYS_ADDRESS_SET_FRAME_iff _ (Nat.mul_mod_right 4096 frame) (by omega)).mpr fun hbit => ?_
    rw [BitVec.getLsbD_or, show (PTE_PRESENT ||| PTE_READ_WRITE ||| PTE_USER).getLsbD 31 = false by decide,
      Bool.or_false] at hbit
    exact htop hbit
  refine ⟨hself, fun a ha hown => ?_⟩
  by_cases hpage : a / 4096 = virt / 4096
  · exact hself.of_page hpage
  · exact hown.keep (hm.ring3_other ha hpage) (hm.pte_other a ha hpage) fun f _ hf => (hm.keeps f hf).1

-- Whatever map_page_user answers, it brings in no frame 0 that it was not given.
theorem mapPageUser_noneOnZero (h : Paged k) (hlt : frame < 1048576) (hpos : 0 < frame)
    (hvirt : virt < 4294967296) {r : Bool × Kernel} (hr : k.mapPageUser (4096 * frame) virt = .ok r) :
    NoneOnZero k r.2 := by
  obtain ⟨htrue, hfalse⟩ := h.mapPageUser_ok h.marked hvirt hr
  cases hok : r.1 with
  | false => exact (hfalse hok).toSameEntries.noneOnZero
  | true =>
      have hm := htrue hok
      intro a ha hz
      by_cases hpage : a / 4096 = virt / 4096
      · rw [Kernel.pte_page hpage, hm.pte, ← PAGE_PHYS_ADDRESS_or _ PTE_PRESENT (by decide)] at hz
        exact absurd hz (PageFrame.page_allocated_ne_zero _ (by omega) hlt)
      · exact hm.pte_other a ha hpage

theorem mapPageUser_paged (h : Paged k) (hvirt : virt < 4294967296) {phys : Nat} {r : Bool × Kernel}
    (hr : k.mapPageUser phys virt = .ok r) : Paged r.2 ∧ Keeps k r.2 := by
  obtain ⟨htrue, hfalse⟩ := h.mapPageUser_ok h.marked hvirt hr
  cases hok : r.1 with
  | false =>
      have hnot := (hfalse hok).undisturbed h.marked
      exact ⟨hnot.paged, hnot.keeps⟩
  | true =>
      have hm := htrue hok
      exact ⟨⟨hm.walkable, hm.marked h.marked⟩, hm.keeps⟩

end Pages

section Frames

variable {k k' : Kernel}

-- Where frame 0 is in use, a block at address 0 is none.
theorem getFreeFrame_none_of_zero (hzero : k.pmm.testBit 0 = true) (h : (k.pmm.allocateBlock 1).1 = 0) :
    k.pmm.getFreeFrameBySize 1 = none := by
  cases hfound : k.pmm.getFreeFrameBySize 1 with
  | none => rfl
  | some frame =>
      rw [Kernel.allocateBlock_address hfound] at h
      obtain rfl : frame = 0 := by omega
      rw [Kernel.foundFrame_free hfound] at hzero
      cases hzero

theorem allocateBlock_none (hnone : k.pmm.getFreeFrameBySize 1 = none) : k.pmm.allocateBlock 1 = (0, k.pmm) := by
  rw [Pmm.allocateBlock, hnone]

theorem mapPageUser_none {phys virt : Nat} (hnone : k.pmm.getFreeFrameBySize 1 = none) {r : Bool × Kernel}
    (hr : k.mapPageUser phys virt = .ok r) : r.2.pmm = k.pmm := by
  rcases (Kernel.mapPageUser_result hr).1 with hpmm | hpmm
  · exact hpmm
  · rwa [allocateBlock_none hnone] at hpmm

end Frames

-- What a run of the loader does to the pages of ring 3. None comes to frame 0. And if there
-- is a frame left at the end, every page that was mapped has one of its own.
structure Opens (base : Kernel) (met : Client.Conditions) (k k' : Kernel) : Prop where
  marks : ∀ f, k.pmm.testBit f = true → k'.pmm.testBit f = true
  spent : k.pmm.getFreeFrameBySize 1 = none → k'.pmm.getFreeFrameBySize 1 = none
  zero : NoneOnZero k k'
  own : (∀ f, base.pmm.testBit f = true → k.pmm.testBit f = true) → k.pmm.testBit 0 = true →
    met KeepsTop → k'.pmm.getFreeFrameBySize 1 ≠ none →
      (∀ a < 4294967296, OwnPage base k a → OwnPage base k' a) ∧
        ∀ Q : Nat → Prop, (∀ a < 4294967296, OwnPage base k' a → Q a) → met fun _ _ virt => Q virt.toNat

theorem Opens.composes (base : Kernel) : Client.ComposesAll (Opens base) where
  refl k := ⟨fun _ hf => hf, fun hn => hn, fun _ _ _ => rfl, fun _ _ _ _ => ⟨fun _ _ hown => hown,
    fun _ _ => trivial⟩⟩
  trans := by
    intro p q k mid k' h h'
    refine ⟨fun f hf => h'.marks f (h.marks f hf), fun hn => h'.spent (h.spent hn), h.zero.trans h'.zero, ?_⟩
    intro hbase hzero ⟨hp, hq⟩ hsome
    obtain ⟨hkept, hmet⟩ := h.own hbase hzero hp fun hn => hsome (h'.spent hn)
    obtain ⟨hkept', hmet'⟩ := h'.own (fun f hf => h.marks f (hbase f hf)) (h.marks 0 hzero) hq hsome
    refine ⟨fun a ha hown => hkept' a ha (hkept a ha hown), fun Q hQ => ⟨hmet Q ?_, hmet' Q hQ⟩⟩
    exact fun a ha hown => hQ a ha (hkept' a ha hown)

namespace Elf

variable {base k k' : Kernel} {data : Nat}

theorem loadPage_opens (base : Kernel) (data phdr vaddr filesz page : Nat) :
    Client.RelatesAll (Opens base) (loadPage data phdr vaddr filesz page) := by
  intro k r h hr
  have hvirt : u32 (vaddr + u32 (page * PAGE_SIZE)) < 4294967296 := Nat.mod_lt _ (by omega)
  refine ⟨(loadPage_keeps h hr).1, fun f hf => Kernel.run_marks hr hf, fun hnone => ?_, ?_, ?_⟩
  · rw [loadPage_none hnone hr]
    exact hnone
  · rcases loadPage_ok h hr with ⟨-, -, hsame, -⟩ | ⟨-, frame, mid, ok, hfilled, hmap, -⟩
    · exact hsame.noneOnZero
    · have hmapped := mapPageUser_noneOnZero hfilled.paged hfilled.lt hfilled.pos hvirt hmap
      exact hfilled.noneOnZero.trans hmapped
  · intro hbase hzero htop hsome
    rcases loadPage_ok h hr with ⟨-, hnone, -⟩ | ⟨-, frame, mid, ok, hfilled, hmap, hmeets⟩
    · have hspent := getFreeFrame_none_of_zero hzero hnone
      rw [loadPage_none hspent hr] at hsome
      exact absurd hspent hsome
    have hto : (BitVec.ofNat 32 (vaddr + u32 (page * PAGE_SIZE))).toNat =
        u32 (vaddr + u32 (page * PAGE_SIZE)) := BitVec.toNat_ofNat ..
    -- a table that is missing would have left no frame
    have hok : ok = true := by
      by_contra hne
      obtain ⟨-, hnone⟩ := (Kernel.mapPageUser_false_iff hmap).mp (Bool.eq_false_iff.mpr hne)
      have hmid : mid.pmm.testBit 0 = true := by
        rw [hfilled.pmm]
        exact Pmm.testBit_allocateBlock hzero
      have hspent := getFreeFrame_none_of_zero hmid hnone
      rw [mapPageUser_none hspent hmap] at hsome
      exact hsome hspent
    subst hok
    have hfresh : base.pmm.testBit frame = false := by
      by_contra hbit
      have hmark := hbase frame (Bool.eq_true_of_not_eq_false hbit)
      rw [hfilled.free] at hmark
      cases hmark
    have hbits : (mid.pte (u32 (vaddr + u32 (page * PAGE_SIZE)))).getLsbD 31 = true →
        (4096 * frame).testBit 31 = true := by
      intro hbit
      have hwanted := (hmeets KeepsTop).mp htop
      unfold KeepsTop at hwanted
      rw [hto] at hwanted
      have hphys := hwanted hbit
      rwa [BitVec.getLsbD_ofNat, decide_eq_true (by omega), Bool.true_and] at hphys
    obtain ⟨hself, hothers⟩ := mapPageUser_own hfilled.paged hfilled.owned hfilled.lt hfilled.pos hfresh
      hvirt hbits hmap
    refine ⟨fun a ha hown => hothers a ha (hfilled.ownPage ha hown), fun Q hQ => (hmeets _).mpr ?_⟩
    rw [hto]
    exact hQ _ hvirt hself

-- The whole load
theorem elfLoad_opens (h : Paged k) {r : Result × Kernel} (hr : k.run (elfLoad data) = .ok r) :
    Opens k (fun P => (elfLoad data).Meets P k) k r.2 :=
  (elfLoad_relatesAll (Opens.composes k) (loadPage_opens k data) k r h hr).2

end Elf

end ToyKernel
