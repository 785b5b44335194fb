import ToyKernel.Elf.Image

namespace ToyKernel

open Library ByteMemory

namespace Client

variable {α β : Type}

-- What the mappings of a run met, for any condition on them
abbrev Conditions : Type := (Kernel → BitVec 32 → BitVec 32 → Prop) → Prop

-- Relations between the start and the end of a run that put together run after run. They
-- are told which conditions the mappings on the way met.
structure ComposesAll (R : Conditions → Kernel → Kernel → Prop) : Prop where
  refl : ∀ k, R (fun _ => True) k k
  trans : ∀ {p q k mid k'}, R p k mid → R q mid k' → R (fun P => p P ∧ q P) k k'

-- Every run of `c` that ends is in the relation.
def RelatesAll (R : Conditions → Kernel → Kernel → Prop) (c : Client α) : Prop :=
  ∀ k r, Paged k → k.run c = .ok r → Paged r.2 ∧ R (fun P => c.Meets P k) k r.2

section RelatesAll

variable {R : Conditions → Kernel → Kernel → Prop}

theorem RelatesAll.pure (hR : ComposesAll R) (a : α) : RelatesAll R (pure a) := by
  intro k r h hr
  cases hr
  exact ⟨h, hR.refl k⟩

theorem RelatesAll.bind (hR : ComposesAll R) {c : Client α} {f : α → Client β} (hc : RelatesAll R c)
    (hf : ∀ a, RelatesAll R (f a)) : RelatesAll R (c >>= f) := by
  intro k r h hr
  obtain ⟨mid, hmid, hrest⟩ := exists_of_run_bind hr
  obtain ⟨hpaged, hfirst⟩ := hc k mid h hmid
  obtain ⟨hpaged', hsecond⟩ := hf mid.1 mid.2 r hpaged hrest
  have hmeets : (fun P => (c >>= f).Meets P k) = fun P => c.Meets P k ∧ (f mid.1).Meets P mid.2 :=
    funext fun _ => propext (meets_bind_ok hmid f)
  rw [hmeets]
  exact ⟨hpaged', hR.trans hfirst hsecond⟩

theorem RelatesAll.ite {p : Prop} [Decidable p] {c d : Client α} (hc : RelatesAll R c)
    (hd : RelatesAll R d) : RelatesAll R (if p then c else d) := by
  split
  · exact hc
  · exact hd

end RelatesAll

-- The same for one condition
structure Composes (R : Prop → Kernel → Kernel → Prop) : Prop where
  refl : ∀ k, R True k k
  trans : ∀ {p q k mid k'}, R p k mid → R q mid k' → R (p ∧ q) k k'

def Relates (P : Kernel → BitVec 32 → BitVec 32 → Prop) (R : Prop → Kernel → Kernel → Prop)
    (c : Client α) : Prop :=
  ∀ k r, Paged k → k.run c = .ok r → Paged r.2 ∧ R (c.Meets P k) k r.2

theorem Composes.all {R : Prop → Kernel → Kernel → Prop} (hR : Composes R)
    (P : Kernel → BitVec 32 → BitVec 32 → Prop) : ComposesAll fun m => R (m P) := ⟨hR.refl, hR.trans⟩

end Client

namespace Elf

open Client

section RelatesAll

variable {R : Conditions → Kernel → Kernel → Prop} {data : Nat}

theorem field_relatesAll (hR : ComposesAll R) {α : Type} {f : Nat → Client α} {offset count : Nat}
    (hf : ∀ value, RelatesAll R (f value)) : RelatesAll R (field data offset count >>= f) := by
  refine RelatesAll.bind hR (fun k r h hr => ?_) hf
  obtain rfl := field_ok hr
  have hmeets : (fun P => (field data offset count).Meets P k) = fun _ => True :=
    funext fun _ => eq_true field_meets
  rw [hmeets]
  exact ⟨h, hR.refl k⟩

-- What holds of every page holds of every run of the loader.
variable (hR : ComposesAll R)
  (hpage : ∀ phdr vaddr filesz page, RelatesAll R (loadPage data phdr vaddr filesz page))

include hR hpage

theorem loadPages_relatesAll (phdr vaddr filesz : Nat) (pages : List Nat) :
    RelatesAll R (loadPages data phdr vaddr filesz pages) := by
  induction pages with
  | nil => exact RelatesAll.pure hR true
  | cons page pages ih =>
      apply RelatesAll.bind hR (hpage phdr vaddr filesz page)
      intro loaded
      exact RelatesAll.ite ih (RelatesAll.pure hR false)

theorem loadSegments_relatesAll (rounds i loaded : Nat) :
    RelatesAll R (loadSegments data rounds i loaded) := by
  induction rounds generalizing i loaded with
  | zero => exact RelatesAll.pure hR _
  | succ rounds ih =>
      apply field_relatesAll hR
      intro phnum
      apply RelatesAll.ite (RelatesAll.pure hR _)
      apply field_relatesAll hR
      intro phoff
      apply field_relatesAll hR
      intro phentsize
      apply field_relatesAll hR
      intro type
      apply RelatesAll.ite (ih (i + 1) loaded)
      apply field_relatesAll hR
      intro vaddr
      apply field_relatesAll hR
      intro filesz
      apply field_relatesAll hR
      intro memsz
      apply RelatesAll.bind hR (loadPages_relatesAll hR hpage _ vaddr filesz _)
      intro complete
      exact RelatesAll.ite (ih (i + 1) (loaded + 1)) (RelatesAll.pure hR none)

theorem elfLoad_relatesAll : RelatesAll R (elfLoad data) := by
  unfold elfLoad
  -- the checks of the header
  repeat
    apply field_relatesAll hR
    intro value
    refine RelatesAll.ite (RelatesAll.pure hR _) ?_
  apply RelatesAll.bind hR (loadSegments_relatesAll hR hpage 65536 0 0)
  intro result
  match result with
  | none => exact RelatesAll.pure hR _
  | some 0 => exact RelatesAll.pure hR _
  | some (_ + 1) =>
      apply field_relatesAll hR
      intro entry
      exact RelatesAll.pure hR _

end RelatesAll

section Relates

variable {P : Kernel → BitVec 32 → BitVec 32 → Prop} {R : Prop → Kernel → Kernel → Prop} {data : Nat}
  (hR : Composes R) (hpage : ∀ phdr vaddr filesz page, Relates P R (loadPage data phdr vaddr filesz page))

include hR hpage

theorem loadPages_relates (phdr vaddr filesz : Nat) (pages : List Nat) :
    Relates P R (loadPages data phdr vaddr filesz pages) :=
  loadPages_relatesAll (hR.all P) hpage phdr vaddr filesz pages

theorem loadSegments_relates (rounds i loaded : Nat) :
    Relates P R (loadSegments data rounds i loaded) :=
  loadSegments_relatesAll (hR.all P) hpage rounds i loaded

theorem elfLoad_relates : Relates P R (elfLoad data) := elfLoad_relatesAll (hR.all P) hpage

end Relates

end Elf

section KernelPages

-- The first 4 MiB, which are mapped to themselves, and the kernel half with the heap in it.
def KernelPage (virt : Nat) : Prop := virt < 4194304 ∨ KERNEL_VIRT_BASE ≤ virt

-- The bits of an entry that say who may do what.
def privileges (entry : BitVec 32) : BitVec 32 := entry &&& (PTE_READ_WRITE ||| PTE_USER)

-- A page is where it was, for the same users.
def SamePage (k k' : Kernel) (virt : Nat) : Prop :=
  k'.translate virt = k.translate virt ∧
    privileges (k'.pde (PD_INDEX virt)) = privileges (k.pde (PD_INDEX virt)) ∧
      privileges (k'.pte virt) = privileges (k.pte virt)

def KernelUnchanged (k k' : Kernel) : Prop := ∀ virt < 4294967296, KernelPage virt → SamePage k k' virt

-- A mapping is of a page outside the kernel's, or comes to nothing: its table is missing,
-- and there is no frame for one.
def KeepsOut (k : Kernel) (_ virt : BitVec 32) : Prop :=
  KernelPage virt.toNat →
    isPresent (k.pde (PD_INDEX virt.toNat)) = false ∧ (k.pmm.allocateBlock 1).1 = 0

-- A table belongs to the kernel's pages as a whole or not at all.
theorem kernelPage_congr {a b : Nat} (h : PD_INDEX a = PD_INDEX b) : KernelPage a ↔ KernelPage b := by
  unfold KernelPage KERNEL_VIRT_BASE PD_INDEX at *
  omega

theorem isUser_of_privileges {entry entry' : BitVec 32} (h : privileges entry' = privileges entry) :
    isUser entry' = isUser entry := by
  have hbit := congrArg (fun e => e.getLsbD 2) h
  have hmask : (PTE_READ_WRITE ||| PTE_USER).getLsbD 2 = true := by decide
  simp only [privileges, BitVec.getLsbD_and, hmask, Bool.and_true] at hbit
  rw [isUser_iff, isUser_iff, hbit]

variable {k k' : Kernel} {virt : Nat}

theorem samePage_of_entries (h : Walkable k) (h' : Walkable k')
    (hpde : k'.pde (PD_INDEX virt) = k.pde (PD_INDEX virt)) (hpte : k'.pte virt = k.pte virt) :
    SamePage k k' virt := by
  refine ⟨?_, by rw [hpde], by rw [hpte]⟩
  rw [h'.translate_eq, h.translate_eq, hpte]

-- A page that is the same is as open to ring 3 as it was.
theorem SamePage.ring3 (h : Walkable k) (h' : Walkable k') (hsame : SamePage k k' virt)
    (hr : k'.Ring3 virt) : k.Ring3 virt := by
  obtain ⟨htranslate, hpde, hpte⟩ := hsame
  obtain ⟨-, huserTable, hpresent, huser⟩ := hr
  rw [h'.translate_eq, h.translate_eq, hpresent, if_pos rfl] at htranslate
  have hpage : isPresent (k.pte virt) = true := by
    by_contra hn
    rw [if_neg hn] at htranslate
    cases htranslate
  refine ⟨?_, by rwa [← isUser_of_privileges hpde], hpage, by rwa [← isUser_of_privileges hpte]⟩
  by_contra hn
  rw [Kernel.pte_of_absent (Bool.eq_false_iff.mpr hn), isPresent_zero] at hpage
  cases hpage

-- What a run of the loader does to the kernel's pages: ring 3 loses none; if the mappings
-- kept out, none has changed; and if they did not, ring 3 has one.
structure Guards (kept : Prop) (k k' : Kernel) : Prop where
  ring3 : ∀ a < 4294967296, k.Ring3 a → k'.Ring3 a
  same : kept → ∀ a < 4294967296, KernelPage a →
    k'.pde (PD_INDEX a) = k.pde (PD_INDEX a) ∧ k'.pte a = k.pte a
  taken : kept ∨ ∃ a < 4294967296, KernelPage a ∧ k'.Ring3 a

theorem Guards.composes : Client.Composes Guards where
  refl k := ⟨fun _ _ hr => hr, fun _ _ _ _ => ⟨rfl, rfl⟩, Or.inl trivial⟩
  trans := by
    intro p q k mid k' h h'
    refine ⟨fun a ha hr => h'.ring3 a ha (h.ring3 a ha hr), fun ⟨hp, hq⟩ a ha hk => ?_, ?_⟩
    · obtain ⟨hpde, hpte⟩ := h.same hp a ha hk
      obtain ⟨hpde', hpte'⟩ := h'.same hq a ha hk
      exact ⟨hpde'.trans hpde, hpte'.trans hpte⟩
    · rcases h'.taken with hq | htaken
      · rcases h.taken with hp | ⟨a, ha, hk, hr⟩
        · exact Or.inl ⟨hp, hq⟩
        · exact Or.inr ⟨a, ha, hk, h'.ring3 a ha hr⟩
      · exact Or.inr htaken

theorem SameEntries.guards (h : SameEntries k k') : Guards True k k' where
  ring3 _ ha hr := h.ring3 ha hr
  same _ _ ha _ := ⟨h.pde _ (Layout.PD_INDEX_lt ha), h.pte _ ha⟩
  taken := Or.inl trivial

-- One mapping
theorem mapPageUser_guards (h : Paged k) {phys virt : BitVec 32} {r : Bool × Kernel}
    (hr : k.mapPageUser phys.toNat virt.toNat = .ok r) :
    Paged r.2 ∧ Guards (KeepsOut k phys virt) k r.2 := by
  obtain ⟨htrue, hfalse⟩ := h.mapPageUser_ok h.marked virt.isLt hr
  have hanswer := Kernel.mapPageUser_false_iff hr
  cases hok : r.1 with
  | false =>
      have hnot := hfalse hok
      have hkept : KeepsOut k phys virt := fun _ => hanswer.mp hok
      rw [eq_true hkept]
      exact ⟨(hnot.undisturbed h.marked).paged, hnot.toSameEntries.guards⟩
  | true =>
      have hm := htrue hok
      -- the mapping was made, so it kept out only if the page is no kernel page
      have hkept : KeepsOut k phys virt → ¬KernelPage virt.toNat := fun hkept hk => by
        rw [hanswer.mpr (hkept hk)] at hok
        cases hok
      refine ⟨⟨hm.walkable, hm.marked h.marked⟩, ⟨fun a ha hr => ?_, fun hk a ha hka => ?_, ?_⟩⟩
      · by_cases hpage : a / PAGE_SIZE = virt.toNat / PAGE_SIZE
        · exact (Kernel.ring3_page hpage).mpr hm.ring3
        · exact hm.ring3_other ha hpage hr
      · have hne : PD_INDEX a ≠ PD_INDEX virt.toNat := fun he =>
          hkept hk ((kernelPage_congr he).mp hka)
        exact ⟨hm.pde_other _ (Layout.PD_INDEX_lt ha) hne,
          hm.pte_other a ha fun he => hne (index_of_page_eq he).1⟩
      · by_cases hk : KernelPage virt.toNat
        · exact Or.inr ⟨virt.toNat, virt.isLt, hk, hm.ring3⟩
        · exact Or.inl fun hkernel => absurd hkernel hk

end KernelPages

namespace Elf

variable {k k' : Kernel} {data : Nat} {result : Result}

theorem loadPage_guards (data phdr vaddr filesz page : Nat) :
    Client.Relates KeepsOut Guards (loadPage data phdr vaddr filesz page) := by
  intro k r h hr
  rcases loadPage_ok h hr with ⟨-, -, hsame, hmeets⟩ | ⟨-, frame, mid, ok, hfilled, hmap, hmeets⟩
  · rw [eq_true (hmeets KeepsOut)]
    exact ⟨hsame.paged, hsame.toSameEntries.guards⟩
  · rw [hmeets KeepsOut]
    have hphys : (BitVec.ofNat 32 (4096 * frame)).toNat = 4096 * frame := by
      have hlt := hfilled.lt
      rw [BitVec.toNat_ofNat]
      exact Nat.mod_eq_of_lt (by omega)
    have hvirt : (BitVec.ofNat 32 (vaddr + u32 (page * PAGE_SIZE))).toNat =
        u32 (vaddr + u32 (page * PAGE_SIZE)) := BitVec.toNat_ofNat ..
    rw [← hphys, ← hvirt] at hmap
    obtain ⟨hpaged, hguards⟩ := mapPageUser_guards hfilled.paged hmap
    have hboth := Guards.composes.trans hfilled.toSameEntries.guards hguards
    rw [true_and] at hboth
    exact ⟨hpaged, hboth⟩

-- Loading a program leaves the kernel's pages as they are if every mapping keeps out of
-- them; and only then, unless ring 3 had such a page before.
theorem elfLoad_kernelUnchanged (h : Paged k) (hrun : k.run (elfLoad data) = .ok (result, k')) :
    ((elfLoad data).Meets KeepsOut k → KernelUnchanged k k') ∧
      ((∀ virt < 4294967296, KernelPage virt → ¬k.Ring3 virt) →
        (KernelUnchanged k k' ↔ (elfLoad data).Meets KeepsOut k)) := by
  obtain ⟨hpaged, hguards⟩ :=
    elfLoad_relates Guards.composes (loadPage_guards data) k (result, k') h hrun
  have hsame : (elfLoad data).Meets KeepsOut k → KernelUnchanged k k' := fun hmeets virt hvirt hk => by
    obtain ⟨hpde, hpte⟩ := hguards.same hmeets virt hvirt hk
    exact samePage_of_entries h.toWalkable hpaged.toWalkable hpde hpte
  refine ⟨hsame, fun hclosed => ⟨fun hunchanged => ?_, hsame⟩⟩
  rcases hguards.taken with hmeets | ⟨a, ha, hk, hr⟩
  · exact hmeets
  · exact absurd ((hunchanged a ha hk).ring3 h.toWalkable hpaged.toWalkable hr) (hclosed a ha hk)

section Sample

theorem paged_sample (file : Nat → BitVec 8) : Paged (sampleKernel file) := by
  obtain ⟨directory, low, high, hl, -⟩ := kernel_sample file
  exact ⟨hl.walkable, hl.markedTables⟩

-- A program at 4 MiB
theorem elfLoad_kernelUnchanged_sample : ∃ k',
    (sampleKernel (sampleFile 0x400000 0 84)).run (elfLoad 0x50000) = .ok (.ok 0x400000, k') ∧
      KernelUnchanged (sampleKernel (sampleFile 0x400000 0 84)) k' := by
  have hvaddr : (phdr (sampleFile 0x400000 0 84) 0).vaddr = 0x400000 := by decide +kernel
  have hentry : number (sampleFile 0x400000 0 84) 24 4 = 0x400000 := by decide +kernel
  obtain ⟨k', hrun, hpage, hmeets⟩ := load_sample onePage_sample (by rw [hvaddr]; decide)
    (by rw [hvaddr]; decide)
  rw [hentry] at hrun
  refine ⟨k', hrun, (elfLoad_kernelUnchanged (paged_sample _) hrun).1 ((hmeets KeepsOut).mpr ?_)⟩
  rcases loadPage_ok (paged_sample _) hpage with ⟨hfalse, -⟩ | ⟨-, frame, mid, ok, -, -, hiff⟩
  · cases hfalse
  · rw [hiff KeepsOut, hvaddr]
    intro hkernel
    exact absurd hkernel (by unfold KernelPage; decide)

-- A program at the start of the heap
theorem onePage_heap : OnePage (sampleFile 0xD1000000 0 84) 84 := by
  refine ⟨?_, by decide +kernel, by decide +kernel⟩
  constructor <;> decide +kernel

theorem not_kernelUnchanged_sample : Paged (sampleKernel (sampleFile 0xD1000000 0 84)) ∧ ∃ k',
    (sampleKernel (sampleFile 0xD1000000 0 84)).run (elfLoad 0x50000) = .ok (.ok 0xD1000000, k') ∧
      ¬KernelUnchanged (sampleKernel (sampleFile 0xD1000000 0 84)) k' := by
  have hvaddr : (phdr (sampleFile 0xD1000000 0 84) 0).vaddr = 0xD1000000 := by decide +kernel
  have hentry : number (sampleFile 0xD1000000 0 84) 24 4 = 0xD1000000 := by decide +kernel
  have hpaged := paged_sample (sampleFile 0xD1000000 0 84)
  obtain ⟨k', hrun, hpage, hmeets⟩ := load_sample onePage_heap (by rw [hvaddr]; decide)
    (by rw [hvaddr]; decide)
  rw [hentry] at hrun
  obtain ⟨directory, low, high, hl, hentries, hpmm, -⟩ := kernel_sample (sampleFile 0xD1000000 0 84)
  refine ⟨hpaged, k', hrun, fun hunchanged => ?_⟩
  obtain ⟨hpaged', hguards⟩ := elfLoad_relates Guards.composes (loadPage_guards _) _ _ hpaged hrun
  rcases hguards.taken with hkept | ⟨a, ha, hk, hr⟩
  · -- there is a frame for the table, so the mapping is made
    rw [hmeets KeepsOut] at hkept
    rcases loadPage_ok hpaged hpage with ⟨hfalse, -⟩ | ⟨-, frame, mid, ok, hfilled, -, hiff⟩
    · cases hfalse
    · rw [hiff KeepsOut, hvaddr] at hkept
      obtain ⟨-, hnone⟩ := hkept (by unfold KernelPage; decide)
      rw [hfilled.pmm, hpmm, Kernel.allocateBlock_address frames_sample.2] at hnone
      omega
  · obtain ⟨-, -, -, huser⟩ := (hunchanged a ha hk).ring3 hpaged.toWalkable hpaged'.toWalkable hr
    rw [hentries.isUser_pte hl ha] at huser
    cases huser

end Sample

end Elf

end ToyKernel
