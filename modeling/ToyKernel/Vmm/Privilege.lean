import ToyKernel.Vmm.Update

namespace ToyKernel

open Library ByteMemory FirstFit

-- The page is open to ring 3: present and user, in the directory and in the table.
def Kernel.Ring3 (k : Kernel) (virt : Nat) : Prop :=
  isPresent (k.pde (PD_INDEX virt)) = true ∧ isUser (k.pde (PD_INDEX virt)) = true ∧
    isPresent (k.pte virt) = true ∧ isUser (k.pte virt) = true

-- The kernel, and the pages whose last call was a successful map_page_user.
structure Tracked where
  kernel : Kernel
  userPages : Set Nat

namespace Tracked

-- The pages after a call that answered `ok`
def track (pages : Set Nat) (c : PageCall) (ok : Bool) : Set Nat :=
  match c with
  | .mapPage _ virt => pages \ {virt.toNat / PAGE_SIZE}
  | .mapPageUser _ virt =>
      if ok then insert (virt.toNat / PAGE_SIZE) pages else pages \ {virt.toNat / PAGE_SIZE}
  | .unmapPage virt => pages \ {virt.toNat / PAGE_SIZE}
  | .pmm _ => pages

def exec (s : Tracked) (c : PageCall) : Except Fault Tracked := do
  let (ok, kernel) ← s.kernel.call c
  return { kernel, userPages := track s.userPages c ok }

theorem exec_of_call {s : Tracked} {c : PageCall} {r : Bool × Kernel} (h : s.kernel.call c = .ok r) :
    s.exec c = .ok ⟨r.2, track s.userPages c r.1⟩ := by
  unfold exec
  rw [h]
  rfl

-- Ring 3 reaches the pages that were mapped for it, and no others.
def Separated (s : Tracked) : Prop :=
  ∀ virt < 4294967296, s.kernel.Ring3 virt ↔ virt / PAGE_SIZE ∈ s.userPages

-- The tables are found where they are, and the PMM does not free them.
def Given (s : Tracked) (c : PageCall) : Prop :=
  CallReaches s.kernel c ∧
    match c with
    | .pmm p => MarkedTables { s.kernel with pmm := p }
    | _ => True

-- map_page meets an entry without the user bit, and brings none in with the address.
def NoUserBit (s : Tracked) : PageCall → Prop
  | .mapPage phys virt => isUser (s.kernel.pte virt.toNat) = false ∧ phys.getLsbD 2 = false
  | _ => True

-- What a run keeps. A table entry has the user bit only if its page is open to ring 3.
structure Inv (s : Tracked) : Prop where
  walkable : Walkable s.kernel
  marked : MarkedTables s.kernel
  user_only : ∀ virt < 4294967296, isPresent (s.kernel.pte virt) = true →
    isUser (s.kernel.pte virt) = true → virt / PAGE_SIZE ∈ s.userPages
  user_open : ∀ virt < 4294967296, virt / PAGE_SIZE ∈ s.userPages → s.kernel.Ring3 virt

theorem Inv.separated {s : Tracked} (h : Inv s) : Separated s :=
  fun virt hvirt => ⟨fun hr => h.user_only virt hvirt hr.2.2.1 hr.2.2.2, h.user_open virt hvirt⟩

end Tracked

section Steps

variable {k k' : Kernel} {phys virt : Nat} {attributes : BitVec 32} {user : Bool}

-- A page other than the one that was mapped stays open if it was.
theorem Mapped.ring3_other (h : Mapped k k' phys virt attributes user) {a : Nat} (ha : a < 4294967296)
    (hne : a / PAGE_SIZE ≠ virt / PAGE_SIZE) (hr : k.Ring3 a) : k'.Ring3 a := by
  obtain ⟨hp, hu, hpage⟩ := hr
  have hpd := Layout.PD_INDEX_lt ha
  have hpte := h.pte_other a ha hne
  refine ⟨?_, ?_, by rwa [hpte]⟩
  · by_cases hi : PD_INDEX a = PD_INDEX virt
    · rw [hi]
      exact h.present
    · rwa [h.pde_other _ hpd hi]
  · by_cases hi : PD_INDEX a = PD_INDEX virt
    · rw [hi] at hu ⊢
      rw [h.user, hu, Bool.true_or]
    · rwa [h.pde_other _ hpd hi]

-- The page itself is open after map_page_user.
theorem Mapped.ring3 (h : Mapped k k' phys virt (PTE_PRESENT ||| PTE_READ_WRITE ||| PTE_USER) true) :
    k'.Ring3 virt := by
  refine ⟨h.present, by rw [h.user, Bool.or_true], ?_, ?_⟩
  · rw [h.pte]
    exact isPresent_SET_FRAME _ _ (isPresent_or _ _ (by decide))
  · rw [h.pte, isUser_SET_FRAME, isUser_or,
      show isUser (PTE_PRESENT ||| PTE_READ_WRITE ||| PTE_USER) = true by decide, Bool.or_true,
      Bool.true_or]

theorem SameEntries.ring3 (h : SameEntries k k') {a : Nat} (ha : a < 4294967296) (hr : k.Ring3 a) :
    k'.Ring3 a := by
  unfold Kernel.Ring3
  rwa [h.pde _ (Layout.PD_INDEX_lt ha), h.pte a ha]

theorem Placed.ring3_other {value : BitVec 32} (h : Placed k k' virt value) {a : Nat}
    (ha : a < 4294967296) (hne : a / PAGE_SIZE ≠ virt / PAGE_SIZE) (hr : k.Ring3 a) : k'.Ring3 a := by
  unfold Kernel.Ring3
  rwa [h.pde _ (Layout.PD_INDEX_lt ha), h.pte_other a ha hne]

theorem Kernel.ring3_page {a : Nat} (h : a / PAGE_SIZE = virt / PAGE_SIZE) :
    k.Ring3 a ↔ k.Ring3 virt := by
  unfold Kernel.Ring3
  rw [(index_of_page_eq h).1, Kernel.pte_page h]

end Steps

namespace Tracked

variable {s : Tracked} {k' : Kernel} {virt : Nat}

-- A call that closes one page and leaves the others as they are
theorem Inv.close (h : Inv s) (hwalk : Walkable k') (hmarked : MarkedTables k')
    (hpte : ∀ a < 4294967296, a / PAGE_SIZE ≠ virt / PAGE_SIZE → k'.pte a = s.kernel.pte a)
    (hring : ∀ a < 4294967296, a / PAGE_SIZE ≠ virt / PAGE_SIZE → s.kernel.Ring3 a → k'.Ring3 a)
    (hclosed : isPresent (k'.pte virt) = true → isUser (k'.pte virt) = false) :
    Inv ⟨k', s.userPages \ {virt / PAGE_SIZE}⟩ where
  walkable := hwalk
  marked := hmarked
  user_only a ha hp hu := by
    by_cases hpage : a / PAGE_SIZE = virt / PAGE_SIZE
    · rw [Kernel.pte_page hpage] at hp hu
      rw [hclosed hp] at hu
      cases hu
    · rw [hpte a ha hpage] at hp hu
      exact ⟨h.user_only a ha hp hu, hpage⟩
  user_open a ha hmem := hring a ha hmem.2 (h.user_open a ha hmem.1)

-- A call that opens one
theorem Inv.openPage (h : Inv s) (hwalk : Walkable k') (hmarked : MarkedTables k')
    (hpte : ∀ a < 4294967296, a / PAGE_SIZE ≠ virt / PAGE_SIZE → k'.pte a = s.kernel.pte a)
    (hring : ∀ a < 4294967296, a / PAGE_SIZE ≠ virt / PAGE_SIZE → s.kernel.Ring3 a → k'.Ring3 a)
    (hopen : k'.Ring3 virt) : Inv ⟨k', insert (virt / PAGE_SIZE) s.userPages⟩ where
  walkable := hwalk
  marked := hmarked
  user_only a ha hp hu := by
    by_cases hpage : a / PAGE_SIZE = virt / PAGE_SIZE
    · exact Or.inl hpage
    · rw [hpte a ha hpage] at hp hu
      exact Or.inr (h.user_only a ha hp hu)
  user_open a ha hmem := by
    by_cases hpage : a / PAGE_SIZE = virt / PAGE_SIZE
    · exact (Kernel.ring3_page hpage).mpr hopen
    · exact hring a ha hpage (h.user_open a ha (hmem.resolve_left hpage))

theorem Inv.unmapped (h : Inv s) (hvirt : virt < 4294967296) (hn : NotMapped s.kernel k' virt) :
    Inv ⟨k', s.userPages \ {virt / PAGE_SIZE}⟩ := by
  apply h.close hn.walkable (hn.marked h.marked) (fun a ha _ => hn.pte a ha)
    (fun a ha _ hr => hn.ring3 ha hr)
  intro hp
  rw [hn.pte virt hvirt, Kernel.pte_of_absent hn.absent, isPresent_zero] at hp
  cases hp

theorem Inv.mapPage (h : Inv s) {phys virt : BitVec 32} (hreach : MappingReaches s.kernel virt.toNat)
    (hbit : NoUserBit s (.mapPage phys virt)) :
    ∃ s', s.exec (.mapPage phys virt) = .ok s' ∧ Inv s' := by
  obtain ⟨r, hr, htrue, hfalse⟩ := h.walkable.mapPage phys.toNat virt.isLt hreach
    fun _ => freshTable_of_marked h.marked
  refine ⟨_, exec_of_call hr, ?_⟩
  change Inv ⟨r.2, s.userPages \ {virt.toNat / PAGE_SIZE}⟩
  cases hok : r.1 with
  | false => exact h.unmapped virt.isLt (hfalse hok)
  | true =>
      have hm := htrue hok
      apply h.close hm.walkable (hm.marked h.marked) hm.pte_other fun a ha hne => hm.ring3_other ha hne
      intro _
      rw [hm.pte, isUser_SET_FRAME, isUser_or, hbit.1, BitVec.testBit_toNat, hbit.2]
      decide

theorem Inv.mapPageUser (h : Inv s) {phys virt : BitVec 32}
    (hreach : MappingReaches s.kernel virt.toNat) :
    ∃ s', s.exec (.mapPageUser phys virt) = .ok s' ∧ Inv s' := by
  obtain ⟨r, hr, htrue, hfalse⟩ := h.walkable.mapPageUser phys.toNat virt.isLt hreach
    fun _ => freshTable_of_marked h.marked
  refine ⟨_, exec_of_call hr, ?_⟩
  cases hok : r.1 with
  | false => exact h.unmapped virt.isLt (hfalse hok)
  | true =>
      have hm := htrue hok
      exact h.openPage hm.walkable (hm.marked h.marked) hm.pte_other
        (fun a ha hne => hm.ring3_other ha hne) hm.ring3

theorem Inv.unmapPage (h : Inv s) {virt : BitVec 32} (hreach : UnmappingReaches s.kernel virt.toNat) :
    ∃ s', s.exec (.unmapPage virt) = .ok s' ∧ Inv s' := by
  obtain ⟨k', hk', hplaced⟩ := h.walkable.unmapPage virt.isLt hreach
  refine ⟨_, exec_of_call (call_unmapPage hk'), ?_⟩
  apply h.close hplaced.walkable (hplaced.marked h.marked) hplaced.pte_other
    fun a ha hne => hplaced.ring3_other ha hne
  intro hp
  rw [hplaced.pte, isPresent_iff, BitVec.getLsbD_and,
    show (~~~PTE_PRESENT).getLsbD 0 = false by decide, Bool.and_false] at hp
  cases hp

theorem Inv.exec (h : Inv s) {c : PageCall} (hgiven : Given s c) (hbit : NoUserBit s c) :
    ∃ s', s.exec c = .ok s' ∧ Inv s' := by
  cases c with
  | mapPage phys virt => exact h.mapPage hgiven.1 hbit
  | mapPageUser phys virt => exact h.mapPageUser hgiven.1
  | unmapPage virt => exact h.unmapPage hgiven.1
  | pmm p =>
      exact ⟨_, rfl, h.walkable.of_directory rfl rfl rfl fun _ _ => rfl, hgiven.2, h.user_only, h.user_open⟩

theorem Inv.run (h : Inv s) {calls : List PageCall} (hgiven : AllMet Tracked.exec Given s calls)
    (hbit : AllMet Tracked.exec NoUserBit s calls) :
    ∃ s', Library.run Tracked.exec s calls = .ok s' ∧ Inv s' := by
  induction calls generalizing s with
  | nil => exact ⟨s, rfl, h⟩
  | cons c calls ih =>
      obtain ⟨mid, hmid, hinv⟩ := h.exec hgiven.1 hbit.1
      rw [run_cons hmid]
      exact ih hinv (hgiven.2 mid hmid) (hbit.2 mid hmid)

-- INITIALIZE_VMEMORY maps nothing for ring 3.
def start (booted : Kernel) : Tracked := ⟨booted.initialized, ∅⟩

end Tracked

section Boot

variable {k : Kernel} {directory low high : Nat}

-- No table entry of INITIALIZE_VMEMORY has the user bit.
theorem BootEntries.isUser_pte (h : BootEntries k.memory directory low high)
    (hl : Layout k directory (bootTables low high)) {virt : Nat} (hvirt : virt < 4294967296) :
    isUser (k.pte virt) = false := by
  have hpd := Layout.PD_INDEX_lt hvirt
  have hslot := PT_INDEX_lt virt
  have hflags : ∀ n, isUser (SET_FRAME (PTE_PRESENT ||| PTE_READ_WRITE) (n * PAGE_SIZE)) = false := by
    intro n
    rw [isUser_SET_FRAME, testBit_of_aligned (Nat.mul_mod_left n PAGE_SIZE) (by omega)]
    decide
  rcases bootTables_cases low high (PD_INDEX virt) with ⟨-, ht⟩ | ⟨-, ht⟩ | ⟨-, -, ht⟩
  · have hp : isPresent (k.pde (PD_INDEX virt)) = true := (hl.isPresent_iff hpd).mpr ⟨low, ht⟩
    rw [Kernel.pte_of_present hp, hl.tableAt_eq hpd ht, h.low_entry _ hslot]
    exact hflags _
  · have hp : isPresent (k.pde (PD_INDEX virt)) = true := (hl.isPresent_iff hpd).mpr ⟨high, ht⟩
    have hframe : KERNEL_ADDRESS + PT_INDEX virt * PAGE_SIZE = (256 + PT_INDEX virt) * PAGE_SIZE := by
      rw [Nat.add_mul]
      rfl
    rw [Kernel.pte_of_present hp, hl.tableAt_eq hpd ht, h.high_entry _ hslot, hframe]
    exact hflags _
  · have hp : ¬isPresent (k.pde (PD_INDEX virt)) = true := fun hp => by
      obtain ⟨t, ht'⟩ := (hl.isPresent_iff hpd).mp hp
      rw [ht] at ht'
      cases ht'
    rw [Kernel.pte_of_absent (Bool.eq_false_iff.mpr hp), isUser_zero]

end Boot

namespace Tracked

theorem inv_start {image : KernelImage} {ram : Nat → BitVec 32} {params : BootParams}
    (memory : Memory) (cr3 : Nat) (hroom : Room ∅ (Pmm.initMemory image ram params) 3) :
    Inv (start (Kernel.booted image ram params memory cr3)) := by
  obtain ⟨k, directory, low, high, hinit, hl, hentries, -⟩ := booted_boot memory cr3 hroom
  unfold start
  rw [Kernel.initialized_eq hinit]
  refine ⟨hl.walkable, hl.markedTables, fun virt hvirt _ hu => ?_, fun virt _ hmem => absurd hmem ?_⟩
  · rw [hentries.isUser_pte hl hvirt] at hu
    cases hu
  · exact Set.notMem_empty _

-- In every run from INITIALIZE_VMEMORY, if map_page never meets an entry with the user bit,
-- ring 3 reaches exactly the pages whose last call was a successful map_page_user.
theorem separated_of_met (image : KernelImage) (ram : Nat → BitVec 32) (params : BootParams)
    (memory : Memory) (cr3 : Nat) (calls : List PageCall)
    (hroom : Room ∅ (Pmm.initMemory image ram params) 3)
    (hgiven : AllMet exec Given (start (Kernel.booted image ram params memory cr3)) calls)
    (hbit : AllMet exec NoUserBit (start (Kernel.booted image ram params memory cr3)) calls) :
    ∃ s, run exec (start (Kernel.booted image ram params memory cr3)) calls = .ok s ∧ Separated s := by
  obtain ⟨s, hrun, hinv⟩ := (inv_start memory cr3 hroom).run hgiven hbit
  exact ⟨s, hrun, hinv.separated⟩

section Sample

-- One page, mapped for ring 3 and then for the kernel
def userThenKernel : List PageCall :=
  [.mapPageUser 0x5000#32 0xC0000000#32, .mapPage 0x5000#32 0xC0000000#32]

def kernelThenUser : List PageCall :=
  [.mapPage 0x5000#32 0xC0000000#32, .mapPageUser 0x5000#32 0xC0000000#32]

theorem kernelThenUser_sample : AllMet exec Given (start bootedSample) kernelThenUser ∧
    AllMet exec NoUserBit (start bootedSample) kernelThenUser := by
  obtain ⟨k, directory, low, high, hinit, hl, hentries, -⟩ :=
    booted_boot (fun _ => 0) 0 room_empty_sample
  have hk : bootedSample.initialized = k := Kernel.initialized_eq hinit
  obtain ⟨-, hreach⟩ := hl.mappingReaches (by omega) (bootTables_high low high)
  obtain ⟨k', hmap, hm, hreach'⟩ := hl.mapPage_present 0x5000 (by omega)
    (bootTables_high low high) (by decide)
  unfold start
  rw [hk]
  have hexec := exec_of_call (s := ⟨k, ∅⟩) (c := .mapPage 0x5000#32 0xC0000000#32) hmap
  refine ⟨⟨⟨hreach, trivial⟩, fun s hs => ⟨⟨?_, trivial⟩, fun _ _ => trivial⟩⟩,
    ⟨⟨hentries.isUser_pte hl (by decide), by decide⟩, fun _ _ => ⟨trivial, fun _ _ => trivial⟩⟩⟩
  obtain rfl := Except.ok.inj (hexec.symm.trans hs)
  exact hreach'

theorem separated_of_met_sample :
    ∃ s, run exec (start bootedSample) kernelThenUser = .ok s ∧ Separated s :=
  separated_of_met Pmm.sampleImage (fun _ => 0) Pmm.sampleParams (fun _ => 0) 0 kernelThenUser
    room_empty_sample kernelThenUser_sample.1 kernelThenUser_sample.2

-- map_page leaves the user bit of the entry as it was.
theorem not_separated_sample :
    AllMet exec Given (start bootedSample) userThenKernel ∧
      ∃ s, run exec (start bootedSample) userThenKernel = .ok s ∧ ¬Separated s := by
  obtain ⟨k, directory, low, high, hinit, hl, -⟩ := booted_boot (fun _ => 0) 0 room_empty_sample
  have hk : bootedSample.initialized = k := Kernel.initialized_eq hinit
  obtain ⟨-, hreach⟩ := hl.mappingReaches (by omega) (bootTables_high low high)
  obtain ⟨k₁, hmap₁, hm₁, hreach₁⟩ := hl.mapPageUser_present 0x5000 (by omega)
    (bootTables_high low high) (by decide)
  obtain ⟨r, hmap₂, htrue, hfalse⟩ := hm₁.walkable.mapPage 0x5000 (by omega) hreach₁
    fun ha => absurd (hm₁.present.symm.trans ha) Bool.noConfusion
  have hexec₁ := exec_of_call (s := ⟨k, ∅⟩) (c := .mapPageUser 0x5000#32 0xC0000000#32) hmap₁
  have hexec₂ := exec_of_call (s := ⟨k₁, track ∅ (.mapPageUser 0x5000#32 0xC0000000#32) true⟩)
    (c := .mapPage 0x5000#32 0xC0000000#32) hmap₂
  unfold start
  rw [hk]
  refine ⟨⟨⟨hreach, trivial⟩, fun s hs => ⟨⟨?_, trivial⟩, fun _ _ => trivial⟩⟩, _,
    (run_cons hexec₁ _).trans (run_cons hexec₂ _), fun hsep => ?_⟩
  · obtain rfl := Except.ok.inj (hexec₁.symm.trans hs)
    exact hreach₁
  cases hok : r.1 with
  | false => exact absurd (hm₁.present.symm.trans (hfalse hok).absent) Bool.noConfusion
  | true =>
      have hm₂ := htrue hok
      have hopen : r.2.Ring3 0xC0000000 := by
        obtain ⟨hp, hu, hpte, hupte⟩ := hm₁.ring3
        refine ⟨hm₂.present, by rw [hm₂.user, hu]; rfl, ?_, ?_⟩
        · rw [hm₂.pte]
          exact isPresent_SET_FRAME _ _ (isPresent_or_left _ _ hpte)
        · rw [hm₂.pte, isUser_SET_FRAME, isUser_or, hupte]
          rfl
      have hmem := (hsep 0xC0000000 (by omega)).mp hopen
      exact hmem.2 rfl

end Sample

end Tracked

end ToyKernel
