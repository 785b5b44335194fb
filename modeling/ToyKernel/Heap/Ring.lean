import ToyKernel.Elf.Protected
import ToyKernel.Heap.Stands

namespace ToyKernel

open Library ByteMemory FirstFit

-- The tables stay on frames that the PMM keeps, and no directory entry is opened to ring 3.
structure SameUsers (k k' : Kernel) : Prop where
  paged : Paged k'
  pde : ∀ i < 1024, isUser (k'.pde i) = isUser (k.pde i)

theorem SameUsers.trans {k mid k' : Kernel} (h : SameUsers k mid) (h' : SameUsers mid k') :
    SameUsers k k' :=
  ⟨h'.paged, fun i hi => (h'.pde i hi).trans (h.pde i hi)⟩

theorem SameEntries.sameUsers {k k' : Kernel} (h : SameEntries k k') (hpaged : Paged k') :
    SameUsers k k' :=
  ⟨hpaged, fun i hi => by rw [h.pde i hi]⟩

namespace Paged

variable {k k' : Kernel} {phys virt : Nat}

-- Blocks of any size
theorem allocateBlock_sameUsers (h : Paged k) {size : Nat} (hsize : size ≤ 1048576)
    {r : Nat × Kernel} (hr : k.allocateBlock size = .ok r) : SameUsers k r.2 := by
  unfold Kernel.allocateBlock at hr
  rcases k.pmm.allocateBlock_cases size with ⟨hnone, _⟩ | ⟨frame, hf, hpos, hopen, hlt, he⟩
  · rw [hnone] at hr
    obtain rfl := Except.ok.inj hr
    exact (SameEntries.refl k).sameUsers h
  · have hsome := (k.pmm.getFreeFrameBySize_eq_some_iff size frame).mpr ⟨hpos, hopen, hf⟩
    simp only [hsome, he] at hr
    obtain ⟨k', hzero, hdone⟩ := exists_of_bind hr
    obtain ⟨-, rfl⟩ := Kernel.access_ok hzero
    obtain rfl := Except.ok.inj hdone
    have hmarks : ∀ f, k.pmm.testBit f = true → (k.pmm.takeFrames frame size).testBit f = true :=
      fun f hm => Pmm.testBit_takeFrames_of_testBit k.pmm frame size f hm
    -- what is cleared was free, so it held no table
    have hspare : ∀ b, frame * 4096 ≤ b → b < frame * 4096 + size * 4096 →
        Spare k (4096 * (b / 4096)) := by
      intro b hlo hhi
      have hclear := hf.clear.cell (b / 4096) (by omega) (by omega)
      rw [Pmm.marked_of_lt _ (by omega)] at hclear
      exact spare_of_unmarked h.marked hclear
    have hbytes : u32 (size * 4096) ≤ size * 4096 := Nat.mod_le _ _
    have hmemory : ∀ b, ¬Spare k (4096 * (b / 4096)) →
        fill k.memory (frame * 4096) (u32 (size * 4096)) 0 b = k.memory b := by
      intro b hb
      apply fill_of_apart
      by_contra hin
      exact hb (hspare b (by omega) (by omega))
    obtain ⟨hwalk, hsame⟩ := h.toWalkable.writingFrames hmemory (k.pmm.takeFrames frame size)
    exact hsame.sameUsers ⟨hwalk, h.marked.keep hsame hmarks⟩

-- map_page opens nothing, whatever it answers.
theorem mapPage_sameUsers (h : Paged k) (hvirt : virt < 4294967296) {r : Bool × Kernel}
    (hr : k.mapPage phys virt = .ok r) :
    SameUsers k r.2 ∧ (r.1 = true → isPresent (r.2.pde (PD_INDEX virt)) = true) := by
  obtain ⟨htrue, hfalse⟩ := h.mapPage_ok h.marked hvirt hr
  cases hok : r.1 with
  | false =>
      have hnot := hfalse hok
      exact ⟨hnot.toSameEntries.sameUsers (hnot.undisturbed h.marked).paged, nofun⟩
  | true =>
      have hm := htrue hok
      refine ⟨⟨⟨hm.walkable, hm.marked h.marked⟩, fun i hi => ?_⟩, fun _ => hm.present⟩
      by_cases hpd : i = PD_INDEX virt
      · rw [hpd, hm.user, Bool.or_false]
      · rw [hm.pde_other i hi hpd]

-- A table entry with other attributes
theorem update32_sameUsers (h : Paged k) (hvirt : virt < 4294967296)
    (hpresent : isPresent (k.pde (PD_INDEX virt)) = true) {page : Nat}
    (hpage : k.getPage virt = .ok page) {f : BitVec 32 → BitVec 32} (hr : k.update32 page f = .ok k') :
    SameUsers k k' := by
  obtain ⟨entry, hread, hdone⟩ := exists_of_bind hpage
  obtain ⟨-, rfl⟩ := Kernel.access_ok hread
  obtain rfl := Except.ok.inj hdone
  obtain ⟨-, rfl⟩ := Kernel.access_ok hr
  have hplaced := h.toWalkable.placed hvirt hpresent
    (f (load32 k.memory (k.tableAt (PD_INDEX virt) + 4 * PT_INDEX virt)))
  exact ⟨⟨hplaced.walkable, hplaced.marked h.marked⟩, fun i hi => congrArg isUser (hplaced.pde i hi)⟩

end Paged

namespace Heap

variable {h h' : Heap} {k k' : Kernel}

section Kernel

theorem mapInitialPage_sameUsers {phys virt : Nat} (hpaged : Paged k) (hvirt : virt < 4294967296)
    (hm : mapInitialPage k phys virt = .ok k') : SameUsers k k' := by
  obtain ⟨⟨ok, k₁⟩, hmap, hrest⟩ := exists_of_bind hm
  obtain ⟨hsame, hpresent⟩ := hpaged.mapPage_sameUsers hvirt (ok_of_fault hmap)
  cases ok with
  | false => cases hrest
  | true =>
      obtain ⟨page, hpage, hupdate⟩ := exists_of_bind hrest
      exact hsame.trans (hsame.paged.update32_sameUsers hvirt (hpresent rfl) (ok_of_fault hpage)
        (ok_of_fault hupdate))

theorem mapInitialPages_sameUsers {phys virt : Nat → Nat} (hvirt : ∀ i, virt i < 4294967296)
    {pages : List Nat} (hpaged : Paged k)
    (hm : pages.foldlM (fun k i => mapInitialPage k (phys i) (virt i)) k = .ok k') : SameUsers k k' := by
  induction pages generalizing k with
  | nil =>
      obtain rfl := Except.ok.inj hm
      exact ⟨hpaged, fun _ _ => rfl⟩
  | cons page pages ih =>
      rw [List.foldlM_cons] at hm
      obtain ⟨k₁, hfirst, hrest⟩ := exists_of_bind hm
      have hsame := mapInitialPage_sameUsers hpaged (hvirt page) hfirst
      exact hsame.trans (ih hsame.paged hrest)

theorem mallocInit_sameUsers {bytes : Nat} (hpaged : Paged h.kernel) (hi : h.mallocInit bytes = .ok h') :
    SameUsers h.kernel h'.kernel := by
  have hpages : u32 (bytes + PAGE_SIZE - 1) / PAGE_SIZE + (if bytes % PAGE_SIZE > 0 then 1 else 0) ≤
      1048576 := by
    have hround : u32 (bytes + PAGE_SIZE - 1) < 4294967296 := Nat.mod_lt _ (by omega)
    rw [show PAGE_SIZE = 4096 from rfl] at *
    split <;> omega
  unfold mallocInit at hi
  obtain ⟨⟨phys, k₁⟩, halloc, hrest⟩ := exists_of_bind hi
  have hsame := hpaged.allocateBlock_sameUsers hpages (ok_of_fault halloc)
  by_cases hz : phys = 0
  · simp only [hz, ite_true] at hrest
    cases hrest
  simp only [hz, ite_false] at hrest
  obtain ⟨k₂, hmap, hdone⟩ := exists_of_bind hrest
  obtain rfl := Except.ok.inj hdone
  exact hsame.trans (mapInitialPages_sameUsers (fun _ => Nat.mod_lt _ (by omega)) hsame.paged hmap)

theorem growPage_sameUsers {cur virt : Nat} (hpaged : Paged h.kernel) (hvirt : virt < 4294967296)
    (hg : h.growPage cur virt = .ok h') : SameUsers h.kernel h'.kernel := by
  obtain ⟨⟨temp, k₁⟩, halloc, hrest⟩ := exists_of_bind hg
  have hsame := hpaged.allocateBlock_sameUsers (by omega) (ok_of_fault halloc)
  by_cases hz : temp = 0
  · simp only [hz, ite_true] at hrest
    cases hrest
  simp only [hz, ite_false] at hrest
  obtain ⟨⟨ok, k₂⟩, hmap, hrest⟩ := exists_of_bind hrest
  have hmapped := (hsame.paged.mapPage_sameUsers hvirt (ok_of_fault hmap)).1
  cases ok with
  | false => cases hrest
  | true =>
      obtain rfl := Except.ok.inj hrest
      exact hsame.trans hmapped

theorem growPages_sameUsers {count cur virt : Nat} (hpaged : Paged h.kernel) (hvirt : virt < 4294967296)
    (hg : growPages count h cur virt = .ok h') : SameUsers h.kernel h'.kernel := by
  induction count generalizing h virt with
  | zero =>
      obtain rfl := Except.ok.inj hg
      exact ⟨hpaged, fun _ _ => rfl⟩
  | succ count ih =>
      obtain ⟨h₁, hfirst, hrest⟩ := exists_of_bind hg
      have hsame := growPage_sameUsers hpaged hvirt hfirst
      exact hsame.trans (ih hsame.paged (Nat.mod_lt _ (by omega)) hrest)

theorem takeBlock_sameUsers {cur size : Nat} (hpaged : Paged h.kernel)
    (ht : h.takeBlock cur size = .ok h') : SameUsers h.kernel h'.kernel := by
  unfold takeBlock at ht
  split at ht
  · obtain rfl := Except.ok.inj ht
    exact ⟨hpaged, fun _ _ => rfl⟩
  split at ht
  · obtain rfl := Except.ok.inj ht
    exact ⟨hpaged, fun _ _ => rfl⟩
  split at ht
  · cases ht
  · obtain ⟨h₁, hgrow, hdone⟩ := exists_of_bind ht
    obtain rfl := Except.ok.inj hdone
    have hsame := growPages_sameUsers hpaged (Nat.mod_lt _ (by omega)) hgrow
    exact hsame

-- What malloc_next_block does once there is a heap
def mallocFound (h : Heap) (size : Nat) : Except Stuck (Nat × Heap) :=
  match findBlock h.bytes size LIST_STEPS h.mallocListHead with
  | none => throw .noEnd
  | some cur => do
      let h ← h.takeBlock cur size
      return (u32 (cur + SIZEOF_BLOCK), h)

-- All that malloc_next_block can do: nothing, or to take a block, in a new heap if need be
theorem mallocNextBlock_inv {size : Nat} {r : Nat × Heap} (hr : h.mallocNextBlock size = .ok r) :
    r = (0, h) ∨ ∃ h₀ h₁ cur, (h₀ = h ∨ h.mallocInit size = .ok h₀) ∧
      h₀.takeBlock cur size = .ok h₁ ∧ r = (u32 (cur + SIZEOF_BLOCK), h₁) := by
  unfold mallocNextBlock at hr
  by_cases hzero : size = 0
  · simp only [hzero, ite_true] at hr
    exact Or.inl (Except.ok.inj hr).symm
  simp only [hzero, ite_false] at hr
  right
  have hfound : ∃ h₀, (h₀ = h ∨ h.mallocInit size = .ok h₀) ∧ h₀.mallocFound size = .ok r := by
    split at hr
    · obtain ⟨h₀, hinit, hrest⟩ := exists_of_bind hr
      exact ⟨h₀, Or.inr hinit, hrest⟩
    · exact ⟨h, Or.inl rfl, hr⟩
  obtain ⟨h₀, hready, hrest⟩ := hfound
  unfold mallocFound at hrest
  split at hrest
  · cases hrest
  · rename_i cur _
    obtain ⟨h₁, htake, hdone⟩ := exists_of_bind hrest
    exact ⟨h₀, h₁, cur, hready, htake, (Except.ok.inj hdone).symm⟩

-- SYS_MALLOC is malloc_next_block and the pass that merges, in a new heap if there is none.
theorem syscallMalloc_inv {size : Nat} {r : Nat × Heap} (hr : h.syscallMalloc size = .ok r) :
    ∃ h₀ h₁, (h₀ = h ∨ h.mallocInit size = .ok h₀) ∧ h₀.mallocNextBlock size = .ok (r.1, h₁) ∧
      h₁.mergeFreeBlocks = .ok r.2 := by
  unfold syscallMalloc at hr
  have hnext : ∃ h₀, (h₀ = h ∨ h.mallocInit size = .ok h₀) ∧ ∃ block, h₀.mallocNextBlock size = .ok block ∧
      (block.2.mergeFreeBlocks >>= fun h => pure (block.1, h)) = .ok r := by
    split at hr
    · obtain ⟨h₀, hinit, hrest⟩ := exists_of_bind hr
      exact ⟨h₀, Or.inr hinit, exists_of_bind hrest⟩
    · exact ⟨h, Or.inl rfl, exists_of_bind hr⟩
  obtain ⟨h₀, hready, ⟨ptr, h₁⟩, hblock, hrest⟩ := hnext
  obtain ⟨h₂, hmerge, hdone⟩ := exists_of_bind hrest
  obtain rfl := Except.ok.inj hdone
  exact ⟨h₀, h₁, hready, hblock, hmerge⟩

theorem ready_sameUsers {h₀ : Heap} {size : Nat} (hpaged : Paged h.kernel)
    (hready : h₀ = h ∨ h.mallocInit size = .ok h₀) : SameUsers h.kernel h₀.kernel := by
  rcases hready with rfl | hinit
  · exact ⟨hpaged, fun _ _ => rfl⟩
  · exact mallocInit_sameUsers hpaged hinit

theorem mallocNextBlock_sameUsers {size : Nat} {r : Nat × Heap} (hpaged : Paged h.kernel)
    (hr : h.mallocNextBlock size = .ok r) : SameUsers h.kernel r.2.kernel := by
  rcases mallocNextBlock_inv hr with rfl | ⟨h₀, h₁, cur, hready, htake, rfl⟩
  · exact ⟨hpaged, fun _ _ => rfl⟩
  · have hsame := ready_sameUsers hpaged hready
    exact hsame.trans (takeBlock_sameUsers hsame.paged htake)

theorem mergeFreeBlocks_kernel (hm : h.mergeFreeBlocks = .ok h') : h'.kernel = h.kernel := by
  unfold mergeFreeBlocks at hm
  split at hm
  · cases hm
  · obtain rfl := Except.ok.inj hm
    rfl

-- SYS_MALLOC gives ring 3 no directory entry, and SYS_FREE does not touch the pages.
theorem syscallMalloc_sameUsers {size : Nat} {r : Nat × Heap} (hpaged : Paged h.kernel)
    (hr : h.syscallMalloc size = .ok r) : SameUsers h.kernel r.2.kernel := by
  obtain ⟨h₀, h₁, hready, hblock, hmerge⟩ := syscallMalloc_inv hr
  have hsame := ready_sameUsers hpaged hready
  rw [mergeFreeBlocks_kernel hmerge]
  exact hsame.trans (mallocNextBlock_sameUsers hsame.paged hblock)

theorem syscallFree_kernel {ptr : Nat} (hf : h.syscallFree ptr = .ok h') : h'.kernel = h.kernel := by
  unfold syscallFree mallocFree at hf
  split at hf
  · cases hf
  · obtain rfl := Except.ok.inj hf
    rfl
  · have hsame := mergeFreeBlocks_kernel hf
    exact hsame

end Kernel

end Heap

end ToyKernel
