import ToyKernel.Library.Run
import ToyKernel.Vmm.Walk

namespace ToyKernel

open Library ByteMemory FirstFit

section Conditions

variable (k : Kernel)

-- A table that is allocated now would be on a frame of its own.
def FreshTable : Prop :=
  ∀ frame, k.pmm.getFreeFrameBySize 1 = some frame → Spare k (4096 * frame)

-- The PMM counts the frames of the directory and of the tables as used.
def MarkedTables : Prop :=
  k.pmm.testBit (k.currentPageDirectory / 4096) = true ∧
    ∀ i < 1024, isPresent (k.pde i) = true → k.pmm.testBit (k.tableAt i / 4096) = true

-- What a mapping of `virt` uses is found at its own address: the directory entry, and the
-- table entry or the frame of a new table.
def MappingReaches (virt : Nat) : Prop :=
  k.Reaches (k.currentPageDirectory + 4 * PD_INDEX virt) 4 ∧
    if isPresent (k.pde (PD_INDEX virt)) then
      k.Reaches (k.tableAt (PD_INDEX virt) + 4 * PT_INDEX virt) 4
    else ∀ frame, k.pmm.getFreeFrameBySize 1 = some frame → k.Reaches (4096 * frame) PAGE_SIZE

-- The same for unmap_page, which needs the table.
def UnmappingReaches (virt : Nat) : Prop :=
  k.Reaches (k.currentPageDirectory + 4 * PD_INDEX virt) 4 ∧
    isPresent (k.pde (PD_INDEX virt)) = true ∧
      k.Reaches (k.tableAt (PD_INDEX virt) + 4 * PT_INDEX virt) 4

end Conditions

-- The directory entry for `virt` is present, `attributes` are set in it, and nothing else changed.
structure Prepared (k k' : Kernel) (virt : Nat) (attributes : BitVec 32) : Prop where
  walkable : Walkable k'
  current : k'.currentPageDirectory = k.currentPageDirectory
  pte : ∀ a < 4294967296, k'.pte a = k.pte a
  pde_other : ∀ i < 1024, i ≠ PD_INDEX virt → k'.pde i = k.pde i
  present : isPresent (k'.pde (PD_INDEX virt)) = true
  user : isUser (k'.pde (PD_INDEX virt)) = (isUser (k.pde (PD_INDEX virt)) || isUser attributes)
  marked : MarkedTables k → MarkedTables k'
  kept : ∀ f, Owned k f → k'.tableAt (PD_INDEX virt) ≠ 4096 * f → KeepsFrame k k' f

-- The marks stay where the entries do, if the PMM frees nothing.
theorem MarkedTables.keep {k k' : Kernel} (h : MarkedTables k) (hsame : SameEntries k k')
    (hmarks : ∀ f, k.pmm.testBit f = true → k'.pmm.testBit f = true) : MarkedTables k' := by
  refine ⟨hmarks _ (by rw [hsame.current]; exact h.1), fun i hi hp => hmarks _ ?_⟩
  rw [hsame.pde i hi] at hp
  rw [Kernel.tableAt, hsame.pde i hi]
  exact h.2 i hi hp

-- One directory entry may change to a marked frame.
theorem MarkedTables.entry {k k' : Kernel} (h : MarkedTables k) (hpmm : k'.pmm = k.pmm)
    (hcurrent : k'.currentPageDirectory = k.currentPageDirectory) {i : Nat}
    (hself : k.pmm.testBit (k'.tableAt i / 4096) = true)
    (hother : ∀ j < 1024, j ≠ i → k'.pde j = k.pde j) : MarkedTables k' := by
  refine ⟨by rw [hpmm, hcurrent]; exact h.1, fun j hj hp => ?_⟩
  rw [hpmm]
  by_cases hji : j = i
  · rwa [hji]
  · rw [hother j hj hji] at hp
    rw [Kernel.tableAt, hother j hj hji]
    exact h.2 j hj hp

theorem Prepared.of_same {k mid k' : Kernel} {virt : Nat} {attributes : BitVec 32}
    (h : Prepared mid k' virt attributes) (hsame : SameEntries k mid) (hpd : PD_INDEX virt < 1024)
    (hmarks : ∀ f, k.pmm.testBit f = true → mid.pmm.testBit f = true) (hkeeps : Keeps k mid) :
    Prepared k k' virt attributes where
  walkable := h.walkable
  current := h.current.trans hsame.current
  pte a ha := (h.pte a ha).trans (hsame.pte a ha)
  pde_other i hi hne := (h.pde_other i hi hne).trans (hsame.pde i hi)
  present := h.present
  user := by rw [h.user, hsame.pde _ hpd]
  marked hm := h.marked (hm.keep hsame hmarks)
  kept f hf hne := (hkeeps f hf).trans (h.kept f (hkeeps f hf).1 hne)

-- The table entry for `virt` became `value`, and no other table entry changed.
structure Placed (k k' : Kernel) (virt : Nat) (value : BitVec 32) : Prop where
  walkable : Walkable k'
  current : k'.currentPageDirectory = k.currentPageDirectory
  pmm : k'.pmm = k.pmm
  pde : ∀ i < 1024, k'.pde i = k.pde i
  pte : k'.pte virt = value
  pte_other : ∀ a < 4294967296, a / 4096 ≠ virt / 4096 → k'.pte a = k.pte a
  keeps : Keeps k k'

theorem Placed.marked {k k' : Kernel} {virt : Nat} {value : BitVec 32} (h : Placed k k' virt value)
    (hm : MarkedTables k) : MarkedTables k' := by
  refine ⟨by rw [h.pmm, h.current]; exact hm.1, fun i hi hp => ?_⟩
  rw [h.pde i hi] at hp
  rw [h.pmm, Kernel.tableAt, h.pde i hi]
  exact hm.2 i hi hp

-- What a successful mapping has done: the entry for `virt` has the frame `phys` and
-- `attributes`, its directory entry is present, and every other table entry is as before.
structure Mapped (k k' : Kernel) (phys virt : Nat) (attributes : BitVec 32) (user : Bool) : Prop where
  walkable : Walkable k'
  pte : k'.pte virt = SET_FRAME (k.pte virt ||| attributes) phys
  pte_other : ∀ a < 4294967296, a / 4096 ≠ virt / 4096 → k'.pte a = k.pte a
  pde_other : ∀ i < 1024, i ≠ PD_INDEX virt → k'.pde i = k.pde i
  present : isPresent (k'.pde (PD_INDEX virt)) = true
  user : isUser (k'.pde (PD_INDEX virt)) = (isUser (k.pde (PD_INDEX virt)) || user)
  marked : MarkedTables k → MarkedTables k'
  keeps : Keeps k k'

namespace Kernel

variable {k k' : Kernel} {virt : Nat}

theorem Reaches.part {address count : Nat} (h : k.Reaches address count) {start size : Nat}
    (hstart : address ≤ start) (hend : start + size ≤ address + count) : k.Reaches start size := by
  intro i hi
  have hpart := h (start + i - address) (by omega)
  rwa [show address + (start + i - address) = start + i by omega] at hpart

theorem access_of_reaches {α : Type} {address count : Nat} (h : k.Reaches address count) (act : α) :
    k.access address count act = .ok act := if_pos h

theorem foundFrame_lt {p : Pmm} {frame : Nat} (h : p.getFreeFrameBySize 1 = some frame) :
    frame < 1048576 := by
  have hlt := ((p.getFreeFrameBySize_eq_some_iff 1 frame).mp h).2.2.start_lt
  have hblock := p.totalBlock_le
  omega

theorem foundFrame_free {p : Pmm} {frame : Nat} (h : p.getFreeFrameBySize 1 = some frame) :
    p.testBit frame = false := by
  have hlt := foundFrame_lt h
  have hclear := ((p.getFreeFrameBySize_eq_some_iff 1 frame).mp h).2.2.clear
  rwa [clear_one_iff, Pmm.marked_of_lt p (by omega)] at hclear

theorem allocateBlock_address {p : Pmm} {frame : Nat} (h : p.getFreeFrameBySize 1 = some frame) :
    (p.allocateBlock 1).1 = 4096 * frame := by
  have hlt := foundFrame_lt h
  unfold Pmm.allocateBlock
  simp only [h]
  rw [Nat.mul_comm]
  apply u32_of_lt
  change 4096 * frame < _
  omega

-- A block of one frame, where the frame is found at its own address.
theorem allocateBlock_one {frame : Nat} (hfound : k.pmm.getFreeFrameBySize 1 = some frame)
    (hreach : k.Reaches (4096 * frame) PAGE_SIZE) :
    k.allocateBlock 1 = .ok (4096 * frame,
      { k with
        pmm := k.pmm.takeFrames frame 1
        memory := fill k.memory (4096 * frame) 4096 0 }) := by
  rcases k.pmm.allocateBlock_cases 1 with ⟨hnone, _⟩ | ⟨frame', hf, hpos, hopen, _, he⟩
  · rw [hnone] at hfound
    cases hfound
  · have hsome := (k.pmm.getFreeFrameBySize_eq_some_iff 1 frame').mpr ⟨hpos, hopen, hf⟩
    obtain rfl := Option.some.inj (hfound.symm.trans hsome)
    have haddress : frame * PER_BLOCK_SIZE = 4096 * frame := Nat.mul_comm frame 4096
    unfold allocateBlock
    simp only [hfound, he, haddress]
    exact congrArg (fun x => x >>= fun k' => pure (4096 * frame, k'))
      (access_of_reaches (k := { k with pmm := k.pmm.takeFrames frame 1 }) hreach _)

end Kernel

-- Where the frames of all tables are marked, a frame that is not holds none.
theorem spare_of_unmarked {k : Kernel} (hmarked : MarkedTables k) {frame : Nat}
    (hfree : k.pmm.testBit frame = false) : Spare k (4096 * frame) := by
  refine ⟨fun he => ?_, fun i hi hp he => ?_⟩
  · have hmark := hmarked.1
    rw [← he, Nat.mul_div_cancel_left frame (by omega), hfree] at hmark
    cases hmark
  · have hmark := hmarked.2 i hi hp
    rw [he, Nat.mul_div_cancel_left frame (by omega), hfree] at hmark
    cases hmark

-- So the PMM gives a new table a frame of its own.
theorem freshTable_of_marked {k : Kernel} (hmarked : MarkedTables k) : FreshTable k :=
  fun _ hfound => spare_of_unmarked hmarked (Kernel.foundFrame_free hfound)

namespace Walkable

variable {k : Kernel} {virt : Nat}

-- A new directory entry disturbs no frame in use other than the one it points to.
theorem keepsFrame_entry (h : Walkable k) {i : Nat} (hi : i < 1024) (entry : BitVec 32) {f : Nat}
    (hf : Owned k f) :
    let k' := { k with memory := store32 k.memory (k.currentPageDirectory + 4 * i) entry }
    (∀ j < 1024, j ≠ i → k'.pde j = k.pde j) → k'.tableAt i ≠ 4096 * f → KeepsFrame k k' f := by
  intro k' hother hne
  have hdirectory := h.directory_aligned
  obtain ⟨hmarked, hspare, htables⟩ := hf
  refine ⟨⟨hmarked, hspare, fun j hj hp => ?_⟩, fun b hb => store32_of_ne (by omega) entry⟩
  by_cases hji : j = i
  · rwa [hji]
  · rw [hother j hj hji] at hp
    rw [Kernel.tableAt, hother j hj hji]
    exact htables j hj hp

-- A directory entry that had no table is pointed to a cleared frame.
theorem pointTo (h : Walkable k) (hvirt : virt < 4294967296)
    (habsent : isPresent (k.pde (PD_INDEX virt)) = false) {frame : Nat} (hlt : frame < 1048576)
    (hspare : Spare k (4096 * frame)) (hmarked : k.pmm.testBit frame = true)
    (hclear : ∀ slot < 1024, load32 k.memory (4096 * frame + 4 * slot) = 0#32)
    (hreach : k.Reaches (k.currentPageDirectory + 4 * PD_INDEX virt) 4) {attributes : BitVec 32}
    (hpresent : isPresent attributes = true) (hattributes : attributes.toNat < 4096) :
    ∃ k', k.update32 (k.currentPageDirectory + 4 * PD_INDEX virt)
        (fun entry => SET_FRAME (entry ||| attributes) (4096 * frame)) = .ok k' ∧
      Prepared k k' virt attributes ∧ k'.tableAt (PD_INDEX virt) = 4096 * frame := by
  have hpd := Layout.PD_INDEX_lt hvirt
  have hold := h.absent _ hpd habsent
  let entry := SET_FRAME (0#32 ||| attributes) (4096 * frame)
  have haddress : PAGE_PHYS_ADDRESS entry = 4096 * frame := frame_entry hattributes (by decide) hlt
  have hentry : isPresent entry = true := isPresent_SET_FRAME _ _ (isPresent_or _ _ hpresent)
  let k' : Kernel := { k with
    memory := store32 k.memory (k.currentPageDirectory + 4 * PD_INDEX virt) entry }
  obtain ⟨h', hself, hother, hpages⟩ : Walkable k' ∧ k'.pde (PD_INDEX virt) = entry ∧
      (∀ i < 1024, i ≠ PD_INDEX virt → k'.pde i = k.pde i) ∧
      ∀ a < 4294967296, k'.pte a = k.pte a := by
    apply h.setEntry hpd hentry
    · rw [haddress]
      exact hspare.1
    · intro j hj _ hp
      rw [haddress]
      exact hspare.2 j hj hp
    · intro a ha
      rw [haddress, Kernel.pte_of_absent (by rwa [ha]), hclear _ (PT_INDEX_lt a)]
  have hat : k'.tableAt (PD_INDEX virt) = 4096 * frame := by rwa [Kernel.tableAt, hself]
  refine ⟨k', ?_, ⟨h', rfl, hpages, hother, by rwa [hself], ?_, fun hm => hm.entry rfl rfl ?_ hother,
    fun f hf hne => h.keepsFrame_entry hpd entry hf hother hne⟩, hat⟩
  · unfold Kernel.update32
    rw [Kernel.access_of_reaches hreach]
    change Except.ok { k with
      memory := store32 k.memory _ (SET_FRAME (k.pde (PD_INDEX virt) ||| attributes) _) } = _
    rw [hold]
  · rw [hself, hold, isUser_SET_FRAME, isUser_or,
      testBit_of_aligned (Nat.mul_mod_right 4096 frame) (by omega), Bool.or_false]
  · rwa [hat, Nat.mul_div_cancel_left frame (by omega)]

-- A frame that the PMM found free may be taken, and filled with anything.
theorem taking (h : Walkable k) {frame : Nat} (hfound : k.pmm.getFreeFrameBySize 1 = some frame)
    (hspare : Spare k (4096 * frame)) {m : Memory}
    (hmemory : ∀ b, b < 4096 * frame ∨ 4096 * frame + 4096 ≤ b → m b = k.memory b) :
    let k' := { k with pmm := k.pmm.takeFrames frame 1, memory := m }
    Walkable k' ∧ SameEntries k k' ∧ Keeps k k' := by
  intro k'
  have hfree := Kernel.foundFrame_free hfound
  obtain ⟨h', hsame⟩ : Walkable k' ∧ SameEntries k k' :=
    h.writing (Nat.mul_mod_right 4096 frame) hspare hmemory _
  refine ⟨h', hsame, Keeps.of_directory hsame.current hsame.pde ?_ fun b hb => hmemory b ?_⟩
  · exact fun f hm => Pmm.testBit_takeFrames_of_testBit k.pmm frame 1 f hm
  · -- the frame was not in use, so what it held is of no account
    have hne : b / 4096 ≠ frame := fun he => by
      have hmark := hb.1
      rw [he, hfree] at hmark
      cases hmark
    omega

-- A frame other than frame 0 becomes the table: it is cleared when it is allocated and once more, and
-- the directory entry points to it.
theorem newTable_some (h : Walkable k) (hvirt : virt < 4294967296) {frame : Nat}
    (hfound : k.pmm.getFreeFrameBySize 1 = some frame) (hzero : 4096 * frame ≠ 0)
    (hspare : Spare k (4096 * frame)) (hdirectory : k.Reaches (k.currentPageDirectory + 4 * PD_INDEX virt) 4)
    (hreach : k.Reaches (4096 * frame) PAGE_SIZE) (habsent : isPresent (k.pde (PD_INDEX virt)) = false)
    {attributes : BitVec 32} (hpresent : isPresent attributes = true) (hattributes : attributes.toNat < 4096) :
    ∃ k', k.newTable (k.currentPageDirectory + 4 * PD_INDEX virt) attributes = .ok (true, k') ∧
      Prepared k k' virt attributes ∧ k'.tableAt (PD_INDEX virt) = 4096 * frame := by
  have hlt := Kernel.foundFrame_lt hfound
  have hpd := Layout.PD_INDEX_lt hvirt
  let k₁ : Kernel := { k with
    pmm := k.pmm.takeFrames frame 1
    memory := fill k.memory (4096 * frame) 4096 0 }
  let k₂ : Kernel := { k₁ with memory := fill k₁.memory (4096 * frame) 4096 0 }
  obtain ⟨h₁, hsame₁, -⟩ : Walkable k₁ ∧ SameEntries k k₁ ∧ Keeps k k₁ :=
    h.taking hfound hspare fun b hb => fill_of_apart (by omega) 0
  obtain ⟨h₂, hsame₂, hkeeps₂⟩ : Walkable k₂ ∧ SameEntries k k₂ ∧ Keeps k k₂ := by
    apply h.taking hfound hspare
    intro b hb
    change fill (fill k.memory _ _ 0) _ 4096 0 b = _
    rw [fill_of_apart (by omega), fill_of_apart (by omega)]
  have hclear : k₁.zero (4096 * frame) PAGE_SIZE = .ok k₂ := by
    apply Kernel.access_of_reaches
    apply h.reaches_congr h₁ hsame₁.pte _ hreach
    change 4096 * frame + 4096 ≤ _
    omega
  have hend : k.currentPageDirectory + 4 * PD_INDEX virt + 4 ≤ 4294967296 := by
    have hdirectoryLt := h.directory_lt
    have hdirectoryAligned := h.directory_aligned
    omega
  have hzeros : ∀ slot < 1024, load32 k₂.memory (4096 * frame + 4 * slot) = 0#32 := by
    intro slot hs
    change load32 (fill k₁.memory (4096 * frame) 4096 0) _ = _
    exact load32_fill_zero (by omega) (by omega)
  have habsent₂ : isPresent (k₂.pde (PD_INDEX virt)) = false :=
    (congrArg isPresent (hsame₂.pde _ hpd)).trans habsent
  have hmarked : k₂.pmm.testBit frame = true :=
    Pmm.testBit_takeFrames_self k.pmm (by omega) (Nat.le_refl frame) (Nat.lt_succ_self frame)
  obtain ⟨k₃, hset, hprepared, hat⟩ := h₂.pointTo hvirt habsent₂ hlt
    (Spare.of_directory hspare hsame₂.current hsame₂.pde) hmarked hzeros
    (h.reaches_congr h₂ hsame₂.pte hend hdirectory) hpresent hattributes
  have hmarks : ∀ f, k.pmm.testBit f = true → k₂.pmm.testBit f = true :=
    fun f hm => Pmm.testBit_takeFrames_of_testBit k.pmm frame 1 f hm
  refine ⟨k₃, ?_, hprepared.of_same hsame₂ hpd hmarks hkeeps₂, hat⟩
  unfold Kernel.newTable
  rw [Kernel.allocateBlock_one hfound hreach, Kernel.ok_bind]
  simp only [if_neg hzero]
  change (k₁.zero (4096 * frame) PAGE_SIZE >>= fun k => _) = _
  rw [hclear, Kernel.ok_bind]
  change (k₂.update32 (k₂.currentPageDirectory + 4 * PD_INDEX virt) _ >>= fun k => _) = _
  rw [hset]
  rfl

-- Both mappings: a table behind a directory entry that had none. Afterwards the entries
-- for `virt` are where they can be reached.
theorem newTable (h : Walkable k) (hvirt : virt < 4294967296) (hreach : MappingReaches k virt)
    (hfresh : FreshTable k) (habsent : isPresent (k.pde (PD_INDEX virt)) = false)
    {attributes : BitVec 32} (hpresent : isPresent attributes = true)
    (hattributes : attributes.toNat < 4096) :
    ∃ r, k.newTable (k.currentPageDirectory + 4 * PD_INDEX virt) attributes = .ok r ∧
      (r.1 = false → Walkable r.2 ∧ SameEntries k r.2 ∧ (MarkedTables k → MarkedTables r.2) ∧
        Keeps k r.2) ∧
      (r.1 = true → Prepared k r.2 virt attributes ∧
        r.2.Reaches (r.2.tableAt (PD_INDEX virt) + 4 * PT_INDEX virt) 4 ∧
        ∀ f, Owned k f → r.2.tableAt (PD_INDEX virt) ≠ 4096 * f) := by
  obtain ⟨hdirectory, htable⟩ := hreach
  rw [if_neg (by rw [habsent]; exact Bool.false_ne_true)] at htable
  cases hfound : k.pmm.getFreeFrameBySize 1 with
  | none =>
      unfold Kernel.newTable
      rw [Kernel.allocateBlock_none hfound]
      exact ⟨(false, k), rfl, fun _ => ⟨h, SameEntries.refl k, id, Keeps.refl k⟩, nofun⟩
  | some frame =>
      have hspare := hfresh frame hfound
      have hreachFrame := htable frame hfound
      have hlt := Kernel.foundFrame_lt hfound
      by_cases hzero : 4096 * frame = 0
      · -- frame 0 is cleared and then taken for a failure
        let k₁ : Kernel := { k with
          pmm := k.pmm.takeFrames frame 1
          memory := fill k.memory (4096 * frame) 4096 0 }
        obtain ⟨h₁, hsame₁, hkeeps₁⟩ : Walkable k₁ ∧ SameEntries k k₁ ∧ Keeps k k₁ :=
          h.taking hfound hspare fun b hb => fill_of_apart (by omega) 0
        have hmarks : ∀ f, k.pmm.testBit f = true → k₁.pmm.testBit f = true :=
          fun f hm => Pmm.testBit_takeFrames_of_testBit k.pmm frame 1 f hm
        unfold Kernel.newTable
        rw [Kernel.allocateBlock_one hfound hreachFrame, Kernel.ok_bind]
        exact ⟨(false, k₁), if_pos hzero,
          fun _ => ⟨h₁, hsame₁, fun hm => hm.keep hsame₁ hmarks, hkeeps₁⟩, nofun⟩
      obtain ⟨k', hnew, hprepared, hat⟩ := h.newTable_some hvirt hfound hzero hspare hdirectory hreachFrame
        habsent hpresent hattributes
      refine ⟨(true, k'), hnew, nofun, fun _ => ⟨hprepared, ?_, fun f hf he => ?_⟩⟩
      · have hpage : (4096 * frame) % 4096 = 0 := Nat.mul_mod_right 4096 frame
        have hslot := PT_INDEX_lt virt
        rw [hat]
        apply h.reaches_congr hprepared.walkable hprepared.pte (by omega)
        apply hreachFrame.part (by omega)
        change _ ≤ 4096 * frame + 4096
        omega
      · rw [hat] at he
        obtain rfl : frame = f := by omega
        have hmark := hf.1
        rw [Kernel.foundFrame_free hfound] at hmark
        cases hmark

-- The end of the directory is within the address space.
theorem entry_end (h : Walkable k) (hvirt : virt < 4294967296) :
    k.currentPageDirectory + 4 * PD_INDEX virt + 4 ≤ 4294967296 := by
  have hpd := Layout.PD_INDEX_lt hvirt
  have hlt := h.directory_lt
  have haligned := h.directory_aligned
  omega

theorem page_end (k : Kernel) (virt : Nat) :
    k.tableAt (PD_INDEX virt) + 4 * PT_INDEX virt + 4 ≤ 4294967296 := by
  have hslot := PT_INDEX_lt virt
  have haligned := k.tableAt_aligned (PD_INDEX virt)
  have hlt : k.tableAt (PD_INDEX virt) < 4294967296 := PAGE_PHYS_ADDRESS_lt _
  omega

-- A directory entry with a table gets another flag.
theorem addFlags (h : Walkable k) (hvirt : virt < 4294967296)
    (hpresent : isPresent (k.pde (PD_INDEX virt)) = true)
    (hreach : k.Reaches (k.currentPageDirectory + 4 * PD_INDEX virt) 4) {attributes : BitVec 32}
    (hattributes : attributes.toNat < 4096) :
    ∃ k', k.update32 (k.currentPageDirectory + 4 * PD_INDEX virt) (fun entry => entry ||| attributes) =
        .ok k' ∧
      Prepared k k' virt attributes ∧ k'.tableAt (PD_INDEX virt) = k.tableAt (PD_INDEX virt) := by
  have hpd := Layout.PD_INDEX_lt hvirt
  let entry := k.pde (PD_INDEX virt) ||| attributes
  have haddress : PAGE_PHYS_ADDRESS entry = k.tableAt (PD_INDEX virt) :=
    PAGE_PHYS_ADDRESS_or _ _ hattributes
  have hentry : isPresent entry = true := isPresent_or_left _ _ hpresent
  obtain ⟨h', hself, hother, hpages⟩ := h.setEntry hpd hentry
    (by rw [haddress]; exact h.table_ne _ hpd hpresent)
    (fun j hj hne hp he => hne (h.table_inj j _ hj hpd hp hpresent (he.trans haddress)))
    (fun a ha => by rw [haddress, Kernel.pte_of_present (by rwa [ha]), ha])
  let k' : Kernel := { k with
    memory := store32 k.memory (k.currentPageDirectory + 4 * PD_INDEX virt) entry }
  have hat : k'.tableAt (PD_INDEX virt) = k.tableAt (PD_INDEX virt) :=
    (congrArg PAGE_PHYS_ADDRESS hself).trans haddress
  refine ⟨k', Kernel.access_of_reaches hreach _,
    ⟨h', rfl, hpages, hother, ?_, ?_, fun hm => hm.entry rfl rfl ?_ hother,
      fun f hf hne => h.keepsFrame_entry hpd entry hf hother hne⟩, hat⟩
  · exact (congrArg isPresent hself).trans hentry
  · exact (congrArg isUser hself).trans (isUser_or _ _)
  · rw [hat]
    exact hm.2 _ hpd hpresent

-- A table entry disturbs no frame in use.
theorem keeps_page (hvirt : virt < 4294967296)
    (hpresent : isPresent (k.pde (PD_INDEX virt)) = true) (value : BitVec 32) :
    let k' := { k with
      memory := store32 k.memory (k.tableAt (PD_INDEX virt) + 4 * PT_INDEX virt) value }
    (∀ i < 1024, k'.pde i = k.pde i) → Keeps k k' := by
  intro k' hpde
  have hcurrent : k'.currentPageDirectory = k.currentPageDirectory := rfl
  refine Keeps.of_directory hcurrent hpde (fun _ hm => hm) fun b hb => ?_
  have hslot := PT_INDEX_lt virt
  have haligned := k.tableAt_aligned (PD_INDEX virt)
  have hne := hb.2.2 _ (Layout.PD_INDEX_lt hvirt) hpresent
  exact store32_of_ne (by omega) value

theorem placed (h : Walkable k) (hvirt : virt < 4294967296)
    (hpresent : isPresent (k.pde (PD_INDEX virt)) = true) (value : BitVec 32) :
    Placed k { k with
      memory := store32 k.memory (k.tableAt (PD_INDEX virt) + 4 * PT_INDEX virt) value } virt value := by
  obtain ⟨h', hpde, hself, hother⟩ := h.setPage hvirt hpresent value
  exact ⟨h', rfl, rfl, hpde, hself, hother, keeps_page hvirt hpresent _ hpde⟩

-- The rest of both mappings, once there is a table.
theorem place (h : Walkable k) (hvirt : virt < 4294967296)
    (hpresent : isPresent (k.pde (PD_INDEX virt)) = true)
    (hdirectory : k.Reaches (k.currentPageDirectory + 4 * PD_INDEX virt) 4)
    (hpage : k.Reaches (k.tableAt (PD_INDEX virt) + 4 * PT_INDEX virt) 4) (attributes : BitVec 32)
    (phys : Nat) :
    ∃ k', k.setPage virt attributes phys = .ok k' ∧
      Placed k k' virt (SET_FRAME (k.pte virt ||| attributes) phys) := by
  refine ⟨_, ?_, h.placed hvirt hpresent _⟩
  unfold Kernel.setPage Kernel.read32
  rw [Kernel.access_of_reaches hdirectory, Kernel.ok_bind, Kernel.pte_of_present hpresent]
  exact Kernel.access_of_reaches hpage _

end Walkable

section Mapping

variable {k mid : Kernel} {phys virt : Nat}

theorem Prepared.mapped {attributes : BitVec 32} (hp : Prepared k mid virt attributes)
    (h : Walkable k) (hvirt : virt < 4294967296)
    (hdirectory : k.Reaches (k.currentPageDirectory + 4 * PD_INDEX virt) 4)
    (hpage : mid.Reaches (mid.tableAt (PD_INDEX virt) + 4 * PT_INDEX virt) 4)
    (hnew : ∀ f, Owned k f → mid.tableAt (PD_INDEX virt) ≠ 4096 * f) (pageAttributes : BitVec 32) :
    ∃ k', mid.setPage virt pageAttributes phys = .ok k' ∧
      Mapped k k' phys virt pageAttributes (isUser attributes) := by
  have hpd := Layout.PD_INDEX_lt hvirt
  have hdirectory' : mid.Reaches (mid.currentPageDirectory + 4 * PD_INDEX virt) 4 := by
    rw [hp.current]
    exact h.reaches_congr hp.walkable hp.pte (h.entry_end hvirt) hdirectory
  obtain ⟨k', hset, hplaced⟩ := hp.walkable.place hvirt hp.present hdirectory' hpage pageAttributes phys
  refine ⟨k', hset, hplaced.walkable, ?_, fun a ha hne => ?_, fun i hi hne => ?_, ?_, ?_, fun hm =>
    hplaced.marked (hp.marked hm), fun f hf =>
    (hp.kept f hf (hnew f hf)).trans (hplaced.keeps f (hp.kept f hf (hnew f hf)).1)⟩
  · rw [hplaced.pte, hp.pte virt hvirt]
  · rw [hplaced.pte_other a ha hne, hp.pte a ha]
  · rw [hplaced.pde i hi, hp.pde_other i hi hne]
  · rw [hplaced.pde _ hpd]
    exact hp.present
  · rw [hplaced.pde _ hpd]
    exact hp.user

theorem Prepared.refl (h : Walkable k) (hpresent : isPresent (k.pde (PD_INDEX virt)) = true) :
    Prepared k k virt 0#32 :=
  ⟨h, rfl, fun _ _ => rfl, fun _ _ _ => rfl, hpresent, by simp, id, fun f hf _ => Keeps.refl k f hf⟩

theorem MappingReaches.page (h : MappingReaches k virt)
    (hpresent : isPresent (k.pde (PD_INDEX virt)) = true) :
    k.Reaches (k.tableAt (PD_INDEX virt) + 4 * PT_INDEX virt) 4 := by
  have hpage := h.2
  rwa [if_pos hpresent] at hpage

-- A mapping that returns `false` changed no entry, and there was no table.
structure NotMapped (k k' : Kernel) (virt : Nat) : Prop extends SameEntries k k' where
  walkable : Walkable k'
  absent : isPresent (k.pde (PD_INDEX virt)) = false
  marked : MarkedTables k → MarkedTables k'
  keeps : Keeps k k'

-- Both mappings where there is no table yet.
theorem Walkable.mapNew (h : Walkable k) (hvirt : virt < 4294967296) (hreach : MappingReaches k virt)
    (hfresh : FreshTable k) (habsent : isPresent (k.pde (PD_INDEX virt)) = false)
    {attributes pageAttributes : BitVec 32} (hpresent : isPresent attributes = true)
    (hattributes : attributes.toNat < 4096) :
    ∃ r, (do
        let (ok, k) ← k.newTable (k.currentPageDirectory + 4 * PD_INDEX virt) attributes
        if !ok then return (false, k)
        let k ← k.setPage virt pageAttributes phys
        return (true, k) : Except Fault (Bool × Kernel)) = .ok r ∧
      (r.1 = true → Mapped k r.2 phys virt pageAttributes (isUser attributes)) ∧
      (r.1 = false → NotMapped k r.2 virt) := by
  obtain ⟨⟨ok, mid⟩, hnew, hfalse, htrue⟩ := h.newTable hvirt hreach hfresh habsent hpresent hattributes
  rw [hnew]
  cases ok with
  | false =>
      obtain ⟨h', hsame, hmarked, hkeeps⟩ := hfalse rfl
      exact ⟨(false, mid), rfl, nofun, fun _ => ⟨hsame, h', habsent, hmarked, hkeeps⟩⟩
  | true =>
      obtain ⟨hp, hpage, hunused⟩ := htrue rfl
      obtain ⟨k', hset, hmapped⟩ := hp.mapped h hvirt hreach.1 hpage hunused pageAttributes
      refine ⟨(true, k'), ?_, fun _ => hmapped, nofun⟩
      simp only [Kernel.ok_bind, hset]
      rfl

theorem Walkable.mapPage (h : Walkable k) (phys : Nat) (hvirt : virt < 4294967296)
    (hreach : MappingReaches k virt)
    (hfresh : isPresent (k.pde (PD_INDEX virt)) = false → FreshTable k) :
    ∃ r, k.mapPage phys virt = .ok r ∧
      (r.1 = true → Mapped k r.2 phys virt PTE_PRESENT false) ∧
      (r.1 = false → NotMapped k r.2 virt) := by
  have hread : k.read32 (k.currentPageDirectory + 4 * PD_INDEX virt) = .ok (k.pde (PD_INDEX virt)) :=
    Kernel.access_of_reaches hreach.1 _
  cases hp : isPresent (k.pde (PD_INDEX virt)) with
  | true =>
      obtain ⟨k', hset, hmapped⟩ :=
        (Prepared.refl h hp).mapped h hvirt hreach.1 (hreach.page hp)
          (fun f hf => hf.2.2 _ (Layout.PD_INDEX_lt hvirt) hp) PTE_PRESENT
      rw [Kernel.mapPage_of_present hread hp, hset]
      exact ⟨(true, k'), rfl, fun _ => hmapped, nofun⟩
  | false =>
      rw [Kernel.mapPage_of_absent hread hp]
      exact h.mapNew hvirt hreach (hfresh hp) hp (by decide) (by decide)

theorem Walkable.mapPageUser (h : Walkable k) (phys : Nat) (hvirt : virt < 4294967296)
    (hreach : MappingReaches k virt)
    (hfresh : isPresent (k.pde (PD_INDEX virt)) = false → FreshTable k) :
    ∃ r, k.mapPageUser phys virt = .ok r ∧
      (r.1 = true → Mapped k r.2 phys virt (PTE_PRESENT ||| PTE_READ_WRITE ||| PTE_USER) true) ∧
      (r.1 = false → NotMapped k r.2 virt) := by
  have hread : k.read32 (k.currentPageDirectory + 4 * PD_INDEX virt) = .ok (k.pde (PD_INDEX virt)) :=
    Kernel.access_of_reaches hreach.1 _
  cases hp : isPresent (k.pde (PD_INDEX virt)) with
  | true =>
      obtain ⟨mid, hflags, hprepared, hat⟩ :=
        h.addFlags hvirt hp hreach.1 (show PTE_USER.toNat < 4096 by decide)
      have hpage : mid.Reaches (mid.tableAt (PD_INDEX virt) + 4 * PT_INDEX virt) 4 := by
        rw [hat]
        exact h.reaches_congr hprepared.walkable hprepared.pte (Walkable.page_end k virt)
          (hreach.page hp)
      obtain ⟨k', hset, hmapped⟩ := hprepared.mapped h hvirt hreach.1 hpage
        (fun f hf => by rw [hat]; exact hf.2.2 _ (Layout.PD_INDEX_lt hvirt) hp)
        (PTE_PRESENT ||| PTE_READ_WRITE ||| PTE_USER)
      rw [Kernel.mapPageUser_of_present hread hp, hflags, Kernel.ok_bind, hset]
      exact ⟨(true, k'), rfl, fun _ => hmapped, nofun⟩
  | false =>
      rw [Kernel.mapPageUser_of_absent hread hp]
      exact h.mapNew hvirt hreach (hfresh hp) hp (by decide) (by decide)

section Partial

-- What came to its end reached what it needed.
theorem Kernel.access_ok {α : Type} {address count : Nat} {act r : α}
    (h : k.access address count act = .ok r) : k.Reaches address count ∧ r = act := by
  unfold Kernel.access at h
  split at h
  · exact ⟨‹_›, (Except.ok.inj h).symm⟩
  · cases h

theorem Kernel.allocateBlock_reaches {r : Nat × Kernel} (hr : k.allocateBlock 1 = .ok r) {frame : Nat}
    (hfound : k.pmm.getFreeFrameBySize 1 = some frame) : k.Reaches (4096 * frame) PAGE_SIZE := by
  unfold Kernel.allocateBlock at hr
  simp only [hfound, Kernel.allocateBlock_address hfound] at hr
  obtain ⟨k', hzero, -⟩ := exists_of_bind hr
  exact (Kernel.access_ok hzero).1

theorem Kernel.newTable_reaches {pde : Nat} {attributes : BitVec 32} {r : Bool × Kernel}
    (h : k.newTable pde attributes = .ok r) {frame : Nat}
    (hfound : k.pmm.getFreeFrameBySize 1 = some frame) : k.Reaches (4096 * frame) PAGE_SIZE := by
  obtain ⟨r', halloc, -⟩ := exists_of_bind h
  exact allocateBlock_reaches halloc hfound

-- What a call does to the PMM: nothing, or one allocation for a table, and it fails only for want of it.
theorem Kernel.update32_pmm {k' : Kernel} {address : Nat} {f : BitVec 32 → BitVec 32}
    (h : k.update32 address f = .ok k') : k'.pmm = k.pmm := by
  obtain ⟨-, rfl⟩ := access_ok h
  rfl

theorem Kernel.setPage_pmm {k' : Kernel} {attributes : BitVec 32}
    (h : k.setPage virt attributes phys = .ok k') : k'.pmm = k.pmm := by
  obtain ⟨entry, -, hpage⟩ := exists_of_bind h
  exact update32_pmm hpage

theorem Kernel.newTable_result {pde : Nat} {attributes : BitVec 32} {r : Bool × Kernel}
    (h : k.newTable pde attributes = .ok r) :
    r.2.pmm = (k.pmm.allocateBlock 1).2 ∧ (r.1 = false ↔ (k.pmm.allocateBlock 1).1 = 0) := by
  obtain ⟨⟨table, mid⟩, halloc, hrest⟩ := exists_of_bind h
  rw [allocateBlock_result halloc]
  by_cases hz : table = 0
  · simp only [if_pos hz] at hrest
    cases hrest
    exact ⟨rfl, iff_of_true rfl hz⟩
  · simp only [if_neg hz] at hrest
    obtain ⟨cleared, hzero, hrest⟩ := exists_of_bind hrest
    obtain ⟨pointed, hentry, hrest⟩ := exists_of_bind hrest
    cases hrest
    refine ⟨?_, iff_of_false nofun hz⟩
    change pointed.pmm = mid.pmm
    rw [update32_pmm hentry, (access_ok hzero).2]

theorem Kernel.newTablePage_result {pde : Nat} {attributes pageAttributes : BitVec 32} {r : Bool × Kernel}
    (h : (do
      let (ok, k) ← k.newTable pde attributes
      if !ok then return (false, k)
      let k ← k.setPage virt pageAttributes phys
      return (true, k)) = .ok r) :
    r.2.pmm = (k.pmm.allocateBlock 1).2 ∧ (r.1 = false ↔ (k.pmm.allocateBlock 1).1 = 0) := by
  obtain ⟨⟨ok, mid⟩, hnew, hrest⟩ := exists_of_bind h
  obtain ⟨hpmm, hnone⟩ := newTable_result hnew
  cases ok with
  | false =>
      cases hrest
      exact ⟨hpmm, hnone⟩
  | true =>
      obtain ⟨k', hset, hdone⟩ := exists_of_bind hrest
      cases hdone
      exact ⟨(setPage_pmm hset).trans hpmm, iff_of_false nofun fun hz => absurd (hnone.mpr hz) nofun⟩

-- map_page takes a frame where the table is missing, and only there.
theorem Kernel.mapPage_takes {r : Bool × Kernel} (h : k.mapPage phys virt = .ok r) :
    if isPresent (k.pde (PD_INDEX virt)) then r.1 = true ∧ r.2.pmm = k.pmm
    else r.2.pmm = (k.pmm.allocateBlock 1).2 ∧ (r.1 = false ↔ (k.pmm.allocateBlock 1).1 = 0) := by
  obtain ⟨entry, hread, -⟩ := exists_of_bind h
  obtain ⟨-, rfl⟩ := Kernel.access_ok hread
  cases hp : isPresent (k.pde (PD_INDEX virt)) with
  | true =>
      rw [if_pos rfl]
      rw [mapPage_of_present hread hp] at h
      obtain ⟨mid, hset, hdone⟩ := exists_of_bind h
      cases hdone
      exact ⟨rfl, setPage_pmm hset⟩
  | false =>
      rw [if_neg Bool.false_ne_true]
      rw [mapPage_of_absent hread hp] at h
      exact newTablePage_result h

theorem Kernel.mapPage_result {r : Bool × Kernel} (h : k.mapPage phys virt = .ok r) :
    (r.2.pmm = k.pmm ∨ r.2.pmm = (k.pmm.allocateBlock 1).2) ∧
      (r.1 = false → (k.pmm.allocateBlock 1).1 = 0) := by
  have htakes := mapPage_takes h
  split at htakes
  · obtain ⟨htrue, hsame⟩ := htakes
    exact ⟨.inl hsame, fun hfalse => by rw [htrue] at hfalse; cases hfalse⟩
  · obtain ⟨htaken, hnone⟩ := htakes
    exact ⟨.inr htaken, hnone.mp⟩

theorem Kernel.mapPageUser_result {r : Bool × Kernel} (h : k.mapPageUser phys virt = .ok r) :
    (r.2.pmm = k.pmm ∨ r.2.pmm = (k.pmm.allocateBlock 1).2) ∧
      (r.1 = false → (k.pmm.allocateBlock 1).1 = 0) := by
  obtain ⟨entry, hread, -⟩ := exists_of_bind h
  cases hp : isPresent entry with
  | true =>
      rw [mapPageUser_of_present hread hp] at h
      obtain ⟨mid, hflags, hrest⟩ := exists_of_bind h
      obtain ⟨k', hset, hdone⟩ := exists_of_bind hrest
      cases hdone
      exact ⟨.inl ((setPage_pmm hset).trans (update32_pmm hflags)), nofun⟩
  | false =>
      rw [mapPageUser_of_absent hread hp] at h
      exact (newTablePage_result h).imp .inr Iff.mp

-- map_page_user comes to its end only where what it uses is found at its own address.
theorem Walkable.mapPageUser_reaches (h : Walkable k) (hvirt : virt < 4294967296) {r : Bool × Kernel}
    (hr : k.mapPageUser phys virt = .ok r) : MappingReaches k virt := by
  obtain ⟨entry, hread, hrest⟩ := exists_of_bind hr
  obtain ⟨hdirectory, rfl⟩ := Kernel.access_ok hread
  refine ⟨hdirectory, ?_⟩
  clear hrest
  cases hp : isPresent (k.pde (PD_INDEX virt)) with
  | true =>
      rw [if_pos rfl]
      rw [Kernel.mapPageUser_of_present hread hp] at hr
      obtain ⟨mid, hflags, hprepared, hat⟩ :=
        h.addFlags hvirt hp hdirectory (show PTE_USER.toNat < 4096 by decide)
      rw [hflags, Kernel.ok_bind] at hr
      obtain ⟨k', hset, -⟩ := exists_of_bind hr
      obtain ⟨entry, hentry, hpage⟩ := exists_of_bind hset
      obtain ⟨-, rfl⟩ := Kernel.access_ok hentry
      have hreach := (Kernel.access_ok hpage).1
      change mid.Reaches (mid.tableAt (PD_INDEX virt) + 4 * PT_INDEX virt) 4 at hreach
      rw [hat] at hreach
      exact hprepared.walkable.reaches_congr h (fun a ha => (hprepared.pte a ha).symm)
        (Walkable.page_end k virt) hreach
  | false =>
      rw [if_neg Bool.false_ne_true]
      intro frame hfound
      rw [Kernel.mapPageUser_of_absent hread hp] at hr
      obtain ⟨r', hnew, -⟩ := exists_of_bind hr
      exact Kernel.newTable_reaches hnew hfound

-- The answer of map_page_user is "out of memory" where a table is missing and the PMM has
-- no frame for it.
theorem Kernel.mapPageUser_false_iff {r : Bool × Kernel} (hr : k.mapPageUser phys virt = .ok r) :
    r.1 = false ↔ isPresent (k.pde (PD_INDEX virt)) = false ∧ (k.pmm.allocateBlock 1).1 = 0 := by
  obtain ⟨entry, hread, -⟩ := exists_of_bind hr
  obtain ⟨-, rfl⟩ := Kernel.access_ok hread
  cases hp : isPresent (k.pde (PD_INDEX virt)) with
  | true =>
      rw [Kernel.mapPageUser_of_present hread hp] at hr
      obtain ⟨mid, -, hrest⟩ := exists_of_bind hr
      obtain ⟨k', -, hdone⟩ := exists_of_bind hrest
      cases hdone
      exact ⟨nofun, fun h => absurd h.1 Bool.noConfusion⟩
  | false =>
      rw [Kernel.mapPageUser_of_absent hread hp] at hr
      exact (newTablePage_result hr).2.trans (and_iff_right rfl).symm

-- Whatever map_page_user answers, if it does
theorem Walkable.mapPageUser_ok (h : Walkable k) (hmarked : MarkedTables k) (hvirt : virt < 4294967296)
    {r : Bool × Kernel} (hr : k.mapPageUser phys virt = .ok r) :
    (r.1 = true → Mapped k r.2 phys virt (PTE_PRESENT ||| PTE_READ_WRITE ||| PTE_USER) true) ∧
      (r.1 = false → NotMapped k r.2 virt) := by
  obtain ⟨r', hr', hmapped⟩ := h.mapPageUser phys hvirt (h.mapPageUser_reaches hvirt hr)
    fun _ => freshTable_of_marked hmarked
  obtain rfl := Except.ok.inj (hr'.symm.trans hr)
  exact hmapped

-- The same for map_page
theorem Kernel.mapPage_reaches {r : Bool × Kernel} (hr : k.mapPage phys virt = .ok r) :
    MappingReaches k virt := by
  obtain ⟨entry, hread, hrest⟩ := exists_of_bind hr
  obtain ⟨hdirectory, rfl⟩ := Kernel.access_ok hread
  refine ⟨hdirectory, ?_⟩
  clear hrest
  cases hp : isPresent (k.pde (PD_INDEX virt)) with
  | true =>
      rw [if_pos rfl]
      rw [Kernel.mapPage_of_present hread hp] at hr
      obtain ⟨k', hset, -⟩ := exists_of_bind hr
      obtain ⟨entry, hentry, hpage⟩ := exists_of_bind hset
      obtain ⟨-, rfl⟩ := Kernel.access_ok hentry
      exact (Kernel.access_ok hpage).1
  | false =>
      rw [if_neg Bool.false_ne_true]
      intro frame hfound
      rw [Kernel.mapPage_of_absent hread hp] at hr
      obtain ⟨r', hnew, -⟩ := exists_of_bind hr
      exact Kernel.newTable_reaches hnew hfound

theorem Walkable.mapPage_ok (h : Walkable k) (hmarked : MarkedTables k) (hvirt : virt < 4294967296)
    {r : Bool × Kernel} (hr : k.mapPage phys virt = .ok r) :
    (r.1 = true → Mapped k r.2 phys virt PTE_PRESENT false) ∧ (r.1 = false → NotMapped k r.2 virt) := by
  obtain ⟨r', hr', hmapped⟩ := h.mapPage phys hvirt (Kernel.mapPage_reaches hr)
    fun _ => freshTable_of_marked hmarked
  obtain rfl := Except.ok.inj (hr'.symm.trans hr)
  exact hmapped

end Partial

-- unmap_page clears the address and the present bit.
theorem Walkable.unmapPage (h : Walkable k) (hvirt : virt < 4294967296)
    (hreach : UnmappingReaches k virt) :
    ∃ k', k.unmapPage virt = .ok k' ∧
      Placed k k' virt (SET_FRAME (k.pte virt) 0 &&& ~~~PTE_PRESENT) := by
  obtain ⟨hdirectory, hpresent, hpage⟩ := hreach
  refine ⟨_, ?_, h.placed hvirt hpresent _⟩
  unfold Kernel.unmapPage Kernel.getPage Kernel.read32
  rw [Kernel.access_of_reaches hdirectory, Kernel.pte_of_present hpresent]
  exact Kernel.access_of_reaches hpage _

end Mapping

end ToyKernel
