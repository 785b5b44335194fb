import ToyKernel.Client
import ToyKernel.Vmm.Mapping

namespace ToyKernel

open Library ByteMemory FirstFit

namespace Client

variable {α β : Type}

section Meets

variable (P : Kernel → BitVec 32 → BitVec 32 → Prop)

-- `P` holds of every map_page_user of a run, in the state that the call meets.
def Meets : Client α → Kernel → Prop
  | done _, _ => True
  | read address count next, k =>
      ∀ value, k.access address count (k.bytesAt address count) = .ok value → Meets (next value) k
  | copy phys source count next, k => ∀ k', k.copyBytes phys source count = .ok k' → Meets (next ()) k'
  | allocate a next, k => ∀ r, k.allocate a = .ok r → Meets (next r.1) r.2
  | getPage virt next, k => ∀ page, k.getPage virt.toNat = .ok page → Meets (next page) k
  | mapPage phys virt next, k => ∀ r, k.mapPage phys.toNat virt.toNat = .ok r → Meets (next r.1) r.2
  | mapPageUser phys virt next, k =>
      P k phys virt ∧ ∀ r, k.mapPageUser phys.toNat virt.toNat = .ok r → Meets (next r.1) r.2

end Meets

theorem bind_bind {ε γ δ ζ : Type} (x : Except ε γ) (g : γ → Except ε δ) (h : δ → Except ε ζ) :
    (x >>= fun a => (g a).bind h) = (x >>= g).bind h := by
  cases x <;> rfl

theorem run_bind (c : Client α) (f : α → Client β) (k : Kernel) :
    k.run (c >>= f) = (k.run c).bind fun r => r.2.run (f r.1) := by
  change k.run (c.bind f) = _
  induction c generalizing k with
  | done a => rfl
  | read address count next ih =>
      simp only [Client.bind, Kernel.run, ih]
      exact bind_bind ..
  | copy phys source count next ih =>
      simp only [Client.bind, Kernel.run, ih]
      exact bind_bind ..
  | allocate a next ih =>
      simp only [Client.bind, Kernel.run, ih]
      exact bind_bind ..
  | getPage virt next ih =>
      simp only [Client.bind, Kernel.run, ih]
      exact bind_bind ..
  | mapPage phys virt next ih =>
      simp only [Client.bind, Kernel.run, ih]
      exact bind_bind ..
  | mapPageUser phys virt next ih =>
      simp only [Client.bind, Kernel.run, ih]
      exact bind_bind ..

-- A run of two parts that ends is a run of the first and one of the second.
theorem exists_of_run_bind {c : Client α} {f : α → Client β} {k : Kernel} {r : β × Kernel}
    (h : k.run (c >>= f) = .ok r) : ∃ mid, k.run c = .ok mid ∧ mid.2.run (f mid.1) = .ok r := by
  rw [run_bind] at h
  exact exists_of_bind h

theorem run_bind_ok {c : Client α} {k : Kernel} {mid : α × Kernel} (h : k.run c = .ok mid)
    (f : α → Client β) : k.run (c >>= f) = mid.2.run (f mid.1) := by
  rw [run_bind, h]
  rfl

section Meets

variable {P : Kernel → BitVec 32 → BitVec 32 → Prop}

-- Conditions on the results of an action and of what follows it.
theorem forall_ok_bind {ε γ δ : Type} {x : Except ε γ} {g : γ → Except ε δ} {A : γ → Prop}
    {B : δ → Prop} :
    (∀ a, x = .ok a → A a ∧ ∀ r, g a = .ok r → B r) ↔
      (∀ a, x = .ok a → A a) ∧ ∀ r, x >>= g = .ok r → B r := by
  cases x with
  | error e => exact ⟨fun _ => ⟨nofun, nofun⟩, fun _ => nofun⟩
  | ok a =>
      constructor
      · intro h
        exact ⟨fun b hb => (h b hb).1, (h a rfl).2⟩
      · intro ⟨hA, hB⟩ b hb
        obtain rfl := Except.ok.inj hb
        exact ⟨hA a rfl, hB⟩

theorem meets_bind (c : Client α) (f : α → Client β) (k : Kernel) :
    (c >>= f).Meets P k ↔ c.Meets P k ∧ ∀ r, k.run c = .ok r → (f r.1).Meets P r.2 := by
  change (c.bind f).Meets P k ↔ _
  induction c generalizing k with
  | done a => simp [Client.bind, Meets, Kernel.run]
  | read address count next ih => 
      simp only [Client.bind, Meets, ih, Kernel.run]
      exact forall_ok_bind
  | copy phys source count next ih =>
      simp only [Client.bind, Meets, ih, Kernel.run]
      exact forall_ok_bind
  | allocate a next ih =>
      simp only [Client.bind, Meets, ih, Kernel.run]
      exact forall_ok_bind
  | getPage virt next ih =>
      simp only [Client.bind, Meets, ih, Kernel.run]
      exact forall_ok_bind
  | mapPage phys virt next ih =>
      simp only [Client.bind, Meets, ih, Kernel.run]
      exact forall_ok_bind
  | mapPageUser phys virt next ih =>
      simp only [Client.bind, Meets, ih, Kernel.run, and_assoc]
      exact and_congr_right fun _ => forall_ok_bind

theorem meets_bind_ok {c : Client α} {k : Kernel} {mid : α × Kernel} (h : k.run c = .ok mid)
    (f : α → Client β) : (c >>= f).Meets P k ↔ c.Meets P k ∧ (f mid.1).Meets P mid.2 := by
  rw [meets_bind]
  refine and_congr_right fun _ => ⟨fun hr => hr mid h, fun hmid r hr => ?_⟩
  obtain rfl := Except.ok.inj (h.symm.trans hr)
  exact hmid

end Meets

section Single

variable {k : Kernel} {P : Kernel → BitVec 32 → BitVec 32 → Prop}

theorem run_read {address count : Nat} {r : Nat × Kernel} (h : k.run (read address count done) = .ok r) :
    k.Reaches address count ∧ r = (k.bytesAt address count, k) := by
  obtain ⟨value, hread, hr⟩ := exists_of_bind h
  obtain ⟨hreach, rfl⟩ := Kernel.access_ok hread
  exact ⟨hreach, (Except.ok.inj hr).symm⟩

theorem run_copy {phys source count : Nat} {r : Unit × Kernel}
    (h : k.run (copy phys source count done) = .ok r) : k.copyBytes phys source count = .ok r.2 := by
  obtain ⟨k', hcopy, hr⟩ := exists_of_bind h
  cases hr
  exact hcopy

theorem run_allocate {a : Pmm.Allocation} {r : Nat × Kernel} (h : k.run (allocate a done) = .ok r) :
    k.allocate a = .ok r := by
  obtain ⟨r', halloc, hr⟩ := exists_of_bind h
  cases hr
  exact halloc

theorem run_mapPageUser {phys virt : BitVec 32} {r : Bool × Kernel}
    (h : k.run (mapPageUser phys virt done) = .ok r) :
    k.mapPageUser phys.toNat virt.toNat = .ok r := by
  obtain ⟨r', hmap, hr⟩ := exists_of_bind h
  cases hr
  exact hmap

theorem meets_mapPageUser {phys virt : BitVec 32} :
    (mapPageUser phys virt done).Meets P k ↔ P k phys virt :=
  ⟨fun h => h.1, fun h => ⟨h, fun _ _ => trivial⟩⟩

end Single

end Client

-- Tables that can be walked, on frames that the PMM does not give away.
structure Paged (k : Kernel) : Prop extends Walkable k where
  marked : MarkedTables k

-- `k'` differs from `k` only in frames that were free, and has the entries of `k`.
structure Undisturbed (k k' : Kernel) : Prop extends SameEntries k k' where
  paged : Paged k'
  keeps : Keeps k k'

theorem Undisturbed.trans {k mid k' : Kernel} (h : Undisturbed k mid) (h' : Undisturbed mid k') :
    Undisturbed k k' where
  toSameEntries := h.toSameEntries.trans h'.toSameEntries
  paged := h'.paged
  keeps := h.keeps.trans h'.keeps

-- The frame was free and is now in use.
structure Fresh (k k' : Kernel) (frame : Nat) : Prop where
  lt : frame < 1048576
  free : k.pmm.testBit frame = false
  owned : Owned k' frame

theorem Fresh.ne {k k' : Kernel} {frame f : Nat} (h : Fresh k k' frame) (hf : Owned k f) : f ≠ frame := by
  intro he
  have hmark := hf.1
  rw [he, h.free] at hmark
  cases hmark

-- What is found at its own address is below 4 GiB.
theorem Walkable.end_le_of_reaches {k : Kernel} (h : Walkable k) {address count : Nat}
    (hreach : k.Reaches address count) (hpos : 0 < count) : address + count ≤ 4294967296 := by
  have hlast := hreach (count - 1) (by omega)
  rw [h.translate_eq] at hlast
  split at hlast
  · have heq := Option.some.inj hlast
    have haligned := PAGE_PHYS_ADDRESS_aligned (k.pte (address + (count - 1)))
    have hlt := PAGE_PHYS_ADDRESS_lt (k.pte (address + (count - 1)))
    omega
  · cases hlast

namespace Paged

variable {k : Kernel}

theorem allocateBlock_ok (h : Paged k) {r : Nat × Kernel} (hr : k.allocateBlock 1 = .ok r) :
    Undisturbed k r.2 ∧ (r.1 ≠ 0 → ∃ frame, r.1 = 4096 * frame ∧ Fresh k r.2 frame ∧
      ∀ j < 4096, r.2.memory (4096 * frame + j) = 0) := by
  cases hfound : k.pmm.getFreeFrameBySize 1 with
  | none =>
      obtain rfl := Except.ok.inj ((Kernel.allocateBlock_none hfound).symm.trans hr)
      exact ⟨⟨SameEntries.refl k, h, Keeps.refl k⟩, fun hz => absurd rfl hz⟩
  | some frame =>
      have hlt := Kernel.foundFrame_lt hfound
      have hspare := freshTable_of_marked h.marked frame hfound
      have halloc := Kernel.allocateBlock_one hfound (Kernel.allocateBlock_reaches hr hfound)
      obtain ⟨hwalk, hsame, hkeeps⟩ := h.toWalkable.taking hfound hspare
        fun b hb => fill_of_apart (show b < 4096 * frame ∨ 4096 * frame + 4096 ≤ b from hb) 0
      obtain rfl := Except.ok.inj (halloc.symm.trans hr)
      have hmarks : ∀ f, k.pmm.testBit f = true → (k.pmm.takeFrames frame 1).testBit f = true :=
        fun f hm => Pmm.testBit_takeFrames_of_testBit k.pmm frame 1 f hm
      have hmarked : (k.pmm.takeFrames frame 1).testBit frame = true :=
        Pmm.testBit_takeFrames_self k.pmm (by omega) (Nat.le_refl frame) (Nat.lt_succ_self frame)
      refine ⟨⟨hsame, ⟨hwalk, h.marked.keep hsame hmarks⟩, hkeeps⟩, fun _ => ⟨frame, rfl,
        ⟨hlt, Kernel.foundFrame_free hfound, hmarked, ?_⟩, fun j hj => if_pos (by omega)⟩⟩
      exact Spare.of_directory hspare hsame.current hsame.pde

-- A block of several frames: all of them were free, and are cleared.
theorem allocateBlock_many (h : Paged k) {size : Nat} (hsize : size ≤ 1048575) {r : Nat × Kernel}
    (hr : k.allocateBlock size = .ok r) (hz : r.1 ≠ 0) :
    Undisturbed k r.2 ∧ ∃ frame, r.1 = 4096 * frame ∧ frame + size ≤ 1048576 ∧
      (∀ i < size, Fresh k r.2 (frame + i)) ∧
      ∀ b, 4096 * frame ≤ b → b < 4096 * (frame + size) → r.2.memory b = 0 := by
  unfold Kernel.allocateBlock at hr
  rcases k.pmm.allocateBlock_cases size with ⟨hnone, _⟩ | ⟨frame, hf, hpos, hopen, hlt, he⟩
  · rw [hnone] at hr
    obtain rfl := Except.ok.inj hr
    exact absurd rfl hz
  have hsome := (k.pmm.getFreeFrameBySize_eq_some_iff size frame).mpr ⟨hpos, hopen, hf⟩
  have hbytes : u32 (size * 4096) = size * 4096 := u32_of_lt (by omega)
  simp only [hsome, he] at hr
  obtain ⟨k', hzero, hdone⟩ := exists_of_bind hr
  obtain ⟨hreach, rfl⟩ := Kernel.access_ok hzero
  obtain rfl := Except.ok.inj hdone
  change k.Reaches (frame * 4096) (u32 (size * 4096)) at hreach
  rw [hbytes] at hreach
  have hend := h.toWalkable.end_le_of_reaches hreach (by omega)
  have hfree : ∀ i < size, k.pmm.testBit (frame + i) = false := by
    intro i hi
    have hclear := hf.clear.cell (frame + i) (by omega) (by omega)
    rwa [Pmm.marked_of_lt _ (by omega)] at hclear
  have hspare : ∀ i < size, Spare k (4096 * (frame + i)) :=
    fun i hi => spare_of_unmarked h.marked (hfree i hi)
  have hmarks : ∀ f, k.pmm.testBit f = true → (k.pmm.takeFrames frame size).testBit f = true :=
    fun f hm => Pmm.testBit_takeFrames_of_testBit k.pmm frame size f hm
  have houtside : ∀ b, (b / 4096 < frame ∨ frame + size ≤ b / 4096) →
      fill k.memory (frame * 4096) (u32 (size * 4096)) 0 b = k.memory b := by
    intro b hb
    rw [hbytes]
    exact fill_of_apart (by omega) 0
  obtain ⟨hwalk, hsame⟩ := h.toWalkable.writingFrames (fun b hb => houtside b (by
    by_contra hin
    refine hb ?_
    have hframe := hspare (b / 4096 - frame) (by omega)
    rwa [show frame + (b / 4096 - frame) = b / 4096 by omega] at hframe))
    (k.pmm.takeFrames frame size)
  refine ⟨⟨hsame, ⟨hwalk, h.marked.keep hsame hmarks⟩, Keeps.of_directory hsame.current hsame.pde hmarks
    fun b hb => houtside b ?_⟩, frame, Nat.mul_comm _ _, by omega, fun i hi => ⟨by omega, hfree i hi, ?_,
    Spare.of_directory (hspare i hi) hsame.current hsame.pde⟩, fun b hlo hhi => ?_⟩
  · by_contra hin
    have hmark := hb.1
    rw [show b / 4096 = frame + (b / 4096 - frame) by omega, hfree _ (by omega)] at hmark
    cases hmark
  · change (k.pmm.takeFrames frame size).testBit (frame + i) = true
    exact Pmm.testBit_takeFrames_self k.pmm (by omega) (Nat.le_add_right frame i) (by omega)
  · change fill k.memory (frame * 4096) (u32 (size * 4096)) 0 b = 0
    rw [hbytes]
    exact if_pos (by omega)

-- A copy into a frame in use
theorem copyBytes_ok (h : Paged k) {frame phys source count : Nat} (hf : Owned k frame)
    (hlo : 4096 * frame ≤ phys) (hhi : phys + count ≤ 4096 * frame + 4096) {k' : Kernel}
    (hr : k.copyBytes phys source count = .ok k') :
    k'.memory = copy k.memory phys count (fun i => k.memory (source + i)) ∧ k'.pmm = k.pmm ∧ Paged k' ∧
      SameEntries k k' ∧ Owned k' frame ∧ ∀ f, Owned k f → f ≠ frame → KeepsFrame k k' f := by
  obtain ⟨mid, hsource, hcopy⟩ := exists_of_bind hr
  rw [(Kernel.access_ok hsource).2] at hcopy
  obtain ⟨-, rfl⟩ := Kernel.access_ok hcopy
  obtain ⟨hwalk, hsame⟩ := h.toWalkable.writing (Nat.mul_mod_right 4096 frame) hf.2
    (fun b hb => copy_of_apart (show b < phys ∨ phys + count ≤ b by omega)
      fun i => k.memory (source + i)) k.pmm
  refine ⟨rfl, rfl, ⟨hwalk, h.marked.keep hsame fun _ hm => hm⟩, hsame,
    ⟨hf.1, hf.2.of_directory hsame.current hsame.pde⟩, fun f hown hne =>
    ⟨⟨hown.1, hown.2.of_directory hsame.current hsame.pde⟩, fun b hb => ?_⟩⟩
  exact copy_of_apart (m := k.memory) (a := phys) (b := b) (by omega) fun i => k.memory (source + i)

end Paged

theorem NotMapped.undisturbed {k k' : Kernel} {virt : Nat} (h : NotMapped k k' virt)
    (hmarked : MarkedTables k) : Undisturbed k k' :=
  ⟨h.toSameEntries, ⟨h.walkable, h.marked hmarked⟩, h.keeps⟩

end ToyKernel
