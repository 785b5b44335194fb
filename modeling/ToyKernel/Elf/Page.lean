import ToyKernel.Client.Steps
import ToyKernel.Elf

namespace ToyKernel.Elf

open Library ByteMemory Client

variable {k : Kernel} {data : Nat}

-- A read of the image changes nothing.
theorem field_ok {offset count : Nat} {r : Nat × Kernel} (h : k.run (field data offset count) = .ok r) :
    r = (k.bytesAt (u32 (data + offset)) count, k) := (run_read h).2

theorem field_meets {P : Kernel → BitVec 32 → BitVec 32 → Prop} {offset count : Nat} :
    (field data offset count).Meets P k := fun _ _ => trivial

-- The rest of a run after such a read
theorem exists_of_field {α : Type} {offset count : Nat} {f : Nat → Client α} {r : α × Kernel}
    (h : k.run (field data offset count >>= f) = .ok r) :
    k.run (field data offset count) = .ok (k.bytesAt (u32 (data + offset)) count, k) ∧
      k.run (f (k.bytesAt (u32 (data + offset)) count)) = .ok r := by
  obtain ⟨mid, hfield, hrest⟩ := exists_of_run_bind h
  obtain rfl := field_ok hfield
  exact ⟨hfield, hrest⟩

-- The frame that the loader fills for a page, as it is before the mapping: it was free,
-- and holds what the file has for the page, with zeros behind.
structure Filled (k mid : Kernel) (data phdr filesz pageOff frame : Nat) : Prop
    extends Undisturbed k mid, Fresh k mid frame where
  pos : 0 < frame
  pmm : mid.pmm = (k.pmm.allocateBlock 1).2
  content : ∀ j < 4096, filesz ≤ pageOff + j → mid.memory (4096 * frame + j) = 0
  copied : pageOff < filesz → ∃ k₁, Keeps k k₁ ∧ ∀ j < 4096, pageOff + j < filesz →
    mid.memory (4096 * frame + j) =
      k₁.memory (u32 (data + k₁.bytesAt (u32 (data + (phdr + 4))) 4 + pageOff) + j)

-- The bytes of the file go into a frame that was taken for them.
theorem copyPage_ok {phdr filesz pageOff frame : Nat} {k₁ : Kernel} (hsame : Undisturbed k k₁)
    (hfresh : Fresh k k₁ frame) (hpos : 0 < frame) (hpmm : k₁.pmm = (k.pmm.allocateBlock 1).2)
    (hzero : ∀ j < 4096, k₁.memory (4096 * frame + j) = 0) {r : Unit × Kernel}
    (hr : k₁.run (copyPage data phdr filesz pageOff (4096 * frame)) = .ok r) :
    Filled k r.2 data phdr filesz pageOff frame := by
  unfold copyPage at hr
  by_cases hlt : pageOff < filesz
  · rw [if_pos hlt] at hr
    obtain ⟨-, hcopy⟩ := exists_of_field hr
    have hbytes := run_copy hcopy
    obtain ⟨hmemory, hpmm', hpaged, hentries, howned, hkept⟩ := hsame.paged.copyBytes_ok hfresh.owned
      (Nat.le_refl _) (Nat.add_le_add_left (Nat.min_le_right _ PAGE_SIZE) _) hbytes
    refine ⟨⟨⟨hentries.current.trans hsame.current, fun i hi => (hentries.pde i hi).trans (hsame.pde i hi),
      fun a ha => (hentries.pte a ha).trans (hsame.pte a ha)⟩, hpaged, fun f hf => ?_⟩,
      ⟨hfresh.lt, hfresh.free, howned⟩, hpos, hpmm'.trans hpmm, fun j hj hle => ?_, fun _ =>
      ⟨k₁, hsame.keeps, fun j hj hin => ?_⟩⟩
    · have hne := hfresh.ne hf
      exact (hsame.keeps f hf).trans (hkept f (hsame.keeps f hf).1 hne)
    · rw [hmemory, copy_of_apart (Or.inr (Nat.add_le_add_left (by omega) _)), hzero j hj]
    · have hpage : PAGE_SIZE = 4096 := rfl
      rw [hmemory, copy_inside (by omega)]
  · rw [if_neg hlt] at hr
    cases hr
    exact ⟨hsame, hfresh, hpos, hpmm, fun j hj _ => hzero j hj, fun hin => absurd hin hlt⟩

theorem copyPage_meets (P : Kernel → BitVec 32 → BitVec 32 → Prop) (k : Kernel)
    (data phdr filesz pageOff phys : Nat) : (copyPage data phdr filesz pageOff phys).Meets P k := by
  unfold copyPage
  split
  · exact fun _ _ _ _ => trivial
  · trivial

-- What loading one page comes to. Either there is no frame, or one is filled and mapped; the
-- answer of the mapping does not matter.
theorem loadPage_ok {phdr vaddr filesz page : Nat} (h : Paged k) {r : Bool × Kernel}
    (hr : k.run (loadPage data phdr vaddr filesz page) = .ok r) :
    (r.1 = false ∧ (k.pmm.allocateBlock 1).1 = 0 ∧ Undisturbed k r.2 ∧
        ∀ P, (loadPage data phdr vaddr filesz page).Meets P k) ∨
      (r.1 = true ∧ ∃ frame mid ok,
        Filled k mid data phdr filesz (u32 (page * PAGE_SIZE)) frame ∧
          mid.mapPageUser (4096 * frame) (u32 (vaddr + u32 (page * PAGE_SIZE))) = .ok (ok, r.2) ∧
          ∀ P, (loadPage data phdr vaddr filesz page).Meets P k ↔
            P mid (BitVec.ofNat 32 (4096 * frame))
              (BitVec.ofNat 32 (vaddr + u32 (page * PAGE_SIZE)))) := by
  obtain ⟨⟨phys, k₁⟩, halloc, hrest⟩ := exists_of_run_bind hr
  have hblock := run_allocate halloc
  obtain ⟨hsame, hnew⟩ := h.allocateBlock_ok hblock
  have hpmm := Kernel.allocateBlock_pmm hblock
  have hmeets {P : Kernel → BitVec 32 → BitVec 32 → Prop} {f : Nat → Client Bool} :=
    meets_bind_ok (P := P) halloc f
  simp only at hrest hsame hnew hmeets hpmm
  unfold loadPage
  by_cases hz : phys = 0
  · left
    rw [if_pos hz] at hrest
    cases hrest
    refine ⟨rfl, ?_, hsame, fun P => hmeets.mpr ⟨fun _ _ => trivial, ?_⟩⟩
    · rw [Kernel.allocateBlock_result hblock]
      exact hz
    · rw [if_pos hz]
      trivial
  · right
    obtain ⟨frame, rfl, hfresh, hzero⟩ := hnew hz
    rw [if_neg hz] at hrest
    obtain ⟨⟨⟨⟩, mid⟩, hcopy, hrest⟩ := exists_of_run_bind hrest
    obtain ⟨⟨ok, k'⟩, hmap, hrest⟩ := exists_of_run_bind hrest
    cases hrest
    have hfilled := copyPage_ok hsame hfresh (by omega) hpmm hzero hcopy
    have hphys : (BitVec.ofNat 32 (4096 * frame)).toNat = 4096 * frame := by
      have hlt := hfresh.lt
      rw [BitVec.toNat_ofNat]
      exact Nat.mod_eq_of_lt (by omega)
    have hvirt : (BitVec.ofNat 32 (vaddr + u32 (page * PAGE_SIZE))).toNat =
        u32 (vaddr + u32 (page * PAGE_SIZE)) := BitVec.toNat_ofNat ..
    refine ⟨rfl, frame, mid, ok, hfilled, ?_, fun P => hmeets.trans ?_⟩
    · rw [← hvirt, ← hphys]
      exact run_mapPageUser hmap
    · rw [if_neg hz, meets_bind_ok hcopy, meets_bind_ok hmap, meets_mapPageUser]
      exact ⟨fun h => h.2.2.1, fun h => ⟨fun _ _ => trivial, copyPage_meets .., h, trivial⟩⟩

-- Whatever the answers, the frames in use are kept.
theorem loadPage_keeps {phdr vaddr filesz page : Nat} (h : Paged k) {r : Bool × Kernel}
    (hr : k.run (loadPage data phdr vaddr filesz page) = .ok r) : Paged r.2 ∧ Keeps k r.2 := by
  rcases loadPage_ok h hr with ⟨-, -, hsame, -⟩ | ⟨-, frame, mid, ok, hfilled, hmap, -⟩
  · exact ⟨hsame.paged, hsame.keeps⟩
  · obtain ⟨htrue, hfalse⟩ := hfilled.paged.mapPageUser_ok hfilled.paged.marked
      (Nat.mod_lt _ (by omega)) hmap
    cases hok : ok with
    | true =>
        have hm := htrue hok
        exact ⟨⟨hm.walkable, hm.marked hfilled.paged.marked⟩, hfilled.keeps.trans hm.keeps⟩
    | false =>
        have hnot := (hfalse hok).undisturbed hfilled.paged.marked
        exact ⟨hnot.paged, hfilled.keeps.trans hnot.keeps⟩

end ToyKernel.Elf
