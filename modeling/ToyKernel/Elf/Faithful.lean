import ToyKernel.Elf.Image

namespace ToyKernel

open Library ByteMemory Client

-- What a stretch of a run keeps that maps nothing but pages with a number in `pages`.
structure Extends (pages : Set Nat) (k k' : Kernel) : Prop where
  paged : Paged k'
  keeps : Keeps k k'
  ring3 : ∀ a < 4294967296, k.Ring3 a → k'.Ring3 a
  pte : ∀ a < 4294967296, a / 4096 ∉ pages → k'.pte a = k.pte a

section Extends

variable {pages pages' : Set Nat} {k mid k' : Kernel}

theorem Extends.refl (h : Paged k) : Extends pages k k :=
  ⟨h, Keeps.refl k, fun _ _ hr => hr, fun _ _ _ => rfl⟩

theorem Extends.trans (h : Extends pages k mid) (h' : Extends pages mid k') : Extends pages k k' where
  paged := h'.paged
  keeps := h.keeps.trans h'.keeps
  ring3 a ha hr := h'.ring3 a ha (h.ring3 a ha hr)
  pte a ha hn := (h'.pte a ha hn).trans (h.pte a ha hn)

theorem Extends.mono (h : Extends pages k k') (hsub : pages ⊆ pages') : Extends pages' k k' :=
  ⟨h.paged, h.keeps, h.ring3, fun a ha hn => h.pte a ha fun hmem => hn (hsub hmem)⟩

theorem Undisturbed.extends (h : Undisturbed k k') : Extends pages k k' :=
  ⟨h.paged, h.keeps, fun _ ha hr => h.ring3 ha hr, fun a ha _ => h.pte a ha⟩

end Extends

-- The page at `virt` is open to ring 3, on a frame of its own with the bytes `content`.
def PageHas (k : Kernel) (virt : Nat) (content : Nat → BitVec 8) : Prop :=
  ∃ frame, Owned k frame ∧ k.Ring3 virt ∧ PAGE_PHYS_ADDRESS (k.pte virt) = 4096 * frame ∧
    ∀ j < 4096, k.memory (4096 * frame + j) = content j

section Pages

variable {pages : Set Nat} {k k' : Kernel} {virt : Nat} {content : Nat → BitVec 8}

-- A page that has been mapped stays as it is while other pages are.
theorem PageHas.keep (h : PageHas k virt content) (hext : Extends pages k k')
    (hvirt : virt < 4294967296) (hnot : virt / 4096 ∉ pages) : PageHas k' virt content := by
  obtain ⟨frame, howned, hring, haddress, hcontent⟩ := h
  obtain ⟨howned', hmemory⟩ := hext.keeps frame howned
  refine ⟨frame, howned', hext.ring3 virt hvirt hring, by rwa [hext.pte virt hvirt hnot], fun j hj => ?_⟩
  rw [hmemory _ (by omega), hcontent j hj]

-- What is read through the tables at a byte of such a page
theorem PageHas.read (h : PageHas k virt content) (hwalk : Walkable k) {a : Nat}
    (hpage : a / 4096 = virt / 4096) :
    ∃ phys, k.translate a = some phys ∧ k.memory phys = content (a % 4096) ∧ k.Ring3 a := by
  obtain ⟨frame, -, hring, haddress, hcontent⟩ := h
  refine ⟨4096 * frame + a % 4096, ?_, hcontent _ (by omega), (Kernel.ring3_page hpage).mpr hring⟩
  rw [hwalk.translate_eq, Kernel.pte_page hpage, hring.2.2.1, haddress, if_pos rfl]

end Pages

namespace Elf

variable {k k' : Kernel} {data size : Nat} {file : Nat → BitVec 8}

section Sample

end Sample

end Elf

end ToyKernel
