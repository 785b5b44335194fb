import ToyKernel.Heap.Tasks

namespace ToyKernel

open Library ByteMemory BlockList

-- Ring 3 has no table in the heap's part of the address space, which ends with the last page.
def HeapClosed (k : Kernel) : Prop :=
  ∀ i < 1024, PD_INDEX KERNEL_HEAP_START ≤ i → isUser (k.pde i) = false

theorem SameUsers.heapClosed {k k' : Kernel} (h : SameUsers k k') (hclosed : HeapClosed k) :
    HeapClosed k' :=
  fun i hi hheap => (h.pde i hi).trans (hclosed i hi hheap)

namespace Heap

open Client

-- The kernel's tables can be walked, and none of the heap's is for ring 3.
structure Withheld (k : Kernel) : Prop where
  paged : Paged k
  closed : HeapClosed k

theorem Withheld.sameUsers {k k' : Kernel} (h : Withheld k) (hsame : SameUsers k k') : Withheld k' :=
  ⟨hsame.paged, hsame.heapClosed h.closed⟩

variable {s s' : System}

section Boot

theorem Withheld.newTask (h : Withheld s.heap.kernel) (hnew : s.newTask = .ok s') :
    Withheld s'.heap.kernel := by
  obtain ⟨⟨mem, heap⟩, hmalloc, hdone⟩ := exists_of_bind hnew
  obtain rfl := Except.ok.inj hdone
  exact h.sameUsers (syscallMalloc_sameUsers h.paged hmalloc)

-- The tables of the heap belong to the kernel's pages.
theorem kernelPage_of_heap {i : Nat} (hheap : PD_INDEX KERNEL_HEAP_START ≤ i) :
    KernelPage (i * 4194304) := by
  have hlo : 836 ≤ i := hheap
  unfold KernelPage KERNEL_VIRT_BASE
  omega

theorem Withheld.elfLoad {k k' : Kernel} (h : Withheld k) {data : Nat} {result : Elf.Result}
    (hkeeps : (Elf.elfLoad data).Meets KeepsOut k) (hrun : k.run (Elf.elfLoad data) = .ok (result, k')) :
    Withheld k' := by
  obtain ⟨hpaged, hguards⟩ :=
    Elf.elfLoad_relates Guards.composes (Elf.loadPage_guards data) _ _ h.paged hrun
  refine ⟨hpaged, fun i hi hheap => ?_⟩
  have hindex : PD_INDEX (i * 4194304) = i := Nat.mul_div_cancel i (by omega)
  have hsame := (hguards.same hkeeps (i * 4194304) (by omega) (kernelPage_of_heap hheap)).1
  rw [hindex] at hsame
  rw [hsame]
  exact h.closed i hi hheap

-- The user stack is in another table.
theorem Withheld.userStack {k : Kernel} (h : Withheld k) {phys : Nat} {r : Bool × Kernel}
    (hmap : k.mapPageUser phys USER_STACK_VIRT = .ok r) : Withheld r.2 := by
  obtain ⟨htrue, hfalse⟩ := h.paged.mapPageUser_ok h.paged.marked (by decide) hmap
  cases hok : r.1 with
  | true =>
      have hm := htrue hok
      refine ⟨⟨hm.walkable, hm.marked h.paged.marked⟩, fun i hi hheap => ?_⟩
      have hother : i ≠ PD_INDEX USER_STACK_VIRT := by
        rintro rfl
        exact absurd hheap (by decide)
      rw [hm.pde_other i hi hother]
      exact h.closed i hi hheap
  | false =>
      have hnot := hfalse hok
      exact h.sameUsers (hnot.toSameEntries.sameUsers (hnot.undisturbed h.paged.marked).paged)

theorem Withheld.create (h : Withheld s.heap.kernel) {c : System.Creation}
    (hkeeps : System.ImageKeepsOut s c) (hc : s.create c = .ok s') : Withheld s'.heap.kernel := by
  cases c with
  | task => exact h.newTask hc
  | userTask data =>
      obtain ⟨⟨result, k₁⟩, hload, hrest⟩ := exists_of_bind hc
      have h₁ := h.elfLoad hkeeps (ok_of_fault hload)
      cases result with
      | ok entry =>
          obtain ⟨⟨stackPhys, k₂⟩, halloc, hrest⟩ := exists_of_bind hrest
          obtain ⟨⟨ok, k₃⟩, hmap, hrest⟩ := exists_of_bind hrest
          have h₂ := h₁.sameUsers (h₁.paged.allocateBlock_sameUsers (by omega) (ok_of_fault halloc))
          have h₃ := h₂.userStack (ok_of_fault hmap)
          exact Withheld.newTask (s := { s with heap := { s.heap with kernel := k₃ } }) h₃ hrest
      | _ =>
          obtain rfl := Except.ok.inj hrest
          exact h₁

end Boot

theorem Withheld.call (h : Withheld s.heap.kernel) {c : System.Call} (hc : s.call c = .ok s') :
    Withheld s'.heap.kernel := by
  cases c with
  | malloc ebx =>
      obtain ⟨⟨ptr, heap⟩, hmalloc, hdone⟩ := exists_of_bind hc
      obtain rfl := Except.ok.inj hdone
      exact h.sameUsers (syscallMalloc_sameUsers h.paged hmalloc)
  | free ebx =>
      obtain ⟨heap, hfree, hdone⟩ := exists_of_bind hc
      obtain rfl := Except.ok.inj hdone
      change Withheld heap.kernel
      rw [syscallFree_kernel hfree]
      exact h

section Sample

end Sample

end Heap

end ToyKernel
