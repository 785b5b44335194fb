import ToyKernel.Library.Run
import ToyKernel.Pmm.Init

namespace ToyKernel.Pmm

open Library FirstFit

inductive Allocation where
  | chunk
  | block (size : Nat)
  | byte (size : Nat)

def Allocation.frames : Allocation → Nat
  | .chunk => 1
  | .block size => size
  | .byte size => pagesFor size

def allocate (p : Pmm) : Allocation → Nat × Pmm
  | .chunk => p.allocateChunk
  | .block size => p.allocateBlock size
  | .byte size => p.allocateByte size

-- The calls that only take frames.
inductive Request where
  | reserve (base size : Nat)
  | allocate (a : Allocation)

def exec (p : Pmm) : Request → Pmm
  | .reserve base size => p.reserveMemoryBlock base size
  | .allocate a => (p.allocate a).2

-- Every address in a request fits a `uintptr_t`.
def Request.Fits : Request → Prop
  | .reserve base _ => base < 4294967296
  | .allocate _ => True

theorem allocate_eq_allocateBlock (p : Pmm) (a : Allocation) :
    p.allocate a = p.allocateBlock a.frames := by
  cases a with
  | chunk => exact allocateChunk_eq_allocateBlock p
  | block size => rfl
  | byte size => exact allocateByte_eq_allocateBlock p size

-- INIT_MEMORY from the point on where the bitmap stands.
def bootRequests (image : KernelImage) (params : BootParams) : List Request :=
  (reservations image params).map fun r => .reserve r.1 r.2

theorem foldl_bootRequests (image : KernelImage) (ram : Nat → BitVec 32) (params : BootParams) :
    (bootRequests image params).foldl exec (afterSetup image ram params) =
      initMemory image ram params := by
  rw [initMemory_eq_reserveAll, bootRequests, List.foldl_map]
  rfl

theorem bootRequests_fit (image : KernelImage) (params : BootParams) :
    ∀ r ∈ bootRequests image params, r.Fits := by
  intro r hr
  obtain ⟨q, hq, rfl⟩ := List.mem_map.mp hr
  change q.1 < 4294967296
  rcases List.mem_append.mp hq with hfixed | hmodule
  · simp only [List.mem_cons, List.not_mem_nil, or_false] at hfixed
    rcases hfixed with rfl | rfl | rfl | rfl
    · decide
    · decide
    · change KERNEL_VIRT_BASE < _
      decide
    · have hu := u32_lt (image.kernelEnd + 0xFFF)
      change bitMapAddr image < _
      unfold bitMapAddr pageStart
      omega
  · obtain ⟨m, _, rfl⟩ := List.mem_map.mp hmodule
    exact m.data.isLt

end ToyKernel.Pmm
