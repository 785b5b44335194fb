import Mathlib.Algebra.GroupWithZero.Nat
import ToyKernel.Pmm.Request
import ToyKernel.Vmm

namespace ToyKernel

open Library ByteMemory

-- Code that works through the memory managers: each call is followed by whatever the
-- code does with its result. Addresses of `read` and `copy` are physical.
inductive Client (α : Type) where
  | done (result : α)
  | read (address count : Nat) (next : Nat → Client α)
  | copy (phys source count : Nat) (next : Unit → Client α)
  | allocate (a : Pmm.Allocation) (next : Nat → Client α)
  | getPage (virt : BitVec 32) (next : Nat → Client α)
  | mapPage (phys virt : BitVec 32) (next : Bool → Client α)
  | mapPageUser (phys virt : BitVec 32) (next : Bool → Client α)

namespace Client

def bind {α β : Type} : Client α → (α → Client β) → Client β
  | done result, f => f result
  | read address count next, f => read address count fun value => (next value).bind f
  | copy phys source count next, f => copy phys source count fun u => (next u).bind f
  | allocate a next, f => allocate a fun phys => (next phys).bind f
  | getPage virt next, f => getPage virt fun page => (next page).bind f
  | mapPage phys virt next, f => mapPage phys virt fun ok => (next ok).bind f
  | mapPageUser phys virt next, f => mapPageUser phys virt fun ok => (next ok).bind f

instance : Monad Client where
  pure := done
  bind := bind

end Client

namespace Kernel

-- Bytes as a number, lowest byte first.
def bytesAt (k : Kernel) (address count : Nat) : Nat :=
  ((List.range count).map fun i => (k.memory (address + i)).toNat * 256 ^ i).sum

-- `memcpy((void *)phys, (const void *)source, count)`
def copyBytes (k : Kernel) (phys source count : Nat) : Except Fault Kernel := do
  let k ← k.access source count k
  k.access phys count
    { k with memory := copy k.memory phys count fun i => k.memory (source + i) }

def allocate (k : Kernel) : Pmm.Allocation → Except Fault (Nat × Kernel)
  | .chunk => .ok k.allocateChunk
  | .block size => k.allocateBlock size
  | .byte size => k.allocateByte size

def run {α : Type} : Client α → Kernel → Except Fault (α × Kernel)
  | .done result, k => .ok (result, k)
  | .read address count next, k => do
      let value ← k.access address count (k.bytesAt address count)
      run (next value) k
  | .copy phys source count next, k => do
      let k ← k.copyBytes phys source count
      run (next ()) k
  | .allocate a next, k => do
      let (phys, k) ← k.allocate a
      run (next phys) k
  | .getPage virt next, k => do
      let page ← k.getPage virt.toNat
      run (next page) k
  | .mapPage phys virt next, k => do
      let (ok, k) ← k.mapPage phys.toNat virt.toNat
      run (next ok) k
  | .mapPageUser phys virt next, k => do
      let (ok, k) ← k.mapPageUser phys.toNat virt.toNat
      run (next ok) k

end Kernel

end ToyKernel
