import ToyKernel.Disk
import ToyKernel.Library.ByteMemory

namespace ToyKernel.Stage1

open Library ByteMemory Fat

-- The boot sector's parameter block
def BYTES_PER_SECTOR : Nat := 512
def RESERVED_SECTORS : Nat := 1
def FAT_COUNT : Nat := 2
def DIR_ENTRIES_COUNT : Nat := 0xE0
def TOTAL_SECTORS : Nat := 2880
def SECTORS_PER_FAT : Nat := 9
def SECTORS_PER_TRACK : Nat := 18
def HEADS : Nat := 2

-- `org 0x7C00`, and `buffer` behind the 512 bytes of the boot sector
def ORIGIN : Nat := 0x7C00
def BUFFER : Nat := 0x7E00
def STAGE2_LOAD_OFFSET : Nat := 0x500

def load16 (m : Memory) (a : Nat) : Nat := (m a).toNat + 256 * (m (a + 1)).toNat

-- `int 13h` at its n-th call: the memory and the carry flag that AH = 02h leaves for the registers
-- and the buffer at 0:BX, and the carry flag of AH = 00h
structure Int13 where
  read : (call : Nat) → Memory → DiskRegisters → (bx : Nat) → Memory × Bool
  reset : (call : Nat) → Bool

-- `lba_to_chs`: CH, CL and DH for the address in AX
def lbaToChs (sectorsPerTrack heads ax : Nat) : Nat × Nat × Nat :=
  let cx := (ax % sectorsPerTrack + 1) % 65536
  let head := ax / sectorsPerTrack % heads
  let cylinder := ax / sectorsPerTrack / heads
  (cylinder % 256, cx % 256 ||| cylinder / 256 * 64 % 256, head % 256)

-- The loop of `disk_read` with DI attempts left; there is no result after a jump to `floppy_error`.
def retry (bios : Int13) (r : DiskRegisters) (bx : Nat) : (di : Nat) → Memory → (calls : Nat) →
    Option (Memory × Nat)
  | 0, _, _ => none
  | di + 1, m, calls =>
      let (m, carry) := bios.read calls m r bx
      if carry = false then some (m, calls + 1)
      else if bios.reset (calls + 1) then none
      else retry bios r bx di m (calls + 2)

def diskRead (bios : Int13) (m : Memory) (calls ax cl dl bx : Nat) : Option (Memory × Nat) :=
  let (ch, chsCl, dh) := lbaToChs SECTORS_PER_TRACK HEADS ax
  retry bios { dl, ch, cl := chsCl, dh, al := cl % 256 } bx 3 m calls

-- What the loop works on: the memory, the calls of `int 13h` so far, BX, `stage2_cluster`, and the
-- addresses it has loaded a sector at. The stack is in the page under 0x7C00.
structure Loader where
  memory : Memory
  calls : Nat
  bx : Nat
  stage2Cluster : Nat
  loads : List Nat

-- The end of a run. When a sector is loaded over the boot sector, the processor runs what was
-- loaded.
inductive Outcome where
  | readFinish (l : Loader)
  | floppyError
  | overwritten (l : Loader)

namespace Loader

variable (bios : Int13) (drive : Nat)

-- `disk_read` in `.load_kernel_loop`
def readCluster (l : Loader) : Option Loader :=
  (diskRead bios l.memory l.calls ((l.stage2Cluster + 31) % 65536) 1 drive l.bx).map
    fun (memory, calls) => { l with memory, calls, loads := l.loads ++ [l.bx] }

-- `add bx, [bdb_bytes_per_sector]`
def advance (l : Loader) : Loader := { l with bx := (l.bx + BYTES_PER_SECTOR) % 65536 }

@[simp] theorem advance_stage2Cluster (l : Loader) : l.advance.stage2Cluster = l.stage2Cluster := by
  simp only [advance]

-- The boot sector and the sector at BX have a byte in common.
def Overwrites (bx : Nat) : Prop := bx < ORIGIN + BYTES_PER_SECTOR ∧ ORIGIN < bx + BYTES_PER_SECTOR

instance (bx : Nat) : Decidable (Overwrites bx) := inferInstanceAs (Decidable (_ ∧ _))

-- `mul cx`, `div cx` and the entry of the FAT. A cluster is less than 43690, and the quotient fits
-- AX.
def nextCluster (l : Loader) : Nat :=
  let ax := l.stage2Cluster * 3 / 2
  let dx := l.stage2Cluster * 3 % 2
  let entry := load16 l.memory ((BUFFER + ax) % 65536)
  if dx = 0 then entry &&& 0x0FFF else entry >>> 4

-- `fuel` rounds of `.load_kernel_loop`
def loadKernelLoop : (fuel : Nat) → Loader → Option Outcome
  | 0, _ => none
  | fuel + 1, l =>
      match l.readCluster bios drive with
      | none => some .floppyError
      | some l =>
          if Overwrites l.bx then some (.overwritten l)
          else
            let l := l.advance
            let next := l.nextCluster
            if next ≥ 0x0FF8 then some (.readFinish l)
            else loadKernelLoop fuel { l with stage2Cluster := next }

end Loader

-- `.found_kernel` with DI at the directory entry
def foundKernel (bios : Int13) (drive : Nat) (fuel : Nat) (m : Memory) (calls di : Nat) : Option Outcome :=
  let stage2Cluster := load16 m ((di + 26) % 65536)
  match diskRead bios m calls RESERVED_SECTORS SECTORS_PER_FAT drive BUFFER with
  | none => some .floppyError
  | some (memory, calls) =>
      Loader.loadKernelLoop bios drive fuel
        { memory, calls, bx := STAGE2_LOAD_OFFSET, stage2Cluster, loads := [] }

end ToyKernel.Stage1
