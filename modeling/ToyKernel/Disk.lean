import ToyKernel.Fat

namespace ToyKernel.Fat

-- DISK, less the cylinders, which nothing reads
structure DISK where
  id : UInt8
  sectors : UInt16
  heads : UInt16

-- What x86_Disk_Read loads for int 13h: `cl` has the sector below two bits of the cylinder.
structure DiskRegisters where
  dl : Nat
  ch : Nat
  cl : Nat
  dh : Nat
  al : Nat

namespace DiskRegisters

def cylinder (r : DiskRegisters) : Nat := r.ch + 256 * (r.cl / 64)

def sector (r : DiskRegisters) : Nat := r.cl % 64

end DiskRegisters

-- What the BIOS does at an attempt of a call. It may refuse any of them.
abbrev Bios := (call attempt : Nat) → DiskRegisters → Transfer

namespace DISK

-- DISK_LBA2CHS, into variables of 16 bits: cylinder, sector, head
def lba2chs (disk : DISK) (lba : Nat) : Nat × Nat × Nat :=
  (lba / disk.sectors.toNat / disk.heads.toNat % 65536,
    (lba % disk.sectors.toNat + 1) % 65536,
    lba / disk.sectors.toNat % disk.heads.toNat % 65536)

-- The argument bytes that x86_Disk_Read takes
def registers (disk : DISK) (lba sectors : Nat) : DiskRegisters :=
  let (cylinder, sector, head) := disk.lba2chs lba
  { dl := disk.id.toNat
    ch := cylinder % 256
    cl := cylinder / 256 * 64 % 256 + sector % 64
    dh := head % 256
    al := sectors % 256 }

-- The loop of DISK_ReadSectors up to the attempt `i`
def attempts (read : Nat → Transfer) : (i : Nat) → Transfer
  | 0 => read 0
  | i + 1 =>
      let transfer := attempts read i
      if transfer.ok then transfer else read (i + 1)

-- DISK_ReadSectors
def readSectors (disk : DISK) (bios : Bios) : Disk := fun call lba sectors =>
  attempts (fun i => bios call i (disk.registers lba sectors)) 2

-- A transfer that the BIOS reports as done brought the sector that the registers name.
def Honest (disk : DISK) (bios : Bios) (content : Nat → Sector) : Prop :=
  ∀ call attempt r, 1 ≤ r.sector → r.sector ≤ disk.sectors.toNat → r.dh < disk.heads.toNat → 1 ≤ r.al →
    (bios call attempt r).ok = true →
    (bios call attempt r).data 0 =
      content ((r.cylinder * disk.heads.toNat + r.dh) * disk.sectors.toNat + (r.sector - 1))

-- What ten bits of cylinder, eight of head and six of sector can name
structure Addressable (disk : DISK) (lba : Nat) : Prop where
  sectors_pos : 1 ≤ disk.sectors.toNat
  sectors_le : disk.sectors.toNat ≤ 63
  heads_pos : 1 ≤ disk.heads.toNat
  heads_le : disk.heads.toNat ≤ 256
  cylinder_lt : lba / disk.sectors.toNat / disk.heads.toNat < 1024

section Registers

variable {disk : DISK} {lba : Nat}

-- Nothing is lost in the registers.
theorem Addressable.sector (h : disk.Addressable lba) (sectors : Nat) :
    (disk.registers lba sectors).sector = lba % disk.sectors.toNat + 1 := by
  have hpos := h.sectors_pos
  have hle := h.sectors_le
  have hlt : lba % disk.sectors.toNat < disk.sectors.toNat := Nat.mod_lt _ hpos
  unfold registers DiskRegisters.sector lba2chs
  simp only
  omega

theorem Addressable.dh (h : disk.Addressable lba) (sectors : Nat) :
    (disk.registers lba sectors).dh = lba / disk.sectors.toNat % disk.heads.toNat := by
  have hle := h.heads_le
  have hlt : lba / disk.sectors.toNat % disk.heads.toNat < disk.heads.toNat := Nat.mod_lt _ h.heads_pos
  unfold registers lba2chs
  simp only
  omega

theorem Addressable.cylinder (h : disk.Addressable lba) (sectors : Nat) :
    (disk.registers lba sectors).cylinder = lba / disk.sectors.toNat / disk.heads.toNat := by
  have hlt := h.cylinder_lt
  unfold registers DiskRegisters.cylinder lba2chs
  simp only
  generalize lba / disk.sectors.toNat / disk.heads.toNat = cylinder at hlt
  omega

end Registers

theorem attempts_ok {read : Nat → Transfer} {i : Nat} (h : (attempts read i).ok = true) :
    ∃ j, (read j).ok = true ∧ attempts read i = read j := by
  induction i with
  | zero => exact ⟨0, h, rfl⟩
  | succ i ih =>
      unfold attempts at h ⊢
      cases hok : (attempts read i).ok with
      | true =>
          simp only [hok, ite_true]
          exact ih hok
      | false =>
          simp only [hok, Bool.false_eq_true, ite_false] at h ⊢
          exact ⟨i + 1, h, rfl⟩

-- A read that comes back with success brought the sector, however many attempts it took.
theorem readSectors_data {disk : DISK} {bios : Bios} {content : Nat → Sector}
    (hbios : disk.Honest bios content) {call lba : Nat} (hlba : disk.Addressable lba)
    (hok : (disk.readSectors bios call lba 1).ok = true) :
    (disk.readSectors bios call lba 1).data 0 = content lba := by
  obtain ⟨attempt, hdone, hread⟩ := attempts_ok hok
  have hsectors := hlba.sectors_pos
  have hsector : lba % disk.sectors.toNat < disk.sectors.toNat := Nat.mod_lt _ hsectors
  have hhead : lba / disk.sectors.toNat % disk.heads.toNat < disk.heads.toNat :=
    Nat.mod_lt _ hlba.heads_pos
  have hregSector := hlba.sector 1
  have hregHead := hlba.dh 1
  have hdata := hbios call attempt (disk.registers lba 1) (by omega) (by omega) (by omega)
    (Nat.le_refl 1) hdone
  rw [hregSector, hregHead, hlba.cylinder, Nat.add_sub_cancel, Nat.div_add_mod',
    Nat.div_add_mod'] at hdata
  unfold readSectors
  rw [hread]
  exact hdata

end DISK

end ToyKernel.Fat
