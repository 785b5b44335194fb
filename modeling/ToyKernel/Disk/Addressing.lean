import ToyKernel.Stage1

namespace ToyKernel.Fat.DISK

-- The geometries that int 13h can name
structure Geometry (disk : DISK) (cylinders : Nat) : Prop where
  sectors_pos : 1 ≤ disk.sectors.toNat
  sectors_le : disk.sectors.toNat ≤ 63
  heads_pos : 1 ≤ disk.heads.toNat
  heads_le : disk.heads.toNat ≤ 255
  cylinders_le : cylinders ≤ 1024

-- int 13h takes the registers for this sector of the disk.
structure Names (disk : DISK) (cylinders : Nat) (r : DiskRegisters) (lba : Nat) : Prop where
  cylinder_lt : r.cylinder < cylinders
  head_lt : r.dh < disk.heads.toNat
  sector_pos : 1 ≤ r.sector
  sector_le : r.sector ≤ disk.sectors.toNat
  lba_eq : (r.cylinder * disk.heads.toNat + r.dh) * disk.sectors.toNat + r.sector - 1 = lba

variable {disk : DISK} {cylinders lba : Nat}

theorem cylinder_lt (hlba : lba < cylinders * disk.heads.toNat * disk.sectors.toNat) :
    lba / disk.sectors.toNat / disk.heads.toNat < cylinders := by
  rw [Nat.div_div_eq_div_mul]
  apply Nat.div_lt_of_lt_mul
  calc lba < cylinders * disk.heads.toNat * disk.sectors.toNat := hlba
    _ = disk.sectors.toNat * disk.heads.toNat * cylinders := by
      rw [Nat.mul_comm _ disk.sectors.toNat, Nat.mul_comm cylinders, Nat.mul_assoc]

theorem Geometry.addressable (h : disk.Geometry cylinders)
    (hlba : lba < cylinders * disk.heads.toNat * disk.sectors.toNat) : disk.Addressable lba where
  sectors_pos := h.sectors_pos
  sectors_le := h.sectors_le
  heads_pos := h.heads_pos
  heads_le := Nat.le_succ_of_le h.heads_le
  cylinder_lt := Nat.lt_of_lt_of_le (cylinder_lt hlba) h.cylinders_le

theorem registers_names (h : disk.Geometry cylinders)
    (hlba : lba < cylinders * disk.heads.toNat * disk.sectors.toNat) (sectors : Nat) :
    disk.Names cylinders (disk.registers lba sectors) lba := by
  have haddressable := h.addressable hlba
  have hsector := haddressable.sector sectors
  have hdh := haddressable.dh sectors
  refine ⟨?_, ?_, ?_, ?_, ?_⟩
  · rw [haddressable.cylinder]
    exact cylinder_lt hlba
  · rw [hdh]
    exact Nat.mod_lt _ h.heads_pos
  · omega
  · rw [hsector]
    exact Nat.mod_lt _ h.sectors_pos
  · calc ((disk.registers lba sectors).cylinder * disk.heads.toNat + (disk.registers lba sectors).dh) *
            disk.sectors.toNat + (disk.registers lba sectors).sector - 1
        = lba / disk.sectors.toNat * disk.sectors.toNat + (lba % disk.sectors.toNat + 1) - 1 := by
          rw [haddressable.cylinder, hdh, hsector, Nat.div_add_mod']
      _ = lba := by rw [← Nat.add_assoc, Nat.add_sub_cancel, Nat.div_add_mod']

-- In `lba_to_chs` the two bits of the cylinder are or'ed to the sector.
theorem lbaToChs_registers (h : disk.Geometry cylinders)
    (hlba : lba < cylinders * disk.heads.toNat * disk.sectors.toNat) (sectors : Nat) :
    Stage1.lbaToChs disk.sectors.toNat disk.heads.toNat lba =
      ((disk.registers lba sectors).ch, (disk.registers lba sectors).cl,
        (disk.registers lba sectors).dh) := by
  have hpos := h.sectors_pos
  have hle := h.sectors_le
  have hheads := h.heads_le
  have hsector : lba % disk.sectors.toNat < disk.sectors.toNat := Nat.mod_lt _ hpos
  have hhead : lba / disk.sectors.toNat % disk.heads.toNat < disk.heads.toNat :=
    Nat.mod_lt _ h.heads_pos
  have hcylinder := Nat.lt_of_lt_of_le (cylinder_lt hlba) h.cylinders_le
  unfold Stage1.lbaToChs registers lba2chs
  simp only [Prod.mk.injEq]
  generalize lba / disk.sectors.toNat / disk.heads.toNat = cylinder at *
  refine ⟨by omega, ?_, by omega⟩
  have hlow : (lba % disk.sectors.toNat + 1) % 65536 % 256 = lba % disk.sectors.toNat + 1 := by omega
  have hhigh : cylinder / 256 * 64 % 256 = 2 ^ 6 * (cylinder / 256) := by omega
  rw [hlow, hhigh, Nat.or_comm, ← Nat.two_pow_add_eq_or_of_lt (by omega)]
  omega

-- DISK_LBA2CHS and x86_Disk_Read name the sector that was asked for, and the first stage loads
-- the same CX and DH.
theorem lba_exact (disk : DISK) (cylinders lba sectors : Nat) (h : disk.Geometry cylinders)
    (hlba : lba < cylinders * disk.heads.toNat * disk.sectors.toNat) :
    disk.Names cylinders (disk.registers lba sectors) lba ∧
      (lba < 65536 → Stage1.lbaToChs disk.sectors.toNat disk.heads.toNat lba =
        ((disk.registers lba sectors).ch, (disk.registers lba sectors).cl,
          (disk.registers lba sectors).dh)) :=
  ⟨registers_names h hlba sectors, fun _ => lbaToChs_registers h hlba sectors⟩

-- The last sector of a large disk
theorem lba_exact_large :
    let disk : DISK := { id := 0x80, sectors := 63, heads := 255 }
    disk.Names 1024 (disk.registers 16450559 1) 16450559 ∧
      (16450559 < 65536 → Stage1.lbaToChs 63 255 16450559 =
        ((disk.registers 16450559 1).ch, (disk.registers 16450559 1).cl,
          (disk.registers 16450559 1).dh)) := by
  intro disk
  have hgeometry : disk.Geometry 1024 := by constructor <;> decide
  exact lba_exact disk 1024 16450559 1 hgeometry (by decide)

end ToyKernel.Fat.DISK
