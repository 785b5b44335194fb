import ToyKernel.Disk

namespace ToyKernel.Fat

def MEMORY_FAT_ADDR : Nat := 0x20000

-- Where the FAT goes, and the buffer of the root directory
def FAT_BUFFER : Nat := MEMORY_FAT_ADDR + FAT_DATA_SIZE
def ROOT_BUFFER : Nat := MEMORY_FAT_ADDR + 512

-- A division, and a transfer of sectors to an address; all attempts of a call are the same transfer.
inductive Effect where
  | divide (divisor : Nat)
  | transfer (address sectors : Nat)
  deriving DecidableEq

-- What was done, and what the function came back with unless a division by zero stopped it
structure Run where
  effects : List Effect
  result : Option Bool

namespace Run

def done (result : Bool) : Run := ⟨[], some result⟩

def divide (divisor : Nat) (rest : Run) : Run :=
  if divisor = 0 then ⟨[.divide 0], none⟩ else { rest with effects := .divide divisor :: rest.effects }

def transfer (address sectors : Nat) (rest : Run) : Run :=
  { rest with effects := .transfer address sectors :: rest.effects }

-- DISK_ReadSectors: DISK_LBA2CHS divides by the sectors of a track and by the heads, and the count
-- reaches the BIOS in eight bits.
def read (disk : DISK) (address sectors : Nat) (rest : Run) : Run :=
  divide disk.sectors.toNat <| divide disk.heads.toNat <| transfer address (sectors % 256) rest

section

variable {disk : DISK} {divisor : Nat}

theorem result_divide (h : divisor ≠ 0) (rest : Run) : (divide divisor rest).result = rest.result := by
  rw [divide, if_neg h]

theorem result_read (hsectors : disk.sectors.toNat ≠ 0) (hheads : disk.heads.toNat ≠ 0)
    (address sectors : Nat) (rest : Run) : (read disk address sectors rest).result = rest.result := by
  rw [read, result_divide hsectors, result_divide hheads, transfer]

theorem effects_read (hsectors : disk.sectors.toNat ≠ 0) (hheads : disk.heads.toNat ≠ 0)
    (address sectors : Nat) (rest : Run) :
    (read disk address sectors rest).effects =
      .divide disk.sectors.toNat :: .divide disk.heads.toNat :: .transfer address (sectors % 256) ::
        rest.effects := by
  rw [read, divide, if_neg hsectors, divide, if_neg hheads, transfer]

end

end Run

section Fields

variable (read : Disk)

def bootRead : Transfer := read 0 0 1

def bootSectorOf : BootSector := BootSector.ofBytes ((bootRead read).data 0).bytes

-- The count of sectors is a `uint8_t`.
def fatRead : Transfer :=
  read 1 (bootSectorOf read).reservedSectors.toNat ((bootSectorOf read).sectorsPerFat.toNat % 256)

def rootRead : Transfer := read 2 (bootSectorOf read).rootDirLba 1

end Fields

-- `sizeof(FAT_Data) + fatSize >= MEMORY_FAT_SIZE`
def TooLarge (bs : BootSector) : Prop :=
  FAT_DATA_SIZE + bs.bytesPerSector.toNat * bs.sectorsPerFat.toNat ≥ MEMORY_FAT_SIZE

instance (bs : BootSector) : Decidable (TooLarge bs) := inferInstanceAs (Decidable (_ ≥ _))

-- FAT_Initialize by what it does
def initializeRun (disk : DISK) (bios : Bios) : Run :=
  let read := disk.readSectors bios
  let bs := bootSectorOf read
  Run.read disk MEMORY_FAT_ADDR 1 <|
    if !(bootRead read).ok then .done false
    else if TooLarge bs then .done false
    else Run.read disk FAT_BUFFER bs.sectorsPerFat.toNat <|
      if !(fatRead read).ok then .done false
      else Run.read disk ROOT_BUFFER 1 <|
        if !(rootRead read).ok then .done false
        else Run.divide bs.bytesPerSector.toNat (.done true)

def InitError.result : InitError → Option Bool
  | .divideByZero => none
  | _ => some false

-- It is the FAT_Initialize of the file system, once the geometry is one to divide by.
theorem initializeRun_result (disk : DISK) (bios : Bios) (hsectors : disk.sectors.toNat ≠ 0)
    (hheads : disk.heads.toNat ≠ 0) (slots : Fin 10 → FileData) (ram : Nat → UInt8) :
    (initializeRun disk bios).result =
      match fatInitialize (disk.readSectors bios) slots ram with
      | .ok _ => some true
      | .error e => e.result := by
  have hread := fun address sectors rest => Run.result_read hsectors hheads address sectors rest
  have hzero : (bootSectorOf (disk.readSectors bios)).bytesPerSector.toNat = 0 ↔
      (bootSectorOf (disk.readSectors bios)).bytesPerSector = 0 := by
    rw [← UInt16.toNat_inj]
    rfl
  unfold initializeRun fatInitialize
  simp only [hread]
  change _ = match (if !(bootRead (disk.readSectors bios)).ok then _ else
    if TooLarge (bootSectorOf (disk.readSectors bios)) then _ else
    if !(fatRead (disk.readSectors bios)).ok then _ else
    if !(rootRead (disk.readSectors bios)).ok then _ else
    if (bootSectorOf (disk.readSectors bios)).bytesPerSector = 0 then _ else _ : Except InitError State) with
    | .ok _ => some true
    | .error e => e.result
  by_cases hboot : (!(bootRead (disk.readSectors bios)).ok) = true
  · rw [if_pos hboot, if_pos hboot]
    rfl
  rw [if_neg hboot, if_neg hboot]
  by_cases hlarge : TooLarge (bootSectorOf (disk.readSectors bios))
  · rw [if_pos hlarge, if_pos hlarge]
    rfl
  rw [if_neg hlarge, if_neg hlarge, hread]
  by_cases hfat : (!(fatRead (disk.readSectors bios)).ok) = true
  · rw [if_pos hfat, if_pos hfat]
    rfl
  rw [if_neg hfat, if_neg hfat, hread]
  by_cases hroot : (!(rootRead (disk.readSectors bios)).ok) = true
  · rw [if_pos hroot, if_pos hroot]
    rfl
  rw [if_neg hroot, if_neg hroot, Run.divide]
  by_cases hbytes : (bootSectorOf (disk.readSectors bios)).bytesPerSector = 0
  · rw [if_pos (hzero.mpr hbytes), if_pos hbytes]
    rfl
  · rw [if_neg (mt hzero.mp hbytes), if_neg hbytes]
    rfl

section Survival

-- What a run may do: divide by something, and transfer into the memory of the driver
def Effect.Safe : Effect → Prop
  | .divide divisor => divisor ≠ 0
  | .transfer address sectors =>
      MEMORY_FAT_ADDR ≤ address ∧ address + SECTOR_SIZE * sectors ≤ MEMORY_FAT_ADDR + MEMORY_FAT_SIZE

-- No division by zero, no transfer outside the driver's memory, and a FAT of as many sectors as
-- the boot sector says whenever the result is true
structure Survives (disk : DISK) (bios : Bios) : Prop where
  safe : ∀ e ∈ (initializeRun disk bios).effects, e.Safe
  whole : (initializeRun disk bios).result = some true →
    .transfer FAT_BUFFER (bootSectorOf (disk.readSectors bios)).sectorsPerFat.toNat ∈
      (initializeRun disk bios).effects

-- The FAT has room: 115 sectors behind FAT_Data
def HasRoom (bs : BootSector) : Prop := bs.sectorsPerFat.toNat % 256 ≤ 115

-- With the geometry nothing is wrong. A boot sector that passes the test of the size has its FAT
-- transferred into the memory there is, and if all is read, it has no sectors of zero bytes and a
-- FAT of less than 256 sectors.
structure Sound (disk : DISK) (bios : Bios) : Prop where
  sectors : disk.sectors.toNat ≠ 0
  heads : disk.heads.toNat ≠ 0
  fits : (bootRead (disk.readSectors bios)).ok = true →
    ¬TooLarge (bootSectorOf (disk.readSectors bios)) →
    HasRoom (bootSectorOf (disk.readSectors bios)) ∧
      ((fatRead (disk.readSectors bios)).ok = true → (rootRead (disk.readSectors bios)).ok = true →
        (bootSectorOf (disk.readSectors bios)).bytesPerSector.toNat ≠ 0 ∧
          (bootSectorOf (disk.readSectors bios)).sectorsPerFat.toNat < 256)

variable {disk : DISK} {bios : Bios}

section Runs

variable {rest : Run} {address sectors divisor : Nat}

theorem safe_done (result : Bool) : ∀ e ∈ (Run.done result).effects, e.Safe := nofun

theorem safe_divide : (∀ e ∈ (Run.divide divisor rest).effects, e.Safe) ↔
    divisor ≠ 0 ∧ ∀ e ∈ rest.effects, e.Safe := by
  unfold Run.divide
  by_cases h : divisor = 0
  · simp [h, Effect.Safe]
  · simp [h, Effect.Safe]

theorem safe_read : (∀ e ∈ (Run.read disk address sectors rest).effects, e.Safe) ↔
    disk.sectors.toNat ≠ 0 ∧ disk.heads.toNat ≠ 0 ∧
      Effect.Safe (.transfer address (sectors % 256)) ∧ ∀ e ∈ rest.effects, e.Safe := by
  unfold Run.read
  rw [safe_divide, safe_divide]
  simp [Run.transfer]

end Runs

theorem safe_fat {n : Nat} : Effect.Safe (.transfer FAT_BUFFER n) ↔ n ≤ 115 := by
  unfold Effect.Safe FAT_BUFFER MEMORY_FAT_ADDR FAT_DATA_SIZE SECTOR_SIZE MEMORY_FAT_SIZE
  omega

-- All that is read comes in, and the test of the size is passed.
structure AllRead (read : Disk) : Prop where
  boot : (bootRead read).ok = true
  small : ¬TooLarge (bootSectorOf read)
  fat : (fatRead read).ok = true
  root : (rootRead read).ok = true

-- The run then, up to the last division
theorem AllRead.run (h : AllRead (disk.readSectors bios)) :
    initializeRun disk bios =
      Run.read disk MEMORY_FAT_ADDR 1
        (Run.read disk FAT_BUFFER (bootSectorOf (disk.readSectors bios)).sectorsPerFat.toNat
          (Run.read disk ROOT_BUFFER 1
            (Run.divide (bootSectorOf (disk.readSectors bios)).bytesPerSector.toNat (.done true)))) := by
  unfold initializeRun
  simp only [h.boot, h.small, h.fat, h.root, Bool.not_true, Bool.false_eq_true, if_false]

theorem allRead_of_result (hsectors : disk.sectors.toNat ≠ 0) (hheads : disk.heads.toNat ≠ 0)
    (h : (initializeRun disk bios).result = some true) : AllRead (disk.readSectors bios) := by
  have hread := fun address sectors rest => Run.result_read hsectors hheads address sectors rest
  have hfalse : (Run.done false).result ≠ some true := by decide
  unfold initializeRun at h
  simp only [hread, Bool.not_eq_true'] at h
  split at h
  · exact absurd h hfalse
  rename_i hboot
  split at h
  · exact absurd h hfalse
  rename_i hsmall
  rw [hread] at h
  split at h
  · exact absurd h hfalse
  rename_i hfat
  rw [hread] at h
  split at h
  · exact absurd h hfalse
  rename_i hroot
  exact ⟨by simpa using hboot, hsmall, by simpa using hfat, by simpa using hroot⟩

-- There is one transfer to the place of the FAT.
theorem transfer_fat_iff (hsectors : disk.sectors.toNat ≠ 0) (hheads : disk.heads.toNat ≠ 0)
    (h : AllRead (disk.readSectors bios)) {n : Nat} :
    .transfer FAT_BUFFER n ∈ (initializeRun disk bios).effects ↔
      n = (bootSectorOf (disk.readSectors bios)).sectorsPerFat.toNat % 256 := by
  have hboot : FAT_BUFFER ≠ MEMORY_FAT_ADDR := by decide
  have hroot : FAT_BUFFER ≠ ROOT_BUFFER := by decide
  have hlast : ∀ divisor, .transfer FAT_BUFFER n ∉ (Run.divide divisor (.done true)).effects := by
    intro divisor hmem
    unfold Run.divide at hmem
    split at hmem <;> cases List.mem_singleton.mp hmem
  rw [h.run, Run.effects_read hsectors hheads, Run.effects_read hsectors hheads,
    Run.effects_read hsectors hheads]
  simp [hboot, hroot, hlast]

-- Exactly then FAT_Initialize survives the boot sector.
theorem survives_iff (disk : DISK) (bios : Bios) : Survives disk bios ↔ Sound disk bios := by
  constructor
  · rintro ⟨hsafe, hwhole⟩
    have hrun := hsafe
    unfold initializeRun at hrun
    obtain ⟨hsectors, hheads, -, hrun⟩ := safe_read.mp hrun
    refine ⟨hsectors, hheads, fun hboot hsmall => ?_⟩
    rw [if_neg (by simp [hboot]), if_neg hsmall] at hrun
    obtain ⟨-, -, hroom, -⟩ := safe_read.mp hrun
    refine ⟨safe_fat.mp hroom, fun hfat hroot => ?_⟩
    have hall : AllRead (disk.readSectors bios) := ⟨hboot, hsmall, hfat, hroot⟩
    rw [hall.run, safe_read, safe_read, safe_read, safe_divide] at hsafe
    obtain ⟨-, -, -, -, -, -, -, -, -, hbytes, -⟩ := hsafe
    have hresult : (initializeRun disk bios).result = some true := by
      rw [hall.run, Run.result_read hsectors hheads, Run.result_read hsectors hheads,
        Run.result_read hsectors hheads, Run.result_divide hbytes]
      rfl
    have hsame := (transfer_fat_iff hsectors hheads hall).mp (hwhole hresult)
    exact ⟨hbytes, by omega⟩
  · rintro ⟨hsectors, hheads, hfits⟩
    have hfirst : Effect.Safe (.transfer MEMORY_FAT_ADDR (1 % 256)) := ⟨by decide, by decide⟩
    have hroot : Effect.Safe (.transfer ROOT_BUFFER (1 % 256)) := ⟨by decide, by decide⟩
    constructor
    · unfold initializeRun
      refine safe_read.mpr ⟨hsectors, hheads, hfirst, ?_⟩
      split
      · exact safe_done false
      rename_i hboot
      split
      · exact safe_done false
      rename_i hsmall
      obtain ⟨hroom, hrest⟩ := hfits (by simpa using hboot) hsmall
      refine safe_read.mpr ⟨hsectors, hheads, safe_fat.mpr hroom, ?_⟩
      split
      · exact safe_done false
      rename_i hfat
      refine safe_read.mpr ⟨hsectors, hheads, hroot, ?_⟩
      split
      · exact safe_done false
      rename_i hrootRead
      obtain ⟨hbytes, -⟩ := hrest (by simpa using hfat) (by simpa using hrootRead)
      exact safe_divide.mpr ⟨hbytes, safe_done true⟩
    · intro hresult
      have hall := allRead_of_result hsectors hheads hresult
      obtain ⟨-, hrest⟩ := hfits hall.boot hall.small
      obtain ⟨-, hlt⟩ := hrest hall.fat hall.root
      exact (transfer_fat_iff hsectors hheads hall).mpr (Nat.mod_eq_of_lt hlt).symm

-- Sectors of 512 bytes or more leave nothing to go wrong.
theorem sound_of_bytesPerSector (hsectors : disk.sectors.toNat ≠ 0) (hheads : disk.heads.toNat ≠ 0)
    (h : 512 ≤ (bootSectorOf (disk.readSectors bios)).bytesPerSector.toNat) : Sound disk bios := by
  refine ⟨hsectors, hheads, fun _ hsmall => ?_⟩
  unfold TooLarge at hsmall
  have hle := Nat.mul_le_mul_right (bootSectorOf (disk.readSectors bios)).sectorsPerFat.toNat h
  have hsize : FAT_DATA_SIZE = 6496 := rfl
  have hmemory : MEMORY_FAT_SIZE = 65536 := rfl
  have hfew : (bootSectorOf (disk.readSectors bios)).sectorsPerFat.toNat ≤ 115 := by omega
  exact ⟨Nat.le_trans (Nat.mod_le _ _) hfew, fun _ _ => ⟨by omega, by omega⟩⟩

end Survival

section Sample

def floppyDisk : DISK where
  id := 0
  sectors := 18
  heads := 2

-- Every sector of the disk has 9 as the sectors of a FAT, and zeros elsewhere.
def zeroBios : Bios := fun _ _ _ => { ok := true, data := fun _ i => if i = 22 then 9 else 0 }

-- FAT_Initialize divides by BytesPerSector, which is zero.
theorem not_survives_zero : ¬Survives floppyDisk zeroBios := by
  have hdivides : .divide 0 ∈ (initializeRun floppyDisk zeroBios).effects := by decide +kernel
  exact fun h => h.safe _ hdivides rfl

end Sample

end ToyKernel.Fat
