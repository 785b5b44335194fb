import ToyKernel.Disk

namespace ToyKernel.Fat

-- What int 13h answers to AH = 08h for the drive in DL
structure DriveAnswer where
  carry : Bool
  bl : UInt8
  ch : UInt8
  cl : UInt8
  dh : UInt8

abbrev GeometryTable := (dl : UInt8) → DriveAnswer

structure DriveParams where
  driveType : UInt8
  cylinders : UInt16
  sectors : UInt16
  heads : UInt16

-- The whole object
structure DiskObject extends DISK where
  cylinders : UInt16

namespace DiskObject

variable (table : GeometryTable)

-- x86_Disk_GetDriveParams
def getDriveParams (drive : UInt8) : Bool × DriveParams :=
  let answer := table drive
  (!answer.carry,
    { driveType := answer.bl
      cylinders := answer.ch.toUInt16 + (answer.cl >>> 6).toUInt16 * 256 + 1
      sectors := (answer.cl &&& 0x3F).toUInt16
      heads := answer.dh.toUInt16 + 1 })

-- DISK_Initialize, which asks for the drive that the object names before it is filled in
def diskInitialize (disk : DiskObject) (driveNumber : UInt8) : Bool × DiskObject :=
  let (ok, params) := getDriveParams table disk.id
  if !ok then (false, disk)
  else
    (true,
      { id := driveNumber, cylinders := params.cylinders, heads := params.heads, sectors := params.sectors })

-- The object for a drive
def ofDrive (drive : UInt8) : DiskObject where
  id := drive
  cylinders := (getDriveParams table drive).2.cylinders
  sectors := (getDriveParams table drive).2.sectors
  heads := (getDriveParams table drive).2.heads

-- From either content of the object the set-up comes back as the drive asked for answers, with
-- that drive's geometry, and every later call asks the BIOS for the same.
structure SetsUp (drive : UInt8) (disk disk' : DiskObject) : Prop where
  result : (disk.diskInitialize table drive).1 = !(table drive).carry
  same : (disk.diskInitialize table drive).1 = (disk'.diskInitialize table drive).1
  object : (disk.diskInitialize table drive).1 = true →
    (disk.diskInitialize table drive).2 = ofDrive table drive ∧
      (disk'.diskInitialize table drive).2 = ofDrive table drive
  requests : (disk.diskInitialize table drive).1 = true → ∀ lba sectors,
    (disk.diskInitialize table drive).2.registers lba sectors =
      (disk'.diskInitialize table drive).2.registers lba sectors

-- The BIOS answers for the number in the object as it does for the drive.
structure AnswersAlike (drive id : UInt8) : Prop where
  carry : (table id).carry = (table drive).carry
  cylinders : (table drive).carry = false →
    (getDriveParams table id).2.cylinders = (getDriveParams table drive).2.cylinders
  sectors : (table drive).carry = false →
    (getDriveParams table id).2.sectors = (getDriveParams table drive).2.sectors
  heads : (table drive).carry = false →
    (getDriveParams table id).2.heads = (getDriveParams table drive).2.heads

section Calls

variable {table} {drive : UInt8} {disk : DiskObject}

theorem diskInitialize_result : (disk.diskInitialize table drive).1 = !(table disk.id).carry := by
  unfold diskInitialize getDriveParams
  cases h : (table disk.id).carry <;> simp [h]

theorem diskInitialize_object (h : (table disk.id).carry = false) :
    (disk.diskInitialize table drive).2 = { ofDrive table disk.id with id := drive } := by
  have hok : (getDriveParams table disk.id).1 = true := by rw [getDriveParams, h]; rfl
  unfold diskInitialize
  simp only [hok]
  rfl

theorem answersAlike_iff :
    AnswersAlike table drive disk.id ↔
      (disk.diskInitialize table drive).1 = !(table drive).carry ∧
        ((table drive).carry = false → (disk.diskInitialize table drive).2 = ofDrive table drive) := by
  constructor
  · intro h
    refine ⟨by rw [diskInitialize_result, h.carry], fun hcarry => ?_⟩
    rw [diskInitialize_object (h.carry.trans hcarry)]
    unfold ofDrive
    simp only [h.cylinders hcarry, h.sectors hcarry, h.heads hcarry]
  · rintro ⟨hresult, hobject⟩
    have hcarry : (table disk.id).carry = (table drive).carry := by
      rw [diskInitialize_result] at hresult
      exact Bool.not_inj hresult
    have hsame : (table drive).carry = false →
        { ofDrive table disk.id with id := drive } = ofDrive table drive := fun h => by
      rw [← diskInitialize_object (hcarry.trans h)]
      exact hobject h
    exact ⟨hcarry, fun h => congrArg DiskObject.cylinders (hsame h),
      fun h => congrArg (fun disk => disk.sectors) (hsame h),
      fun h => congrArg (fun disk => disk.heads) (hsame h)⟩

end Calls

-- The set-up is that of the drive exactly if the BIOS answers alike for what the object held.
theorem setsUp_iff (drive : UInt8) (disk disk' : DiskObject) :
    SetsUp table drive disk disk' ↔
      AnswersAlike table drive disk.id ∧ AnswersAlike table drive disk'.id := by
  rw [answersAlike_iff, answersAlike_iff]
  constructor
  · intro h
    have hdone : (table drive).carry = false → (disk.diskInitialize table drive).1 = true := fun hcarry => by
      rw [h.result, hcarry]
      rfl
    exact ⟨⟨h.result, fun hcarry => (h.object (hdone hcarry)).1⟩, h.same.symm.trans h.result,
      fun hcarry => (h.object (hdone hcarry)).2⟩
  · rintro ⟨⟨hresult, hobject⟩, hresult', hobject'⟩
    have hcarry : (disk.diskInitialize table drive).1 = true → (table drive).carry = false := fun hdone => by
      rw [hresult] at hdone
      exact Bool.not_eq_true' _ |>.mp hdone
    refine ⟨hresult, hresult.trans hresult'.symm, fun hdone => ?_, fun hdone lba sectors => ?_⟩
    · exact ⟨hobject (hcarry hdone), hobject' (hcarry hdone)⟩
    · rw [hobject (hcarry hdone), hobject' (hcarry hdone)]

-- A floppy disk as drive 0 and a hard disk as drive 0x80
def sampleTable : GeometryTable := fun dl =>
  if dl = 0 then { carry := false, bl := 4, ch := 79, cl := 18, dh := 1 }
  else if dl = 0x80 then { carry := false, bl := 0, ch := 0xFF, cl := 0xFF, dh := 15 }
  else { carry := true, bl := 0, ch := 0, cl := 0, dh := 0 }

def garbage (id : UInt8) : DiskObject where
  id := id
  sectors := 0
  heads := 0
  cylinders := 0

-- With 0x80 on the stack the floppy disk gets the geometry of the hard disk, and with 1 there is
-- no disk at all.
theorem not_setsUp_sample :
    ¬SetsUp sampleTable 0 (garbage 0x80) (garbage 0x80) ∧ ¬SetsUp sampleTable 0 (garbage 0) (garbage 1) := by
  constructor
  · intro h
    have hobject := (h.object (by decide)).1
    exact absurd (congrArg (fun disk => disk.sectors) hobject) (by decide)
  · intro h
    exact absurd h.same (by decide)

end DiskObject

end ToyKernel.Fat
