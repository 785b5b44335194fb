import ToyKernel.Fat.Delivery

namespace ToyKernel.Fat

-- What of the driver's memory is behind g_Data
def FAT_AREA : Nat := MEMORY_FAT_SIZE - FAT_DATA_SIZE

-- The bytes from g_Fat on. From FAT_AREA on they are not the driver's, and anyone may write them.
abbrev Behind := Nat → UInt8

def Volume.inMemory (v : Volume) (memory : Behind) : Volume :=
  { v with fat := fun k => if k < FAT_AREA then v.fat k else memory k }

def State.inMemory (s : State) (memory : Behind) : State :=
  { s with volume := s.volume.inMemory memory }

-- FAT_NextCluster reads the two bytes of this cluster in the driver's memory.
def InArea (cluster : Nat) : Prop := u32 (cluster * 3) / 2 + 1 < FAT_AREA

-- So it is for whatever is followed from the entry: of a file without bytes the FAT is not read.
def DirectoryEntry.Bounded (entry : DirectoryEntry) : Prop :=
  InArea entry.firstCluster ∨
    (entry.attributes &&& FAT_ATTRIBUTE_DIRECTORY = 0 ∧ entry.size.toNat = 0)

def FileData.Bounded (fd : FileData) : Prop := InArea fd.currentCluster ∨ ∀ byteCount, fd.clamp byteCount = 0

-- Volumes that differ in what is not the driver's
structure SameArea (v w : Volume) : Prop where
  disk : v.disk = w.disk
  bootSector : v.bootSector = w.bootSector
  dataSectionLba : v.dataSectionLba = w.dataSectionLba
  fat : ∀ k < FAT_AREA, v.fat k = w.fat k

section Area

variable {u v w : Volume} {cluster : Nat}

theorem file_inMemory (s : State) (memory : Behind) (handle : Handle) :
    (s.inMemory memory).file handle = s.file handle := by
  cases handle <;> rfl

theorem SameArea.refl (v : Volume) : SameArea v v := ⟨rfl, rfl, rfl, fun _ _ => rfl⟩

theorem SameArea.symm (h : SameArea v w) : SameArea w v :=
  ⟨h.disk.symm, h.bootSector.symm, h.dataSectionLba.symm, fun k hk => (h.fat k hk).symm⟩

theorem SameArea.trans (h : SameArea u v) (h' : SameArea v w) : SameArea u w :=
  ⟨h.disk.trans h'.disk, h.bootSector.trans h'.bootSector, h.dataSectionLba.trans h'.dataSectionLba,
    fun k hk => (h.fat k hk).trans (h'.fat k hk)⟩

theorem sameArea_inMemory (v : Volume) (memory : Behind) : SameArea (v.inMemory memory) v :=
  ⟨rfl, rfl, rfl, fun _ hk => if_pos hk⟩

theorem SameArea.inMemory (h : SameArea v w) (memory memory' : Behind) :
    SameArea (v.inMemory memory) (w.inMemory memory') :=
  ((sameArea_inMemory v memory).trans h).trans (sameArea_inMemory w memory').symm

theorem SameArea.clusterToLba (h : SameArea v w) (cluster : Nat) :
    v.clusterToLba cluster = w.clusterToLba cluster := by
  unfold Volume.clusterToLba
  rw [h.bootSector, h.dataSectionLba]

theorem SameArea.nextCluster (h : SameArea v w) (hin : InArea cluster) :
    v.nextCluster cluster = w.nextCluster cluster := by
  unfold InArea at hin
  unfold Volume.nextCluster
  dsimp only
  rw [h.fat _ (by omega), h.fat _ hin]

-- A value that stands in the FAT is a cluster with its bytes in the area.
theorem nextCluster_lt (v : Volume) (cluster : Nat) : v.nextCluster cluster < 4096 := by
  have hlow := (v.fat (u32 (cluster * 3) / 2)).toNat_lt
  have hhigh := (v.fat (u32 (cluster * 3) / 2 + 1)).toNat_lt
  unfold Volume.nextCluster
  dsimp only
  split <;> omega

theorem inArea_of_lt (h : cluster < 4096) : InArea cluster := by
  have harea : FAT_AREA = 59040 := rfl
  unfold InArea
  rw [u32_of_lt (by omega), harea]
  omega

theorem inArea_nextCluster (v : Volume) (cluster : Nat) : InArea (v.nextCluster cluster) :=
  inArea_of_lt (nextCluster_lt v cluster)

-- The chains that can be delivered stay in the area from their first cluster on.
theorem Chain.bounded {entry : DirectoryEntry} {chain : List Nat}
    (hdir : entry.attributes &&& FAT_ATTRIBUTE_DIRECTORY = 0)
    (h : entry.size.toNat = 0 ∨ Chain v entry.firstCluster chain)
    (henough : entry.size.toNat ≤ 512 * (v.bootSector.sectorsPerCluster.toNat * chain.length)) :
    entry.Bounded := by
  rcases h with hempty | hchain
  · exact .inr ⟨hdir, hempty⟩
  · cases hchain with
    | done hend =>
        rw [List.length_nil, Nat.mul_zero, Nat.mul_zero] at henough
        exact .inr ⟨hdir, Nat.le_zero.mp henough⟩
    | link hlo hhi _ => exact .inl (inArea_of_lt (by omega))

end Area

end ToyKernel.Fat
