import ToyKernel.Word
import Mathlib.Logic.Function.Basic

namespace ToyKernel.Fat

def SECTOR_SIZE : Nat := 512
def MAX_PATH_SIZE : Nat := 256
def MAX_FILE_HANDLES : Nat := 10
def MEMORY_FAT_SIZE : Nat := 0x10000
def FAT_ATTRIBUTE_VOLUME_ID : UInt8 := 0x08
def FAT_ATTRIBUTE_DIRECTORY : UInt8 := 0x10

-- sizeof(FAT_DirectoryEntry), and sizeof(FAT_Data) with its eleven FAT_FileData
def DIRECTORY_ENTRY_SIZE : Nat := 32
def FAT_DATA_SIZE : Nat := 512 + 11 * 544

abbrev Sector := Fin 512 → UInt8

def Sector.bytes (sector : Sector) : List UInt8 := List.ofFn sector

-- What one call of DISK_ReadSectors comes back with: its result, and the sectors that
-- stand at `dataOut` afterwards, after a failure whatever the BIOS left there.
structure Transfer where
  ok : Bool
  data : Nat → Sector

-- A call is named by the number of calls before it, so that reads may fail at any time.
abbrev Disk := (call lba sectors : Nat) → Transfer

section Layout

def le16 (bytes : List UInt8) (offset : Nat) : UInt16 :=
  (bytes.getD offset 0).toUInt16 + (bytes.getD (offset + 1) 0).toUInt16 * 256

def le32 (bytes : List UInt8) (offset : Nat) : UInt32 :=
  (le16 bytes offset).toUInt32 + (le16 bytes (offset + 2)).toUInt32 * 65536

structure BootSector where
  bytesPerSector : UInt16
  sectorsPerCluster : UInt8
  reservedSectors : UInt16
  fatCount : UInt8
  dirEntryCount : UInt16
  sectorsPerFat : UInt16
  deriving DecidableEq

def BootSector.ofBytes (bytes : List UInt8) : BootSector where
  bytesPerSector := le16 bytes 11
  sectorsPerCluster := bytes.getD 13 0
  reservedSectors := le16 bytes 14
  fatCount := bytes.getD 16 0
  dirEntryCount := le16 bytes 17
  sectorsPerFat := le16 bytes 22

namespace BootSector

-- | Reserved Sectors | File Allocation table 1 | File Allocation table 2 | Root Directory | Data section |
def rootDirLba (bs : BootSector) : Nat :=
  bs.reservedSectors.toNat + bs.sectorsPerFat.toNat * bs.fatCount.toNat

def rootDirSize (bs : BootSector) : Nat := DIRECTORY_ENTRY_SIZE * bs.dirEntryCount.toNat

def rootDirSectors (bs : BootSector) : Nat :=
  (bs.rootDirSize + bs.bytesPerSector.toNat - 1) / bs.bytesPerSector.toNat

end BootSector

structure DirectoryEntry where
  name : List UInt8
  attributes : UInt8
  firstClusterHigh : UInt16
  firstClusterLow : UInt16
  size : UInt32

def DirectoryEntry.ofBytes (bytes : List UInt8) : DirectoryEntry where
  name := bytes.take 11
  attributes := bytes.getD 11 0
  firstClusterHigh := le16 bytes 20
  firstClusterLow := le16 bytes 26
  size := le32 bytes 28

end Layout

-- FAT_FileData. Its Handle is the place the record has, see `Handle`.
structure FileData where
  buffer : Sector
  isDirectory : Bool
  position : Nat
  size : Nat
  opened : Bool
  firstCluster : Nat
  currentCluster : Nat
  currentSectorInCluster : Nat

def FileData.seek (fd : FileData) (position : Nat) : FileData := { fd with position }

-- ROOT_DIRECTORY_HANDLE, or an index into OpenedFiles.
inductive Handle where
  | root
  | file (slot : Fin 10)
  deriving DecidableEq

-- What FAT_Initialize fills in and nothing writes again. The bytes of `fat` behind the driver's memory
-- are not its own, see Fat/Area.
structure Volume where
  disk : Disk
  bootSector : BootSector
  fat : Nat → UInt8
  dataSectionLba : Nat

-- g_Data and the number of sector transfers so far.
structure State where
  volume : Volume
  rootDirectory : FileData
  openedFiles : Fin 10 → FileData
  calls : Nat

namespace State

def file (s : State) : Handle → FileData
  | .root => s.rootDirectory
  | .file slot => s.openedFiles slot

def setFile (s : State) (handle : Handle) (fd : FileData) : State :=
  match handle with
  | .root => { s with rootDirectory := fd }
  | .file slot => { s with openedFiles := Function.update s.openedFiles slot fd }

end State

namespace Volume

-- `cluster - 2` wraps below 2.
def clusterToLba (v : Volume) (cluster : Nat) : Nat :=
  u32 (v.dataSectionLba + u32 (cluster + 4294967294) * v.bootSector.sectorsPerCluster.toNat)

def nextCluster (v : Volume) (currentCluster : Nat) : Nat :=
  let fatIndex := u32 (currentCluster * 3) / 2
  let entry := (v.fat fatIndex).toNat + 256 * (v.fat (fatIndex + 1)).toNat
  if currentCluster % 2 = 0 then entry % 4096 else entry / 16

end Volume

-- A file record on its way through a call, with the count of transfers.
structure Reader where
  fd : FileData
  calls : Nat

namespace Reader

def load (r : Reader) (v : Volume) (lba : Nat) : Bool × Reader :=
  let transfer := v.disk r.calls lba 1
  (transfer.ok, { fd := { r.fd with buffer := transfer.data 0 }, calls := r.calls + 1 })

-- The step of FAT_Read from one sector to the next; `false` leaves the loop.
def nextSector (r : Reader) (v : Volume) (handle : Handle) : Bool × Reader :=
  match handle with
  | .root =>
      let cluster := u32 (r.fd.currentCluster + 1)
      { r with fd := { r.fd with currentCluster := cluster } }.load v cluster
  | .file _ =>
      let sector := u32 (r.fd.currentSectorInCluster + 1)
      let fd : FileData :=
        if sector ≥ v.bootSector.sectorsPerCluster.toNat then
          { r.fd with
            currentSectorInCluster := 0
            currentCluster := v.nextCluster r.fd.currentCluster }
        else { r.fd with currentSectorInCluster := sector }
      if fd.currentCluster ≥ 0xFF8 then (false, { r with fd := { fd with size := fd.position } })
      else { r with fd }.load v (u32 (v.clusterToLba fd.currentCluster + fd.currentSectorInCluster))

-- `memcpy(u8DataOut, Buffer + Position % SECTOR_SIZE, take)` and `Position += take`
def copy (r : Reader) (count : Nat) : List UInt8 :=
  (r.fd.buffer.bytes.drop (r.fd.position % SECTOR_SIZE)).take count

def skip (r : Reader) (count : Nat) : Reader :=
  { r with fd := { r.fd with position := u32 (r.fd.position + count) } }

def leftInBuffer (r : Reader) : Nat := SECTOR_SIZE - r.fd.position % SECTOR_SIZE

-- The loop of FAT_Read. A round takes at least one byte, so `byteCount` rounds suffice.
def readLoop (v : Volume) (handle : Handle) : (rounds byteCount : Nat) → Reader → List UInt8 × Reader
  | 0, _, r => ([], r)
  | rounds + 1, byteCount, r =>
      if byteCount = 0 then ([], r)
      else
        let take := min byteCount r.leftInBuffer
        let bytes := r.copy take
        let (goOn, r') :=
          if r.leftInBuffer = take then (r.skip take).nextSector v handle else (true, r.skip take)
        if goOn then
          let (rest, r'') := readLoop v handle rounds (byteCount - take) r'
          (bytes ++ rest, r'')
        else (bytes, r')

end Reader

-- `Size - Position` in 32 bits bounds every read but those of a directory without a size.
def FileData.clamp (fd : FileData) (byteCount : Nat) : Nat :=
  if fd.isDirectory = false ∨ fd.size ≠ 0 then
    min byteCount (u32 (fd.size + 4294967296 - fd.position))
  else byteCount

-- Why a call does not return: a NULL FAT_File is read, a path component overruns
-- `name[MAX_PATH_SIZE]`, or the rounds given to a search are not enough.
inductive Stuck where
  | nullFile
  | nameOverflow
  | outOfRounds
  deriving DecidableEq

namespace State

def read (s : State) (handle : Handle) (byteCount : Nat) : List UInt8 × State :=
  let fd := s.file handle
  let count := fd.clamp byteCount
  let (bytes, r) := Reader.readLoop s.volume handle count count { fd, calls := s.calls }
  (bytes, { s.setFile handle r.fd with calls := r.calls })

def readEntry (s : State) (handle : Handle) : Option DirectoryEntry × State :=
  let (bytes, s) := s.read handle DIRECTORY_ENTRY_SIZE
  (if bytes.length = DIRECTORY_ENTRY_SIZE then some (DirectoryEntry.ofBytes bytes) else none, s)

def close (s : State) : Handle → State
  | .root =>
      { s with
        rootDirectory := { s.rootDirectory with
          position := 0
          currentCluster := s.rootDirectory.firstCluster } }
  | .file slot => s.setFile (.file slot) { s.openedFiles slot with opened := false }

def freeHandle (s : State) : Option (Fin 10) :=
  (List.finRange 10).find? fun slot => !(s.openedFiles slot).opened

-- A read error leaves the record filled in but not opened.
def openEntry (s : State) (entry : DirectoryEntry) : Option Handle × State :=
  match s.freeHandle with
  | none => (none, s)
  | some slot =>
      let cluster := entry.firstClusterLow.toNat + entry.firstClusterHigh.toNat * 65536
      let fd : FileData :=
        { s.openedFiles slot with
          isDirectory := entry.attributes &&& FAT_ATTRIBUTE_DIRECTORY != 0
          position := 0
          size := entry.size.toNat
          firstCluster := cluster
          currentCluster := cluster
          currentSectorInCluster := 0 }
      let (ok, r) := Reader.load { fd, calls := s.calls } s.volume (s.volume.clusterToLba cluster)
      if ok then
        (some (.file slot),
          { s.setFile (.file slot) { r.fd with opened := true } with calls := r.calls })
      else (none, { s.setFile (.file slot) r.fd with calls := r.calls })

end State

section Names

def SPACE : UInt8 := 0x20
def DOT : UInt8 := 0x2E
def SLASH : UInt8 := 0x2F

def toupper (c : UInt8) : UInt8 := if 0x61 ≤ c ∧ c ≤ 0x7A then c - 0x20 else c

def padTo (width : Nat) (bytes : List UInt8) : List UInt8 :=
  bytes ++ List.replicate (width - bytes.length) SPACE

-- `ext` starts out as `name + 11` when there is no dot, and a dot found just there is
-- taken for none.
def fatName (name : List UInt8) : List UInt8 :=
  let ext := if DOT ∈ name then name.idxOf DOT else 11
  padTo 8 ((name.take (min 8 ext)).map toupper) ++
    padTo 3 (if ext ≠ 11 then ((name.drop (ext + 1)).take 3).map toupper else [])

end Names

namespace State

-- The search loop of FAT_FindFile; it ends with a match or with a short read.
def findFile (handle : Handle) (name : List UInt8) : (rounds : Nat) → State →
    Except Stuck (Option DirectoryEntry × State)
  | 0, _ => .error .outOfRounds
  | rounds + 1, s =>
      match s.readEntry handle with
      | (none, s) => .ok (none, s)
      | (some entry, s) =>
          if fatName name = entry.name then .ok (some entry, s)
          else findFile handle name rounds s

-- The loop of FAT_Open over what is left of the path, `length` bytes at most. The check
-- for a directory compares `entry.Attributes & (FAT_ATTRIBUTE_DIRECTORY == 0)`, which is
-- never set, so it never stops the loop.
def openLoop (rounds : Nat) : (length : Nat) → (path : List UInt8) → Option Handle → State →
    Except Stuck (Option Handle × State)
  | 0, _, current, s => .ok (current, s)
  | length + 1, path, current, s =>
      if path = [] then .ok (current, s)
      else
        let name := path.takeWhile (· ≠ SLASH)
        let rest := path.drop (name.length + 1)
        if name.length ≥ MAX_PATH_SIZE then .error .nameOverflow
        else match current with
          | none => .error .nullFile
          | some handle =>
              match findFile handle name rounds s with
              | .error e => .error e
              | .ok (none, s) => .ok (none, s.close handle)
              | .ok (some entry, s) =>
                  let (opened, s) := (s.close handle).openEntry entry
                  openLoop rounds length rest opened s

def skipSlash (path : List UInt8) : List UInt8 :=
  if path.head? = some SLASH then path.tail else path

-- FAT_Open with at most `rounds` entries read in each directory.
def openFile (s : State) (rounds : Nat) (path : List UInt8) : Except Stuck (Option Handle × State) :=
  openLoop rounds path.length (skipSlash path) (some .root) s

-- The text printed for one entry; a directory is followed by " <DIR>".
def listing (entry : DirectoryEntry) : List UInt8 :=
  (entry.name.take 8).takeWhile (· ≠ SPACE) ++
    (if entry.attributes &&& FAT_ATTRIBUTE_DIRECTORY = 0 then
      DOT :: ((entry.name.drop 8).take 3).takeWhile (· ≠ SPACE)
    else [0x20, 0x3C, 0x44, 0x49, 0x52, 0x3E]) ++ [0x0A]

def listLoop (handle : Handle) : (rounds : Nat) → State → Except Stuck (List UInt8 × State)
  | 0, _ => .error .outOfRounds
  | rounds + 1, s =>
      match s.readEntry handle with
      | (none, s) => .ok ([], s)
      | (some entry, s) =>
          if entry.name.head? = some 0x00 then .ok ([], s)
          else if entry.name.head? = some 0xE5 then listLoop handle rounds s
          else if entry.attributes &&& FAT_ATTRIBUTE_VOLUME_ID ≠ 0 then listLoop handle rounds s
          else match listLoop handle rounds s with
            | .error e => .error e
            | .ok (text, s) => .ok (listing entry ++ text, s)

def listDirectory (s : State) (rounds : Nat) (dir : Handle) : Except Stuck (List UInt8 × State) :=
  listLoop dir rounds (s.setFile dir ((s.file dir).seek 0))

end State

-- The failures FAT_Initialize reports, and the division it does not guard.
inductive InitError where
  | readBootSector
  | notEnoughMemory
  | readFat
  | readRootDirectory
  | divideByZero
  deriving DecidableEq

-- FAT_Initialize over memory that held the records `slots` and, from g_Fat on, `ram`.
def fatInitialize (disk : Disk) (slots : Fin 10 → FileData) (ram : Nat → UInt8) :
    Except InitError State :=
  let boot := disk 0 0 1
  let bs := BootSector.ofBytes (boot.data 0).bytes
  -- SectorsPerFat reaches DISK_ReadSectors as a `uint8_t`
  let fatSectors := bs.sectorsPerFat.toNat % 256
  let fat := disk 1 bs.reservedSectors.toNat fatSectors
  let root := disk 2 bs.rootDirLba 1
  if !boot.ok then .error .readBootSector
  else if FAT_DATA_SIZE + bs.bytesPerSector.toNat * bs.sectorsPerFat.toNat ≥ MEMORY_FAT_SIZE then
    .error .notEnoughMemory
  else if !fat.ok then .error .readFat
  else if !root.ok then .error .readRootDirectory
  else if bs.bytesPerSector = 0 then .error .divideByZero
  else .ok
    { volume :=
        { disk
          bootSector := bs
          fat := fun k =>
            if k < SECTOR_SIZE * fatSectors then
              fat.data (k / SECTOR_SIZE) ⟨k % SECTOR_SIZE, Nat.mod_lt _ (by decide)⟩
            else ram k
          dataSectionLba := bs.rootDirLba + bs.rootDirSectors }
      rootDirectory :=
        { buffer := root.data 0
          isDirectory := true
          position := 0
          size := bs.rootDirSize
          opened := true
          firstCluster := bs.rootDirLba
          currentCluster := bs.rootDirLba
          currentSectorInCluster := 0 }
      openedFiles := fun slot => { slots slot with opened := false }
      calls := 3 }

end ToyKernel.Fat
