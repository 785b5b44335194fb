import Mathlib.Algebra.GroupWithZero.Nat
import ToyKernel.Disk
import ToyKernel.Fat.Delivery
import ToyKernel.Library.Run

namespace ToyKernel.Fat

open Library

-- A transfer that the driver reports as done brought the sector.
def Truthful (disk : Disk) (content : Nat → Sector) (onDisk : Nat → Prop) : Prop :=
  ∀ call lba, onDisk lba → (disk call lba 1).ok = true → (disk call lba 1).data 0 = content lba

-- A file in the sectors of its chain, whatever its buffer holds.
structure FilePlace (v : Volume) (content : Nat → Sector) (onDisk : Nat → Prop) (fd : FileData)
    (lbas : List Nat) : Prop where
  ahead : FileAhead v content
    { fd with buffer := content (sectorLba v fd.currentCluster fd.currentSectorInCluster) } lbas
  onDisk : ∀ lba ∈ lbas, onDisk lba

-- A sector of the file that could not be read at some time
def SectorLost (v : Volume) (onDisk : Nat → Prop) : Prop :=
  ∃ call lba, onDisk lba ∧ (v.disk call lba 1).ok = false

-- The bytes that the call takes from the buffer first are those of the record's sector.
def BufferMatches (content : Nat → Sector) (handle : Handle) (s : State) (byteCount : Nat) : Prop :=
  let fd := s.file handle
  let sector := content (sectorLba s.volume fd.currentCluster fd.currentSectorInCluster)
  let take := min (fd.clamp byteCount) (SECTOR_SIZE - fd.position % SECTOR_SIZE)
  (fd.buffer.bytes.drop (fd.position % SECTOR_SIZE)).take take =
    (sector.bytes.drop (fd.position % SECTOR_SIZE)).take take

instance (content : Nat → Sector) (handle : Handle) (s : State) (byteCount : Nat) :
    Decidable (BufferMatches content handle s byteCount) :=
  inferInstanceAs (Decidable (_ = _))

section Track

variable {v : Volume} {content : Nat → Sector} {onDisk : Nat → Prop}

theorem FilePlace.head {fd : FileData} {lba : Nat} {rest : List Nat}
    (h : FilePlace v content onDisk fd (lba :: rest)) :
    sectorLba v fd.currentCluster fd.currentSectorInCluster = lba := by
  obtain ⟨_, _, he⟩ := h.ahead.row_cons
  exact (List.cons.inj he).1.symm

theorem fileTrack (hdisk : Truthful v.disk content onDisk) (slot : Fin 10) :
    Track v (.file slot) content (FilePlace v content onDisk) (SectorLost v onDisk) where
  position fd lbas p h :=
    ⟨⟨h.ahead.cluster_lo, h.ahead.cluster_hi, h.ahead.sector_lt, rfl, h.ahead.row⟩, h.onDisk⟩
  next r lba lba' rest h := by
    obtain ⟨cluster, sector, hnext, hahead⟩ := nextSector_file slot _ h.ahead
    have hon : onDisk lba' := h.onDisk _ (by simp)
    refine ⟨_, _, hnext, ⟨⟨hahead.cluster_lo, hahead.cluster_hi, hahead.sector_lt, rfl, hahead.row⟩,
      fun l hl => h.onDisk l (List.mem_cons_of_mem _ hl)⟩, ?_, ?_, rfl, rfl, rfl⟩
    · exact fun hok => hdisk r.calls lba' hon hok
    · exact fun hfail => ⟨r.calls, lba', hon, hfail⟩
  last r lba h := by
    obtain ⟨hposition, hsize, hdir⟩ := nextSector_file_last slot _ h.ahead
    exact ⟨hposition, .inr hsize, hdir⟩

end Track

section Calls

variable {content : Nat → Sector} {onDisk : Nat → Prop} {slot : Fin 10} {s : State}

-- One call: it gives some bytes from where the record stands, and they are the file's exactly
-- if those from the buffer are.
theorem read_yields (hdisk : Truthful s.volume.disk content onDisk)
    (hfile : (s.file (.file slot)).isDirectory = false) {data : List UInt8}
    (hc : Cursor content (FilePlace s.volume content onDisk) (s.file (.file slot)) data)
    (byteCount : Nat) :
    ∃ n, n ≤ (s.file (.file slot)).size - (s.file (.file slot)).position ∧
      (s.read (.file slot) byteCount).1.length = n ∧
      ((s.read (.file slot) byteCount).1 = data.take n ↔
        BufferMatches content (.file slot) s byteCount) ∧
      Cursor content (FilePlace s.volume content onDisk)
        ((s.read (.file slot) byteCount).2.file (.file slot)) (data.drop n) ∧
      ((s.read (.file slot) byteCount).2.file (.file slot)).position =
        (s.file (.file slot)).position + n ∧
      ((s.read (.file slot) byteCount).2.file (.file slot)).size = (s.file (.file slot)).size ∧
      ((s.read (.file slot) byteCount).2.file (.file slot)).isDirectory = false := by
  have hle := hc.position_le
  have henough := hc.enough
  have hclamp := FileData.clamp_eq (Or.inl hfile) hle hc.size_lt byteCount
  obtain ⟨n, hy, -⟩ := (fileTrack hdisk slot).readLoop
    ((s.file (.file slot)).clamp byteCount) ((s.file (.file slot)).clamp byteCount)
    { fd := s.file (.file slot), calls := s.calls } data hc (Nat.le_refl _) (by
      rw [hclamp]
      change (s.file (.file slot)).position + _ ≤ (s.file (.file slot)).size
      omega)
  have hn := hy.le
  have hfirst := hy.first
  have hbytes := hy.bytes_iff
  rw [file_read]
  refine ⟨n, by omega, ?_, ?_, hy.cursor, hy.position, hy.size, hy.isDirectory.trans hfile⟩
  · exact hy.length (by omega)
  · refine hbytes.trans (Eq.congr_right ?_)
    -- with bytes left the record stands in a sector of the file, else the call takes none
    by_cases hlt : (s.file (.file slot)).position < (s.file (.file slot)).size
    · obtain ⟨lba, rest, hahead, hdata⟩ := hc.split hlt
      have htake := Nat.min_le_right ((s.file (.file slot)).clamp byteCount)
        (Reader.leftInBuffer { fd := s.file (.file slot), calls := s.calls })
      rw [hdata, List.take_append_of_le_length, ← hahead.head]
      · rfl
      · rw [List.length_drop, Sector.length_bytes]
        exact htake
    · have hzero : (s.file (.file slot)).clamp byteCount = 0 := by omega
      simp [hzero]

-- The pieces make up a prefix of what is left of the file exactly if every call meets a
-- buffer that matches.
theorem reads_prefix_iff (hdisk : Truthful s.volume.disk content onDisk)
    (hfile : (s.file (.file slot)).isDirectory = false) {data : List UInt8}
    (hc : Cursor content (FilePlace s.volume content onDisk) (s.file (.file slot)) data)
    (counts : List Nat) :
    (s.reads (.file slot) counts).flatten <+:
        data.take ((s.file (.file slot)).size - (s.file (.file slot)).position) ↔
      AllSteps (fun s byteCount => (s.read (.file slot) byteCount).2)
        (BufferMatches content (.file slot)) s counts := by
  induction counts generalizing s data with
  | nil => simp [State.reads, AllSteps]
  | cons byteCount counts ih =>
      obtain ⟨n, hn, hlength, hbytes, hcursor, hposition, hsize, hdir⟩ :=
        read_yields hdisk hfile hc byteCount
      have hvolume := volume_read s (.file slot) byteCount
      have hrest := @ih (s.read (.file slot) byteCount).2 (by rw [hvolume]; exact hdisk) hdir
        (data.drop n) (by rw [hvolume]; exact hcursor)
      rw [hsize, hposition, Nat.sub_add_eq] at hrest
      have henough := hc.enough
      have hsplit : data.take ((s.file (.file slot)).size - (s.file (.file slot)).position) =
          data.take n ++
            (data.drop n).take ((s.file (.file slot)).size - (s.file (.file slot)).position - n) := by
        rw [← List.take_add, Nat.add_sub_cancel' hn]
      rw [State.reads, List.flatten_cons, AllSteps, ← hrest, ← hbytes, hsplit]
      apply List.prefix_append_inj_of_length_eq
      rw [hlength, List.length_take]
      omega

theorem served_sum_le (left : Nat) (counts : List Nat) : (served left counts).sum ≤ left := by
  induction counts generalizing left with
  | nil => exact Nat.zero_le _
  | cons byteCount counts ih =>
      have hrest := ih (left - min byteCount left)
      rw [served, List.sum_cons]
      omega

-- While every sector of the file can be read, the buffer holds the record's sector.
theorem fileStream_of_readable {v : Volume} (hdisk : Truthful v.disk content onDisk)
    (hread : ¬SectorLost v onDisk) :
    Stream v (.file slot) content fun fd lbas => FilePlace v content onDisk fd lbas ∧
      fd.buffer = content (sectorLba v fd.currentCluster fd.currentSectorInCluster) where
  buffer fd lba rest h := by rw [h.2, h.1.head]
  position fd lbas p h := ⟨(fileTrack hdisk slot).position fd lbas p h.1, h.2⟩
  next r lba lba' rest h := by
    obtain ⟨goOn, r', hnext, hahead, hbuffer, hlost, hsame⟩ := (fileTrack hdisk slot).next r lba lba' rest h.1
    obtain rfl : goOn = true := by
      cases goOn with
      | false => exact absurd (hlost rfl) hread
      | true => rfl
    exact ⟨r', hnext, ⟨hahead, by rw [hbuffer rfl, hahead.head]⟩, hsame⟩
  last r lba h := (fileTrack hdisk slot).last r lba h.1

end Calls

section Opened

variable {s s' : State} {disk : DISK} {bios : Bios} {content : Nat → Sector} {entry : DirectoryEntry}
  {handle : Handle} {chain : List Nat}

theorem truthful_readSectors (hbios : disk.Honest bios content) :
    Truthful (disk.readSectors bios) content disk.Addressable :=
  fun _ _ hlba hok => DISK.readSectors_data hbios hlba hok

-- A file that FAT_OpenEntry has opened on a disk that may fail at any time
structure OpenedFile (s : State) (disk : DISK) (bios : Bios) (content : Nat → Sector)
    (entry : DirectoryEntry) (handle : Handle) (chain : List Nat) (s' : State) : Prop where
  driver : s.volume.disk = disk.readSectors bios
  honest : disk.Honest bios content
  sectorsPerCluster : 1 ≤ s.volume.bootSector.sectorsPerCluster.toNat
  opened : s.openEntry entry = (some handle, s')
  file : entry.attributes &&& FAT_ATTRIBUTE_DIRECTORY = 0
  linked : entry.size.toNat = 0 ∨ Chain s.volume entry.firstCluster chain
  enough : entry.size.toNat ≤ 512 * (s.volume.bootSector.sectorsPerCluster.toNat * chain.length)
  onDisk : ∀ lba ∈ chainSectors s.volume chain, disk.Addressable lba

def fileContent (v : Volume) (content : Nat → Sector) (entry : DirectoryEntry) (chain : List Nat) :
    List UInt8 :=
  (sectorBytes content (chainSectors v chain)).take entry.size.toNat

theorem OpenedFile.cursor (h : OpenedFile s disk bios content entry handle chain s') :
    ∃ slot, handle = .file slot ∧ Truthful s'.volume.disk content disk.Addressable ∧
      (s'.file handle).isDirectory = false ∧ (s'.file handle).position = 0 ∧
      (s'.file handle).size = entry.size.toNat ∧
      Cursor content (FilePlace s'.volume content disk.Addressable) (s'.file handle)
        (sectorBytes content (chainSectors s.volume chain)) := by
  obtain ⟨slot, rfl, -, hvolume, hfile⟩ := openEntry_record h.opened
  refine ⟨slot, rfl, ?_, ?_, ?_, ?_, ?_⟩
  · rw [hvolume, h.driver]
    exact truthful_readSectors h.honest
  · rw [hfile]
    simp [h.file]
  · rw [hfile]
  · rw [hfile]
  · have henough := h.enough
    rw [hvolume, hfile]
    apply cursor_start rfl entry.size.toNat_lt
    · rw [length_chainSectors]
      exact henough
    · by_cases hz : entry.size.toNat = 0
      · exact .inl hz
      · have hne : chain ≠ [] := by
          rintro rfl
          rw [List.length_nil] at henough
          omega
        exact .inr ⟨fileAhead_first h.sectorsPerCluster (h.linked.resolve_left hz) hne rfl rfl, h.onDisk⟩

-- The first sector has come into the buffer when it could be read.
theorem OpenedFile.buffer (h : OpenedFile s disk bios content entry handle chain s')
    (hread : ¬SectorLost s'.volume disk.Addressable) {lba : Nat} {rest : List Nat}
    (hplace : FilePlace s'.volume content disk.Addressable (s'.file handle) (lba :: rest)) :
    (s'.file handle).buffer = content (sectorLba s'.volume (s'.file handle).currentCluster
      (s'.file handle).currentSectorInCluster) := by
  obtain ⟨slot, rfl, hdisk, -⟩ := h.cursor
  obtain ⟨_, hhandle, -, hvolume, hfile⟩ := openEntry_record h.opened
  have hhead := hplace.head
  have hlo := hplace.ahead.cluster_lo
  have hhi := hplace.ahead.cluster_hi
  rw [hfile] at hhead hlo hhi ⊢
  simp only at hhead hlo hhi ⊢
  rw [hhead, ← hvolume, clusterToLba_eq s'.volume hlo hhi, hhead]
  have hon : disk.Addressable lba := hplace.onDisk lba (by simp)
  apply hdisk s.calls lba hon
  by_contra hfail
  exact hread ⟨s.calls, lba, hon, Bool.not_eq_true _ |>.mp hfail⟩

-- Only after a failed read of a sector of the file can a call meet a buffer that does not match.
theorem OpenedFile.matches_of_readable (h : OpenedFile s disk bios content entry handle chain s')
    (hread : ¬SectorLost s'.volume disk.Addressable) (counts : List Nat) :
    AllSteps (fun s byteCount => (s.read handle byteCount).2) (BufferMatches content handle) s' counts := by
  obtain ⟨slot, rfl, hdisk, hfile, hposition, hsize, hc⟩ := h.cursor
  have hfresh : Cursor content (fun fd lbas => FilePlace s'.volume content disk.Addressable fd lbas ∧
      fd.buffer = content (sectorLba s'.volume fd.currentCluster fd.currentSectorInCluster))
      (s'.file (.file slot)) (sectorBytes content (chainSectors s.volume chain)) := by
    refine ⟨hc.position_le, hc.size_lt, hc.enough, hc.ahead.imp id ?_⟩
    rintro ⟨lbas, hne, hplace, hdata⟩
    cases lbas with
    | nil => exact absurd rfl hne
    | cons lba rest => exact ⟨lba :: rest, hne, ⟨hplace, h.buffer hread hplace⟩, hdata⟩
  obtain ⟨hlengths, hflatten⟩ :=
    reads_deliver (fileStream_of_readable hdisk hread) (.inl hfile) hfresh counts
  rw [← reads_prefix_iff hdisk hfile hc, List.prefix_iff_eq_take, List.take_take, Nat.min_eq_left]
  · exact hflatten
  · rw [List.length_flatten, hlengths]
    exact served_sum_le _ _

-- The pieces that FAT_Read returns are a prefix of the file exactly if every call finds the
-- record's sector in the bytes of the buffer that it takes.
theorem fatRead_prefix_iff (h : OpenedFile s disk bios content entry handle chain s') (counts : List Nat) :
    (s'.reads handle counts).flatten <+: fileContent s.volume content entry chain ↔
      AllSteps (fun s byteCount => (s.read handle byteCount).2) (BufferMatches content handle) s'
        counts := by
  obtain ⟨slot, rfl, hdisk, hfile, hposition, hsize, hc⟩ := h.cursor
  have hiff := reads_prefix_iff hdisk hfile hc counts
  rwa [hposition, hsize, Nat.sub_zero] at hiff

end Opened

section Sample

def floppy : DISK where
  id := 0
  sectors := 18
  heads := 2

-- The fifth call fails at all of its attempts, and leaves the buffer as it was.
def failingBios : Bios := fun call _ r =>
  if call = 4 then { ok := false, data := fun _ => sampleContent 4 }
  else
    { ok := true
      data := fun i => sampleContent ((r.cylinder * 2 + r.dh) * 18 + (r.sector - 1) + i) }

theorem failingBios_honest : floppy.Honest failingBios sampleContent := by
  intro call attempt r _ _ _ _ hok
  unfold failingBios at hok ⊢
  split at hok
  case isTrue => cases hok
  case isFalse hne => rw [if_neg hne]; rfl

def failingState : State :=
  { sampleState with
    volume := { sampleState.volume with disk := floppy.readSectors failingBios } }

theorem failingState_opened :
    OpenedFile failingState floppy failingBios sampleContent sampleEntry (.file 0) [2, 3]
      (failingState.openEntry sampleEntry).2 where
  driver := rfl
  honest := failingBios_honest
  sectorsPerCluster := by decide
  opened := by
    have hopen : (failingState.openEntry sampleEntry).1 = some (.file 0) := by decide +kernel
    exact Prod.ext hopen rfl
  file := by decide
  linked := by
    have hchain : Chain failingState.volume 2 [2, 3] := by
      refine .link (by decide) (by decide) (.link ?_ ?_ (.done ?_)) <;> decide +kernel
    exact .inr hchain
  enough := by decide +kernel
  onDisk := by
    have hsectors : chainSectors failingState.volume [2, 3] = [4, 5] := rfl
    intro lba hlba
    rw [hsectors] at hlba
    rcases List.mem_pair.mp hlba with rfl | rfl <;> constructor <;> decide

end Sample

theorem fatRead_prefix_iff_sample :
    ((failingState.openEntry sampleEntry).2.reads (.file 0) [512, 88]).flatten <+:
        fileContent failingState.volume sampleContent sampleEntry [2, 3] ↔
      AllSteps (fun s byteCount => (s.read (.file 0) byteCount).2)
        (BufferMatches sampleContent (.file 0)) (failingState.openEntry sampleEntry).2 [512, 88] :=
  fatRead_prefix_iff failingState_opened [512, 88]

-- The call after the failed one returns the sector before once more.
theorem not_fatRead_prefix_sample :
    ¬((failingState.openEntry sampleEntry).2.reads (.file 0) [512, 88]).flatten <+:
      fileContent failingState.volume sampleContent sampleEntry [2, 3] := by
  decide +kernel

end ToyKernel.Fat
