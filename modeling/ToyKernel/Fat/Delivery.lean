import ToyKernel.Fat.Read
import Mathlib.Data.List.Perm.Subperm

namespace ToyKernel.Fat

section Layout

-- The sector `index` of a cluster, and all sectors of one.
def sectorLba (v : Volume) (cluster index : Nat) : Nat :=
  u32 (v.dataSectionLba + (cluster - 2) * v.bootSector.sectorsPerCluster.toNat + index)

def clusterSectors (v : Volume) (cluster : Nat) : List Nat :=
  (List.range' 0 v.bootSector.sectorsPerCluster.toNat).map (sectorLba v cluster)

-- The clusters of a file from `cluster` on, up to an end mark.
inductive Chain (v : Volume) : Nat → List Nat → Prop
  | done {cluster : Nat} (hend : 0xFF8 ≤ cluster) : Chain v cluster []
  | link {cluster : Nat} {rest : List Nat} (hlo : 2 ≤ cluster) (hhi : cluster ≤ 0xFEF)
      (hrest : Chain v (v.nextCluster cluster) rest) : Chain v cluster (cluster :: rest)

section Length

variable {v : Volume} {cluster : Nat} {chain : List Nat}

theorem Chain.unique (h : Chain v cluster chain) {other : List Nat} (h' : Chain v cluster other) :
    chain = other := by
  induction h generalizing other with
  | done hend =>
      cases h' with
      | done _ => rfl
      | link _ hhi _ => omega
  | link hlo hhi hrest ih =>
      cases h' with
      | done hend => omega
      | link _ _ hrest' => rw [ih hrest']

-- Each cluster of a chain starts a chain itself, which is no longer.
theorem Chain.from_mem (h : Chain v cluster chain) {c : Nat} (hc : c ∈ chain) :
    2 ≤ c ∧ c ≤ 0xFEF ∧ ∃ rest, Chain v c rest ∧ rest.length ≤ chain.length := by
  induction h with
  | done _ => cases hc
  | link hlo hhi hrest ih =>
      rcases List.mem_cons.mp hc with rfl | hc
      · exact ⟨hlo, hhi, _, .link hlo hhi hrest, Nat.le_refl _⟩
      · obtain ⟨hlo', hhi', rest, hchain, hlen⟩ := ih hc
        exact ⟨hlo', hhi', rest, hchain, Nat.le_succ_of_le hlen⟩

-- So no cluster comes up twice.
theorem Chain.nodup (h : Chain v cluster chain) : chain.Nodup := by
  induction h with
  | done _ => exact List.nodup_nil
  | @link cluster rest hlo hhi hrest ih =>
      refine List.nodup_cons.mpr ⟨fun hmem => ?_, ih⟩
      obtain ⟨-, -, other, hother, hlen⟩ := hrest.from_mem hmem
      have hsame := hother.unique (.link hlo hhi hrest)
      rw [hsame, List.length_cons] at hlen
      omega

theorem Chain.length_le (h : Chain v cluster chain) : chain.length ≤ 4078 := by
  have hsub : chain ⊆ List.range' 2 4078 := by
    intro c hc
    obtain ⟨hlo, hhi, -⟩ := h.from_mem hc
    exact List.mem_range'_1.mpr ⟨hlo, by omega⟩
  have hlen := (List.Nodup.subperm h.nodup hsub).length_le
  rwa [List.length_range'] at hlen

end Length

def chainSectors (v : Volume) (chain : List Nat) : List Nat := chain.flatMap (clusterSectors v)

theorem length_chainSectors (v : Volume) (chain : List Nat) :
    (chainSectors v chain).length = v.bootSector.sectorsPerCluster.toNat * chain.length := by
  induction chain with
  | nil => rfl
  | cons cluster chain ih =>
      rw [chainSectors, List.flatMap_cons, List.length_append]
      change (clusterSectors v cluster).length + (chainSectors v chain).length = _
      rw [ih, clusterSectors, List.length_map, List.length_range', List.length_cons, Nat.mul_succ,
        Nat.add_comm]

-- FAT_ClusterToLba and the sum in FAT_Read, for the clusters a chain may have.
theorem clusterToLba_add (v : Volume) {cluster : Nat} (hlo : 2 ≤ cluster) (hhi : cluster ≤ 0xFEF)
    (index : Nat) : u32 (v.clusterToLba cluster + index) = sectorLba v cluster index := by
  have hsub : u32 (cluster + 4294967294) = cluster - 2 := by
    unfold u32
    omega
  unfold Volume.clusterToLba sectorLba
  rw [hsub, u32_add]

theorem clusterToLba_eq (v : Volume) {cluster : Nat} (hlo : 2 ≤ cluster) (hhi : cluster ≤ 0xFEF) :
    v.clusterToLba cluster = sectorLba v cluster 0 := by
  rw [← clusterToLba_add v hlo hhi 0, Nat.add_zero]
  unfold Volume.clusterToLba
  rw [u32_of_lt (u32_lt _)]

end Layout

section Files

-- A file in the sectors of its chain: what is left of the current cluster, then the
-- clusters after it.
structure FileAhead (v : Volume) (content : Nat → Sector) (fd : FileData) (lbas : List Nat) : Prop where
  cluster_lo : 2 ≤ fd.currentCluster
  cluster_hi : fd.currentCluster ≤ 0xFEF
  sector_lt : fd.currentSectorInCluster < v.bootSector.sectorsPerCluster.toNat
  buffer : fd.buffer = content (sectorLba v fd.currentCluster fd.currentSectorInCluster)
  row : ∃ rest, Chain v (v.nextCluster fd.currentCluster) rest ∧
    lbas = (List.range' fd.currentSectorInCluster
      (v.bootSector.sectorsPerCluster.toNat - fd.currentSectorInCluster)).map
        (sectorLba v fd.currentCluster) ++ chainSectors v rest

variable {v : Volume} {content : Nat → Sector}

-- The row begins with the sector in the buffer.
theorem FileAhead.row_cons {fd : FileData} {lbas : List Nat} (h : FileAhead v content fd lbas) :
    ∃ rest, Chain v (v.nextCluster fd.currentCluster) rest ∧
      lbas = sectorLba v fd.currentCluster fd.currentSectorInCluster ::
        ((List.range' (fd.currentSectorInCluster + 1)
          (v.bootSector.sectorsPerCluster.toNat - (fd.currentSectorInCluster + 1))).map
            (sectorLba v fd.currentCluster) ++ chainSectors v rest) := by
  have hlt := h.sector_lt
  obtain ⟨rest, hchain, he⟩ := h.row
  refine ⟨rest, hchain, ?_⟩
  rw [he, show v.bootSector.sectorsPerCluster.toNat - fd.currentSectorInCluster =
    v.bootSector.sectorsPerCluster.toNat - (fd.currentSectorInCluster + 1) + 1 by omega,
    List.range'_succ, List.map_cons, List.cons_append]

-- The step to the next sector, whatever the buffer holds: the record goes on to the next place
-- of the row, and that sector is loaded.
theorem nextSector_file (slot : Fin 10) {r : Reader} (buffer : Sector) {lba lba' : Nat} {rest : List Nat}
    (h : FileAhead v content { r.fd with buffer } (lba :: lba' :: rest)) :
    ∃ currentCluster currentSectorInCluster,
      r.nextSector v (.file slot) =
        Reader.load { r with fd := { r.fd with currentCluster, currentSectorInCluster } } v lba' ∧
      FileAhead v content
        { r.fd with buffer := content lba', currentCluster, currentSectorInCluster } (lba' :: rest) := by
  have hlt := h.sector_lt
  have hhi := h.cluster_hi
  have hspc := v.bootSector.sectorsPerCluster.toNat_lt
  obtain ⟨chain, hchain, he⟩ := h.row_cons
  have htail := (List.cons.inj he).2
  simp only at hlt hhi hchain htail
  have hu : u32 (r.fd.currentSectorInCluster + 1) = r.fd.currentSectorInCluster + 1 :=
    u32_of_lt (by omega)
  unfold Reader.nextSector
  simp only [hu]
  by_cases hsame : r.fd.currentSectorInCluster + 1 < v.bootSector.sectorsPerCluster.toNat
  · have hlba : lba' = sectorLba v r.fd.currentCluster (r.fd.currentSectorInCluster + 1) := by
      rw [show v.bootSector.sectorsPerCluster.toNat - (r.fd.currentSectorInCluster + 1) =
        v.bootSector.sectorsPerCluster.toNat - (r.fd.currentSectorInCluster + 2) + 1 by omega,
        List.range'_succ, List.map_cons, List.cons_append] at htail
      exact (List.cons.inj htail).1
    simp only [show ¬r.fd.currentSectorInCluster + 1 ≥ v.bootSector.sectorsPerCluster.toNat by omega,
      ite_false, show ¬r.fd.currentCluster ≥ 0xFF8 by omega]
    rw [clusterToLba_add v h.cluster_lo h.cluster_hi]
    exact ⟨r.fd.currentCluster, r.fd.currentSectorInCluster + 1, by rw [hlba], h.cluster_lo,
      h.cluster_hi, hsame, by rw [hlba], chain, hchain, htail⟩
  · have hlast : v.bootSector.sectorsPerCluster.toNat - (r.fd.currentSectorInCluster + 1) = 0 := by
      omega
    rw [hlast] at htail
    simp only [show r.fd.currentSectorInCluster + 1 ≥ v.bootSector.sectorsPerCluster.toNat by omega,
      ite_true]
    cases hchain with
    | done hend => simp [chainSectors] at htail
    | link hlo hhi hrest =>
        rename_i rest'
        have hlba : lba' = sectorLba v (v.nextCluster r.fd.currentCluster) 0 := by
          rw [List.range'_zero, List.map_nil, List.nil_append, chainSectors, List.flatMap_cons,
            clusterSectors, show v.bootSector.sectorsPerCluster.toNat =
              v.bootSector.sectorsPerCluster.toNat - 1 + 1 by omega,
            List.range'_succ, List.map_cons, List.cons_append] at htail
          exact (List.cons.inj htail).1
        simp only [show ¬v.nextCluster r.fd.currentCluster ≥ 0xFF8 by omega, ite_false]
        rw [clusterToLba_add v hlo hhi]
        refine ⟨v.nextCluster r.fd.currentCluster, 0, by rw [hlba], hlo, hhi, by change 0 < _; omega,
          by rw [hlba], rest', hrest, ?_⟩
        rw [htail]
        rfl

-- At the end of the row the chain ends, and the size is set to the position.
theorem nextSector_file_last (slot : Fin 10) {r : Reader} (buffer : Sector) {lba : Nat}
    (h : FileAhead v content { r.fd with buffer } [lba]) :
    (r.nextSector v (.file slot)).2.fd.position = r.fd.position ∧
      (r.nextSector v (.file slot)).2.fd.size = r.fd.position ∧
      (r.nextSector v (.file slot)).2.fd.isDirectory = r.fd.isDirectory := by
  have hlt := h.sector_lt
  have hspc := v.bootSector.sectorsPerCluster.toNat_lt
  obtain ⟨chain, hchain, he⟩ := h.row_cons
  have htail := (List.cons.inj he).2
  simp only at hlt hchain htail
  have hu : u32 (r.fd.currentSectorInCluster + 1) = r.fd.currentSectorInCluster + 1 :=
    u32_of_lt (by omega)
  have hnil := List.append_eq_nil_iff.mp htail.symm
  have hcount := congrArg List.length hnil.1
  rw [List.length_map, List.length_range', List.length_nil] at hcount
  unfold Reader.nextSector
  simp only [hu, show r.fd.currentSectorInCluster + 1 ≥ v.bootSector.sectorsPerCluster.toNat by omega,
    ite_true]
  cases hchain with
  | done hend =>
      simp only [show v.nextCluster r.fd.currentCluster ≥ 0xFF8 from hend, ite_true]
      exact ⟨trivial, trivial, trivial⟩
  | link hlo hhi hrest =>
      have hlen := congrArg List.length hnil.2
      rw [length_chainSectors, List.length_cons, List.length_nil, Nat.mul_succ] at hlen
      omega

theorem fileStream (hdisk : Reliable v.disk content) (slot : Fin 10) :
    Stream v (.file slot) content (FileAhead v content) where
  buffer fd lba rest h := by
    obtain ⟨_, _, he⟩ := h.row_cons
    rw [h.buffer, (List.cons.inj he).1]
  position fd lbas p h := ⟨h.cluster_lo, h.cluster_hi, h.sector_lt, h.buffer, h.row⟩
  next r lba lba' rest h := by
    obtain ⟨cluster, sector, hnext, hahead⟩ := nextSector_file slot r.fd.buffer h
    rw [hnext, Reader.load_eq hdisk]
    exact ⟨_, rfl, hahead, rfl, rfl, rfl⟩
  last r lba h := by
    obtain ⟨hposition, hsize, hdir⟩ := nextSector_file_last slot r.fd.buffer h
    exact ⟨hposition, .inr hsize, hdir⟩

end Files

section Root

-- The root directory in consecutive sectors.
structure RootAhead (content : Nat → Sector) (fd : FileData) (lbas : List Nat) : Prop where
  buffer : fd.buffer = content fd.currentCluster
  row : ∃ count, fd.currentCluster + count < 4294967295 ∧ lbas = List.range' fd.currentCluster (count + 1)

theorem rootStream {v : Volume} {content : Nat → Sector} (hdisk : Reliable v.disk content) :
    Stream v .root content (RootAhead content) where
  buffer fd lba rest h := by
    obtain ⟨count, _, he⟩ := h.row
    rw [List.range'_succ] at he
    rw [h.buffer, (List.cons.inj he).1]
  position fd lbas p h := ⟨h.buffer, h.row⟩
  next r lba lba' rest h := by
    obtain ⟨count, hlt, he⟩ := h.row
    rw [List.range'_succ] at he
    have htail := (List.cons.inj he).2
    have hu : u32 (r.fd.currentCluster + 1) = r.fd.currentCluster + 1 := u32_of_lt (by omega)
    simp only [Reader.nextSector, hu, Reader.load_eq hdisk]
    cases count with
    | zero => cases htail
    | succ count =>
        exact ⟨_, rfl, ⟨rfl, count, by simp only; omega, htail⟩, rfl, rfl, rfl⟩
  last r lba h := by
    simp only [Reader.nextSector, Reader.load_eq hdisk]
    exact ⟨trivial, Or.inl trivial, trivial⟩

end Root

section Start

-- The record FAT_Initialize leaves for the root directory.
theorem fatInitialize_ok {disk : Disk} {slots : Fin 10 → FileData} {ram : Nat → UInt8} {s : State}
    (h : fatInitialize disk slots ram = .ok s) :
    s.volume.disk = disk ∧
      s.volume.bootSector = BootSector.ofBytes ((disk 0 0 1).data 0).bytes ∧
      (∀ slot, (s.openedFiles slot).opened = false) ∧
      s.rootDirectory =
        { buffer := (disk 2 s.volume.bootSector.rootDirLba 1).data 0
          isDirectory := true
          position := 0
          size := s.volume.bootSector.rootDirSize
          opened := true
          firstCluster := s.volume.bootSector.rootDirLba
          currentCluster := s.volume.bootSector.rootDirLba
          currentSectorInCluster := 0 } := by
  simp only [fatInitialize] at h
  split at h
  · cases h
  split at h
  · cases h
  split at h
  · cases h
  split at h
  · cases h
  split at h
  · cases h
  cases h
  exact ⟨rfl, rfl, fun _ => rfl, rfl⟩

def DirectoryEntry.firstCluster (entry : DirectoryEntry) : Nat :=
  entry.firstClusterLow.toNat + entry.firstClusterHigh.toNat * 65536

-- The record FAT_OpenEntry fills in once the first sector has been read.
theorem openEntry_record {s s' : State} {entry : DirectoryEntry} {handle : Handle}
    (h : s.openEntry entry = (some handle, s')) :
    ∃ slot, handle = .file slot ∧ s.freeHandle = some slot ∧ s'.volume = s.volume ∧
      s'.file handle =
        { buffer := (s.volume.disk s.calls (s.volume.clusterToLba entry.firstCluster) 1).data 0
          isDirectory := entry.attributes &&& FAT_ATTRIBUTE_DIRECTORY != 0
          position := 0
          size := entry.size.toNat
          opened := true
          firstCluster := entry.firstCluster
          currentCluster := entry.firstCluster
          currentSectorInCluster := 0 } := by
  unfold State.openEntry at h
  cases hfree : s.freeHandle with
  | none =>
      rw [hfree] at h
      cases h
  | some slot =>
      simp only [hfree] at h
      split at h
      case isTrue hok =>
        cases h
        exact ⟨slot, rfl, rfl, rfl, Function.update_self slot _ s.openedFiles⟩
      case isFalse => cases h

theorem openEntry_some {s s' : State} {content : Nat → Sector} (hdisk : Reliable s.volume.disk content)
    {entry : DirectoryEntry} {handle : Handle} (h : s.openEntry entry = (some handle, s')) :
    ∃ slot, handle = .file slot ∧ s.freeHandle = some slot ∧ s'.volume = s.volume ∧
      s'.file handle =
        { buffer := content (s.volume.clusterToLba entry.firstCluster)
          isDirectory := entry.attributes &&& FAT_ATTRIBUTE_DIRECTORY != 0
          position := 0
          size := entry.size.toNat
          opened := true
          firstCluster := entry.firstCluster
          currentCluster := entry.firstCluster
          currentSectorInCluster := 0 } := by
  obtain ⟨slot, hhandle, hfree, hvolume, hfile⟩ := openEntry_record h
  have hdata := hdisk.data s.calls (s.volume.clusterToLba entry.firstCluster) 1 0 (by omega)
  rw [Nat.add_zero] at hdata
  rw [hdata] at hfile
  exact ⟨slot, hhandle, hfree, hvolume, hfile⟩

-- A record at the first cluster of a chain has all of its sectors ahead.
theorem fileAhead_first {v : Volume} {content : Nat → Sector}
    (hspc : 1 ≤ v.bootSector.sectorsPerCluster.toNat) {fd : FileData} {chain : List Nat}
    (hchain : Chain v fd.currentCluster chain) (hne : chain ≠ []) (hsector : fd.currentSectorInCluster = 0)
    (hbuffer : fd.buffer = content (sectorLba v fd.currentCluster 0)) :
    FileAhead v content fd (chainSectors v chain) := by
  generalize hfirst : fd.currentCluster = first at hchain hbuffer
  cases hchain with
  | done _ => exact absurd rfl hne
  | @link _ rest hlo hhi hrest =>
      refine ⟨by rw [hfirst]; exact hlo, by rw [hfirst]; exact hhi, by omega, ?_, rest, ?_, ?_⟩
      · rw [hbuffer, hfirst, hsector]
      · rw [hfirst]
        exact hrest
      · rw [hfirst, hsector]
        rfl

-- A file at its start
theorem cursor_start {content : Nat → Sector} {Ahead : FileData → List Nat → Prop} {fd : FileData}
    {lbas : List Nat} (hposition : fd.position = 0) (hsize : fd.size < 4294967296)
    (henough : fd.size ≤ 512 * lbas.length) (hahead : fd.size = 0 ∨ Ahead fd lbas) :
    Cursor content Ahead fd (sectorBytes content lbas) := by
  refine ⟨by omega, hsize, ?_, ?_⟩
  · rw [length_sectorBytes]
    omega
  · rcases hahead with hz | hahead
    · exact .inl (by omega)
    · by_cases hz : fd.size = 0
      · exact .inl (by omega)
      · refine .inr ⟨lbas, ?_, hahead, by rw [hposition]; rfl⟩
        rintro rfl
        rw [List.length_nil] at henough
        omega

theorem fileCursor {s s' : State} {content : Nat → Sector} (hdisk : Reliable s.volume.disk content)
    (hspc : 1 ≤ s.volume.bootSector.sectorsPerCluster.toNat) {entry : DirectoryEntry} {handle : Handle}
    (h : s.openEntry entry = (some handle, s')) {chain : List Nat}
    (hchain : entry.size.toNat = 0 ∨ Chain s.volume entry.firstCluster chain)
    (henough : entry.size.toNat ≤
      512 * (s.volume.bootSector.sectorsPerCluster.toNat * chain.length)) :
    Cursor content (FileAhead s.volume content) (s'.file handle)
      (sectorBytes content (chainSectors s.volume chain)) := by
  obtain ⟨slot, -, -, -, hfile⟩ := openEntry_some hdisk h
  have hsize := entry.size.toNat_lt
  have hempty : chain = [] → entry.size.toNat = 0 := by
    rintro rfl
    rw [List.length_nil] at henough
    omega
  rw [hfile]
  apply cursor_start rfl hsize
  · rw [length_chainSectors]
    exact henough
  · by_cases hz : entry.size.toNat = 0
    · exact .inl hz
    · have hc := hchain.resolve_left hz
      refine .inr (fileAhead_first hspc hc (fun hnil => hz (hempty hnil)) rfl ?_)
      obtain ⟨hlo, hhi⟩ : 2 ≤ entry.firstCluster ∧ entry.firstCluster ≤ 0xFEF := by
        cases hc with
        | done _ => exact absurd (hempty rfl) hz
        | link hlo hhi _ => exact ⟨hlo, hhi⟩
      rw [← clusterToLba_eq s.volume hlo hhi]

theorem rootCursor {disk : Disk} {content : Nat → Sector} (hdisk : Reliable disk content)
    {slots : Fin 10 → FileData} {ram : Nat → UInt8} {s : State}
    (h : fatInitialize disk slots ram = .ok s)
    (hbytes : s.volume.bootSector.bytesPerSector = 512)
    (hentries : 1 ≤ s.volume.bootSector.dirEntryCount.toNat) :
    Cursor content (RootAhead content) (s.file .root) (sectorBytes content
      (List.range' s.volume.bootSector.rootDirLba s.volume.bootSector.rootDirSectors)) := by
  obtain ⟨_, _, _, hroot⟩ := fatInitialize_ok h
  have hcount := s.volume.bootSector.dirEntryCount.toNat_lt
  have hreserved := s.volume.bootSector.reservedSectors.toNat_lt
  have hfat := s.volume.bootSector.sectorsPerFat.toNat_lt
  have hcopies := s.volume.bootSector.fatCount.toNat_lt
  have hproduct : s.volume.bootSector.sectorsPerFat.toNat * s.volume.bootSector.fatCount.toNat ≤
      65535 * 255 := Nat.mul_le_mul (by omega) (by omega)
  have hsize : s.volume.bootSector.rootDirSize = 32 * s.volume.bootSector.dirEntryCount.toNat := rfl
  have hsectors : s.volume.bootSector.rootDirSectors =
      (s.volume.bootSector.rootDirSize + 512 - 1) / 512 := by
    unfold BootSector.rootDirSectors
    rw [hbytes]
    rfl
  have hlba : s.volume.bootSector.rootDirLba < 16777216 := by
    unfold BootSector.rootDirLba
    omega
  change Cursor content (RootAhead content) s.rootDirectory _
  rw [hroot]
  refine ⟨Nat.zero_le _, ?_, ?_, Or.inr ⟨_, ?_, ⟨?_, ?_⟩, (List.drop_zero).symm⟩⟩
  · change s.volume.bootSector.rootDirSize < _
    omega
  · rw [length_sectorBytes, List.length_range']
    change s.volume.bootSector.rootDirSize - 0 ≤ _
    omega
  · intro hnil
    have hlen := congrArg List.length hnil
    rw [List.length_range', List.length_nil] at hlen
    omega
  · exact hdisk.data _ _ 1 0 (by omega)
  · refine ⟨s.volume.bootSector.rootDirSectors - 1, ?_, ?_⟩
    · change s.volume.bootSector.rootDirLba + _ < _
      omega
    · rw [Nat.sub_add_cancel (by omega)]

end Start

-- FAT_Read delivers a file from the sectors of its chain, however the reading is split
-- into calls, and the root directory from the sectors after the tables.
theorem fatRead_delivers (content : Nat → Sector) :
    (∀ (s s' : State) (entry : DirectoryEntry) (handle : Handle) (chain : List Nat),
      Reliable s.volume.disk content → 1 ≤ s.volume.bootSector.sectorsPerCluster.toNat →
      s.openEntry entry = (some handle, s') → entry.attributes &&& FAT_ATTRIBUTE_DIRECTORY = 0 →
      (entry.size.toNat = 0 ∨ Chain s.volume entry.firstCluster chain) →
      entry.size.toNat ≤ 512 * (s.volume.bootSector.sectorsPerCluster.toNat * chain.length) →
      ∀ counts, Delivers (s'.reads handle counts) entry.size.toNat counts
        (sectorBytes content (chainSectors s.volume chain))) ∧
    (∀ (disk : Disk) (slots : Fin 10 → FileData) (ram : Nat → UInt8) (s : State),
      Reliable disk content → fatInitialize disk slots ram = .ok s →
      s.volume.bootSector.bytesPerSector = 512 → 1 ≤ s.volume.bootSector.dirEntryCount.toNat →
      ∀ counts, Delivers (s.reads .root counts) (32 * s.volume.bootSector.dirEntryCount.toNat) counts
        (sectorBytes content
          (List.range' s.volume.bootSector.rootDirLba s.volume.bootSector.rootDirSectors))) := by
  refine ⟨?_, ?_⟩
  · intro s s' entry handle chain hdisk hspc hopen hdir hchain henough counts
    obtain ⟨slot, rfl, _, hvolume, hfile⟩ := openEntry_some hdisk hopen
    have hcursor := fileCursor hdisk hspc hopen hchain henough
    have hstream : Stream s'.volume (.file slot) content (FileAhead s.volume content) := by
      rw [hvolume]
      exact fileStream hdisk slot
    have hdelivers := reads_deliver hstream (Or.inl (by rw [hfile]; simp [hdir])) hcursor counts
    rw [hfile] at hdelivers
    exact hdelivers
  · intro disk slots ram s hdisk hinit hbytes hentries counts
    obtain ⟨hd, _, _, hroot⟩ := fatInitialize_ok hinit
    have hcursor := rootCursor hdisk hinit hbytes hentries
    have hstream : Stream s.volume .root content (RootAhead content) :=
      rootStream (by rw [hd]; exact hdisk)
    have hsized : (s.file .root).size ≠ 0 := by
      change s.rootDirectory.size ≠ 0
      rw [hroot]
      change 32 * _ ≠ 0
      omega
    have hdelivers := reads_deliver hstream (Or.inr hsized) hcursor counts
    have hleft : (s.file .root).size - (s.file .root).position =
        32 * s.volume.bootSector.dirEntryCount.toNat := by
      change s.rootDirectory.size - s.rootDirectory.position = _
      rw [hroot]
      rfl
    rw [hleft] at hdelivers
    exact hdelivers

section Sample

-- A disk with a two-sector root directory, whose first entry is a file A of 600 bytes
-- in the clusters 2 and 3.
def sampleContent (lba : Nat) : Sector := fun i =>
  match lba with
  | 0 => [0, 0, 0, 0, 0, 0, 0, 0, 0, 0, 0, 0, 2, 1, 1, 0, 1, 32, 0, 0, 0, 0, 1, 0].getD i 0
  | 1 => [0xF8, 0xFF, 0xFF, 0x03, 0xF0, 0xFF].getD i 0
  | 2 =>
      [0x41, 32, 32, 32, 32, 32, 32, 32, 32, 32, 32, 0x20, 0, 0, 0, 0, 0, 0, 0, 0, 0, 0, 0, 0, 0, 0,
        2, 0, 0x58, 0x02, 0, 0].getD i 0
  | 4 => 1
  | 5 => 2
  | _ => 0

def sampleDisk : Disk := fun _ lba _ => { ok := true, data := fun i => sampleContent (lba + i) }

theorem sampleDisk_reliable : Reliable sampleDisk sampleContent := ⟨fun _ _ _ => rfl, fun _ _ _ _ _ => rfl⟩

def sampleSlots : Fin 10 → FileData := fun _ =>
  { buffer := fun _ => 0
    isDirectory := false
    position := 0
    size := 0
    opened := false
    firstCluster := 0
    currentCluster := 0
    currentSectorInCluster := 0 }

def sampleBootSector : BootSector where
  bytesPerSector := 512
  sectorsPerCluster := 1
  reservedSectors := 1
  fatCount := 1
  dirEntryCount := 32
  sectorsPerFat := 1

theorem mod_sectorSize_lt (k : Nat) : k % SECTOR_SIZE < SECTOR_SIZE := Nat.mod_lt k (by decide)

def sampleState : State where
  volume :=
    { disk := sampleDisk
      bootSector := sampleBootSector
      fat := fun k =>
        if k < SECTOR_SIZE * 1 then
          sampleContent (1 + k / SECTOR_SIZE) ⟨k % SECTOR_SIZE, mod_sectorSize_lt k⟩
        else 0
      dataSectionLba := 4 }
  rootDirectory :=
    { buffer := sampleContent 2
      isDirectory := true
      position := 0
      size := 1024
      opened := true
      firstCluster := 2
      currentCluster := 2
      currentSectorInCluster := 0 }
  openedFiles := sampleSlots
  calls := 3

theorem sampleBootSector_eq :
    BootSector.ofBytes ((sampleDisk 0 0 1).data 0).bytes = sampleBootSector := by
  decide +kernel

theorem fatInitialize_sample : fatInitialize sampleDisk sampleSlots (fun _ => 0) = .ok sampleState := by
  unfold fatInitialize
  simp only [sampleBootSector_eq]
  rfl

def sampleEntry : DirectoryEntry where
  name := [0x41, 32, 32, 32, 32, 32, 32, 32, 32, 32, 32]
  attributes := 0x20
  firstClusterHigh := 0
  firstClusterLow := 2
  size := 600

end Sample

theorem fatRead_delivers_sample :
    (∀ counts, Delivers ((sampleState.openEntry sampleEntry).2.reads (.file 0) counts) 600 counts
      (sectorBytes sampleContent [4, 5])) ∧
    (∀ counts, Delivers (sampleState.reads .root counts) 1024 counts
      (sectorBytes sampleContent [2, 3])) := by
  refine ⟨?_, ?_⟩
  · have hopen : (sampleState.openEntry sampleEntry).1 = some (.file 0) := by decide +kernel
    have hchain : Chain sampleState.volume 2 [2, 3] := by
      refine .link (by decide) (by decide) (.link ?_ ?_ (.done ?_)) <;> decide +kernel
    exact (fatRead_delivers sampleContent).1 sampleState _ sampleEntry (.file 0) [2, 3]
      sampleDisk_reliable (by decide) (Prod.ext hopen rfl) (by decide) (Or.inr hchain) (by decide)
  · exact (fatRead_delivers sampleContent).2 sampleDisk sampleSlots (fun _ => 0) sampleState
      sampleDisk_reliable fatInitialize_sample rfl (by decide)

end ToyKernel.Fat
