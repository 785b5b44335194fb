import ToyKernel.Library.Nibbles
import ToyKernel.Stage1

namespace ToyKernel.Stage1

open Library ByteMemory Fat

section Image

-- The bytes of the sectors
abbrev Image := (lba offset : Nat) → BitVec 8

def fatByte (image : Image) (k : Nat) : BitVec 8 :=
  image (RESERVED_SECTORS + k / BYTES_PER_SECTOR) (k % BYTES_PER_SECTOR)

def fatEntry (image : Image) (cluster : Nat) : Nat := entry12 (fun k => (fatByte image k).toNat) cluster

-- Behind the two FATs and the root directory
def DATA_LBA : Nat :=
  RESERVED_SECTORS + FAT_COUNT * SECTORS_PER_FAT + 32 * DIR_ENTRIES_COUNT / BYTES_PER_SECTOR

def dataSector (cluster : Nat) : Nat := DATA_LBA + (cluster - 2)

-- The chain of a file: data clusters, each with the next one in its entry of the FAT, and an
-- end-of-chain mark in the last one's
structure IsChain (image : Image) (chain : List Nat) : Prop where
  nonempty : chain ≠ []
  data : ∀ c ∈ chain, 2 ≤ c ∧ dataSector c < TOTAL_SECTORS
  links : ∀ i c c', chain[i]? = some c → chain[i + 1]? = some c' → fatEntry image c = c'
  ends : ∀ i c, chain[i]? = some c → i + 1 = chain.length → 0xFF8 ≤ fatEntry image c

end Image

section Bios

-- A read that does not go beyond a track of the disk
def OnDisk (r : DiskRegisters) : Prop :=
  1 ≤ r.sector ∧ r.sector + r.al ≤ SECTORS_PER_TRACK + 1 ∧ r.dh < HEADS ∧
    (r.cylinder * HEADS + r.dh + 1) * SECTORS_PER_TRACK ≤ TOTAL_SECTORS

def lba (r : DiskRegisters) : Nat :=
  (r.cylinder * HEADS + r.dh) * SECTORS_PER_TRACK + (r.sector - 1)

-- No read fails, and each brings the sectors that the registers name. Above the data of the BIOS
-- nothing else changes but what is pushed in the page under 0x7C00.
structure Reads (bios : Int13) (image : Image) : Prop where
  succeeds : ∀ call m r bx, OnDisk r → (bios.read call m r bx).2 = false
  data : ∀ call m r bx, OnDisk r → bx + BYTES_PER_SECTOR * r.al ≤ 65536 → ∀ i < r.al,
    ∀ j < BYTES_PER_SECTOR,
      (bios.read call m r bx).1 (bx + BYTES_PER_SECTOR * i + j) = image (lba r + i) j
  kept : ∀ call m r bx, OnDisk r → bx + BYTES_PER_SECTOR * r.al ≤ 65536 → ∀ a, 0x500 ≤ a →
    a < 0x7B00 ∨ ORIGIN ≤ a → a < bx ∨ bx + BYTES_PER_SECTOR * r.al ≤ a →
      (bios.read call m r bx).1 a = m a

variable {bios : Int13} {image : Image} {m : Memory} {calls ax cl dl bx : Nat}

-- The registers for an address on the disk, and what they name
theorem lbaToChs_eq (hdisk : ax < TOTAL_SECTORS) :
    lbaToChs SECTORS_PER_TRACK HEADS ax =
      (ax / SECTORS_PER_TRACK / HEADS, ax % SECTORS_PER_TRACK + 1, ax / SECTORS_PER_TRACK % HEADS) := by
  unfold TOTAL_SECTORS at hdisk
  unfold lbaToChs SECTORS_PER_TRACK HEADS
  have hhigh : ax / 18 / 2 / 256 * 64 % 256 = 0 := by omega
  have hsector : (ax % 18 + 1) % 65536 % 256 = ax % 18 + 1 := by omega
  simp only [hhigh, hsector, Nat.or_zero, Prod.mk.injEq, true_and]
  omega

theorem registers_spec (dl al : Nat) (hax : ax % SECTORS_PER_TRACK + al ≤ SECTORS_PER_TRACK)
    (hdisk : ax < TOTAL_SECTORS) :
    let r : DiskRegisters :=
      { dl, ch := ax / SECTORS_PER_TRACK / HEADS, cl := ax % SECTORS_PER_TRACK + 1,
        dh := ax / SECTORS_PER_TRACK % HEADS, al }
    OnDisk r ∧ lba r = ax := by
  unfold TOTAL_SECTORS SECTORS_PER_TRACK at *
  simp only [OnDisk, lba, DiskRegisters.sector, DiskRegisters.cylinder, SECTORS_PER_TRACK, HEADS,
    TOTAL_SECTORS]
  omega

theorem retry_succeeds {r : DiskRegisters} (di : Nat) (h : (bios.read calls m r bx).2 = false) :
    retry bios r bx (di + 1) m calls = some ((bios.read calls m r bx).1, calls + 1) := if_pos h

-- `disk_read` for sectors of one track
theorem diskRead_spec (hreads : Reads bios image) (hcl : cl < 256)
    (hax : ax % SECTORS_PER_TRACK + cl ≤ SECTORS_PER_TRACK) (hdisk : ax < TOTAL_SECTORS)
    (hbx : bx + BYTES_PER_SECTOR * cl ≤ 65536) :
    ∃ m', diskRead bios m calls ax cl dl bx = some (m', calls + 1) ∧
      (∀ i < cl, ∀ j < BYTES_PER_SECTOR, m' (bx + BYTES_PER_SECTOR * i + j) = image (ax + i) j) ∧
      ∀ a, 0x500 ≤ a → a < 0x7B00 ∨ ORIGIN ≤ a → a < bx ∨ bx + BYTES_PER_SECTOR * cl ≤ a →
        m' a = m a := by
  obtain ⟨hdisk', hlba⟩ := registers_spec dl cl hax hdisk
  unfold diskRead
  rw [lbaToChs_eq hdisk, Nat.mod_eq_of_lt hcl]
  refine ⟨_, retry_succeeds 2 (hreads.succeeds calls m _ bx hdisk'), ?_, ?_⟩
  · intro i hi j hj
    rw [hreads.data calls m _ bx hdisk' hbx i hi j hj, hlba]
  · exact hreads.kept calls m _ bx hdisk' hbx

end Bios

section Loop

variable {bios : Int13} (drive : Nat) {image : Image} {chain : List Nat} {i : Nat} {l l' : Loader}

-- Before the round for the cluster number `i`: the FAT is in `buffer`, and the sectors of the
-- clusters before are one behind the other from 0x500 on.
structure Loading (image : Image) (chain : List Nat) (i : Nat) (l : Loader) : Prop where
  bx : l.bx = STAGE2_LOAD_OFFSET + BYTES_PER_SECTOR * i
  loads : l.loads = (List.range i).map fun n => STAGE2_LOAD_OFFSET + BYTES_PER_SECTOR * n
  fat : ∀ k < BYTES_PER_SECTOR * SECTORS_PER_FAT, l.memory (BUFFER + k) = fatByte image k
  data : ∀ n < i, ∀ c, chain[n]? = some c → ∀ j < BYTES_PER_SECTOR,
    l.memory (STAGE2_LOAD_OFFSET + BYTES_PER_SECTOR * n + j) = image (dataSector c) j

theorem Loading.setCluster (h : Loading image chain i l) (cluster : Nat) :
    Loading image chain i { l with stage2Cluster := cluster } := ⟨h.bx, h.loads, h.fat, h.data⟩

theorem dataSector_eq {c : Nat} (hc : 2 ≤ c) : dataSector c = c + 31 := by
  unfold dataSector DATA_LBA RESERVED_SECTORS FAT_COUNT SECTORS_PER_FAT DIR_ENTRIES_COUNT
    BYTES_PER_SECTOR
  omega

-- The value in the FAT that is in `buffer`
theorem nextCluster_eq (h : l.stage2Cluster < 4096) :
    l.nextCluster = entry12 (fun k => (l.memory (BUFFER + k)).toNat) l.stage2Cluster := by
  have hindex : (BUFFER + l.stage2Cluster * 3 / 2) % 65536 = BUFFER + 3 * l.stage2Cluster / 2 := by
    rw [Nat.mul_comm]
    exact Nat.mod_eq_of_lt (by unfold BUFFER; omega)
  have hparity : l.stage2Cluster * 3 % 2 = 0 ↔ l.stage2Cluster % 2 = 0 := by omega
  unfold Loader.nextCluster
  rw [entry12_eq fun k => (l.memory (BUFFER + k)).isLt]
  simp only [load16, hindex, hparity, Nat.shiftRight_eq_div_pow, Nat.add_assoc]
  exact congrArg (fun e => if l.stage2Cluster % 2 = 0 then e else _) (Nat.and_two_pow_sub_one_eq_mod _ 12)

theorem nextCluster_spec (h : Loading image chain i l)
    (hdata : 2 ≤ l.stage2Cluster ∧ dataSector l.stage2Cluster < TOTAL_SECTORS) :
    l.nextCluster = fatEntry image l.stage2Cluster := by
  obtain ⟨hlow, hhigh⟩ := hdata
  rw [dataSector_eq hlow] at hhigh
  unfold TOTAL_SECTORS at hhigh
  have hfat := h.fat
  unfold BYTES_PER_SECTOR SECTORS_PER_FAT at hfat
  rw [nextCluster_eq (by omega)]
  exact entry12_congr fun k _ _ => congrArg BitVec.toNat (hfat k (by omega))

-- A round's read, while the sector ends at 0x7B00 or below
theorem readCluster_spec (hreads : Reads bios image) (hcluster : chain[i]? = some l.stage2Cluster)
    (hdata : 2 ≤ l.stage2Cluster ∧ dataSector l.stage2Cluster < TOTAL_SECTORS)
    (h : Loading image chain i l) (hi : i ≤ 59) :
    ∃ l', l.readCluster bios drive = some l' ∧ l'.bx = l.bx ∧ l'.stage2Cluster = l.stage2Cluster ∧
      (i < 59 → Loading image chain (i + 1) l'.advance) := by
  obtain ⟨hlow, hhigh⟩ := hdata
  have hsector := dataSector_eq hlow
  rw [hsector] at hhigh
  have hax : (l.stage2Cluster + 31) % 65536 = l.stage2Cluster + 31 := by
    unfold TOTAL_SECTORS at hhigh
    omega
  have hbx := h.bx
  unfold STAGE2_LOAD_OFFSET BYTES_PER_SECTOR at hbx
  have hend : l.bx + BYTES_PER_SECTOR * 1 ≤ 65536 := by
    unfold BYTES_PER_SECTOR
    omega
  obtain ⟨m', hread, hbytes, hkept⟩ := diskRead_spec (m := l.memory) hreads (by decide)
    (by unfold SECTORS_PER_TRACK; omega) hhigh hend
  refine ⟨{ l with memory := m', calls := l.calls + 1, loads := l.loads ++ [l.bx] }, ?_, rfl, rfl,
    fun hlt => ?_⟩
  · rw [Loader.readCluster, hax, hread]
    rfl
  unfold BYTES_PER_SECTOR at hbytes hkept
  unfold ORIGIN at hkept
  refine ⟨?_, ?_, fun k hk => ?_, fun n hn c hc j hj => ?_⟩
  · change (l.bx + 512) % 65536 = 0x500 + 512 * (i + 1)
    omega
  · change l.loads ++ [l.bx] = _
    rw [List.range_succ, List.map_append, h.loads, h.bx]
    rfl
  · have hfat := h.fat k hk
    unfold BUFFER at hfat ⊢
    exact (hkept _ (by omega) (by omega) (by omega)).trans hfat
  · unfold BYTES_PER_SECTOR at hj
    by_cases hlast : n = i
    · subst hlast
      obtain rfl := Option.some.inj (hcluster.symm.trans hc)
      have hbyte := hbytes 0 (by omega) j hj
      rw [hbx] at hbyte
      rw [hsector]
      exact hbyte
    · have hdone := h.data n (by omega) c hc j hj
      unfold STAGE2_LOAD_OFFSET BYTES_PER_SECTOR at hdone ⊢
      exact (hkept _ (by omega) (by omega) (by omega)).trans hdone

theorem overwrites_iff (hi : i ≤ 59) (hbx : l.bx = STAGE2_LOAD_OFFSET + BYTES_PER_SECTOR * i) :
    Loader.Overwrites l.bx ↔ i = 59 := by
  unfold Loader.Overwrites
  unfold STAGE2_LOAD_OFFSET ORIGIN BYTES_PER_SECTOR at *
  omega

-- A round that does not reach the boot sector is the last one or comes to the next cluster.
theorem loadKernelLoop_succ (hreads : Reads bios image) (hchain : IsChain image chain)
    (hcluster : chain[i]? = some l.stage2Cluster) (h : Loading image chain i l) (hi : i < 59) :
    ∃ l', Loading image chain (i + 1) l' ∧
      ((i + 1 = chain.length ∧ ∀ fuel, l.loadKernelLoop bios drive (fuel + 1) = some (.readFinish l')) ∨
        (chain[i + 1]? = some l'.stage2Cluster ∧
          ∀ fuel, l.loadKernelLoop bios drive (fuel + 1) = l'.loadKernelLoop bios drive fuel)) := by
  have hdata := hchain.data _ (List.mem_of_getElem? hcluster)
  obtain ⟨read, hread, hbx, hsame, hloading⟩ :=
    readCluster_spec drive hreads hcluster hdata h (Nat.le_of_lt hi)
  have hnext := hloading hi
  have hsame' : read.advance.stage2Cluster = l.stage2Cluster := by rw [Loader.advance_stage2Cluster, hsame]
  have hentry : read.advance.nextCluster = fatEntry image l.stage2Cluster := by
    rw [← hsame'] at hdata ⊢
    exact nextCluster_spec hnext hdata
  have hcode : ¬Loader.Overwrites read.bx := by
    rw [hbx, overwrites_iff (Nat.le_of_lt hi) h.bx]
    omega
  have hround : ∀ fuel, l.loadKernelLoop bios drive (fuel + 1) =
      if 0xFF8 ≤ fatEntry image l.stage2Cluster then some (.readFinish read.advance)
      else { read.advance with
        stage2Cluster := fatEntry image l.stage2Cluster }.loadKernelLoop bios drive fuel := by
    intro fuel
    rw [Loader.loadKernelLoop, hread]
    simp only [if_neg hcode, hentry]
  obtain ⟨hlt, -⟩ := List.getElem?_eq_some_iff.mp hcluster
  by_cases hlast : i + 1 = chain.length
  · have hmark := hchain.ends i _ hcluster hlast
    exact ⟨_, hnext, .inl ⟨hlast, fun fuel => (hround fuel).trans (if_pos hmark)⟩⟩
  · have hmore : chain[i + 1]? = some chain[i + 1] := List.getElem?_eq_getElem (by omega)
    have hlink := hchain.links i _ _ hcluster hmore
    have hbound := hchain.data _ (List.mem_of_getElem? hmore)
    rw [dataSector_eq hbound.1] at hbound
    unfold TOTAL_SECTORS at hbound
    rw [← hlink] at hmore hbound
    exact ⟨{ read.advance with stage2Cluster := fatEntry image l.stage2Cluster },
      hnext.setCluster _,
      .inr ⟨hmore, fun fuel => (hround fuel).trans (if_neg (by omega))⟩⟩

theorem loadKernelLoop_finishes (hreads : Reads bios image) (hchain : IsChain image chain)
    (hlength : chain.length ≤ 59) (rest : Nat) (hrest : i + 1 + rest = chain.length)
    (hcluster : chain[i]? = some l.stage2Cluster) (h : Loading image chain i l) :
    ∃ l', l.loadKernelLoop bios drive (rest + 1) = some (.readFinish l') ∧
      Loading image chain chain.length l' := by
  induction rest generalizing i l with
  | zero =>
      obtain ⟨l', hloading, ⟨hlast, hfinish⟩ | ⟨hmore, -⟩⟩ :=
        loadKernelLoop_succ drive hreads hchain hcluster h (by omega)
      · exact ⟨l', hfinish 0, hlast ▸ hloading⟩
      · rw [List.getElem?_eq_none (by omega)] at hmore
        cases hmore
  | succ rest ih =>
      obtain ⟨l', hloading, ⟨hlast, -⟩ | ⟨hmore, hgo⟩⟩ :=
        loadKernelLoop_succ drive hreads hchain hcluster h (by omega)
      · omega
      · obtain ⟨last, hfinish, hlast⟩ := ih (by omega) hmore hloading
        exact ⟨last, (hgo (rest + 1)).trans hfinish, hlast⟩

-- The sector number 59 goes from 0x7B00 to 0x7D00, and the loop never gets past it.
theorem loadKernelLoop_overwrites (hreads : Reads bios image) (hchain : IsChain image chain)
    (hlength : 59 < chain.length) (fuel : Nat) (hi : i ≤ 59)
    (hcluster : chain[i]? = some l.stage2Cluster) (h : Loading image chain i l) :
    l.loadKernelLoop bios drive fuel ≠ some (.readFinish l') := by
  induction fuel generalizing i l with
  | zero => exact nofun
  | succ fuel ih =>
      by_cases hlast : i = 59
      · have hdata := hchain.data _ (List.mem_of_getElem? hcluster)
        obtain ⟨read, hread, hbx, -⟩ := readCluster_spec drive hreads hcluster hdata h hi
        have hcode : Loader.Overwrites read.bx := by rwa [hbx, overwrites_iff hi h.bx]
        unfold Loader.loadKernelLoop
        rw [hread]
        simp only [if_pos hcode]
        exact nofun
      · obtain ⟨next, hloading, ⟨hend, -⟩ | ⟨hmore, hgo⟩⟩ :=
          loadKernelLoop_succ drive hreads hchain hcluster h (by omega)
        · omega
        · rw [hgo fuel]
          exact ih (by omega) hmore hloading

end Loop

section FoundKernel

variable {bios : Int13} {image : Image} {chain : List Nat} {m : Memory} {di : Nat}

-- Every sector is in its place, and no load was into the boot sector or into the FAT.
structure Intact (image : Image) (chain : List Nat) (l : Loader) : Prop where
  data : ∀ i c, chain[i]? = some c → ∀ j < BYTES_PER_SECTOR,
    l.memory (STAGE2_LOAD_OFFSET + BYTES_PER_SECTOR * i + j) = image (dataSector c) j
  apart : ∀ bx ∈ l.loads, bx + BYTES_PER_SECTOR ≤ ORIGIN ∨
    BUFFER + BYTES_PER_SECTOR * SECTORS_PER_FAT ≤ bx

theorem Loading.intact {l : Loader} (h : Loading image chain chain.length l) (hlength : chain.length ≤ 59) :
    Intact image chain l where
  data i c hc := h.data i (List.getElem?_eq_some_iff.mp hc).1 c hc
  apart bx hbx := by
    rw [h.loads] at hbx
    obtain ⟨n, hn, rfl⟩ := List.mem_map.mp hbx
    rw [List.mem_range] at hn
    unfold STAGE2_LOAD_OFFSET BYTES_PER_SECTOR ORIGIN
    omega

-- The FAT is read, and the loop begins.
theorem foundKernel_begins (drive calls : Nat) (hreads : Reads bios image)
    (hfirst : chain[0]? = some (load16 m ((di + 26) % 65536))) :
    ∃ l, Loading image chain 0 l ∧ chain[0]? = some l.stage2Cluster ∧
      ∀ fuel, foundKernel bios drive fuel m calls di = l.loadKernelLoop bios drive fuel := by
  have hroom : BUFFER + BYTES_PER_SECTOR * SECTORS_PER_FAT ≤ 65536 := by decide
  obtain ⟨m', hread, hbytes, -⟩ := diskRead_spec (m := m) hreads (by decide)
    (by decide : RESERVED_SECTORS % SECTORS_PER_TRACK + SECTORS_PER_FAT ≤ SECTORS_PER_TRACK)
    (by decide) hroom
  refine ⟨⟨m', calls + 1, STAGE2_LOAD_OFFSET, load16 m ((di + 26) % 65536), []⟩,
    ⟨rfl, rfl, fun k hk => ?_, nofun⟩, hfirst, fun fuel => ?_⟩
  · unfold BYTES_PER_SECTOR SECTORS_PER_FAT at hk hbytes
    have hbyte := hbytes (k / 512) (by omega) (k % 512) (by omega)
    rw [Nat.add_assoc, Nat.div_add_mod] at hbyte
    exact hbyte
  · unfold foundKernel
    rw [hread]

theorem foundKernel_loads_iff (drive calls : Nat) (hreads : Reads bios image) (hchain : IsChain image chain)
    (hfirst : chain[0]? = some (load16 m ((di + 26) % 65536))) :
    (∃ fuel l, foundKernel bios drive fuel m calls di = some (.readFinish l) ∧ Intact image chain l) ↔
      chain.length ≤ 59 := by
  obtain ⟨l, hloading, hcluster, hbegins⟩ := foundKernel_begins drive calls hreads hfirst
  constructor
  · rintro ⟨fuel, l', hfinish, -⟩
    by_contra hlong
    rw [hbegins] at hfinish
    exact loadKernelLoop_overwrites drive hreads hchain (by omega) fuel (by omega) hcluster hloading hfinish
  · intro hlength
    have hpos := List.length_pos_iff.mpr hchain.nonempty
    obtain ⟨l', hfinish, hlast⟩ := loadKernelLoop_finishes drive hreads hchain hlength
      (chain.length - 1) (by omega) hcluster hloading
    exact ⟨_, l', (hbegins _).trans hfinish, hlast.intact hlength⟩

end FoundKernel

section Sample

-- A file of `n` clusters, one behind the other from 2 on
def fileEntry (n cluster : Nat) : Nat := if cluster ≤ n then cluster + 1 else 0xFFF

def fileChain (n : Nat) : List Nat := (List.range n).map (· + 2)

def fileImage (n : Nat) : Image := fun lba offset =>
  BitVec.ofNat 8 (pack12 (fileEntry n) (BYTES_PER_SECTOR * (lba - RESERVED_SECTORS) + offset))

def copyingInt13 (image : Image) : Int13 where
  read _ m r bx :=
    (copy m bx (BYTES_PER_SECTOR * r.al) fun k => image (lba r + k / BYTES_PER_SECTOR) (k % BYTES_PER_SECTOR),
      false)
  reset _ := false

-- The entry of the file is the first one of the directory.
def directoryMemory : Memory := fun a => if a = BUFFER + 26 then 2 else 0

theorem fatEntry_file {n cluster : Nat} (hn : n < 4095) :
    fatEntry (fileImage n) cluster = fileEntry n cluster := by
  have hbyte : (fun k => (fatByte (fileImage n) k).toNat) = pack12 (fileEntry n) := by
    funext k
    unfold fatByte fileImage
    rw [Nat.add_sub_cancel_left, Nat.div_add_mod, BitVec.toNat_ofNat]
    exact Nat.mod_eq_of_lt (pack12_lt k)
  unfold fatEntry
  rw [hbyte, entry12_pack12]
  unfold fileEntry
  split <;> omega

theorem fileChain_getElem? {n i c : Nat} : (fileChain n)[i]? = some c ↔ i < n ∧ c = i + 2 := by
  unfold fileChain
  rw [List.getElem?_map]
  by_cases hi : i < n
  · rw [List.getElem?_range hi]
    simp [hi, eq_comm]
  · rw [List.getElem?_eq_none (by simpa using hi)]
    simp [hi]

theorem fileImage_chain {n : Nat} (hpos : 0 < n) (hn : n ≤ 2847) :
    IsChain (fileImage n) (fileChain n) where
  nonempty h := by
    have hlength := congrArg List.length h
    simp [fileChain] at hlength
    omega
  data c hc := by
    obtain ⟨k, hk, rfl⟩ := List.mem_map.mp hc
    rw [List.mem_range] at hk
    rw [dataSector_eq (by omega)]
    unfold TOTAL_SECTORS
    omega
  links i c c' hc hc' := by
    obtain ⟨-, rfl⟩ := fileChain_getElem?.mp hc
    obtain ⟨hi, rfl⟩ := fileChain_getElem?.mp hc'
    rw [fatEntry_file (by omega), fileEntry, if_pos (by omega)]
  ends i c hc hlast := by
    obtain ⟨-, rfl⟩ := fileChain_getElem?.mp hc
    simp only [fileChain, List.length_map, List.length_range] at hlast
    rw [fatEntry_file (by omega), fileEntry, if_neg (by omega)]
    omega

theorem copyingInt13_reads (image : Image) : Reads (copyingInt13 image) image where
  succeeds _ _ _ _ _ := rfl
  data call m r bx _ _ i hi j hj := by
    have hin : BYTES_PER_SECTOR * i + j < BYTES_PER_SECTOR * r.al := by
      unfold BYTES_PER_SECTOR at *
      omega
    simp only [copyingInt13]
    rw [Nat.add_assoc, copy_inside hin, Nat.mul_add_div (by decide), Nat.mul_add_mod, Nat.div_eq_of_lt hj,
      Nat.mod_eq_of_lt hj, Nat.add_zero]
  kept call m r bx _ _ a _ _ hapart := by
    simp only [copyingInt13]
    exact copy_of_apart hapart _

theorem foundKernel_loads_iff_sample :
    (∃ fuel l, foundKernel (copyingInt13 (fileImage 40)) 0 fuel directoryMemory 0 BUFFER =
        some (.readFinish l) ∧ Intact (fileImage 40) (fileChain 40) l) ↔
      (fileChain 40).length ≤ 59 :=
  foundKernel_loads_iff 0 0 (copyingInt13_reads _) (fileImage_chain (by omega) (by omega)) rfl

-- A file of 60 clusters: the last sector would end at 0x7D00.
theorem not_kernelLoaded_sample :
    Reads (copyingInt13 (fileImage 60)) (fileImage 60) ∧ IsChain (fileImage 60) (fileChain 60) ∧
      ¬∃ fuel l, foundKernel (copyingInt13 (fileImage 60)) 0 fuel directoryMemory 0 BUFFER =
          some (.readFinish l) := by
  have hreads := copyingInt13_reads (fileImage 60)
  have hchain := fileImage_chain (n := 60) (by omega) (by omega)
  have hfirst : (fileChain 60)[0]? = some (load16 directoryMemory ((BUFFER + 26) % 65536)) := rfl
  refine ⟨hreads, hchain, fun ⟨fuel, l, hfinish⟩ => ?_⟩
  obtain ⟨start, hloading, hcluster, hbegins⟩ :=
    foundKernel_begins 0 0 hreads hfirst
  rw [hbegins] at hfinish
  exact loadKernelLoop_overwrites 0 hreads hchain (by decide) fuel (by omega) hcluster hloading hfinish

end Sample

end ToyKernel.Stage1
