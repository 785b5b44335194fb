import ToyKernel.Fat.Delivery
import ToyKernel.Stage2

namespace ToyKernel.Stage2

open Library ByteMemory Fat

section Copy

variable {m : Memory} {dst src : Nat}

-- Between ranges that are apart the loop is a copy.
theorem memcpyLoop_eq (i : Nat) (hdst : dst + i ≤ 4294967296) (hsrc : src + i ≤ 4294967296)
    (happart : src + i ≤ dst ∨ dst + i ≤ src) :
    memcpyLoop m dst src i = copy m dst i fun j => m (src + j) := by
  induction i with
  | zero =>
      funext b
      exact (if_neg (by omega)).symm
  | succ i ih =>
      rw [memcpyLoop, ih (by omega) (by omega) (by omega), u32_of_lt (by omega), u32_of_lt (by omega)]
      funext b
      by_cases hb : b = dst + i
      · rw [hb, store8_self]
        unfold copy
        rw [if_neg (by omega), if_pos (by omega), Nat.add_sub_cancel_left]
      · rw [store8_of_ne hb]
        unfold copy
        by_cases hin : dst ≤ b ∧ b < dst + i
        · rw [if_pos hin, if_pos (by omega)]
        · rw [if_neg hin, if_neg (by omega)]

-- Less than 64 KiB are copied whole, and 64 KiB not at all.
theorem memcpy_of_lt {num : Nat} (hnum : num < 65536) (hdst : dst + num ≤ 4294967296)
    (hsrc : src + num ≤ 4294967296) (happart : src + num ≤ dst ∨ dst + num ≤ src) :
    memcpy m dst src num = copy m dst num fun j => m (src + j) := by
  unfold memcpy
  rw [Nat.mod_eq_of_lt hnum]
  exact memcpyLoop_eq num hdst hsrc happart

theorem memcpy_full (m : Memory) (dst src : Nat) : memcpy m dst src 65536 = m := rfl

end Copy

section Loop

variable {content : Nat → Sector} {Ahead : FileData → List Nat → Prop} {handle : Handle}

-- The handle stands `left` bytes before the end of its file, with `data` to come.
structure Standing (fat : Fat.State) (handle : Handle) (content : Nat → Sector)
    (Ahead : FileData → List Nat → Prop) (data : List UInt8) (left : Nat) : Prop where
  stream : Stream fat.volume handle content Ahead
  file : (fat.file handle).isDirectory = false
  cursor : Cursor content Ahead (fat.file handle) data
  left_eq : left = (fat.file handle).size - (fat.file handle).position

-- The memory with the next `n` bytes in the load buffer
def buffered (m : Memory) (data : List UInt8) (n : Nat) : Memory :=
  copy m MEMORY_LOAD_KERNEL n fun i => (data.getD i 0).toBitVec

theorem Standing.readChunk {l : Loader} {data : List UInt8} {left : Nat}
    (h : Standing l.fat handle content Ahead data left) :
    ∃ fat, l.readChunk handle = (min MEMORY_LOAD_SIZE left,
        ⟨fat, buffered l.memory data (min MEMORY_LOAD_SIZE left)⟩) ∧
      Standing fat handle content Ahead (data.drop (min MEMORY_LOAD_SIZE left))
        (left - min MEMORY_LOAD_SIZE left) := by
  obtain ⟨fd, hfile, hg⟩ := read_gives h.stream (Or.inl h.file) h.cursor MEMORY_LOAD_SIZE
  rw [← h.left_eq] at hg
  have henough := h.cursor.enough
  rw [← h.left_eq] at henough
  have hbytes : (l.fat.read handle MEMORY_LOAD_SIZE).1 = data.take (min MEMORY_LOAD_SIZE left) := hg.bytes
  have hlen : (data.take (min MEMORY_LOAD_SIZE left)).length = min MEMORY_LOAD_SIZE left := by
    rw [List.length_take]
    omega
  refine ⟨(l.fat.read handle MEMORY_LOAD_SIZE).2, ?_, ?_, ?_, ?_, ?_⟩
  · unfold Loader.readChunk
    simp only [hbytes, hlen]
    congr 2
    apply copy_congr
    intro i hi
    rw [List.getD_eq_getElem?_getD, List.getD_eq_getElem?_getD, List.getElem?_take_of_lt hi]
  · rw [volume_read]
    exact h.stream
  · rw [hfile]
    exact hg.isDirectory.trans h.file
  · rw [hfile]
    exact hg.cursor
  · rw [hfile, show fd.size = (l.fat.file handle).size from hg.size,
      show fd.position = (l.fat.file handle).position + min MEMORY_LOAD_SIZE left from hg.position,
      h.left_eq]
    omega

-- One round of the loop
theorem Standing.load_succ {l : Loader} {data : List UInt8} {left buffer total : Nat}
    (h : Standing l.fat handle content Ahead data left) (rounds : Nat)
    (hend : buffer + total + left < 4294967296) :
    ∃ fat, Standing fat handle content Ahead (data.drop (min MEMORY_LOAD_SIZE left))
        (left - min MEMORY_LOAD_SIZE left) ∧
      (left = 0 → Loader.load handle buffer (rounds + 1) total l =
        .ok (total, ⟨fat, buffered l.memory data 0⟩)) ∧
      (left ≠ 0 → Loader.load handle buffer (rounds + 1) total l =
        Loader.load handle buffer rounds (total + min MEMORY_LOAD_SIZE left)
          ⟨fat, memcpy (buffered l.memory data (min MEMORY_LOAD_SIZE left)) (buffer + total)
            MEMORY_LOAD_KERNEL (min MEMORY_LOAD_SIZE left)⟩) := by
  have hsize : MEMORY_LOAD_SIZE = 65536 := rfl
  obtain ⟨fat, hchunk, hnext⟩ := h.readChunk
  refine ⟨fat, hnext, fun hz => ?_, fun hz => ?_⟩
  · subst hz
    rw [Loader.load, hchunk]
    exact if_pos rfl
  · rw [Loader.load, hchunk]
    simp only [if_neg (show ¬min MEMORY_LOAD_SIZE left = 0 by omega)]
    rw [u32_of_lt (show buffer + total < 4294967296 by omega), u32_of_lt (by omega)]

-- Where the loop leaves the file: the full chunks are skipped, and the last, shorter one is
-- copied. Induction on the rounds, with the cases nothing left, a last chunk, a full chunk.
theorem Standing.load {l : Loader} {data : List UInt8} {left : Nat}
    (h : Standing l.fat handle content Ahead data left) {buffer : Nat} (total rounds : Nat)
    (hrounds : (left + 65535) / 65536 + 1 ≤ rounds)
    (hbuffer : MEMORY_LOAD_KERNEL + MEMORY_LOAD_SIZE ≤ buffer)
    (hend : buffer + total + left < 4294967296) :
    ∃ l', Loader.load handle buffer rounds total l = .ok (total + left, l') ∧
      (∀ b, MEMORY_LOAD_KERNEL + MEMORY_LOAD_SIZE ≤ b → b < buffer + total ∨ buffer + total + left ≤ b →
        l'.memory b = l.memory b) ∧
      ∀ k < left, l'.memory (buffer + total + k) =
        if k < 65536 * (left / 65536) then l.memory (buffer + total + k)
        else (data.getD k 0).toBitVec := by
  have hsize : MEMORY_LOAD_SIZE = 65536 := rfl
  have hload : MEMORY_LOAD_KERNEL = 196608 := rfl
  have hbuffered : ∀ (m : Memory) (data : List UInt8) (n b : Nat), n ≤ 65536 → 262144 ≤ b →
      buffered m data n b = m b := fun m data n b hn hb => copy_of_apart (by omega) _
  induction rounds generalizing l data left total with
  | zero => omega
  | succ rounds ih =>
      obtain ⟨fat, hnext, hdone, hgo⟩ := h.load_succ rounds hend
      rcases Nat.lt_or_ge left 65536 with hlast | hfull
      · by_cases hz : left = 0
        · subst hz
          exact ⟨_, hdone rfl, fun b hb _ => hbuffered _ _ 0 b (by omega) (by omega), fun k hk => by omega⟩
        have hmin : min MEMORY_LOAD_SIZE left = left := by omega
        rw [hmin] at hgo hnext
        rw [hgo hz, memcpy_of_lt hlast (by omega) (by omega) (by omega)]
        rw [Nat.sub_self] at hnext
        let mid : Loader := ⟨fat, copy (buffered l.memory data left) (buffer + total) left fun j =>
          buffered l.memory data left (MEMORY_LOAD_KERNEL + j)⟩
        have hmid : Standing mid.fat handle content Ahead (data.drop left) 0 := hnext
        have hmemory : mid.memory = copy (buffered l.memory data left) (buffer + total) left fun j =>
          buffered l.memory data left (MEMORY_LOAD_KERNEL + j) := rfl
        obtain ⟨l', hl', hframe, -⟩ := ih hmid (total + left) (by omega) (by omega)
        refine ⟨l', hl', fun b hb hout => ?_, fun k hk => ?_⟩
        · rw [hframe b hb (by omega)]
          rw [hmemory, copy_of_apart (by omega), hbuffered _ _ left b (by omega) (by omega)]
        · rw [hframe _ (by omega) (by omega), if_neg (by omega), hmemory, copy_inside hk]
          exact copy_inside hk _
      · have hmin : min MEMORY_LOAD_SIZE left = 65536 := by omega
        rw [hmin] at hgo hnext
        rw [hgo (by omega), memcpy_full]
        let mid : Loader := ⟨fat, buffered l.memory data 65536⟩
        have hmid : Standing mid.fat handle content Ahead (data.drop 65536) (left - 65536) := hnext
        have hsame : ∀ b, 262144 ≤ b → mid.memory b = l.memory b :=
          fun b hb => hbuffered _ _ _ b (by omega) hb
        obtain ⟨l', hl', hframe, hfile⟩ := ih hmid (total + 65536) (by omega) (by omega)
        refine ⟨l', ?_, fun b hb hout => ?_, fun k hk => ?_⟩
        · rw [hl', show total + 65536 + (left - 65536) = total + left by omega]
        · rw [hframe b hb (by omega), hsame b (by omega)]
        · by_cases hfirst : k < 65536
          · rw [hframe _ (by omega) (by omega), hsame _ (by omega), if_pos (by omega)]
          · have hrest := hfile (k - 65536) (by omega)
            rw [show buffer + (total + 65536) + (k - 65536) = buffer + total + k by omega,
              hsame _ (by omega), List.getD_eq_getElem?_getD, List.getElem?_drop,
              show 65536 + (k - 65536) = k by omega, ← List.getD_eq_getElem?_getD] at hrest
            rw [hrest]
            by_cases hin : k < 65536 * (left / 65536)
            · rw [if_pos hin, if_pos (by omega)]
            · rw [if_neg hin, if_neg (by omega)]

-- More rounds than it takes make no difference.
theorem load_mono {buffer rounds total : Nat} {l : Loader} {r : Nat × Loader}
    (h : Loader.load handle buffer rounds total l = .ok r) (more : Nat) :
    Loader.load handle buffer (rounds + more) total l = .ok r := by
  induction rounds generalizing total l with
  | zero => cases h
  | succ rounds ih =>
      rw [Nat.succ_add]
      unfold Loader.load at h ⊢
      by_cases hz : (l.readChunk handle).1 = 0
      · simp only [if_pos hz] at h ⊢
        exact h
      · simp only [if_neg hz] at h ⊢
        exact ih h

-- The loop comes to its end with the file's bytes at `buffer`, whatever the memory held.
def LoadsFaithfully (fat : Fat.State) (fd : Handle) (buffer size : Nat) (data : List UInt8) : Prop :=
  ∀ memory, ∃ rounds l, Loader.load fd buffer rounds 0 ⟨fat, memory⟩ = .ok (size, l) ∧
    ∀ k < size, l.memory (buffer + k) = (data.getD k 0).toBitVec

theorem Standing.loads_iff {fat : Fat.State} {data : List UInt8} {size buffer : Nat}
    (h : Standing fat handle content Ahead data size)
    (hbuffer : MEMORY_LOAD_KERNEL + MEMORY_LOAD_SIZE ≤ buffer) (hend : buffer + size < 4294967296) :
    LoadsFaithfully fat handle buffer size data ↔ size < MEMORY_LOAD_SIZE := by
  have hsize : MEMORY_LOAD_SIZE = 65536 := rfl
  have hload : ∀ memory, ∃ l', Loader.load handle buffer ((size + 65535) / 65536 + 1) 0 ⟨fat, memory⟩ =
      .ok (size, l') ∧ ∀ k < size, l'.memory (buffer + k) =
        if k < 65536 * (size / 65536) then memory (buffer + k) else (data.getD k 0).toBitVec := by
    intro memory
    have hstanding : Standing (Loader.mk fat memory).fat handle content Ahead data size := h
    obtain ⟨l', hl', -, hbytes⟩ := hstanding.load 0 _ (Nat.le_refl _) hbuffer hend
    rw [Nat.zero_add] at hl'
    exact ⟨l', hl', hbytes⟩
  constructor
  · intro hfaithful
    by_contra hlarge
    -- memory that does not hold the first byte of the file anyway
    let first := (data.getD 0 0).toBitVec
    obtain ⟨rounds, l, hl, hbytes⟩ := hfaithful fun _ => ~~~first
    obtain ⟨l', hl', hskipped⟩ := hload fun _ => ~~~first
    have hsame := load_mono hl' rounds
    rw [Nat.add_comm, load_mono hl] at hsame
    obtain rfl : l = l' := congrArg Prod.snd (Except.ok.inj hsame)
    have hkept := hskipped 0 (by omega)
    rw [if_pos (by omega)] at hkept
    have hbyte : ~~~first = first := hkept.symm.trans (hbytes 0 (by omega))
    have hbit := congrArg (fun byte => byte.getLsbD 0) hbyte
    simp at hbit
  · intro hsmall memory
    obtain ⟨l, hl, hbytes⟩ := hload memory
    refine ⟨_, l, hl, fun k hk => ?_⟩
    rw [hbytes k hk, if_neg (by omega)]

end Loop

-- A file that FAT_OpenEntry has opened; its chain has at most 4078 clusters of 255 sectors.
theorem standing_of_open {content : Nat → Sector} {s fat : Fat.State} {entry : DirectoryEntry}
    {fd : Handle} {chain : List Nat} (hdisk : Reliable s.volume.disk content)
    (hspc : 1 ≤ s.volume.bootSector.sectorsPerCluster.toNat)
    (hopen : s.openEntry entry = (some fd, fat))
    (hdir : entry.attributes &&& FAT_ATTRIBUTE_DIRECTORY = 0)
    (hchain : entry.size.toNat = 0 ∨ Chain s.volume entry.firstCluster chain)
    (henough : entry.size.toNat ≤ 512 * (s.volume.bootSector.sectorsPerCluster.toNat * chain.length)) :
    Standing fat fd content (FileAhead s.volume content)
        (sectorBytes content (chainSectors s.volume chain)) entry.size.toNat ∧
      entry.size.toNat ≤ 532423680 := by
  obtain ⟨slot, rfl, -, hvolume, hfile⟩ := openEntry_some hdisk hopen
  refine ⟨⟨?_, ?_, fileCursor hdisk hspc hopen hchain henough, ?_⟩, ?_⟩
  · rw [hvolume]
    exact fileStream hdisk slot
  · rw [hfile]
    simp [hdir]
  · rw [hfile]
    rfl
  · have hcluster : s.volume.bootSector.sectorsPerCluster.toNat < 256 :=
      s.volume.bootSector.sectorsPerCluster.toNat_lt
    rcases hchain with hz | hc
    · omega
    · have hle := Nat.mul_le_mul (Nat.le_of_lt_succ hcluster) hc.length_le
      omega

-- start() loads a file faithfully exactly when it is shorter than a chunk: the kernel of any
-- size, and a userland image of up to its staging size.
theorem loadsFaithfully_iff (content : Nat → Sector) (s fat : Fat.State) (entry : DirectoryEntry)
    (fd : Handle) (chain : List Nat) (buffer : Nat) (hdisk : Reliable s.volume.disk content)
    (hspc : 1 ≤ s.volume.bootSector.sectorsPerCluster.toNat)
    (hopen : s.openEntry entry = (some fd, fat))
    (hdir : entry.attributes &&& FAT_ATTRIBUTE_DIRECTORY = 0)
    (hchain : entry.size.toNat = 0 ∨ Chain s.volume entry.firstCluster chain)
    (henough : entry.size.toNat ≤ 512 * (s.volume.bootSector.sectorsPerCluster.toNat * chain.length))
    (hbuffer : buffer = MEMORY_KERNEL_ADDR ∨
      buffer = MEMORY_USERLAND_ADDR ∧ entry.size.toNat ≤ MEMORY_USERLAND_SIZE) :
    LoadsFaithfully fat fd buffer entry.size.toNat (sectorBytes content (chainSectors s.volume chain)) ↔
      entry.size.toNat < MEMORY_LOAD_SIZE := by
  obtain ⟨hstanding, hsize⟩ := standing_of_open hdisk hspc hopen hdir hchain henough
  apply hstanding.loads_iff
  · rcases hbuffer with rfl | ⟨rfl, -⟩ <;> decide
  · have hle : buffer ≤ 0x100000 := by
      rcases hbuffer with rfl | ⟨rfl, -⟩ <;> decide
    omega

section Sample

-- A disk of zeros with clusters of 64 KiB, and a file of one cluster
def largeState : Fat.State where
  volume :=
    { disk := fun _ _ _ => { ok := true, data := fun _ _ => 0 }
      bootSector := { sampleBootSector with sectorsPerCluster := 128 }
      fat := fun _ => 0xFF
      dataSectionLba := 4 }
  rootDirectory := sampleState.rootDirectory
  openedFiles := sampleSlots
  calls := 3

def largeEntry : DirectoryEntry := { sampleEntry with size := 0x10000 }

theorem largeState_reliable : Reliable largeState.volume.disk fun _ _ => 0 :=
  ⟨fun _ _ _ => rfl, fun _ _ _ _ _ => rfl⟩

theorem largeState_open (size : UInt32) :
    largeState.openEntry { sampleEntry with size } =
      (some (.file 0), (largeState.openEntry { sampleEntry with size }).2) :=
  Prod.ext rfl rfl

theorem largeState_chain : Chain largeState.volume 2 [2] :=
  .link (by decide) (by decide) (.done (by decide))

theorem loadsFaithfully_iff_sample :
    LoadsFaithfully (largeState.openEntry sampleEntry).2 (.file 0) MEMORY_KERNEL_ADDR 600
        (sectorBytes (fun _ _ => 0) (chainSectors largeState.volume [2])) ↔
      600 < MEMORY_LOAD_SIZE :=
  loadsFaithfully_iff (fun _ _ => 0) largeState _ sampleEntry (.file 0) [2] MEMORY_KERNEL_ADDR
    largeState_reliable (by decide) (largeState_open 600) (by decide) (Or.inr largeState_chain)
    (by decide) (Or.inl rfl)

-- A kernel of one full chunk is not copied at all.
theorem not_loadsFaithfully_large :
    ¬LoadsFaithfully (largeState.openEntry largeEntry).2 (.file 0) MEMORY_KERNEL_ADDR 0x10000
      (sectorBytes (fun _ _ => 0) (chainSectors largeState.volume [2])) := by
  obtain ⟨hstanding, -⟩ := standing_of_open largeState_reliable (by decide) (largeState_open 0x10000)
    (by decide) (Or.inr largeState_chain) (by decide)
  intro h
  exact absurd ((hstanding.loads_iff (by decide) (by decide)).mp h) (by decide)

end Sample

end ToyKernel.Stage2
