import ToyKernel.Fat.Hop
import ToyKernel.Stage2.Load

namespace ToyKernel.Stage2

open Library ByteMemory Fat

-- The load loop where what stands behind the driver's memory changes with the transfers: the load
-- buffer, that the bytes go to, is there.
def Loader.readChunkIn (memory : Nat → Behind) (l : Loader) (fd : Handle) : Nat × Loader :=
  let (bytes, fat) := l.fat.readIn memory fd MEMORY_LOAD_SIZE
  (bytes.length,
    { fat, memory := copy l.memory MEMORY_LOAD_KERNEL bytes.length fun i => (bytes.getD i 0).toBitVec })

def Loader.loadIn (memory : Nat → Behind) (fd : Handle) (buffer : Nat) : (rounds totalRead : Nat) → Loader →
    Except Stuck (Nat × Loader)
  | 0, _, _ => .error .outOfRounds
  | rounds + 1, totalRead, l =>
      let (readSize, l) := l.readChunkIn memory fd
      if readSize = 0 then .ok (totalRead, l)
      else
        loadIn memory fd buffer rounds (u32 (totalRead + readSize))
          { l with memory := memcpy l.memory (u32 (buffer + totalRead)) MEMORY_LOAD_KERNEL readSize }

-- The calls of memcpy that the load loop makes in its first rounds: where to, and how much the
-- `uint16_t` leaves of the length
def Loader.copiesIn (memory : Nat → Behind) (fd : Handle) (buffer : Nat) : (rounds totalRead : Nat) → Loader →
    List (Nat × Nat)
  | 0, _, _ => []
  | rounds + 1, totalRead, l =>
      let (readSize, l) := l.readChunkIn memory fd
      if readSize = 0 then []
      else
        (u32 (buffer + totalRead), readSize % 65536) ::
          copiesIn memory fd buffer rounds (u32 (totalRead + readSize))
            { l with memory := memcpy l.memory (u32 (buffer + totalRead)) MEMORY_LOAD_KERNEL readSize }

-- The same in a memory that stays
def Loader.copies (fd : Handle) (buffer : Nat) : (rounds totalRead : Nat) → Loader → List (Nat × Nat)
  | 0, _, _ => []
  | rounds + 1, totalRead, l =>
      let (readSize, l) := l.readChunk fd
      if readSize = 0 then []
      else
        (u32 (buffer + totalRead), readSize % 65536) ::
          copies fd buffer rounds (u32 (totalRead + readSize))
            { l with memory := memcpy l.memory (u32 (buffer + totalRead)) MEMORY_LOAD_KERNEL readSize }

-- Every byte that is copied goes to the staging buffer, and the module that the kernel is given is
-- no larger than it.
structure Staged (behind : Nat → Behind) (fat : Fat.State) (fd : Handle) : Prop where
  inside : ∀ memory rounds,
    ∀ c ∈ Loader.copiesIn behind fd MEMORY_USERLAND_ADDR rounds 0 ⟨fat, memory⟩, ∀ a,
      c.1 ≤ a → a < c.1 + c.2 → MEMORY_USERLAND_ADDR ≤ a ∧ a < MEMORY_USERLAND_ADDR + MEMORY_USERLAND_SIZE
  handed : ∀ memory, ∃ rounds size l,
    Loader.loadIn behind fd MEMORY_USERLAND_ADDR rounds 0 ⟨fat, memory⟩ = .ok (size, l) ∧
      size ≤ MEMORY_USERLAND_SIZE

section Memory

variable {behind : Nat → Behind} {slot : Fin 10} {buffer total t : Nat} {l : Loader}

def Loader.inMemory (l : Loader) (memory : Behind) : Loader := { l with fat := l.fat.inMemory memory }

-- A chunk read in a memory that changes is the chunk read in the one that stood there after `t` transfers.
theorem readChunkIn_eq (h : l.fat.Settled slot t) (behind : Nat → Behind) :
    ∃ k mid, l.readChunkIn behind (.file slot) = (k, mid) ∧
      (l.inMemory (behind t)).readChunk (.file slot) = (k, mid.inMemory (behind t)) ∧
      mid.fat.Settled slot t := by
  obtain ⟨hbytes, hfat, hsettled⟩ := h.readIn behind MEMORY_LOAD_SIZE
  refine ⟨(l.readChunkIn behind (.file slot)).1, (l.readChunkIn behind (.file slot)).2, rfl, ?_, hsettled⟩
  unfold Loader.readChunkIn Loader.readChunk Loader.inMemory
  dsimp only
  rw [← hbytes, ← hfat]

-- The loop then as well
theorem loadIn_eq (h : l.fat.Settled slot t) (rounds : Nat) :
    (Loader.loadIn behind (.file slot) buffer rounds total l).map
        (fun r => (r.1, r.2.inMemory (behind t))) =
      Loader.load (.file slot) buffer rounds total (l.inMemory (behind t)) := by
  induction rounds generalizing l total with
  | zero => rfl
  | succ rounds ih =>
      obtain ⟨k, mid, hchunk, hchunk', hsettled⟩ := readChunkIn_eq h behind
      unfold Loader.loadIn Loader.load
      simp only [hchunk, hchunk']
      by_cases hk : k = 0
      · rw [if_pos hk, if_pos hk]
        rfl
      · rw [if_neg hk, if_neg hk]
        exact ih (l := ⟨mid.fat, _⟩) hsettled

theorem load_of_loadIn {l' : Loader} {rounds size : Nat} (h : l.fat.Settled slot t)
    (hload : Loader.loadIn behind (.file slot) buffer rounds total l = .ok (size, l')) :
    Loader.load (.file slot) buffer rounds total (l.inMemory (behind t)) =
      .ok (size, l'.inMemory (behind t)) := by
  rw [← loadIn_eq h, hload]
  rfl

theorem loadIn_of_load {l' : Loader} {rounds size : Nat} (h : l.fat.Settled slot t)
    (hload : Loader.load (.file slot) buffer rounds total (l.inMemory (behind t)) = .ok (size, l')) :
    ∃ l₁, Loader.loadIn behind (.file slot) buffer rounds total l = .ok (size, l₁) := by
  rw [← loadIn_eq h] at hload
  cases hin : Loader.loadIn behind (.file slot) buffer rounds total l with
  | error e =>
      rw [hin] at hload
      cases hload
  | ok result =>
      rw [hin] at hload
      cases hload
      exact ⟨result.2, rfl⟩

theorem copiesIn_eq (h : l.fat.Settled slot t) (rounds : Nat) :
    Loader.copiesIn behind (.file slot) buffer rounds total l =
      Loader.copies (.file slot) buffer rounds total (l.inMemory (behind t)) := by
  induction rounds generalizing l total with
  | zero => rfl
  | succ rounds ih =>
      obtain ⟨k, mid, hchunk, hchunk', hsettled⟩ := readChunkIn_eq h behind
      unfold Loader.copiesIn Loader.copies
      simp only [hchunk, hchunk']
      by_cases hk : k = 0
      · rw [if_pos hk, if_pos hk]
      · rw [if_neg hk, if_neg hk]
        exact congrArg ((u32 (buffer + total), k % 65536) :: ·) (ih (l := ⟨mid.fat, _⟩) hsettled)

end Memory

section Loop

variable {fd : Handle} {buffer total n : Nat} {l : Loader}

-- A chunk is some of what is left, and none only when nothing is.
theorem readChunk_left (h : Left l.fat.volume fd (l.fat.file fd) n) :
    ∃ k fat memory, l.readChunk fd = (k, ⟨fat, memory⟩) ∧ k ≤ n ∧ (k = 0 → n = 0) ∧
      Left fat.volume fd (fat.file fd) (n - k) := by
  obtain ⟨k, hlength, hk, -, hpos, hleft⟩ := h.read MEMORY_LOAD_SIZE
  refine ⟨k, (l.fat.read fd MEMORY_LOAD_SIZE).2, _, by rw [← hlength]; rfl, hk, fun hz => ?_, ?_⟩
  · by_contra hn
    have hsome := hpos (by decide) (Nat.pos_of_ne_zero hn)
    omega
  · rw [volume_read]
    exact hleft

-- The loop ends with all that was left, however it was cut in pieces by failing transfers.
theorem load_left (h : Left l.fat.volume fd (l.fat.file fd) n) (hend : total + n < 4294967296)
    {rounds : Nat} (hrounds : n < rounds) :
    ∃ l', Loader.load fd buffer rounds total l = .ok (total + n, l') := by
  induction rounds generalizing l total n with
  | zero => omega
  | succ rounds ih =>
      obtain ⟨k, fat, memory, hchunk, hk, hzero, hleft⟩ := readChunk_left h
      unfold Loader.load
      simp only [hchunk]
      by_cases hk0 : k = 0
      · rw [if_pos hk0, hzero hk0]
        exact ⟨_, rfl⟩
      · rw [if_neg hk0, u32_of_lt (by omega : total + k < 4294967296)]
        obtain ⟨l', hl'⟩ := @ih (total + k)
          (n - k) ⟨fat, memcpy memory (u32 (buffer + total)) MEMORY_LOAD_KERNEL k⟩ hleft (by omega) (by omega)
        exact ⟨l', by rw [hl', show total + k + (n - k) = total + n by omega]⟩

theorem copies_left (h : Left l.fat.volume fd (l.fat.file fd) n) (hend : buffer + total + n < 4294967296)
    (rounds : Nat) : ∀ c ∈ Loader.copies fd buffer rounds total l,
      buffer + total ≤ c.1 ∧ c.1 + c.2 ≤ buffer + total + n := by
  induction rounds generalizing l total n with
  | zero => exact nofun
  | succ rounds ih =>
      obtain ⟨k, fat, memory, hchunk, hk, -, hleft⟩ := readChunk_left h
      have hmod := Nat.mod_le k 65536
      intro c hc
      unfold Loader.copies at hc
      simp only [hchunk] at hc
      by_cases hk0 : k = 0
      · rw [if_pos hk0] at hc
        cases hc
      · rw [if_neg hk0, u32_of_lt (by omega : buffer + total < 4294967296),
          u32_of_lt (by omega : total + k < 4294967296)] at hc
        rcases List.mem_cons.mp hc with rfl | hc
        · exact ⟨Nat.le_refl _, by simp only; omega⟩
        · have hrest := @ih (total + k) (n - k) ⟨fat, memcpy memory (buffer + total) MEMORY_LOAD_KERNEL k⟩
            hleft (by omega) c hc
          omega

theorem staged_iff_left {behind : Nat → Behind} {fat : Fat.State} {slot : Fin 10} {t : Nat}
    (hsettled : fat.Settled slot t)
    (h : Left (fat.volume.inMemory (behind t)) (.file slot) (fat.file (.file slot)) n)
    (hstart : (fat.file (.file slot)).position = 0) :
    Staged behind fat (.file slot) ↔ n ≤ MEMORY_USERLAND_SIZE := by
  have hlt := h.position_lt
  have hl (memory : Memory) : Left (Loader.inMemory ⟨fat, memory⟩ (behind t)).fat.volume (.file slot)
      ((Loader.inMemory ⟨fat, memory⟩ (behind t)).fat.file (.file slot)) n := h
  have hend (memory : Memory) : ∃ l', Loader.load (.file slot) MEMORY_USERLAND_ADDR (n + 1) 0
      (Loader.inMemory ⟨fat, memory⟩ (behind t)) = .ok (n, l') := by
    have hload := @load_left (.file slot) MEMORY_USERLAND_ADDR 0 n _ (hl memory) (by omega) _
      (Nat.lt_succ_self n)
    rwa [Nat.zero_add] at hload
  constructor
  · intro hstaged
    obtain ⟨rounds, size, l, hload, hsize⟩ := hstaged.handed fun _ => 0
    obtain ⟨l', hend⟩ := hend fun _ => 0
    have hstill := load_of_loadIn (l := ⟨fat, fun _ => 0⟩) hsettled hload
    have hmore := load_mono hstill (n + 1)
    rw [Nat.add_comm, load_mono hend rounds] at hmore
    have hsame : n = size := (Prod.mk.inj (Except.ok.inj hmore)).1
    omega
  · intro hsmall
    have hroom : MEMORY_USERLAND_ADDR + 0 + n < 4294967296 := by
      simp only [MEMORY_USERLAND_ADDR, MEMORY_USERLAND_SIZE] at hsmall ⊢
      omega
    refine ⟨fun memory rounds c hc a hlow hhigh => ?_, fun memory => ?_⟩
    · rw [copiesIn_eq (l := ⟨fat, memory⟩) hsettled] at hc
      have hinside := copies_left (hl memory) hroom rounds c hc
      omega
    · obtain ⟨l', hend⟩ := hend memory
      obtain ⟨l, hload⟩ := loadIn_of_load (l := ⟨fat, memory⟩) hsettled hend
      exact ⟨n + 1, n, l, hload, hsmall⟩

-- Along a chain without an end the loop goes on for good.
theorem load_endless (h : Endless l.fat.volume fd (l.fat.file fd)) (rounds : Nat) :
    Loader.load fd buffer rounds total l = .error .outOfRounds := by
  induction rounds generalizing l total with
  | zero => rfl
  | succ rounds ih =>
      obtain ⟨hsome, hendless⟩ := h.read (show 0 < MEMORY_LOAD_SIZE by decide)
      have hchunk : (l.readChunk fd).1 ≠ 0 := Nat.ne_of_gt hsome
      unfold Loader.load
      simp only [if_neg hchunk]
      apply ih
      change Endless (l.fat.read fd MEMORY_LOAD_SIZE).2.volume fd _
      rw [volume_read]
      exact hendless

theorem not_staged_endless {behind : Nat → Behind} {fat : Fat.State} {slot : Fin 10} {t : Nat}
    (hsettled : fat.Settled slot t)
    (h : Endless (fat.volume.inMemory (behind t)) (.file slot) (fat.file (.file slot))) :
    ¬Staged behind fat (.file slot) := by
  intro hstaged
  obtain ⟨rounds, size, l, hload, -⟩ := hstaged.handed fun _ => 0
  have hstill := load_of_loadIn (l := ⟨fat, fun _ => 0⟩) hsettled hload
  have hendless : Endless (Loader.inMemory ⟨fat, fun _ => 0⟩ (behind t)).fat.volume (.file slot)
      ((Loader.inMemory ⟨fat, fun _ => 0⟩ (behind t)).fat.file (.file slot)) := h
  rw [load_endless hendless] at hstill
  cases hstill

end Loop

section Opened

-- The entry says how long it is, which a directory need not.
def RecordsSize (entry : DirectoryEntry) : Prop :=
  entry.attributes &&& FAT_ATTRIBUTE_DIRECTORY = 0 ∨ entry.size.toNat ≠ 0

-- The chain of the entry has at most `count` sectors.
def EndsWithin (v : Volume) (fd : Handle) (entry : DirectoryEntry) (count : Nat) : Prop :=
  walk (v.advance fd) count ⟨entry.firstCluster, 0⟩ = none

-- With the bytes of the first cluster in the driver's memory it does not matter what is behind it.
theorem endsWithin_inMemory {v : Volume} {slot : Fin 10} {entry : DirectoryEntry}
    (hin : InArea entry.firstCluster) (memory : Behind) (count : Nat) :
    EndsWithin (v.inMemory memory) (.file slot) entry count ↔ EndsWithin v (.file slot) entry count := by
  have hadvance : ∀ p : Place, InArea p.cluster →
      (v.inMemory memory).advance (.file slot) p = v.advance (.file slot) p := by
    intro p hp
    have hnext := (sameArea_inMemory v memory).nextCluster hp
    unfold Volume.advance
    simp only [hnext, (sameArea_inMemory v memory).bootSector]
  have hkeeps : ∀ p p' : Place, InArea p.cluster →
      (v.inMemory memory).advance (.file slot) p = some p' → InArea p'.cluster := by
    intro p p' _ hp'
    have hbound := (advance_bounds hp').1
    exact inArea_of_lt (by omega)
  have hwalk := (walk_congr (fun p : Place => InArea p.cluster) hadvance hkeeps
    (a := ⟨entry.firstCluster, 0⟩) hin count).1
  unfold EndsWithin
  rw [hwalk]

-- start() stages the module exactly when its size or the length of its chain is at most 64 KB. The
-- chain is the one that stands in memory once the first sector has been read: of a first cluster
-- whose bytes are not in the driver's memory the load buffer may decide.
theorem staged_iff (behind : Nat → Behind) (s fat : Fat.State) (entry : DirectoryEntry) (fd : Handle)
    (hopen : s.openEntry entry = (some fd, fat)) :
    Staged behind fat fd ↔ (RecordsSize entry ∧ entry.size.toNat ≤ MEMORY_USERLAND_SIZE) ∨
      EndsWithin (fat.volume.inMemory (behind fat.calls)) fd entry 128 := by
  obtain ⟨slot, rfl, -, -, hfile⟩ := openEntry_record hopen
  have hstart : (fat.file (.file slot)).position = 0 := by rw [hfile]
  have hsize : (fat.file (.file slot)).size = entry.size.toNat := by rw [hfile]
  have hplace : (fat.file (.file slot)).place = ⟨entry.firstCluster, 0⟩ := by rw [hfile]; rfl
  have hsized : (fat.file (.file slot)).Sized ↔ RecordsSize entry := by
    unfold FileData.Sized RecordsSize
    rw [hfile]
    simp
  have hfirst : Reader.AtFirst fat.calls { fd := fat.file (.file slot), calls := fat.calls } := by
    refine ⟨?_, ?_, rfl⟩ <;> simp only [hfile]
    decide
  have hsettled : fat.Settled slot fat.calls := .inr (.inl hfirst)
  have hlt := entry.size.toNat_lt
  unfold EndsWithin
  rw [← hsized, ← hsize, ← hplace]
  rcases left_or_endless (v := fat.volume.inMemory (behind fat.calls)) hstart (by omega) with
    ⟨n, hleft⟩ | hendless
  · rw [staged_iff_left hsettled hleft hstart]
    exact hleft.le_iff hstart 128
  · refine iff_of_false (not_staged_endless hsettled hendless) ?_
    rintro (⟨hs, -⟩ | hwalk)
    · exact hendless.unsized hs
    · exact hendless.goes 128 hwalk

theorem staged_iff_sample :
    Staged (fun _ _ => 0) (largeState.openEntry sampleEntry).2 (.file 0) ↔
      (RecordsSize sampleEntry ∧ 600 ≤ MEMORY_USERLAND_SIZE) ∨
        EndsWithin (largeState.volume.inMemory fun _ => 0) (.file 0) sampleEntry 128 :=
  staged_iff (fun _ _ => 0) largeState _ sampleEntry (.file 0) (largeState_open 600)

-- A chain of two clusters of 64 KiB
def longState : Fat.State :=
  { largeState with
    volume :=
      { largeState.volume with
        fat := fun i => if i = 3 then 0x03 else if i = 4 then 0xF0 else 0xFF } }

def longEntry : DirectoryEntry := { sampleEntry with size := 0x10001 }

-- One byte too many, whatever stands behind the driver's area
theorem not_staged_long : ¬∃ behind, Staged behind (longState.openEntry longEntry).2 (.file 0) := by
  rintro ⟨behind, hstaged⟩
  let fat : Fat.State := (longState.openEntry longEntry).2
  have hfirst : Reader.AtFirst fat.calls { fd := fat.file (.file 0), calls := fat.calls } :=
    ⟨rfl, by decide, rfl⟩
  have hsettled : fat.Settled 0 fat.calls := .inr (.inl hfirst)
  obtain ⟨n, hleft⟩ : ∃ n, Left (longState.volume.inMemory (behind fat.calls)) (.file 0)
      (fat.file (.file 0)) n := exists_left_of_sized (.inl rfl) (Nat.zero_le _) (by decide)
  have hsmall : n ≤ MEMORY_USERLAND_SIZE := (staged_iff_left hsettled hleft rfl).mp hstaged
  rcases (hleft.le_iff rfl 128).mp hsmall with ⟨-, hsize⟩ | hwalk
  · exact absurd hsize (by decide)
  · have hshort : EndsWithin longState.volume (.file 0) longEntry 128 :=
      (endsWithin_inMemory (inArea_of_lt (by decide)) (behind fat.calls) 128).mp hwalk
    have hlong : ¬EndsWithin longState.volume (.file 0) longEntry 128 := by
      unfold EndsWithin
      decide +kernel
    exact hlong hshort

end Opened

end ToyKernel.Stage2
