import ToyKernel.Elf.Page
import ToyKernel.Vmm.Privilege

namespace ToyKernel.Elf

open Library ByteMemory Client

-- The number in `count` bytes of a file, lowest byte first.
def number (file : Nat → BitVec 8) (offset count : Nat) : Nat :=
  ((List.range count).map fun i => (file (offset + i)).toNat * 256 ^ i).sum

-- The fields of a program header that elf_load reads
structure Phdr where
  type : Nat
  offset : Nat
  vaddr : Nat
  filesz : Nat
  memsz : Nat

section File

variable (file : Nat → BitVec 8)

def phnum : Nat := number file 44 2

def phdrOffset (i : Nat) : Nat := number file 28 4 + i * number file 42 2

def phdr (i : Nat) : Phdr where
  type := number file (phdrOffset file i) 4
  offset := number file (phdrOffset file i + 4) 4
  vaddr := number file (phdrOffset file i + 8) 4
  filesz := number file (phdrOffset file i + 16) 4
  memsz := number file (phdrOffset file i + 20) 4

-- Header `i` is one of a segment to be loaded.
def Loadable (i : Nat) : Prop := i < phnum file ∧ (phdr file i).type = PT_LOAD

theorem phnum_lt : phnum file < 65536 := by
  have hlow := (file 44).isLt
  have hhigh := (file 45).isLt
  have hnumber : phnum file = (file 44).toNat + (file 45).toNat * 256 := by
    simp [phnum, number, List.range_succ]
  omega

-- What the ELF ABI asks of the segments of a file of `size` bytes, and that they lie below
-- the kernel half.
structure WellFormed (size : Nat) : Prop where
  header : 52 ≤ size
  headers : ∀ i < phnum file, phdrOffset file i + 32 ≤ size
  inside : ∀ i, Loadable file i → (phdr file i).offset + (phdr file i).filesz ≤ size
  filesz_le : ∀ i, Loadable file i → (phdr file i).filesz ≤ (phdr file i).memsz
  congruent : ∀ i, Loadable file i → (phdr file i).vaddr % 4096 = (phdr file i).offset % 4096
  user : ∀ i, Loadable file i → (phdr file i).vaddr + (phdr file i).memsz ≤ KERNEL_VIRT_BASE
  disjoint : ∀ i j, Loadable file i → Loadable file j → i ≠ j →
    (phdr file i).vaddr + (phdr file i).memsz ≤ (phdr file j).vaddr ∨
      (phdr file j).vaddr + (phdr file j).memsz ≤ (phdr file i).vaddr

end File

-- The file is in memory from `data` on, in frames that are in use for it.
structure Staged (k : Kernel) (data : Nat) (file : Nat → BitVec 8) (size : Nat) : Prop where
  fits : data + size ≤ 4294967296
  bytes : ∀ i < size, k.memory (data + i) = file i
  owned : ∀ i < size, Owned k ((data + i) / 4096)

section Staged

variable {k k' : Kernel} {data size : Nat} {file : Nat → BitVec 8}

theorem Staged.keep (h : Staged k data file size) (hkeeps : Keeps k k') : Staged k' data file size where
  fits := h.fits
  bytes i hi := ((hkeeps _ (h.owned i hi)).2 _ rfl).trans (h.bytes i hi)
  owned i hi := (hkeeps _ (h.owned i hi)).1

-- A field of the file is what the loader reads for it.
theorem Staged.bytesAt (h : Staged k data file size) {offset count : Nat} (hpos : 0 < count)
    (hend : offset + count ≤ size) : k.bytesAt (u32 (data + offset)) count = number file offset count := by
  have hfits := h.fits
  rw [u32_of_lt (by omega)]
  unfold Kernel.bytesAt number
  congr 1
  apply List.map_congr_left
  intro i hi
  rw [List.mem_range] at hi
  rw [Nat.add_assoc, h.bytes _ (by omega)]

-- The rest of a run, and its mappings, after a field that was read
theorem Staged.field_ok (h : Staged k data file size) {offset count : Nat} (hpos : 0 < count)
    (hend : offset + count ≤ size) {α : Type} {f : Nat → Client α} {r : α × Kernel}
    {P : Kernel → BitVec 32 → BitVec 32 → Prop} (hmeets : (field data offset count >>= f).Meets P k)
    (hr : k.run (field data offset count >>= f) = .ok r) :
    (f (number file offset count)).Meets P k ∧ k.run (f (number file offset count)) = .ok r := by
  obtain ⟨hfield, hrest⟩ := exists_of_field hr
  rw [h.bytesAt hpos hend] at hfield hrest
  exact ⟨((meets_bind_ok hfield f).mp hmeets).2, hrest⟩

-- The rest of a run that succeeds, after a check of a field
theorem Staged.check (h : Staged k data file size) {offset count : Nat} (hpos : 0 < count)
    (hend : offset + count ≤ size) {expected entry : Nat} {err : Result} (herr : err ≠ .ok entry)
    {next : Client Result} {P : Kernel → BitVec 32 → BitVec 32 → Prop}
    (hmeets : (field data offset count >>= fun value =>
      if value ≠ expected then pure err else next).Meets P k)
    (hr : k.run (field data offset count >>= fun value =>
      if value ≠ expected then pure err else next) = .ok (.ok entry, k')) :
    next.Meets P k ∧ k.run next = .ok (.ok entry, k') := by
  obtain ⟨hmeets, hr⟩ := h.field_ok hpos hend hmeets hr
  by_cases hne : number file offset count ≠ expected
  · rw [if_pos hne] at hr
    cases hr
    exact absurd rfl herr
  · rw [if_neg hne] at hr hmeets
    exact ⟨hmeets, hr⟩

end Staged

section Progress

variable {k : Kernel} {data size : Nat} {file : Nat → BitVec 8} {directory : Nat}
  {table : Nat → Option Nat}

theorem Staged.run_field (hst : Staged k data file size) (hreach : k.Reaches data size)
    {offset count : Nat} (hpos : 0 < count) (hend : offset + count ≤ size) :
    k.run (field data offset count) = .ok (number file offset count, k) := by
  rw [← hst.bytesAt hpos hend]
  have hfits := hst.fits
  have hfield : k.Reaches (u32 (data + offset)) count := by
    rw [u32_of_lt (by omega)]
    exact hreach.part (by omega) (by omega)
  have haccess : k.access (u32 (data + offset)) count (k.bytesAt (u32 (data + offset)) count) = .ok _ :=
    if_pos hfield
  exact congrArg (fun x => x >>= fun value => Except.ok (value, k)) haccess

theorem avoidsOk_empty (p : Pmm) (a : Pmm.Allocation) : Pmm.AvoidsOk ∅ p a :=
  (Pmm.avoids_iff _ p a).mp fun f _ hf => absurd hf (Set.notMem_empty f)

-- A page is loaded where its frame, and one for its table, are below 4 MiB.
theorem loadPage_runs (hst : Staged k data file size) (hl : Layout k directory table)
    (hlow : data + size ≤ 4194304) {phdr vaddr filesz page : Nat} (hphdr : phdr + 32 ≤ size)
    (hinside : number file (phdr + 4) 4 + filesz ≤ size) (hend : vaddr + 4096 * page < 4294967296)
    (hwindow : PD_INDEX (vaddr + 4096 * page) ≠ 0 ∧ PD_INDEX (vaddr + 4096 * page) ≠ 768)
    (hfit : FitsLow k.pmm 1) (hframe : (k.pmm.allocateBlock 1).1 ≠ 0)
    (hfit' : FitsLow (k.pmm.allocateBlock 1).2 1) :
    ∃ k' directory' table', k.run (loadPage data phdr vaddr filesz page) = .ok (true, k') ∧
      Layout k' directory' table' := by
  have hpaged : Paged k := ⟨hl.walkable, hl.markedTables⟩
  have hoff : u32 (page * PAGE_SIZE) = 4096 * page := by
    rw [Nat.mul_comm]
    exact u32_of_lt (by unfold PAGE_SIZE; omega)
  have hmet : Met ∅ (loadPage data phdr vaddr filesz page) k := by
    refine ⟨⟨avoidsOk_empty _ _, hfit⟩, fun r hr => ?_⟩
    have hst' := hst.keep (hpaged.allocateBlock_ok hr).1.keeps
    have hpmm := Kernel.allocateBlock_pmm hr
    -- the mapping, whatever the memory holds by then
    have hmapping : ∀ k₂ : Kernel, k₂.pmm = r.2.pmm → Met ∅
        (mapPageUser (BitVec.ofNat 32 r.1) (BitVec.ofNat 32 (vaddr + 4096 * page)) fun _ => done true) k₂ := by
      intro k₂ hk₂
      have hto : (BitVec.ofNat 32 (vaddr + 4096 * page)).toNat = vaddr + 4096 * page := by
        rw [BitVec.toNat_ofNat]
        exact Nat.mod_eq_of_lt hend
      refine ⟨⟨Or.inr ?_, ⟨fun hz => ?_, fun hz => ?_⟩, Or.inr (avoidsOk_empty _ _)⟩, fun _ _ => trivial⟩
      · rwa [hk₂, hpmm]
      · rw [hto] at hz
        exact absurd hz hwindow.1
      · rw [hto] at hz
        exact absurd hz hwindow.2
    by_cases hz : r.1 = 0
    · refine (congrArg (fun c => Met ∅ c r.2) (if_pos hz)).mpr trivial
    · refine (congrArg (fun c => Met ∅ c r.2) (if_neg hz)).mpr ?_
      rw [hoff, copyPage]
      by_cases hlt : 4096 * page < filesz
      · rw [if_pos hlt]
        have hvalue := hst'.bytesAt (show 0 < 4 by omega) (show phdr + 4 + 4 ≤ size by omega)
        have hfits := hst.fits
        refine ⟨?_, ?_, fun k₂ hk₂ => hmapping k₂ ?_⟩
        · rw [u32_of_lt (by omega)]
          omega
        · rw [hvalue]
          have hmin : min (filesz - 4096 * page) PAGE_SIZE ≤ filesz - 4096 * page := Nat.min_le_left ..
          rw [u32_of_lt (by omega)]
          omega
        · obtain ⟨mid, hsource, hcopy⟩ := exists_of_bind hk₂
          rw [(Kernel.access_ok hsource).2] at hcopy
          rw [(Kernel.access_ok hcopy).2]
      · rw [if_neg hlt]
        exact hmapping r.2 rfl
  obtain ⟨loaded, k', held', hrun, directory', table', hl', -⟩ :=
    run_reaches ⟨directory, table, hl, fun page hpage => by cases hpage⟩
      (loadPage_writesOwn [] data phdr vaddr filesz page) hmet
  rcases loadPage_ok hpaged hrun with ⟨-, hnone, -⟩ | ⟨htrue, -⟩
  · exact absurd hnone hframe
  · obtain rfl : loaded = true := htrue
    exact ⟨k', directory', table', hrun, hl'⟩

-- From `k` on, the two clients do the same.
def Agree {α : Type} (k : Kernel) (c c' : Client α) : Prop :=
  k.run c = k.run c' ∧ ∀ P, c.Meets P k ↔ c'.Meets P k

theorem Agree.trans {α : Type} {c c' c'' : Client α} (h : Agree k c c') (h' : Agree k c' c'') :
    Agree k c c'' :=
  ⟨h.1.trans h'.1, fun P => (h.2 P).trans (h'.2 P)⟩

theorem Staged.agree_field (hst : Staged k data file size) (hreach : k.Reaches data size)
    {offset count : Nat} (hpos : 0 < count)
    (hend : offset + count ≤ size) {α : Type} (f : Nat → Client α) :
    Agree k (field data offset count >>= f) (f (number file offset count)) := by
  have hrun := hst.run_field hreach hpos hend
  refine ⟨run_bind_ok hrun f, fun P => (meets_bind_ok hrun f).trans ?_⟩
  exact and_iff_right field_meets

theorem Staged.agree_check (hst : Staged k data file size) (hreach : k.Reaches data size)
    {offset count : Nat} (hpos : 0 < count)
    (hend : offset + count ≤ size) {expected : Nat} (hvalue : number file offset count = expected)
    (err : Result) (next : Client Result) :
    Agree k (field data offset count >>= fun value => if value ≠ expected then pure err else next) next := by
  have hagree := hst.agree_field hreach hpos hend fun value => if value ≠ expected then pure err else next
  rwa [if_neg (not_not_intro hvalue)] at hagree

theorem Agree.bind {α β : Type} {c c' : Client α} (h : Agree k c c') (f : α → Client β) :
    Agree k (c >>= f) (c' >>= f) := by
  refine ⟨by rw [run_bind, run_bind, h.1], fun P => ?_⟩
  rw [meets_bind, meets_bind, h.1, h.2 P]

-- A file with the header that elf_load wants and one segment
structure OneSegment (file : Nat → BitVec 8) (size : Nat) : Prop where
  magic0 : number file 0 1 = ELFMAG0
  magic1 : number file 1 1 = ELFMAG1
  magic2 : number file 2 1 = ELFMAG2
  magic3 : number file 3 1 = ELFMAG3
  class32 : number file 4 1 = ELFCLASS32
  exec : number file 16 2 = ET_EXEC
  header : 52 ≤ size
  phnum : number file 44 2 = 1
  headers : phdrOffset file 0 + 32 ≤ size
  load : (phdr file 0).type = PT_LOAD

-- ... of one page
structure OnePage (file : Nat → BitVec 8) (size : Nat) : Prop extends OneSegment file size where
  inside : (phdr file 0).offset + (phdr file 0).filesz ≤ size
  pages : u32 ((phdr file 0).memsz + PAGE_SIZE - 1) / PAGE_SIZE = 1

-- What is left of elf_load after the loop over the headers
def finish (data : Nat) : Option Nat → Client Result
  | none => return .errOom
  | some 0 => return .errNoLoad
  | some _ => return .ok (← field data 24 4)

-- The load of such a file comes to the pages of its segment.
theorem OneSegment.agree (h : OneSegment file size) (hst : Staged k data file size)
    (hreach : k.Reaches data size) :
    Agree k (elfLoad data)
      ((loadPages data (phdrOffset file 0) (phdr file 0).vaddr (phdr file 0).filesz
          (List.range (u32 ((phdr file 0).memsz + PAGE_SIZE - 1) / PAGE_SIZE)) >>= fun complete =>
        if complete then loadSegments data 65535 1 1 else return none) >>= finish data) := by
  have hheader := h.header
  have hheaders := h.headers
  have hphnum := h.phnum
  have hall : Agree k (elfLoad data) (loadSegments data 65536 0 0 >>= finish data) := by
    unfold elfLoad
    refine (hst.agree_check hreach (by omega) (by omega) h.magic0 _ _).trans ?_
    refine (hst.agree_check hreach (by omega) (by omega) h.magic1 _ _).trans ?_
    refine (hst.agree_check hreach (by omega) (by omega) h.magic2 _ _).trans ?_
    refine (hst.agree_check hreach (by omega) (by omega) h.magic3 _ _).trans ?_
    refine (hst.agree_check hreach (by omega) (by omega) h.class32 _ _).trans ?_
    exact hst.agree_check hreach (by omega) (by omega) h.exec _ _
  refine hall.trans (Agree.bind ?_ (finish data))
  rw [show 65536 = 65535 + 1 from rfl, loadSegments]
  refine (hst.agree_field hreach (by omega) (by omega) _).trans ?_
  rw [if_neg (show ¬0 ≥ number file 44 2 by omega)]
  refine (hst.agree_field hreach (by omega) (by omega) _).trans ?_
  refine (hst.agree_field hreach (by omega) (by omega) _).trans ?_
  refine (hst.agree_field hreach (by omega) (show phdrOffset file 0 + 4 ≤ size by omega) _).trans ?_
  rw [if_neg (show ¬number file (phdrOffset file 0) 4 ≠ PT_LOAD from not_not_intro h.load)]
  refine (hst.agree_field hreach (by omega) (show phdrOffset file 0 + 8 + 4 ≤ size by omega) _).trans ?_
  refine (hst.agree_field hreach (by omega) (show phdrOffset file 0 + 16 + 4 ≤ size by omega) _).trans ?_
  exact hst.agree_field hreach (by omega) (show phdrOffset file 0 + 20 + 4 ≤ size by omega) _

-- The load of such a file is the load of the pages of its segment.
theorem OneSegment.loads (h : OneSegment file size) (hst : Staged k data file size) (hreach : k.Reaches data size)
    {k' : Kernel} (hst' : Staged k' data file size) (hreach' : k'.Reaches data size)
    (hpages : k.run (loadPages data (phdrOffset file 0) (phdr file 0).vaddr (phdr file 0).filesz
      (List.range (u32 ((phdr file 0).memsz + PAGE_SIZE - 1) / PAGE_SIZE))) = .ok (true, k')) :
    k.run (elfLoad data) = .ok (.ok (number file 24 4), k') ∧
      ∀ P, (elfLoad data).Meets P k ↔
        (loadPages data (phdrOffset file 0) (phdr file 0).vaddr (phdr file 0).filesz
          (List.range (u32 ((phdr file 0).memsz + PAGE_SIZE - 1) / PAGE_SIZE))).Meets P k := by
  have hheader := h.header
  have hphnum := h.phnum
  -- the second round of the loop finds no header
  have hsecond : Agree k' (loadSegments data 65535 1 1) (pure (some 1)) := by
    rw [show 65535 = 65534 + 1 from rfl, loadSegments]
    refine (hst'.agree_field hreach' (by omega) (by omega) _).trans ?_
    rw [if_pos (show 1 ≥ number file 44 2 by omega)]
    exact ⟨rfl, fun _ => Iff.rfl⟩
  have hlast := hst'.agree_field hreach' (show 0 < 4 by omega) (show 24 + 4 ≤ size by omega)
    fun entry => (pure (.ok entry) : Client Result)
  have hall := h.agree hst hreach
  have hloop := (run_bind_ok hpages fun complete =>
    if complete then loadSegments data 65535 1 1 else return none).trans hsecond.1
  refine ⟨hall.1.trans ((run_bind_ok hloop _).trans hlast.1), fun P => (hall.2 P).trans ?_⟩
  refine (meets_bind_ok hloop _).trans ?_
  rw [meets_bind_ok hpages]
  constructor
  · intro hmeets
    exact hmeets.1.1
  · intro hmeets
    exact ⟨⟨hmeets, (hsecond.2 P).mpr trivial⟩, (hlast.2 P).mpr trivial⟩

-- The load of a file of one page is the load of its page.
theorem elfLoad_onePage (h : OnePage file size) (hst : Staged k data file size)
    (hl : Layout k directory table) (hlow : data + size ≤ 4194304) {k' : Kernel}
    {directory' : Nat} {table' : Nat → Option Nat} (hst' : Staged k' data file size)
    (hl' : Layout k' directory' table')
    (hpage : k.run (loadPage data (phdrOffset file 0) (phdr file 0).vaddr (phdr file 0).filesz 0) =
      .ok (true, k')) :
    k.run (elfLoad data) = .ok (.ok (number file 24 4), k') ∧
      ∀ P, (elfLoad data).Meets P k ↔
        (loadPage data (phdrOffset file 0) (phdr file 0).vaddr (phdr file 0).filesz 0).Meets P k := by
  have hpages : k.run (loadPages data (phdrOffset file 0) (phdr file 0).vaddr (phdr file 0).filesz
      (List.range (u32 ((phdr file 0).memsz + PAGE_SIZE - 1) / PAGE_SIZE))) = .ok (true, k') := by
    rw [h.pages]
    exact run_bind_ok hpage _
  obtain ⟨hrun, hmeets⟩ := h.toOneSegment.loads hst (hl.reaches_low hlow) hst' (hl'.reaches_low hlow) hpages
  refine ⟨hrun, fun P => (hmeets P).trans ?_⟩
  rw [h.pages]
  constructor
  · intro hall
    exact ((meets_bind_ok hpage _).mp hall).1
  · intro hone
    exact (meets_bind_ok hpage _).mpr ⟨hone, trivial⟩

end Progress

section Sample

def word (value count : Nat) : List (BitVec 8) :=
  (List.range count).map fun i => BitVec.ofNat 8 (value / 256 ^ i)

-- A file of 84 bytes, which are a header and one program header; the segment is of `size`
-- bytes of this file from `offset` on.
def sampleFile (vaddr offset size : Nat) (b : Nat) : BitVec 8 :=
  ([0x7F, 0x45, 0x4C, 0x46, 1, 1, 1, 0, 0, 0, 0, 0, 0, 0, 0, 0] ++ word 2 2 ++ word 3 2 ++ word 1 4 ++
    word vaddr 4 ++ word 52 4 ++ word 0 8 ++ word 52 2 ++ word 32 2 ++ word 1 2 ++ word 0 6 ++
    word 1 4 ++ word offset 4 ++ word vaddr 4 ++ word vaddr 4 ++ word size 4 ++ word size 4 ++
    word 7 4 ++ word 4096 4).getD b 0

-- The bootloader has put it at 0x50000.
def sampleParams : BootParams where
  regions := [Pmm.sampleRegion]
  modules := [⟨0x50000, 84⟩]
  modules_le := by decide

def samplePmm : Pmm := Pmm.initMemory Pmm.sampleImage (fun _ => 0) sampleParams

def sampleMemory (file : Nat → BitVec 8) : Memory := fun b =>
  if 0x50000 ≤ b then file (b - 0x50000) else 0

@[irreducible] def sampleKernel (file : Nat → BitVec 8) : Kernel :=
  (Kernel.booted Pmm.sampleImage (fun _ => 0) sampleParams (sampleMemory file) 0).initialized

theorem room_sample : Room ∅ samplePmm 3 :=
  room_of_free {1, 2, 3} (by decide +kernel) (by decide +kernel)

theorem kernel_sample (file : Nat → BitVec 8) : ∃ directory low high,
    Layout (sampleKernel file) directory (bootTables low high) ∧
      BootEntries (sampleKernel file).memory directory low high ∧
      (sampleKernel file).pmm = Kernel.initialPmm samplePmm ∧
      Staged (sampleKernel file) 0x50000 file 84 := by
  obtain ⟨directory, low, high, hl, hentries, hpmm, howned⟩ :=
    booted_owned (sampleMemory file) 0 room_sample
  have hmarked : samplePmm.testBit 80 = true := by decide +kernel
  obtain ⟨hframe, hmemory⟩ := howned 80 hmarked
  unfold sampleKernel
  refine ⟨directory, low, high, hl, hentries, hpmm, by decide, fun i hi => ?_, fun i hi => ?_⟩
  · rw [hmemory _ (by omega), sampleMemory, if_pos (Nat.le_add_right _ _), Nat.add_sub_cancel_left]
  · rwa [show (0x50000 + i) / 4096 = 80 by omega]

-- The first two frames that the loader is given
theorem frames_sample : (Kernel.initialPmm samplePmm).getFreeFrameBySize 1 = some 4 ∧
    ((Kernel.initialPmm samplePmm).allocateBlock 1).2.getFreeFrameBySize 1 = some 5 := by
  decide +kernel

-- Each of these files is loaded.
theorem load_sample {file : Nat → BitVec 8} (h : OnePage file 84)
    (hvaddr : (phdr file 0).vaddr < 4294967296)
    (hwindow : PD_INDEX (phdr file 0).vaddr ≠ 0 ∧ PD_INDEX (phdr file 0).vaddr ≠ 768) :
    ∃ k', (sampleKernel file).run (elfLoad 0x50000) = .ok (.ok (number file 24 4), k') ∧
      (sampleKernel file).run (loadPage 0x50000 (phdrOffset file 0) (phdr file 0).vaddr
        (phdr file 0).filesz 0) = .ok (true, k') ∧
      ∀ P, (elfLoad 0x50000).Meets P (sampleKernel file) ↔
        (loadPage 0x50000 (phdrOffset file 0) (phdr file 0).vaddr (phdr file 0).filesz 0).Meets P
          (sampleKernel file) := by
  obtain ⟨directory, low, high, hl, -, hpmm, hst⟩ := kernel_sample file
  obtain ⟨hfirst, hsecond⟩ := frames_sample
  rw [← hpmm] at hfirst hsecond
  have hframe : ((sampleKernel file).pmm.allocateBlock 1).1 ≠ 0 := by
    rw [Kernel.allocateBlock_address hfirst]
    omega
  obtain ⟨k', directory', table', hpage, hl'⟩ := loadPage_runs hst hl (by decide) h.headers h.inside
    (show (phdr file 0).vaddr + 4096 * 0 < 4294967296 by rwa [Nat.mul_zero, Nat.add_zero])
    (by rwa [Nat.mul_zero, Nat.add_zero]) (fitsLow_of_found hfirst (by omega)) hframe
    (fitsLow_of_found hsecond (by omega))
  have hst' := hst.keep (loadPage_keeps ⟨hl.walkable, hl.markedTables⟩ hpage).2
  obtain ⟨hrun, hmeets⟩ := elfLoad_onePage h hst hl (by decide) hst' hl' hpage
  exact ⟨k', hrun, hpage, hmeets⟩

theorem onePage_sample : OnePage (sampleFile 0x400000 0 84) 84 := by
  refine ⟨?_, by decide +kernel, by decide +kernel⟩
  constructor <;> decide +kernel

end Sample

end ToyKernel.Elf
