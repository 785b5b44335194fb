import Mathlib.Data.List.Forall2
import ToyKernel.Pmm

namespace ToyKernel.Stage2

-- stage2/bootparams.h
structure E820MemoryBlock where
  baseLow : BitVec 32
  baseHigh : BitVec 32
  lengthLow : BitVec 32
  lengthHigh : BitVec 32
  type : BitVec 32
  acpi : BitVec 32

def E820Signature : BitVec 32 := 0x534D4150

def MAX_REGIONS : Nat := 256

-- What int 0x15 leaves in the registers and in the structure at es:di.
structure Int15 where
  eax : BitVec 32
  ebx : BitVec 32
  ecx : BitVec 32
  block : E820MemoryBlock

-- The BIOS, called with 0xE820 in eax, the signature in edx and 24 in ecx. `σ` is what it
-- keeps between two calls.
structure Bios (σ : Type) where
  int15 : σ → (ebx : BitVec 32) → (block : E820MemoryBlock) → Int15 × σ

-- The locals of Memory_Detect, the state of the BIOS, `g_MemRegions` with the memory behind
-- it, and `g_MemRegionCount`. The array is indexed without a check.
structure Detector (σ : Type) where
  bios : σ
  block : E820MemoryBlock
  continuation : BitVec 32
  ret : BitVec 32
  regions : Nat → MemoryRegion
  regionCount : Nat

namespace Detector

variable {σ : Type}

-- x86_E820GetNextBlock(&block, &continuation). The continuation is stored only when the
-- signature came back.
def e820GetNextBlock (bios : Bios σ) (d : Detector σ) : Detector σ :=
  let (regs, s) := bios.int15 d.bios d.continuation d.block
  if regs.eax = E820Signature then
    { d with bios := s, block := regs.block, continuation := regs.ebx, ret := regs.ecx }
  else { d with bios := s, block := regs.block, ret := -1 }

def regionOf (block : E820MemoryBlock) : MemoryRegion where
  beginLow := block.baseLow
  beginHigh := block.baseHigh
  lengthLow := block.lengthLow
  lengthHigh := block.lengthHigh
  type := block.type
  acpi := block.acpi

def record (d : Detector σ) : Detector σ :=
  { d with
    regions := fun i => if i = d.regionCount then regionOf d.block else d.regions i
    regionCount := d.regionCount + 1 }

-- `while (ret > 0 && continuation != 0)`, for at most `rounds` rounds.
def detectLoop (bios : Bios σ) : (rounds : Nat) → Detector σ → Option (Detector σ)
  | 0, _ => none
  | rounds + 1, d =>
      if 0 < d.ret.toInt ∧ d.continuation ≠ 0 then detectLoop bios rounds (d.record.e820GetNextBlock bios)
      else some d

-- The regions that `memoryInfo` is made to name.
def memoryInfo (d : Detector σ) : List MemoryRegion := (List.range d.regionCount).map d.regions

end Detector

def memoryDetect {σ : Type} (bios : Bios σ) (s : σ) (block : E820MemoryBlock)
    (regions : Nat → MemoryRegion) (rounds : Nat) : Option (Detector σ) :=
  Detector.detectLoop bios rounds (Detector.e820GetNextBlock bios
    { bios := s, block, continuation := 0, ret := 0, regions, regionCount := 0 })

section Convention

variable {σ : Type}

-- A block of the BIOS's map. Without an ACPI field it is 20 bytes long, and that field of
-- the structure keeps what was in it.
structure Entry where
  baseLow : BitVec 32
  baseHigh : BitVec 32
  lengthLow : BitVec 32
  lengthHigh : BitVec 32
  type : BitVec 32
  acpi : Option (BitVec 32)

def Entry.size (e : Entry) : BitVec 32 := if e.acpi.isSome then 24 else 20

def Entry.put (e : Entry) (block : E820MemoryBlock) : E820MemoryBlock where
  baseLow := e.baseLow
  baseHigh := e.baseHigh
  lengthLow := e.lengthLow
  lengthHigh := e.lengthHigh
  type := e.type
  acpi := e.acpi.getD block.acpi

def Holds (region : MemoryRegion) (e : Entry) : Prop :=
  ∃ block, region = Detector.regionOf (e.put block)

-- From continuation `ebx` on the BIOS gives the blocks of the list one by one; the value it
-- hands back is 0 with the last one and only then.
def Enumerates (bios : Bios σ) : List Entry → σ → (ebx : BitVec 32) → Prop
  | [], _, _ => True
  | e :: rest, s, ebx => ∀ block,
      (bios.int15 s ebx block).1.eax = E820Signature ∧
      (bios.int15 s ebx block).1.ecx = e.size ∧
      (bios.int15 s ebx block).1.block = e.put block ∧
      ((bios.int15 s ebx block).1.ebx = 0 ↔ rest = []) ∧
      Enumerates bios rest (bios.int15 s ebx block).2 (bios.int15 s ebx block).1.ebx

-- Up to MAX_REGIONS blocks are recorded all and in order, and of more nothing is written
-- behind the array. The loop may take any number of rounds above that of the blocks.
structure DetectsAll (bios : Bios σ) (s : σ) (entries : List Entry) : Prop where
  records : entries.length ≤ MAX_REGIONS → ∀ block before rounds, entries.length < rounds →
    ∃ d, memoryDetect bios s block before rounds = some d ∧ List.Forall₂ Holds d.memoryInfo entries
  bounded : MAX_REGIONS < entries.length → ∀ block before rounds, entries.length < rounds →
    ∃ d, memoryDetect bios s block before rounds = some d ∧
      ∀ i, MAX_REGIONS ≤ i → d.regions i = before i

end Convention

namespace Detector

variable {σ : Type} {bios : Bios σ}

-- `d'` has recorded the entries from the count of `d` on, and nothing else.
structure Recorded (d d' : Detector σ) (entries : List Entry) : Prop where
  count : d'.regionCount = d.regionCount + entries.length
  holds : ∀ i (hi : i < entries.length), Holds (d'.regions (d.regionCount + i)) (entries.get ⟨i, hi⟩)
  outside : ∀ i, i < d.regionCount ∨ d'.regionCount ≤ i → d'.regions i = d.regions i

-- The call that fetched `e` has just returned, with `rest` still to come.
structure Fetched (bios : Bios σ) (d : Detector σ) (e : Entry) (rest : List Entry) : Prop where
  ret : 0 < d.ret.toInt
  block : ∃ b, d.block = e.put b
  last : d.continuation = 0 ↔ rest = []
  next : Enumerates bios rest d.bios d.continuation

theorem size_pos (e : Entry) : 0 < e.size.toInt := by
  unfold Entry.size
  split <;> decide

theorem fetched_of_enumerates {e : Entry} {rest : List Entry} (d : Detector σ)
    (h : Enumerates bios (e :: rest) d.bios d.continuation) :
    Fetched bios (d.e820GetNextBlock bios) e rest := by
  obtain ⟨heax, hecx, hblock, hlast, hnext⟩ := h d.block
  have hget : d.e820GetNextBlock bios =
      { d with
        bios := (bios.int15 d.bios d.continuation d.block).2
        block := (bios.int15 d.bios d.continuation d.block).1.block
        continuation := (bios.int15 d.bios d.continuation d.block).1.ebx
        ret := (bios.int15 d.bios d.continuation d.block).1.ecx } := if_pos heax
  rw [hget]
  refine ⟨?_, ⟨d.block, hblock⟩, hlast, hnext⟩
  change 0 < (bios.int15 d.bios d.continuation d.block).1.ecx.toInt
  rw [hecx]
  exact size_pos e

variable (bios) in
theorem regions_e820GetNextBlock (d : Detector σ) :
    (d.e820GetNextBlock bios).regions = d.regions ∧
      (d.e820GetNextBlock bios).regionCount = d.regionCount := by
  unfold e820GetNextBlock
  dsimp only
  split <;> exact ⟨rfl, rfl⟩

-- One round records the block at hand; then the rest of the run follows.
theorem Recorded.cons {d d' : Detector σ} {e : Entry} {entries : List Entry}
    (hblock : ∃ b, d.block = e.put b) (h : Recorded (d.record.e820GetNextBlock bios) d' entries) :
    Recorded d d' (e :: entries) := by
  obtain ⟨hregions, hcount⟩ := regions_e820GetNextBlock bios d.record
  have hstart : (d.record.e820GetNextBlock bios).regionCount = d.regionCount + 1 := hcount
  refine ⟨?_, fun i hi => ?_, fun i hi => ?_⟩
  · rw [h.count, hstart, List.length_cons]
    omega
  · cases i with
    | zero =>
        obtain ⟨b, hb⟩ := hblock
        refine ⟨b, ?_⟩
        rw [Nat.add_zero, h.outside _ (Or.inl (by omega)), hregions]
        change (if d.regionCount = d.regionCount then _ else _) = regionOf (e.put b)
        rw [if_pos rfl, hb]
    | succ i =>
        have hlater := h.holds i (by simpa using hi)
        rw [hstart] at hlater
        rwa [show d.regionCount + (i + 1) = d.regionCount + 1 + i by omega]
  · have hlen := h.count
    rw [h.outside i (by omega), hregions]
    exact if_neg (by omega)

-- The round that would record the last block is not made: its continuation is 0.
theorem detectLoop_of_fetched {d : Detector σ} {e : Entry} {rest : List Entry}
    (h : Fetched bios d e rest) (rounds : Nat) (hrounds : rest.length < rounds) :
    ∃ d', detectLoop bios rounds d = some d' ∧ Recorded d d' (e :: rest).dropLast := by
  induction rest generalizing d e rounds with
  | nil =>
      obtain ⟨rounds, rfl⟩ := Nat.exists_eq_succ_of_ne_zero (Nat.ne_of_gt hrounds)
      have hzero := h.last.mpr rfl
      refine ⟨d, by simp [detectLoop, hzero], rfl, fun i hi => ?_, fun i _ => rfl⟩
      exact absurd hi (by simp)
  | cons next rest ih =>
      obtain ⟨rounds, rfl⟩ := Nat.exists_eq_succ_of_ne_zero (Nat.ne_of_gt (Nat.zero_lt_of_lt hrounds))
      have hmore : d.continuation ≠ 0 := fun hzero => by simpa using h.last.mp hzero
      have hfetched : Fetched bios (d.record.e820GetNextBlock bios) next rest :=
        fetched_of_enumerates d.record h.next
      obtain ⟨d', hrun, hrec⟩ := ih hfetched rounds (by simpa using hrounds)
      refine ⟨d', ?_, hrec.cons h.block⟩
      rw [detectLoop, if_pos ⟨h.ret, hmore⟩, hrun]

end Detector

section Whole

variable {σ : Type} {bios : Bios σ} {s : σ} {entries : List Entry}

-- All blocks but the last are recorded, whatever their number.
theorem memoryDetect_records (h : Enumerates bios entries s 0) (hne : entries ≠ [])
    (block : E820MemoryBlock) (before : Nat → MemoryRegion) (rounds : Nat)
    (hrounds : entries.length < rounds) :
    ∃ d, memoryDetect bios s block before rounds = some d ∧
      d.regionCount = entries.length - 1 ∧
      (∀ i (hi : i + 1 < entries.length), Holds (d.regions i) (entries.get ⟨i, by omega⟩)) ∧
      ∀ i, entries.length - 1 ≤ i → d.regions i = before i := by
  cases entries with
  | nil => exact absurd rfl hne
  | cons e rest =>
      have hfetched := Detector.fetched_of_enumerates
        { bios := s, block, continuation := 0, ret := 0, regions := before, regionCount := 0 } h
      obtain ⟨d, hrun, hrec⟩ := Detector.detectLoop_of_fetched hfetched rounds (by simp at hrounds; omega)
      obtain ⟨hregions, hcount⟩ := Detector.regions_e820GetNextBlock bios
        { bios := s, block, continuation := 0, ret := 0, regions := before, regionCount := 0 }
      have hlen : d.regionCount = (e :: rest).length - 1 := by
        rw [hrec.count, hcount, List.length_dropLast, Nat.zero_add]
      refine ⟨d, hrun, hlen, fun i hi => ?_, fun i hi => ?_⟩
      · have hholds := hrec.holds i (by rw [List.length_dropLast]; omega)
        rw [hcount, Nat.zero_add] at hholds
        simpa [List.get_eq_getElem, List.getElem_dropLast] using hholds
      · rw [hrec.outside i (Or.inr (by omega)), hregions]

theorem not_detectsAll_of_le (h : Enumerates bios entries s 0) (hne : entries ≠ [])
    (hle : entries.length ≤ MAX_REGIONS) : ¬DetectsAll bios s entries := by
  intro hall
  obtain ⟨d, hrun, hcount, -, -⟩ := memoryDetect_records h hne
    ⟨0, 0, 0, 0, 0, 0⟩ (fun _ => ⟨0, 0, 0, 0, 0, 0⟩)
    (entries.length + 1) (by omega)
  obtain ⟨d', hrun', hlist⟩ := hall.records hle _ _ _ (Nat.lt_succ_self _)
  obtain rfl : d = d' := Option.some.inj (hrun.symm.trans hrun')
  have hlen := hlist.length_eq
  have hpos := List.length_pos_iff.mpr hne
  simp only [Detector.memoryInfo, List.length_map, List.length_range] at hlen
  omega

-- The block with index MAX_REGIONS is written behind the array when another one follows it.
theorem not_bounded_of_lt (h : Enumerates bios entries s 0)
    (hlt : MAX_REGIONS + 1 < entries.length) : ¬DetectsAll bios s entries := by
  intro hall
  have hne : entries ≠ [] := List.ne_nil_of_length_pos (by omega)
  -- The word behind the array holds another type than the block.
  have hother : ∃ region : MemoryRegion, region.type ≠ (entries.get ⟨MAX_REGIONS, by omega⟩).type := by
    refine ⟨⟨0, 0, 0, 0, (entries.get ⟨MAX_REGIONS, by omega⟩).type + 1, 0⟩, fun he => ?_⟩
    dsimp only at he
    bv_omega
  obtain ⟨region, hregion⟩ := hother
  obtain ⟨d, hrun, -, hholds, -⟩ := memoryDetect_records h hne
    ⟨0, 0, 0, 0, 0, 0⟩ (fun _ => region) (entries.length + 1) (by omega)
  obtain ⟨d', hrun', hsame⟩ := hall.bounded (by omega) _ _ _ (Nat.lt_succ_self _)
  obtain rfl : d = d' := Option.some.inj (hrun.symm.trans hrun')
  obtain ⟨b, hb⟩ := hholds MAX_REGIONS hlt
  rw [hsame MAX_REGIONS (Nat.le_refl _)] at hb
  exact hregion (by rw [hb]; rfl)

theorem detectsAll_iff (bios : Bios σ) (s : σ) (entries : List Entry) (hne : entries ≠ [])
    (h : Enumerates bios entries s 0) :
    DetectsAll bios s entries ↔ entries.length = MAX_REGIONS + 1 := by
  constructor
  · intro hall
    by_contra hlen
    by_cases hle : entries.length ≤ MAX_REGIONS
    · exact not_detectsAll_of_le h hne hle hall
    · exact not_bounded_of_lt h (by omega) hall
  · intro hlen
    refine ⟨fun hle => by omega, fun _ block before rounds hrounds => ?_⟩
    obtain ⟨d, hrun, -, -, hsame⟩ := memoryDetect_records h hne block before rounds hrounds
    exact ⟨d, hrun, fun i hi => hsame i (by omega)⟩

end Whole

section Sample

-- 640 KiB and 127 MiB of usable memory, as a BIOS with two blocks reports them.
def sampleEntries : List Entry := [⟨0, 0, 0xA0000, 0, 1, some 1⟩, ⟨0x100000, 0, 0x7F00000, 0, 1, none⟩]

def sampleBios : Bios Unit where
  int15 _ ebx block :=
    match ebx.toNat with
    | 0 => (⟨E820Signature, 1, 24, (sampleEntries.get ⟨0, by decide⟩).put block⟩, ())
    | _ => (⟨E820Signature, 0, 20, (sampleEntries.get ⟨1, by decide⟩).put block⟩, ())

theorem sampleBios_enumerates : Enumerates sampleBios sampleEntries () 0 :=
  fun _ =>
    ⟨rfl, rfl, rfl, iff_of_false (show (1 : BitVec 32) ≠ 0 by decide) (List.cons_ne_nil _ _),
      fun _ => ⟨rfl, rfl, rfl, iff_of_true rfl rfl, trivial⟩⟩

theorem detectsAll_iff_sample :
    DetectsAll sampleBios () sampleEntries ↔ sampleEntries.length = MAX_REGIONS + 1 :=
  detectsAll_iff sampleBios () sampleEntries (by decide) sampleBios_enumerates

-- Of the two blocks only the 640 KiB are recorded.
theorem not_detectsAll_sample :
    (sampleEntries ≠ [] ∧ sampleEntries.length ≤ MAX_REGIONS ∧
      Enumerates sampleBios sampleEntries () 0) ∧ ¬DetectsAll sampleBios () sampleEntries :=
  ⟨⟨by decide, by decide, sampleBios_enumerates⟩,
    not_detectsAll_of_le sampleBios_enumerates (by decide) (by decide)⟩

end Sample

end ToyKernel.Stage2
