import ToyKernel.Pmm.Request

namespace ToyKernel.Pmm

open Library FirstFit

section Touched

-- The bits one call tests or sets, read off the loops of the call. What a search has
-- tested depends on what it found there, so the trace follows the state.
def freeBit (p : Pmm) (bit : Nat) : Option Nat := if p.testBit bit then none else some bit

def freeRun (p : Pmm) (size bit : Nat) : Option Nat :=
  if !p.testBit bit && p.fitsAt size bit (size + 1) 0 0 then some bit else none

def scanWord (p : Pmm) (answer : Nat → Option Nat) (i : Nat) : Option Nat :=
  if p.words i = 0xffffffff#32 then none
  else (List.range 32).findSome? fun j => answer (i * 32 + j)

-- The bits at which the word loop and the bit loop inside it ask for `answer`.
def scanned (p : Pmm) (answer : Nat → Option Nat) : List Nat :=
  (visited (p.scanWord answer) (List.range p.totalBlock)).flatMap fun i =>
    if p.words i = 0xffffffff#32 then []
    else (visited (fun j => answer (i * 32 + j)) (List.range 32)).map fun j => i * 32 + j

def fitsAtBits (p : Pmm) (size bit : Nat) : (left count free : Nat) → List Nat
  | 0, _, _ => []
  | left + 1, count, free =>
      u32 (bit + count) ::
        if p.testBit (u32 (bit + count)) then []
        else if free + 1 = size then []
        else p.fitsAtBits size bit left (count + 1) (free + 1)

def getFreeMemoryBlockBits (p : Pmm) : List Nat := p.scanned p.freeBit

def getFreeFrameBySizeBits (p : Pmm) (size : Nat) : List Nat :=
  if size = 0 then []
  else if p.totalUsedBlocks.toNat ≥ p.totalBlock then []
  else if size = 1 then p.getFreeMemoryBlockBits
  else (p.scanned (p.freeRun size)).flatMap fun bit =>
    bit :: if p.testBit bit then [] else p.fitsAtBits size bit (size + 1) 0 0

def allocateBlockBits (p : Pmm) (size : Nat) : List Nat :=
  p.getFreeFrameBySizeBits size ++
    match p.getFreeFrameBySize size with
    | none => []
    | some frame => (List.range size).map fun i => u32 (frame + i)

def touched (p : Pmm) : Request → List Nat
  | .reserve base size =>
      if p.totalUsedBlocks.toNat ≥ p.totalBlock then []
      else (List.range (pagesFor size)).map fun i => u32 (base / PER_BLOCK_SIZE + i)
  | .allocate .chunk =>
      if p.totalUsedBlocks.toNat ≥ p.totalBlock then []
      else p.getFreeMemoryBlockBits ++ p.getFreeMemoryBlock.toList
  | .allocate (.block size) => p.allocateBlockBits size
  | .allocate (.byte size) => p.allocateBlockBits (pagesFor size)

-- The frames of the block a call hands out.
def given (p : Pmm) (size : Nat) : List Nat :=
  match p.getFreeFrameBySize size with
  | none => []
  | some frame => (List.range size).map fun i => frame + i

def handedOut (p : Pmm) : Request → List Nat
  | .reserve _ _ => []
  | .allocate a => p.given a.frames

def InBounds (p : Pmm) (r : Request) : Prop :=
  (∀ bit ∈ p.touched r, bit < 32 * p.totalBlock) ∧ ∀ frame ∈ p.handedOut r, frame < p.totalPages

end Touched

section Scan

variable (p : Pmm) (answer : Nat → Option Nat)

theorem scanWord_eq_none_iff
    (hfull : ∀ i, p.words i = 0xffffffff#32 → ∀ j < 32, answer (i * 32 + j) = none) (i : Nat) :
    p.scanWord answer i = none ↔ ∀ j < 32, answer (i * 32 + j) = none := by
  unfold scanWord
  split
  · rename_i hw
    exact ⟨fun _ => hfull i hw, fun _ => rfl⟩
  · exact findSome?_range_eq_none_iff _ 32

-- The loops reach a bit unless its word is full or an earlier bit answered.
theorem mem_scanned_iff
    (hfull : ∀ i, p.words i = 0xffffffff#32 → ∀ j < 32, answer (i * 32 + j) = none) (bit : Nat) :
    bit ∈ p.scanned answer ↔
      bit < 32 * p.totalBlock ∧ p.words (bit / 32) ≠ 0xffffffff#32 ∧
        ∀ earlier < bit, answer earlier = none := by
  simp only [scanned, List.mem_flatMap, mem_visited_range, p.scanWord_eq_none_iff answer hfull]
  constructor
  · rintro ⟨i, ⟨hi, hwords⟩, hmem⟩
    split at hmem
    · cases hmem
    · rename_i hw
      obtain ⟨j, hj, rfl⟩ := List.mem_map.mp hmem
      obtain ⟨hlt, hbits⟩ := (mem_visited_range _ 32 j).mp hj
      have hdiv : (i * 32 + j) / 32 = i := by omega
      refine ⟨by omega, by rwa [hdiv], fun earlier he => ?_⟩
      by_cases hsame : earlier / 32 = i
      · have hb := hbits (earlier % 32) (by omega)
        rwa [show i * 32 + earlier % 32 = earlier by omega] at hb
      · have hb := hwords (earlier / 32) (by omega) (earlier % 32) (by omega)
        rwa [show earlier / 32 * 32 + earlier % 32 = earlier by omega] at hb
  · rintro ⟨hlt, hw, hbefore⟩
    refine ⟨bit / 32, ⟨by omega, fun i hi j hj => hbefore _ (by omega)⟩, ?_⟩
    rw [if_neg hw, List.mem_map]
    refine ⟨bit % 32, (mem_visited_range _ 32 _).mpr ⟨by omega, fun j hj => ?_⟩, by omega⟩
    exact hbefore _ (by omega)

theorem freeBit_of_full (i : Nat) (hw : p.words i = 0xffffffff#32) (j : Nat) (hj : j < 32) :
    p.freeBit (i * 32 + j) = none :=
  if_pos (p.testBit_of_full i j hj hw)

theorem freeRun_of_full (size i : Nat) (hw : p.words i = 0xffffffff#32) (j : Nat) (hj : j < 32) :
    p.freeRun size (i * 32 + j) = none := by
  simp [freeRun, p.testBit_of_full i j hj hw]

-- A start below 32 * TOTAL_BLOCK answers exactly when a run begins there.
theorem freeRun_eq_none_iff {size bit : Nat} (hpos : 0 < size) (hlt : bit < 4294967296) :
    p.freeRun size bit = none ↔ ¬Clear p.marked bit size := by
  unfold freeRun
  rw [ite_eq_right_iff]
  simp only [reduceCtorEq, imp_false, Bool.and_eq_true, Bool.not_eq_true', not_and,
    p.fitsAt_iff_clear hpos]
  refine ⟨fun h hc => h ?_ hc, fun h _ => h⟩
  have hfirst := hc 0 hpos
  rwa [Nat.add_zero, marked_of_lt _ hlt] at hfirst

theorem mem_fitsAtBits_iff (size bit left count b : Nat) (hle : size ≤ count + left) (hpos : count < size) :
    b ∈ p.fitsAtBits size bit left count count ↔
      ∃ k, count ≤ k ∧ k < size ∧ b = u32 (bit + k) ∧
        ∀ i, count ≤ i → i < k → p.marked (bit + i) = false := by
  induction left generalizing count with
  | zero => omega
  | succ left ih =>
      unfold fitsAtBits
      rw [List.mem_cons]
      by_cases hb : p.testBit (u32 (bit + count)) = true
      · simp only [hb, ite_true, List.not_mem_nil, or_false]
        constructor
        · intro he
          exact ⟨count, by omega, hpos, he, fun i _ _ => by omega⟩
        · rintro ⟨k, hlo, _, rfl, hall⟩
          by_cases hk : k = count
          · rw [hk]
          · have hm := hall count (by omega) (by omega)
            rw [marked, hb] at hm
            cases hm
      · have hclear : p.marked (bit + count) = false := Bool.eq_false_iff.mpr hb
        simp only [hb, Bool.false_eq_true, ite_false]
        by_cases hlast : count + 1 = size
        · simp only [hlast, ite_true, List.not_mem_nil, or_false]
          constructor
          · intro he
            exact ⟨count, by omega, hpos, he, fun i _ _ => by omega⟩
          · rintro ⟨k, hlo, hhi, rfl, _⟩
            rw [show k = count by omega]
        · simp only [hlast, ite_false]
          rw [ih (count + 1) (by omega) (by omega)]
          constructor
          · rintro (he | ⟨k, hlo, hhi, he, hall⟩)
            · exact ⟨count, by omega, hpos, he, fun i _ _ => by omega⟩
            · refine ⟨k, by omega, hhi, he, fun i hi hik => ?_⟩
              by_cases hic : i = count
              · rwa [hic]
              · exact hall i (by omega) hik
          · rintro ⟨k, hlo, hhi, he, hall⟩
            by_cases hk : k = count
            · exact Or.inl (by rw [he, hk])
            · exact Or.inr ⟨k, by omega, hhi, he, fun i hi hik => hall i (by omega) hik⟩

end Scan

section Locality

variable {p q : Pmm} {size : Nat}

-- The measuring loop sees nothing but the bits of its trace.
theorem fitsAt_congr {bit left count free : Nat}
    (h : ∀ b ∈ p.fitsAtBits size bit left count free, p.testBit b = q.testBit b) :
    p.fitsAt size bit left count free = q.fitsAt size bit left count free := by
  induction left generalizing count free with
  | zero => rfl
  | succ left ih =>
      unfold fitsAt
      have hb := h (u32 (bit + count)) (by simp [fitsAtBits])
      rw [← hb]
      by_cases ht : p.testBit (u32 (bit + count)) = true
      · simp only [ht, ite_true]
      · simp only [ht, Bool.false_eq_true, ite_false]
        by_cases hlast : free + 1 = size
        · simp only [hlast, ite_true]
        · simp only [hlast, ite_false]
          apply ih
          intro b hmem
          apply h
          simp [fitsAtBits, ht, hlast, hmem]

-- The whole search reads the bitmap words and the bits of its trace, nothing else.
theorem getFreeFrameBySize_congr (hmemory : q.totalMemory = p.totalMemory)
    (hused : q.totalUsedBlocks = p.totalUsedBlocks)
    (hwords : ∀ i < p.totalBlock, p.words i = q.words i)
    (hbits : ∀ b ∈ p.getFreeFrameBySizeBits size, p.testBit b = q.testBit b) :
    p.getFreeFrameBySize size = q.getFreeFrameBySize size := by
  have hblock : q.totalBlock = p.totalBlock := totalBlock_congr hmemory
  have hinside : ∀ i < p.totalBlock, ∀ j < 32, p.testBit (i * 32 + j) = q.testBit (i * 32 + j) := by
    intro i hi j hj
    have hdiv : (i * 32 + j) / 32 = i := by omega
    unfold testBit BitArray.test
    rw [hdiv, hwords i hi]
  unfold getFreeFrameBySize
  rw [hused, hblock]
  by_cases hz : size = 0
  · simp only [hz, ite_true]
  by_cases hclosed : p.totalUsedBlocks.toNat ≥ p.totalBlock
  · simp only [hclosed, ite_true]
  simp only [hz, hclosed, ite_false]
  by_cases hone : size = 1
  · simp only [hone, ite_true]
    unfold getFreeMemoryBlock
    rw [hblock]
    apply findSome?_range_congr
    intro i hi
    rw [hwords i hi]
    split
    · rfl
    · exact findSome?_range_congr fun j hj => by rw [hinside i hi j hj]
  · simp only [hone, ite_false]
    apply findSome?_congr_visited
    intro i hi
    have hlt := ((mem_visited_range _ _ i).mp hi).1
    rw [hwords i hlt]
    split
    · rfl
    · rename_i hw
      apply findSome?_congr_visited
      intro j hj
      have hjlt := ((mem_visited_range _ _ j).mp hj).1
      have hscan : i * 32 + j ∈ p.scanned (p.freeRun size) := by
        refine List.mem_flatMap.mpr ⟨i, hi, ?_⟩
        rw [if_neg (by rwa [hwords i hlt])]
        exact List.mem_map.mpr ⟨j, hj, rfl⟩
      rw [hinside i hlt j hjlt]
      by_cases ht : q.testBit (i * 32 + j) = true
      · simp [ht]
      · rw [fitsAt_congr]
        intro b hb
        apply hbits
        rw [getFreeFrameBySizeBits, if_neg hz, if_neg hclosed, if_neg hone]
        refine List.mem_flatMap.mpr ⟨i * 32 + j, hscan, List.mem_cons_of_mem _ ?_⟩
        rw [if_neg (by rwa [hinside i hlt j hjlt])]
        exact hb

end Locality

section Exact

variable (p : Pmm)

theorem mem_getFreeMemoryBlockBits_lt {bit : Nat} (h : bit ∈ p.getFreeMemoryBlockBits) :
    bit < 32 * p.totalBlock :=
  ((p.mem_scanned_iff p.freeBit p.freeBit_of_full bit).mp h).1

-- What a search for `size` frames needs in order to stay in the bitmap and to answer
-- within managed memory: a fit that ends there, or no fit and nothing to run past the end.
def SearchOk (size : Nat) : Prop :=
  size = 0 ∨ p.totalBlock ≤ p.totalUsedBlocks.toNat ∨
    (∃ start, start + size ≤ p.totalPages ∧ Clear p.testBit start size) ∨
    ((size = 1 ∨ p.testBit (32 * p.totalBlock - 1) = true) ∧
      ∀ start < 32 * p.totalBlock, ¬Clear p.marked start size)

variable {p} {size : Nat}

-- A start that the run loop reaches, and how far it is measured.
theorem mem_getFreeFrameBySizeBits (hpos : 1 < size) (hopen : p.totalUsedBlocks.toNat < p.totalBlock)
    (b : Nat) :
    b ∈ p.getFreeFrameBySizeBits size ↔
      ∃ start ∈ p.scanned (p.freeRun size), ∃ k < size, b = u32 (start + k) ∧
        Clear p.marked start k := by
  have hblock := p.totalBlock_le
  have hfull := p.freeRun_of_full size
  rw [getFreeFrameBySizeBits, if_neg (by omega), if_neg (by omega), if_neg (by omega), List.mem_flatMap]
  refine exists_congr fun start => and_congr_right fun hstart => ?_
  have hlt := ((p.mem_scanned_iff _ hfull start).mp hstart).1
  have hu : u32 (start + 0) = start := u32_of_lt (by omega)
  rw [List.mem_cons]
  by_cases ht : p.testBit start = true
  · simp only [ht, ite_true, List.not_mem_nil, or_false]
    refine ⟨fun he => ⟨0, by omega, by rw [he, hu], clear_zero start⟩, fun h => ?_⟩
    obtain ⟨k, _, rfl, hc⟩ := h
    by_cases hk : k = 0
    · rw [hk, hu]
    · have hm := hc 0 (by omega)
      rw [marked, hu, ht] at hm
      cases hm
  · rw [if_neg ht, p.mem_fitsAtBits_iff size start (size + 1) 0 b (by omega) (by omega)]
    refine ⟨fun h => ?_, fun h => ?_⟩
    · rcases h with rfl | ⟨k, _, hk, he, hc⟩
      · exact ⟨0, by omega, hu.symm, clear_zero b⟩
      · exact ⟨k, hk, he, fun i hi => hc i (by omega) hi⟩
    · obtain ⟨k, hk, he, hc⟩ := h
      exact Or.inr ⟨k, by omega, hk, he, fun i _ hi => hc i hi⟩

theorem mem_given_iff (frame : Nat) :
    frame ∈ p.given size ↔
      ∃ start, p.getFreeFrameBySize size = some start ∧ start ≤ frame ∧ frame < start + size := by
  unfold given
  cases p.getFreeFrameBySize size with
  | none => simp
  | some start =>
      simp only [List.mem_map, List.mem_range, Option.some.injEq, exists_eq_left']
      refine ⟨fun h => ?_, fun h => ⟨frame - start, by omega, by omega⟩⟩
      obtain ⟨i, hi, rfl⟩ := h
      omega

theorem allocateBlockBits_nil (h : size = 0 ∨ p.totalBlock ≤ p.totalUsedBlocks.toNat) :
    p.allocateBlockBits size = [] ∧ p.given size = [] := by
  have hnone : p.getFreeFrameBySize size = none :=
    (p.getFreeFrameBySize_eq_none_iff size).mpr (h.imp_right Or.inl)
  have hbits : p.getFreeFrameBySizeBits size = [] := by
    rcases h with hz | hclosed
    · exact if_pos hz
    · simp [getFreeFrameBySizeBits, hclosed]
  simp [allocateBlockBits, given, hnone, hbits]

-- With a first fit at `frame` nothing is measured past the end of that fit.
theorem getFreeFrameBySizeBits_lt_of_fit {frame b : Nat} (hpos : 0 < size)
    (hopen : p.totalUsedBlocks.toNat < p.totalBlock)
    (hf : IsFirst p.marked (32 * p.totalBlock) size frame)
    (hend : frame + size ≤ 32 * p.totalBlock) (hb : b ∈ p.getFreeFrameBySizeBits size) :
    b < 32 * p.totalBlock := by
  have hblock := p.totalBlock_le
  by_cases hone : size = 1
  · rw [hone, getFreeFrameBySizeBits, if_neg (by omega), if_neg (by omega), if_pos rfl] at hb
    exact p.mem_getFreeMemoryBlockBits_lt hb
  · obtain ⟨start, hstart, k, hk, rfl, _⟩ := (mem_getFreeFrameBySizeBits (by omega) hopen b).mp hb
    obtain ⟨_, _, hbefore⟩ := (p.mem_scanned_iff _ (p.freeRun_of_full size) start).mp hstart
    have hle : start ≤ frame := by
      by_contra hgt
      exact (p.freeRun_eq_none_iff hpos (by omega)).mp (hbefore frame (by omega)) hf.clear
    rw [u32_of_lt (by omega)]
    omega

-- Without a fit every measurement stops at a set bit; the last one of the bitmap is
-- passed exactly when it is clear.
theorem getFreeFrameBySizeBits_lt_iff_of_none (hpos : 0 < size)
    (hopen : p.totalUsedBlocks.toNat < p.totalBlock)
    (hnone : ∀ start < 32 * p.totalBlock, ¬Clear p.marked start size) :
    (∀ b ∈ p.getFreeFrameBySizeBits size, b < 32 * p.totalBlock) ↔
      size = 1 ∨ p.testBit (32 * p.totalBlock - 1) = true := by
  have hblock := p.totalBlock_le
  by_cases hone : size = 1
  · refine ⟨fun _ => Or.inl hone, fun _ b hb => ?_⟩
    rw [hone, getFreeFrameBySizeBits, if_neg (by omega), if_neg (by omega), if_pos rfl] at hb
    exact p.mem_getFreeMemoryBlockBits_lt hb
  · refine ⟨fun h => Or.inr ?_, fun h b hb => ?_⟩
    · by_contra hclear
      have hlast : p.marked (32 * p.totalBlock - 1) = false := by
        rw [marked_of_lt _ (by omega)]
        exact Bool.eq_false_iff.mpr hclear
      have hscan : 32 * p.totalBlock - 1 ∈ p.scanned (p.freeRun size) := by
        refine (p.mem_scanned_iff _ (p.freeRun_of_full size) _).mpr ⟨by omega, ?_, ?_⟩
        · intro hw
          have hset := p.testBit_of_full _ ((32 * p.totalBlock - 1) % 32) (by omega) hw
          rw [show (32 * p.totalBlock - 1) / 32 * 32 + (32 * p.totalBlock - 1) % 32 =
            32 * p.totalBlock - 1 by omega] at hset
          exact hclear hset
        · intro earlier he
          exact (p.freeRun_eq_none_iff hpos (by omega)).mpr (hnone earlier (by omega))
      have hmem := (mem_getFreeFrameBySizeBits (by omega) hopen (32 * p.totalBlock)).mpr
        ⟨_, hscan, 1, by omega, by rw [u32_of_lt (by omega)]; omega, (clear_one_iff _).mpr hlast⟩
      exact Nat.lt_irrefl _ (h _ hmem)
    · obtain ⟨start, hstart, k, hk, rfl, hc⟩ := (mem_getFreeFrameBySizeBits (by omega) hopen b).mp hb
      have hlt := ((p.mem_scanned_iff _ (p.freeRun_of_full size) start).mp hstart).1
      have hend : start + k < 32 * p.totalBlock := by
        by_contra hge
        have hset := hc.cell (32 * p.totalBlock - 1) (by omega) (by omega)
        rw [marked_of_lt _ (by omega), h.resolve_left hone] at hset
        cases hset
      rw [u32_of_lt (by omega)]
      exact hend

theorem search_inBounds_iff (p : Pmm) (size : Nat) :
    ((∀ b ∈ p.allocateBlockBits size, b < 32 * p.totalBlock) ∧
      ∀ frame ∈ p.given size, frame < p.totalPages) ↔ SearchOk p size := by
  have hblock := p.totalBlock_le
  have hpages := p.totalPages_le_bits
  by_cases hidle : size = 0 ∨ p.totalBlock ≤ p.totalUsedBlocks.toNat
  · obtain ⟨hbits, hgiven⟩ := allocateBlockBits_nil hidle
    rw [hbits, hgiven]
    refine ⟨fun _ => ?_, fun _ => by simp⟩
    exact hidle.imp_right Or.inl
  have hpos : 0 < size := by omega
  have hopen : p.totalUsedBlocks.toNat < p.totalBlock := by omega
  cases hs : p.getFreeFrameBySize size with
  | some frame =>
      have hf := ((p.getFreeFrameBySize_eq_some_iff size frame).mp hs).2.2
      have hlt := hf.start_lt
      have hgiven : (∀ f ∈ p.given size, f < p.totalPages) ↔ frame + size ≤ p.totalPages := by
        refine ⟨fun h => ?_, fun h f hmem => ?_⟩
        · have hlast := h (frame + (size - 1)) ((mem_given_iff _).mpr ⟨frame, hs, by omega, by omega⟩)
          omega
        · obtain ⟨start, hstart, _, hend⟩ := (mem_given_iff f).mp hmem
          rw [hs] at hstart
          cases hstart
          omega
      rw [hgiven]
      refine ⟨fun h => ?_, fun h => ?_⟩
      · refine Or.inr (Or.inr (Or.inl ⟨frame, h.2, ?_⟩))
        exact (p.clear_marked_iff (by omega)).mp hf.clear
      · have hend : frame + size ≤ p.totalPages := by
          rcases h with hz | hclosed | ⟨start, hle, hc⟩ | ⟨_, hnone⟩
          · omega
          · omega
          · have hleast := hf.least start ((p.clear_marked_iff (by omega)).mpr hc)
            omega
          · exact absurd hf.clear (hnone frame hlt)
        refine ⟨fun b hb => ?_, hend⟩
        rw [allocateBlockBits, hs, List.mem_append] at hb
        rcases hb with hb | hb
        · exact getFreeFrameBySizeBits_lt_of_fit hpos hopen hf (by omega) hb
        · obtain ⟨i, hi, rfl⟩ := List.mem_map.mp hb
          have hi' := List.mem_range.mp hi
          rw [u32_of_lt (by omega)]
          omega
  | none =>
      have hnone : ∀ start < 32 * p.totalBlock, ¬Clear p.marked start size := by
        rcases (p.getFreeFrameBySize_eq_none_iff size).mp hs with hz | hclosed | hnone
        · omega
        · omega
        · exact hnone
      have hbits := getFreeFrameBySizeBits_lt_iff_of_none hpos hopen hnone
      have hgiven : p.given size = [] := by simp [given, hs]
      have htaken : p.allocateBlockBits size = p.getFreeFrameBySizeBits size := by
        simp [allocateBlockBits, hs]
      rw [htaken, hbits, hgiven]
      refine ⟨fun h => Or.inr (Or.inr (Or.inr ⟨h.1, hnone⟩)), fun h => ⟨?_, by simp⟩⟩
      rcases h with hz | hclosed | ⟨start, hle, hc⟩ | ⟨hlast, _⟩
      · omega
      · omega
      · exact absurd ((p.clear_marked_iff (by omega)).mpr hc) (hnone start (by omega))
      · exact hlast

end Exact

section Runs

-- The condition on one call, in the state that the call meets.
def StepOk (p : Pmm) : Request → Prop
  | .reserve base size =>
      p.totalBlock ≤ p.totalUsedBlocks.toNat ∨ pagesFor size = 0 ∨
        base / PER_BLOCK_SIZE + pagesFor size ≤ 32 * p.totalBlock
  | .allocate a => SearchOk p a.frames

theorem reserve_inBounds_iff (p : Pmm) {base : Nat} (hbase : base < 4294967296) (size : Nat) :
    p.InBounds (.reserve base size) ↔ StepOk p (.reserve base size) := by
  have hpages := pagesFor_le size
  have hstart : base / PER_BLOCK_SIZE < 1048576 := by
    unfold PER_BLOCK_SIZE
    omega
  simp only [InBounds, handedOut, List.not_mem_nil, false_imp_iff, implies_true, and_true, touched,
    StepOk]
  by_cases hclosed : p.totalUsedBlocks.toNat ≥ p.totalBlock
  · simp [hclosed]
  · rw [if_neg hclosed]
    refine ⟨fun h => ?_, fun h bit hbit => ?_⟩
    · by_cases hz : pagesFor size = 0
      · exact Or.inr (Or.inl hz)
      · have hlast := h _ (List.mem_map.mpr ⟨pagesFor size - 1, List.mem_range.mpr (by omega), rfl⟩)
        rw [u32_of_lt (by omega)] at hlast
        omega
    · obtain ⟨i, hi, rfl⟩ := List.mem_map.mp hbit
      have hi' := List.mem_range.mp hi
      rw [u32_of_lt (by omega)]
      omega

theorem chunk_inBounds_iff (p : Pmm) : p.InBounds (.allocate .chunk) ↔ StepOk p (.allocate .chunk) := by
  have hblock := p.totalBlock_le
  have hbits : (∀ b ∈ p.touched (.allocate .chunk), b < 32 * p.totalBlock) ↔
      ∀ b ∈ p.allocateBlockBits 1, b < 32 * p.totalBlock := by
    by_cases hclosed : p.totalUsedBlocks.toNat ≥ p.totalBlock
    · rw [(allocateBlockBits_nil (Or.inr hclosed)).1]
      simp [touched, hclosed]
    · have hsearch : p.getFreeFrameBySize 1 = p.getFreeMemoryBlock := by
        simp [getFreeFrameBySize, hclosed]
      have htrace : p.getFreeFrameBySizeBits 1 = p.getFreeMemoryBlockBits := by
        simp [getFreeFrameBySizeBits, hclosed]
      rw [touched, if_neg hclosed, allocateBlockBits, htrace, hsearch]
      cases hs : p.getFreeMemoryBlock with
      | none => simp
      | some frame =>
          rw [← hsearch] at hs
          have hlt := ((p.getFreeFrameBySize_eq_some_iff 1 frame).mp hs).2.2.start_lt
          simp [u32_of_lt (show frame < 4294967296 by omega)]
  exact (and_congr_left fun _ => hbits).trans (search_inBounds_iff p 1)

theorem inBounds_iff (p : Pmm) (r : Request) (hr : r.Fits) : p.InBounds r ↔ StepOk p r := by
  cases r with
  | reserve base size => exact reserve_inBounds_iff p hr size
  | allocate a =>
      cases a with
      | chunk => exact chunk_inBounds_iff p
      | block size => exact search_inBounds_iff p size
      | byte size => exact search_inBounds_iff p (pagesFor size)

-- INIT_MEMORY and whatever allocations follow it.
def runRequests (image : KernelImage) (params : BootParams) (allocations : List Allocation) :
    List Request :=
  bootRequests image params ++ allocations.map .allocate

-- The bits `setup_memory_bitmap` clears and those of every call after it.
def RunInBounds (image : KernelImage) (ram : Nat → BitVec 32) (params : BootParams)
    (allocations : List Allocation) : Prop :=
  8 * (afterSetup image ram params).bitmapSizeB ≤ 32 * (afterSetup image ram params).totalBlock ∧
    AllSteps exec InBounds (afterSetup image ram params) (runRequests image params allocations)

-- A run stays in the bitmap and in managed memory exactly when every call of it has its
-- reservation inside the bitmap, or its fit inside managed memory, or finds no fit
-- without measuring past the last word.
theorem runInBounds_iff (image : KernelImage) (ram : Nat → BitVec 32) (params : BootParams)
    (allocations : List Allocation) :
    RunInBounds image ram params allocations ↔
      AllSteps exec StepOk (afterSetup image ram params) (runRequests image params allocations) := by
  have hclear : 8 * (afterSetup image ram params).bitmapSizeB ≤
      32 * (afterSetup image ram params).totalBlock := by
    unfold bitmapSizeB totalBlock BYTE
    omega
  have hfit : ∀ r ∈ runRequests image params allocations, r.Fits := by
    intro r hr
    rcases List.mem_append.mp hr with hboot | halloc
    · exact bootRequests_fit image params r hboot
    · obtain ⟨a, _, rfl⟩ := List.mem_map.mp halloc
      trivial
  refine (and_iff_right hclear).trans (allSteps_congr (fun _ => True) ?_ ?_ trivial)
  · exact fun _ _ _ _ => trivial
  · exact fun p _ r hr => inBounds_iff p r (hfit r hr)

-- 4096 pages have 4096 bits; the kernel is reserved by its virtual address, from the
-- bit 0xC0000 on.
theorem not_runInBounds_sample : ¬RunInBounds sampleImage (fun _ => 0) sampleParams [] := by
  intro h
  have hkernel := h.2.2.2.1.1 0xC0000 (by decide +kernel)
  revert hkernel
  decide +kernel

end Runs

end ToyKernel.Pmm
