import ToyKernel.Pmm.Reservation

namespace ToyKernel.Pmm

-- A range inside the memory the PMM manages; its end does not wrap.
structure Managed (p : Pmm) (base size : Nat) : Prop where
  size_pos : 1 ≤ size
  end_le : base + size ≤ p.totalPages * PER_BLOCK_SIZE

-- The frames of the range are marked, and no other bit has changed.
structure ReservesExactly (p : Pmm) (base size : Nat) : Prop where
  marks : ∀ f ∈ framesOf base size, (p.reserveMemoryBlock base size).testBit f = true
  keeps : ∀ f, f ∉ framesOf base size →
    (p.reserveMemoryBlock base size).testBit f = p.testBit f

-- The page count looks at the size alone: it is one short when the offsets of the first
-- and of the last byte in their pages add up to a page or more.
def CountsPages (base size : Nat) : Prop :=
  base % PER_BLOCK_SIZE + (size - 1) % PER_BLOCK_SIZE < PER_BLOCK_SIZE

def lastFrame (base size : Nat) : Nat := (base + size - 1) / PER_BLOCK_SIZE

-- Nothing is left to mark, or the guard is open and the one page that may be missed is not
-- missed or was marked before.
def ReservesOk (p : Pmm) (base size : Nat) : Prop :=
  (∀ f ∈ framesOf base size, p.testBit f = true) ∨
    p.totalUsedBlocks.toNat < p.totalBlock ∧
      (CountsPages base size ∨ p.testBit (lastFrame base size) = true)

theorem mem_framesOf_iff {base size : Nat} (hpos : 1 ≤ size) (f : Nat) :
    f ∈ framesOf base size ↔ base / PER_BLOCK_SIZE ≤ f ∧ f ≤ lastFrame base size := by
  unfold framesOf lastFrame PER_BLOCK_SIZE
  constructor
  · rintro ⟨a, hlo, hhi, rfl⟩
    omega
  · rintro ⟨hlo, hhi⟩
    by_cases hin : base ≤ f * 4096
    · exact ⟨f * 4096, by omega, by omega, by omega⟩
    · exact ⟨base, by omega, by omega, by omega⟩

section Range

variable {p : Pmm} {base size : Nat}

theorem Managed.end_lt (h : p.Managed base size) : base + size < 4294967296 := by
  have hend := h.end_le
  have hpages := p.totalPages_lt
  unfold PER_BLOCK_SIZE at hend
  omega

-- The pages the loop marks are those of the range, or those but the last one.
theorem Managed.pages_cases (h : p.Managed base size) :
    (CountsPages base size ∧
      base / PER_BLOCK_SIZE + pagesFor size = lastFrame base size + 1) ∨
    (¬CountsPages base size ∧
      base / PER_BLOCK_SIZE + pagesFor size = lastFrame base size) := by
  have hpos := h.size_pos
  have hend := h.end_le
  have hpages := p.totalPages_lt
  have hsize : size ≤ 4294963200 := by
    unfold PER_BLOCK_SIZE at hend
    omega
  rw [pagesFor_eq hsize]
  unfold CountsPages lastFrame PER_BLOCK_SIZE
  omega

theorem Managed.testBit_of_open (h : p.Managed base size)
    (hopen : p.totalUsedBlocks.toNat < p.totalBlock) (f : Nat) :
    (p.reserveMemoryBlock base size).testBit f =
      (decide (base / PER_BLOCK_SIZE ≤ f ∧ f < base / PER_BLOCK_SIZE + pagesFor size) ||
        p.testBit f) :=
  testBit_reserveMemoryBlock p base size f (by have := h.end_lt; omega) hopen

theorem Managed.reservesExactly_of_open (h : p.Managed base size)
    (hopen : p.totalUsedBlocks.toNat < p.totalBlock)
    (hlast : CountsPages base size ∨ p.testBit (lastFrame base size) = true) :
    p.ReservesExactly base size := by
  constructor
  · intro f hf
    obtain ⟨hlo, hhi⟩ := (mem_framesOf_iff h.size_pos f).mp hf
    rw [h.testBit_of_open hopen]
    by_cases hend : f = lastFrame base size
    · rcases h.pages_cases with ⟨-, hcount⟩ | ⟨hmiss, -⟩
      · simp [hlo, show f < base / PER_BLOCK_SIZE + pagesFor size by omega]
      · have hset := hlast.resolve_left hmiss
        simp [hend, hset]
    · have hin : f < base / PER_BLOCK_SIZE + pagesFor size := by
        rcases h.pages_cases with ⟨-, hcount⟩ | ⟨-, hcount⟩ <;> omega
      simp [hlo, hin]
  · intro f hf
    rw [mem_framesOf_iff h.size_pos] at hf
    have hout : ¬(base / PER_BLOCK_SIZE ≤ f ∧ f < base / PER_BLOCK_SIZE + pagesFor size) := by
      rcases h.pages_cases with ⟨-, hcount⟩ | ⟨-, hcount⟩ <;> omega
    rw [h.testBit_of_open hopen, decide_eq_false hout, Bool.false_or]

-- The last page of the range is in no page the loop marks when the count is one short.
theorem Managed.lastFrame_of_exact (h : p.Managed base size)
    (hopen : p.totalUsedBlocks.toNat < p.totalBlock) (hexact : p.ReservesExactly base size) :
    CountsPages base size ∨ p.testBit (lastFrame base size) = true := by
  rcases h.pages_cases with ⟨hcount, -⟩ | ⟨-, hcount⟩
  · exact Or.inl hcount
  · have hlo : base / PER_BLOCK_SIZE ≤ lastFrame base size := by omega
    have hmark := hexact.marks _
      ((mem_framesOf_iff h.size_pos _).mpr ⟨hlo, Nat.le_refl _⟩)
    have hout : ¬(base / PER_BLOCK_SIZE ≤ lastFrame base size ∧
        lastFrame base size < base / PER_BLOCK_SIZE + pagesFor size) := by omega
    rw [h.testBit_of_open hopen, decide_eq_false hout, Bool.false_or] at hmark
    exact Or.inr hmark

end Range

theorem reservesExactly_iff_of_closed {p : Pmm} (hclosed : p.totalBlock ≤ p.totalUsedBlocks.toNat)
    (base size : Nat) :
    p.ReservesExactly base size ↔ ∀ f ∈ framesOf base size, p.testBit f = true := by
  have hsame := p.reserveMemoryBlock_of_closed base size hclosed
  constructor
  · intro h f hf
    have hmark := h.marks f hf
    rwa [hsame] at hmark
  · intro h
    exact ⟨fun f hf => by rw [hsame, h f hf], fun f _ => by rw [hsame]⟩

theorem reservesExactly_iff (p : Pmm) (base size : Nat) (h : p.Managed base size) :
    p.ReservesExactly base size ↔ p.ReservesOk base size := by
  unfold ReservesOk
  by_cases hopen : p.totalUsedBlocks.toNat < p.totalBlock
  · constructor
    · exact fun hexact => Or.inr ⟨hopen, h.lastFrame_of_exact hopen hexact⟩
    · rintro (hall | ⟨-, hlast⟩)
      · have hpos := h.size_pos
        have hlo : base / PER_BLOCK_SIZE ≤ lastFrame base size := by
          unfold lastFrame PER_BLOCK_SIZE
          omega
        have hend := hall _ ((mem_framesOf_iff hpos _).mpr ⟨hlo, Nat.le_refl _⟩)
        exact h.reservesExactly_of_open hopen (Or.inr hend)
      · exact h.reservesExactly_of_open hopen hlast
  · rw [reservesExactly_iff_of_closed (by omega)]
    exact ⟨Or.inl, fun hok => hok.resolve_right fun hr => hopen hr.1⟩

section Sample

-- A bitmap for 16 MiB with no frame in use, and one with as many frames counted as it has
-- words.
def emptyPmm : Pmm := { boot with totalMemory := 0x1000000 }

def countedPmm : Pmm := { emptyPmm with totalUsedBlocks := 128 }

theorem emptyPmm_managed : emptyPmm.Managed 0x500 0xC00 := ⟨by decide, by decide⟩

theorem reservesExactly_iff_empty :
    emptyPmm.ReservesExactly 0x500 0xC00 ↔ emptyPmm.ReservesOk 0x500 0xC00 :=
  emptyPmm.reservesExactly_iff 0x500 0xC00 emptyPmm_managed

-- A range of 3 KiB that begins at 0x500 as the image of stage2 does: its second page stays
-- clear. With the counter at TOTAL_BLOCK nothing is marked at all.
theorem not_reservesExactly_unaligned :
    (emptyPmm.Managed 0x500 0xC00 ∧ ¬emptyPmm.ReservesExactly 0x500 0xC00) ∧
      countedPmm.Managed 0x1000 0x1000 ∧ ¬countedPmm.ReservesExactly 0x1000 0x1000 := by
  have hlast : (1 : Nat) ∈ framesOf 0x500 0xC00 := ⟨0x1000, by decide, by decide, by decide⟩
  have hpage : (1 : Nat) ∈ framesOf 0x1000 0x1000 := ⟨0x1000, by decide, by decide, by decide⟩
  refine ⟨⟨emptyPmm_managed, fun h => ?_⟩, ⟨by decide, by decide⟩, fun h => ?_⟩
  · exact absurd (h.marks 1 hlast) (by decide)
  · exact absurd (h.marks 1 hpage) (by decide)

end Sample

end ToyKernel.Pmm
