import ToyKernel.Library.Protection

namespace ToyKernel.Gdt

open Library Protection

def i686_GDT_CODE_SEGMENT : BitVec 16 := 0x08
def i686_GDT_DATA_SEGMENT : BitVec 16 := 0x10
def i686_GDT_TSS_SEGMENT : BitVec 16 := 0x28

-- The packed struct, its fields in the order of the source
structure GDTEntry where
  limitLow : BitVec 16
  baseLow : BitVec 16
  baseMiddle : BitVec 8
  access : BitVec 8
  flagsLimitHi : BitVec 8
  baseHigh : BitVec 8
  deriving DecidableEq

-- Its eight bytes, little-endian
def GDTEntry.bits (e : GDTEntry) : BitVec 64 :=
  e.baseHigh ++ e.flagsLimitHi ++ e.access ++ e.baseMiddle ++ e.baseLow ++ e.limitLow

def GDT_ACCESS_CODE_READABLE : BitVec 8 := 0x02
def GDT_ACCESS_DATA_WRITEABLE : BitVec 8 := 0x02
def GDT_ACCESS_DATA_SEGMENT : BitVec 8 := 0x10
def GDT_ACCESS_CODE_SEGMENT : BitVec 8 := 0x18
def GDT_ACCESS_TSS_AVAILABLE_32BIT : BitVec 8 := 0x09
def GDT_ACCESS_RING0 : BitVec 8 := 0x00
def GDT_ACCESS_RING3 : BitVec 8 := 0x60
def GDT_ACCESS_PRESENT : BitVec 8 := 0x80

def GDT_FLAG_32BIT : BitVec 8 := 0x40
def GDT_FLAG_GRANULARITY_4K : BitVec 8 := 0x80

def GDT_LIMIT_LOW (limit : BitVec 32) : BitVec 16 := (limit &&& 0xFFFF).setWidth 16
def GDT_BASE_LOW (base : BitVec 32) : BitVec 16 := (base &&& 0xFFFF).setWidth 16
def GDT_BASE_MIDDLE (base : BitVec 32) : BitVec 8 := ((base >>> 16) &&& 0xFF).setWidth 8
def GDT_FLAGS_LIMIT_HI (limit : BitVec 32) (flags : BitVec 8) : BitVec 8 :=
  ((limit >>> 16) &&& 0xF).setWidth 8 ||| (flags &&& 0xF0)
def GDT_BASE_HIGH (base : BitVec 32) : BitVec 8 := ((base >>> 24) &&& 0xFF).setWidth 8

def GDT_ENTRY (base limit : BitVec 32) (access flags : BitVec 8) : GDTEntry where
  limitLow := GDT_LIMIT_LOW limit
  baseLow := GDT_BASE_LOW base
  baseMiddle := GDT_BASE_MIDDLE base
  access := access
  flagsLimitHi := GDT_FLAGS_LIMIT_HI limit flags
  baseHigh := GDT_BASE_HIGH base

def g_GDT : List GDTEntry :=
  [GDT_ENTRY 0 0 0 0,
    GDT_ENTRY 0 0xFFFFF
      (GDT_ACCESS_PRESENT ||| GDT_ACCESS_RING0 ||| GDT_ACCESS_CODE_SEGMENT ||| GDT_ACCESS_CODE_READABLE)
      (GDT_FLAG_32BIT ||| GDT_FLAG_GRANULARITY_4K),
    GDT_ENTRY 0 0xFFFFF
      (GDT_ACCESS_PRESENT ||| GDT_ACCESS_RING0 ||| GDT_ACCESS_DATA_SEGMENT ||| GDT_ACCESS_DATA_WRITEABLE)
      (GDT_FLAG_32BIT ||| GDT_FLAG_GRANULARITY_4K),
    GDT_ENTRY 0 0xFFFFF
      (GDT_ACCESS_PRESENT ||| GDT_ACCESS_RING3 ||| GDT_ACCESS_CODE_SEGMENT ||| GDT_ACCESS_CODE_READABLE)
      (GDT_FLAG_32BIT ||| GDT_FLAG_GRANULARITY_4K),
    GDT_ENTRY 0 0xFFFFF
      (GDT_ACCESS_PRESENT ||| GDT_ACCESS_RING3 ||| GDT_ACCESS_DATA_SEGMENT ||| GDT_ACCESS_DATA_WRITEABLE)
      (GDT_FLAG_32BIT ||| GDT_FLAG_GRANULARITY_4K),
    GDT_ENTRY 0 0 0 0]

-- `g_GDTDescriptor.Limit`, with entries of eight bytes
def gdtLimit : Nat := 8 * g_GDT.length - 1

def SIZEOF_TSS : Nat := 104

-- The fields that are not left zero
structure TSS where
  esp0 : BitVec 32
  ss0 : BitVec 16
  iomapBase : BitVec 16

-- `tss_init`, with `g_TSS` at `base`. The other fields of the segment are cleared.
def tssInit (gdt : List GDTEntry) (base : BitVec 32) : TSS × List GDTEntry :=
  let limit := BitVec.ofNat 32 (SIZEOF_TSS - 1)
  ({ esp0 := 0, ss0 := i686_GDT_DATA_SEGMENT, iomapBase := BitVec.ofNat 16 SIZEOF_TSS },
    gdt.set 5
      { limitLow := GDT_LIMIT_LOW limit
        baseLow := GDT_BASE_LOW base
        baseMiddle := GDT_BASE_MIDDLE base
        access := GDT_ACCESS_PRESENT ||| GDT_ACCESS_TSS_AVAILABLE_32BIT
        flagsLimitHi := GDT_FLAGS_LIMIT_HI limit 0
        baseHigh := GDT_BASE_HIGH base })

def tssSetKernelStack (tss : TSS) (esp0 : BitVec 32) : TSS := { tss with esp0 }

section Decoding

variable {e : GDTEntry} {i : Nat}

theorem getLsbD_bits (e : GDTEntry) (i : Nat) :
    e.bits.getLsbD i =
      if i < 16 then e.limitLow.getLsbD i
      else if i < 32 then e.baseLow.getLsbD (i - 16)
      else if i < 40 then e.baseMiddle.getLsbD (i - 32)
      else if i < 48 then e.access.getLsbD (i - 40)
      else if i < 56 then e.flagsLimitHi.getLsbD (i - 48)
      else e.baseHigh.getLsbD (i - 56) := by
  have hbits : e.bits.getLsbD i =
      if i < 16 then e.limitLow.getLsbD i
      else (e.baseHigh ++ e.flagsLimitHi ++ e.access ++ e.baseMiddle ++ e.baseLow).getLsbD (i - 16) :=
    BitVec.getLsbD_append
  rw [hbits, BitVec.getLsbD_append, BitVec.getLsbD_append, BitVec.getLsbD_append, BitVec.getLsbD_append]
  by_cases h16 : i < 16
  · rw [if_pos h16, if_pos h16]
  · simp only [Nat.sub_sub, Nat.reduceAdd, if_neg h16,
      show (i - 16 < 16) = (i < 32) from propext (by omega),
      show (i - 32 < 8) = (i < 40) from propext (by omega),
      show (i - 40 < 8) = (i < 48) from propext (by omega),
      show (i - 48 < 8) = (i < 56) from propext (by omega)]

theorem getLsbD_byte {value : BitVec 32} (hi : i < 8) (n : Nat) :
    (((value >>> n) &&& 0xFF).setWidth 8).getLsbD i = value.getLsbD (n + i) := by
  have hmask : ∀ j : Fin 8, (0xFF : BitVec 32).getLsbD j.val = true := by decide
  rw [BitVec.getLsbD_setWidth, BitVec.getLsbD_and, BitVec.getLsbD_ushiftRight, hmask ⟨i, hi⟩,
    decide_eq_true hi, Bool.true_and, Bool.and_true]

theorem getLsbD_half {value : BitVec 32} (hi : i < 16) :
    ((value &&& 0xFFFF).setWidth 16).getLsbD i = value.getLsbD i := by
  have hmask : ∀ j : Fin 16, (0xFFFF : BitVec 32).getLsbD j.val = true := by decide
  rw [BitVec.getLsbD_setWidth, BitVec.getLsbD_and, hmask ⟨i, hi⟩, decide_eq_true hi, Bool.true_and,
    Bool.and_true]

theorem getLsbD_limitHi {limit : BitVec 32} {flags : BitVec 8} (hi : i < 4) :
    (GDT_FLAGS_LIMIT_HI limit flags).getLsbD i = limit.getLsbD (16 + i) := by
  have hmask : ∀ j : Fin 4, (0xF : BitVec 32).getLsbD j.val = true ∧
      (0xF0 : BitVec 8).getLsbD j.val = false := by decide
  unfold GDT_FLAGS_LIMIT_HI
  rw [BitVec.getLsbD_or, BitVec.getLsbD_and, BitVec.getLsbD_setWidth, BitVec.getLsbD_and,
    BitVec.getLsbD_ushiftRight, (hmask ⟨i, hi⟩).1, (hmask ⟨i, hi⟩).2,
    decide_eq_true (show i < 8 by omega)]
  simp

theorem getLsbD_flags {limit : BitVec 32} {flags : BitVec 8} (hi : i < 4) :
    (GDT_FLAGS_LIMIT_HI limit flags).getLsbD (4 + i) = flags.getLsbD (4 + i) := by
  have hmask : ∀ j : Fin 4, (0xF : BitVec 32).getLsbD (4 + j.val) = false ∧
      (0xF0 : BitVec 8).getLsbD (4 + j.val) = true := by decide
  unfold GDT_FLAGS_LIMIT_HI
  rw [BitVec.getLsbD_or, BitVec.getLsbD_and, BitVec.getLsbD_setWidth, BitVec.getLsbD_and,
    (hmask ⟨i, hi⟩).1, (hmask ⟨i, hi⟩).2]
  simp

-- The processor puts together what the macro has spread over the fields.
theorem decode_bits (base limit : BitVec 32) (access flags : BitVec 8) :
    Segment.decode (GDT_ENTRY base limit access flags).bits =
      { base := base
        limit := limit.extractLsb' 0 20
        kind := access.extractLsb' 0 4
        ordinary := access.getLsbD 4
        dpl := access.extractLsb' 5 2
        present := access.getLsbD 7
        flags := flags.extractLsb' 4 4 } := by
  have hbits := getLsbD_bits (GDT_ENTRY base limit access flags)
  have hlimitLow : ∀ i < 16,
      (GDT_ENTRY base limit access flags).bits.getLsbD (0 + i) = limit.getLsbD (0 + i) := by
    intro i hi
    rw [hbits, if_pos (by omega), Nat.zero_add]
    exact getLsbD_half hi
  have hlimitHi : ∀ i < 4,
      (GDT_ENTRY base limit access flags).bits.getLsbD (48 + i) = limit.getLsbD (16 + i) := by
    intro i hi
    rw [hbits, if_neg (by omega), if_neg (by omega), if_neg (by omega), if_neg (by omega), if_pos (by omega),
      Nat.add_sub_cancel_left]
    exact getLsbD_limitHi hi
  have hbaseLow : ∀ i < 24,
      (GDT_ENTRY base limit access flags).bits.getLsbD (16 + i) = base.getLsbD (0 + i) := by
    intro i hi
    rw [Nat.zero_add]
    by_cases h16 : i < 16
    · rw [hbits, if_neg (by omega), if_pos (by omega), Nat.add_sub_cancel_left]
      exact getLsbD_half h16
    · rw [hbits, if_neg (by omega), if_neg (by omega), if_pos (by omega)]
      refine (getLsbD_byte (by omega) 16).trans ?_
      congr 1
      omega
  have hbaseHigh : ∀ i < 8,
      (GDT_ENTRY base limit access flags).bits.getLsbD (56 + i) = base.getLsbD (24 + i) := by
    intro i hi
    rw [hbits, if_neg (by omega), if_neg (by omega), if_neg (by omega), if_neg (by omega), if_neg (by omega),
      Nat.add_sub_cancel_left]
    exact getLsbD_byte hi 24
  have haccess : ∀ k i, k + i < 8 →
      (GDT_ENTRY base limit access flags).bits.getLsbD (40 + k + i) = access.getLsbD (k + i) := by
    intro k i hi
    rw [hbits, if_neg (by omega), if_neg (by omega), if_neg (by omega), if_pos (by omega), Nat.add_assoc,
      Nat.add_sub_cancel_left]
    rfl
  have hflags : ∀ i < 4,
      (GDT_ENTRY base limit access flags).bits.getLsbD (52 + i) = flags.getLsbD (4 + i) := by
    intro i hi
    rw [hbits, if_neg (by omega), if_neg (by omega), if_neg (by omega), if_neg (by omega), if_pos (by omega),
      show 52 + i - 48 = 4 + i by omega]
    exact getLsbD_flags hi
  unfold Segment.decode
  rw [extractLsb'_congr hlimitLow, extractLsb'_congr hlimitHi, extractLsb'_congr hbaseLow,
    extractLsb'_congr hbaseHigh, extractLsb'_congr hflags,
    extractLsb'_congr fun i hi => haccess 0 i (by omega), extractLsb'_congr fun i hi => haccess 5 i (by omega),
    haccess 4 0 (by omega), haccess 7 0 (by omega)]
  have hbase : (base.extractLsb' 24 8 ++ base.extractLsb' 0 24 : BitVec 32) = base :=
    (BitVec.extractLsb'_append_extractLsb'_eq_extractLsb' rfl).trans BitVec.extractLsb'_eq_self
  have hlimit : (limit.extractLsb' 16 4 ++ limit.extractLsb' 0 16 : BitVec 20) = limit.extractLsb' 0 20 :=
    BitVec.extractLsb'_append_extractLsb'_eq_extractLsb' rfl
  rw [hbase, hlimit]

end Decoding

end ToyKernel.Gdt
