import Mathlib.Logic.Function.Basic
import ToyKernel.Library.Protection

namespace ToyKernel.Idt

open Library Protection

def TRAP_GATE_FLAGS : BitVec 8 := 0x8F
def INT_GATE_FLAGS : BitVec 8 := 0x8E
def INT_GATE_USER_FLAGS : BitVec 8 := 0xEE

-- The packed struct, its fields in the order of the source
structure IdtEntry32 where
  isrAddressLow : BitVec 16
  kernelCs : BitVec 16
  reserved : BitVec 8
  attributes : BitVec 8
  isrAddressHigh : BitVec 16
  deriving DecidableEq

-- Its eight bytes, little-endian
def IdtEntry32.bits (e : IdtEntry32) : BitVec 64 :=
  e.isrAddressHigh ++ e.attributes ++ e.reserved ++ e.kernelCs ++ e.isrAddressLow

-- `idt32`, indexed by an `uint8_t`
abbrev Idt32 := BitVec 8 → IdtEntry32

def SIZEOF_IDT32 : Nat := 8 * 256

-- The handlers that are installed
inductive Isr where
  | defaultExcpHandler
  | defaultExcpHandlerErrCode
  | defaultIntHandler
  | divBy0Handler
  | syscallDispatcher
  | timerIrq0Handler
  | keyboardIrq1Handler
  deriving DecidableEq

def descriptor (isr : BitVec 32) (flags : BitVec 8) : IdtEntry32 where
  isrAddressLow := (isr &&& 0xFFFF).setWidth 16
  kernelCs := 0x08
  reserved := 0
  attributes := flags
  isrAddressHigh := ((isr >>> 16) &&& 0xFFFF).setWidth 16

def setIdtDescriptor32 (idt32 : Idt32) (entryNumber : BitVec 8) (isr : BitVec 32) (flags : BitVec 8) :
    Idt32 :=
  Function.update idt32 entryNumber (descriptor isr flags)

def takesErrorCode (entry : Nat) : Bool :=
  entry == 8 || entry == 10 || entry == 11 || entry == 12 ||
    entry == 13 || entry == 14 || entry == 17 || entry == 21

-- What `init_idt_32` has put into the table when interrupts are first let in, where
-- `address` tells the places of the handlers
def initIdt32 (address : Isr → BitVec 32) (idt32 : Idt32) : Idt32 :=
  let idt32 := (List.range 32).foldl (fun idt32 entry =>
    setIdtDescriptor32 idt32 (BitVec.ofNat 8 entry)
      (address (if takesErrorCode entry then .defaultExcpHandlerErrCode else .defaultExcpHandler))
      TRAP_GATE_FLAGS) idt32
  let idt32 := (List.range' 32 224).foldl (fun idt32 entry =>
    setIdtDescriptor32 idt32 (BitVec.ofNat 8 entry) (address .defaultIntHandler) INT_GATE_FLAGS) idt32
  let idt32 := setIdtDescriptor32 idt32 0 (address .divBy0Handler) TRAP_GATE_FLAGS
  let idt32 := setIdtDescriptor32 idt32 0x80 (address .syscallDispatcher) INT_GATE_USER_FLAGS
  let idt32 := setIdtDescriptor32 idt32 0x20 (address .timerIrq0Handler) INT_GATE_FLAGS
  setIdtDescriptor32 idt32 0x21 (address .keyboardIrq1Handler) INT_GATE_FLAGS

-- The handler of a vector, and the flags of its gate
def handler (v : Nat) : Isr :=
  if v = 0 then .divBy0Handler
  else if v < 32 then if takesErrorCode v then .defaultExcpHandlerErrCode else .defaultExcpHandler
  else if v = 0x20 then .timerIrq0Handler
  else if v = 0x21 then .keyboardIrq1Handler
  else if v = 0x80 then .syscallDispatcher
  else .defaultIntHandler

def gateFlags (v : Nat) : BitVec 8 :=
  if v < 32 then TRAP_GATE_FLAGS else if v = 0x80 then INT_GATE_USER_FLAGS else INT_GATE_FLAGS

section Decoding

variable {i v : Nat}

theorem getLsbD_bits (e : IdtEntry32) (i : Nat) :
    e.bits.getLsbD i =
      if i < 16 then e.isrAddressLow.getLsbD i
      else if i < 32 then e.kernelCs.getLsbD (i - 16)
      else if i < 40 then e.reserved.getLsbD (i - 32)
      else if i < 48 then e.attributes.getLsbD (i - 40)
      else e.isrAddressHigh.getLsbD (i - 48) := by
  have hbits : e.bits.getLsbD i =
      if i < 16 then e.isrAddressLow.getLsbD i
      else (e.isrAddressHigh ++ e.attributes ++ e.reserved ++ e.kernelCs).getLsbD (i - 16) :=
    BitVec.getLsbD_append
  rw [hbits, BitVec.getLsbD_append, BitVec.getLsbD_append, BitVec.getLsbD_append]
  by_cases h16 : i < 16
  · rw [if_pos h16, if_pos h16]
  · simp only [Nat.sub_sub, Nat.reduceAdd, if_neg h16,
      show (i - 16 < 16) = (i < 32) from propext (by omega),
      show (i - 32 < 8) = (i < 40) from propext (by omega),
      show (i - 40 < 8) = (i < 48) from propext (by omega)]

theorem half_mask : ∀ j : Fin 16, (0xFFFF : BitVec 32).getLsbD j.val = true := by decide

-- The processor puts the address of the handler together again.
theorem decode_descriptor (isr : BitVec 32) (flags : BitVec 8) :
    Gate.decode (descriptor isr flags).bits =
      { offset := isr
        selector := 0x08
        kind := flags.extractLsb' 0 4
        ordinary := flags.getLsbD 4
        dpl := flags.extractLsb' 5 2
        present := flags.getLsbD 7 } := by
  have hbits := getLsbD_bits (descriptor isr flags)
  have hlow : ∀ i < 16, (descriptor isr flags).bits.getLsbD (0 + i) = isr.getLsbD (0 + i) := by
    intro i hi
    rw [hbits, if_pos (by omega)]
    change ((isr &&& 0xFFFF).setWidth 16).getLsbD (0 + i) = _
    rw [BitVec.getLsbD_setWidth, BitVec.getLsbD_and, Nat.zero_add, half_mask ⟨i, hi⟩, decide_eq_true hi,
      Bool.true_and, Bool.and_true]
  have hhigh : ∀ i < 16, (descriptor isr flags).bits.getLsbD (48 + i) = isr.getLsbD (16 + i) := by
    intro i hi
    rw [hbits, if_neg (by omega), if_neg (by omega), if_neg (by omega), if_neg (by omega),
      Nat.add_sub_cancel_left]
    change (((isr >>> 16) &&& 0xFFFF).setWidth 16).getLsbD i = _
    rw [BitVec.getLsbD_setWidth, BitVec.getLsbD_and, BitVec.getLsbD_ushiftRight, half_mask ⟨i, hi⟩,
      decide_eq_true hi, Bool.true_and, Bool.and_true]
  have hselector : ∀ i < 16,
      (descriptor isr flags).bits.getLsbD (16 + i) = (0x08 : BitVec 16).getLsbD i := by
    intro i hi
    rw [hbits, if_neg (by omega), if_pos (by omega), Nat.add_sub_cancel_left]
    rfl
  have hflags : ∀ k i, k + i < 8 →
      (descriptor isr flags).bits.getLsbD (40 + k + i) = flags.getLsbD (k + i) := by
    intro k i hi
    rw [hbits, if_neg (by omega), if_neg (by omega), if_neg (by omega), if_pos (by omega), Nat.add_assoc,
      Nat.add_sub_cancel_left]
    rfl
  have hisr : (isr.extractLsb' 16 16 ++ isr.extractLsb' 0 16 : BitVec 32) = isr :=
    (BitVec.extractLsb'_append_extractLsb'_eq_extractLsb' rfl).trans BitVec.extractLsb'_eq_self
  unfold Gate.decode
  rw [extractLsb'_congr hlow, extractLsb'_congr hhigh, hisr, extractLsb'_whole hselector,
    extractLsb'_congr fun i hi => hflags 0 i (by omega), extractLsb'_congr fun i hi => hflags 5 i (by omega),
    hflags 4 0 (by omega), hflags 7 0 (by omega)]

end Decoding

section Table

variable {v : Nat} {entries : List Nat} {address : Isr → BitVec 32} {idt32 : Idt32}

-- A loop that fills entries of the table
theorem foldl_set (isr : Nat → BitVec 32) (flags : BitVec 8) (hentries : ∀ e ∈ entries, e < 256)
    (hv : v < 256) :
    entries.foldl (fun idt32 e => setIdtDescriptor32 idt32 (BitVec.ofNat 8 e) (isr e) flags) idt32
        (BitVec.ofNat 8 v) =
      if v ∈ entries then descriptor (isr v) flags else idt32 (BitVec.ofNat 8 v) := by
  induction entries generalizing idt32 with
  | nil => rfl
  | cons e entries ih =>
      rw [List.foldl_cons, ih fun e he => hentries e (List.mem_cons_of_mem _ he)]
      have he := hentries e List.mem_cons_self
      by_cases hmem : v ∈ entries
      · rw [if_pos hmem, if_pos (List.mem_cons_of_mem _ hmem)]
      · rw [if_neg hmem]
        by_cases heq : v = e
        · rw [heq, if_pos List.mem_cons_self]
          exact Function.update_self ..
        · rw [if_neg (by simp [heq, hmem])]
          refine Function.update_of_ne (fun h => heq ?_) ..
          have hnat := congrArg BitVec.toNat h
          simp only [BitVec.toNat_ofNat] at hnat
          omega

theorem set_eq {n : BitVec 8} {isr : BitVec 32} {flags : BitVec 8} (hv : v < 256) :
    setIdtDescriptor32 idt32 n isr flags (BitVec.ofNat 8 v) =
      if v = n.toNat then descriptor isr flags else idt32 (BitVec.ofNat 8 v) := by
  unfold setIdtDescriptor32
  rw [Function.update_apply]
  refine if_congr ?_ rfl rfl
  rw [BitVec.toNat_eq, BitVec.toNat_ofNat, Nat.mod_eq_of_lt hv]

-- The table holds the handler of each vector, whatever it held before.
theorem initIdt32_eq (address : Isr → BitVec 32) (idt32 : Idt32) (hv : v < 256) :
    initIdt32 address idt32 (BitVec.ofNat 8 v) = descriptor (address (handler v)) (gateFlags v) := by
  have hrange : ∀ e ∈ List.range 32, e < 256 := by
    intro e he
    have := List.mem_range.mp he
    omega
  have hrange' : ∀ e ∈ List.range' 32 224, e < 256 := by
    intro e he
    have := (List.mem_range'_1.mp he).2
    omega
  unfold initIdt32
  rw [set_eq hv, set_eq hv, set_eq hv, set_eq hv, foldl_set _ _ hrange' hv, foldl_set _ _ hrange hv]
  simp only [List.mem_range'_1, List.mem_range]
  unfold handler gateFlags
  by_cases h0 : v = 0
  · simp [h0]
  by_cases h32 : v < 32
  · simp [h0, h32, show v ≠ 33 by omega, show v ≠ 32 by omega, show v ≠ 128 by omega,
      show ¬ (32 ≤ v ∧ v < 256) by omega]
  · simp only [h0, h32, if_false, show 32 ≤ v ∧ v < 256 from ⟨by omega, hv⟩, and_self, if_true]
    by_cases h33 : v = 33
    · simp [h33]
    by_cases hclock : v = 32
    · simp [hclock]
    by_cases hsyscall : v = 128
    · simp [hsyscall]
    · simp [h0, h33, hclock, hsyscall]

end Table

end ToyKernel.Idt
