import ToyKernel.Vmm
import Mathlib.Data.Nat.Bitwise

namespace ToyKernel

-- `~0xFFF` clears the low twelve bits, whatever they are.
theorem PAGE_PHYS_ADDRESS_eq (entry : BitVec 32) :
    PAGE_PHYS_ADDRESS entry = entry.toNat / 4096 * 4096 := by
  have hlt := entry.isLt
  unfold PAGE_PHYS_ADDRESS
  apply Nat.eq_of_testBit_eq
  intro i
  rw [show (4096 : Nat) = 2 ^ 12 from rfl, Nat.testBit_mul_two_pow, Nat.testBit_div_two_pow,
    BitVec.testBit_toNat, BitVec.getLsbD_and, BitVec.getLsbD_not]
  have hmask : (0xFFF#32).getLsbD i = decide (i < 12) := by
    rw [← BitVec.testBit_toNat, show (0xFFF#32).toNat = 2 ^ 12 - 1 from rfl,
      Nat.testBit_two_pow_sub_one]
  rw [hmask, ← BitVec.testBit_toNat]
  by_cases hlow : 12 ≤ i
  · by_cases hhigh : i < 32
    · simp [hlow, hhigh, show ¬i < 12 by omega, show i - 12 + 12 = i by omega]
    · have hz : entry.toNat.testBit i = false :=
        Nat.testBit_lt_two_pow (Nat.lt_of_lt_of_le hlt (Nat.pow_le_pow_right (by omega) (by omega)))
      simp [hz, show i - 12 + 12 = i by omega]
  · simp [show i < 12 by omega, show ¬12 ≤ i by omega]

theorem PAGE_PHYS_ADDRESS_lt (entry : BitVec 32) : PAGE_PHYS_ADDRESS entry < 4294967296 := by
  have hlt := entry.isLt
  rw [PAGE_PHYS_ADDRESS_eq]
  omega

-- A flag is set when its bit is.
theorem flag_iff (entry : BitVec 32) (i : Nat) (hi : i < 32) :
    (entry &&& BitVec.twoPow 32 i == BitVec.twoPow 32 i) = entry.getLsbD i := by
  rw [BitVec.and_twoPow]
  cases hb : entry.getLsbD i with
  | true => simp
  | false =>
      rw [if_neg Bool.false_ne_true, beq_eq_false_iff_ne]
      intro he
      have hbit := congrArg (fun x : BitVec 32 => x.getLsbD i) he
      simp [hi] at hbit

theorem isPresent_iff (entry : BitVec 32) : isPresent entry = entry.getLsbD 0 :=
  flag_iff entry 0 (by omega)

theorem isWritable_iff (entry : BitVec 32) : isWritable entry = entry.getLsbD 1 :=
  flag_iff entry 1 (by omega)

theorem isUser_iff (entry : BitVec 32) : isUser entry = entry.getLsbD 2 := flag_iff entry 2 (by omega)

@[simp] theorem isUser_zero : isUser 0#32 = false := by decide

theorem isUser_or (entry attributes : BitVec 32) :
    isUser (entry ||| attributes) = (isUser entry || isUser attributes) := by
  simp only [isUser_iff, BitVec.getLsbD_or]

@[simp] theorem isPresent_zero : isPresent 0#32 = false := by decide

theorem isPresent_or (entry attributes : BitVec 32) (h : isPresent attributes = true) :
    isPresent (entry ||| attributes) = true := by
  rw [isPresent_iff] at *
  rw [BitVec.getLsbD_or, h, Bool.or_true]

theorem isPresent_or_left (entry attributes : BitVec 32) (h : isPresent entry = true) :
    isPresent (entry ||| attributes) = true := by
  rw [BitVec.or_comm]
  exact isPresent_or attributes entry h

-- SET_FRAME leaves the present bit of the entry on.
theorem isPresent_SET_FRAME (entry : BitVec 32) (address : Nat) (h : isPresent entry = true) :
    isPresent (SET_FRAME entry address) = true := by
  rw [isPresent_iff] at *
  simp [SET_FRAME, h]

-- The flags and bit 31 stay, the bits between are cleared, and the address is added.
theorem getLsbD_SET_FRAME (entry : BitVec 32) (address : Nat) {i : Nat} (hi : i < 32) :
    (SET_FRAME entry address).getLsbD i =
      (decide (i < 12 ∨ i = 31) && entry.getLsbD i || address.testBit i) := by
  have hmask : ∀ j < 32, (~~~0x7FFFF000#32).getLsbD j = decide (j < 12 ∨ j = 31) := by decide
  unfold SET_FRAME
  rw [BitVec.getLsbD_or, BitVec.getLsbD_and, hmask i hi, BitVec.getLsbD_ofNat, decide_eq_true hi,
    Bool.true_and, Bool.and_comm]

theorem isUser_SET_FRAME (entry : BitVec 32) (address : Nat) :
    isUser (SET_FRAME entry address) = (isUser entry || address.testBit 2) := by
  rw [isUser_iff, isUser_iff, getLsbD_SET_FRAME _ _ (by omega)]
  rfl

-- A page-aligned address has no bit below 12.
theorem testBit_of_aligned {address : Nat} (haligned : address % 4096 = 0) {i : Nat} (hi : i < 12) :
    address.testBit i = false := by
  rw [show address = address / 4096 * 2 ^ 12 by omega, Nat.testBit_mul_two_pow, decide_eq_false (by omega),
    Bool.false_and]

-- The entry has the address it is given exactly when bit 31 of the old one does not get in.
theorem PAGE_PHYS_ADDRESS_SET_FRAME_iff (entry : BitVec 32) {address : Nat}
    (haligned : address % 4096 = 0) (haddress : address < 4294967296) :
    PAGE_PHYS_ADDRESS (SET_FRAME entry address) = address ↔
      (entry.getLsbD 31 = true → address.testBit 31 = true) := by
  have hmask : ∀ j < 32, (~~~0xFFF#32).getLsbD j = decide (12 ≤ j) := by decide
  have hbits : ∀ i < 32, (SET_FRAME entry address &&& ~~~0xFFF#32).getLsbD i =
      (decide (i = 31) && entry.getLsbD 31 || address.testBit i) := by
    intro i hi
    rw [BitVec.getLsbD_and, getLsbD_SET_FRAME _ _ hi, hmask i hi]
    by_cases hlow : i < 12
    · rw [testBit_of_aligned haligned hlow, decide_eq_false (show ¬12 ≤ i by omega),
        decide_eq_false (show ¬i = 31 by omega), Bool.and_false]
      rfl
    · by_cases htop : i = 31
      · subst htop
        simp
      · simp [hlow, htop, show 12 ≤ i by omega]
  have hiff : PAGE_PHYS_ADDRESS (SET_FRAME entry address) = address ↔
      SET_FRAME entry address &&& ~~~0xFFF#32 = BitVec.ofNat 32 address := by
    rw [← BitVec.toNat_inj, BitVec.toNat_ofNat, Nat.mod_eq_of_lt haddress]
    rfl
  rw [hiff]
  constructor
  · intro he hentry
    have hbit := hbits 31 (by omega)
    rw [he, hentry, BitVec.getLsbD_ofNat] at hbit
    simpa using hbit
  · intro h
    apply BitVec.eq_of_getLsbD_eq
    intro i hi
    rw [hbits i hi, BitVec.getLsbD_ofNat, decide_eq_true hi, Bool.true_and]
    by_cases htop : i = 31
    · subst htop
      cases he : entry.getLsbD 31 with
      | true => simp [h he]
      | false => simp
    · simp [htop]

-- Attributes below bit 12 do not touch the address.
theorem PAGE_PHYS_ADDRESS_or (entry attributes : BitVec 32) (h : attributes.toNat < 4096) :
    PAGE_PHYS_ADDRESS (entry ||| attributes) = PAGE_PHYS_ADDRESS entry := by
  rw [PAGE_PHYS_ADDRESS_eq, PAGE_PHYS_ADDRESS_eq, BitVec.toNat_or]
  congr 1
  have hor : (entry.toNat ||| attributes.toNat) / 2 ^ 12 =
      entry.toNat / 2 ^ 12 ||| attributes.toNat / 2 ^ 12 := Nat.or_div_two_pow
  simp only [show (2 : Nat) ^ 12 = 4096 from rfl] at hor
  rw [hor, show attributes.toNat / 4096 = 0 by omega, Nat.or_zero]

-- Nor does clearing the present bit.
theorem PAGE_PHYS_ADDRESS_and_not_present (entry : BitVec 32) :
    PAGE_PHYS_ADDRESS (entry &&& ~~~PTE_PRESENT) = PAGE_PHYS_ADDRESS entry := by
  have hmask : ~~~PTE_PRESENT &&& ~~~0xFFF#32 = ~~~0xFFF#32 := by decide
  unfold PAGE_PHYS_ADDRESS
  rw [BitVec.and_assoc, hmask]

-- With bit 31 clear SET_FRAME replaces the whole address.
theorem PAGE_PHYS_ADDRESS_SET_FRAME (entry : BitVec 32) {address : Nat}
    (hentry : PAGE_PHYS_ADDRESS entry < 2147483648) (haddress : address < 4294967296) :
    PAGE_PHYS_ADDRESS (SET_FRAME entry address) = address / 4096 * 4096 := by
  have hhigh : entry.getLsbD 31 = false := by
    rw [← BitVec.testBit_toNat]
    rw [PAGE_PHYS_ADDRESS_eq] at hentry
    exact Nat.testBit_lt_two_pow (by omega)
  have hsame : SET_FRAME entry address &&& ~~~0xFFF#32 = BitVec.ofNat 32 address &&& ~~~0xFFF#32 := by
    apply BitVec.eq_of_getLsbD_eq
    intro i hi
    unfold SET_FRAME
    simp only [BitVec.getLsbD_and, BitVec.getLsbD_or, BitVec.getLsbD_not, hi, decide_true,
      Bool.true_and]
    have hoffset : ∀ j, j < 12 → (0xFFF#32).getLsbD j = true := by decide
    have hframe : ∀ j, j < 31 → 12 ≤ j → (0x7FFFF000#32).getLsbD j = true := by decide
    by_cases hlow : i < 12
    · simp [hoffset i hlow]
    by_cases htop : i = 31
    · subst htop
      rw [hhigh, Bool.false_and, Bool.false_or]
    · simp [hframe i (by omega) (by omega)]
  have heq : PAGE_PHYS_ADDRESS (SET_FRAME entry address) = PAGE_PHYS_ADDRESS (BitVec.ofNat 32 address) := by
    unfold PAGE_PHYS_ADDRESS
    rw [hsame]
  rw [heq, PAGE_PHYS_ADDRESS_eq, BitVec.toNat_ofNat, Nat.mod_eq_of_lt haddress]

-- An entry that is pointed to the frame `t`, with its flags added.
theorem frame_entry {entry attributes : BitVec 32} {t : Nat} (hattributes : attributes.toNat < 4096)
    (hentry : PAGE_PHYS_ADDRESS entry < 2147483648) (ht : t < 1048576) :
    PAGE_PHYS_ADDRESS (SET_FRAME (entry ||| attributes) (4096 * t)) = 4096 * t := by
  rw [PAGE_PHYS_ADDRESS_SET_FRAME _ (by rwa [PAGE_PHYS_ADDRESS_or _ _ hattributes]) (by omega)]
  omega

-- The entries of a table that is set up in one go.
theorem table_entry {frame f : Nat} (haligned : frame % 4096 = 0)
    (hlt : frame + 4096 * f < 4294967296) :
    PAGE_PHYS_ADDRESS (SET_FRAME (PTE_PRESENT ||| PTE_READ_WRITE) (frame + f * PAGE_SIZE)) =
      frame + 4096 * f := by
  have hsmall : PAGE_PHYS_ADDRESS (PTE_PRESENT ||| PTE_READ_WRITE) < 2147483648 := by decide
  have haddress : frame + f * PAGE_SIZE = frame + 4096 * f := by
    rw [Nat.mul_comm]
    rfl
  rw [haddress, PAGE_PHYS_ADDRESS_SET_FRAME _ hsmall hlt]
  omega

end ToyKernel
