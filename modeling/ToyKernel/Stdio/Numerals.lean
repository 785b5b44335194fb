import ToyKernel.Library.Numeral
import ToyKernel.Stdio

namespace ToyKernel.Stdio

open Library

-- The characters of a numeral
def Denotes (radix : Nat) (text : List UInt8) (n : Nat) : Prop :=
  ∃ ds, IsNumeral radix ds n ∧ text = ds.map hexChar

section Digits

def hexValue (c : UInt8) : Nat := if c.toNat < 0x3A then c.toNat - 0x30 else c.toNat - 0x61 + 10

theorem hexValue_hexChar {d : Nat} (h : d < 16) : hexValue (hexChar d) = d := by
  interval_cases d <;> rfl

-- No text denotes two numbers.
theorem Denotes.unique {radix n m : Nat} {text : List UInt8} (hradix : radix ≤ 16)
    (h : Denotes radix text n) (h' : Denotes radix text m) : n = m := by
  obtain ⟨ds, hds, rfl⟩ := h
  obtain ⟨es, hes, hsame⟩ := h'
  have hread : ∀ {ds : List Nat}, (∀ d ∈ ds, d < radix) → (ds.map hexChar).map hexValue = ds := by
    intro ds hlt
    rw [List.map_map]
    exact (List.map_congr_left fun d hd =>
      hexValue_hexChar (Nat.lt_of_lt_of_le (hlt d hd) hradix)).trans (List.map_id ds)
  have hdigits : ds = es := by rw [← hread hds.lt, hsame, hread hes.lt]
  rw [← hds.value, hdigits, hes.value]

end Digits

-- The radixes of the directives
def IsRadix (radix : Nat) : Prop := radix = 8 ∨ radix = 10 ∨ radix = 16

section Unsigned

variable {radix : Nat}

theorem IsRadix.one_lt (h : IsRadix radix) : 1 < radix := by
  rcases h with rfl | rfl | rfl <;> decide

theorem IsRadix.eight_le (h : IsRadix radix) : 8 ≤ radix := by
  rcases h with rfl | rfl | rfl <;> decide

-- The digits are stored from the lowest one on; `fuel` rounds reach the end of the number.
theorem digitsLoop_eq (hradix : 1 < radix) {fuel : Nat} (hpos : 1 ≤ fuel) {number : Nat}
    (hfuel : number < radix ^ fuel) (buffer : List UInt8) :
    digitsLoop radix fuel number buffer = buffer ++ (numeral radix number).reverse.map hexChar := by
  induction fuel generalizing number buffer with
  | zero => omega
  | succ fuel ih =>
      unfold digitsLoop
      rw [numeral_eq hradix]
      by_cases hmore : number / radix > 0
      · have hleft : number / radix < radix ^ fuel := by
          apply Nat.div_lt_of_lt_mul
          rwa [← Nat.pow_succ']
        have hfuel' : 1 ≤ fuel := by
          rcases Nat.eq_zero_or_pos fuel with rfl | hfuel'
          · rw [Nat.pow_zero] at hleft
            omega
          · exact hfuel'
        simp only [if_pos hmore]
        rw [ih hfuel' hleft, List.reverse_append, List.map_append, List.append_assoc]
        rfl
      · simp only [if_neg hmore]
        rfl

theorem two_pow_le (h : IsRadix radix) : 2 ^ 64 ≤ radix ^ 22 :=
  calc 2 ^ 64 ≤ 8 ^ 22 := by decide
    _ ≤ radix ^ 22 := Nat.pow_le_pow_left h.eight_le 22

theorem toNat_lt_pow (h : IsRadix radix) (number : UInt64) : number.toNat < radix ^ 22 :=
  Nat.lt_of_lt_of_le number.toNat_lt (two_pow_le h)

theorem digitsLoop_number (h : IsRadix radix) (number : UInt64) :
    digitsLoop radix 64 number.toNat [] = (numeral radix number.toNat).reverse.map hexChar := by
  have hfuel : number.toNat < radix ^ 64 := Nat.lt_of_lt_of_le (toNat_lt_pow h number)
    (Nat.pow_le_pow_right (Nat.lt_trans Nat.zero_lt_one h.one_lt) (by decide))
  exact digitsLoop_eq h.one_lt (by decide) hfuel []

theorem printfUnsigned_eq (h : IsRadix radix) (number : UInt64) :
    printfUnsigned number radix = (numeral radix number.toNat).map hexChar := by
  rw [printfUnsigned, digitsLoop_number h, ← List.map_reverse, List.reverse_reverse]

-- `char buffer[32]` has room for all digits.
theorem length_buffer_le (h : IsRadix radix) (number : UInt64) :
    (digitsLoop radix 64 number.toNat []).length ≤ 32 := by
  rw [digitsLoop_number h, List.length_map, List.length_reverse]
  exact Nat.le_trans (length_numeral_le h.one_lt (by decide) (toNat_lt_pow h number)) (by decide)

theorem denotes_printfUnsigned (h : IsRadix radix) (number : UInt64) :
    Denotes radix (printfUnsigned number radix) number.toNat :=
  ⟨_, isNumeral_numeral h.one_lt _, printfUnsigned_eq h number⟩

theorem Denotes.eq_printfUnsigned (h : IsRadix radix) {number : UInt64} {text : List UInt8}
    (htext : Denotes radix text number.toNat) : text = printfUnsigned number radix := by
  obtain ⟨ds, hds, rfl⟩ := htext
  rw [printfUnsigned_eq h, hds.eq_numeral h.one_lt]

end Unsigned

section Signed

-- The negation is taken modulo 2^64, so that the smallest number gives 2^63.
theorem toNat_neg (number : Int64) (h : number < 0) : (-number).toUInt64.toNat = number.toInt.natAbs := by
  have hneg : number.toInt < 0 := Int64.lt_iff_toInt_lt.mp h
  have hlow := Int64.le_toInt number
  have hbits : (-number).toUInt64.toNat = (2 ^ 64 - number.toBitVec.toNat) % 2 ^ 64 := BitVec.toNat_neg _
  have hint : number.toInt = (number.toBitVec.toNat : Int).bmod (2 ^ 64) := BitVec.toInt_eq_toNat_bmod _
  have hlt := number.toBitVec.isLt
  rw [Int.bmod_def] at hint
  omega

theorem toNat_nonneg (number : Int64) (h : ¬number < 0) : number.toUInt64.toNat = number.toInt.natAbs := by
  have hpos : ¬number.toInt < 0 := fun hneg => h (Int64.lt_iff_toInt_lt.mpr hneg)
  have hint : number.toInt = (number.toBitVec.toNat : Int).bmod (2 ^ 64) := BitVec.toInt_eq_toNat_bmod _
  have hlt := number.toBitVec.isLt
  change number.toBitVec.toNat = _
  rw [Int.bmod_def] at hint
  omega

theorem printfSigned_eq {radix : Nat} (h : IsRadix radix) (number : Int64) :
    ∃ text, Denotes radix text number.toInt.natAbs ∧
      printfSigned number radix = (if number < 0 then [MINUS] else []) ++ text := by
  unfold printfSigned
  by_cases hneg : number < 0
  · refine ⟨printfUnsigned (-number).toUInt64 radix, ?_, ?_⟩
    · rw [← toNat_neg number hneg]
      exact denotes_printfUnsigned h _
    · rw [if_pos hneg, if_pos hneg]
      rfl
  · refine ⟨printfUnsigned number.toUInt64 radix, ?_, ?_⟩
    · rw [← toNat_nonneg number hneg]
      exact denotes_printfUnsigned h _
    · rw [if_neg hneg, if_neg hneg]
      rfl

end Signed

section Parsing

def CHAR_0 : Int32 := 48

-- str_to_int, for the characters before the NUL
def strToInt (str : List UInt8) : Int32 :=
  str.foldl (fun result c => result * 10 + (c.toInt8.toInt32 - CHAR_0)) 0

theorem digit_hexChar {d : Nat} (h : d < 10) : (hexChar d).toInt8.toInt32 - CHAR_0 = Int32.ofInt d := by
  interval_cases d <;> rfl

theorem strToInt_digits {ds : List Nat} (h : ∀ d ∈ ds, d < 10) :
    strToInt (ds.map hexChar) = Int32.ofInt (ds.foldl (fun value d => value * 10 + d) 0 : Nat) := by
  unfold strToInt
  -- from any value on that has been read already
  suffices hread : ∀ value : Nat, (ds.map hexChar).foldl
      (fun result c => result * 10 + (c.toInt8.toInt32 - CHAR_0)) (Int32.ofInt value) =
      Int32.ofInt (ds.foldl (fun value d => value * 10 + d) value : Nat) from hread 0
  induction ds with
  | nil => exact fun _ => rfl
  | cons d ds ih =>
      intro value
      have hd := digit_hexChar (h d List.mem_cons_self)
      have hnext : Int32.ofInt value * 10 + Int32.ofInt d = Int32.ofInt (value * 10 + d : Nat) := by
        rw [Nat.cast_add, Nat.cast_mul, Int32.ofInt_add, Int32.ofInt_mul]
        rfl
      rw [List.map_cons, List.foldl_cons, List.foldl_cons, hd, hnext]
      exact ih (fun e he => h e (List.mem_cons_of_mem d he)) _

theorem strToInt_printfUnsigned {number : UInt64} (h : number.toNat < 2 ^ 31) :
    (strToInt (printfUnsigned number 10)).toInt = number.toNat := by
  have hradix : IsRadix 10 := .inr (.inl rfl)
  have hnumeral := isNumeral_numeral hradix.one_lt number.toNat
  rw [printfUnsigned_eq hradix, strToInt_digits hnumeral.lt, foldl_numeral, hnumeral.value]
  apply Int32.toInt_ofInt_of_le <;> omega

end Parsing

-- The numerals that printf_unsigned and printf_signed emit, and str_to_int reading them
theorem numerals_exact :
    (∀ (number : UInt64) radix, IsRadix radix →
      Denotes radix (printfUnsigned number radix) number.toNat ∧
        (∀ text, Denotes radix text number.toNat → text = printfUnsigned number radix) ∧
        (digitsLoop radix 64 number.toNat []).length ≤ 32) ∧
    (∀ (number : Int64) radix, IsRadix radix → ∃ text, Denotes radix text number.toInt.natAbs ∧
      printfSigned number radix = (if number < 0 then [MINUS] else []) ++ text) ∧
    ∀ number : UInt64, number.toNat < 2 ^ 31 →
      (strToInt (printfUnsigned number 10)).toInt = number.toNat :=
  ⟨fun number _ h => ⟨denotes_printfUnsigned h number, fun _ => Denotes.eq_printfUnsigned h,
      length_buffer_le h number⟩,
    fun number _ h => printfSigned_eq h number, fun _ => strToInt_printfUnsigned⟩

end ToyKernel.Stdio
