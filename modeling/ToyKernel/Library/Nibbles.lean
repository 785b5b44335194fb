import Mathlib.Algebra.Group.Nat.Defs

namespace Library

-- The half bytes of a table of bytes, the low half of each byte first
def nibble (table : Nat → Nat) (n : Nat) : Nat := table (n / 2) / 16 ^ (n % 2) % 16

-- Values of twelve bits, three nibbles each
def entry12 (table : Nat → Nat) (i : Nat) : Nat :=
  nibble table (3 * i) + 16 * nibble table (3 * i + 1) + 256 * nibble table (3 * i + 2)

section

variable {table : Nat → Nat}

theorem nibble_even (k : Nat) : nibble table (2 * k) = table k % 16 := by
  unfold nibble
  rw [Nat.mul_div_cancel_left k (by decide), Nat.mul_mod_right, Nat.pow_zero, Nat.div_one]

theorem nibble_odd (k : Nat) : nibble table (2 * k + 1) = table k / 16 % 16 := by
  unfold nibble
  rw [show (2 * k + 1) / 2 = k by omega, show (2 * k + 1) % 2 = 1 by omega, Nat.pow_one]

-- A value is in two bytes.
theorem entry12_congr {table' : Nat → Nat} {i : Nat}
    (h : ∀ k, 3 * i / 2 ≤ k → k ≤ 3 * i / 2 + 1 → table k = table' k) :
    entry12 table i = entry12 table' i := by
  unfold entry12 nibble
  rw [h (3 * i / 2) (by omega) (by omega), h ((3 * i + 1) / 2) (by omega) (by omega),
    h ((3 * i + 2) / 2) (by omega) (by omega)]

theorem nibble_lt (table : Nat → Nat) (n : Nat) : nibble table n < 16 := Nat.mod_lt _ (by decide)

theorem entry12_lt (table : Nat → Nat) (i : Nat) : entry12 table i < 4096 := by
  have h₀ := nibble_lt table (3 * i)
  have h₁ := nibble_lt table (3 * i + 1)
  have h₂ := nibble_lt table (3 * i + 2)
  unfold entry12
  omega

-- Two values fill three bytes.
theorem entry12_add_two (table : Nat → Nat) (i : Nat) :
    entry12 table (i + 2) = entry12 (fun k => table (k + 3)) i := by
  unfold entry12 nibble
  rw [show 3 * (i + 2) = 3 * i + 6 by omega, show (3 * i + 6) / 2 = 3 * i / 2 + 3 by omega,
    show (3 * i + 6 + 1) / 2 = (3 * i + 1) / 2 + 3 by omega,
    show (3 * i + 6 + 2) / 2 = (3 * i + 2) / 2 + 3 by omega,
    show (3 * i + 6) % 2 = 3 * i % 2 by omega, show (3 * i + 6 + 1) % 2 = (3 * i + 1) % 2 by omega,
    show (3 * i + 6 + 2) % 2 = (3 * i + 2) % 2 by omega]

-- Read out of the little-endian word at the byte where the value begins
theorem entry12_eq (htable : ∀ k, table k < 256) (i : Nat) :
    entry12 table i =
      if i % 2 = 0 then (table (3 * i / 2) + 256 * table (3 * i / 2 + 1)) % 4096
      else (table (3 * i / 2) + 256 * table (3 * i / 2 + 1)) / 16 := by
  obtain ⟨k, hk | hk⟩ : ∃ k, i = 2 * k ∨ i = 2 * k + 1 := ⟨i / 2, by omega⟩
  · have h := htable (3 * k)
    have h' := htable (3 * k + 1)
    rw [if_pos (by omega), show 3 * i / 2 = 3 * k by omega]
    unfold entry12
    rw [show 3 * i = 2 * (3 * k) by omega, nibble_even, nibble_odd,
      show 2 * (3 * k) + 2 = 2 * (3 * k + 1) by omega, nibble_even]
    omega
  · have h := htable (3 * k + 1)
    have h' := htable (3 * k + 2)
    rw [if_neg (by omega), show 3 * i / 2 = 3 * k + 1 by omega]
    unfold entry12
    rw [show 3 * i = 2 * (3 * k + 1) + 1 by omega, nibble_odd,
      show 2 * (3 * k + 1) + 1 + 1 = 2 * (3 * k + 2) by omega, nibble_even,
      show 2 * (3 * k + 1) + 1 + 2 = 2 * (3 * k + 2) + 1 by omega, nibble_odd]
    rw [show 3 * k + 1 + 1 = 3 * k + 2 from rfl]
    omega

end

section Packing

-- The nibbles of a list of values, and the bytes they fill
def half (value : Nat → Nat) (n : Nat) : Nat := value (n / 3) / 16 ^ (n % 3) % 16

def pack12 (value : Nat → Nat) (k : Nat) : Nat := half value (2 * k) + 16 * half value (2 * k + 1)

variable {value : Nat → Nat}

theorem half_lt (value : Nat → Nat) (n : Nat) : half value n < 16 := Nat.mod_lt _ (by decide)

theorem pack12_lt (k : Nat) : pack12 value k < 256 := by
  have h := half_lt value (2 * k)
  have h' := half_lt value (2 * k + 1)
  unfold pack12
  omega

theorem nibble_pack12 (n : Nat) : nibble (pack12 value) n = half value n := by
  have h := half_lt value (2 * (n / 2))
  have h' := half_lt value (2 * (n / 2) + 1)
  obtain hn | hn : n = 2 * (n / 2) ∨ n = 2 * (n / 2) + 1 := by omega
  · rw [hn, nibble_even]
    unfold pack12
    omega
  · rw [hn, nibble_odd]
    unfold pack12
    omega

theorem entry12_pack12 (i : Nat) (hvalue : value i < 4096) : entry12 (pack12 value) i = value i := by
  unfold entry12
  rw [nibble_pack12, nibble_pack12, nibble_pack12]
  unfold half
  rw [Nat.mul_div_cancel_left i (by decide), Nat.mul_mod_right,
    show (3 * i + 1) / 3 = i by omega, show (3 * i + 1) % 3 = 1 by omega,
    show (3 * i + 2) / 3 = i by omega, show (3 * i + 2) % 3 = 2 by omega]
  omega

end Packing

end Library
