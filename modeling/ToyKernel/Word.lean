namespace ToyKernel

-- A value stored in a `uint32_t`.
def u32 (n : Nat) : Nat := n % 4294967296

-- A difference of two `uint32_t`.
def u32Sub (a b : Nat) : Nat := u32 (a + (4294967296 - u32 b))

theorem u32_of_lt {n : Nat} (h : n < 4294967296) : u32 n = n := Nat.mod_eq_of_lt h

theorem u32_lt (n : Nat) : u32 n < 4294967296 := Nat.mod_lt _ (by omega)

-- A sum may be cut to 32 bits at every step or once at the end.
theorem u32_add (a b : Nat) : u32 (u32 a + b) = u32 (a + b) := Nat.mod_add_mod a _ b

theorem u32Sub_of_le {a b : Nat} (h : b ≤ a) (ha : a < 4294967296) : u32Sub a b = a - b := by
  unfold u32Sub u32
  omega

end ToyKernel
