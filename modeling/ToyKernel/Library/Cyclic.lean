import Mathlib.Data.Nat.Basic

namespace Library.Cyclic

-- The place after `i` of `n` places in a circle.
def next (n i : Nat) : Nat := if i + 1 < n then i + 1 else 0

variable {n : Nat}

-- Going on from the place at distance `d` from `start` is the place at distance `d + 1`.
theorem next_mod (hn : 0 < n) (start d : Nat) : next n ((start + d) % n) = (start + (d + 1)) % n := by
  have hmod : (start + d) % n < n := Nat.mod_lt _ hn
  have hstep : (start + (d + 1)) % n = ((start + d) % n + 1) % n := by
    rw [Nat.mod_add_mod, Nat.add_assoc]
  rw [hstep]
  unfold next
  split
  case isTrue h => rw [Nat.mod_eq_of_lt h]
  case isFalse h => rw [show (start + d) % n + 1 = n by omega, Nat.mod_self]

-- Every place lies at some distance between one and a full turn.
theorem exists_distance {start i : Nat} (hstart : start < n) (hi : i < n) :
    ∃ d, 0 < d ∧ d ≤ n ∧ (start + d) % n = i := by
  by_cases h : start < i
  · exact ⟨i - start, by omega, by omega, by
      rw [show start + (i - start) = i by omega, Nat.mod_eq_of_lt hi]⟩
  · exact ⟨n - start + i, by omega, by omega, by
      rw [show start + (n - start + i) = i + n by omega, Nat.add_mod_right, Nat.mod_eq_of_lt hi]⟩

-- Only a full turn comes back to the start.
theorem distance_eq {start d : Nat} (hstart : start < n) (hpos : 0 < d) (hd : d ≤ n)
    (h : (start + d) % n = start) : d = n := by
  by_cases hlt : start + d < n
  · rw [Nat.mod_eq_of_lt hlt] at h
    omega
  · rw [Nat.mod_eq_sub_mod (by omega)] at h
    by_cases hd' : d = n
    · exact hd'
    · rw [Nat.mod_eq_of_lt (by omega)] at h
      omega

end Library.Cyclic
