import Mathlib.Logic.Function.Basic

namespace Library.BitArray

variable {w : Nat}

-- An array of `w`-bit words read as one sequence of bits, lowest bit first.
def mask (bit : Nat) : BitVec w := 1#w <<< (bit % w)

def test (words : Nat → BitVec w) (bit : Nat) : Bool :=
  words (bit / w) &&& mask bit != 0#w

def set (words : Nat → BitVec w) (bit : Nat) : Nat → BitVec w :=
  Function.update words (bit / w) (words (bit / w) ||| mask bit)

def unset (words : Nat → BitVec w) (bit : Nat) : Nat → BitVec w :=
  Function.update words (bit / w) (words (bit / w) &&& ~~~mask bit)

-- The array after its first `count` bits have been overwritten with zeros.
def zeroPrefix (words : Nat → BitVec w) (count : Nat) : Nat → BitVec w :=
  fun i => words i &&& (BitVec.allOnes w <<< (count - w * i))

theorem getLsbD_mask (hw : 0 < w) (bit j : Nat) (hj : j < w) :
    (mask bit : BitVec w).getLsbD j = decide (j = bit % w) := by
  have hb : bit % w < w := Nat.mod_lt _ hw
  simp only [mask, BitVec.getLsbD_shiftLeft, hj, decide_true, Bool.true_and, BitVec.getLsbD_one, hw]
  by_cases hlt : j < bit % w
  · simp [hlt, Nat.ne_of_lt hlt]
  · simp only [hlt, decide_false, Bool.not_false, Bool.true_and]
    congr 1
    apply propext
    omega

theorem test_eq_getLsbD (hw : 0 < w) (words : Nat → BitVec w) (bit : Nat) :
    test words bit = (words (bit / w)).getLsbD (bit % w) := by
  have hb : bit % w < w := Nat.mod_lt _ hw
  unfold test
  cases hv : (words (bit / w)).getLsbD (bit % w) with
  | true =>
      rw [bne_iff_ne]
      intro hz
      have hg := congrArg (·.getLsbD (bit % w)) hz
      simp [hv, getLsbD_mask hw bit _ hb] at hg
  | false =>
      rw [bne_eq_false_iff_eq]
      apply BitVec.eq_of_getLsbD_eq
      intro j hj
      rw [BitVec.getLsbD_and, getLsbD_mask hw bit j hj]
      by_cases he : j = bit % w
      · simp [he, hv]
      · simp [he]

-- Two bits share a word and a place in it only when they are the same bit.
theorem bit_eq_of_div_mod {bit other : Nat} (hd : other / w = bit / w)
    (hm : other % w = bit % w) : other = bit := by
  rw [← Nat.div_add_mod other w, ← Nat.div_add_mod bit w, hd, hm]

theorem test_set (hw : 0 < w) (words : Nat → BitVec w) (bit other : Nat) :
    test (set words bit) other = (decide (other = bit) || test words other) := by
  have ho : other % w < w := Nat.mod_lt _ hw
  simp only [test_eq_getLsbD hw, set]
  by_cases hd : other / w = bit / w
  · simp only [hd, Function.update_self, BitVec.getLsbD_or, getLsbD_mask hw bit _ ho]
    by_cases he : other = bit
    · simp [he]
    · have hm : other % w ≠ bit % w := fun hm => he (bit_eq_of_div_mod hd hm)
      simp [he, hm]
  · have he : other ≠ bit := fun he => hd (by rw [he])
    simp [Function.update_of_ne hd, he]

theorem test_unset (hw : 0 < w) (words : Nat → BitVec w) (bit other : Nat) :
    test (unset words bit) other = (decide (other ≠ bit) && test words other) := by
  have ho : other % w < w := Nat.mod_lt _ hw
  simp only [test_eq_getLsbD hw, unset]
  by_cases hd : other / w = bit / w
  · simp only [hd, Function.update_self, BitVec.getLsbD_and, BitVec.getLsbD_not, ho, decide_true,
      Bool.true_and, getLsbD_mask hw bit _ ho]
    by_cases he : other = bit
    · simp [he]
    · have hm : other % w ≠ bit % w := fun hm => he (bit_eq_of_div_mod hd hm)
      simp [he, hm]
  · have he : other ≠ bit := fun he => hd (by rw [he])
    simp [Function.update_of_ne hd, he]

theorem test_zeroPrefix (hw : 0 < w) (words : Nat → BitVec w) (count bit : Nat) :
    test (zeroPrefix words count) bit = (decide (count ≤ bit) && test words bit) := by
  have hb : bit % w < w := Nat.mod_lt _ hw
  have hbit := Nat.div_add_mod bit w
  simp only [test_eq_getLsbD hw, zeroPrefix, BitVec.getLsbD_and, BitVec.getLsbD_shiftLeft, hb,
    decide_true, Bool.true_and, BitVec.getLsbD_allOnes]
  rw [Bool.and_comm]
  congr 1
  by_cases hc : count ≤ bit
  · have hn : ¬bit % w < count - w * (bit / w) := by omega
    have hlt : bit % w - (count - w * (bit / w)) < w := by omega
    simp [hn, hlt, hc]
  · have hn : bit % w < count - w * (bit / w) := by omega
    simp [hn, hc]

-- The loops skip a word that is all ones: no bit of it is clear.
theorem test_of_allOnes (hw : 0 < w) (words : Nat → BitVec w) (i j : Nat) (hj : j < w)
    (h : words i = BitVec.allOnes w) : test words (i * w + j) = true := by
  have hdiv : (i * w + j) / w = i := by
    rw [Nat.mul_comm, Nat.mul_add_div hw, Nat.div_eq_of_lt hj, Nat.add_zero]
  have hmod : (i * w + j) % w = j := by
    rw [Nat.mul_comm, Nat.mul_add_mod, Nat.mod_eq_of_lt hj]
  rw [test_eq_getLsbD hw, hdiv, hmod, h]
  simp [hj]

end Library.BitArray
