import Mathlib.Data.Nat.Digits.Lemmas

namespace Library

-- The digits of `n` to the base `b`, the highest one first, with no zero before them
structure IsNumeral (b : Nat) (ds : List Nat) (n : Nat) : Prop where
  nonempty : ds ≠ []
  lt : ∀ d ∈ ds, d < b
  leading : ds.head? = some 0 → ds = [0]
  value : Nat.ofDigits b ds.reverse = n

def numeral (b n : Nat) : List Nat := if n = 0 then [0] else (Nat.digits b n).reverse

variable {b n : Nat} {ds : List Nat}

theorem isNumeral_numeral (hb : 1 < b) (n : Nat) : IsNumeral b (numeral b n) n := by
  unfold numeral
  by_cases hn : n = 0
  · rw [if_pos hn, hn]
    exact ⟨by decide, fun d hd => by rw [List.mem_singleton.mp hd]; omega, fun _ => rfl, rfl⟩
  · have hne : Nat.digits b n ≠ [] := Nat.digits_ne_nil_iff_ne_zero.mpr hn
    rw [if_neg hn]
    refine ⟨by simpa using hne, fun d hd => ?_, fun hhead => ?_, ?_⟩
    · exact Nat.digits_lt_base hb (List.mem_reverse.mp hd)
    · rw [List.head?_reverse, List.getLast?_eq_getLast_of_ne_nil hne] at hhead
      exact absurd (Option.some.inj hhead) (Nat.getLast_digit_ne_zero b hn)
    · rw [List.reverse_reverse, Nat.ofDigits_digits]

-- There is no other numeral for `n`.
theorem IsNumeral.eq_numeral (hb : 1 < b) (h : IsNumeral b ds n) : ds = numeral b n := by
  have hvalue := h.value
  unfold numeral
  cases ds with
  | nil => exact absurd rfl h.nonempty
  | cons d ds =>
      by_cases hzero : d = 0
      · have hsingle : d :: ds = [0] := h.leading (by rw [hzero]; rfl)
        rw [hsingle] at hvalue ⊢
        exact (if_pos hvalue.symm).symm
      · have hlast : ∀ hne : (d :: ds).reverse ≠ [], (d :: ds).reverse.getLast hne ≠ 0 := by
          intro hne
          rwa [List.getLast_reverse, List.head_cons]
        have hdigits := Nat.digits_ofDigits b hb (d :: ds).reverse
          (fun e he => h.lt e (List.mem_reverse.mp he)) hlast
        rw [hvalue] at hdigits
        have hn : n ≠ 0 := by
          rintro rfl
          rw [Nat.digits_zero] at hdigits
          exact List.cons_ne_nil d ds (List.reverse_eq_nil_iff.mp hdigits.symm)
        rw [if_neg hn, hdigits, List.reverse_reverse]

-- The lowest digit, and the numeral of what is left of the number
theorem numeral_eq (hb : 1 < b) (n : Nat) :
    numeral b n = if n / b > 0 then numeral b (n / b) ++ [n % b] else [n % b] := by
  unfold numeral
  by_cases hn : n = 0
  · rw [if_pos hn, hn, Nat.zero_div, Nat.zero_mod]
    rfl
  · rw [if_neg hn, Nat.digits_eq_cons_digits_div hb hn, List.reverse_cons]
    by_cases hq : n / b = 0
    · rw [hq, Nat.digits_zero]
      rfl
    · rw [if_pos (Nat.pos_of_ne_zero hq), if_neg hq]

theorem length_numeral_le {k : Nat} (hb : 1 < b) (hk : 1 ≤ k) (hn : n < b ^ k) :
    (numeral b n).length ≤ k := by
  unfold numeral
  split
  · exact hk
  · rw [List.length_reverse]
    exact (Nat.digits_length_le_iff hb n).mpr hn

-- What a reader from the left makes of the digits
theorem foldl_numeral (b : Nat) (ds : List Nat) :
    ds.foldl (fun value d => value * b + d) 0 = Nat.ofDigits b ds.reverse := by
  rw [Nat.ofDigits_eq_foldr, List.foldr_reverse]
  exact congrArg (fun f => ds.foldl f 0) (funext fun value => funext fun d => by
    rw [Nat.mul_comm, Nat.add_comm, Nat.cast_id])

end Library
