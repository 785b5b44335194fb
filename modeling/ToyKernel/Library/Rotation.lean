import Mathlib.Data.List.Perm.Basic
import Mathlib.Data.List.Range
import ToyKernel.Library.Cyclic

namespace Library.Cyclic

-- The first place after `start` where `p` holds, in a circle of `n` places, `start` itself last
def FirstAfter (n : Nat) (p : Nat → Bool) (start i : Nat) : Prop :=
  ∃ d, 0 < d ∧ d ≤ n ∧ (start + d) % n = i ∧ p i = true ∧
    ∀ e, 0 < e → e < d → p ((start + e) % n) = false

-- Each place is the first one after the place before.
inductive Tour (n : Nat) (p : Nat → Bool) : Nat → List Nat → Prop where
  | nil (start : Nat) : Tour n p start []
  | cons {start i : Nat} {rest : List Nat} (h : FirstAfter n p start i) (hrest : Tour n p i rest) :
      Tour n p start (i :: rest)

variable {n start : Nat} {p q : Nat → Bool} {places : List Nat}

theorem FirstAfter.congr (hn : 0 < n) (h : FirstAfter n p start i) (hpq : ∀ i < n, p i = q i) :
    FirstAfter n q start i := by
  obtain ⟨d, hpos, hd, rfl, hp, hbefore⟩ := h
  refine ⟨d, hpos, hd, rfl, ?_, fun e he hed => ?_⟩
  · rwa [← hpq _ (Nat.mod_lt _ hn)]
  · rw [← hpq _ (Nat.mod_lt _ hn)]
    exact hbefore e he hed

theorem Tour.congr (hn : 0 < n) (h : Tour n p start places) (hpq : ∀ i < n, p i = q i) :
    Tour n q start places := by
  induction h with
  | nil start => exact .nil start
  | cons h _ ih => exact .cons (h.congr hn hpq) ih

-- The distances after `d` at which `p` holds, going round from `start` once
def ahead (n start : Nat) (p : Nat → Bool) (d : Nat) : List Nat :=
  (List.range' (d + 1) (n - d)).filter fun k => p ((start + k) % n)

theorem ahead_of_first {d k : Nat} (hlo : d < k) (hk : k ≤ n) (hp : p ((start + k) % n) = true)
    (hbefore : ∀ e, d < e → e < k → p ((start + e) % n) = false) :
    ahead n start p d = k :: ahead n start p k := by
  have hsplit : List.range' (d + 1) (n - d) =
      List.range' (d + 1) (k - d - 1) ++ k :: List.range' (k + 1) (n - k) := by
    have hlast : n - d = (k - d - 1) + (n - k + 1) := by omega
    rw [hlast, ← List.range'_append_1, ← List.range'_succ]
    congr 2
    omega
  have hnone : (List.range' (d + 1) (k - d - 1)).filter (fun k => p ((start + k) % n)) = [] := by
    apply List.filter_eq_nil_iff.mpr
    intro e he
    obtain ⟨hle, hlt⟩ := List.mem_range'_1.mp he
    rw [hbefore e (by omega) (by omega)]
    exact Bool.false_ne_true
  rw [ahead, hsplit, List.filter_append, hnone, List.nil_append]
  simp only [hp, List.filter_cons_of_pos, ahead]

-- A tour goes through the distances in their order.
theorem Tour.eq_take {d : Nat} (hd : d ≤ n) (h : Tour n p ((start + d) % n) places)
    (hlength : places.length ≤ (ahead n start p d).length) :
    places = ((ahead n start p d).take places.length).map fun k => (start + k) % n := by
  generalize hfrom : (start + d) % n = from_ at h
  induction h generalizing d with
  | nil => simp
  | @cons from_ i rest h hrest ih =>
      obtain ⟨e, hpos, -, rfl, hp, hbefore⟩ := h
      have hgo : ∀ e, (from_ + e) % n = (start + (d + e)) % n := by
        intro e
        rw [← hfrom, Nat.mod_add_mod, Nat.add_assoc]
      -- there is a distance ahead, and the tour stops at none before it
      obtain ⟨k, hk⟩ : ∃ k, k ∈ ahead n start p d := by
        apply List.exists_mem_of_length_pos
        rw [List.length_cons] at hlength
        omega
      obtain ⟨hmem, hpk⟩ := List.mem_filter.mp hk
      obtain ⟨hlo, hhi⟩ := List.mem_range'_1.mp hmem
      have hle : d + e ≤ k := by
        by_contra hn
        have hclear := hbefore (k - d) (by omega) (by omega)
        rw [hgo, Nat.add_sub_cancel' (by omega), hpk] at hclear
        cases hclear
      have hfirst : ahead n start p d = (d + e) :: ahead n start p (d + e) := by
        apply ahead_of_first (by omega) (by omega)
        · rwa [← hgo]
        · intro f hlo' hhi'
          have hclear := hbefore (f - d) (by omega) (by omega)
          rwa [hgo, Nat.add_sub_cancel' (by omega)] at hclear
      rw [hfirst, List.length_cons, List.length_cons] at hlength
      have hrest := ih (d := d + e) (by omega) (by omega) (hgo e).symm
      rw [hfirst, List.length_cons, List.take_succ_cons, List.map_cons, ← hrest, hgo]

-- Once round from `start` are all places.
theorem perm_round (hstart : start < n) :
    ((List.range' 1 n).map fun k => (start + k) % n).Perm (List.range n) := by
  have hsplit : List.range' 1 n =
      List.range' 1 (n - start - 1) ++ List.range' (n - start) (start + 1) := by
    rw [show n - start = 1 + (n - start - 1) by omega,
      show 1 + (n - start - 1) - 1 = n - start - 1 by omega,
      List.range'_append_1, show n - start - 1 + (start + 1) = n by omega]
  have hbehind : (List.range' 1 (n - start - 1)).map (fun k => (start + k) % n) =
      List.range' (start + 1) (n - start - 1) := by
    rw [← List.map_add_range']
    apply List.map_congr_left
    intro k hk
    obtain ⟨hlo, hhi⟩ := List.mem_range'_1.mp hk
    exact Nat.mod_eq_of_lt (by omega)
  have hfront : (List.range' (n - start) (start + 1)).map (fun k => (start + k) % n) =
      List.range' 0 (start + 1) := by
    have hshift : List.range' (n - start) (start + 1) =
        (List.range' 0 (start + 1)).map (n - start + ·) := by
      simp [List.map_add_range']
    rw [hshift, List.map_map]
    conv_rhs => rw [← List.map_id (List.range' 0 (start + 1))]
    apply List.map_congr_left
    intro k hk
    obtain ⟨-, hhi⟩ := List.mem_range'_1.mp hk
    change (start + (n - start + k)) % n = k
    rw [show start + (n - start + k) = k + n by omega, Nat.add_mod_right,
      Nat.mod_eq_of_lt (by omega)]
  rw [hsplit, List.map_append, hbehind, hfront]
  refine List.perm_append_comm.trans (List.Perm.of_eq ?_)
  have hends : List.range' 0 (start + 1) ++ List.range' (0 + (start + 1)) (n - start - 1) =
      List.range' 0 (start + 1 + (n - start - 1)) := List.range'_append_1
  rw [Nat.zero_add] at hends
  rw [hends, List.range_eq_range']
  congr 1
  omega

-- A tour with as many stops as there are places stops at each of them once.
theorem Tour.perm (hstart : start < n) (h : Tour n p start places)
    (hlength : places.length = (List.range n).countP p) : places.Perm ((List.range n).filter p) := by
  have hround : (ahead n start p 0).map (fun k => (start + k) % n) =
      ((List.range' 1 n).map fun k => (start + k) % n).filter p := by
    rw [List.filter_map]
    rfl
  have hperm : ((ahead n start p 0).map fun k => (start + k) % n).Perm ((List.range n).filter p) := by
    rw [hround]
    exact (perm_round hstart).filter p
  have hcount : (ahead n start p 0).length = places.length := by
    rw [hlength, List.countP_eq_length_filter, ← hperm.length_eq, List.length_map]
  have hzero : (start + 0) % n = start := Nat.mod_eq_of_lt hstart
  rw [← hzero] at h
  have htake := h.eq_take (Nat.zero_le n) (Nat.le_of_eq hcount.symm)
  rw [← hcount, List.take_length] at htake
  rw [htake]
  exact hperm

end Library.Cyclic
