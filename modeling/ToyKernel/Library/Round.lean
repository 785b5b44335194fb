import Mathlib.Algebra.BigOperators.Group.Finset.Basic
import Mathlib.Algebra.GroupWithZero.Nat
import Mathlib.Algebra.Order.BigOperators.Group.Finset
import ToyKernel.Library.Rotation

namespace Library.Cyclic

-- Going round from `c`, the place `k` comes before the place `i`.
def Between (c i k : Nat) : Prop := if c ≤ i then c ≤ k ∧ k < i else c ≤ k ∨ k < i

instance (c i k : Nat) : Decidable (Between c i k) :=
  inferInstanceAs (Decidable (if c ≤ i then c ≤ k ∧ k < i else c ≤ k ∨ k < i))

-- What the place `k` adds to the turns before that of `i`
def share (turns : List Nat) (c i k : Nat) : Nat :=
  if Between c i k then turns.getD k 0 else 0

-- The turns of all places from `c` up to `i`
def queue (turns : List Nat) (c i : Nat) : Nat :=
  (Finset.range turns.length).sum fun k => share turns c i k

variable {n c i j k : Nat} {p : Nat → Bool} {turns turns' : List Nat}

theorem between_start (h : c ≠ i) : Between c i c := by
  unfold Between
  split <;> omega

theorem not_between_end : ¬ Between c i i := by
  unfold Between
  split <;> omega

theorem share_of_between (h : Between c i k) : share turns c i k = turns.getD k 0 := if_pos h

theorem share_of_not_between (h : ¬ Between c i k) : share turns c i k = 0 := if_neg h

theorem queue_start_le (hc : c < turns.length) (h : c ≠ i) : turns.getD c 0 ≤ queue turns c i := by
  rw [← share_of_between (between_start h)]
  exact Finset.single_le_sum (fun _ _ => Nat.zero_le _) (Finset.mem_range.mpr hc)

-- The first place after `c` where `p` holds does not lie beyond another one where it does.
theorem FirstAfter.between (h : FirstAfter n p c j) (hc : c < n) (hi : i < n) (hp : p i = true)
    (hci : c ≠ i) (hk : k < n) (hbetween : Between j i k) :
    Between c i k ∧ k ≠ c := by
  obtain ⟨d, hpos, hd, hj, -, hbefore⟩ := h
  obtain ⟨e, hepos, hen, he⟩ := exists_distance hc hi
  have hle : d ≤ e := by
    by_contra hlt
    rw [← he, hbefore e hepos (by omega)] at hp
    cases hp
  have hlast : e ≠ n := by
    rintro rfl
    rw [Nat.add_mod_right, Nat.mod_eq_of_lt hc] at he
    exact hci he
  -- the remainders are the places themselves, or one turn less
  have hplace : ∀ d ≤ n, (c + d) % n = if c + d < n then c + d else c + d - n := by
    intro d hd
    split
    case isTrue h => exact Nat.mod_eq_of_lt h
    case isFalse h => rw [Nat.mod_eq_sub_mod (by omega), Nat.mod_eq_of_lt (by omega)]
  rw [hplace d hd] at hj
  rw [hplace e hen] at he
  unfold Between at hbetween ⊢
  split at hj <;> split at he <;> split at hbetween <;> split <;> omega

-- Once `c` has had its turn the queue is the shorter by it.
theorem queue_advance (hc : c < turns.length) (hci : c ≠ i) (hlength : turns'.length = turns.length)
    (hsame : ∀ k, k ≠ c → turns'.getD k 0 = turns.getD k 0)
    (hbetween : ∀ k, k < turns.length → Between j i k → Between c i k ∧ k ≠ c) :
    queue turns' j i + turns.getD c 0 ≤ queue turns c i := by
  have hmem : c ∈ Finset.range turns.length := Finset.mem_range.mpr hc
  have hhere : share turns' j i c = 0 := share_of_not_between fun h => (hbetween c hc h).2 rfl
  unfold queue
  rw [hlength, ← Finset.add_sum_erase _ _ hmem, ← Finset.add_sum_erase _ (fun k => share turns c i k) hmem, hhere,
    share_of_between (between_start hci), Nat.zero_add, Nat.add_comm]
  refine Nat.add_le_add_left (Finset.sum_le_sum fun k hk => ?_) _
  obtain ⟨hne, hlt⟩ := Finset.mem_erase.mp hk
  by_cases h : Between j i k
  · rw [share_of_between h, hsame k hne,
      share_of_between (hbetween k (Finset.mem_range.mp hlt) h).1]
  · rw [share_of_not_between h]
    exact Nat.zero_le _

-- A part of the turn of `c` has gone by.
theorem queue_spend (hc : c < turns.length) (hci : c ≠ i) (hlength : turns'.length = turns.length)
    (hsame : ∀ k, k ≠ c → turns'.getD k 0 = turns.getD k 0) :
    queue turns' c i + turns.getD c 0 = queue turns c i + turns'.getD c 0 := by
  have hmem : c ∈ Finset.range turns.length := Finset.mem_range.mpr hc
  have hrest : ((Finset.range turns.length).erase c).sum (fun k => share turns' c i k) =
      ((Finset.range turns.length).erase c).sum fun k => share turns c i k := by
    refine Finset.sum_congr rfl fun k hk => ?_
    unfold share
    rw [hsame k (Finset.mem_erase.mp hk).1]
  unfold queue
  rw [hlength, ← Finset.add_sum_erase _ _ hmem, ← Finset.add_sum_erase _ (fun k => share turns c i k) hmem, hrest,
    share_of_between (between_start hci), share_of_between (between_start hci)]
  omega

-- A place behind all others comes in at most once.
theorem queue_append (turn : Nat) : queue (turns ++ [turn]) c i ≤ queue turns c i + turn := by
  unfold queue
  rw [List.length_append, List.length_singleton, Finset.sum_range_succ]
  have hold : (Finset.range turns.length).sum (fun k => share (turns ++ [turn]) c i k) =
      (Finset.range turns.length).sum fun k => share turns c i k := by
    refine Finset.sum_congr rfl fun k hk => ?_
    unfold share
    rw [List.getD_eq_getElem?_getD, List.getElem?_append_left (Finset.mem_range.mp hk),
      ← List.getD_eq_getElem?_getD]
  have hnew : share (turns ++ [turn]) c i turns.length ≤ turn := by
    unfold share
    split
    · simp
    · exact Nat.zero_le _
  omega

theorem sum_eq_range (turns : List Nat) :
    turns.sum = (Finset.range turns.length).sum fun k => turns.getD k 0 := by
  induction turns with
  | nil => rfl
  | cons turn turns ih =>
      rw [List.sum_cons, List.length_cons, Finset.sum_range_succ', ih, Nat.add_comm]
      rfl

-- No queue holds more than the turns of all the others.
theorem queue_le {bounds : List Nat} (hi : i < turns.length) (hlength : bounds.length = turns.length)
    (hle : ∀ k, turns.getD k 0 ≤ bounds.getD k 0) : queue turns c i ≤ (bounds.eraseIdx i).sum := by
  have hmem : i ∈ Finset.range turns.length := Finset.mem_range.mpr hi
  have hlt : i < bounds.length := by omega
  have herase : bounds.getD i 0 + (bounds.eraseIdx i).sum = bounds.sum := by
    rw [← List.add_sum_eraseIdx hlt fun _ _ => Nat.add_comm .., List.getD_eq_getElem?_getD,
      List.getElem?_eq_getElem hlt, Option.getD_some]
  have hsum := sum_eq_range bounds
  rw [hlength, ← Finset.add_sum_erase _ _ hmem] at hsum
  have hrest : ((Finset.range turns.length).erase i).sum (fun k => share turns c i k) ≤
      ((Finset.range turns.length).erase i).sum fun k => bounds.getD k 0 := by
    refine Finset.sum_le_sum fun k _ => ?_
    unfold share
    split
    · exact hle k
    · exact Nat.zero_le _
  unfold queue
  rw [← Finset.add_sum_erase _ _ hmem, share_of_not_between not_between_end]
  omega

end Library.Cyclic
