import Mathlib.Data.Fintype.Card

namespace Library

variable {α : Type*} (next : α → Option α)

-- Going on from `a` for as long as there is a next one
def walk : Nat → α → Option α
  | 0, a => some a
  | n + 1, a => (walk n a).bind next

-- The walk comes to its end after `n` places, the first one included.
structure Lasts (a : α) (n : Nat) : Prop where
  goes : ∀ i < n, walk next i a ≠ none
  ends : walk next n a = none

variable {next} {a : α} {m n : Nat}

theorem walk_add (m n : Nat) (a : α) : walk next (m + n) a = (walk next m a).bind (walk next n) := by
  induction n with
  | zero => exact (Option.bind_fun_some (walk next m a)).symm
  | succ n ih =>
      rw [← Nat.add_assoc, walk, ih, Option.bind_assoc]
      rfl

theorem walk_add_of_some {b : α} (h : walk next m a = some b) (n : Nat) :
    walk next (m + n) a = walk next n b := by
  rw [walk_add, h, Option.bind_some]

-- Steps that agree wherever the walk comes along
theorem walk_congr {next' : α → Option α} (P : α → Prop) (hsame : ∀ a, P a → next a = next' a)
    (hkeeps : ∀ a b, P a → next a = some b → P b) (ha : P a) (n : Nat) :
    walk next n a = walk next' n a ∧ ∀ b, walk next n a = some b → P b := by
  induction n with
  | zero => exact ⟨rfl, fun b hb => Option.some.inj hb ▸ ha⟩
  | succ n ih =>
      obtain ⟨hwalk, hplace⟩ := ih
      rw [walk, walk, ← hwalk]
      cases hmid : walk next n a with
      | none => exact ⟨rfl, nofun⟩
      | some mid =>
          have hm := hplace mid hmid
          exact ⟨hsame mid hm, fun b hb => hkeeps mid b hm hb⟩

theorem walk_none_of_le (h : walk next m a = none) (hle : m ≤ n) : walk next n a = none := by
  obtain ⟨k, rfl⟩ := Nat.exists_eq_add_of_le hle
  rw [walk_add, h, Option.bind_none]

theorem exists_lasts (h : walk next m a = none) : ∃ n ≤ m, Lasts next a n := by
  classical
  have hend : ∃ n, walk next n a = none := ⟨m, h⟩
  exact ⟨Nat.find hend, Nat.find_min' hend h, fun i hi => Nat.find_min hend hi, Nat.find_spec hend⟩

namespace Lasts

theorem lt_of_some {b : α} (h : Lasts next a n) (hb : walk next m a = some b) : m < n := by
  by_contra hle
  rw [walk_none_of_le h.ends (Nat.not_lt.mp hle)] at hb
  cases hb

theorem shift {b : α} (h : Lasts next a n) (hb : walk next m a = some b) : Lasts next b (n - m) := by
  have hlt := h.lt_of_some hb
  constructor
  · intro i hi
    rw [← walk_add_of_some hb]
    exact h.goes (m + i) (by omega)
  · rw [← walk_add_of_some hb, Nat.add_sub_cancel' (Nat.le_of_lt hlt)]
    exact h.ends

theorem cons {b : α} (hb : next a = some b) (h : Lasts next b n) : Lasts next a (1 + n) := by
  have hone : walk next 1 a = some b := hb
  constructor
  · intro i hi
    cases i with
    | zero => exact Option.some_ne_none a
    | succ i =>
        rw [Nat.add_comm, walk_add_of_some hone]
        exact h.goes i (by omega)
  · rw [walk_add_of_some hone]
    exact h.ends

theorem unique (h : Lasts next a m) (h' : Lasts next a n) : m = n := by
  by_contra hne
  rcases Nat.lt_or_gt_of_ne hne with hlt | hlt
  · exact h'.goes m hlt h.ends
  · exact h.goes n hlt h'.ends

-- Coming to a place again, the walk would have as far to go as before.
theorem injective {b : α} {i j : Nat} (h : Lasts next a n) (hi : walk next i a = some b)
    (hj : walk next j a = some b) : i = j := by
  have hsame := (h.shift hi).unique (h.shift hj)
  have hltI := h.lt_of_some hi
  have hltJ := h.lt_of_some hj
  omega

-- So it has no more places than there are to go to.
theorem le_card {β : Type*} [Fintype β] (h : Lasts next a n) (code : α → β)
    (hcode : ∀ b c b' c', next b = some c → next b' = some c' → code c = code c' → c = c') :
    n ≤ Fintype.card β + 1 := by
  have hplace : ∀ i : Fin (n - 1), ∃ b c, walk next i.val a = some b ∧ next b = some c ∧
      walk next (i.val + 1) a = some c := by
    intro i
    obtain ⟨c, hc⟩ := Option.ne_none_iff_exists'.mp (h.goes (i.val + 1) (by omega))
    obtain ⟨b, hb, hnext⟩ := Option.bind_eq_some_iff.mp hc
    exact ⟨b, c, hb, hnext, hc⟩
  choose from_ to_ hfrom hnext hto using hplace
  have hinjective : Function.Injective fun i => code (to_ i) := by
    intro i j hsame
    have hplaces := hcode _ _ _ _ (hnext i) (hnext j) hsame
    have hindex := h.injective (hto i) (hplaces ▸ hto j)
    exact Fin.ext (by omega)
  have hcard := Fintype.card_le_of_injective _ hinjective
  rw [Fintype.card_fin] at hcard
  omega

end Lasts

end Library
