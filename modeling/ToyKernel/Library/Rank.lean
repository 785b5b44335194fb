import Mathlib.Algebra.GroupWithZero.Nat
import ToyKernel.Library.Run

namespace Library

variable {σ ρ ε : Type*}

-- A first part of the run comes to its end in a state where `Goal` holds.
def Attains (exec : σ → ρ → Except ε σ) (Goal : σ → Prop) (s : σ) (requests : List ρ) : Prop :=
  ∃ before after s', requests = before ++ after ∧ run exec s before = .ok s' ∧ Goal s'

variable {exec : σ → ρ → Except ε σ} {Goal : σ → Prop} {s s' : σ} {requests : List ρ}

theorem Attains.cons {r : ρ} (hexec : exec s r = .ok s') (h : Attains exec Goal s' requests) :
    Attains exec Goal s (r :: requests) := by
  obtain ⟨before, after, s₁, rfl, hrun, hgoal⟩ := h
  exact ⟨r :: before, after, s₁, rfl, by rw [run_cons hexec, hrun], hgoal⟩

theorem attains_first {r : ρ} (hexec : exec s r = .ok s') (hgoal : Goal s') :
    Attains exec Goal s (r :: requests) :=
  ⟨[r], requests, s', rfl, by rw [run_cons hexec]; rfl, hgoal⟩

-- `Inv n` says that the state is `n` away from the goal at most. A request adds its gain to
-- that and takes its cost away: a run that costs as much as there is to go comes to the goal.
theorem attains_of_rank {P : σ → ρ → Prop} (Inv : Nat → σ → Prop) (cost gain : ρ → Nat)
    (hpos : ∀ n s, Inv n s → 0 < n)
    (hstep : ∀ n s r, Inv n s → P s r → ∃ s', exec s r = .ok s' ∧
      (Goal s' ∨ ∃ n', Inv n' s' ∧ n' + cost r ≤ n + gain r))
    {n : Nat} (hs : Inv n s) (hmet : AllMet exec P s requests)
    (hlong : n + (requests.map gain).sum ≤ (requests.map cost).sum) :
    Attains exec Goal s requests := by
  induction requests generalizing n s with
  | nil =>
      have h := hpos n s hs
      simp only [List.map_nil, List.sum_nil] at hlong
      omega
  | cons r requests ih =>
      obtain ⟨mid, hmid, hgoal | ⟨n', hinv, hrank⟩⟩ := hstep n s r hs hmet.1
      · exact attains_first hmid hgoal
      · simp only [List.map_cons, List.sum_cons] at hlong
        exact (ih hinv (hmet.2 mid hmid) (by omega)).cons hmid

-- Nothing need be asked of the requests.
theorem allMet_trivial (s : σ) (requests : List ρ) : AllMet exec (fun _ _ => True) s requests := by
  induction requests generalizing s with
  | nil => trivial
  | cons r requests ih => exact ⟨trivial, fun mid _ => ih mid⟩

end Library
