import Mathlib.Tactic.TypeStar

namespace Library

section Total

variable {σ ρ : Type*} (exec : σ → ρ → σ)

-- `P` holds of every request of a run, in the state the request meets.
def AllSteps (P : σ → ρ → Prop) : σ → List ρ → Prop
  | _, [] => True
  | s, r :: requests => P s r ∧ AllSteps P (exec s r) requests

variable {exec}

-- Two conditions that agree wherever an invariant holds agree along every run.
theorem allSteps_congr {P Q : σ → ρ → Prop} (Inv : σ → Prop) {requests : List ρ}
    (hstep : ∀ s, Inv s → ∀ r ∈ requests, Inv (exec s r))
    (h : ∀ s, Inv s → ∀ r ∈ requests, (P s r ↔ Q s r)) {s : σ} (hs : Inv s) :
    AllSteps exec P s requests ↔ AllSteps exec Q s requests := by
  induction requests generalizing s with
  | nil => exact Iff.rfl
  | cons r requests ih =>
      refine and_congr (h s hs r List.mem_cons_self) (ih ?_ ?_ (hstep s hs r List.mem_cons_self))
      · exact fun s hs r hr => hstep s hs r (List.mem_cons_of_mem _ hr)
      · exact fun s hs r hr => h s hs r (List.mem_cons_of_mem _ hr)

theorem allSteps_of_forall {P : σ → ρ → Prop} {requests : List ρ} (h : ∀ s, ∀ r ∈ requests, P s r)
    (s : σ) : AllSteps exec P s requests := by
  induction requests generalizing s with
  | nil => trivial
  | cons r requests ih =>
      exact ⟨h s r List.mem_cons_self, ih (fun s r hr => h s r (List.mem_cons_of_mem _ hr)) _⟩

-- What every request keeps where its condition is met holds at the end of a run.
theorem foldl_invariant {P : σ → ρ → Prop} (Inv : σ → Prop) (hstep : ∀ s r, Inv s → P s r → Inv (exec s r))
    {requests : List ρ} {s : σ} (hs : Inv s) (hmet : AllSteps exec P s requests) :
    Inv (requests.foldl exec s) := by
  induction requests generalizing s with
  | nil => exact hs
  | cons r requests ih => exact ih (hstep s r hs hmet.1) hmet.2

-- Where a request keeps an invariant exactly under a condition, a run keeps it exactly under the
-- conditions of its requests.
theorem allSteps_keeps_iff {P Q : σ → ρ → Prop} (Inv : σ → Prop)
    (hstep : ∀ s r, Inv s → P s r → (Inv (exec s r) ↔ Q s r)) {requests : List ρ} {s : σ} (hs : Inv s)
    (hmet : AllSteps exec P s requests) :
    AllSteps exec (fun s r => Inv (exec s r)) s requests ↔ AllSteps exec Q s requests := by
  induction requests generalizing s with
  | nil => exact Iff.rfl
  | cons r requests ih =>
      have hhead := hstep s r hs hmet.1
      constructor
      · exact fun h => ⟨hhead.mp h.1, (ih h.1 hmet.2).mp h.2⟩
      · exact fun h => ⟨hhead.mpr h.1, (ih (hhead.mpr h.1) hmet.2).mpr h.2⟩

theorem allSteps_append (P : σ → ρ → Prop) (s : σ) (first second : List ρ) :
    AllSteps exec P s (first ++ second) ↔
      AllSteps exec P s first ∧ AllSteps exec P (first.foldl exec s) second := by
  induction first generalizing s with
  | nil => simp [AllSteps]
  | cons r first ih => simp [AllSteps, ih, and_assoc]

end Total

section Partial

-- A sequence of two steps that ends well is two steps that do.
theorem exists_of_bind {ε α β : Type*} {x : Except ε α} {f : α → Except ε β} {r : β}
    (h : x.bind f = .ok r) : ∃ a, x = .ok a ∧ f a = .ok r := by
  cases x with
  | error e => cases h
  | ok a => exact ⟨a, rfl, h⟩

theorem eq_ok_of_toOption {ε α : Type*} {result : Except ε α} {a : α} (h : result.toOption = some a) :
    result = .ok a := by
  cases result with
  | error e => cases h
  | ok b => rw [Option.some.inj h]

-- Requests that may not come to an end.
variable {σ ρ ε : Type*} (exec : σ → ρ → Except ε σ)

def run : σ → List ρ → Except ε σ
  | s, [] => .ok s
  | s, r :: requests =>
      match exec s r with
      | .error e => .error e
      | .ok s' => run s' requests

-- `P` holds of every request of a run, for as long as the run goes on.
def AllMet (P : σ → ρ → Prop) : σ → List ρ → Prop
  | _, [] => True
  | s, r :: requests => P s r ∧ ∀ s', exec s r = .ok s' → AllMet P s' requests

variable {exec}

instance AllMet.decidable {P : σ → ρ → Prop} [∀ s r, Decidable (P s r)] :
    (s : σ) → (requests : List ρ) → Decidable (AllMet exec P s requests)
  | _, [] => isTrue trivial
  | s, r :: requests =>
      match h : exec s r with
      | .error e => decidable_of_iff (P s r)
          ⟨fun hp => ⟨hp, fun s' hs' => by rw [h] at hs'; cases hs'⟩, fun hp => hp.1⟩
      | .ok s' =>
          have := AllMet.decidable (P := P) s' requests
          decidable_of_iff (P s r ∧ AllMet exec P s' requests)
            ⟨fun hp => ⟨hp.1, fun mid hmid => by rw [h] at hmid; cases hmid; exact hp.2⟩,
              fun hp => ⟨hp.1, hp.2 s' h⟩⟩

theorem run_cons {s s' : σ} {r : ρ} (h : exec s r = .ok s') (requests : List ρ) :
    run exec s (r :: requests) = run exec s' requests := by
  rw [run, h]

theorem run_append {s mid : σ} {first : List ρ} (h : run exec s first = .ok mid) (second : List ρ) :
    run exec s (first ++ second) = run exec mid second := by
  induction first generalizing s with
  | nil =>
      cases h
      rfl
  | cons r first ih =>
      cases he : exec s r with
      | error e =>
          rw [run, he] at h
          cases h
      | ok s' =>
          rw [run_cons he] at h
          exact (run_cons he _).trans (ih h)

theorem AllMet.left {P : σ → ρ → Prop} {s : σ} {first second : List ρ}
    (h : AllMet exec P s (first ++ second)) : AllMet exec P s first := by
  induction first generalizing s with
  | nil => trivial
  | cons r first ih => exact ⟨h.1, fun mid hmid => ih (h.2 mid hmid)⟩

theorem AllMet.right {P : σ → ρ → Prop} {s s' : σ} {first second : List ρ}
    (h : AllMet exec P s (first ++ second)) (hrun : run exec s first = .ok s') :
    AllMet exec P s' second := by
  induction first generalizing s with
  | nil =>
      cases hrun
      exact h
  | cons r first ih =>
      cases he : exec s r with
      | error e =>
          rw [run, he] at hrun
          cases hrun
      | ok mid =>
          rw [run_cons he] at hrun
          exact ih (h.2 mid he) hrun

-- Conditions that agree wherever an invariant holds agree along every run that keeps it.
theorem allMet_congr {P Q R : σ → ρ → Prop} (Inv : σ → Prop)
    (hstep : ∀ s r s', Inv s → R s r → exec s r = .ok s' → Inv s')
    (h : ∀ s r, Inv s → R s r → (P s r ↔ Q s r)) {requests : List ρ} {s : σ} (hs : Inv s)
    (hmet : AllMet exec R s requests) : AllMet exec P s requests ↔ AllMet exec Q s requests := by
  induction requests generalizing s with
  | nil => exact Iff.rfl
  | cons r requests ih =>
      refine and_congr (h s r hs hmet.1) (forall_congr' fun mid => imp_congr_right fun hmid => ?_)
      exact ih (hstep s r mid hs hmet.1 hmid) (hmet.2 mid hmid)

-- What every request keeps where its condition is met holds at the end of a run.
theorem run_invariant {P : σ → ρ → Prop} (Inv : σ → Prop)
    (hstep : ∀ s r s', Inv s → P s r → exec s r = .ok s' → Inv s') {requests : List ρ} {s s' : σ}
    (hs : Inv s) (hmet : AllMet exec P s requests) (hrun : run exec s requests = .ok s') : Inv s' := by
  induction requests generalizing s with
  | nil =>
      cases hrun
      exact hs
  | cons r requests ih =>
      cases he : exec s r with
      | error e =>
          rw [run, he] at hrun
          cases hrun
      | ok mid =>
          rw [run_cons he] at hrun
          exact ih (hstep s r mid hs hmet.1 he) (hmet.2 mid he) hrun

-- The same for what the first request brings about.
theorem run_invariant_of_first {P : σ → ρ → Prop} (Inv : σ → Prop) {requests : List ρ} {s s' : σ}
    (hfirst : ∀ r s₁, P s r → exec s r = .ok s₁ → Inv s₁)
    (hstep : ∀ s r s', Inv s → P s r → exec s r = .ok s' → Inv s') (hmet : AllMet exec P s requests)
    (hrun : run exec s requests = .ok s') (hne : requests ≠ []) : Inv s' := by
  cases requests with
  | nil => exact absurd rfl hne
  | cons r requests =>
      cases he : exec s r with
      | error e =>
          rw [run, he] at hrun
          cases hrun
      | ok mid =>
          rw [run_cons he] at hrun
          exact run_invariant Inv hstep (hfirst r mid hmet.1 he) (hmet.2 mid he) hrun

-- The same for what every request keeps that comes to its end.
theorem run_keeps (Inv : σ → Prop) (hstep : ∀ s r s', Inv s → exec s r = .ok s' → Inv s')
    {requests : List ρ} {s s' : σ} (hs : Inv s) (hrun : run exec s requests = .ok s') : Inv s' := by
  have hmet : AllMet exec (fun _ _ => True) s requests := by
    clear hrun hs
    induction requests generalizing s with
    | nil => trivial
    | cons r requests ih => exact ⟨trivial, fun mid _ => ih⟩
  exact run_invariant Inv (fun s r s' h _ he => hstep s r s' h he) hs hmet hrun

end Partial

end Library
