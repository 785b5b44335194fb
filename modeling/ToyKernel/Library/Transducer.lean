import Mathlib.Tactic.TypeStar

namespace Library

-- A reader of symbols in a control state, with at most one event for each symbol
structure Transducer (σ α β : Type*) where
  next : σ → α → σ
  emit : σ → α → Option β

namespace Transducer

variable {σ α β γ τ : Type*} (m : Transducer σ α β)

def final (s : σ) (input : List α) : σ := input.foldl m.next s

def events : σ → List α → List β
  | _, [] => []
  | s, a :: input => (m.emit s a).toList ++ events (m.next s a) input

theorem events_append (s : σ) (input more : List α) :
    m.events s (input ++ more) = m.events s input ++ m.events (m.final s input) more := by
  induction input generalizing s with
  | nil => rfl
  | cons a input ih =>
      rw [List.cons_append, events, events, ih, List.append_assoc]
      rfl

-- Acting on the event of a symbol, if it has one
def react (act : τ → β → Option τ) (t : τ) : Option β → Option τ
  | none => some t
  | some b => act t b

variable {m} {step : γ → α → Option γ} {act : τ → β → Option τ} {load : σ → τ → γ}

-- A machine whose states are a control state and a store, and that acts on the store as the
-- event of each symbol says, acts on it as the events of the whole input say.
theorem foldlM_load
    (hstep : ∀ s t a, step (load s t) a = (react act t (m.emit s a)).map (load (m.next s a)))
    (s : σ) (t : τ) (input : List α) :
    input.foldlM step (load s t) = ((m.events s input).foldlM act t).map (load (m.final s input)) := by
  induction input generalizing s t with
  | nil => rfl
  | cons a input ih =>
      rw [List.foldlM_cons, hstep, events, List.foldlM_append]
      have hact : (m.emit s a).toList.foldlM act t = react act t (m.emit s a) := by
        cases m.emit s a with
        | none => rfl
        | some b => simp [react]
      rw [hact]
      cases react act t (m.emit s a) with
      | none => rfl
      | some t' => exact ih (m.next s a) t'

end Transducer

end Library
