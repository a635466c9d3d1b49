import Mathlib.Data.List.Basic

/-!
# Writes that can be cut off

A memory keeps what is written to it when the power is lost. An operation on it is the
list of its writes; when it is cut off, the first ones have been made, and the one that
was under way may have left something else than it was to write. How a write can be torn
is a parameter.
-/

namespace Vanadium.Lib.PowerCut

variable {σ ω : Type} (write : ω → σ → σ) (Torn : ω → ω → Prop)

/-- All writes, one after the other. -/
def perform : List ω → σ → σ
  | [], s => s
  | w :: ws, s => perform ws (write w s)

/-- What is there when the power comes back. -/
inductive Leaves : List ω → σ → σ → Prop where
  | stop (ws : List ω) (s : σ) : Leaves ws s s
  | torn {w w' : ω} (ws : List ω) (s : σ) (h : Torn w w') : Leaves (w :: ws) s (write w' s)
  | step {w : ω} {ws : List ω} {s s' : σ} (h : Leaves ws (write w s) s') : Leaves (w :: ws) s s'

variable {write Torn}

theorem leaves_perform (ws : List ω) (s : σ) : Leaves write Torn ws s (perform write ws s) := by
  induction ws generalizing s with
  | nil => exact .stop [] s
  | cons w ws ih => exact .step (ih (write w s))

theorem perform_append (ws ws' : List ω) (s : σ) :
    perform write (ws ++ ws') s = perform write ws' (perform write ws s) := by
  induction ws generalizing s with
  | nil => rfl
  | cons w ws ih => exact ih (write w s)

theorem leaves_nil {s s' : σ} (h : Leaves write Torn [] s s') : s' = s := by
  cases h
  rfl

theorem leaves_cons {w : ω} {ws : List ω} {s s' : σ} (h : Leaves write Torn (w :: ws) s s') :
    s' = s ∨ (∃ w', Torn w w' ∧ s' = write w' s) ∨ Leaves write Torn ws (write w s) s' := by
  cases h with
  | stop => exact .inl rfl
  | torn _ _ h => exact .inr (.inl ⟨_, h, rfl⟩)
  | step h => exact .inr (.inr h)

/-- The first list of writes was cut off, or it was made and the second one was cut off. -/
theorem leaves_append {ws ws' : List ω} {s s' : σ} (h : Leaves write Torn (ws ++ ws') s s') :
    Leaves write Torn ws s s' ∨ Leaves write Torn ws' (perform write ws s) s' := by
  induction ws generalizing s with
  | nil => exact .inr h
  | cons w ws ih =>
      rcases leaves_cons h with rfl | ⟨w', htorn, rfl⟩ | h
      · exact .inl (.stop _ _)
      · exact .inl (.torn _ _ htorn)
      · rcases ih h with h | h
        · exact .inl (.step h)
        · exact .inr h

end Vanadium.Lib.PowerCut
