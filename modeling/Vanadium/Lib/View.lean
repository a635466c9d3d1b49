import Vanadium.Lib.Exec

/-!
# Computations with more in their state

A computation may carry along what another one does not know of: a count of its
steps, a record of what it asked for. `Shows view m n` says that whoever looks at
the state through `view` sees `m` do what `n` does.
-/

namespace Vanadium.Lib

variable {ε σ τ α β γ : Type}

/-- An outcome as it looks through `f`. -/
def Outcome.view (f : σ → τ) : Outcome ε σ α → Outcome ε τ α
  | .ok a s => .ok a (f s)
  | .err e s => .err e (f s)
  | .stop w s => .stop w (f s)

theorem Outcome.view_stop {f : σ → τ} {o : Outcome ε σ α} {w : Stop} {t : τ} :
    o.view f = .stop w t ↔ ∃ s, o = .stop w s ∧ f s = t := by
  cases o <;> simp [Outcome.view]

namespace Exec

def Shows (view : σ → τ) (m : Exec ε σ α) (n : Exec ε τ α) : Prop :=
  ∀ s, (m s).view view = n (view s)

variable {view : σ → τ}

theorem Shows.pure (a : α) : Shows view (Pure.pure a : Exec ε σ α) (Pure.pure a) := fun _ => rfl

theorem Shows.throw (e : ε) : Shows view (throw e : Exec ε σ α) (throw e) := fun _ => rfl

theorem Shows.bind {m : Exec ε σ α} {n : Exec ε τ α} {f : α → Exec ε σ β} {g : α → Exec ε τ β}
    (h : Shows view m n) (hf : ∀ a, Shows view (f a) (g a)) :
    Shows view (m >>= f) (n >>= g) := by
  intro s
  have hs := h s
  cases hm : m s with
  | ok a t =>
      rw [hm] at hs
      rw [bind_apply_ok hm, bind_apply_ok hs.symm, hf a t]
  | err e t =>
      rw [hm] at hs
      rw [bind_apply_err hm, bind_apply_err hs.symm]
      rfl
  | stop w t =>
      rw [hm] at hs
      rw [bind_apply_stop hm, bind_apply_stop hs.symm]
      rfl

/-- A sequence within a sequence. -/
theorem Shows.bind_bind {m : Exec ε σ α} {f : α → Exec ε σ β} {g : β → Exec ε σ γ}
    {n : Exec ε τ γ} (h : Shows view (m >>= fun a => f a >>= g) n) :
    Shows view ((m >>= f) >>= g) n := by
  intro s
  rw [Exec.bind_bind]
  exact h s

/-- Something the other computation does not do, and does not see. -/
theorem Shows.unseen {m : Exec ε σ Unit} {f : Unit → Exec ε σ α} {n : Exec ε τ α}
    (hm : ∀ s, ∃ s', m s = .ok () s' ∧ view s' = view s) (hf : Shows view (f ()) n) :
    Shows view (m >>= f) n := by
  intro s
  obtain ⟨s', hrun, hview⟩ := hm s
  rw [bind_apply_ok hrun, hf s', hview]

theorem Shows.orElse (o : Option α) (e : ε) :
    Shows view (orElse o e : Exec ε σ α) (orElse o e) := by
  cases o with
  | none => exact .throw e
  | some a => exact .pure a

end Exec

end Vanadium.Lib
