import Vanadium.Lib.Exec

/-!
# Computations that wait for nothing

A call that stops has either panicked or waits for an answer. What asks nobody
anything does not wait.
-/

namespace Vanadium.Lib.Exec

variable {ε ε' σ α β : Type}

def Prompt (m : Exec ε σ α) : Prop := ∀ s s', m s ≠ .stop .hang s'

theorem Prompt.pure (a : α) : Prompt (Pure.pure a : Exec ε σ α) := fun _ _ h => by cases h

theorem Prompt.throw (e : ε) : Prompt (throw e : Exec ε σ α) := fun _ _ h => by cases h

theorem Prompt.panic : Prompt (panic : Exec ε σ α) := fun _ _ h => by cases h

theorem Prompt.get : Prompt (get : Exec ε σ σ) := fun _ _ h => by cases h

theorem Prompt.set (s : σ) : Prompt (set s : Exec ε σ Unit) := fun _ _ h => by cases h

theorem Prompt.modify (f : σ → σ) : Prompt (modify f : Exec ε σ Unit) :=
  fun _ _ h => by cases h

theorem Prompt.bind {m : Exec ε σ α} {f : α → Exec ε σ β} (hm : Prompt m)
    (hf : ∀ a, Prompt (f a)) : Prompt (m >>= f) := by
  intro s s' h
  cases hrun : m s with
  | ok a t =>
      rw [bind_apply_ok hrun] at h
      exact hf a t s' h
  | err e t =>
      rw [bind_apply_err hrun] at h
      cases h
  | stop w t =>
      rw [bind_apply_stop hrun] at h
      cases h
      exact hm s s' hrun

theorem Prompt.ite {c : Prop} [Decidable c] {m n : Exec ε σ α} (hm : Prompt m)
    (hn : Prompt n) : Prompt (if c then m else n) := by
  split
  · exact hm
  · exact hn

theorem Prompt.reject (c : Prop) [Decidable c] (e : ε) :
    Prompt (reject c e : Exec ε σ Unit) :=
  .ite (.throw e) (.pure ())

theorem Prompt.orElse (o : Option α) (e : ε) : Prompt (orElse o e : Exec ε σ α) := by
  cases o with
  | none => exact .throw e
  | some a => exact .pure a

theorem Prompt.unwrap (o : Option α) : Prompt (unwrap o : Exec ε σ α) := by
  cases o with
  | none => exact .panic
  | some a => exact .pure a

theorem Prompt.attempt {m : Exec ε σ α} (hm : Prompt m) :
    Prompt (attempt m : Exec ε' σ (Except ε α)) := by
  intro s s' h
  unfold Exec.attempt at h
  split at h
  · cases h
  · cases h
  · next hrun =>
      cases h
      exact hm s s' hrun

end Vanadium.Lib.Exec
