import Vanadium.Lib.Exec

/-!
# Dialogues

Two programs that talk to each other are two computations, each with a line of
its own: the answers that are still to come, and what has been said. `Talks`
says that a computation, given its part of the answers of a dialogue, says its
own part, and returns; whatever else is on the line stays there. So what two
programs do one after the other is the concatenation of what they do, and a
program is run against another one by showing that both talk the same dialogue.
-/

namespace Vanadium.Lib

/-- A state with a line: `put` sets the answers still to come and what has been
said, latest first. -/
class Line (σ : Type) (Q A : outParam Type) where
  put : List A → List Q → σ → σ

namespace Exec

open Line (put)

variable {ε σ Q A α β : Type} [Line σ Q A]

/-- From `s`, saying and hearing `d`, the computation returns `a` in `s'`. -/
def Talks (m : Exec ε σ α) (s : σ) (d : List (Q × A)) (a : α) (s' : σ) : Prop :=
  ∀ answers said, m (put (d.map Prod.snd ++ answers) said s) =
    .ok a (put answers ((d.map Prod.fst).reverse ++ said) s')

namespace Talks

variable {m : Exec ε σ α} {s t s' : σ} {d d₁ d₂ : List (Q × A)} {a : α} {b : β}

/-- A computation that first goes from `s` to `t`, and then on as `m'`. -/
theorem congr {m' : Exec ε σ α} (h : Talks m' t d a s')
    (hm : ∀ answers said, m (put answers said s) = m' (put answers said t)) :
    Talks m s d a s' :=
  fun answers said => (hm _ _).trans (h answers said)

theorem bind {f : α → Exec ε σ β} (hm : Talks m s d₁ a t) (hf : Talks (f a) t d₂ b s') :
    Talks (m >>= f) s (d₁ ++ d₂) b s' := by
  intro answers said
  have hm := hm (d₂.map Prod.snd ++ answers) said
  rw [← List.append_assoc, ← List.map_append] at hm
  rw [bind_apply_ok hm, hf answers, List.map_append, List.reverse_append, List.append_assoc]

/-- The first computation says nothing. -/
theorem quiet_bind {f : α → Exec ε σ β} (hm : Talks m s [] a t)
    (hf : Talks (f a) t d b s') : Talks (m >>= f) s d b s' :=
  hm.bind hf

/-- The last computation says nothing. -/
theorem bind_quiet {f : α → Exec ε σ β} (hm : Talks m s d a t)
    (hf : Talks (f a) t [] b s') : Talks (m >>= f) s d b s' := by
  have h := hm.bind hf
  rwa [List.append_nil] at h

theorem pure (a : α) : Talks (Pure.pure a : Exec ε σ α) s [] a s := fun _ _ => rfl

/-- What comes after a look at the state may depend on what is on the line. -/
theorem get_bind {g : σ → Exec ε σ β}
    (h : ∀ answers said, Talks (g (put (d.map Prod.snd ++ answers) said s)) s d b s') :
    Talks (Exec.get >>= g) s d b s' :=
  fun answers said => h answers said answers said

theorem modify {f : σ → σ} (h : ∀ answers said, f (put answers said s) = put answers said s') :
    Talks (Exec.modify f : Exec ε σ Unit) s [] () s' := fun answers said => by
  show Outcome.ok () (f _) = _
  rw [h]
  rfl

theorem reject_bind {c : Prop} [Decidable c] {e : ε} {g : Unit → Exec ε σ β} (hc : ¬ c)
    (h : Talks (g ()) s d b s') : Talks (Exec.reject c e >>= g) s d b s' :=
  h.congr fun _ _ => reject_bind_neg hc

theorem assert_bind {c : Prop} [Decidable c] {g : Unit → Exec ε σ β} (hc : c)
    (h : Talks (g ()) s d b s') : Talks (Exec.assert c >>= g) s d b s' :=
  h.congr fun _ _ => assert_bind_pos hc

theorem unwrap_bind {o : Option α} {f : α → Exec ε σ β} (ho : o = some a)
    (h : Talks (f a) s d b s') : Talks (Exec.unwrap o >>= f) s d b s' :=
  h.congr fun _ _ => unwrap_bind_some ho

theorem orElse_bind {o : Option α} {e : ε} {f : α → Exec ε σ β} (ho : o = some a)
    (h : Talks (f a) s d b s') : Talks (Exec.orElse o e >>= f) s d b s' :=
  h.congr fun _ _ => orElse_bind_some ho

theorem ofExcept_bind {ε' : Type} {g : ε' → ε} {r : Except ε' α} {f : α → Exec ε σ β}
    (hr : r = .ok a) (h : Talks (f a) s d b s') : Talks (Exec.ofExcept g r >>= f) s d b s' :=
  h.congr fun _ _ => ofExcept_bind_eq_ok hr

end Talks

/-- From `s`, having said and heard `d`, the computation panics. -/
def Halts (m : Exec ε σ α) (s : σ) (d : List (Q × A)) : Prop :=
  ∀ answers said, ∃ s', m (put (d.map Prod.snd ++ answers) said s) =
    .stop .panic (put answers ((d.map Prod.fst).reverse ++ said) s')

theorem Halts.bind {m : Exec ε σ α} {f : α → Exec ε σ β} {s : σ} {d : List (Q × A)}
    (h : Halts m s d) : Halts (m >>= f) s d := by
  intro answers said
  obtain ⟨s', hs'⟩ := h answers said
  exact ⟨s', bind_apply_stop hs'⟩

theorem Talks.bind_halts {m : Exec ε σ α} {f : α → Exec ε σ β} {s t : σ}
    {d₁ d₂ : List (Q × A)} {a : α} (hm : Talks m s d₁ a t) (hf : Halts (f a) t d₂) :
    Halts (m >>= f) s (d₁ ++ d₂) := by
  intro answers said
  obtain ⟨s', hs'⟩ := hf answers ((d₁.map Prod.fst).reverse ++ said)
  refine ⟨s', ?_⟩
  rw [List.map_append, List.append_assoc, bind_apply_ok (hm _ _), hs', List.map_append,
    List.reverse_append, List.append_assoc]

end Exec

end Vanadium.Lib
