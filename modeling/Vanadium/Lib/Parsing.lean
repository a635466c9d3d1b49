import Vanadium.Lib.Exec

/-!
# Computations that read from the front of a list

A parser takes its input from the front of a list, and what it takes is one of
the texts of the value that it returns. That it accepts nothing else, accepts
all of them, and always comes to an end is said at once, for the inputs below
some length. A sequence of parsers reads the texts of its parts in a row.
-/

namespace Vanadium.Lib

variable {ε α β γ : Type}

/-- On inputs shorter than `n`, the values that `c` returns are those whose texts, as given
by `G`, the input starts with, and the text is what is taken from it. -/
structure Parses (c : Exec ε (List γ) α) (G : α → List γ → Prop) (n : ℕ) : Prop where
  ok : ∀ {s : List γ}, s.length < n → ∀ {a : α} {r : List γ},
    c s = .ok a r ↔ ∃ t, G a t ∧ s = t ++ r
  ends : ∀ {s : List γ}, s.length < n → ∀ (w : Stop) (r : List γ), c s ≠ .stop w r

namespace Parses

variable {c : Exec ε (List γ) α} {G G' : α → List γ → Prop} {m n : ℕ}

theorem mono (h : Parses c G n) (hm : m ≤ n) : Parses c G m :=
  ⟨fun hs => h.ok (hs.trans_le hm), fun hs => h.ends (hs.trans_le hm)⟩

theorem congr (h : Parses c G n) (hG : ∀ a t, t.length < n → (G a t ↔ G' a t)) :
    Parses c G' n where
  ok {s} hs a r := by
    rw [h.ok hs]
    refine exists_congr fun t => and_congr_left fun ht => hG a t ?_
    rw [ht, List.length_append] at hs
    omega
  ends hs := h.ends hs

theorem pure (a : α) : Parses (Pure.pure a : Exec ε (List γ) α) (fun x t => x = a ∧ t = []) n where
  ok {s} _ x r := by
    rw [Exec.pure_apply]
    constructor
    · intro h
      cases h
      exact ⟨[], ⟨rfl, rfl⟩, rfl⟩
    · intro ⟨t, ⟨hx, ht⟩, hs⟩
      rw [hx, hs, ht]
      rfl
  ends _ w r := by simp

theorem throw (e : ε) : Parses (Exec.throw e : Exec ε (List γ) α) (fun _ _ => False) n where
  ok _ x r := by simp
  ends _ w r := by simp

/-- The parts of a text, one after the other. What comes second has the rest of the input. -/
theorem bind_rest {f : α → Exec ε (List γ) β} {H : α → β → List γ → Prop} (h : Parses c G n)
    (hf : ∀ a t, G a t → Parses (f a) (H a) (n - t.length)) :
    Parses (c >>= f) (fun b t => ∃ a t₁ t₂, G a t₁ ∧ H a b t₂ ∧ t = t₁ ++ t₂) n where
  ok {s} hs b r := by
    rw [Exec.bind_ok]
    constructor
    · intro ⟨a, s₁, hc, hfa⟩
      obtain ⟨t₁, ht₁, rfl⟩ := (h.ok hs).mp hc
      rw [List.length_append] at hs
      obtain ⟨t₂, ht₂, rfl⟩ := ((hf a t₁ ht₁).ok (by omega)).mp hfa
      exact ⟨t₁ ++ t₂, ⟨a, t₁, t₂, ht₁, ht₂, rfl⟩, (List.append_assoc ..).symm⟩
    · intro ⟨t, ⟨a, t₁, t₂, ht₁, ht₂, ht⟩, hst⟩
      rw [ht, List.append_assoc] at hst
      refine ⟨a, t₂ ++ r, (h.ok hs).mpr ⟨t₁, ht₁, hst⟩, ?_⟩
      rw [hst, List.length_append] at hs
      exact ((hf a t₁ ht₁).ok (by omega)).mpr ⟨t₂, ht₂, rfl⟩
  ends {s} hs w r hrun := by
    cases hc : c s with
    | ok a s₁ =>
        rw [Exec.bind_apply_ok hc] at hrun
        obtain ⟨t₁, ht₁, rfl⟩ := (h.ok hs).mp hc
        rw [List.length_append] at hs
        exact (hf a t₁ ht₁).ends (by omega) w r hrun
    | err e s₁ =>
        rw [Exec.bind_apply_err hc] at hrun
        cases hrun
    | stop w' s₁ => exact h.ends hs w' s₁ hc

theorem bind {f : α → Exec ε (List γ) β} {H : α → β → List γ → Prop} (h : Parses c G n)
    (hf : ∀ a t, G a t → Parses (f a) (H a) n) :
    Parses (c >>= f) (fun b t => ∃ a t₁ t₂, G a t₁ ∧ H a b t₂ ∧ t = t₁ ++ t₂) n :=
  h.bind_rest fun a t ht => (hf a t ht).mono (Nat.sub_le n t.length)

/-- Computations that take nothing from the input. -/
theorem bind_empty {P : α → Prop} {f : α → Exec ε (List γ) β} {Q : α → β → Prop}
    (h : Parses c (fun a t => P a ∧ t = []) n)
    (hf : ∀ a, Parses (f a) (fun b t => Q a b ∧ t = []) n) :
    Parses (c >>= f) (fun b t => (∃ a, P a ∧ Q a b) ∧ t = []) n := by
  refine (h.bind fun a _ _ => hf a).congr fun b t _ => ?_
  constructor
  · intro ⟨a, t₁, t₂, ⟨ha, h₁⟩, ⟨hb, h₂⟩, ht⟩
    subst h₁ h₂
    exact ⟨⟨a, ha, hb⟩, ht⟩
  · intro ⟨⟨a, ha, hb⟩, ht⟩
    exact ⟨a, [], [], ⟨ha, rfl⟩, ⟨hb, rfl⟩, ht⟩

/-- What is required takes nothing from the input. -/
theorem reject_bind {p : Prop} [Decidable p] {e : ε} {f : Unit → Exec ε (List γ) β}
    {H : β → List γ → Prop} (hf : ¬ p → Parses (f ()) H n) :
    Parses (Exec.reject p e >>= f) (fun b t => ¬ p ∧ H b t) n := by
  by_cases hp : p
  · refine ⟨fun hs b r => ?_, fun hs w r => ?_⟩
    · rw [Exec.reject_bind_pos hp]
      simp [hp]
    · rw [Exec.reject_bind_pos hp]
      simp
  · refine ⟨fun hs b r => ?_, fun hs w r => ?_⟩
    · rw [Exec.reject_bind_neg hp, (hf hp).ok hs]
      simp [hp]
    · rw [Exec.reject_bind_neg hp]
      exact (hf hp).ends hs w r

theorem reject {p : Prop} [Decidable p] {e : ε} :
    Parses (Exec.reject p e : Exec ε (List γ) Unit) (fun _ t => ¬ p ∧ t = []) n := by
  refine ⟨fun _ x r => ?_, fun _ w r => ?_⟩ <;> unfold Exec.reject <;> split
  · next hp => simp [hp]
  · next hp => simp [hp, eq_comm]
  · simp
  · simp

theorem assert_bind {p : Prop} [Decidable p] {f : Unit → Exec ε (List γ) β}
    {H : β → List γ → Prop} (hp : p) (hf : Parses (f ()) H n) :
    Parses (Exec.assert p >>= f) H n where
  ok hs b r := by
    rw [Exec.assert_bind_pos hp]
    exact hf.ok hs
  ends hs w r := by
    rw [Exec.assert_bind_pos hp]
    exact hf.ends hs w r

theorem orElse_bind {o : Option α} {e : ε} {f : α → Exec ε (List γ) β}
    {H : α → β → List γ → Prop} (hf : ∀ a, o = some a → Parses (f a) (H a) n) :
    Parses (Exec.orElse o e >>= f) (fun b t => ∃ a, o = some a ∧ H a b t) n := by
  cases o with
  | none =>
      refine ⟨fun hs b r => ?_, fun hs w r => ?_⟩
      · rw [Exec.orElse_bind_none rfl]
        simp
      · rw [Exec.orElse_bind_none rfl]
        simp
  | some a =>
      refine ⟨fun hs b r => ?_, fun hs w r => ?_⟩
      · rw [Exec.orElse_bind_some rfl, (hf a rfl).ok hs]
        simp
      · rw [Exec.orElse_bind_some rfl]
        exact (hf a rfl).ends hs w r

theorem orElse {o : Option α} {e : ε} :
    Parses (Exec.orElse o e : Exec ε (List γ) α) (fun a t => o = some a ∧ t = []) n := by
  cases o with
  | none => exact ⟨fun _ a r => by simp [Exec.orElse], fun _ w r => by simp [Exec.orElse]⟩
  | some x =>
      exact ⟨fun _ a r => by simp [Exec.orElse], fun _ w r => by simp [Exec.orElse]⟩

theorem unwrap_bind {o : Option α} {f : α → Exec ε (List γ) β} {H : β → List γ → Prop} {a : α}
    (ho : o = some a) (hf : Parses (f a) H n) : Parses (Exec.unwrap o >>= f) H n where
  ok hs b r := by
    rw [Exec.unwrap_bind_some ho]
    exact hf.ok hs
  ends hs w r := by
    rw [Exec.unwrap_bind_some ho]
    exact hf.ends hs w r

/-- A check that there is enough input, where nothing could be read of less. -/
theorem at_least {k : ℕ} {e : ε} (h : Parses c G n) (hk : ∀ a t, G a t → k ≤ t.length) :
    Parses (do
      let s ← Exec.get
      Exec.reject (s.length < k) e
      c) G n where
  ok {s} hs a r := by
    rw [Exec.bind_apply_ok (Exec.get_apply s), Exec.reject_bind_ok, h.ok hs]
    refine ⟨fun h => h.2, fun ⟨t, ht, hst⟩ => ⟨?_, t, ht, hst⟩⟩
    have hlen := hk a t ht
    rw [hst, List.length_append]
    omega
  ends {s} hs w r hrun := by
    rw [Exec.bind_apply_ok (Exec.get_apply s)] at hrun
    by_cases hlen : s.length < k
    · rw [Exec.reject_bind_pos hlen] at hrun
      cases hrun
    · rw [Exec.reject_bind_neg hlen] at hrun
      exact h.ends hs w r hrun

end Parses

end Vanadium.Lib
