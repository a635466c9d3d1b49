/-!
# Iterators that take turns

The loop of an iterator takes turns until there is an item to return. What the
turns of an iterator yield, one after the other, is what a loop over it sees.
-/

namespace Vanadium.Lib

variable {α β σ τ : Type}

/-- A turn ends everything, or it goes on, with an item or without. -/
abbrev Turn (α σ : Type) := σ → Option (Option α × σ)

/-- The items of at most so many turns, if that is enough. -/
def collect (turn : Turn α σ) : Nat → σ → Option (List α)
  | 0, _ => none
  | fuel + 1, s =>
      match turn s with
      | none => some []
      | some (none, s) => collect turn fuel s
      | some (some item, s) => (collect turn fuel s).map (item :: ·)

/-- The iterator ends, after these items. -/
inductive Yields (turn : Turn α σ) : σ → List α → Prop where
  | done {s : σ} (h : turn s = none) : Yields turn s []
  | skip {s s' : σ} {items : List α} (h : turn s = some (none, s')) (hs : Yields turn s' items) :
      Yields turn s items
  | item {s s' : σ} {i : α} {items : List α} (h : turn s = some (some i, s'))
      (hs : Yields turn s' items) : Yields turn s (i :: items)

namespace Yields

variable {turn : Turn α σ}

theorem collect {s : σ} {items : List α} (h : Yields turn s items) :
    ∃ n, ∀ fuel, n ≤ fuel → Lib.collect turn fuel s = some items := by
  induction h with
  | done h =>
      refine ⟨1, fun fuel hfuel => ?_⟩
      obtain ⟨fuel, rfl⟩ : ∃ k, fuel = k + 1 := ⟨fuel - 1, by omega⟩
      rw [Lib.collect, h]
  | skip h _ ih =>
      obtain ⟨n, hn⟩ := ih
      refine ⟨n + 1, fun fuel hfuel => ?_⟩
      obtain ⟨fuel, rfl⟩ : ∃ k, fuel = k + 1 := ⟨fuel - 1, by omega⟩
      rw [Lib.collect, h]
      exact hn fuel (by omega)
  | item h _ ih =>
      obtain ⟨n, hn⟩ := ih
      refine ⟨n + 1, fun fuel hfuel => ?_⟩
      obtain ⟨fuel, rfl⟩ : ∃ k, fuel = k + 1 := ⟨fuel - 1, by omega⟩
      rw [Lib.collect, h]
      exact congrArg (Option.map _) (hn fuel (by omega))

/-- An iterator that does the same, and shows less of its items. -/
theorem map {turn' : Turn β τ} {f : α → β} {g : σ → τ}
    (hturn : ∀ s, turn' (g s) = (turn s).map fun r => (r.1.map f, g r.2)) {s : σ}
    {items : List α} (h : Yields turn s items) : Yields turn' (g s) (items.map f) := by
  induction h with
  | done h => exact .done (by rw [hturn, h]; rfl)
  | skip h _ ih => exact .skip (by rw [hturn, h]; rfl) ih
  | item h _ ih => exact .item (by rw [hturn, h]; rfl) ih

end Yields

end Vanadium.Lib
