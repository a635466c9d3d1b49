import Mathlib

/-!
# Chunks

A list cut into pieces of `k` elements, the last of them possibly shorter. Laid
end to end they are the list again, and none of them is empty.
-/

namespace Vanadium.Lib

variable {α : Type}

def chunks (k : ℕ) (l : List α) : List (List α) :=
  if l = [] ∨ k = 0 then [] else l.take k :: chunks k (l.drop k)
termination_by l.length
decreasing_by
  rename_i h
  rw [not_or] at h
  have := List.length_pos_of_ne_nil h.1
  rw [List.length_drop]
  omega

@[simp] theorem chunks_nil (k : ℕ) : chunks k ([] : List α) = [] := by
  rw [chunks, if_pos (.inl rfl)]

variable {k : ℕ} {l : List α}

theorem chunks_of_ne_nil (hk : 0 < k) (hl : l ≠ []) :
    chunks k l = l.take k :: chunks k (l.drop k) := by
  rw [chunks, if_neg (by rw [not_or]; exact ⟨hl, by omega⟩)]

/-- Chunks are made and proved about one by one, from the first on. -/
theorem chunks_induct {P : List α → Prop} (hk : 0 < k) (nil : P [])
    (cons : ∀ l, l ≠ [] → P (l.drop k) → P l) : ∀ l, P l := by
  intro l
  induction hn : l.length using Nat.strongRecOn generalizing l with
  | _ n ih =>
      by_cases hl : l = []
      · rw [hl]
        exact nil
      · have := List.length_pos_of_ne_nil hl
        refine cons l hl (ih _ ?_ _ rfl)
        rw [List.length_drop]
        omega

theorem flatten_chunks (hk : 0 < k) : ∀ l : List α, (chunks k l).flatten = l :=
  chunks_induct hk (by rw [chunks_nil, List.flatten_nil]) fun l hl ih => by
    rw [chunks_of_ne_nil hk hl, List.flatten_cons, ih, List.take_append_drop]

theorem mem_chunks (hk : 0 < k) : ∀ l : List α, ∀ c ∈ chunks k l, c ≠ [] ∧ c.length ≤ k :=
  chunks_induct hk (fun c hc => by rw [chunks_nil] at hc; cases hc) fun l hl ih c hc => by
    rw [chunks_of_ne_nil hk hl] at hc
    rcases List.mem_cons.mp hc with rfl | hc
    · have := List.length_pos_of_ne_nil hl
      refine ⟨List.ne_nil_of_length_pos ?_, List.length_take_le k l⟩
      rw [List.length_take]
      omega
    · exact ih c hc

end Vanadium.Lib
