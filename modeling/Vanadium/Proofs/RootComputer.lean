import Vanadium.Proofs.Accumulator

/-!
# The root computed from left to right

The stack of a `MerkleAccumulatorRootComputer` is the `frontier` of the tree
over the leaves fed so far: feeding a leaf adds it, and the carry of the leaf
counter is the number of pairs that can be combined.
-/

namespace Vanadium

open Lib

variable {N : ℕ} (H : Bytes → HashOutput N)

theorem trailing_zeros_odd {x : ℕ} (h : x % 2 = 1) : trailing_zeros x = 0 := by
  rw [trailing_zeros, if_neg (by omega), if_pos h]

theorem trailing_zeros_even {x : ℕ} (h : x % 2 = 0) (hx : x ≠ 0) :
    trailing_zeros x = trailing_zeros (x / 2) + 1 := by
  rw [trailing_zeros, if_neg hx, if_neg (by omega)]

namespace MerkleAccumulatorRootComputer

theorem combine_pair (d : ℕ) (l : List (HashOutput N)) (left right : HashOutput N) :
    combine H (d + 1) (l ++ [left, right]).toArray =
      combine H d (l ++ [hash_internal_node H left right]).toArray := by
  simp [combine]

/-- Combining goes up one level for every trailing zero of the new count. -/
theorem combine_frontier (leaf : ℕ → HashOutput N) (c : ℕ) : ∀ k,
    combine H (trailing_zeros (c + 1))
      (frontier (hash_internal_node H) leaf k c ++
        [subRoot (hash_internal_node H) leaf k c]).toArray =
      some (frontier (hash_internal_node H) leaf k (c + 1)).toArray := by
  induction c using Nat.strong_induction_on with
  | h c ih =>
      intro k
      rcases Nat.mod_two_eq_zero_or_one c with hc | hc
      · rw [trailing_zeros_odd (by omega), combine, frontier_odd leaf k c hc]
      · have hpred : c - 1 + 1 = c := by omega
        have hhalf : (c - 1) / 2 = c / 2 := by omega
        have hstack : frontier (hash_internal_node H) leaf k c =
            frontier (hash_internal_node H) leaf (k + 1) (c / 2) ++
              [subRoot (hash_internal_node H) leaf k (c - 1)] := by
          have h : frontier (hash_internal_node H) leaf k (c - 1 + 1) = _ :=
            frontier_odd leaf k (c - 1) (by omega)
          rwa [hpred, frontier_even leaf k (c - 1) (by omega), hhalf] at h
        have hnode : hash_internal_node H (subRoot (hash_internal_node H) leaf k (c - 1))
            (subRoot (hash_internal_node H) leaf k c) =
            subRoot (hash_internal_node H) leaf (k + 1) (c / 2) := by
          rw [subRoot, show 2 * (c / 2) = c - 1 by omega, hpred]
        rw [trailing_zeros_even (by omega) (by omega), hstack, List.append_assoc,
          List.singleton_append, combine_pair, hnode]
        rw [show (c + 1) / 2 = c / 2 + 1 by omega, ih (c / 2) (by omega) (k + 1),
          frontier_even leaf k (c + 1) (by omega), show (c + 1) / 2 = c / 2 + 1 by omega]

/-- The computer after the first `c` leaves. -/
def at_leaf (leaf : ℕ → HashOutput N) (n c : ℕ) : MerkleAccumulatorRootComputer N :=
  { n, cur_size := c, hashes := (frontier (hash_internal_node H) leaf 0 c).toArray }

theorem feed_at_leaf (leaf : ℕ → HashOutput N) {n c : ℕ} (hc : c < n) :
    (at_leaf H leaf n c).feed H (leaf c) = some (at_leaf H leaf n (c + 1)) := by
  have h := combine_frontier H leaf c 0
  unfold feed at_leaf
  simp only [List.push_toArray]
  rw [if_neg (by omega)]
  simp only [subRoot] at h
  rw [h]

theorem new_eq {d : ℕ} (leaf : ℕ → HashOutput N) :
    (new (2 ^ d) : Option (MerkleAccumulatorRootComputer N)) =
      some (at_leaf H leaf (2 ^ d) 0) := by
  have h := has_valid_leaf_count_two_pow d
  unfold has_valid_leaf_count at h
  rw [new, if_pos h, at_leaf, frontier_zero]

/-- Feed a list. -/
def feed_all (c : MerkleAccumulatorRootComputer N) (hashes : List (HashOutput N)) :
    Option (MerkleAccumulatorRootComputer N) := hashes.foldlM (feed H) c

theorem feed_all_at_leaf (leaf : ℕ → HashOutput N) {n : ℕ} (hashes : List (HashOutput N)) :
    ∀ c, c + hashes.length ≤ n → (∀ j (hj : j < hashes.length), hashes[j] = leaf (c + j)) →
      (at_leaf H leaf n c).feed_all H hashes =
        some (at_leaf H leaf n (c + hashes.length)) := by
  induction hashes with
  | nil => exact fun c _ _ => rfl
  | cons h hashes ih =>
      intro c hn hl
      rw [List.length_cons] at hn
      have hhead : h = leaf c := hl 0 (by simp)
      have := ih (c + 1) (by omega) fun j hj => by
        rw [Nat.add_assoc, Nat.add_comm 1 j]
        exact hl (j + 1) (by simpa using hj)
      rw [feed_all, List.foldlM_cons, hhead, feed_at_leaf H leaf (by omega),
        List.length_cons, ← Nat.add_assoc, Nat.add_right_comm, ← this]
      rfl

/-- Fed all the leaves, the computer has the root. -/
theorem root_at_leaf (leaf : ℕ → HashOutput N) (d : ℕ) :
    (at_leaf H leaf (2 ^ d) (2 ^ d)).root = some (rootOf H leaf d) := by
  unfold root at_leaf
  rw [if_neg (not_not.mpr rfl), frontier_two_pow, Nat.zero_add]
  rfl

end MerkleAccumulatorRootComputer

end Vanadium
