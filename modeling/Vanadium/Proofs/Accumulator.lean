import Vanadium.Common.Accumulator
import Vanadium.Lib.HashTree
import Mathlib

/-!
# The Merkle accumulator authenticates its vector

The heap array of `MerkleAccumulator` is the perfect hash tree of
`Lib/HashTree.lean` written down level by level: position `2 ^ m - 1 + i`
holds node `i` of the level `m` below the root. `IsTree` says so, `build_tree`
establishes it, `update` preserves it, and since it determines every cell of
the array, an updated tree is the tree one would build from scratch.

On the verifier's side the same arithmetic runs upwards. `feed` moves from
`2 ^ (m + 1) - 1 + i` to `2 ^ m - 1 + i / 2`, so feeding a list of the right
length is `climb`, and the length is forced: a short proof never gets to
position 0, where alone the flag can be set, and a long one is struck out by
its first surplus element.
-/

namespace Vanadium

open Lib

variable {N : Nat} (H : Bytes → HashOutput N)

/-! ## Messages -/

/-- What `hash_leaf` hashes. -/
def leafMessage {T : Type} [AsRef T] (x : T) : Bytes := 0x00 :: AsRef.as_ref x

/-- What `hash_internal_node` hashes. -/
def nodeMessage (l r : HashOutput N) : Bytes := 0x01 :: (l.toList ++ r.toList)

/-- No two of the messages in `S` have the same digest. -/
def CollisionFree (S : Set Bytes) : Prop := Set.InjOn H S

theorem hash_leaf_eq {T : Type} [AsRef T] (x : T) :
    hash_leaf H x = H (leafMessage x) := rfl

theorem hash_internal_node_eq (l r : HashOutput N) :
    hash_internal_node H l r = H (nodeMessage l r) := rfl

theorem nodeMessage_inj {l r l' r' : HashOutput N}
    (h : nodeMessage l r = nodeMessage l' r') : l = l' ∧ r = r' := by
  have hb : l.toList ++ r.toList = l'.toList ++ r'.toList := by
    simpa [nodeMessage] using h
  obtain ⟨h1, h2⟩ := List.append_inj hb (by simp)
  exact ⟨Vector.toList_inj.mp h1, Vector.toList_inj.mp h2⟩

variable {H} in
/-- Collision freedom over messages is collision freedom of the node function
over the pairs those messages encode. -/
theorem CollisionFree.noCollision {S : Set Bytes} (hS : CollisionFree H S)
    {P : Set (HashOutput N × HashOutput N)} (hP : ∀ p ∈ P, nodeMessage p.1 p.2 ∈ S) :
    NoCollision (hash_internal_node H) P := by
  rintro ⟨l, r⟩ hp ⟨l', r'⟩ hp' h
  obtain ⟨rfl, rfl⟩ := nodeMessage_inj (hS (hP _ hp) (hP _ hp') h)
  rfl

/-! ## Heap positions -/

/-- A position names one node of one level. -/
theorem pos_inj {m m' i i' : ℕ} (hi : i < 2 ^ m) (hi' : i' < 2 ^ m')
    (h : 2 ^ m - 1 + i = 2 ^ m' - 1 + i') : m = m' ∧ i = i' := by
  have h1 : 0 < 2 ^ m := Nat.two_pow_pos m
  have h2 : 0 < 2 ^ m' := Nat.two_pow_pos m'
  rcases Nat.lt_trichotomy m m' with hlt | rfl | hlt
  · have := Nat.pow_le_pow_right (n := 2) (by omega) hlt
    rw [pow_succ] at this
    omega
  · exact ⟨rfl, by omega⟩
  · have := Nat.pow_le_pow_right (n := 2) (by omega) hlt
    rw [pow_succ] at this
    omega

/-- Every position is of that form. -/
theorem pos_level (pos : ℕ) : ∃ m i, i < 2 ^ m ∧ pos = 2 ^ m - 1 + i := by
  have h1 : 2 ^ Nat.log 2 (pos + 1) ≤ pos + 1 := Nat.pow_log_le_self 2 (by omega)
  have h2 : pos + 1 < 2 ^ (Nat.log 2 (pos + 1) + 1) :=
    Nat.lt_pow_succ_log_self (by omega) _
  have h3 : 0 < 2 ^ Nat.log 2 (pos + 1) := Nat.two_pow_pos _
  rw [pow_succ] at h2
  exact ⟨Nat.log 2 (pos + 1), pos + 1 - 2 ^ Nat.log 2 (pos + 1), by omega, by omega⟩

theorem pos_parent (m i : ℕ) :
    (2 ^ (m + 1) - 1 + i - 1) / 2 = 2 ^ m - 1 + i / 2 := by
  have := Nat.two_pow_pos m
  rw [pow_succ]
  omega

theorem pos_even (m i : ℕ) : (2 ^ (m + 1) - 1 + i) % 2 = 0 ↔ ¬ i % 2 = 0 := by
  have := Nat.two_pow_pos m
  rw [pow_succ]
  omega

theorem pos_eq_zero {m i : ℕ} (hi : i < 2 ^ m) : 2 ^ m - 1 + i = 0 ↔ m = 0 := by
  have h1 := Nat.two_pow_pos m
  refine ⟨fun h => ?_, fun h => ?_⟩
  · by_contra hm
    have : 2 ^ 1 ≤ 2 ^ m := Nat.pow_le_pow_right (by omega) (by omega)
    omega
  · subst h; simp at hi ⊢; exact hi

theorem pos_left {m i : ℕ} : 2 * (2 ^ m - 1 + i) + 1 = 2 ^ (m + 1) - 1 + 2 * i := by
  have := Nat.two_pow_pos m
  rw [pow_succ]; omega

theorem pos_right {m i : ℕ} :
    2 * (2 ^ m - 1 + i) + 2 = 2 ^ (m + 1) - 1 + (2 * i + 1) := by
  have := Nat.two_pow_pos m
  rw [pow_succ]; omega

/-! ## The tree in the array -/

section
variable {T : Type} [AsRef T]

/-- The leaf digests of a vector. -/
def leafOf (data : List T) (i : ℕ) : HashOutput N :=
  (data.map (hash_leaf H)).getD i default

theorem leafOf_eq {data : List T} {i : ℕ} (hi : i < data.length) :
    leafOf H data i = hash_leaf H data[i] := by
  rw [leafOf, List.getD_eq_getElem _ _ (by simpa using hi), List.getElem_map]

theorem leafOf_set {data : List T} {i : ℕ} (hi : i < data.length) (v : T) :
    leafOf H (data.set i v) = Function.update (leafOf H data) i (hash_leaf H v) := by
  funext j
  rcases eq_or_ne j i with rfl | hne
  · rw [Function.update_self, leafOf_eq H (by simpa using hi), List.getElem_set_self]
  · rw [Function.update_of_ne hne]
    unfold leafOf
    rw [List.map_set, List.getD_eq_getElem?_getD, List.getD_eq_getElem?_getD,
      List.getElem?_set_ne (Ne.symm hne)]

end

/-- The digest of the `i`-th node `m` levels below the root. -/
abbrev nodeAt (leaf : ℕ → HashOutput N) (d m i : ℕ) : HashOutput N :=
  subRoot (hash_internal_node H) leaf (d - m) i

theorem nodeAt_children {leaf : ℕ → HashOutput N} {d m i : ℕ} (hm : m < d) :
    nodeAt H leaf d m i = hash_internal_node H (nodeAt H leaf d (m + 1) (2 * i))
      (nodeAt H leaf d (m + 1) (2 * i + 1)) := by
  unfold nodeAt
  rw [show d - m = d - (m + 1) + 1 by omega, subRoot]

/-- The array `tree` holds the tree of height `d` over `leaf`. -/
structure IsTree (leaf : ℕ → HashOutput N) (d : ℕ) (tree : Array (HashOutput N)) :
    Prop where
  size : tree.size = 2 ^ (d + 1) - 1
  node : ∀ m i, m ≤ d → i < 2 ^ m → tree[2 ^ m - 1 + i]! = nodeAt H leaf d m i

namespace IsTree

variable {H} {leaf : ℕ → HashOutput N} {d : ℕ} {tree tree' : Array (HashOutput N)}

/-- There is only one such array. -/
theorem unique (h : IsTree H leaf d tree) (h' : IsTree H leaf d tree') :
    tree = tree' := by
  refine Array.ext (h.size.trans h'.size.symm) fun pos h1 h2 => ?_
  obtain ⟨m, i, hi, rfl⟩ := pos_level pos
  have hm : m ≤ d := by
    have hlt : 2 ^ m - 1 < 2 ^ (d + 1) - 1 := by
      have := h.size; omega
    have hp := Nat.two_pow_pos m
    have := (Nat.pow_lt_pow_iff_right (a := 2) (by omega)).1
      (show 2 ^ m < 2 ^ (d + 1) by omega)
    omega
  have e := (h.node m i hm hi).trans (h'.node m i hm hi).symm
  rwa [getElem!_pos tree (2 ^ m - 1 + i) h1,
      getElem!_pos tree' (2 ^ m - 1 + i) h2] at e

theorem root (h : IsTree H leaf d tree) :
    tree[0]! = subRoot (hash_internal_node H) leaf d 0 := by
  simpa [nodeAt] using h.node 0 0 (by omega) (by omega)

end IsTree

theorem getElem!_set!_self {tree : Array (HashOutput N)} {p : ℕ} (hp : p < tree.size)
    (v : HashOutput N) : (tree.set! p v)[p]! = v := by
  rw [Array.set!_eq_setIfInBounds, getElem!_pos (tree.setIfInBounds p v) p (by simpa using hp),
    Array.getElem_setIfInBounds_self]

theorem getElem!_set!_ne {tree : Array (HashOutput N)} {p q : ℕ} (hpq : p ≠ q)
    (v : HashOutput N) : (tree.set! p v)[q]! = tree[q]! := by
  rw [Array.set!_eq_setIfInBounds]
  by_cases hq : q < tree.size
  · rw [getElem!_pos (tree.setIfInBounds p v) q (by simpa using hq),
      getElem!_pos tree q hq,
      Array.getElem_setIfInBounds_ne hq hpq]
  · rw [getElem!_neg (tree.setIfInBounds p v) q (by simpa using hq),
      getElem!_neg tree q hq]

/-- Building from the last internal node down to the root: once every position
from `j` on is right, the loop started at `j` finishes the tree. -/
theorem build_tree_loop {leaf : ℕ → HashOutput N} {d : ℕ} :
    ∀ {j : ℕ} {tree : Array (HashOutput N)}, j ≤ 2 ^ d - 1 →
      tree.size = 2 ^ (d + 1) - 1 →
      (∀ m i, m ≤ d → i < 2 ^ m → j ≤ 2 ^ m - 1 + i →
        tree[2 ^ m - 1 + i]! = nodeAt H leaf d m i) →
      IsTree H leaf d (MerkleAccumulator.build_tree.loop H tree j) := by
  intro j
  induction j with
  | zero => intro tree _ hs h; exact ⟨hs, fun m i hm hi => h m i hm hi (by omega)⟩
  | succ j ih =>
      intro tree hj hs h
      rw [MerkleAccumulator.build_tree.loop]
      have hjs : j < tree.size := by rw [hs, pow_succ]; omega
      refine ih (by omega) (by simpa using hs) fun m i hm hi hle => ?_
      rcases Nat.eq_or_lt_of_le hle with heq | hlt
      · have hmd : m < d := by
          rcases Nat.lt_or_ge m d with h1 | h1
          · exact h1
          · have := Nat.pow_le_pow_right (n := 2) (by omega) h1; omega
        have hi2 : 2 * i + 1 < 2 ^ (m + 1) := by rw [pow_succ]; omega
        subst heq
        rw [getElem!_set!_self hjs, nodeAt_children H hmd, pos_left, pos_right,
          h (m + 1) (2 * i) hmd (by omega) (by rw [← pos_left]; omega),
          h (m + 1) (2 * i + 1) hmd hi2 (by rw [← pos_right]; omega)]
      · rw [getElem!_set!_ne (by omega), h m i hm hi hlt]

section
variable {T : Type} [AsRef T]

theorem build_tree_isTree {data : List T} {d : ℕ} (hlen : data.length = 2 ^ d) :
    IsTree H (leafOf H data) d
      (MerkleAccumulator.build_tree H { data, tree := #[] }).tree := by
  have hp := Nat.two_pow_pos d
  refine build_tree_loop H (by simp [hlen])
    (by simp [hlen, pow_succ]; omega) fun m i hm hi hle => ?_
  -- a position from `n - 1` on is a leaf
  have hmd : m = d := by
    rcases Nat.lt_or_ge m d with h1 | h1
    · have h2 := Nat.pow_le_pow_right (n := 2) (by omega) h1
      rw [pow_succ] at h2
      simp only [hlen] at hle
      omega
    · omega
  subst hmd
  simp only [nodeAt, Nat.sub_self, subRoot, leafOf]
  rw [List.getElem!_toArray, List.getElem!_eq_getElem?_getD,
    List.getElem?_append_right (by simp [hlen]), List.getD_eq_getElem?_getD]
  simp [hlen]

/-- Recomputing the path from `pos` to the root: every node that is not a
strict ancestor of the current one is already right. -/
theorem update_loop (leaf : ℕ → HashOutput N) (d idx : ℕ) :
    ∀ (m : ℕ) (tree : Array (HashOutput N)), m ≤ d → idx < 2 ^ d →
      tree.size = 2 ^ (d + 1) - 1 →
      (∀ m' i, m' ≤ d → i < 2 ^ m' → m ≤ m' ∨ i ≠ idx / 2 ^ (d - m') →
        tree[2 ^ m' - 1 + i]! = nodeAt H leaf d m' i) →
      IsTree H leaf d
        (MerkleAccumulator.update.loop H tree (2 ^ m - 1 + idx / 2 ^ (d - m))) := by
  intro m
  induction m with
  | zero =>
      intro tree _ hidx hs h
      rw [MerkleAccumulator.update.loop, if_pos (by simp [Nat.div_eq_of_lt hidx])]
      exact ⟨hs, fun m' i hm hi => h m' i hm hi (Or.inl (by omega))⟩
  | succ m ih =>
      intro tree hm hidx hs h
      have hi : idx / 2 ^ (d - (m + 1)) < 2 ^ (m + 1) := by
        rw [Nat.div_lt_iff_lt_mul (Nat.two_pow_pos _), ← pow_add,
          show m + 1 + (d - (m + 1)) = d by omega]
        exact hidx
      have hup : idx / 2 ^ (d - (m + 1)) / 2 = idx / 2 ^ (d - m) := by
        rw [Nat.div_div_eq_div_mul, ← pow_succ, show d - (m + 1) + 1 = d - m by omega]
      rw [MerkleAccumulator.update.loop,
        if_neg (fun h0 => by have := (pos_eq_zero hi).1 h0; omega)]
      simp only [pos_parent, hup]
      have hi' : idx / 2 ^ (d - m) < 2 ^ m := by rw [pow_succ] at hi; omega
      have hps : 2 ^ m - 1 + idx / 2 ^ (d - m) < tree.size := by
        have := Nat.pow_le_pow_right (n := 2) (by omega) (show m + 1 ≤ d + 1 by omega)
        rw [hs]; rw [pow_succ] at this; omega
      refine ih _ (by omega) hidx (by simpa using hs) fun m' i hm' hi2 hor => ?_
      by_cases heq : m' = m ∧ i = idx / 2 ^ (d - m)
      · obtain ⟨rfl, rfl⟩ := heq
        have hi3 : 2 * (idx / 2 ^ (d - m')) + 1 < 2 ^ (m' + 1) := by
          rw [pow_succ]; omega
        rw [getElem!_set!_self hps, nodeAt_children H (by omega), pos_left, pos_right,
          h (m' + 1) _ (by omega) (by omega) (Or.inl (by omega)),
          h (m' + 1) _ (by omega) hi3 (Or.inl (by omega))]
      · rw [getElem!_set!_ne (fun hp => heq ?_)]
        · refine h m' i hm' hi2 ?_
          rcases hor with hle | hne
          · rcases Nat.eq_or_lt_of_le hle with rfl | hlt
            · exact Or.inr fun hieq => heq ⟨rfl, hieq⟩
            · exact Or.inl hlt
          · exact Or.inr hne
        · obtain ⟨h1, h2⟩ := pos_inj hi' hi2 hp
          exact ⟨h1.symm, h2.symm⟩

end

/-- `prove` collects the siblings of the branch, from the leaf upwards. -/
theorem prove_loop {leaf : ℕ → HashOutput N} {d : ℕ} {tree : Array (HashOutput N)}
    (ht : IsTree H leaf d tree) :
    ∀ {m i : ℕ} {acc : List (HashOutput N)}, m ≤ d → i < 2 ^ m →
      MerkleAccumulator.prove.loop tree (2 ^ m - 1 + i) acc =
        acc ++ siblings (hash_internal_node H) leaf (d - m) m i := by
  intro m
  induction m with
  | zero =>
      intro i acc _ hi
      rw [MerkleAccumulator.prove.loop, if_pos (by simpa using hi), siblings,
        List.append_nil]
  | succ m ih =>
      intro i acc hm hi
      have hp := Nat.two_pow_pos m
      have hhalf : i / 2 < 2 ^ m := by rw [pow_succ] at hi; omega
      have hsib : (if (2 ^ (m + 1) - 1 + i) % 2 = 0 then tree[2 ^ (m + 1) - 1 + i - 1]!
          else tree[2 ^ (m + 1) - 1 + i + 1]!) =
          nodeAt H leaf d (m + 1) (sibling i) := by
        unfold sibling
        by_cases hev : i % 2 = 0
        · rw [if_neg (fun h => (pos_even m i).1 h hev), if_pos hev,
            show 2 ^ (m + 1) - 1 + i + 1 = 2 ^ (m + 1) - 1 + (i + 1) by omega,
            ht.node (m + 1) (i + 1) hm (by rw [pow_succ] at hi ⊢; omega)]
        · rw [if_pos ((pos_even m i).2 hev), if_neg hev,
            show 2 ^ (m + 1) - 1 + i - 1 = 2 ^ (m + 1) - 1 + (i - 1) by omega,
            ht.node (m + 1) (i - 1) hm (by omega)]
      rw [MerkleAccumulator.prove.loop,
        if_neg (fun h0 => by have := (pos_eq_zero hi).1 h0; omega)]
      simp only [hsib, pos_parent]
      rw [ih (by omega) hhalf, siblings, List.append_assoc, List.singleton_append,
        show d - (m + 1) + 1 = d - m by omega]

/-! ## The streaming verifiers

One feed moves one level up; a whole proof is a climb, and the flag is right
exactly when the climb had the right length and ended at the root. -/

namespace MerkleInclusionProofVerifier

variable {v : MerkleInclusionProofVerifier N} {hasher : Hasher} {s : HashOutput N}

theorem feed_zero (h : v.pos = 0) :
    v.feed H hasher s = ({ v with verified := false }, hasher) := if_pos h

theorem feed_succ {m i : ℕ} (hi : i < 2 ^ (m + 1)) (h : v.pos = 2 ^ (m + 1) - 1 + i) :
    v.feed H hasher s =
      ({ current_hash := hash_internal_node H (ordered i v.current_hash s).1
            (ordered i v.current_hash s).2
         pos := 2 ^ m - 1 + i / 2
         root := v.root
         verified := if m = 0 then
            hash_internal_node H (ordered i v.current_hash s).1
              (ordered i v.current_hash s).2 == v.root else v.verified },
       { buffer := nodeMessage (ordered i v.current_hash s).1
            (ordered i v.current_hash s).2
         digested := nodeMessage (ordered i v.current_hash s).1
            (ordered i v.current_hash s).2 :: hasher.digested }) := by
  have hhalf : i / 2 < 2 ^ m := by rw [pow_succ] at hi; omega
  have hz : ((v.pos - 1) / 2 = 0) = (m = 0) := by
    rw [h, pos_parent]; exact propext (pos_eq_zero hhalf)
  have hp : (v.pos - 1) / 2 = 2 ^ m - 1 + i / 2 := by rw [h, pos_parent]
  unfold feed
  rw [if_neg (fun h0 => by have := (pos_eq_zero hi).1 (h ▸ h0); omega)]
  by_cases hev : i % 2 = 0
  · have hodd : ¬ v.pos % 2 = 0 := fun h2 => (pos_even m i).1 (h ▸ h2) hev
    simp only [if_neg hodd, ordered, if_pos hev, hz]
    rw [hp]
    rfl
  · have hodd : v.pos % 2 = 0 := h ▸ (pos_even m i).2 hev
    simp only [if_pos hodd, ordered, if_neg hev, hz]
    rw [hp]
    rfl

/-- The hasher a verifier is lent does not influence it. -/
theorem feed_hasher (h₁ h₂ : Hasher) : (v.feed H h₁ s).1 = (v.feed H h₂ s).1 := by
  unfold feed
  split
  · rfl
  · simp [Hasher.reset, Hasher.update, Hasher.digest_inplace]

/-- A message hashed stays on the record. -/
theorem feed_digested : hasher.digested ⊆ (v.feed H hasher s).2.digested := by
  unfold feed
  split
  · exact List.Subset.refl _
  · exact List.subset_cons_of_subset _ (List.Subset.refl _)

theorem feed_all_spoiled {proof : List (HashOutput N)} (h : v.pos = 0)
    (hv : v.verified = false) : (v.feed_all H hasher proof).1.verified = false := by
  induction proof generalizing v hasher with
  | nil => exact hv
  | cons el proof ih =>
      rw [feed_all, feed_zero H h]
      exact ih h rfl

/-- What acceptance means, for a verifier standing at node `i` of level `m`. -/
theorem feed_all_verified {proof : List (HashOutput N)} {m i : ℕ} (hi : i < 2 ^ m)
    (h : v.pos = 2 ^ m - 1 + i)
    (hv : v.verified = (m == 0 && v.current_hash == v.root)) :
    (v.feed_all H hasher proof).1.verified = true ↔
      proof.length = m ∧
        climb (hash_internal_node H) i v.current_hash proof = v.root := by
  induction proof generalizing v hasher m i with
  | nil =>
      rw [feed_all, hv, climb, List.length_nil, Bool.and_eq_true, beq_iff_eq,
        beq_iff_eq, eq_comm (a := m)]
  | cons el proof ih =>
      cases m with
      | zero =>
          have h0 : v.pos = 0 := by simpa [h] using hi
          have hno : ((v.feed H hasher el).1.feed_all H (v.feed H hasher el).2
              proof).1.verified = false := by
            rw [feed_zero H h0]
            exact feed_all_spoiled H h0 rfl
          rw [feed_all, hno]
          simp
      | succ m =>
          have hhalf : i / 2 < 2 ^ m := by rw [pow_succ] at hi; omega
          have hv' : v.verified = false := by simpa using hv
          rw [feed_all, feed_succ H hi h, ih hhalf rfl (by cases m <;> simp [hv'])]
          simp [climb]

/-- Every pair of the climb was hashed, and nothing is forgotten. -/
theorem feed_all_digested (v : MerkleInclusionProofVerifier N) (hasher : Hasher)
    (proof : List (HashOutput N)) {m i : ℕ} (hi : i < 2 ^ m)
    (h : v.pos = 2 ^ m - 1 + i) (hlen : proof.length ≤ m) :
    hasher.digested ⊆ (v.feed_all H hasher proof).2.digested ∧
      ∀ p ∈ climbPairs (hash_internal_node H) i v.current_hash proof,
        nodeMessage p.1 p.2 ∈ (v.feed_all H hasher proof).2.digested := by
  induction proof generalizing v hasher m i with
  | nil => exact ⟨List.Subset.refl _, fun p hp => by simp [climbPairs] at hp⟩
  | cons el proof ih =>
      cases m with
      | zero => simp at hlen
      | succ m =>
          have hhalf : i / 2 < 2 ^ m := by rw [pow_succ] at hi; omega
          rw [feed_all, feed_succ H hi h]
          obtain ⟨hsub, hpairs⟩ := ih ⟨_, 2 ^ m - 1 + i / 2, v.root, _⟩ ⟨_, _⟩ (m := m)
            (i := i / 2) hhalf rfl (by simpa using hlen)
          refine ⟨fun x hx => hsub (List.mem_cons_of_mem _ hx), fun p hp => ?_⟩
          rcases List.mem_cons.mp hp with rfl | hp
          · exact hsub List.mem_cons_self
          · exact hpairs p hp

theorem feed_all_hasher {proof : List (HashOutput N)} (h₁ h₂ : Hasher) :
    (v.feed_all H h₁ proof).1 = (v.feed_all H h₂ proof).1 := by
  induction proof generalizing v h₁ h₂ with
  | nil => rfl
  | cons el proof ih =>
      rw [feed_all, feed_all, feed_hasher H h₁ h₂]
      exact ih _ _

end MerkleInclusionProofVerifier

namespace MerkleUpdateProofVerifier

variable {v : MerkleUpdateProofVerifier N} {hasher : Hasher}

/-- An update verifier is its two halves, each fed the whole branch. -/
theorem feed_all_eq {proof : List (HashOutput N)} :
    (v.feed_all H hasher proof).1 =
      { old_verifier := (v.old_verifier.feed_all H hasher proof).1
        new_verifier := (v.new_verifier.feed_all H hasher proof).1 } := by
  induction proof generalizing v hasher with
  | nil => rfl
  | cons el proof ih =>
      have hn : (v.new_verifier.feed H (v.old_verifier.feed H hasher el).2 el).1 =
          (v.new_verifier.feed H hasher el).1 :=
        MerkleInclusionProofVerifier.feed_hasher H _ _
      rw [feed_all, ih]
      simp only [feed, MerkleInclusionProofVerifier.feed_all, hn,
        MerkleUpdateProofVerifier.mk.injEq]
      exact ⟨MerkleInclusionProofVerifier.feed_all_hasher H _ _,
        MerkleInclusionProofVerifier.feed_all_hasher H _ _⟩

/-- Both climbs were hashed. -/
theorem feed_all_digested (v : MerkleUpdateProofVerifier N) (hasher : Hasher)
    (proof : List (HashOutput N)) {m i : ℕ} (hi : i < 2 ^ m)
    (ho : v.old_verifier.pos = 2 ^ m - 1 + i)
    (hn : v.new_verifier.pos = 2 ^ m - 1 + i) (hlen : proof.length ≤ m) :
    hasher.digested ⊆ (v.feed_all H hasher proof).2.digested ∧
      (∀ p ∈ climbPairs (hash_internal_node H) i v.old_verifier.current_hash proof,
        nodeMessage p.1 p.2 ∈ (v.feed_all H hasher proof).2.digested) ∧
      ∀ p ∈ climbPairs (hash_internal_node H) i v.new_verifier.current_hash proof,
        nodeMessage p.1 p.2 ∈ (v.feed_all H hasher proof).2.digested := by
  induction proof generalizing v hasher m i with
  | nil =>
      exact ⟨List.Subset.refl _, fun p hp => by simp [climbPairs] at hp,
        fun p hp => by simp [climbPairs] at hp⟩
  | cons el proof ih =>
      cases m with
      | zero => simp at hlen
      | succ m =>
          have hhalf : i / 2 < 2 ^ m := by rw [pow_succ] at hi; omega
          rw [feed_all, feed]
          simp only [MerkleInclusionProofVerifier.feed_succ H hi ho,
            MerkleInclusionProofVerifier.feed_succ H hi hn]
          obtain ⟨hsub, hold, hnew⟩ := ih
            ⟨⟨_, 2 ^ m - 1 + i / 2, v.old_verifier.root, _⟩,
              ⟨_, 2 ^ m - 1 + i / 2, v.new_verifier.root, _⟩⟩ ⟨_, _⟩ (m := m)
            (i := i / 2) hhalf rfl rfl (by simpa using hlen)
          refine ⟨fun x hx => hsub (List.mem_cons_of_mem _ (List.mem_cons_of_mem _ hx)),
            fun p hp => ?_, fun p hp => ?_⟩
          · rcases List.mem_cons.mp hp with rfl | hp
            · exact hsub (List.mem_cons_of_mem _ List.mem_cons_self)
            · exact hold p hp
          · rcases List.mem_cons.mp hp with rfl | hp
            · exact hsub List.mem_cons_self
            · exact hnew p hp

end MerkleUpdateProofVerifier

/-! ## Soundness and completeness over a leaf sequence

These are the forms a party that only keeps the root uses: the leaves are
whatever digests the root commits to. -/

section
variable {leaf : ℕ → HashOutput N} {d i : ℕ} {proof : List (HashOutput N)}
  {hasher : Hasher}

/-- The tree of height `d` over `leaf` is made of messages of `S`. -/
def TreeIn (leaf : ℕ → HashOutput N) (d : ℕ) (S : Set Bytes) : Prop :=
  ∀ p ∈ treePairs (hash_internal_node H) leaf d, nodeMessage p.1 p.2 ∈ S

/-- The root of a vector of `2 ^ d` leaves. -/
abbrev rootOf (leaf : ℕ → HashOutput N) (d : ℕ) : HashOutput N :=
  subRoot (hash_internal_node H) leaf d 0

theorem begin_inclusion_proof_pos {root value_hash : HashOutput N} :
    (begin_inclusion_proof root value_hash i (2 ^ d)).pos = 2 ^ d - 1 + i := rfl

theorem begin_inclusion_proof_verified {root value_hash : HashOutput N} :
    (begin_inclusion_proof root value_hash i (2 ^ d)).verified =
      (d == 0 && value_hash == root) := by
  have : (2 ^ d == 1) = (d == 0) := by
    rw [Bool.eq_iff_iff, beq_iff_eq, beq_iff_eq]
    simp
  rw [begin_inclusion_proof, this]

/-- A branch of a vector is accepted if and only if it has the right length and
climbs to the root. -/
theorem inclusion_verified_iff (hi : i < 2 ^ d) {root value_hash : HashOutput N} :
    ((begin_inclusion_proof root value_hash i (2 ^ d)).feed_all H hasher
        proof).1.verified = true ↔
      proof.length = d ∧ climb (hash_internal_node H) i value_hash proof = root :=
  MerkleInclusionProofVerifier.feed_all_verified H hi begin_inclusion_proof_pos
    begin_inclusion_proof_verified

theorem update_verified_iff (hi : i < 2 ^ d)
    {old_root new_root old_hash new_hash : HashOutput N} :
    ((begin_update_proof old_root new_root old_hash new_hash i (2 ^ d)).feed_all H
        hasher proof).1.verified = true ↔
      proof.length = d ∧ climb (hash_internal_node H) i old_hash proof = old_root ∧
        climb (hash_internal_node H) i new_hash proof = new_root := by
  rw [MerkleUpdateProofVerifier.feed_all_eq, MerkleUpdateProofVerifier.verified,
    Bool.and_eq_true]
  simp only [begin_update_proof, inclusion_verified_iff H hi]
  tauto

theorem inclusion_complete (hi : i < 2 ^ d) :
    ((begin_inclusion_proof (rootOf H leaf d) (leaf i) i (2 ^ d)).feed_all H hasher
      (siblings (hash_internal_node H) leaf 0 d i)).1.verified = true := by
  refine (inclusion_verified_iff H hi).2 ⟨siblings_length _ _ _ _, ?_⟩
  have h := climb_siblings (hash_internal_node H) leaf 0 d i
  rwa [Nat.zero_add, Nat.div_eq_of_lt hi] at h

theorem update_complete (hi : i < 2 ^ d) (v : HashOutput N) :
    ((begin_update_proof (rootOf H leaf d) (rootOf H (Function.update leaf i v) d)
      (leaf i) v i (2 ^ d)).feed_all H hasher
      (siblings (hash_internal_node H) leaf 0 d i)).1.verified = true := by
  have h := climb_siblings (hash_internal_node H) leaf 0 d i
  have hu := climb_update (hash_internal_node H) leaf d i v
  rw [Nat.zero_add, Nat.div_eq_of_lt hi] at h
  rw [Nat.div_eq_of_lt hi] at hu
  exact (update_verified_iff H hi).2 ⟨siblings_length _ _ _ _, h, hu⟩

variable {H} {S : Set Bytes}

/-- An accepted branch opens the leaf that is really there. -/
theorem inclusion_sound (hS : CollisionFree H S) (htree : TreeIn H leaf d S)
    (hi : i < 2 ^ d) {value_hash : HashOutput N}
    (hlog : ∀ m ∈ ((begin_inclusion_proof (rootOf H leaf d) value_hash i
      (2 ^ d)).feed_all H hasher proof).2.digested, m ∈ S)
    (hv : ((begin_inclusion_proof (rootOf H leaf d) value_hash i (2 ^ d)).feed_all H
      hasher proof).1.verified = true) :
    value_hash = leaf i := by
  obtain ⟨hlen, hclimb⟩ := (inclusion_verified_iff H hi).1 hv
  have hpairs := (MerkleInclusionProofVerifier.feed_all_digested H
    (begin_inclusion_proof (rootOf H leaf d) value_hash i (2 ^ d)) hasher proof hi rfl
    (by omega)).2
  have hP := hS.noCollision (P := {p | nodeMessage p.1 p.2 ∈ S}) (fun p hp => hp)
  exact (climb_root_sound hP htree hi hlen (fun p hp => hlog _ (hpairs p hp)) hclimb).1

/-- An accepted update opens the leaf that is really there, and its new root is
that of the vector with this leaf replaced; and the new tree is made of
messages already on the record. -/
theorem update_sound (hS : CollisionFree H S) (htree : TreeIn H leaf d S)
    (hi : i < 2 ^ d) {new_root old_hash new_hash : HashOutput N}
    (hlog : ∀ m ∈ ((begin_update_proof (rootOf H leaf d) new_root old_hash new_hash i
      (2 ^ d)).feed_all H hasher proof).2.digested, m ∈ S)
    (hv : ((begin_update_proof (rootOf H leaf d) new_root old_hash new_hash i
      (2 ^ d)).feed_all H hasher proof).1.verified = true) :
    old_hash = leaf i ∧ new_root = rootOf H (Function.update leaf i new_hash) d ∧
      TreeIn H (Function.update leaf i new_hash) d S := by
  obtain ⟨hlen, hold, hnew⟩ := (update_verified_iff H hi).1 hv
  obtain ⟨-, hpo, hpn⟩ := MerkleUpdateProofVerifier.feed_all_digested H
    (begin_update_proof (rootOf H leaf d) new_root old_hash new_hash i (2 ^ d)) hasher
    proof hi rfl rfl (by omega)
  have hP := hS.noCollision (P := {p | nodeMessage p.1 p.2 ∈ S}) (fun p hp => hp)
  obtain ⟨hval, hsibs⟩ :=
    climb_root_sound hP htree hi hlen (fun p hp => hlog _ (hpo p hp)) hold
  -- the branch is the honest one, so it takes the new leaf to the new root
  rw [hsibs, climb_update, Nat.div_eq_of_lt hi] at hnew
  refine ⟨hval, hnew.symm, fun p hp => ?_⟩
  rcases treePairs_update hp with h | h
  · exact htree p h
  · rw [← hsibs] at h
    exact hlog _ (hpn p h)

end

/-! ## The accumulator itself -/

section
variable {T : Type} [AsRef T]

/-- The accumulators that can exist: made by `new`, then updated. -/
inductive Built : MerkleAccumulator T N → Prop where
  | new {data : List T} {ma : MerkleAccumulator T N}
      (h : MerkleAccumulator.new H data = some ma) : Built ma
  | update {ma ma' : MerkleAccumulator T N} {index : ℕ} {value : T}
      {r : List (HashOutput N) × HashOutput N} (hb : Built ma)
      (h : ma.update H index value = .ok (r, ma')) : Built ma'

/-- What `build_tree` hashes for a vector: its elements and, for every internal
node, the two children. -/
def MerkleAccumulator.hashed (ma : MerkleAccumulator T N) : Set Bytes :=
  {m | (∃ x ∈ ma.data, m = leafMessage x) ∨
    ∃ pos, pos < ma.data.length - 1 ∧
      m = nodeMessage ma.tree[2 * pos + 1]! ma.tree[2 * pos + 2]!}

theorem valid_leaf_count {n : ℕ} (h : has_valid_leaf_count n = true) :
    ∃ d, n = 2 ^ d := by
  have := h
  simp only [has_valid_leaf_count, Bool.and_eq_true, decide_eq_true_eq] at this
  exact this.2

theorem has_valid_leaf_count_two_pow (d : ℕ) : has_valid_leaf_count (2 ^ d) = true := by
  simp only [has_valid_leaf_count, Bool.and_eq_true, decide_eq_true_eq]
  exact ⟨Nat.two_pow_pos d, d, rfl⟩

theorem new_isTree {data : List T} {ma : MerkleAccumulator T N}
    (h : MerkleAccumulator.new H data = some ma) :
    ma.data = data ∧ ∃ d, data.length = 2 ^ d ∧ IsTree H (leafOf H data) d ma.tree := by
  unfold MerkleAccumulator.new at h
  split at h
  · next hv =>
      obtain ⟨d, hd⟩ := valid_leaf_count hv
      injection h with h
      subst h
      exact ⟨rfl, d, hd, build_tree_isTree H hd⟩
  · cases h

theorem prove_eq {ma : MerkleAccumulator T N} {d index : ℕ}
    (hlen : ma.data.length = 2 ^ d) (ht : IsTree H (leafOf H ma.data) d ma.tree)
    (hi : index < 2 ^ d) :
    ma.prove index =
      .ok (siblings (hash_internal_node H) (leafOf H ma.data) 0 d index) := by
  rw [MerkleAccumulator.prove, if_neg (by omega), hlen,
    prove_loop H ht (Nat.le_refl d) hi, Nat.sub_self, List.nil_append]

theorem update_eq {ma : MerkleAccumulator T N} {d index : ℕ} (value : T)
    (hlen : ma.data.length = 2 ^ d) (ht : IsTree H (leafOf H ma.data) d ma.tree)
    (hi : index < 2 ^ d) :
    ∃ ma', ma.update H index value =
        .ok ((siblings (hash_internal_node H) (leafOf H ma.data) 0 d index, ma'.root),
          ma') ∧
      ma'.data = ma.data.set index value ∧
      IsTree H (leafOf H ma'.data) d ma'.tree := by
  refine ⟨{ data := ma.data.set index value
            tree := MerkleAccumulator.update.loop H
              (ma.tree.set! (ma.data.length - 1 + index) (hash_leaf H value))
              (ma.data.length - 1 + index) }, ?_, rfl, ?_⟩
  · rw [MerkleAccumulator.update, if_neg (by omega), prove_eq H hlen ht hi]
  · have hps : 2 ^ d - 1 + index < ma.tree.size := by rw [ht.size, pow_succ]; omega
    have h0 : index / 2 ^ (d - d) = index := by simp
    simp only [hlen]
    have := update_loop H (leafOf H (ma.data.set index value)) d index d
      (ma.tree.set! (2 ^ d - 1 + index) (hash_leaf H value)) (Nat.le_refl d) hi (by simpa using ht.size) fun m' i hm' hi' hor => ?_
    · rwa [h0] at this
    · rw [leafOf_set H (by omega)]
      by_cases heq : m' = d ∧ i = index
      · obtain ⟨rfl, rfl⟩ := heq
        rw [getElem!_set!_self hps, nodeAt, Nat.sub_self, subRoot, Function.update_self]
      · rw [getElem!_set!_ne (fun hp => heq ?_), ht.node m' i hm' hi', nodeAt, nodeAt,
          subRoot_update_of_ne]
        · rcases hor with hle | hne
          · have hmd : m' = d := by omega
            subst hmd
            simpa using fun hii => heq ⟨rfl, hii⟩
          · exact hne
        · obtain ⟨h1, h2⟩ := pos_inj hi hi' hp
          exact ⟨h1.symm, h2.symm⟩

/-- The tree of every accumulator that can exist is that of its vector. -/
theorem Built.isTree {ma : MerkleAccumulator T N} (hb : Built H ma) :
    ∃ d, ma.data.length = 2 ^ d ∧ IsTree H (leafOf H ma.data) d ma.tree := by
  induction hb with
  | new h =>
      obtain ⟨rfl, d, hd, ht⟩ := new_isTree H h
      exact ⟨d, hd, ht⟩
  | update _ h ih =>
      rename_i ma ma' index value r _
      obtain ⟨d, hd, ht⟩ := ih
      by_cases hi : index < 2 ^ d
      · obtain ⟨ma'', h', hdata, ht'⟩ := update_eq H value hd ht hi
        rw [h'] at h
        injection h with h
        obtain ⟨-, rfl⟩ := Prod.mk.inj h
        exact ⟨d, by rw [hdata, List.length_set, hd], ht'⟩
      · rw [MerkleAccumulator.update, if_pos (by omega)] at h
        cases h

theorem IsTree.treeIn {ma : MerkleAccumulator T N} {d : ℕ}
    (hlen : ma.data.length = 2 ^ d) (ht : IsTree H (leafOf H ma.data) d ma.tree) :
    TreeIn H (leafOf H ma.data) d ma.hashed := by
  rintro p ⟨k, i, hk, hi, rfl⟩
  have hm : d - (k + 1) + 1 ≤ d := by omega
  have hk' : d - (d - (k + 1) + 1) = k := by omega
  have hi2 : 2 * i + 1 < 2 ^ (d - (k + 1) + 1) := by rw [pow_succ]; omega
  have hle : 2 ^ (d - (k + 1) + 1) ≤ 2 ^ d := Nat.pow_le_pow_right (by omega) hm
  refine Or.inr ⟨2 ^ (d - (k + 1)) - 1 + i, by rw [hlen]; rw [pow_succ] at hle; omega, ?_⟩
  rw [pos_left, pos_right, ht.node _ (2 * i) hm (by omega), ht.node _ (2 * i + 1) hm hi2,
    nodeAt, nodeAt, hk']

/-- An accumulator that can exist is the one rebuilt from its vector. -/
theorem Built.rebuilt {ma : MerkleAccumulator T N} (hb : Built H ma) :
    MerkleAccumulator.new H ma.data = some ma := by
  obtain ⟨d, hd, ht⟩ := hb.isTree
  rw [MerkleAccumulator.new, if_pos (hd ▸ has_valid_leaf_count_two_pow d)]
  have htree := (build_tree_isTree H hd).unique ht
  exact congrArg some (congrArg (MerkleAccumulator.mk ma.data) htree)

theorem IsTree.root_eq {ma : MerkleAccumulator T N} {d : ℕ}
    (ht : IsTree H (leafOf H ma.data) d ma.tree) :
    ma.root = rootOf H (leafOf H ma.data) d := ht.root

/-- What it means that an accumulator and the streaming verifiers agree. -/
structure Authenticates (ma : MerkleAccumulator T N) : Prop where
  /-- The tree is the one rebuilt from the current data. -/
  rebuilt : MerkleAccumulator.new H ma.data = some ma
  /-- Every inclusion proof it produces is accepted against its root. -/
  prove_accepted : ∀ i (hi : i < ma.data.length) (hasher : Hasher),
    ∃ proof, ma.prove i = .ok proof ∧
      ((begin_inclusion_proof ma.root (hash_element H ma.data[i]) i ma.size).feed_all H
        hasher proof).1.verified = true
  /-- Every update proof it produces is accepted against the old and the new
  root. -/
  update_accepted : ∀ i (hi : i < ma.data.length) (v : T) (hasher : Hasher),
    ∃ proof ma', ma.update H i v = .ok ((proof, ma'.root), ma') ∧
      ma'.data = ma.data.set i v ∧
      ((begin_update_proof ma.root ma'.root (hash_element H ma.data[i])
        (hash_element H v) i ma.size).feed_all H hasher proof).1.verified = true
  /-- A verifier that accepts any list of siblings has been shown the element
  the vector holds, unless two of the messages hashed collide. -/
  inclusion_sound : ∀ i (hi : i < ma.data.length) (x : T) (hasher : Hasher)
    (proof : List (HashOutput N)) r,
    (begin_inclusion_proof ma.root (hash_element H x) i ma.size).feed_all H hasher
      proof = r →
    CollisionFree H (ma.hashed ∪ {m | m = leafMessage x ∨ m ∈ r.2.digested}) →
    r.1.verified = true → AsRef.as_ref x = AsRef.as_ref ma.data[i]
  /-- Likewise for an update, whose new root is then that of the vector with
  this one element replaced. -/
  update_sound : ∀ i (hi : i < ma.data.length) (x y : T) (new_root : HashOutput N)
    (hasher : Hasher) (proof : List (HashOutput N)) r,
    (begin_update_proof ma.root new_root (hash_element H x) (hash_element H y) i
      ma.size).feed_all H hasher proof = r →
    CollisionFree H (ma.hashed ∪ {m | m = leafMessage x ∨ m ∈ r.2.digested}) →
    r.1.verified = true → AsRef.as_ref x = AsRef.as_ref ma.data[i] ∧
      ∃ ma', MerkleAccumulator.new H (ma.data.set i y) = some ma' ∧ new_root = ma'.root
  /-- A proof that is too short or too long is rejected, whatever it holds. -/
  length_forced : ∀ i (_ : i < ma.data.length) (root h new_root h' : HashOutput N)
    (hasher : Hasher) (proof : List (HashOutput N)), 2 ^ proof.length ≠ ma.data.length →
    ((begin_inclusion_proof root h i ma.size).feed_all H hasher
      proof).1.verified = false ∧
    ((begin_update_proof root new_root h h' i ma.size).feed_all H hasher
      proof).1.verified = false

theorem Built.authenticates {ma : MerkleAccumulator T N} (hb : Built H ma) :
    Authenticates H ma := by
  obtain ⟨d, hd, ht⟩ := hb.isTree
  have hroot := ht.root_eq
  have htree := ht.treeIn H hd
  have hsize : ma.size = 2 ^ d := hd
  -- a leaf digest is the leaf digest of one element only
  have hleaf : ∀ {S : Set Bytes} {x : T} {i : ℕ} (hi : i < ma.data.length),
      CollisionFree H (ma.hashed ∪ {m | m = leafMessage x ∨ m ∈ S}) →
      hash_element H x = leafOf H ma.data i →
      AsRef.as_ref x = AsRef.as_ref ma.data[i] := by
    intro S x i hi hS he
    rw [leafOf_eq H hi] at he
    have := hS (Or.inr (Or.inl rfl)) (Or.inl (Or.inl ⟨_, List.getElem_mem hi, rfl⟩)) he
    simpa [leafMessage] using this
  refine ⟨hb.rebuilt, ?_, ?_, ?_, ?_, ?_⟩
  · intro i hi hasher
    refine ⟨_, prove_eq H hd ht (hd ▸ hi), ?_⟩
    rw [hroot, hsize, hash_element, ← leafOf_eq H hi]
    exact inclusion_complete H (hd ▸ hi)
  · intro i hi v hasher
    obtain ⟨ma', hup, hdata, ht'⟩ := update_eq H v hd ht (hd ▸ hi)
    refine ⟨_, ma', hup, hdata, ?_⟩
    rw [hroot, hsize, ht'.root_eq, hdata, leafOf_set H hi, hash_element,
      ← leafOf_eq H hi, hash_element]
    exact update_complete H (hd ▸ hi) _
  · rintro i hi x hasher proof r rfl hS hv
    rw [hroot, hsize] at hv hS
    exact hleaf hi hS (Vanadium.inclusion_sound hS (fun p hp => Or.inl (htree p hp))
      (hd ▸ hi) (fun m hm => Or.inr (Or.inr hm)) hv)
  · rintro i hi x y new_root hasher proof r rfl hS hv
    rw [hroot, hsize] at hv hS
    obtain ⟨hx, hnew, -⟩ := Vanadium.update_sound hS (fun p hp => Or.inl (htree p hp))
      (hd ▸ hi) (fun m hm => Or.inr (Or.inr hm)) hv
    obtain ⟨ma', hup, hdata, ht'⟩ := update_eq H y hd ht (hd ▸ hi)
    refine ⟨hleaf hi hS hx, ma', ?_, ?_⟩
    · rw [← hdata]; exact (Built.update hb hup).rebuilt
    · rw [hnew, ht'.root_eq, hdata, leafOf_set H hi, hash_element]
  · intro i hi root h new_root h' hasher proof hlen
    have hne : proof.length ≠ d := fun he => hlen (he ▸ hd.symm)
    rw [hsize, Bool.eq_false_iff, Bool.eq_false_iff]
    exact ⟨fun hv => hne ((inclusion_verified_iff H (hd ▸ hi)).1 hv).1,
      fun hv => hne ((update_verified_iff H (hd ▸ hi)).1 hv).1⟩

/-- A run of updates; one that is refused (index out of bounds) changes
nothing. -/
def updateAll (ma : MerkleAccumulator T N) :
    List (ℕ × T) → MerkleAccumulator T N
  | [] => ma
  | (index, value) :: us =>
      match ma.update H index value with
      | .ok (_, ma') => updateAll ma' us
      | .error _ => updateAll ma us

theorem Built.updateAll {ma : MerkleAccumulator T N} (hb : Built H ma)
    (us : List (ℕ × T)) : Built H (updateAll H ma us) ∧
      (updateAll H ma us).data = us.foldl (fun data u => data.set u.1 u.2) ma.data := by
  induction us generalizing ma with
  | nil => exact ⟨hb, rfl⟩
  | cons u us ih =>
      obtain ⟨index, value⟩ := u
      obtain ⟨d, hd, ht⟩ := hb.isTree
      rw [Vanadium.updateAll, List.foldl_cons]
      by_cases hi : index < 2 ^ d
      · obtain ⟨ma', hup, hdata, -⟩ := update_eq H value hd ht hi
        simp only [hup]
        rw [← hdata]
        exact ih (hb.update hup)
      · have hno : ma.update H index value = .error .indexOutOfBounds := by
          rw [MerkleAccumulator.update, if_pos (by omega)]
        simp only [hno]
        rw [List.set_eq_of_length_le (by omega)]
        exact ih hb

/-- Every vector of a power-of-two length has an accumulator, and after any
sequence of updates it holds the updated vector and authenticates it. -/
theorem accumulator_authenticates {data : List T} {d : ℕ} (hd : data.length = 2 ^ d)
    (us : List (ℕ × T)) :
    ∃ ma, MerkleAccumulator.new H data = some ma ∧
      (updateAll H ma us).data = us.foldl (fun data u => data.set u.1 u.2) data ∧
      Authenticates H (updateAll H ma us) := by
  obtain ⟨ma, hma⟩ : ∃ ma, MerkleAccumulator.new H data = some ma := by
    rw [MerkleAccumulator.new, if_pos (hd ▸ has_valid_leaf_count_two_pow d)]
    exact ⟨_, rfl⟩
  obtain ⟨hb, hdata⟩ := (Built.new hma).updateAll H us
  rw [(new_isTree H hma).1] at hdata
  exact ⟨ma, hma, hdata, hb.authenticates⟩

end

/-! ## A concrete vector

A hash given by a table of its values on the messages that occur; the tables
used here and later hold SHA-256 digests. -/

def ofHex (n : ℕ) : HashOutput 32 :=
  Vector.ofFn fun i => BitVec.ofNat 8 (n >>> (8 * (31 - i.val)))

def tableHash (t : List (Bytes × ℕ)) (m : Bytes) : HashOutput 32 :=
  ofHex (((t.find? fun e => e.1 == m).map Prod.snd).getD 0)

/-- SHA-256 on the two leaves `a`, `b` and on their parent. -/
def sha256_ab : Bytes → HashOutput 32 :=
  let a := 0x022a6979e6dab7aa5ae4c3e5e45f7e977112a7e63593820dbec1ec738a24f93c
  let b := 0x57eb35615d47f34ec714cacdf5fd74608a5e8e102724e80b24b287c0c27b6a31
  let ab := 0xb137985ff484fb600db93107c77b0365c80d78f5b429ded0fd97361d077999eb
  tableHash [([0x00, 0x61], a), ([0x00, 0x62], b),
    (nodeMessage (ofHex a) (ofHex b), ab)]

/-- On the vector `[a, b]`: the accumulator exists, and a verifier that is
handed the digest of `a` as the branch of index 1 accepts `b` there. -/
theorem accumulator_authenticates_ab :
    ∃ ma, MerkleAccumulator.new sha256_ab ([[0x61], [0x62]] : List Bytes) = some ma ∧
      Authenticates sha256_ab (updateAll sha256_ab ma [(1, [0x63])]) ∧
      ((begin_inclusion_proof
        (0xb137985ff484fb600db93107c77b0365c80d78f5b429ded0fd97361d077999eb |> ofHex)
        (hash_element sha256_ab ([0x62] : Bytes)) 1 2).feed_all sha256_ab Hasher.new
        [hash_element sha256_ab ([0x61] : Bytes)]).1.verified = true := by
  obtain ⟨ma, hma, -, hauth⟩ := accumulator_authenticates sha256_ab (d := 1)
    (show ([[0x61], [0x62]] : List Bytes).length = 2 ^ 1 from rfl) [(1, [0x63])]
  exact ⟨ma, hma, hauth, by decide +kernel⟩

end Vanadium
