import Mathlib

/-!
# Perfect hash trees over an arbitrary node function

A perfect binary tree of height `d` over a leaf sequence is nothing but the
function that gives every node its digest, so that is how it is spelled here:
`subRoot node leaf k i` is the digest of the `i`-th node at height `k`, and
the tree of height `d` is the one whose top is `subRoot node leaf d 0`.

A branch proof is a list of siblings, leaf level first. `climb` is what a
verifier computes from one. Two facts carry everything that is said about
authenticated vectors: a branch of honest siblings climbs to the node it
should, and — as long as `node` does not collide on the pairs that were
really combined — nothing else does.

Collision freedom is injectivity on a *set* of pairs. A digest has a fixed
width, so no node function is injective outright, and a theorem that assumed
it would assume the impossible; what a deployment hopes for is that the pairs
somebody actually hashed do not collide.
-/

namespace Vanadium.Lib

variable {δ : Type*} (node : δ → δ → δ)

/-- The digest of node `i` at height `k` of the tree over `leaf`. -/
def subRoot (leaf : ℕ → δ) : ℕ → ℕ → δ
  | 0, i => leaf i
  | k + 1, i => node (subRoot leaf k (2 * i)) (subRoot leaf k (2 * i + 1))

/-- The other child of the parent of node `i`. -/
def sibling (i : ℕ) : ℕ := if i % 2 = 0 then i + 1 else i - 1

/-- The siblings met on the way up from node `i` at height `k`, `n` levels of
them. -/
def siblings (leaf : ℕ → δ) : ℕ → ℕ → ℕ → List δ
  | _, 0, _ => []
  | k, n + 1, i =>
      subRoot node leaf k (sibling i) :: siblings leaf (k + 1) n (i / 2)

/-- The pair a verifier combines at node `i`, its own digest on its own side. -/
def ordered (i : ℕ) (cur sib : δ) : δ × δ :=
  if i % 2 = 0 then (cur, sib) else (sib, cur)

/-- What a verifier standing at node `i` with digest `cur` computes from a list
of siblings. -/
def climb : ℕ → δ → List δ → δ
  | _, cur, [] => cur
  | i, cur, s :: ss =>
      climb (i / 2) (node (ordered i cur s).1 (ordered i cur s).2) ss

/-- The pairs it combines while doing so. -/
def climbPairs : ℕ → δ → List δ → List (δ × δ)
  | _, _, [] => []
  | i, cur, s :: ss =>
      ordered i cur s ::
        climbPairs (i / 2) (node (ordered i cur s).1 (ordered i cur s).2) ss

/-- The pairs combined in the tree of height `d` over `leaf`. -/
def treePairs (leaf : ℕ → δ) (d : ℕ) : Set (δ × δ) :=
  {p | ∃ k i, k < d ∧ i < 2 ^ (d - (k + 1)) ∧
    p = (subRoot node leaf k (2 * i), subRoot node leaf k (2 * i + 1))}

/-- `node` has no collision among the pairs of `P`. -/
def NoCollision (P : Set (δ × δ)) : Prop :=
  Set.InjOn (fun p : δ × δ => node p.1 p.2) P

variable {node}

theorem NoCollision.mono {P Q : Set (δ × δ)} (h : NoCollision node Q)
    (hsub : P ⊆ Q) : NoCollision node P := Set.InjOn.mono hsub h

/-! ## Subtrees -/

/-- A subtree reads its own block of leaves and nothing else. -/
theorem subRoot_congr {leaf leaf' : ℕ → δ} :
    ∀ {k i : ℕ}, (∀ j, i * 2 ^ k ≤ j → j < (i + 1) * 2 ^ k → leaf j = leaf' j) →
      subRoot node leaf k i = subRoot node leaf' k i := by
  intro k
  induction k with
  | zero => intro i h; exact h i (by simp) (by simp)
  | succ k ih =>
      intro i h
      rw [subRoot, subRoot]
      have hlo : i * 2 ^ (k + 1) = 2 * i * 2 ^ k := by ring
      have hhi : (i + 1) * 2 ^ (k + 1) = (2 * i + 1) * 2 ^ k + 2 ^ k := by ring
      have hmid : (2 * i + 1) * 2 ^ k = 2 * i * 2 ^ k + 2 ^ k := by ring
      have htop : (2 * i + 1 + 1) * 2 ^ k = (2 * i + 1) * 2 ^ k + 2 ^ k := by ring
      have hl : subRoot node leaf k (2 * i) = subRoot node leaf' k (2 * i) :=
        ih fun j h1 h2 => h j (by omega) (by omega)
      have hr : subRoot node leaf k (2 * i + 1) =
          subRoot node leaf' k (2 * i + 1) :=
        ih fun j h1 h2 => h j (by omega) (by omega)
      rw [hl, hr]

/-- Writing leaf `i` leaves every subtree alone that `i` is not under. -/
theorem subRoot_update_of_ne {leaf : ℕ → δ} {i j k : ℕ} {v : δ}
    (h : j ≠ i / 2 ^ k) :
    subRoot node (Function.update leaf i v) k j = subRoot node leaf k j := by
  refine subRoot_congr fun l h1 h2 => Function.update_of_ne ?_ _ _
  rintro rfl
  exact h (Nat.div_eq_of_lt_le h1 h2).symm

/-- The two children of a parent, told from either of them. -/
theorem ordered_subRoot (leaf : ℕ → δ) (k i : ℕ) :
    ordered i (subRoot node leaf k i) (subRoot node leaf k (sibling i)) =
      (subRoot node leaf k (2 * (i / 2)), subRoot node leaf k (2 * (i / 2) + 1)) := by
  unfold ordered sibling
  rcases Nat.mod_two_eq_zero_or_one i with h | h
  · rw [if_pos h, if_pos h, show 2 * (i / 2) = i by omega]
  · rw [if_neg (by omega), if_neg (by omega), show 2 * (i / 2) = i - 1 by omega,
      show i - 1 + 1 = i by omega]

variable (node) in
theorem node_ordered_subRoot (leaf : ℕ → δ) (k i : ℕ) :
    node (ordered i (subRoot node leaf k i) (subRoot node leaf k (sibling i))).1
        (ordered i (subRoot node leaf k i) (subRoot node leaf k (sibling i))).2 =
      subRoot node leaf (k + 1) (i / 2) := by
  rw [ordered_subRoot, subRoot]

theorem ordered_inj {i : ℕ} {a b c d : δ} (h : ordered i a b = ordered i c d) :
    a = c ∧ b = d := by
  unfold ordered at h
  split at h <;> simp only [Prod.mk.injEq] at h
  · exact h
  · exact And.symm h

/-! ## Completeness -/

theorem siblings_length (leaf : ℕ → δ) :
    ∀ k n i, (siblings node leaf k n i).length = n := by
  intro k n
  induction n generalizing k with
  | zero => intro i; rfl
  | succ n ih => intro i; rw [siblings, List.length_cons, ih]

variable (node) in
/-- Honest siblings climb to the ancestor `n` levels up. -/
theorem climb_siblings (leaf : ℕ → δ) :
    ∀ k n i, climb node i (subRoot node leaf k i) (siblings node leaf k n i) =
      subRoot node leaf (k + n) (i / 2 ^ n) := by
  intro k n
  induction n generalizing k with
  | zero => intro i; simp [climb, siblings]
  | succ n ih =>
      intro i
      rw [siblings, climb, node_ordered_subRoot node, ih,
        show k + 1 + n = k + (n + 1) by omega, Nat.div_div_eq_div_mul,
        pow_succ, Nat.mul_comm]

variable (node) in
/-- The siblings of a leaf's branch do not change when that leaf does. -/
theorem siblings_update (leaf : ℕ → δ) (i : ℕ) (v : δ) :
    ∀ k n, siblings node (Function.update leaf i v) k n (i / 2 ^ k) =
      siblings node leaf k n (i / 2 ^ k) := by
  intro k n
  induction n generalizing k with
  | zero => rfl
  | succ n ih =>
      have hne : sibling (i / 2 ^ k) ≠ i / 2 ^ k := by
        unfold sibling; split <;> omega
      have hup : i / 2 ^ k / 2 = i / 2 ^ (k + 1) := by
        rw [Nat.div_div_eq_div_mul, pow_succ]
      rw [siblings, siblings, subRoot_update_of_ne hne, hup, ih]

variable (node) in
/-- So the old branch takes the new leaf to the new root. -/
theorem climb_update (leaf : ℕ → δ) (n i : ℕ) (v : δ) :
    climb node i v (siblings node leaf 0 n i) =
      subRoot node (Function.update leaf i v) n (i / 2 ^ n) := by
  have h := climb_siblings node (Function.update leaf i v) 0 n i
  have hs := siblings_update node leaf i v 0 n
  rw [pow_zero, Nat.div_one] at hs
  rw [subRoot, Function.update_self, hs, Nat.zero_add] at h
  exact h

/-! ## Soundness -/

/-- A branch that reaches the right ancestor started at the right node and
was made of the right siblings. The induction goes up the branch: the pair
combined last is a pair of the tree, so it is the tree's own pair. -/
theorem climb_sound {leaf : ℕ → δ} {d : ℕ} {P : Set (δ × δ)}
    (hP : NoCollision node P) (htree : treePairs node leaf d ⊆ P) :
    ∀ {ss : List δ} {k i : ℕ} {cur : δ}, k + ss.length ≤ d → i < 2 ^ (d - k) →
      (∀ p ∈ climbPairs node i cur ss, p ∈ P) →
      climb node i cur ss = subRoot node leaf (k + ss.length) (i / 2 ^ ss.length) →
      cur = subRoot node leaf k i ∧ ss = siblings node leaf k ss.length i := by
  intro ss
  induction ss with
  | nil =>
      intro k i cur _ _ _ h
      simpa [climb, siblings] using h
  | cons s ss ih =>
      intro k i cur hk hi hpairs h
      have hlen : k + (ss.length + 1) ≤ d := by simpa using hk
      have hpow : 2 ^ (d - k) = 2 ^ (d - (k + 1)) * 2 := by
        rw [← pow_succ, show d - (k + 1) + 1 = d - k by omega]
      have hhalf : i / 2 < 2 ^ (d - (k + 1)) := by omega
      have hstep : climb node (i / 2)
          (node (ordered i cur s).1 (ordered i cur s).2) ss =
          subRoot node leaf (k + 1 + ss.length) (i / 2 / 2 ^ ss.length) := by
        rw [climb, List.length_cons] at h
        rw [h, show k + 1 + ss.length = k + (ss.length + 1) by omega,
          Nat.div_div_eq_div_mul, pow_succ, Nat.mul_comm 2]
      obtain ⟨htop, hrest⟩ := ih (k := k + 1) (i := i / 2) (by omega) hhalf
        (fun p hp => hpairs p (List.mem_cons_of_mem _ hp)) hstep
      have hmem : ordered i cur s ∈ P := hpairs _ List.mem_cons_self
      have hmem' : ordered i (subRoot node leaf k i)
          (subRoot node leaf k (sibling i)) ∈ P := by
        rw [ordered_subRoot]
        exact htree ⟨k, i / 2, by omega, hhalf, rfl⟩
      have hpair := hP hmem hmem' (htop.trans (node_ordered_subRoot node leaf k i).symm)
      obtain ⟨hcur, hsib⟩ := ordered_inj hpair
      refine ⟨hcur, ?_⟩
      rw [List.length_cons, siblings, ← hsib, ← hrest]

/-- A branch that climbs from a leaf to the root of a tree of height `d`
proves that leaf. -/
theorem climb_root_sound {leaf : ℕ → δ} {d i : ℕ} {P : Set (δ × δ)}
    (hP : NoCollision node P) (htree : treePairs node leaf d ⊆ P) (hi : i < 2 ^ d)
    {cur : δ} {ss : List δ} (hlen : ss.length = d)
    (hpairs : ∀ p ∈ climbPairs node i cur ss, p ∈ P)
    (h : climb node i cur ss = subRoot node leaf d 0) :
    cur = leaf i ∧ ss = siblings node leaf 0 d i := by
  subst hlen
  exact climb_sound hP htree (k := 0) (by omega) (by simpa using hi) hpairs
    (by rw [h, Nat.zero_add, Nat.div_eq_of_lt hi])

/-- The pairs of an updated tree are pairs of the old one, or were combined by
the branch of the new leaf. -/
theorem treePairs_update {leaf : ℕ → δ} {d i : ℕ} {v : δ} {p : δ × δ}
    (hp : p ∈ treePairs node (Function.update leaf i v) d) :
    p ∈ treePairs node leaf d ∨
      p ∈ climbPairs node i v (siblings node leaf 0 d i) := by
  -- the branch of the new leaf combines the new tree's pair at every height
  have hbranch : ∀ n k, k + n ≤ d → ∀ m, m < n →
      (subRoot node (Function.update leaf i v) (k + m) (2 * (i / 2 ^ (k + m) / 2)),
        subRoot node (Function.update leaf i v) (k + m)
          (2 * (i / 2 ^ (k + m) / 2) + 1)) ∈
        climbPairs node (i / 2 ^ k)
          (subRoot node (Function.update leaf i v) k (i / 2 ^ k))
          (siblings node (Function.update leaf i v) k n (i / 2 ^ k)) := by
    intro n
    induction n with
    | zero => intro k _ m hm; omega
    | succ n ih =>
        intro k hk m hm
        rw [siblings, climbPairs, node_ordered_subRoot node]
        rcases Nat.eq_zero_or_pos m with rfl | hm0
        · rw [ordered_subRoot]
          exact List.mem_cons_self
        · have hup : i / 2 ^ k / 2 = i / 2 ^ (k + 1) := by
            rw [Nat.div_div_eq_div_mul, pow_succ]
          have := ih (k + 1) (by omega) (m - 1) (by omega)
          rw [show k + 1 + (m - 1) = k + m by omega] at this
          rw [hup]
          exact List.mem_cons_of_mem _ this
  obtain ⟨k, j, hk, hj, rfl⟩ := hp
  by_cases hjk : j = i / 2 ^ k / 2
  · right
    subst hjk
    have := hbranch d 0 (by omega) k (by omega)
    have hs := siblings_update node leaf i v 0 d
    rw [pow_zero, Nat.div_one] at hs
    simpa only [Nat.zero_add, pow_zero, Nat.div_one, subRoot, Function.update_self,
      hs] using this
  · left
    refine ⟨k, j, hk, hj, ?_⟩
    rw [subRoot_update_of_ne (by omega), subRoot_update_of_ne (by omega)]

/-- A root commits to every leaf. -/
theorem subRoot_inj {leaf leaf' : ℕ → δ} {d : ℕ} {P : Set (δ × δ)}
    (hP : NoCollision node P) (h : treePairs node leaf d ⊆ P)
    (h' : treePairs node leaf' d ⊆ P)
    (hroot : subRoot node leaf d 0 = subRoot node leaf' d 0) :
    ∀ i, i < 2 ^ d → leaf i = leaf' i := by
  have hlevel : ∀ m, m ≤ d → ∀ i, i < 2 ^ m →
      subRoot node leaf (d - m) i = subRoot node leaf' (d - m) i := by
    intro m
    induction m with
    | zero =>
        intro _ i hi
        obtain rfl : i = 0 := by simpa using hi
        exact hroot
    | succ m ih =>
        intro hm i hi
        have hhalf : i / 2 < 2 ^ m := by rw [pow_succ] at hi; omega
        have hk : d - m = d - (m + 1) + 1 := by omega
        have hm' : d - (d - (m + 1) + 1) = m := by omega
        have hup := ih (by omega) (i / 2) hhalf
        rw [hk, subRoot, subRoot] at hup
        have hpair := hP (h ⟨d - (m + 1), i / 2, by omega, by rw [hm']; exact hhalf, rfl⟩)
          (h' ⟨d - (m + 1), i / 2, by omega, by rw [hm']; exact hhalf, rfl⟩) hup
        rcases Nat.mod_two_eq_zero_or_one i with hi0 | hi1
        · rw [show i = 2 * (i / 2) by omega]
          exact (Prod.mk.inj hpair).1
        · rw [show i = 2 * (i / 2) + 1 by omega]
          exact (Prod.mk.inj hpair).2
  intro i hi
  have := hlevel d (Nat.le_refl d) i hi
  rwa [Nat.sub_self] at this

/-! ## Building from left to right

A tree can be built keeping only the roots of the full subtrees to the left of
the next leaf, one for every bit of the number of leaves. -/

variable (node) in
/-- The roots of the subtrees that the first `c` nodes at height `k` fill,
largest first. -/
def frontier (leaf : ℕ → δ) (k c : ℕ) : List δ :=
  if c = 0 then []
  else frontier leaf (k + 1) (c / 2) ++ if c % 2 = 1 then [subRoot node leaf k (c - 1)] else []
termination_by c

theorem frontier_zero (leaf : ℕ → δ) (k : ℕ) : frontier node leaf k 0 = [] := by
  rw [frontier, if_pos rfl]

theorem frontier_even (leaf : ℕ → δ) (k c : ℕ) (h : c % 2 = 0) :
    frontier node leaf k c = frontier node leaf (k + 1) (c / 2) := by
  rw [frontier]
  split
  · next hc => rw [hc, Nat.zero_div, frontier_zero]
  · rw [if_neg (by omega), List.append_nil]

theorem frontier_odd (leaf : ℕ → δ) (k c : ℕ) (h : c % 2 = 0) :
    frontier node leaf k (c + 1) =
      frontier node leaf k c ++ [subRoot node leaf k c] := by
  rw [frontier, if_neg (by omega), if_pos (by omega), frontier_even leaf k c h,
    show (c + 1) / 2 = c / 2 by omega, Nat.add_sub_cancel]

/-- A complete tree leaves its root alone. -/
theorem frontier_two_pow (leaf : ℕ → δ) (d k : ℕ) :
    frontier node leaf k (2 ^ d) = [subRoot node leaf (k + d) 0] := by
  induction d generalizing k with
  | zero =>
      have h : frontier node leaf k (0 + 1) = _ := frontier_odd leaf k 0 rfl
      rwa [frontier_zero] at h
  | succ d ih =>
      rw [frontier_even leaf k _ (by rw [pow_succ]; omega), pow_succ,
        Nat.mul_div_cancel _ (by omega), ih, Nat.add_right_comm, Nat.add_assoc]

end Vanadium.Lib
