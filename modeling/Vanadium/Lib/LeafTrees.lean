import Mathlib

/-!
# Binary trees with labelled leaves

Two trees that differ in the order of branches only are the same unordered tree. To list
each unordered tree over some labels once, the first label is always put to the left: the
other labels are split into those that go with it and at least one that does not, and the
branches are listed in the same way.

There are (2n - 3)!! such trees. By the listing their number is a sum over the splits, of
binomial coefficients and double factorials; this is the recurrence of the Catalan
numbers in another form.
-/

namespace Vanadium.Lib.LeafTrees

open Finset (sum_congr sum_add_distrib mul_sum sum_antidiagonal_choose_succ_mul)
open Finset.HasAntidiagonal (antidiagonal mem_antidiagonal)
open scoped Nat

/-! ## Trees -/

inductive Tree (α : Type) where
  | leaf (a : α)
  | branch (left right : Tree α)
  deriving DecidableEq, Repr

variable {α : Type}

def Tree.leaves : Tree α → List α
  | leaf a => [a]
  | branch left right => left.leaves ++ right.leaves

theorem Tree.leaves_ne_nil (t : Tree α) : t.leaves ≠ [] := by
  induction t with
  | leaf a => exact List.cons_ne_nil a []
  | branch left right ihl _ => exact fun h => ihl (List.append_eq_nil_iff.mp h).1

/-- The same tree, up to the order of branches. -/
inductive Same : Tree α → Tree α → Prop where
  | leaf (a : α) : Same (.leaf a) (.leaf a)
  | branch {l r l' r' : Tree α} (hl : Same l l') (hr : Same r r') :
      Same (.branch l r) (.branch l' r')
  | swap {l r l' r' : Tree α} (hl : Same l r') (hr : Same r l') :
      Same (.branch l r) (.branch l' r')

namespace Same

theorem refl (t : Tree α) : Same t t := by
  induction t with
  | leaf a => exact .leaf a
  | branch _ _ ihl ihr => exact .branch ihl ihr

theorem symm {t t' : Tree α} (h : Same t t') : Same t' t := by
  induction h with
  | leaf a => exact .leaf a
  | branch _ _ ihl ihr => exact .branch ihl ihr
  | swap _ _ ihl ihr => exact .swap ihr ihl

theorem trans {t t' t'' : Tree α} (h : Same t t') (h' : Same t' t'') : Same t t'' := by
  induction h generalizing t'' with
  | leaf a => exact h'
  | branch _ _ ihl ihr =>
      cases h' with
      | branch hl hr => exact .branch (ihl hl) (ihr hr)
      | swap hl hr => exact .swap (ihl hl) (ihr hr)
  | swap _ _ ihl ihr =>
      cases h' with
      | branch hl hr => exact .swap (ihl hr) (ihr hl)
      | swap hl hr => exact .branch (ihl hr) (ihr hl)

theorem leaves_perm {t t' : Tree α} (h : Same t t') : t.leaves.Perm t'.leaves := by
  induction h with
  | leaf a => exact .refl _
  | branch _ _ ihl ihr => exact ihl.append ihr
  | swap _ _ ihl ihr => exact (ihl.append ihr).trans List.perm_append_comm

end Same

/-! ## Splits -/

variable {ι β : Type}

/-- The ways to put each element to the left or to the right. -/
def splits (l : List ι) : List (List ι × List ι) :=
  l.foldl (fun acc i =>
    (acc.map fun s => (s.1, s.2 ++ [i])) ++ acc.map fun s => (s.1 ++ [i], s.2)) [([], [])]

theorem splits_concat (l : List ι) (i : ι) : splits (l ++ [i]) =
    ((splits l).map fun s => (s.1, s.2 ++ [i])) ++
      (splits l).map fun s => (s.1 ++ [i], s.2) := by
  rw [splits, List.foldl_append]
  rfl

theorem perm_of_mem_splits {l : List ι} {s : List ι × List ι} (h : s ∈ splits l) :
    (s.1 ++ s.2).Perm l := by
  induction l using List.reverseRecOn generalizing s with
  | nil =>
      rw [List.mem_singleton.mp h]
      exact .refl _
  | append_singleton l i ih =>
      rw [splits_concat] at h
      rcases List.mem_append.mp h with h | h
      · obtain ⟨s, hs, rfl⟩ := List.mem_map.mp h
        rw [← List.append_assoc]
        exact (ih hs).append_right [i]
      · obtain ⟨s, hs, rfl⟩ := List.mem_map.mp h
        refine List.Perm.trans ?_ ((ih hs).append_right [i])
        rw [List.append_assoc, List.append_assoc]
        exact List.perm_append_comm.append_left s.1

theorem filter_mem_splits (p : ι → Bool) (l : List ι) :
    (l.filter p, l.filter fun i => !p i) ∈ splits l := by
  induction l using List.reverseRecOn with
  | nil => exact List.mem_singleton_self _
  | append_singleton l i ih =>
      rw [splits_concat, List.filter_append, List.filter_append]
      cases hi : p i with
      | false =>
          refine List.mem_append_left _ (List.mem_map.mpr ⟨_, ih, ?_⟩)
          simp [hi]
      | true =>
          refine List.mem_append_right _ (List.mem_map.mpr ⟨_, ih, ?_⟩)
          simp [hi]

/-- Different splits put different elements to the left. -/
theorem splits_distinct {l : List ι} (h : l.Nodup) :
    (splits l).Pairwise fun s s' => ¬ s.1.Perm s'.1 := by
  induction l using List.reverseRecOn with
  | nil => exact List.pairwise_singleton _ _
  | append_singleton l i ih =>
      have hnot : i ∉ l := by
        rw [List.nodup_append] at h
        exact fun hi => h.2.2 i hi i (List.mem_singleton_self i) rfl
      have ih := ih (List.nodup_append.mp h).1
      rw [splits_concat, List.pairwise_append, List.pairwise_map, List.pairwise_map]
      refine ⟨ih, ih.imp fun hne hperm => hne ((List.perm_append_right_iff [i]).mp hperm), ?_⟩
      intro x hx y hy hperm
      obtain ⟨s, hs, rfl⟩ := List.mem_map.mp hx
      obtain ⟨s', _, rfl⟩ := List.mem_map.mp hy
      have hi : i ∈ s.1 := hperm.mem_iff.mpr (List.mem_append_right _ (List.mem_singleton_self i))
      exact hnot ((perm_of_mem_splits hs).mem_iff.mp (List.mem_append_left _ hi))

/-- How many splits there are with so many elements on either side. -/
theorem sum_splits (f : ℕ → ℕ → ℕ) (l : List ι) :
    ((splits l).map fun s => f s.1.length s.2.length).sum =
      ∑ ij ∈ antidiagonal l.length, l.length.choose ij.1 * f ij.1 ij.2 := by
  induction l using List.reverseRecOn generalizing f with
  | nil => simp [splits]
  | append_singleton l i ih =>
      have hpascal := sum_antidiagonal_choose_succ_mul f l.length
      simp only [Nat.cast_id] at hpascal
      rw [splits_concat, List.map_append, List.sum_append, List.map_map, List.map_map,
        List.length_append, List.length_singleton, hpascal]
      congr 1
      · rw [← ih fun i j => f i (j + 1)]
        simp [Function.comp_def]
      · have hswap : ∑ ij ∈ antidiagonal l.length, l.length.choose ij.2 * f (ij.1 + 1) ij.2 =
            ∑ ij ∈ antidiagonal l.length, l.length.choose ij.1 * f (ij.1 + 1) ij.2 := by
          refine sum_congr rfl fun ij hij => ?_
          rw [← mem_antidiagonal.mp hij, Nat.choose_symm_add]
        rw [hswap, ← ih fun i j => f (i + 1) j]
        simp [Function.comp_def]

/-! ## How many trees there are -/

/-- A convolution of Catalan numbers and central binomial coefficients. -/
theorem sum_centralBinom_catalan (n : ℕ) :
    2 * ∑ ij ∈ antidiagonal n, ij.1.centralBinom * catalan ij.2 = (n + 1).centralBinom := by
  have hcatalan := catalan_succ' n
  have hswap : ∑ ij ∈ antidiagonal n, ij.1.centralBinom * catalan ij.2 =
      ∑ ij ∈ antidiagonal n, ij.2.centralBinom * catalan ij.1 := by
    rw [← Finset.Nat.sum_antidiagonal_swap]
    rfl
  calc 2 * ∑ ij ∈ antidiagonal n, ij.1.centralBinom * catalan ij.2
      = ∑ ij ∈ antidiagonal n, (ij.1.centralBinom * catalan ij.2 +
          ij.2.centralBinom * catalan ij.1) := by
        rw [sum_add_distrib, ← hswap, two_mul]
    _ = ∑ ij ∈ antidiagonal n, (n + 2) * (catalan ij.1 * catalan ij.2) := by
        refine sum_congr rfl fun ij hij => ?_
        rw [← mem_antidiagonal.mp hij, ← succ_mul_catalan_eq_centralBinom,
          ← succ_mul_catalan_eq_centralBinom]
        ring
    _ = (n + 1).centralBinom := by
        rw [← mul_sum, ← hcatalan, ← succ_mul_catalan_eq_centralBinom]

/-- The product of the odd numbers. -/
theorem two_pow_mul_doubleFactorial (k : ℕ) : 2 ^ k * (2 * k - 1)‼ = k.centralBinom * k ! := by
  have hpos : 0 < k ! := Nat.factorial_pos k
  have hbinom : k.centralBinom * k ! * k ! = (2 * k)! := by
    have h := Nat.choose_mul_factorial_mul_factorial (show k ≤ 2 * k by omega)
    rwa [show 2 * k - k = k by omega] at h
  have hodd : (2 * k)! = (2 * k)‼ * (2 * k - 1)‼ := by
    cases k with
    | zero => rfl
    | succ k => exact Nat.factorial_eq_mul_doubleFactorial (2 * k + 1)
  refine Nat.eq_of_mul_eq_mul_right hpos ?_
  rw [hbinom, hodd, Nat.doubleFactorial_two_mul]
  ring

theorem sum_choose_doubleFactorial (n : ℕ) :
    ∑ ij ∈ antidiagonal n, (n + 1).choose ij.1 * ((2 * ij.1 - 1)‼ * (2 * ij.2 - 1)‼) =
      (2 * (n + 1) - 1)‼ := by
  have hterm : ∀ ij ∈ antidiagonal n,
      2 ^ n * ((n + 1).choose ij.1 * ((2 * ij.1 - 1)‼ * (2 * ij.2 - 1)‼)) =
        (n + 1)! * (ij.1.centralBinom * catalan ij.2) := by
    intro ij hij
    have hsum := mem_antidiagonal.mp hij
    have hchoose := Nat.choose_mul_factorial_mul_factorial (show ij.1 ≤ n + 1 by omega)
    rw [show n + 1 - ij.1 = ij.2 + 1 by omega] at hchoose
    calc 2 ^ n * ((n + 1).choose ij.1 * ((2 * ij.1 - 1)‼ * (2 * ij.2 - 1)‼))
        = (n + 1).choose ij.1 * ((2 ^ ij.1 * (2 * ij.1 - 1)‼) * (2 ^ ij.2 * (2 * ij.2 - 1)‼)) := by
          rw [← hsum, pow_add]
          ring
      _ = (n + 1).choose ij.1 * (ij.1.centralBinom * ij.1 ! *
            (((ij.2 + 1) * catalan ij.2) * ij.2 !)) := by
          rw [two_pow_mul_doubleFactorial, two_pow_mul_doubleFactorial,
            succ_mul_catalan_eq_centralBinom]
      _ = (n + 1)! * (ij.1.centralBinom * catalan ij.2) := by
          rw [← hchoose, Nat.factorial_succ]
          ring
  refine Nat.eq_of_mul_eq_mul_left (show 0 < 2 ^ (n + 1) by positivity) ?_
  calc 2 ^ (n + 1) * ∑ ij ∈ antidiagonal n,
        (n + 1).choose ij.1 * ((2 * ij.1 - 1)‼ * (2 * ij.2 - 1)‼)
      = 2 * ∑ ij ∈ antidiagonal n, (n + 1)! * (ij.1.centralBinom * catalan ij.2) := by
        rw [pow_succ', mul_assoc, mul_sum, sum_congr rfl hterm]
    _ = (n + 1).centralBinom * (n + 1)! := by
        rw [← mul_sum, ← sum_centralBinom_catalan]
        ring
    _ = 2 ^ (n + 1) * (2 * (n + 1) - 1)‼ := (two_pow_mul_doubleFactorial (n + 1)).symm

/-! ## All trees -/

/-- The trees over some labels, each leaf with one of the values for its label. -/
def trees (v : ι → List β) : ℕ → List ι → List (Tree (ι × β))
  | 0, _ => []
  | _ + 1, [] => []
  | _ + 1, [i] => (v i).map fun x => .leaf (i, x)
  | n + 1, i :: j :: rest =>
      ((splits (j :: rest)).filter fun s => !s.2.isEmpty).flatMap fun s =>
        (trees v n (i :: s.1)).flatMap fun left =>
          (trees v n s.2).map fun right => .branch left right

/-- The labels of the leaves. -/
def labels (t : Tree (ι × β)) : List ι := t.leaves.map Prod.fst

/-- A tree with one leaf for each of the labels. -/
structure Over (v : ι → List β) (indices : List ι) (t : Tree (ι × β)) : Prop where
  perm : (labels t).Perm indices
  value : ∀ x ∈ t.leaves, x.2 ∈ v x.1

variable {v : ι → List β} {n : ℕ}

theorem labels_branch (l r : Tree (ι × β)) : labels (.branch l r) = labels l ++ labels r :=
  List.map_append

theorem labels_ne_nil (t : Tree (ι × β)) : labels t ≠ [] :=
  fun h => t.leaves_ne_nil (List.map_eq_nil_iff.mp h)

theorem Same.labels_perm {t t' : Tree (ι × β)} (h : Same t t') : (labels t).Perm (labels t') :=
  h.leaves_perm.map Prod.fst

/-- The splits with something to the right; both sides are shorter. -/
theorem mem_filter_splits {l : List ι} {s : List ι × List ι}
    (h : s ∈ (splits l).filter fun s => !s.2.isEmpty) :
    s ∈ splits l ∧ s.2 ≠ [] ∧ s.1.length < l.length ∧ s.2.length ≤ l.length := by
  obtain ⟨hs, hne⟩ := List.mem_filter.mp h
  have hne : s.2 ≠ [] := by simpa using hne
  have hlength := (perm_of_mem_splits hs).length_eq
  have hpos := List.length_pos_iff.mpr hne
  rw [List.length_append] at hlength
  exact ⟨hs, hne, by omega, by omega⟩

theorem Over.branch {i : ι} {rest : List ι} {s : List ι × List ι} (hs : s ∈ splits rest)
    {l r : Tree (ι × β)} (hl : Over v (i :: s.1) l) (hr : Over v s.2 r) :
    Over v (i :: rest) (.branch l r) := by
  refine ⟨?_, fun x hx => ?_⟩
  · rw [labels_branch]
    exact (hl.perm.append hr.perm).trans ((perm_of_mem_splits hs).cons i)
  · rcases List.mem_append.mp hx with hx | hx
    · exact hl.value x hx
    · exact hr.value x hx

theorem over_of_mem_trees {indices : List ι} (hn : indices.length ≤ n) {t : Tree (ι × β)}
    (h : t ∈ trees v n indices) : Over v indices t := by
  induction n generalizing indices t with
  | zero => cases h
  | succ n ih =>
      cases indices with
      | nil => cases h
      | cons i rest =>
          cases rest with
          | nil =>
              obtain ⟨x, hx, rfl⟩ := List.mem_map.mp h
              refine ⟨.refl _, fun y hy => ?_⟩
              rw [List.mem_singleton.mp hy]
              exact hx
          | cons j rest =>
              rw [trees, List.mem_flatMap] at h
              obtain ⟨s, hs, h⟩ := h
              obtain ⟨l, hl, h⟩ := List.mem_flatMap.mp h
              obtain ⟨r, hr, rfl⟩ := List.mem_map.mp h
              obtain ⟨hs, _, hleft, hright⟩ := mem_filter_splits hs
              simp only [List.length_cons] at hn hleft hright
              exact .branch hs (ih (by simp only [List.length_cons]; omega) hl)
                (ih (by omega) hr)

open Classical in
/-- The branches are over the labels that they have. -/
theorem Over.split {i : ι} {rest : List ι} (hnodup : (i :: rest).Nodup) {l r : Tree (ι × β)}
    (h : Over v (i :: rest) (.branch l r)) (hi : i ∈ labels l) :
    Over v (i :: rest.filter fun k => k ∈ labels l) l ∧
      Over v (rest.filter fun k => !decide (k ∈ labels l)) r := by
  have hperm := h.perm
  rw [labels_branch] at hperm
  have hdisjoint := (List.nodup_append.mp (hperm.nodup_iff.mpr hnodup)).2.2
  refine ⟨⟨?_, fun x hx => h.value x (List.mem_append_left _ hx)⟩,
    ⟨?_, fun x hx => h.value x (List.mem_append_right _ hx)⟩⟩
  · have hfilter := hperm.filter fun k => decide (k ∈ labels l)
    rw [List.filter_append, List.filter_eq_self.mpr (by simp),
      List.filter_eq_nil_iff.mpr (fun k hk => by
        simpa using fun hk' => hdisjoint k hk' k hk rfl), List.append_nil,
      List.filter_cons_of_pos (by simpa using hi)] at hfilter
    exact hfilter
  · have hfilter := hperm.filter fun k => !decide (k ∈ labels l)
    rw [List.filter_append, List.filter_eq_nil_iff.mpr (by simp),
      List.filter_eq_self.mpr (fun k hk => by
        simpa using fun hk' => hdisjoint k hk' k hk rfl), List.nil_append,
      List.filter_cons_of_neg (by simpa using hi)] at hfilter
    exact hfilter

/-- Every tree is listed, up to the order of branches. -/
theorem exists_mem_trees {indices : List ι} (hn : indices.length ≤ n)
    (hnodup : indices.Nodup) {t : Tree (ι × β)} (h : Over v indices t) :
    ∃ u ∈ trees v n indices, Same t u := by
  classical
  induction n generalizing indices t with
  | zero =>
      rw [List.length_eq_zero_iff.mp (Nat.le_zero.mp hn)] at h
      exact absurd h.perm.eq_nil (labels_ne_nil t)
  | succ n ih =>
      cases indices with
      | nil => exact absurd h.perm.eq_nil (labels_ne_nil t)
      | cons i rest =>
          cases rest with
          | nil =>
              cases t with
              | leaf a =>
                  have hi : a.1 = i := List.mem_singleton.mp
                    (h.perm.mem_iff.mp (List.mem_singleton_self a.1))
                  subst hi
                  refine ⟨.leaf a, List.mem_map.mpr ⟨a.2, ?_, rfl⟩, .leaf a⟩
                  exact h.value a (List.mem_singleton_self a)
              | branch l r =>
                  have hlength := h.perm.length_eq
                  have hl := List.length_pos_iff.mpr (labels_ne_nil l)
                  have hr := List.length_pos_iff.mpr (labels_ne_nil r)
                  rw [labels_branch, List.length_append, List.length_singleton] at hlength
                  omega
          | cons j rest =>
              -- the branch with the first label goes to the left
              have hbranch : ∀ l r, Over v (i :: j :: rest) (.branch l r) → i ∈ labels l →
                  ∃ u ∈ trees v (n + 1) (i :: j :: rest), Same (.branch l r) u := by
                intro l r hover hi
                obtain ⟨hl, hr⟩ := hover.split hnodup hi
                have hne : (j :: rest).filter (fun k => !decide (k ∈ labels l)) ≠ [] :=
                  fun hnil => absurd (hnil ▸ hr.perm).eq_nil (labels_ne_nil r)
                have hs : ((j :: rest).filter fun k => decide (k ∈ labels l),
                    (j :: rest).filter fun k => !decide (k ∈ labels l)) ∈
                      (splits (j :: rest)).filter fun s => !s.2.isEmpty :=
                  List.mem_filter.mpr ⟨filter_mem_splits _ _, by simpa using hne⟩
                obtain ⟨_, _, hleft, hright⟩ := mem_filter_splits hs
                simp only [List.length_cons] at hn hleft hright
                have hrest := (List.nodup_cons.mp hnodup).2
                have hnodup' : (i :: (j :: rest).filter fun k => decide (k ∈ labels l)).Nodup :=
                  hnodup.sublist (List.filter_sublist.cons_cons i)
                obtain ⟨u, hu, hsame⟩ :=
                  ih (by simp only [List.length_cons]; omega) hnodup' hl
                obtain ⟨w, hw, hsame'⟩ := ih (by omega) (hrest.sublist List.filter_sublist) hr
                refine ⟨.branch u w, ?_, .branch hsame hsame'⟩
                rw [trees, List.mem_flatMap]
                exact ⟨_, hs, List.mem_flatMap.mpr ⟨u, hu, List.mem_map.mpr ⟨w, hw, rfl⟩⟩⟩
              cases t with
              | leaf a => cases h.perm.length_eq
              | branch l r =>
                  have hi : i ∈ labels l ++ labels r := by
                    rw [← labels_branch]
                    exact h.perm.mem_iff.mpr List.mem_cons_self
                  rcases List.mem_append.mp hi with hi | hi
                  · exact hbranch l r h hi
                  · have hswap : Over v (i :: j :: rest) (.branch r l) := by
                      refine ⟨?_, fun x hx => h.value x (List.mem_append.mpr
                        (List.mem_append.mp hx).symm)⟩
                      rw [labels_branch]
                      exact List.perm_append_comm.trans (labels_branch l r ▸ h.perm)
                    obtain ⟨u, hu, hsame⟩ := hbranch r l hswap hi
                    exact ⟨u, hu, Same.trans (.swap (.refl l) (.refl r)) hsame⟩

theorem Same.branches {i : ι} {a b c d : Tree (ι × β)} (h : Same (.branch a b) (.branch c d))
    (ha : i ∈ labels a) (hd : i ∉ labels d) : Same a c ∧ Same b d := by
  cases h with
  | branch hl hr => exact ⟨hl, hr⟩
  | swap hl _ => exact absurd (hl.labels_perm.mem_iff.mp ha) hd

/-- No tree is listed twice. -/
theorem trees_distinct {indices : List ι} (hn : indices.length ≤ n) (hnodup : indices.Nodup)
    (hv : ∀ i, (v i).Nodup) : (trees v n indices).Pairwise fun t t' => ¬ Same t t' := by
  induction n generalizing indices with
  | zero => exact .nil
  | succ n ih =>
      cases indices with
      | nil => exact .nil
      | cons i rest =>
          cases rest with
          | nil =>
              rw [trees, List.pairwise_map]
              refine (hv i).imp fun {x y} hne hsame => ?_
              cases hsame
              exact hne rfl
          | cons j rest =>
              obtain ⟨hi, hrest⟩ := List.nodup_cons.mp hnodup
              have hfacts : ∀ s ∈ (splits (j :: rest)).filter (fun s => !s.2.isEmpty),
                  (i :: s.1).length ≤ n ∧ s.2.length ≤ n ∧ (i :: s.1).Nodup ∧ s.2.Nodup ∧
                    i ∉ s.2 := by
                intro s hs
                obtain ⟨hs, _, hleft, hright⟩ := mem_filter_splits hs
                have hperm := perm_of_mem_splits hs
                obtain ⟨hnodup₁, hnodup₂, _⟩ := List.nodup_append.mp (hperm.nodup_iff.mpr hrest)
                simp only [List.length_cons] at hn hleft hright ⊢
                refine ⟨by omega, by omega, List.nodup_cons.mpr ⟨fun h => hi ?_, hnodup₁⟩,
                  hnodup₂, fun h => hi ?_⟩
                · exact hperm.mem_iff.mp (List.mem_append_left _ h)
                · exact hperm.mem_iff.mp (List.mem_append_right _ h)
              -- the branches of what is listed
              have hlabels : ∀ s ∈ (splits (j :: rest)).filter (fun s => !s.2.isEmpty),
                  (∀ l ∈ trees v n (i :: s.1), i ∈ labels l ∧ (labels l).Perm (i :: s.1)) ∧
                    ∀ r ∈ trees v n s.2, i ∉ labels r := by
                intro s hs
                obtain ⟨hlen₁, hlen₂, _, _, hnot⟩ := hfacts s hs
                refine ⟨fun l hl => ?_, fun r hr hmem => ?_⟩
                · have hperm := (over_of_mem_trees hlen₁ hl).perm
                  exact ⟨hperm.mem_iff.mpr List.mem_cons_self, hperm⟩
                · exact hnot ((over_of_mem_trees hlen₂ hr).perm.mem_iff.mp hmem)
              rw [trees, List.pairwise_flatMap]
              refine ⟨fun s hs => ?_, ?_⟩
              · obtain ⟨hlen₁, hlen₂, hnodup₁, hnodup₂, _⟩ := hfacts s hs
                obtain ⟨hl, hr⟩ := hlabels s hs
                rw [List.pairwise_flatMap]
                refine ⟨fun l hl' => ?_, ?_⟩
                · rw [List.pairwise_map]
                  refine (ih hlen₂ hnodup₂).imp_of_mem fun {r r'} _ hr' hne hsame => hne ?_
                  exact (hsame.branches (hl l hl').1 (hr r' hr')).2
                · refine (ih hlen₁ hnodup₁).imp_of_mem fun {l l'} hl' _ hne x hx y hy hsame => ?_
                  obtain ⟨r, _, rfl⟩ := List.mem_map.mp hx
                  obtain ⟨r', hr', rfl⟩ := List.mem_map.mp hy
                  exact hne (hsame.branches (hl l hl').1 (hr r' hr')).1
              · have hsplits := (splits_distinct hrest).filter fun s => !s.2.isEmpty
                refine hsplits.imp_of_mem fun {s s'} hs hs' hne x hx y hy hsame => hne ?_
                obtain ⟨l, hl', hx⟩ := List.mem_flatMap.mp hx
                obtain ⟨r, _, rfl⟩ := List.mem_map.mp hx
                obtain ⟨l', hl'', hy⟩ := List.mem_flatMap.mp hy
                obtain ⟨r', hr', rfl⟩ := List.mem_map.mp hy
                obtain ⟨hi', hperm⟩ := (hlabels s hs).1 l hl'
                have hboth := (hsame.branches hi' ((hlabels s' hs').2 r' hr')).1.labels_perm
                exact ((hperm.symm.trans hboth).trans ((hlabels s' hs').1 l' hl'').2).cons_inv

theorem sum_map_filter {γ : Type} (p : γ → Bool) (f : γ → ℕ) (l : List γ) :
    ((l.filter p).map f).sum = (l.map fun a => if p a then f a else 0).sum := by
  induction l with
  | nil => rfl
  | cons a l ih =>
      cases hp : p a with
      | true => simp [hp, ih]
      | false => simp [hp, ih]

/-- For each tree one with every combination of values. -/
theorem length_trees {indices : List ι} (hn : indices.length ≤ n) (hne : indices ≠ []) :
    (trees v n indices).length =
      (2 * indices.length - 3)‼ * (indices.map fun i => (v i).length).prod := by
  induction n generalizing indices with
  | zero => exact absurd (List.length_eq_zero_iff.mp (Nat.le_zero.mp hn)) hne
  | succ n ih =>
      cases indices with
      | nil => exact absurd rfl hne
      | cons i rest =>
          cases rest with
          | nil => simp [trees]
          | cons j rest =>
              obtain ⟨values, hvalues⟩ :
                  ∃ values : List ι → ℕ, values = fun l => (l.map fun i => (v i).length).prod :=
                ⟨_, rfl⟩
              obtain ⟨f, hf⟩ : ∃ f : ℕ → ℕ → ℕ, f = fun a b =>
                  if b = 0 then 0 else (2 * (a + 1) - 3)‼ * (2 * b - 3)‼ := ⟨_, rfl⟩
              have hsplit : ∀ s ∈ splits (j :: rest),
                  (if !s.2.isEmpty then ((trees v n (i :: s.1)).flatMap fun left =>
                    (trees v n s.2).map fun right => Tree.branch left right).length else 0) =
                      values (i :: j :: rest) * f s.1.length s.2.length := by
                intro s hs
                cases hempty : s.2.isEmpty with
                | true =>
                    rw [List.isEmpty_iff.mp hempty, hf]
                    simp
                | false =>
                    obtain ⟨_, hne', hleft, hright⟩ :=
                      mem_filter_splits (List.mem_filter.mpr ⟨hs, by simp [hempty]⟩)
                    simp only [List.length_cons] at hn hleft hright
                    have hl := @ih (i :: s.1) (by simp only [List.length_cons]; omega)
                      (List.cons_ne_nil _ _)
                    have hr := @ih s.2 (by omega) hne'
                    have hprod : values (i :: s.1) * values s.2 = values (i :: j :: rest) := by
                      subst hvalues
                      have hperm := ((perm_of_mem_splits hs).cons i).map fun i => (v i).length
                      simp only at hperm ⊢
                      rw [← hperm.prod_eq, ← List.cons_append, List.map_append, List.prod_append]
                    have hpos : s.2.length ≠ 0 := fun h => hne' (List.length_eq_zero_iff.mp h)
                    subst hf
                    subst hvalues
                    rw [← hprod]
                    simp only [Bool.not_false, if_true, if_neg hpos, List.length_flatMap,
                      List.length_map, List.map_const', List.sum_replicate, smul_eq_mul, hl, hr,
                      List.length_cons]
                    ring
              rw [trees, List.length_flatMap, sum_map_filter, List.map_congr_left hsplit,
                List.sum_map_mul_left, sum_splits, List.length_cons,
                Finset.Nat.sum_antidiagonal_succ']
              have hterm : ∀ ij ∈ antidiagonal rest.length,
                  (rest.length + 1).choose ij.1 * f ij.1 (ij.2 + 1) =
                    (rest.length + 1).choose ij.1 * ((2 * ij.1 - 1)‼ * (2 * ij.2 - 1)‼) := by
                intro ij _
                rw [hf]
                simp only [if_neg (Nat.succ_ne_zero ij.2)]
                rw [show 2 * (ij.1 + 1) - 3 = 2 * ij.1 - 1 by omega,
                  show 2 * (ij.2 + 1) - 3 = 2 * ij.2 - 1 by omega]
              have hlast : f (rest.length + 1) 0 = 0 := by
                rw [hf]
                rfl
              rw [sum_congr rfl hterm, sum_choose_doubleFactorial, hlast, hvalues]
              simp only [List.length_cons]
              rw [show 2 * (rest.length + 1 + 1) - 3 = 2 * (rest.length + 1) - 1 by omega]
              ring

end Vanadium.Lib.LeafTrees
