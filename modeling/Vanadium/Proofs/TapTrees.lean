import Vanadium.Lib.LeafTrees
import Vanadium.Proofs.Derivations

/-!
# Trees over the leaves of a description

A mask says which of the other leaves go to the left, with the first one. The masks, in
ascending order, are the splits of a list, and the one with all bits set is left out: so
the trees that are yielded are those of the library, one for each unordered tree.

The masks have 64 bits. For 65 leaves there are 64 others, and one bit more would be
needed for the number of masks.
-/

namespace Vanadium.Bip388.Cleartext

open Lib LeafTrees
open scoped Nat

/-! ## Masks -/

/-- The leaves that go to the left and to the right. -/
def split_by (mask : ℕ) (l : List ℕ) : List ℕ × List ℕ :=
  ((l.zipIdx.filter fun x => mask.testBit x.2).map Prod.fst,
    (l.zipIdx.filter fun x => !mask.testBit x.2).map Prod.fst)

theorem split_by_congr {mask mask' : ℕ} {l : List ℕ}
    (h : ∀ i < l.length, mask.testBit i = mask'.testBit i) :
    split_by mask l = split_by mask' l := by
  have hbit : ∀ x ∈ l.zipIdx, mask.testBit x.2 = mask'.testBit x.2 := fun x hx =>
    h x.2 (List.snd_lt_of_mem_zipIdx hx)
  rw [split_by, split_by, List.filter_congr hbit,
    List.filter_congr fun x hx => congrArg Bool.not (hbit x hx)]

theorem split_by_concat (mask : ℕ) (l : List ℕ) (i : ℕ) :
    split_by mask (l ++ [i]) =
      if mask.testBit l.length then ((split_by mask l).1 ++ [i], (split_by mask l).2)
      else ((split_by mask l).1, (split_by mask l).2 ++ [i]) := by
  cases hbit : mask.testBit l.length with
  | true => simp [split_by, List.zipIdx_append, hbit]
  | false => simp [split_by, List.zipIdx_append, hbit]

/-- The masks are the splits, in the same order. -/
theorem map_split_by (l : List ℕ) :
    (List.range (2 ^ l.length)).map (fun mask => split_by mask l) = splits l := by
  induction l using List.reverseRecOn with
  | nil => rfl
  | append_singleton l i ih =>
      have hlow : ∀ mask ∈ List.range (2 ^ l.length), split_by mask (l ++ [i]) =
          ((split_by mask l).1, (split_by mask l).2 ++ [i]) := fun mask hmask => by
        rw [split_by_concat, Nat.testBit_lt_two_pow (List.mem_range.mp hmask)]
        rfl
      have hhigh : ∀ mask ∈ List.range (2 ^ l.length),
          split_by (2 ^ l.length + mask) (l ++ [i]) =
            ((split_by mask l).1 ++ [i], (split_by mask l).2) := fun mask hmask => by
        have hsame : split_by (2 ^ l.length + mask) l = split_by mask l :=
          split_by_congr fun j hj => Nat.testBit_two_pow_add_gt hj mask
        rw [split_by_concat, Nat.testBit_two_pow_add_eq,
          Nat.testBit_lt_two_pow (List.mem_range.mp hmask), hsame]
        rfl
      rw [List.length_append, List.length_singleton, pow_succ, mul_two, List.range_add,
        List.map_append, List.map_map, splits_concat, ← ih, List.map_map, List.map_map,
        List.map_congr_left hlow]
      exact congrArg _ (List.map_congr_left hhigh)

theorem split_by_length (mask : ℕ) (l : List ℕ) :
    (split_by mask l).1.length = ((List.range l.length).filter mask.testBit).length := by
  induction l using List.reverseRecOn with
  | nil => rfl
  | append_singleton l i ih =>
      rw [split_by_concat, List.length_append, List.length_singleton, List.range_succ,
        List.filter_append, List.length_append, ← ih]
      cases hbit : mask.testBit l.length with
      | true => simp [hbit]
      | false => simp [hbit]

theorem count_ones_eq {mask n : ℕ} (hn : n ≤ 64) (h : mask < 2 ^ n) :
    count_ones mask = ((List.range n).filter mask.testBit).length := by
  have hhigh : ∀ i ∈ (List.range (64 - n)).map (n + ·), ¬ mask.testBit i = true := by
    intro i hi
    obtain ⟨k, _, rfl⟩ := List.mem_map.mp hi
    rw [Nat.testBit_lt_two_pow (lt_of_lt_of_le h (Nat.pow_le_pow_right Nat.two_pos (by omega)))]
    exact Bool.false_ne_true
  have hsplit : List.range 64 = List.range n ++ (List.range (64 - n)).map (n + ·) := by
    rw [← List.range_add, Nat.add_sub_cancel' hn]
  rw [count_ones, hsplit, List.filter_append, List.filter_eq_nil_iff.mpr hhigh, List.append_nil]

/-- Masks that do not have all bits set leave something for the right. -/
theorem count_ones_lt {mask : ℕ} {l : List ℕ} (hl : l.length ≤ 64) (h : mask < 2 ^ l.length) :
    decide (l.length > count_ones mask) = !(split_by mask l).2.isEmpty := by
  have hmem : split_by mask l ∈ splits l := by
    rw [← map_split_by]
    exact List.mem_map_of_mem (List.mem_range.mpr h)
  have hlength := (perm_of_mem_splits hmem).length_eq
  rw [List.length_append, split_by_length, ← count_ones_eq hl h] at hlength
  cases hright : (split_by mask l).2 with
  | nil =>
      rw [hright, List.length_nil] at hlength
      exact decide_eq_false (by omega)
  | cons i right =>
      rw [hright, List.length_cons] at hlength
      exact decide_eq_true (by omega)

/-! ## Trees -/

variable {leaf_variants : List (List DescriptorTemplate)}

/-- Which variants there are for a leaf. -/
def variants (leaf_variants : List (List DescriptorTemplate)) (i : ℕ) : List ℕ :=
  List.range (leaf_variants.getD i []).length

/-- A tree with the variants that its leaves stand for. -/
def graft (leaf_variants : List (List DescriptorTemplate)) : LeafTrees.Tree (ℕ × ℕ) → TapTree
  | .leaf x => .script ((leaf_variants.getD x.1 []).getD x.2 .zero)
  | .branch left right => .branch (graft leaf_variants left) (graft leaf_variants right)

theorem graft_variants {i : ℕ} (h : i < leaf_variants.length) :
    ∃ l, leaf_variants[i]? = some l ∧
      ((variants leaf_variants i).map fun k => graft leaf_variants (.leaf (i, k))) =
        l.map .script := by
  have hget := List.getElem?_eq_getElem h
  have hgetD : leaf_variants.getD i [] = leaf_variants[i] := by
    rw [List.getD_eq_getElem?_getD, hget, Option.getD_some]
  refine ⟨_, hget, List.ext_getElem? fun k => ?_⟩
  rw [variants, List.getElem?_map, List.getElem?_map, hgetD]
  rcases Nat.lt_or_ge k leaf_variants[i].length with hk | hk
  · rw [List.getElem?_range hk, List.getElem?_eq_getElem hk, Option.map_some, Option.map_some,
      graft, hgetD, List.getD_eq_getElem?_getD, List.getElem?_eq_getElem hk, Option.getD_some]
  · rw [List.getElem?_eq_none (by simpa using hk), List.getElem?_eq_none hk]
    rfl

/-- The trees for a mask. -/
def trees_of (leaf_variants : List (List DescriptorTemplate)) (fuel first : ℕ)
    (s : List ℕ × List ℕ) : List TapTree :=
  ((LeafTrees.trees (variants leaf_variants) fuel (first :: s.1)).flatMap fun left =>
    (LeafTrees.trees (variants leaf_variants) fuel s.2).map fun right => .branch left right).map
      (graft leaf_variants)

theorem trees_of_eq (fuel first : ℕ) (s : List ℕ × List ℕ) :
    trees_of leaf_variants fuel first s =
      ((LeafTrees.trees (variants leaf_variants) fuel (first :: s.1)).map
        (graft leaf_variants)).flatMap fun lt =>
          ((LeafTrees.trees (variants leaf_variants) fuel s.2).map
            (graft leaf_variants)).map fun rt => .branch lt rt := by
  rw [trees_of, List.map_flatMap, List.flatMap_map]
  simp only [List.map_map, Function.comp_def, graft]

theorem mem_split_by {mask i : ℕ} {l : List ℕ} (hmask : mask < 2 ^ l.length)
    (hi : i ∈ (split_by mask l).1 ∨ i ∈ (split_by mask l).2) : i ∈ l := by
  have hmem : split_by mask l ∈ splits l := by
    rw [← map_split_by]
    exact List.mem_map_of_mem (List.mem_range.mpr hmask)
  exact (perm_of_mem_splits hmem).mem_iff.mp (List.mem_append.mpr hi)

theorem enumerate_taptrees_indices_eq {fuel : ℕ} {indices : List ℕ} (hfuel : indices.length ≤ fuel)
    (hbound : indices.length ≤ 64) (hne : indices ≠ [])
    (hindices : ∀ i ∈ indices, i < leaf_variants.length) :
    enumerate_taptrees_indices leaf_variants fuel indices =
      some ((LeafTrees.trees (variants leaf_variants) fuel indices).map (graft leaf_variants)) := by
  induction fuel generalizing indices with
  | zero => exact absurd (List.length_eq_zero_iff.mp (Nat.le_zero.mp hfuel)) hne
  | succ fuel ih =>
      cases indices with
      | nil => exact absurd rfl hne
      | cons first rest =>
          cases rest with
          | nil =>
              obtain ⟨l, hl, hgraft⟩ := graft_variants (hindices _ List.mem_cons_self)
              rw [enumerate_taptrees_indices, hl, LeafTrees.trees, List.map_map]
              exact congrArg some hgraft.symm
          | cons next others =>
              obtain ⟨rest, hrest⟩ : ∃ rest, rest = next :: others := ⟨_, rfl⟩
              have hlength : rest.length ≤ 63 ∧ rest.length ≤ fuel := by
                rw [hrest]
                simp only [List.length_cons] at hbound hfuel ⊢
                omega
              have hone : shift_one rest.length = some (2 ^ rest.length) := if_pos (by omega)
              have hfilter : (splits rest).filter (fun s => !s.2.isEmpty) =
                  ((List.range (2 ^ rest.length)).filter
                    fun mask => rest.length > count_ones mask).map
                      fun mask => split_by mask rest := by
                rw [← map_split_by, List.filter_map]
                refine congrArg _ (List.filter_congr fun mask hmask => ?_)
                exact (count_ones_lt (by omega) (List.mem_range.mp hmask)).symm
              rw [enumerate_taptrees_indices, LeafTrees.trees, ← hrest, hone]
              simp only [Option.bind_eq_bind, Option.bind_some, List.partition_eq_filter_filter]
              rw [Orders.mapM_eq_some (g := fun mask =>
                trees_of leaf_variants fuel first (split_by mask rest)) ?each, Option.bind_some,
                ← List.flatMap_def, hfilter, List.map_flatMap, List.flatMap_map]
              · rfl
              · intro mask hmask
                obtain ⟨hrange, hcount⟩ := List.mem_filter.mp hmask
                have hlt := List.mem_range.mp hrange
                rw [count_ones_lt (by omega) hlt] at hcount
                have hmem : split_by mask rest ∈ (splits rest).filter fun s => !s.2.isEmpty := by
                  rw [hfilter]
                  exact List.mem_map_of_mem hmask
                obtain ⟨_, hne', hleft, hright⟩ := mem_filter_splits hmem
                have hless : ∀ i ∈ first :: rest, i < leaf_variants.length := by
                  rw [hrest]
                  exact hindices
                have hl := @ih (first :: (split_by mask rest).1)
                  (by simp only [List.length_cons]; omega)
                  (by simp only [List.length_cons]; omega) (List.cons_ne_nil _ _) fun i hi => by
                    rcases List.mem_cons.mp hi with rfl | hi
                    · exact hless _ List.mem_cons_self
                    · exact hless i (List.mem_cons_of_mem _ (mem_split_by hlt (.inl hi)))
                have hr := @ih (split_by mask rest).2 (by omega) (by omega) hne'
                  fun i hi => hless i (List.mem_cons_of_mem _ (mem_split_by hlt (.inr hi)))
                rw [split_by] at hl hr
                simp only [Function.comp_def, hl, hr, Option.bind_some]
                rw [trees_of_eq]
                rfl

theorem enumerate_taptrees_eq (hne : leaf_variants ≠ []) (hbound : leaf_variants.length ≤ 64) :
    enumerate_taptrees leaf_variants =
      some ((LeafTrees.trees (variants leaf_variants) leaf_variants.length
        (List.range leaf_variants.length)).map (graft leaf_variants)) := by
  have hindices := @enumerate_taptrees_indices_eq leaf_variants
    leaf_variants.length (List.range leaf_variants.length)
    (by rw [List.length_range]) (by rwa [List.length_range])
    (fun h => hne (List.length_eq_zero_iff.mp (List.range_eq_nil.mp h)))
    fun i hi => List.mem_range.mp hi
  cases leaf_variants with
  | nil => exact absurd rfl hne
  | cons first rest =>
      cases rest with
      | nil =>
          rw [← hindices]
          rfl
      | cons next others => exact hindices

theorem enumerate_taptrees_overflow (h : 64 < leaf_variants.length) :
    enumerate_taptrees leaf_variants = none := by
  cases leaf_variants with
  | nil => cases h
  | cons first rest =>
      cases rest with
      | nil => simp at h
      | cons next others =>
          obtain ⟨n, hn⟩ : ∃ n, others.length = n + 63 := ⟨others.length - 63, by
            simp only [List.length_cons] at h
            omega⟩
          have hrange : List.range (n + 63 + 1 + 1) = 0 :: 1 :: List.range' 2 (n + 63) := by
            rw [List.range_eq_range', List.range'_succ, List.range'_succ]
          have hnone : shift_one (1 :: List.range' 2 (n + 63)).length = none := by
            rw [List.length_cons, List.length_range']
            exact if_neg (by omega)
          change enumerate_taptrees_indices _ (others.length + 1 + 1)
            (List.range (others.length + 1 + 1)) = none
          rw [hn, hrange, enumerate_taptrees_indices, hnone]
          rfl

/-! ## What is enumerated -/

/-- Every unordered tree over the leaves, with every combination of variants, once. -/
def TreesListed (leaf_variants : List (List DescriptorTemplate)) : Prop :=
  ∃ l : List (LeafTrees.Tree (ℕ × ℕ)),
    enumerate_taptrees leaf_variants = some (l.map (graft leaf_variants)) ∧
    l.Pairwise (fun t u => ¬ Same t u) ∧
    (∀ t ∈ l, Over (variants leaf_variants) (List.range leaf_variants.length) t) ∧
    (∀ t, Over (variants leaf_variants) (List.range leaf_variants.length) t →
      ∃ u ∈ l, Same t u) ∧
    l.length = (2 * leaf_variants.length - 3)‼ * (leaf_variants.map List.length).prod

/-- Every order of `0..n` once. -/
def OrdersListed (n : ℕ) : Prop :=
  ∃ l, PermutationIter.orders n = some l ∧ l.Nodup ∧
    (∀ order, order ∈ l ↔ order.Perm (List.range n)) ∧ l.length = n !

/-- Every assignment of the derivations once. -/
def AssignmentsListed (base : DescriptorTemplate) : Prop :=
  ∃ l, expand_derivation_orderings base = some l ∧ l.Nodup ∧ (∀ t, t ∈ l ↔ Assigns base t) ∧
    l.length = ((base.key_exprs.map (·.key_type)).dedup.map fun key =>
      (base.key_exprs.countP fun kp => kp.key_type = key)!).prod

theorem treesListed_iff (hne : leaf_variants ≠ []) :
    TreesListed leaf_variants ↔ leaf_variants.length ≤ 64 := by
  refine ⟨fun ⟨l, hl, _⟩ => ?_, fun hbound => ?_⟩
  · by_contra hlong
    rw [enumerate_taptrees_overflow (not_le.mp hlong)] at hl
    cases hl
  · have hlength : (List.range leaf_variants.length).length ≤ leaf_variants.length := by
      rw [List.length_range]
    have hvalues : (List.range leaf_variants.length).map
        (fun i => (variants leaf_variants i).length) = leaf_variants.map List.length := by
      refine List.ext_getElem? fun i => ?_
      rw [List.getElem?_map, List.getElem?_map]
      rcases Nat.lt_or_ge i leaf_variants.length with hi | hi
      · rw [List.getElem?_range hi, Option.map_some, List.getElem?_eq_getElem hi, Option.map_some,
          variants, List.length_range, List.getD_eq_getElem?_getD, List.getElem?_eq_getElem hi,
          Option.getD_some]
      · rw [List.getElem?_eq_none (by simpa using hi), List.getElem?_eq_none hi]
        rfl
    have hcount := length_trees (v := variants leaf_variants) hlength fun h =>
      hne (List.length_eq_zero_iff.mp (List.range_eq_nil.mp h))
    rw [List.length_range, hvalues] at hcount
    exact ⟨_, enumerate_taptrees_eq hne hbound, trees_distinct hlength List.nodup_range
        fun _ => List.nodup_range,
      fun t ht => over_of_mem_trees hlength ht,
      fun t ht => exists_mem_trees hlength List.nodup_range ht, hcount⟩

theorem ordersListed {n : ℕ} (h : 0 < n) : OrdersListed n :=
  ⟨_, orders_eq h, Orders.nodup_orders List.nodup_range,
    fun _ => Orders.mem_orders List.length_range, Orders.length_orders List.length_range⟩

theorem assignmentsListed_iff (base : DescriptorTemplate) :
    AssignmentsListed base ↔
      ∀ key, (base.key_exprs.countP fun kp => kp.key_type = key) ≤ 2 ^ 31 := by
  refine ⟨fun ⟨l, hl, _⟩ key => ?_, fun h => expand_derivation_orderings_exact base h⟩
  by_contra hmany
  rw [expand_derivation_orderings_overflow (not_le.mp hmany)] at hl
  cases hl

/-- The enumerations are exact as long as their integers do not overflow. -/
theorem enumerations_exact {n : ℕ} (hn : 0 < n) {leaf_variants : List (List DescriptorTemplate)}
    (hne : leaf_variants ≠ []) (base : DescriptorTemplate) :
    (TreesListed leaf_variants ∧ OrdersListed n ∧ AssignmentsListed base) ↔
      leaf_variants.length ≤ 64 ∧
        ∀ key, (base.key_exprs.countP fun kp => kp.key_type = key) ≤ 2 ^ 31 := by
  rw [treesListed_iff hne, assignmentsListed_iff]
  exact and_congr_right fun _ => and_iff_right (ordersListed hn)

theorem enumerations_exact_two :
    TreesListed [[.zero], [.one, .older 1]] ∧ OrdersListed 2 ∧ AssignmentsListed .zero :=
  (enumerations_exact (by decide) (by decide) .zero).mpr ⟨by decide, fun _ => Nat.zero_le _⟩

/-- For 65 leaves the number of masks is not one of 64 bits. -/
theorem taptrees_mask_overflows :
    ¬ (TreesListed (List.replicate 65 [.zero]) ∧ OrdersListed 1 ∧ AssignmentsListed .zero) := by
  rintro ⟨htrees, _, _⟩
  have hbound := (treesListed_iff (by decide)).mp htrees
  rw [List.length_replicate] at hbound
  omega

end Vanadium.Bip388.Cleartext
