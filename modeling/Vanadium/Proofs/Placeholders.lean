import Vanadium.Proofs.Pieces

/-!
# Placeholders

The iterators have stacks of what is still to be looked at. What they yield before
the rest of the stack are the key expressions of what is on top, in the order in
which these are printed.
-/

namespace Vanadium.Bip388

open Lib DescriptorTemplate

/-! ## The key expressions of pieces -/

def placeholders_of (ps : List Piece) : List (Ref KeyExpression × Leaf) :=
  ps.filterMap Piece.placeholder

@[simp] theorem placeholders_of_nil : placeholders_of [] = [] := rfl

@[simp] theorem placeholders_of_text (t : Text) (ps : List Piece) :
    placeholders_of (.text t :: ps) = placeholders_of ps := rfl

@[simp] theorem placeholders_of_key (kp : Ref KeyExpression) (leaf : Leaf) (ps : List Piece) :
    placeholders_of (.key kp leaf :: ps) = (kp, leaf) :: placeholders_of ps := rfl

@[simp] theorem placeholders_of_append (ps qs : List Piece) :
    placeholders_of (ps ++ qs) = placeholders_of ps ++ placeholders_of qs :=
  List.filterMap_append

@[simp] theorem placeholders_of_enclosed (name : String) (ps : List Piece) :
    placeholders_of (enclosed name ps) = placeholders_of ps := by
  simp [enclosed]

@[simp] theorem placeholders_of_letter (c : Char) (inner : DescriptorTemplate) (ps : List Piece) :
    placeholders_of (inner.letter c ps) = placeholders_of ps := rfl

theorem placeholders_of_key_pieces (path : List ℕ) (leaf : Leaf) (i : ℕ)
    (kps : List KeyExpression) :
    placeholders_of (key_pieces path leaf i kps) =
      (Ref.parts path i kps).map fun key => (key, leaf) := by
  induction kps generalizing i with
  | nil => rfl
  | cons kp kps ih => simp [key_pieces, Ref.parts, ih]

@[simp] theorem placeholders_of_threshold_pieces (path : List ℕ) (leaf : Leaf)
    (name : String) (k : U32) (kps : List KeyExpression) :
    placeholders_of (threshold_pieces path leaf name k kps) =
      (Ref.parts path 0 kps).map fun key => (key, leaf) := by
  simp [threshold_pieces, placeholders_of_key_pieces]

/-! ## Leaves -/

/-- The leaves from left to right. -/
def leaves (path : List ℕ) : TapTree → List (Ref DescriptorTemplate)
  | .script desc => [⟨0 :: path, desc⟩]
  | .branch left right => leaves (0 :: path) left ++ leaves (1 :: path) right

theorem tapleavesIter_collect (stack : List (Ref TapTree)) :
    TapleavesIter.collect stack = stack.flatMap fun node => leaves node.path node.val := by
  fun_induction TapleavesIter.collect stack with
  | case1 => rfl
  | case2 path desc stack ih => rw [ih]; rfl
  | case3 path left right stack ih =>
      rw [ih]
      simp only [List.flatMap_cons, leaves, List.append_assoc]

theorem leaf_ptrs_eq (stack : List (Ref TapTree)) (ptrs : List (Ref DescriptorTemplate)) :
    leaf_ptrs stack ptrs = ptrs ++ stack.flatMap fun node => leaves node.path node.val := by
  fun_induction leaf_ptrs stack ptrs with
  | case1 ptrs => rw [List.flatMap_nil, List.append_nil]
  | case2 path desc stack ptrs ih =>
      rw [ih, List.append_assoc]
      rfl
  | case3 path left right stack ptrs ih =>
      rw [ih]
      simp only [List.flatMap_cons, leaves, List.append_assoc]

theorem tapleaves_eq (tree : Ref TapTree) : tapleaves tree = leaves tree.path tree.val := by
  rw [tapleaves, tapleavesIter_collect, List.flatMap_cons, List.flatMap_nil, List.append_nil]

/-! ## The iterator -/

namespace DescriptorTemplateIter

/-- The placeholders on the stack come first. -/
theorem yields_placeholders {fragments : List (Ref DescriptorTemplate × Leaf)}
    {items : List (Ref KeyExpression × Leaf)} (h : Yields turn ⟨fragments, []⟩ items)
    (placeholders : List (Ref KeyExpression × Leaf)) :
    Yields turn ⟨fragments, placeholders⟩ (placeholders ++ items) := by
  induction placeholders with
  | nil => exact h
  | cons item placeholders ih => exact .item rfl ih

mutual

/-- A fragment on top of the stack yields its key expressions. -/
theorem yields_fragment (path : List ℕ) (leaf : Leaf) : (t : DescriptorTemplate) →
    {fragments : List (Ref DescriptorTemplate × Leaf)} →
    {items : List (Ref KeyExpression × Leaf)} → Yields turn ⟨fragments, []⟩ items →
    Yields turn ⟨(⟨path, t⟩, leaf) :: fragments, []⟩
      (placeholders_of (t.pieces path leaf) ++ items)
  | sh inner, _, _, h | wsh inner, _, _, h => by
      simpa [pieces] using Yields.skip rfl (yields_fragment (0 :: path) leaf inner h)
  | a inner, _, _, h | s inner, _, _, h | c inner, _, _, h | t inner, _, _, h | d inner, _, _, h
  | v inner, _, _, h | j inner, _, _, h | n inner, _, _, h | l inner, _, _, h
  | u inner, _, _, h => by
      simpa [pieces] using Yields.skip rfl (yields_fragment (0 :: path) leaf inner h)
  | pkh kp, _, _, h | wpkh kp, _, _, h | pk kp, _, _, h | pk_k kp, _, _, h | pk_h kp, _, _, h => by
      simpa [pieces] using Yields.item rfl h
  | sortedmulti k kps, _, _, h | sortedmulti_a k kps, _, _, h | multi k kps, _, _, h
  | multi_a k kps, _, _, h => by
      have hkeys := yields_placeholders h ((Ref.parts path 0 kps).map fun key => (key, leaf))
      rw [pieces, placeholders_of_threshold_pieces]
      exact Yields.skip rfl hkeys
  | tr kp tree, _, _, h => by
      have htree := yields_tree path tree h
      rw [pieces, placeholders_of_enclosed, placeholders_of_key, List.cons_append]
      exact Yields.skip rfl (yields_placeholders htree [(⟨0 :: path, kp⟩, none)])
  | zero, _, _, h | one, _, _, h | older _, _, _, h | after _, _, _, h | sha256 _, _, _, h
  | ripemd160 _, _, _, h | hash256 _, _, _, h | hash160 _, _, _, h => by
      simpa [pieces] using Yields.skip rfl h
  | andor x y z, _, _, h => by
      have hx := yields_fragment (0 :: path) leaf x
        (yields_fragment (1 :: path) leaf y (yields_fragment (2 :: path) leaf z h))
      simpa [pieces] using Yields.skip rfl hx
  | and_v x y, _, _, h | and_b x y, _, _, h | and_n x y, _, _, h | or_b x y, _, _, h
  | or_c x y, _, _, h | or_d x y, _, _, h | or_i x y, _, _, h => by
      have hx := yields_fragment (0 :: path) leaf x (yields_fragment (1 :: path) leaf y h)
      simpa [pieces] using Yields.skip rfl hx
  | thresh k descs, _, _, h => by
      simpa [pieces] using Yields.skip rfl (yields_scripts path leaf 0 descs h)

theorem yields_scripts (path : List ℕ) (leaf : Leaf) :
    (i : ℕ) → (descs : List DescriptorTemplate) →
    {fragments : List (Ref DescriptorTemplate × Leaf)} →
    {items : List (Ref KeyExpression × Leaf)} → Yields turn ⟨fragments, []⟩ items →
    Yields turn ⟨(Ref.parts path i descs).map (fun desc => (desc, leaf)) ++ fragments, []⟩
      (placeholders_of (script_pieces path leaf i descs) ++ items)
  | _, [], _, _, h => h
  | i, desc :: descs, _, _, h => by
      simpa [script_pieces, Ref.parts] using
        yields_fragment (i :: path) leaf desc (yields_scripts path leaf (i + 1) descs h)

theorem yields_tree (path : List ℕ) : (tree : Option TapTree) →
    {fragments : List (Ref DescriptorTemplate × Leaf)} →
    {items : List (Ref KeyExpression × Leaf)} → Yields turn ⟨fragments, []⟩ items →
    Yields turn ⟨((tree.map fun t => tapleaves ⟨1 :: path, t⟩).getD []).map
        (fun leaf => (leaf, some leaf)) ++ fragments, []⟩
      (placeholders_of (tree_pieces path tree) ++ items)
  | none, _, _, h => h
  | some tree, _, _, h => by
      rw [Option.map_some, Option.getD_some, tapleaves_eq]
      exact yields_tap_tree (1 :: path) tree h

theorem yields_tap_tree (path : List ℕ) : (tree : TapTree) →
    {fragments : List (Ref DescriptorTemplate × Leaf)} →
    {items : List (Ref KeyExpression × Leaf)} → Yields turn ⟨fragments, []⟩ items →
    Yields turn ⟨(leaves path tree).map (fun leaf => (leaf, some leaf)) ++ fragments, []⟩
      (placeholders_of (tap_tree_pieces path tree) ++ items)
  | .script desc, _, _, h => yields_fragment (0 :: path) (some ⟨0 :: path, desc⟩) desc h
  | .branch left right, _, _, h => by
      have hleft := yields_tap_tree (0 :: path) left (yields_tap_tree (1 :: path) right h)
      simpa [tap_tree_pieces, leaves] using hleft

end

end DescriptorTemplateIter

/-! ## The iterator of pointers -/

/-- The same iterator, without the leaves. -/
def DescriptorTemplateIter.forget (it : DescriptorTemplateIter) : DescriptorTemplateIterMut where
  fragments := it.fragments.map Prod.fst
  placeholders := it.placeholders.map Prod.fst

theorem fst_comp_pair {α β : Type} (f : α → β) : (Prod.fst ∘ fun a => (a, f a)) = id := rfl

/-- It takes the same turns. -/
theorem turn_forget (it : DescriptorTemplateIter) :
    DescriptorTemplateIterMut.turn it.forget =
      (DescriptorTemplateIter.turn it).map fun r => (r.1.map Prod.fst, r.2.forget) := by
  obtain ⟨fragments, placeholders⟩ := it
  rcases placeholders with _ | ⟨item, placeholders⟩
  · rcases fragments with _ | ⟨⟨⟨path, t⟩, leaf⟩, fragments⟩
    · rfl
    · cases t with
      | tr key tree =>
          cases tree with
          | none => rfl
          | some tree =>
              simp [DescriptorTemplateIterMut.turn, DescriptorTemplateIter.turn,
                DescriptorTemplateIter.forget, leaf_ptrs_eq, tapleaves_eq, fst_comp_pair, Ref.part]
      | sortedmulti k keys | sortedmulti_a k keys | multi k keys | multi_a k keys =>
          simp [DescriptorTemplateIterMut.turn, DescriptorTemplateIter.turn,
            DescriptorTemplateIter.forget, fst_comp_pair]
      | thresh k descs =>
          simp [DescriptorTemplateIterMut.turn, DescriptorTemplateIter.turn,
            DescriptorTemplateIter.forget, fst_comp_pair]
      | _ => rfl
  · rfl

/-! ## Every place once -/

/-- The places of key expressions among the parts of `path` from the `i`-th one on, each
different. -/
structure Placed (path : List ℕ) (i : ℕ) (ps : List Piece) : Prop where
  inside : ∀ kp ∈ placeholders_of ps, ∃ j, i ≤ j ∧ (j :: path) <:+ kp.1.path
  nodup : ((placeholders_of ps).map fun kp => kp.1.path).Nodup

namespace Placed

variable {path : List ℕ} {i : ℕ} {leaf : Leaf} {ps qs : List Piece}

theorem nil : Placed path i [] := ⟨by simp, by simp⟩

theorem text (h : Placed path i ps) (t : Text) : Placed path i (.text t :: ps) :=
  ⟨h.inside, h.nodup⟩

theorem enclosed (h : Placed path i ps) (name : String) :
    Placed path i (Bip388.enclosed name ps) := by
  refine ⟨?_, ?_⟩
  · rw [placeholders_of_enclosed]
    exact h.inside
  · rw [placeholders_of_enclosed]
    exact h.nodup

/-- The `i`-th part, and the parts after it. -/
theorem append (h : Placed (i :: path) 0 ps) (hqs : Placed path (i + 1) qs) :
    Placed path i (ps ++ qs) := by
  have hps : ∀ kp ∈ placeholders_of ps, (i :: path) <:+ kp.1.path := by
    intro kp hkp
    obtain ⟨j, -, hj⟩ := h.inside kp hkp
    exact (List.suffix_cons j _).trans hj
  refine ⟨fun kp hkp => ?_, ?_⟩
  · rw [placeholders_of_append, List.mem_append] at hkp
    rcases hkp with hkp | hkp
    · exact ⟨i, Nat.le_refl _, hps kp hkp⟩
    · obtain ⟨j, hij, hj⟩ := hqs.inside kp hkp
      exact ⟨j, by omega, hj⟩
  · rw [placeholders_of_append, List.map_append, List.nodup_append]
    refine ⟨h.nodup, hqs.nodup, fun p hp q hq hpq => ?_⟩
    obtain ⟨kp, hkp, rfl⟩ := List.mem_map.mp hp
    obtain ⟨kq, hkq, rfl⟩ := List.mem_map.mp hq
    obtain ⟨j, hij, hj⟩ := hqs.inside kq hkq
    -- two suffixes of one length
    rw [← hpq] at hj
    have heq := (List.suffix_of_suffix_length_le (hps kp hkp) hj (by simp)).eq_of_length (by simp)
    have hhead := (List.cons.inj heq).1
    omega

theorem part (h : Placed (i :: path) 0 ps) : Placed path i ps := by
  have happend := h.append (nil : Placed path (i + 1) [])
  rwa [List.append_nil] at happend

theorem key (kp : KeyExpression) (h : Placed path (i + 1) qs) :
    Placed path i (.key ⟨i :: path, kp⟩ leaf :: qs) := by
  refine ⟨fun kq hkq => ?_, ?_⟩
  · rw [placeholders_of_key, List.mem_cons] at hkq
    rcases hkq with rfl | hkq
    · exact ⟨i, Nat.le_refl _, List.suffix_refl _⟩
    · obtain ⟨j, hij, hj⟩ := h.inside kq hkq
      exact ⟨j, by omega, hj⟩
  · rw [placeholders_of_key, List.map_cons, List.nodup_cons]
    refine ⟨fun hmem => ?_, h.nodup⟩
    obtain ⟨kq, hkq, hpath⟩ := List.mem_map.mp hmem
    obtain ⟨j, hij, hj⟩ := h.inside kq hkq
    rw [hpath] at hj
    have hhead := (List.cons.inj (hj.eq_of_length (by simp))).1
    omega

theorem key_pieces (kps : List KeyExpression) : Placed path i (key_pieces path leaf i kps) := by
  induction kps generalizing i with
  | nil => exact nil
  | cons kp kps ih => exact (ih.key kp).text _

theorem threshold (name : String) (k : U32) (kps : List KeyExpression) :
    Placed path 0 (threshold_pieces path leaf name k kps) :=
  ((key_pieces kps).text _).enclosed _

theorem one_key (name : String) (kp : KeyExpression) :
    Placed path 0 (Bip388.enclosed name [.key ⟨0 :: path, kp⟩ leaf]) :=
  (nil.key kp).enclosed _

theorem binary (name : String) (h : Placed (0 :: path) 0 ps) (hqs : Placed (1 :: path) 0 qs) :
    Placed path 0 (Bip388.enclosed name (ps ++ .text [','] :: qs)) :=
  (h.append (hqs.part.text _)).enclosed _

end Placed

namespace DescriptorTemplate

mutual

theorem placed (path : List ℕ) (leaf : Leaf) :
    (t : DescriptorTemplate) → Placed path 0 (t.pieces path leaf)
  | sh inner | wsh inner => (placed (0 :: path) leaf inner).part.enclosed _
  | pkh kp | wpkh kp | pk kp | pk_k kp | pk_h kp => .one_key _ kp
  | sortedmulti k kps | sortedmulti_a k kps | multi k kps | multi_a k kps => .threshold _ k kps
  | tr kp tree => ((placed_tree path tree).key kp).enclosed _
  | zero | one => Placed.nil.text _
  | older _ | after _ | sha256 _ | ripemd160 _ | hash256 _ | hash160 _ =>
      (Placed.nil.text _).enclosed _
  | andor x y z => by
      have hyz := (placed (1 :: path) leaf y).append ((placed (2 :: path) leaf z).part.text [','])
      rw [pieces, List.append_assoc, List.cons_append]
      exact ((placed (0 :: path) leaf x).append (hyz.text _)).enclosed _
  | and_v x y | and_b x y | and_n x y | or_b x y | or_c x y | or_d x y | or_i x y =>
      .binary _ (placed (0 :: path) leaf x) (placed (1 :: path) leaf y)
  | thresh k descs => ((placed_scripts path leaf 0 descs).text _).enclosed _
  | a inner | s inner | c inner | t inner | d inner | v inner | j inner | n inner | l inner
  | u inner => (placed (0 :: path) leaf inner).part.text _

theorem placed_scripts (path : List ℕ) (leaf : Leaf) :
    (i : ℕ) → (descs : List DescriptorTemplate) →
    Placed path i (script_pieces path leaf i descs)
  | _, [] => .nil
  | i, desc :: descs =>
      ((placed (i :: path) leaf desc).append (placed_scripts path leaf (i + 1) descs)).text _

theorem placed_tree (path : List ℕ) :
    (tree : Option TapTree) → Placed path 1 (tree_pieces path tree)
  | none => .nil
  | some tree => (placed_tap_tree (1 :: path) tree).part.text _

theorem placed_tap_tree (path : List ℕ) :
    (tree : TapTree) → Placed path 0 (tap_tree_pieces path tree)
  | .script desc => (placed (0 :: path) _ desc).part
  | .branch left right => by
      have hright := (placed_tap_tree (1 :: path) right).append (.text .nil ['}'])
      rw [tap_tree_pieces, List.append_assoc, List.cons_append, List.cons_append]
      exact ((placed_tap_tree (0 :: path) left).append (hright.text _)).text _

end

end DescriptorTemplate

/-! ## A template -/

/-- Both iterators yield every key expression of a template once, in the order in which they are
printed, the one of them with the leaf that it is in. -/
theorem placeholders_exact (t : DescriptorTemplate) :
    t.display = render KeyExpression.display (t.pieces [] none) ∧
    (∃ n, ∀ fuel, n ≤ fuel → collect DescriptorTemplateIter.turn fuel t.placeholders =
      some (placeholders_of (t.pieces [] none))) ∧
    (∃ n, ∀ fuel, n ≤ fuel → collect DescriptorTemplateIterMut.turn fuel t.placeholders_mut =
      some ((placeholders_of (t.pieces [] none)).map Prod.fst)) ∧
    ((placeholders_of (t.pieces [] none)).map fun kp => kp.1.path).Nodup := by
  have hdone : Yields DescriptorTemplateIter.turn ⟨[], []⟩ [] := .done rfl
  have hyields := DescriptorTemplateIter.yields_fragment [] none t hdone
  rw [List.append_nil] at hyields
  have hyields_mut := hyields.map turn_forget
  exact ⟨t.display_eq [] none, hyields.collect, hyields_mut.collect, (t.placed [] none).nodup⟩

end Vanadium.Bip388
