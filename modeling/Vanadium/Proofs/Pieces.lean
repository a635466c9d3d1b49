import Vanadium.Bip388.Placeholders

/-!
# A template in pieces

What is printed for a template is text that depends on the template alone, with the
texts of its key expressions in between. Here the two are kept apart: every key
expression is there with its place and with the leaf that it is in, in the order in
which it is printed.
-/

namespace Vanadium.Bip388

inductive Piece where
  | text (t : Text)
  | key (kp : Ref KeyExpression) (leaf : Leaf)

namespace Piece

/-- The piece with key expressions printed in some way. -/
def render (f : KeyExpression → Text) : Piece → Text
  | text t => t
  | key kp _ => f kp.val

/-- The key expressions among the pieces. -/
def placeholder : Piece → Option (Ref KeyExpression × Leaf)
  | text _ => none
  | key kp leaf => some (kp, leaf)

end Piece

/-- Pieces between parentheses. -/
def enclosed (name : String) (ps : List Piece) : List Piece :=
  .text (name.toList ++ ['(']) :: ps ++ [.text [')']]

/-- Key expressions from the `i`-th part on, each after a comma. -/
def key_pieces (path : List ℕ) (leaf : Leaf) : ℕ → List KeyExpression → List Piece
  | _, [] => []
  | i, kp :: kps => .text [','] :: .key ⟨i :: path, kp⟩ leaf :: key_pieces path leaf (i + 1) kps

/-- A quorum and key expressions. -/
def threshold_pieces (path : List ℕ) (leaf : Leaf) (name : String) (k : U32)
    (kps : List KeyExpression) : List Piece :=
  enclosed name (.text (decimal k) :: key_pieces path leaf 0 kps)

namespace DescriptorTemplate

/-- The letter of a wrapper, and a colon behind the last of several. -/
def letter (c : Char) (inner : DescriptorTemplate) (ps : List Piece) : List Piece :=
  .text (if inner.is_wrapper then [c] else [c, ':']) :: ps

mutual

/-- The pieces of the template at some place, in some leaf. -/
def pieces (path : List ℕ) (leaf : Leaf) : DescriptorTemplate → List Piece
  | sh inner => enclosed "sh" (pieces (0 :: path) leaf inner)
  | wsh inner => enclosed "wsh" (pieces (0 :: path) leaf inner)
  | pkh kp => enclosed "pkh" [.key ⟨0 :: path, kp⟩ leaf]
  | wpkh kp => enclosed "wpkh" [.key ⟨0 :: path, kp⟩ leaf]
  | sortedmulti k kps => threshold_pieces path leaf "sortedmulti" k kps
  | sortedmulti_a k kps => threshold_pieces path leaf "sortedmulti_a" k kps
  | tr kp tree => enclosed "tr" (.key ⟨0 :: path, kp⟩ none :: tree_pieces path tree)
  | zero => [.text ['0']]
  | one => [.text ['1']]
  | pk kp => enclosed "pk" [.key ⟨0 :: path, kp⟩ leaf]
  | pk_k kp => enclosed "pk_k" [.key ⟨0 :: path, kp⟩ leaf]
  | pk_h kp => enclosed "pk_h" [.key ⟨0 :: path, kp⟩ leaf]
  | older num => enclosed "older" [.text (decimal num)]
  | after num => enclosed "after" [.text (decimal num)]
  | sha256 hash => enclosed "sha256" [.text (hex_encode hash.toList)]
  | ripemd160 hash => enclosed "ripemd160" [.text (hex_encode hash.toList)]
  | hash256 hash => enclosed "hash256" [.text (hex_encode hash.toList)]
  | hash160 hash => enclosed "hash160" [.text (hex_encode hash.toList)]
  | andor x y z => enclosed "andor" (pieces (0 :: path) leaf x ++ .text [','] ::
      pieces (1 :: path) leaf y ++ .text [','] :: pieces (2 :: path) leaf z)
  | and_v x y => enclosed "and_v" (pieces (0 :: path) leaf x ++ .text [','] ::
      pieces (1 :: path) leaf y)
  | and_b x y => enclosed "and_b" (pieces (0 :: path) leaf x ++ .text [','] ::
      pieces (1 :: path) leaf y)
  | and_n x y => enclosed "and_n" (pieces (0 :: path) leaf x ++ .text [','] ::
      pieces (1 :: path) leaf y)
  | or_b x y => enclosed "or_b" (pieces (0 :: path) leaf x ++ .text [','] ::
      pieces (1 :: path) leaf y)
  | or_c x y => enclosed "or_c" (pieces (0 :: path) leaf x ++ .text [','] ::
      pieces (1 :: path) leaf y)
  | or_d x y => enclosed "or_d" (pieces (0 :: path) leaf x ++ .text [','] ::
      pieces (1 :: path) leaf y)
  | or_i x y => enclosed "or_i" (pieces (0 :: path) leaf x ++ .text [','] ::
      pieces (1 :: path) leaf y)
  | thresh k descs => enclosed "thresh" (.text (decimal k) :: script_pieces path leaf 0 descs)
  | multi k kps => threshold_pieces path leaf "multi" k kps
  | multi_a k kps => threshold_pieces path leaf "multi_a" k kps
  | a inner => letter 'a' inner (pieces (0 :: path) leaf inner)
  | s inner => letter 's' inner (pieces (0 :: path) leaf inner)
  | c inner => letter 'c' inner (pieces (0 :: path) leaf inner)
  | t inner => letter 't' inner (pieces (0 :: path) leaf inner)
  | d inner => letter 'd' inner (pieces (0 :: path) leaf inner)
  | v inner => letter 'v' inner (pieces (0 :: path) leaf inner)
  | j inner => letter 'j' inner (pieces (0 :: path) leaf inner)
  | n inner => letter 'n' inner (pieces (0 :: path) leaf inner)
  | l inner => letter 'l' inner (pieces (0 :: path) leaf inner)
  | u inner => letter 'u' inner (pieces (0 :: path) leaf inner)

/-- Scripts from the `i`-th part on, each after a comma. -/
def script_pieces (path : List ℕ) (leaf : Leaf) : ℕ → List DescriptorTemplate → List Piece
  | _, [] => []
  | i, desc :: descs =>
      .text [','] :: pieces (i :: path) leaf desc ++ script_pieces path leaf (i + 1) descs

def tree_pieces (path : List ℕ) : Option TapTree → List Piece
  | none => []
  | some tree => .text [','] :: tap_tree_pieces (1 :: path) tree

/-- A leaf is what its key expressions are in. -/
def tap_tree_pieces (path : List ℕ) : TapTree → List Piece
  | .script desc => pieces (0 :: path) (some ⟨0 :: path, desc⟩) desc
  | .branch left right =>
      .text ['{'] :: tap_tree_pieces (0 :: path) left ++ .text [','] ::
        tap_tree_pieces (1 :: path) right ++ [.text ['}']]

end

end DescriptorTemplate

/-! ## The printed text -/

/-- Pieces one after the other. -/
def render (f : KeyExpression → Text) (ps : List Piece) : Text := ps.flatMap (Piece.render f)

section
variable {f : KeyExpression → Text}

@[simp] theorem render_nil : render f [] = [] := rfl

@[simp] theorem render_text (t : Text) (ps : List Piece) :
    render f (.text t :: ps) = t ++ render f ps := rfl

@[simp] theorem render_key (kp : Ref KeyExpression) (leaf : Leaf) (ps : List Piece) :
    render f (.key kp leaf :: ps) = f kp.val ++ render f ps := rfl

@[simp] theorem render_append (ps qs : List Piece) :
    render f (ps ++ qs) = render f ps ++ render f qs := List.flatMap_append

@[simp] theorem render_enclosed (name : String) (ps : List Piece) :
    render f (enclosed name ps) = fragment name (render f ps) := by
  simp [enclosed, fragment]

theorem render_key_pieces (path : List ℕ) (leaf : Leaf) (i : ℕ) (kps : List KeyExpression) :
    render f (key_pieces path leaf i kps) = kps.flatMap fun kp => ',' :: f kp := by
  induction kps generalizing i with
  | nil => rfl
  | cons kp kps ih => simp [key_pieces, ih]

@[simp] theorem render_threshold_pieces (path : List ℕ) (leaf : Leaf) (name : String) (k : U32)
    (kps : List KeyExpression) :
    render KeyExpression.display (threshold_pieces path leaf name k kps) =
      display_threshold name k kps := by
  simp [threshold_pieces, display_threshold, render_key_pieces]

theorem render_letter (c : Char) (inner : DescriptorTemplate) (ps : List Piece) :
    render f (inner.letter c ps) = c :: inner.display_inner (render f ps) := by
  simp only [DescriptorTemplate.letter, DescriptorTemplate.display_inner, render_text]
  split <;> rfl

end

namespace DescriptorTemplate

mutual

theorem display_eq (path : List ℕ) (leaf : Leaf) : (t : DescriptorTemplate) →
    t.display = render KeyExpression.display (t.pieces path leaf)
  | sh inner | wsh inner => by simp [display, pieces, display_eq (0 :: path) leaf inner]
  | pkh kp | wpkh kp | pk kp | pk_k kp | pk_h kp => by simp [display, pieces]
  | sortedmulti k kps | sortedmulti_a k kps | multi k kps | multi_a k kps => by
      simp [display, pieces]
  | tr kp tree => by simp [display, pieces, display_tree_eq path tree]
  | zero | one => by simp [display, pieces]
  | older _ | after _ | sha256 _ | ripemd160 _ | hash256 _ | hash160 _ => by
      simp [display, pieces]
  | andor x y z => by
      simp [display, pieces, display_eq (0 :: path) leaf x, display_eq (1 :: path) leaf y,
        display_eq (2 :: path) leaf z]
  | and_v x y | and_b x y | and_n x y | or_b x y | or_c x y | or_d x y | or_i x y => by
      simp [display, pieces, display_eq (0 :: path) leaf x, display_eq (1 :: path) leaf y]
  | thresh k descs => by simp [display, pieces, display_scripts_eq' path leaf 0 descs]
  | a inner | s inner | c inner | t inner | d inner | v inner | j inner | n inner | l inner
  | u inner => by
      simp only [display, pieces, render_letter, display_eq (0 :: path) leaf inner]

theorem display_scripts_eq' (path : List ℕ) (leaf : Leaf) :
    (i : ℕ) → (descs : List DescriptorTemplate) →
    display_scripts descs = render KeyExpression.display (script_pieces path leaf i descs)
  | _, [] => rfl
  | i, desc :: descs => by
      simp [display_scripts, script_pieces, display_eq (i :: path) leaf desc,
        display_scripts_eq' path leaf (i + 1) descs]

theorem display_tree_eq (path : List ℕ) : (tree : Option TapTree) →
    display_tree tree = render KeyExpression.display (tree_pieces path tree)
  | none => rfl
  | some tree => by simp [display_tree, tree_pieces, display_tap_tree_eq (1 :: path) tree]

theorem display_tap_tree_eq (path : List ℕ) : (tree : TapTree) →
    display_tap_tree tree = render KeyExpression.display (tap_tree_pieces path tree)
  | .script desc => display_eq _ _ desc
  | .branch left right => by
      simp [display_tap_tree, tap_tree_pieces, display_tap_tree_eq (0 :: path) left,
        display_tap_tree_eq (1 :: path) right]

end

end DescriptorTemplate

end Vanadium.Bip388
