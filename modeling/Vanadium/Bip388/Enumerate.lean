import Vanadium.Bip388.Placeholders

/-!
# Listing the templates of a description

The model of the enumerations in `cleartext/decode.rs` of `apps/bitcoin/bip388`: the orders of
`0..n`, the templates that differ in the order of their derivations, and the trees over some
leaves.

An iterator that is made lazily yields the items of a list here, in the same order. Where the
source panics there is nothing; overflows are checked.
-/

namespace Vanadium.Bip388.Cleartext

open Lib

/-! ## Orders -/

structure PermutationIter where
  current : List ℕ
  first : Bool
  done : Bool
  deriving DecidableEq, Repr

/-- `(0..n).rfind(p)` -/
def rfind (n : ℕ) (p : ℕ → Bool) : Option ℕ := (List.range n).reverse.find? p

/-- `current.swap(i, j)` -/
def swap (l : List ℕ) (i j : ℕ) : List ℕ := (l.set i (l.getD j 0)).set j (l.getD i 0)

namespace PermutationIter

def new (n : ℕ) : PermutationIter where
  current := List.range n
  first := true
  done := n = 0

/-- What is yielded, and the iterator afterwards. -/
def next (it : PermutationIter) : Option (Option (List ℕ) × PermutationIter) :=
  if it.done then some (none, it)
  else if it.first then some (some it.current, { it with first := false })
  else
    let n := it.current.length
    match rfind (n - 1) fun k => it.current.getD k 0 < it.current.getD (k + 1) 0 with
    | none => some (none, { it with done := true })
    | some i => do
        let j ← rfind n fun j => it.current.getD i 0 < it.current.getD j 0
        let swapped := swap it.current i j
        let current := swapped.take (i + 1) ++ (swapped.drop (i + 1)).reverse
        some (some current, { it with current })

/-- The items of at most so many calls, if after them there is nothing more. -/
def items : ℕ → PermutationIter → Option (List (List ℕ))
  | 0, _ => none
  | fuel + 1, it => do
      let (item, it) ← it.next
      match item with
      | none => some []
      | some order => (items fuel it).map (order :: ·)

/-- What a loop over the iterator sees. -/
def orders (n : ℕ) : Option (List (List ℕ)) := items (n.factorial + 1) (new n)

end PermutationIter

end Vanadium.Bip388.Cleartext

namespace Vanadium.Bip388

/-! ## Key expressions of a template -/

mutual

/-- What `placeholders` yields, without the leaves. -/
def DescriptorTemplate.key_exprs : DescriptorTemplate → List KeyExpression
  | .sh t | .wsh t | .a t | .s t | .c t | .t t | .d t | .v t | .j t | .n t | .l t | .u t =>
      t.key_exprs
  | .pkh kp | .wpkh kp | .pk kp | .pk_k kp | .pk_h kp => [kp]
  | .sortedmulti _ kps | .sortedmulti_a _ kps | .multi _ kps | .multi_a _ kps => kps
  | .tr kp tree => kp :: tree_key_exprs tree
  | .andor x y z => x.key_exprs ++ y.key_exprs ++ z.key_exprs
  | .and_v x y | .and_b x y | .and_n x y | .or_b x y | .or_c x y | .or_d x y | .or_i x y =>
      x.key_exprs ++ y.key_exprs
  | .thresh _ descs => scripts_key_exprs descs
  | .zero | .one | .older _ | .after _ | .sha256 _ | .ripemd160 _ | .hash256 _ | .hash160 _ => []

def scripts_key_exprs : List DescriptorTemplate → List KeyExpression
  | [] => []
  | desc :: descs => desc.key_exprs ++ scripts_key_exprs descs

def tree_key_exprs : Option TapTree → List KeyExpression
  | none => []
  | some tree => tap_tree_key_exprs tree

def tap_tree_key_exprs : TapTree → List KeyExpression
  | .script desc => desc.key_exprs
  | .branch left right => tap_tree_key_exprs left ++ tap_tree_key_exprs right

end

section
variable {σ : Type} (body : KeyExpression → StateT σ Option KeyExpression)

def write_keys : List KeyExpression → StateT σ Option (List KeyExpression)
  | [] => return []
  | kp :: kps => return (← body kp) :: (← write_keys kps)

mutual

/-- `for kp in dt.placeholders_mut() { body }`, with what the body assigns to. -/
def DescriptorTemplate.write : DescriptorTemplate → StateT σ Option DescriptorTemplate
  | .sh inner => return .sh (← inner.write)
  | .wsh inner => return .wsh (← inner.write)
  | .pkh kp => return .pkh (← body kp)
  | .wpkh kp => return .wpkh (← body kp)
  | .sortedmulti k kps => return .sortedmulti k (← write_keys body kps)
  | .sortedmulti_a k kps => return .sortedmulti_a k (← write_keys body kps)
  | .tr kp tree => return .tr (← body kp) (← write_tree tree)
  | .zero => return .zero
  | .one => return .one
  | .pk kp => return .pk (← body kp)
  | .pk_k kp => return .pk_k (← body kp)
  | .pk_h kp => return .pk_h (← body kp)
  | .older n => return .older n
  | .after n => return .after n
  | .sha256 hash => return .sha256 hash
  | .ripemd160 hash => return .ripemd160 hash
  | .hash256 hash => return .hash256 hash
  | .hash160 hash => return .hash160 hash
  | .andor x y z => return .andor (← x.write) (← y.write) (← z.write)
  | .and_v x y => return .and_v (← x.write) (← y.write)
  | .and_b x y => return .and_b (← x.write) (← y.write)
  | .and_n x y => return .and_n (← x.write) (← y.write)
  | .or_b x y => return .or_b (← x.write) (← y.write)
  | .or_c x y => return .or_c (← x.write) (← y.write)
  | .or_d x y => return .or_d (← x.write) (← y.write)
  | .or_i x y => return .or_i (← x.write) (← y.write)
  | .thresh k descs => return .thresh k (← write_scripts descs)
  | .multi k kps => return .multi k (← write_keys body kps)
  | .multi_a k kps => return .multi_a k (← write_keys body kps)
  | .a inner => return .a (← inner.write)
  | .s inner => return .s (← inner.write)
  | .c inner => return .c (← inner.write)
  | .t inner => return .t (← inner.write)
  | .d inner => return .d (← inner.write)
  | .v inner => return .v (← inner.write)
  | .j inner => return .j (← inner.write)
  | .n inner => return .n (← inner.write)
  | .l inner => return .l (← inner.write)
  | .u inner => return .u (← inner.write)

def write_scripts : List DescriptorTemplate → StateT σ Option (List DescriptorTemplate)
  | [] => return []
  | desc :: descs => return (← desc.write) :: (← write_scripts descs)

def write_tree : Option TapTree → StateT σ Option (Option TapTree)
  | none => return none
  | some tree => return some (← write_tap_tree tree)

def write_tap_tree : TapTree → StateT σ Option TapTree
  | .script desc => return .script (← desc.write)
  | .branch left right => return .branch (← write_tap_tree left) (← write_tap_tree right)

end

end

namespace Cleartext

/-! ## Orders of the derivations -/

/-- The derived order, by which a `BTreeMap` is sorted. -/
def key_type_le : KeyExpressionType → KeyExpressionType → Bool
  | .plainKey i, .plainKey j => i ≤ j
  | .plainKey _, .musig _ => true
  | .musig _, .plainKey _ => false
  | .musig is, .musig js => !js.lex is (fun i j => decide (i < j))

/-- The positions of a key expression. -/
def positions (kps : List KeyExpression) (key : KeyExpressionType) : List ℕ :=
  (List.range kps.length).filter fun i => (kps[i]?.map (·.key_type)) = some key

def positions_per_group (kps : List KeyExpression) : List (List ℕ) :=
  ((kps.map (·.key_type)).dedup.mergeSort key_type_le).map (positions kps)

/-- `(2 * p as u32, 2 * p as u32 + 1)` -/
def canonical_pair (p : ℕ) : Option (U32 × U32) :=
  let n := 2 * (p % 2 ^ 32)
  if n < 2 ^ 32 then some (BitVec.ofNat 32 n, BitVec.ofNat 32 (n + 1)) else none

/-- Each position with its place in the order that was chosen for its group. -/
def mapping (positions_per_group chosen : List (List ℕ)) : Option (ℕ → Option (U32 × U32)) :=
  ((positions_per_group.zip chosen).flatMap fun group => group.1.zip group.2).foldlM
    (fun mapping x => do
      let pair ← canonical_pair x.2
      some (Function.update mapping x.1 (some pair))) fun _ => none

/-- The derivations of the `idx`-th key expression are replaced. -/
def renumber (mapping : ℕ → Option (U32 × U32)) (kp : KeyExpression) :
    StateT ℕ Option KeyExpression := fun idx => do
  let (num1, num2) ← mapping idx
  some ({ kp with num1, num2 }, idx + 1)

def expand_derivation_orderings_rec (positions_per_group : List (List ℕ))
    (base : DescriptorTemplate) : (groups chosen : List (List ℕ)) → Option (List DescriptorTemplate)
  | [], chosen => do
      let mapping ← mapping positions_per_group chosen
      let (new_dt, _) ← base.write (renumber mapping) 0
      some [new_dt]
  | group :: groups, chosen => do
      let orders ← PermutationIter.orders group.length
      let results ← orders.mapM fun perm =>
        expand_derivation_orderings_rec positions_per_group base groups (chosen ++ [perm])
      some results.flatten

def expand_derivation_orderings (base : DescriptorTemplate) : Option (List DescriptorTemplate) :=
  let groups := positions_per_group base.key_exprs
  expand_derivation_orderings_rec groups base groups []

/-! ## Trees over some leaves -/

def count_ones (mask : ℕ) : ℕ := ((List.range 64).filter mask.testBit).length

/-- `1u64 << n` -/
def shift_one (n : ℕ) : Option ℕ := if n < 64 then some (2 ^ n) else none

/-- The trees over some of the leaves, of which there are at most `fuel`. -/
def enumerate_taptrees_indices (leaf_variants : List (List DescriptorTemplate)) :
    (fuel : ℕ) → (indices : List ℕ) → Option (List TapTree)
  | 0, _ => none
  | _ + 1, [] => none
  | _ + 1, [i] => do
      let variants ← leaf_variants[i]?
      some (variants.map .script)
  | fuel + 1, first :: next :: others => do
      let rest := next :: others
      let n_rest := rest.length
      let masks ← shift_one n_rest
      let trees ← ((List.range masks).filter fun mask => n_rest > count_ones mask).mapM
        fun left_extra_mask => do
          let (left, right) := rest.zipIdx.partition fun x => left_extra_mask.testBit x.2
          let right_trees ← enumerate_taptrees_indices leaf_variants fuel (right.map Prod.fst)
          let left_trees ← enumerate_taptrees_indices leaf_variants fuel
            (first :: left.map Prod.fst)
          some (left_trees.flatMap fun lt => right_trees.map fun rt => .branch lt rt)
      some trees.flatten

def enumerate_taptrees (leaf_variants : List (List DescriptorTemplate)) : Option (List TapTree) :=
  -- `assert!(!leaf_variants.is_empty())`
  match leaf_variants with
  | [] => none
  | [variants] => some (variants.map .script)
  | _ => enumerate_taptrees_indices leaf_variants leaf_variants.length
      (List.range leaf_variants.length)

end Cleartext

end Vanadium.Bip388
