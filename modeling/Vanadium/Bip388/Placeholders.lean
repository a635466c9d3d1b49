import Vanadium.Bip388.Descriptor
import Vanadium.Lib.Iteration

/-!
# Placeholders

The model of `DescriptorTemplateIter`, `DescriptorTemplateIterMut` and
`TapleavesIter` in `apps/bitcoin/bip388/src/lib.rs`. A reference is the place of
something in a template, with what is there: two references are the same if the
places are.

The end of a list is the bottom of a stack. A loop over an iterator calls `next` until
there is nothing more, so that it sees what all turns of the loop in `next` yield.
-/

namespace Vanadium.Bip388

open Lib

/-- A place is the way to it, from the inside to the outside. -/
structure Ref (α : Type) where
  path : List Nat
  val : α

namespace Ref

variable {α β : Type}

/-- The `i`-th part of what is there. -/
def part (r : Ref α) (i : Nat) (val : β) : Ref β := { path := i :: r.path, val }

/-- The parts from the `i`-th one on of what is at some place. -/
def parts (path : List Nat) : Nat → List α → List (Ref α)
  | _, [] => []
  | i, val :: vals => { path := i :: path, val } :: parts path (i + 1) vals

end Ref

/-! ## Leaves -/

def TapTree.size : TapTree → Nat
  | .script _ => 1
  | .branch left right => left.size + right.size + 1

def stack_size (stack : List (Ref TapTree)) : Nat := (stack.map fun node => node.val.size).sum

/-- What a `TapleavesIter` with this stack goes over. -/
def TapleavesIter.collect : List (Ref TapTree) → List (Ref DescriptorTemplate)
  | [] => []
  | ⟨path, .script descriptor⟩ :: stack => ⟨0 :: path, descriptor⟩ :: collect stack
  | ⟨path, .branch left right⟩ :: stack => collect (⟨0 :: path, left⟩ :: ⟨1 :: path, right⟩ :: stack)
  termination_by stack => stack_size stack
  decreasing_by all_goals simp [stack_size, TapTree.size]; try omega

def tapleaves (tree : Ref TapTree) : List (Ref DescriptorTemplate) := TapleavesIter.collect [tree]

/-! ## References to be read -/

/-- The leaf in which something is, if it is in one. -/
abbrev Leaf := Option (Ref DescriptorTemplate)

structure DescriptorTemplateIter where
  fragments : List (Ref DescriptorTemplate × Leaf)
  placeholders : List (Ref KeyExpression × Leaf)

/-- One turn of the loop in `next`: with an item that is returned, or without. -/
def DescriptorTemplateIter.turn : Turn (Ref KeyExpression × Leaf) DescriptorTemplateIter := fun it =>
  match it.placeholders, it.fragments with
  | item :: placeholders, _ => some (some item, { it with placeholders })
  | [], [] => none
  | [], (frag, tapleaf_desc) :: fragments =>
      match frag.val with
      | .sh sub | .wsh sub | .a sub | .s sub | .c sub | .t sub | .d sub | .v sub | .j sub | .n sub
      | .l sub | .u sub =>
          some (none, { it with fragments := (frag.part 0 sub, tapleaf_desc) :: fragments })
      | .andor sub1 sub2 sub3 =>
          some (none, { it with
            fragments := (frag.part 0 sub1, tapleaf_desc) :: (frag.part 1 sub2, tapleaf_desc) ::
              (frag.part 2 sub3, tapleaf_desc) :: fragments })
      | .or_b sub1 sub2 | .or_c sub1 sub2 | .or_d sub1 sub2 | .or_i sub1 sub2 | .and_v sub1 sub2
      | .and_b sub1 sub2 | .and_n sub1 sub2 =>
          some (none, { it with
            fragments := (frag.part 0 sub1, tapleaf_desc) :: (frag.part 1 sub2, tapleaf_desc) ::
              fragments })
      | .tr key tree =>
          let leaves := (tree.map fun t => tapleaves (frag.part 1 t)).getD []
          some (none, {
            fragments := leaves.map (fun leaf => (leaf, some leaf)) ++ fragments
            placeholders := [(frag.part 0 key, none)] })
      | .pkh key | .wpkh key | .pk key | .pk_k key | .pk_h key =>
          some (some (frag.part 0 key, tapleaf_desc), { it with fragments })
      | .sortedmulti _ keys | .sortedmulti_a _ keys | .multi _ keys | .multi_a _ keys =>
          some (none, {
            fragments
            placeholders := (Ref.parts frag.path 0 keys).map fun key => (key, tapleaf_desc) })
      | .thresh _ descs =>
          some (none, { it with
            fragments := (Ref.parts frag.path 0 descs).map (fun desc => (desc, tapleaf_desc)) ++ fragments })
      | .zero | .one | .older _ | .after _ | .sha256 _ | .ripemd160 _ | .hash256 _ | .hash160 _ =>
          some (none, { it with fragments })

def DescriptorTemplate.placeholders (t : DescriptorTemplate) : DescriptorTemplateIter where
  fragments := [(⟨[], t⟩, none)]
  placeholders := []

/-! ## References to be written -/

/-- The pointers to the leaves of what is on the stack, after those that were collected. -/
def leaf_ptrs : List (Ref TapTree) → List (Ref DescriptorTemplate) → List (Ref DescriptorTemplate)
  | [], ptrs => ptrs
  | ⟨path, .script dt⟩ :: stack, ptrs => leaf_ptrs stack (ptrs ++ [⟨0 :: path, dt⟩])
  | ⟨path, .branch left right⟩ :: stack, ptrs =>
      leaf_ptrs (⟨0 :: path, left⟩ :: ⟨1 :: path, right⟩ :: stack) ptrs
  termination_by stack => stack_size stack
  decreasing_by all_goals simp [stack_size, TapTree.size]; try omega

structure DescriptorTemplateIterMut where
  fragments : List (Ref DescriptorTemplate)
  placeholders : List (Ref KeyExpression)

def DescriptorTemplateIterMut.turn : Turn (Ref KeyExpression) DescriptorTemplateIterMut := fun it =>
  match it.placeholders, it.fragments with
  | ptr :: placeholders, _ => some (some ptr, { it with placeholders })
  | [], [] => none
  | [], frag :: fragments =>
      match frag.val with
      | .sh sub | .wsh sub | .a sub | .s sub | .c sub | .t sub | .d sub | .v sub | .j sub | .n sub
      | .l sub | .u sub =>
          some (none, { it with fragments := frag.part 0 sub :: fragments })
      | .andor sub1 sub2 sub3 =>
          some (none, { it with
            fragments := frag.part 0 sub1 :: frag.part 1 sub2 :: frag.part 2 sub3 :: fragments })
      | .or_b sub1 sub2 | .or_c sub1 sub2 | .or_d sub1 sub2 | .or_i sub1 sub2 | .and_v sub1 sub2
      | .and_b sub1 sub2 | .and_n sub1 sub2 =>
          some (none, { it with fragments := frag.part 0 sub1 :: frag.part 1 sub2 :: fragments })
      | .tr key tree =>
          let ptrs := (tree.map fun t => leaf_ptrs [frag.part 1 t] []).getD []
          some (none, { fragments := ptrs ++ fragments, placeholders := [frag.part 0 key] })
      | .pkh key | .wpkh key | .pk key | .pk_k key | .pk_h key =>
          some (some (frag.part 0 key), { it with fragments })
      | .sortedmulti _ keys | .sortedmulti_a _ keys | .multi _ keys | .multi_a _ keys =>
          some (none, { fragments, placeholders := Ref.parts frag.path 0 keys })
      | .thresh _ descs => some (none, { it with fragments := Ref.parts frag.path 0 descs ++ fragments })
      | .zero | .one | .older _ | .after _ | .sha256 _ | .ripemd160 _ | .hash256 _ | .hash160 _ =>
          some (none, { it with fragments })

def DescriptorTemplate.placeholders_mut (t : DescriptorTemplate) : DescriptorTemplateIterMut where
  fragments := [⟨[], t⟩]
  placeholders := []

end Vanadium.Bip388
