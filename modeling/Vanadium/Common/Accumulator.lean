import Mathlib

/-!
# Vector accumulators over a Merkle tree

The model of `common/src/accumulator.rs`. Digests are `N`-byte vectors, the
hash function is a parameter `H`, and an element is anything with a byte
representation (`AsRef<[u8]>` in the source).

A hasher is its buffer. It also remembers, in `digested`, the messages it has
finalised: no definition computes anything from that list, and it is there
because collision freedom is a statement about the messages that were really
hashed. The verifiers are handed their hasher by the caller, as in the source,
so a caller that verifies many proofs ends up with every message it hashed in
one list.

Nodes sit in `tree` the way a heap keeps them: the root at 0, the children of
`pos` at `2 * pos + 1` and `2 * pos + 2`, the leaves from `n - 1` on.
-/

namespace Vanadium

/-- One byte (`u8`). -/
abbrev U8 := BitVec 8

/-- A byte string (`Vec<u8>`, `&[u8]`). -/
abbrev Bytes := List U8

/-- The output of an `N`-byte hash. -/
abbrev HashOutput (N : Nat) := Vector U8 N

/-- `AsRef<[u8]>`. -/
class AsRef (T : Type) where
  as_ref : T → Bytes

instance : AsRef Bytes := ⟨id⟩

/-- A resettable hasher: the bytes absorbed since the last reset and, as a
ghost, the messages finalised so far, latest first. -/
structure Hasher where
  buffer : Bytes := []
  digested : List Bytes := []

namespace Hasher

def new : Hasher := {}

def reset (h : Hasher) : Hasher := { h with buffer := [] }

def update (h : Hasher) (data : Bytes) : Hasher :=
  { h with buffer := h.buffer ++ data }

variable {N : Nat} (H : Bytes → HashOutput N)

/-- Finalise: the digest of what was absorbed. -/
def digest_inplace (h : Hasher) : HashOutput N × Hasher :=
  (H h.buffer, { h with digested := h.buffer :: h.digested })

/-- `finalize` consumes the hasher and returns the digest alone. -/
def finalize (h : Hasher) : HashOutput N := (h.digest_inplace H).1

end Hasher

section
variable {N : Nat} (H : Bytes → HashOutput N)

/-- Leaf hash: a 0x00 byte, then the element. -/
def hash_leaf {T : Type} [AsRef T] (data : T) : HashOutput N :=
  ((Hasher.new.update [0x00]).update (AsRef.as_ref data)).finalize H

/-- Internal hash: a 0x01 byte, then the two children. -/
def hash_internal_node (left right : HashOutput N) : HashOutput N :=
  (((Hasher.new.update [0x01]).update left.toList).update right.toList).finalize H

/-- `hash_element` is the leaf hash. -/
def hash_element {T : Type} [AsRef T] (element : T) : HashOutput N :=
  hash_leaf H element

/-! ## The streaming verifiers -/

/-- State of a streaming inclusion proof: the digest computed so far, the
position it belongs to, the root it has to reach. -/
structure MerkleInclusionProofVerifier (N : Nat) where
  current_hash : HashOutput N
  pos : Nat
  root : HashOutput N
  verified : Bool

namespace MerkleInclusionProofVerifier

/-- Feed one sibling. Position 0 means the walk is over, so an extra element
spoils the proof. -/
def feed (v : MerkleInclusionProofVerifier N) (hasher : Hasher)
    (sibling_hash : HashOutput N) : MerkleInclusionProofVerifier N × Hasher :=
  if v.pos = 0 then
    ({ v with verified := false }, hasher)
  else
    -- an even position is a right child
    let (left, right) :=
      if v.pos % 2 = 0 then (sibling_hash, v.current_hash)
      else (v.current_hash, sibling_hash)
    let hasher := hasher.reset
    let hasher := hasher.update [0x01]
    let hasher := hasher.update left.toList
    let hasher := hasher.update right.toList
    let (current_hash, hasher) := hasher.digest_inplace H
    let pos := (v.pos - 1) / 2
    let verified := if pos = 0 then current_hash == v.root else v.verified
    ({ v with current_hash, pos, verified }, hasher)

end MerkleInclusionProofVerifier

/-- An update proof is one branch checked twice, for the old value and for the
new one. -/
structure MerkleUpdateProofVerifier (N : Nat) where
  old_verifier : MerkleInclusionProofVerifier N
  new_verifier : MerkleInclusionProofVerifier N

namespace MerkleUpdateProofVerifier

def feed (v : MerkleUpdateProofVerifier N) (hasher : Hasher)
    (sibling_hash : HashOutput N) : MerkleUpdateProofVerifier N × Hasher :=
  let (old_verifier, hasher) := v.old_verifier.feed H hasher sibling_hash
  let (new_verifier, hasher) := v.new_verifier.feed H hasher sibling_hash
  ({ old_verifier, new_verifier }, hasher)

def verified (v : MerkleUpdateProofVerifier N) : Bool :=
  v.new_verifier.verified && v.old_verifier.verified

end MerkleUpdateProofVerifier

/-- Start an inclusion proof. The empty proof is valid for a one-element
vector only, whose root is the leaf itself. -/
def begin_inclusion_proof (root value_hash : HashOutput N) (index size : Nat) :
    MerkleInclusionProofVerifier N :=
  { current_hash := value_hash
    pos := size - 1 + index
    root := root
    verified := size == 1 && value_hash == root }

def begin_update_proof (old_root new_root old_value_hash new_value_hash : HashOutput N)
    (index size : Nat) : MerkleUpdateProofVerifier N :=
  { old_verifier := begin_inclusion_proof old_root old_value_hash index size
    new_verifier := begin_inclusion_proof new_root new_value_hash index size }

/-- `for el in proof { verifier.feed(hasher, el) }`. -/
def MerkleInclusionProofVerifier.feed_all (v : MerkleInclusionProofVerifier N)
    (hasher : Hasher) :
    List (HashOutput N) → MerkleInclusionProofVerifier N × Hasher
  | [] => (v, hasher)
  | el :: proof => (v.feed H hasher el).1.feed_all (v.feed H hasher el).2 proof

def MerkleUpdateProofVerifier.feed_all (v : MerkleUpdateProofVerifier N)
    (hasher : Hasher) :
    List (HashOutput N) → MerkleUpdateProofVerifier N × Hasher
  | [] => (v, hasher)
  | el :: proof => (v.feed H hasher el).1.feed_all (v.feed H hasher el).2 proof

/-- The blanket `verify_inclusion_proof`, together with the hasher it used. -/
def verify_inclusion_proof (root : HashOutput N) (proof : List (HashOutput N))
    (value_hash : HashOutput N) (index size : Nat) : Bool × Hasher :=
  let (verifier, hasher) :=
    (begin_inclusion_proof root value_hash index size).feed_all H Hasher.new proof
  (verifier.verified, hasher)

/-- The blanket `verify_update_proof`, together with the hasher it used. -/
def verify_update_proof (old_root new_root : HashOutput N)
    (update_proof : List (HashOutput N)) (old_value_hash new_value_hash : HashOutput N)
    (index size : Nat) : Bool × Hasher :=
  let (verifier, hasher) :=
    (begin_update_proof old_root new_root old_value_hash new_value_hash index
      size).feed_all H Hasher.new update_proof
  (verifier.verified, hasher)

/-! ## The accumulator -/

/-- The vector and its tree. -/
structure MerkleAccumulator (T : Type) (N : Nat) where
  data : List T
  tree : Array (HashOutput N)

inductive AccumulatorError where
  | indexOutOfBounds
  deriving DecidableEq, Repr

/-- `checked_next_power_of_two`; a page count is far below the overflow. -/
def checked_next_power_of_two (n : Nat) : Nat := 2 ^ Nat.clog 2 n

/-- `size > 0 && size.is_power_of_two()`. -/
def has_valid_leaf_count (size : Nat) : Bool := size > 0 && size.isPowerOfTwo

namespace MerkleAccumulator

variable {T : Type} [AsRef T]

/-- The loop `for i in (0..n - 1).rev()` of `build_tree`. -/
def build_tree.loop (tree : Array (HashOutput N)) : Nat → Array (HashOutput N)
  | 0 => tree
  | i + 1 =>
      build_tree.loop
        (tree.set! i (hash_internal_node H tree[2 * i + 1]! tree[2 * i + 2]!)) i

/-- All leaves at once, then the internal nodes from the last to the root. -/
def build_tree (ma : MerkleAccumulator T N) : MerkleAccumulator T N :=
  let n := ma.data.length
  let leaves := ma.data.map (hash_leaf H)
  let tree := (List.replicate (n - 1) (Vector.replicate N 0#8) ++ leaves).toArray
  { ma with tree := build_tree.loop H tree (n - 1) }

/-- `None` is the constructor's panic on a length that is not a power of two. -/
def new (data : List T) : Option (MerkleAccumulator T N) :=
  if has_valid_leaf_count data.length then
    some (build_tree H { data, tree := #[] })
  else none

def get (ma : MerkleAccumulator T N) (index : Nat) : Option T := ma.data[index]?

def size (ma : MerkleAccumulator T N) : Nat := ma.data.length

def root (ma : MerkleAccumulator T N) : HashOutput N := ma.tree[0]!

/-- The `while pos > 0` loop of `prove`. -/
def prove.loop (tree : Array (HashOutput N)) (pos : Nat)
    (proof : List (HashOutput N)) : List (HashOutput N) :=
  if pos = 0 then proof
  else
    let el := if pos % 2 = 0 then tree[pos - 1]! else tree[pos + 1]!
    prove.loop tree ((pos - 1) / 2) (proof ++ [el])
termination_by pos

def prove (ma : MerkleAccumulator T N) (index : Nat) :
    Except AccumulatorError (List (HashOutput N)) :=
  if index ≥ ma.data.length then .error .indexOutOfBounds
  else .ok (prove.loop ma.tree (ma.data.length - 1 + index) [])

/-- The `while pos > 0` loop of `update`: recompute the path to the root. -/
def update.loop (tree : Array (HashOutput N)) (pos : Nat) : Array (HashOutput N) :=
  if pos = 0 then tree
  else
    let pos' := (pos - 1) / 2
    update.loop (tree.set! pos'
      (hash_internal_node H tree[2 * pos' + 1]! tree[2 * pos' + 2]!)) pos'
termination_by pos

/-- Replace one element; the proof is captured before the tree changes. -/
def update (ma : MerkleAccumulator T N) (index : Nat) (value : T) :
    Except AccumulatorError
      ((List (HashOutput N) × HashOutput N) × MerkleAccumulator T N) :=
  if index ≥ ma.data.length then .error .indexOutOfBounds
  else
    match ma.prove index with
    | .error e => .error e
    | .ok merkle_proof =>
        let pos := ma.data.length - 1 + index
        let tree := ma.tree.set! pos (hash_leaf H value)
        let ma' : MerkleAccumulator T N :=
          { data := ma.data.set index value, tree := update.loop H tree pos }
        .ok ((merkle_proof, ma'.root), ma')

end MerkleAccumulator

/-! ## The root computer -/

/-- `usize::trailing_zeros` of a non-zero number. -/
def trailing_zeros (x : Nat) : Nat :=
  if x = 0 then 0 else if x % 2 = 1 then 0 else trailing_zeros (x / 2) + 1
termination_by x

/-- The streaming root computation: a stack of subtree roots. -/
structure MerkleAccumulatorRootComputer (N : Nat) where
  n : Nat
  cur_size : Nat
  hashes : Array (HashOutput N)

namespace MerkleAccumulatorRootComputer

/-- `None` is the constructor's panic. -/
def new (n : Nat) : Option (MerkleAccumulatorRootComputer N) :=
  if n > 0 && n.isPowerOfTwo then some { n, cur_size := 0, hashes := #[] } else none

/-- Combine the last `d` pairs; `None` is the panic of an `unwrap` on an empty
stack. -/
def combine : Nat → Array (HashOutput N) → Option (Array (HashOutput N))
  | 0, hashes => some hashes
  | d + 1, hashes =>
      match hashes.back? with
      | none => none
      | some right =>
          match hashes.pop.back? with
          | none => none
          | some left =>
              combine d (hashes.pop.pop.push (hash_internal_node H left right))

/-- Feed the next leaf hash; `None` is a panic. -/
def feed (c : MerkleAccumulatorRootComputer N) (leaf_hash : HashOutput N) :
    Option (MerkleAccumulatorRootComputer N) :=
  if c.cur_size ≥ c.n then none
  else
    let hashes := c.hashes.push leaf_hash
    let cur_size := c.cur_size + 1
    match combine H (trailing_zeros cur_size) hashes with
    | none => none
    | some hashes => some { c with cur_size, hashes }

/-- The root; `None` is the panic before the last leaf. -/
def root (c : MerkleAccumulatorRootComputer N) : Option (HashOutput N) :=
  if c.cur_size ≠ c.n then none else c.hashes[0]?

end MerkleAccumulatorRootComputer

end

end Vanadium
