import Mathlib

/-!
# Hierarchical keys

Keys are derived from keys along paths of 32-bit numbers. A private key is a number
below the order of a group's generator, its public key the multiple of the generator;
each is accompanied by a chain code. A step hashes the chain code together with the
public key, or with the private one for the upper half of the numbers, and adds what
comes out to the key. For the lower half the same can be done to a public key alone,
and both ways lead to the same public key.

A node is written down with what it was derived from: its depth, a fingerprint of the
node above, and the number of the step.
-/

namespace Vanadium.Lib

abbrev Octet := BitVec 8

/-- A keyed hash, from a hash that reads its message in blocks. -/
def hmac (hash : List Octet → List Octet) (block : ℕ) (key data : List Octet) : List Octet :=
  let short := if key.length ≤ block then key else hash key
  let padded := short ++ List.replicate (block - short.length) 0
  hash (padded.map (0x5c ^^^ ·) ++ hash (padded.map (0x36 ^^^ ·) ++ data))

/-- What keys are derived with: a generator of a group and its order, how numbers and
elements are written, and the hash, which gives a number and a chain code. -/
structure KeyScheme (G C : Type) [AddCommGroup G] where
  generator : G
  order : ℕ
  order_eq : addOrderOf generator = order
  order_pos : 0 < order
  ser_scalar : ℕ → List Octet
  ser_point : G → List Octet
  ser_index : BitVec 32 → List Octet
  prf : C → List Octet → ℕ × C

namespace KeyScheme

variable {G C : Type} [AddCommGroup G] (S : KeyScheme G C)

/-- A private key with its chain code. -/
@[ext] structure PrivNode where
  key : ℕ
  key_pos : 0 < key
  key_lt : key < S.order
  chain : C

/-- A public key with its chain code. -/
@[ext] structure PubNode (G C : Type) [AddCommGroup G] where
  point : G
  point_ne_zero : point ≠ 0
  chain : C

theorem smul_eq_zero_iff (k : ℕ) : k • S.generator = 0 ↔ k % S.order = 0 := by
  rw [← addOrderOf_dvd_iff_nsmul_eq_zero, S.order_eq, Nat.dvd_iff_mod_eq_zero]

theorem mod_smul (k : ℕ) : (k % S.order) • S.generator = k • S.generator := by
  rw [← S.order_eq, mod_addOrderOf_nsmul]

variable {S}

def hardened (i : BitVec 32) : Prop := 0x80000000 ≤ i

instance (i : BitVec 32) : Decidable (hardened i) := inferInstanceAs (Decidable (_ ≤ _))

theorem PrivNode.smul_ne_zero (node : S.PrivNode) : node.key • S.generator ≠ 0 := by
  rw [Ne, S.smul_eq_zero_iff, Nat.mod_eq_of_lt node.key_lt]
  exact node.key_pos.ne'

/-- The public node of a private one. -/
def PrivNode.neuter (node : S.PrivNode) : PubNode G C where
  point := node.key • S.generator
  point_ne_zero := node.smul_ne_zero
  chain := node.chain

/-- What a step from a private node hashes. -/
def PrivNode.data (node : S.PrivNode) (i : BitVec 32) : List Octet :=
  (if hardened i then 0x00 :: S.ser_scalar node.key
    else S.ser_point (node.key • S.generator)) ++ S.ser_index i

/-- The private node whose key is larger by a number; there is none if the number is not
below the order, or the key would be zero. -/
def PrivNode.add (node : S.PrivNode) (left : ℕ) (chain : C) : Option S.PrivNode :=
  if h : left < S.order ∧ (left + node.key) % S.order ≠ 0 then
    some {
      key := (left + node.key) % S.order
      key_pos := Nat.pos_of_ne_zero h.2
      key_lt := Nat.mod_lt _ S.order_pos
      chain }
  else none

/-- A step from a private node. -/
def PrivNode.child (node : S.PrivNode) (i : BitVec 32) : Option S.PrivNode :=
  let I := S.prf node.chain (node.data i)
  node.add I.1 I.2

variable (S) in
open scoped Classical in
/-- The same for public nodes. -/
noncomputable def PubNode.add (node : PubNode G C) (left : ℕ) (chain : C) :
    Option (PubNode G C) :=
  if h : left < S.order ∧ left • S.generator + node.point ≠ 0 then
    some { point := left • S.generator + node.point, point_ne_zero := h.2, chain }
  else none

variable (S) in
/-- A step from a public node. -/
noncomputable def PubNode.child (node : PubNode G C) (i : BitVec 32) : Option (PubNode G C) :=
  if hardened i then none
  else
    let I := S.prf node.chain (S.ser_point node.point ++ S.ser_index i)
    node.add S I.1 I.2

theorem neuter_add (node : S.PrivNode) (left : ℕ) (chain : C) :
    node.neuter.add S left chain = (node.add left chain).map PrivNode.neuter := by
  have hpoint : left • S.generator + node.neuter.point =
      ((left + node.key) % S.order) • S.generator := by
    rw [S.mod_smul, add_smul]
    rfl
  have hzero : left • S.generator + node.neuter.point ≠ 0 ↔
      (left + node.key) % S.order ≠ 0 := by
    rw [hpoint, Ne, S.smul_eq_zero_iff, Nat.mod_mod]
  rw [PubNode.add, PrivNode.add]
  by_cases hvalid : left < S.order ∧ (left + node.key) % S.order ≠ 0
  · rw [dif_pos hvalid, dif_pos ⟨hvalid.1, hzero.mpr hvalid.2⟩]
    exact congrArg some (PubNode.ext hpoint rfl)
  · rw [dif_neg hvalid, dif_neg fun h => hvalid ⟨h.1, hzero.mp h.2⟩]
    rfl

/-- Below the upper half, a public node has the children of the private one. -/
theorem neuter_child (node : S.PrivNode) {i : BitVec 32} (h : ¬ hardened i) :
    node.neuter.child S i = (node.child i).map PrivNode.neuter := by
  have hdata : node.data i = S.ser_point node.neuter.point ++ S.ser_index i := by
    rw [PrivNode.data, if_neg h]
    rfl
  rw [PubNode.child, if_neg h, PrivNode.child, hdata]
  exact neuter_add node _ _

theorem add_eq_none_iff {node : S.PrivNode} {left : ℕ} {chain : C} :
    node.add left chain = none ↔ S.order ≤ left ∨ (left + node.key) % S.order = 0 := by
  rw [PrivNode.add, dite_eq_right_iff]
  simp only [reduceCtorEq, imp_false, not_and_or, not_lt, not_not]

theorem add_eq_some_iff {node child : S.PrivNode} {left : ℕ} {chain : C} :
    node.add left chain = some child ↔
      left < S.order ∧ child.key = (left + node.key) % S.order ∧ child.chain = chain := by
  rw [PrivNode.add]
  split
  · next hvalid =>
      refine ⟨fun h => ?_, fun ⟨_, hkey, hchain⟩ => ?_⟩
      · cases h
        exact ⟨hvalid.1, rfl, rfl⟩
      · exact congrArg some (PrivNode.ext hkey.symm hchain.symm)
  · next hinvalid =>
      refine ⟨fun h => (by cases h), fun ⟨hlt, hkey, _⟩ => absurd ⟨hlt, ?_⟩ hinvalid⟩
      rw [← hkey]
      exact child.key_pos.ne'

/-! ## Paths -/

/-- The private node of a seed; there is none if the number is not that of a key. -/
def master (S : KeyScheme G C) (salt : C) (seed : List Octet) : Option S.PrivNode :=
  let I := S.prf salt seed
  if h : 0 < I.1 ∧ I.1 < S.order then
    some { key := I.1, key_pos := h.1, key_lt := h.2, chain := I.2 }
  else none

theorem foldlM_concat {α β : Type} (f : β → α → Option β) (b : β) (path : List α) (a : α) :
    (path ++ [a]).foldlM f b = (path.foldlM f b).bind fun c => f c a := by
  simp [List.foldlM_append]

def PrivNode.derive (node : S.PrivNode) (path : List (BitVec 32)) : Option S.PrivNode :=
  path.foldlM PrivNode.child node

@[simp] theorem derive_nil (node : S.PrivNode) : node.derive [] = some node := rfl

theorem derive_concat (node : S.PrivNode) (path : List (BitVec 32)) (i : BitVec 32) :
    node.derive (path ++ [i]) = (node.derive path).bind fun parent => parent.child i :=
  foldlM_concat _ _ _ _

/-- A node with what it was derived from. -/
structure Extended (S : KeyScheme G C) where
  depth : ℕ
  parent : List Octet
  number : BitVec 32
  node : S.PrivNode

def Extended.root (node : S.PrivNode) : S.Extended where
  depth := 0
  parent := [0, 0, 0, 0]
  number := 0
  node

/-- A step; the fingerprint is that of the node it is made from. -/
def Extended.child (fingerprint : G → List Octet) (x : S.Extended) (i : BitVec 32) :
    Option S.Extended :=
  (x.node.child i).map fun node =>
    { depth := x.depth + 1
      parent := fingerprint x.node.neuter.point
      number := i
      node }

def Extended.derive (fingerprint : G → List Octet) (x : S.Extended) (path : List (BitVec 32)) :
    Option S.Extended :=
  path.foldlM (Extended.child fingerprint) x

/-- An extended public key; the depth is one byte. -/
def Extended.serialize (version : List Octet) (ser_chain : C → List Octet) (x : S.Extended) :
    Option (List Octet) :=
  if x.depth < 256 then
    some (version ++ [BitVec.ofNat 8 x.depth] ++ x.parent ++ S.ser_index x.number ++
      ser_chain x.node.chain ++ S.ser_point x.node.neuter.point)
  else none

section Extended

variable {fingerprint : G → List Octet}

theorem Extended.derive_concat (x : S.Extended) (path : List (BitVec 32)) (i : BitVec 32) :
    x.derive fingerprint (path ++ [i]) =
      (x.derive fingerprint path).bind fun parent => parent.child fingerprint i :=
  foldlM_concat _ _ _ _

/-- The nodes along a path are the same, with or without what they were derived from, and the
depth is the number of steps. -/
theorem Extended.derive_node (node : S.PrivNode) (path : List (BitVec 32)) :
    ((Extended.root node).derive fingerprint path).map Extended.node = node.derive path ∧
      ∀ x ∈ (Extended.root node).derive fingerprint path, x.depth = path.length := by
  induction path using List.reverseRecOn with
  | nil =>
      refine ⟨rfl, fun x hx => ?_⟩
      obtain rfl := Option.some.inj hx
      rfl
  | append_singleton path i ih =>
      obtain ⟨hnode, hdepth⟩ := ih
      rw [Extended.derive_concat, KeyScheme.derive_concat, ← hnode]
      cases hx : (Extended.root node).derive fingerprint path with
      | none => exact ⟨rfl, fun y hy => by cases hy⟩
      | some x =>
          refine ⟨?_, fun y hy => ?_⟩
          · show ((x.node.child i).map _).map _ = x.node.child i
            rw [Option.map_map]
            exact Option.map_id_apply
          · obtain ⟨c, _, rfl⟩ := Option.map_eq_some_iff.mp hy
            show x.depth + 1 = _
            rw [hdepth x hx, List.length_append, List.length_singleton]

/-- What a path that is not empty leads to comes from the node one step above. -/
theorem Extended.derive_last {node : S.PrivNode} {path : List (BitVec 32)} {i : BitVec 32}
    {parent c : S.PrivNode} (hparent : node.derive path = some parent)
    (hc : parent.child i = some c) :
    (Extended.root node).derive fingerprint (path ++ [i]) =
      some ⟨path.length + 1, fingerprint parent.neuter.point, i, c⟩ := by
  obtain ⟨hnode, hdepth⟩ := @Extended.derive_node _ _ _ _ fingerprint node path
  rw [hparent] at hnode
  obtain ⟨x, hx, hxnode⟩ := Option.map_eq_some_iff.mp hnode
  rw [Extended.derive_concat, hx]
  show (x.node.child i).map _ = _
  rw [hxnode, hc, ← hdepth x hx]
  rfl

end Extended

end KeyScheme

end Vanadium.Lib
