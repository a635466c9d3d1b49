import Vanadium.Proofs.RootComputer

/-!
# The stack of the root computer

The stack is a binary counter. After `k` leaves it has the root of one subtree for
each bit of `k` that is set, the largest first, and a carry is a combination of two of
them. So there is always something to combine where there has to be, and what is on
the stack after the last leaf is the root of the tree that the accumulator builds.

For the number of combinations there is a copy of the computer that counts them.
-/

namespace Vanadium

open Lib

variable {N : ℕ} (H : Bytes → HashOutput N)

/-! ## One subtree for each bit -/

/-- The bits of a counter, from the highest on, are those of its half, one higher, and its
last one. -/
theorem bits_eq (c : ℕ) : c.bitIndices.reverse =
    (c / 2).bitIndices.reverse.map (· + 1) ++ if c % 2 = 1 then [0] else [] := by
  obtain ⟨m, rfl | rfl⟩ := Nat.even_or_odd' c
  · have hhalf : 2 * m / 2 = m := by omega
    rw [Nat.bitIndices_two_mul, if_neg (by omega), hhalf, List.append_nil, List.map_reverse]
  · have hhalf : (2 * m + 1) / 2 = m := by omega
    rw [Nat.bitIndices_two_mul_add_one, if_pos (by omega), hhalf, List.reverse_cons,
      List.map_reverse]

/-- The root of the last subtree of height `b` below `k` leaves, where bit `b` of `k` is set. -/
def bit_root (leaf : ℕ → HashOutput N) (k b : ℕ) : HashOutput N :=
  subRoot (hash_internal_node H) leaf b (2 * (k / 2 ^ (b + 1)))

theorem frontier_bits (leaf : ℕ → HashOutput N) (c : ℕ) : ∀ k,
    frontier (hash_internal_node H) leaf k c = c.bitIndices.reverse.map fun b =>
      subRoot (hash_internal_node H) leaf (k + b) (2 * (c / 2 ^ (b + 1))) := by
  induction c using Nat.strong_induction_on with
  | h c ih =>
      intro k
      rw [Lib.frontier]
      split
      · next hc =>
          rw [hc]
          rfl
      · next hc =>
          rw [ih (c / 2) (by omega) (k + 1), bits_eq c, List.map_append, List.map_map]
          refine congrArg₂ (· ++ ·) (List.map_congr_left fun b _ => ?_) ?_
          · have hhalf : c / 2 / 2 ^ (b + 1) = c / 2 ^ (b + 1 + 1) := by
              rw [Nat.div_div_eq_div_mul, pow_succ' 2 (b + 1)]
            rw [hhalf, Function.comp_apply, Nat.add_assoc, Nat.add_comm 1 b]
          · split
            · have hlast : 2 * (c / 2 ^ (0 + 1)) = c - 1 := by omega
              rw [List.map_singleton, hlast, Nat.add_zero]
            · rfl

/-! ## Combinations -/

theorem two_pow_trailing_zeros_le {x : ℕ} (hx : x ≠ 0) : 2 ^ trailing_zeros x ≤ x := by
  induction x using Nat.strong_induction_on with
  | h x ih =>
      rcases Nat.mod_two_eq_zero_or_one x with h | h
      · have := ih (x / 2) (by omega) (by omega)
        rw [trailing_zeros_even h hx, pow_succ]
        omega
      · rw [trailing_zeros_odd h, pow_zero]
        omega

namespace MerkleAccumulatorRootComputer

/-- `combine`, and how many pairs it combined. -/
def combine_counted : ℕ → Array (HashOutput N) → Option (Array (HashOutput N) × ℕ)
  | 0, hashes => some (hashes, 0)
  | d + 1, hashes => do
      let right ← hashes.back?
      let left ← hashes.pop.back?
      let (hashes, count) ←
        combine_counted d (hashes.pop.pop.push (hash_internal_node H left right))
      some (hashes, count + 1)

/-- `feed`, and how many pairs it combined. -/
def feed_counted (c : MerkleAccumulatorRootComputer N) (leaf_hash : HashOutput N) :
    Option (MerkleAccumulatorRootComputer N × ℕ) :=
  if c.cur_size ≥ c.n then none
  else do
    let cur_size := c.cur_size + 1
    let (hashes, count) ← combine_counted H (trailing_zeros cur_size) (c.hashes.push leaf_hash)
    some ({ c with cur_size, hashes }, count)

/-- The counts of a run, leaf by leaf. -/
def feed_all_counted (c : MerkleAccumulatorRootComputer N) :
    List (HashOutput N) → Option (MerkleAccumulatorRootComputer N × List ℕ)
  | [] => some (c, [])
  | leaf_hash :: hashes => do
      let (c, count) ← c.feed_counted H leaf_hash
      let (c, counts) ← c.feed_all_counted hashes
      some (c, count :: counts)

/-- Each combination takes two hashes from the stack and puts one back. -/
theorem combine_counted_eq {d : ℕ} {hashes hashes' : Array (HashOutput N)}
    (h : combine H d hashes = some hashes') :
    combine_counted H d hashes = some (hashes', d) ∧ hashes'.size + d = hashes.size := by
  induction d generalizing hashes with
  | zero =>
      cases h
      exact ⟨rfl, rfl⟩
  | succ d ih =>
      rw [combine] at h
      split at h
      · cases h
      · next right hright =>
          split at h
          · cases h
          · next left hleft =>
              obtain ⟨hcounted, hsize⟩ := ih h
              rw [combine_counted, hright]
              simp only [Option.bind_eq_bind, Option.bind_some, hleft, hcounted]
              refine ⟨trivial, ?_⟩
              have hne : hashes.pop.size ≠ 0 := by
                intro h0
                rw [Array.eq_empty_of_size_eq_zero h0] at hleft
                cases hleft
              rw [Array.size_push, Array.size_pop] at hsize
              rw [Array.size_pop] at hsize hne
              omega

theorem feed_counted_eq {c c' : MerkleAccumulatorRootComputer N} {leaf_hash : HashOutput N}
    (h : c.feed H leaf_hash = some c') :
    c.feed_counted H leaf_hash = some (c', trailing_zeros (c.cur_size + 1)) ∧
      c'.hashes.size + trailing_zeros (c.cur_size + 1) = c.hashes.size + 1 := by
  unfold feed at h
  split at h
  · cases h
  · next hlt =>
      simp only at h
      split at h
      · cases h
      · next hashes hcombine =>
          obtain ⟨hcounted, hsize⟩ := combine_counted_eq H hcombine
          cases h
          rw [Array.size_push] at hsize
          refine ⟨?_, hsize⟩
          simp only [feed_counted, if_neg hlt, hcounted, Option.bind_eq_bind, Option.bind_some]

theorem feed_all_counted_eq {c c' : MerkleAccumulatorRootComputer N} {hashes : List (HashOutput N)}
    (h : c.feed_all H hashes = some c') : ∃ counts,
      c.feed_all_counted H hashes = some (c', counts) ∧
        (∀ m ∈ counts, 2 ^ m ≤ c.cur_size + hashes.length) ∧
          c'.hashes.size + counts.sum = c.hashes.size + hashes.length := by
  induction hashes generalizing c with
  | nil =>
      cases h
      exact ⟨[], rfl, by simp, rfl⟩
  | cons leaf_hash hashes ih =>
      rw [feed_all, List.foldlM_cons, Option.bind_eq_bind, Option.bind_eq_some_iff] at h
      obtain ⟨c₁, hfeed, h⟩ := h
      obtain ⟨hcounted, hsize⟩ := feed_counted_eq H hfeed
      have hcur : c₁.cur_size = c.cur_size + 1 := by
        unfold feed at hfeed
        split at hfeed
        · cases hfeed
        · simp only at hfeed
          split at hfeed
          · cases hfeed
          · cases hfeed
            rfl
      obtain ⟨counts, hcounts, hle, hsum⟩ := ih h
      refine ⟨trailing_zeros (c.cur_size + 1) :: counts, ?_, ?_, ?_⟩
      · simp only [feed_all_counted, hcounted, hcounts, Option.bind_eq_bind, Option.bind_some]
      · rw [List.forall_mem_cons, List.length_cons]
        have hfirst := two_pow_trailing_zeros_le (by omega : c.cur_size + 1 ≠ 0)
        refine ⟨by omega, fun m hm => ?_⟩
        have := hle m hm
        omega
      · rw [List.sum_cons, List.length_cons]
        omega

/-! ## The two roots -/

/-- What `build_tree` has at the root, for leaves with these hashes. -/
def built_root (hashes : List (HashOutput N)) : HashOutput N :=
  (MerkleAccumulator.build_tree.loop H
    (List.replicate (hashes.length - 1) (Vector.replicate N 0#8) ++ hashes).toArray
    (hashes.length - 1))[0]!

theorem root_build_tree {T : Type} [AsRef T] (data : List T) :
    (MerkleAccumulator.build_tree H { data, tree := #[] }).root =
      built_root H (data.map (hash_leaf H)) := by
  rw [built_root, List.length_map]
  rfl

theorem built_root_eq {hashes : List (HashOutput N)} {d : ℕ} (hlen : hashes.length = 2 ^ d) :
    built_root H hashes = rootOf H (fun i => hashes.getD i default) d := by
  have hp := Nat.two_pow_pos d
  unfold built_root
  refine (build_tree_loop H (by omega) (by simp [hlen, pow_succ]; omega)
    fun m i hm hi hle => ?_).root
  -- a position from `n - 1` on is a leaf
  have hmd : m = d := by
    rcases Nat.lt_or_ge m d with hlt | hge
    · have hpow := Nat.pow_le_pow_right (n := 2) (by omega) hlt
      rw [pow_succ] at hpow
      omega
    · omega
  subst hmd
  simp only [nodeAt, Nat.sub_self, subRoot]
  rw [List.getElem!_toArray, List.getElem!_eq_getElem?_getD,
    List.getElem?_append_right (by simp [hlen]), List.getD_eq_getElem?_getD]
  simp [hlen]

/-- The stack after `k` leaves: a subtree for each bit of `k`. -/
def stack (hashes : List (HashOutput N)) (k : ℕ) : List (HashOutput N) :=
  k.bitIndices.reverse.map (bit_root H (fun i => hashes.getD i default) k)

theorem feed_all_take {hashes : List (HashOutput N)} {d k : ℕ} (hlen : hashes.length = 2 ^ d)
    (hk : k ≤ hashes.length) : ∃ c₀ c, new hashes.length = some c₀ ∧
      c₀.feed_all H (hashes.take k) = some c ∧ c.hashes = (stack H hashes k).toArray ∧
        c.cur_size = k := by
  rw [hlen] at hk ⊢
  have htake : (hashes.take k).length = k := by
    rw [List.length_take]
    omega
  have hfeed := feed_all_at_leaf H (fun i => hashes.getD i default) (n := 2 ^ d) (hashes.take k) 0
    (by omega) fun j hj => by
      rw [List.getElem_take, Nat.zero_add, List.getD_eq_getElem]
  rw [htake, Nat.zero_add] at hfeed
  refine ⟨_, _, new_eq H _, hfeed, ?_, rfl⟩
  rw [at_leaf, frontier_bits]
  simp only [Nat.zero_add]
  rfl

/-- Fed the leaves of a complete tree, the computer has at any time a subtree for each bit of
the number of leaves so far, and in the end the root that the accumulator builds. A leaf takes
no more combinations than the tree has levels, and all of them one less than there are leaves. -/
theorem root_computer_agrees (hashes : List (HashOutput N)) (d : ℕ)
    (hlen : hashes.length = 2 ^ d) :
    (∀ k ≤ hashes.length, ∃ c₀ c, new hashes.length = some c₀ ∧
      c₀.feed_all H (hashes.take k) = some c ∧ c.hashes = (stack H hashes k).toArray) ∧
    ∃ c₀ c counts, new hashes.length = some c₀ ∧ c₀.feed_all H hashes = some c ∧
      c₀.feed_all_counted H hashes = some (c, counts) ∧
        (∀ m ∈ counts, m ≤ Nat.log 2 hashes.length) ∧ counts.sum = hashes.length - 1 ∧
          c.root = some (built_root H hashes) ∧
            ∀ (T : Type) [AsRef T] (data : List T), data.map (hash_leaf H) = hashes →
              ∃ ma, MerkleAccumulator.new H data = some ma ∧ c.root = some ma.root := by
  constructor
  · intro k hk
    obtain ⟨c₀, c, hnew, hfeed, hstack, -⟩ := feed_all_take H hlen hk
    exact ⟨c₀, c, hnew, hfeed, hstack⟩
  · have hnew := new_eq H (fun i => hashes.getD i default) (d := d)
    have hfeed := feed_all_at_leaf H (fun i => hashes.getD i default) (n := 2 ^ d) hashes 0
      (by omega) fun j hj => by rw [Nat.zero_add, List.getD_eq_getElem]
    rw [hlen, Nat.zero_add] at hfeed
    obtain ⟨counts, hcounted, hle, hsum⟩ := feed_all_counted_eq H hfeed
    have hroot := root_at_leaf H (fun i => hashes.getD i default) d
    rw [← built_root_eq H hlen] at hroot
    rw [hlen]
    refine ⟨_, _, counts, hnew, hfeed, hcounted, fun m hm => ?_, ?_, hroot, ?_⟩
    · have hpow := hle m hm
      rw [hlen] at hpow
      exact Nat.le_log_of_pow_le (by omega) (by simpa [at_leaf] using hpow)
    · simp only [at_leaf, frontier_two_pow, frontier_zero, List.size_toArray, List.length_cons,
        List.length_nil, hlen] at hsum
      omega
    · intro T _ data hdata
      have hvalid : has_valid_leaf_count data.length = true := by
        rw [← List.length_map (hash_leaf H), hdata, hlen]
        exact has_valid_leaf_count_two_pow d
      refine ⟨_, if_pos hvalid, ?_⟩
      rw [root_build_tree, hdata]
      exact hroot

/-- The sum of the bytes, which tells these four leaves apart. -/
def sum_hash (bytes : Bytes) : HashOutput 1 := #v[bytes.sum]

theorem root_computer_agrees_four : ∃ c₀ c counts,
    new (N := 1) 4 = some c₀ ∧ c₀.feed_all sum_hash [#v[1], #v[2], #v[3], #v[4]] = some c ∧
      c₀.feed_all_counted sum_hash [#v[1], #v[2], #v[3], #v[4]] = some (c, counts) ∧
        counts.sum = 3 := by
  obtain ⟨-, c₀, c, counts, hnew, hfeed, hcounted, -, hsum, -⟩ :=
    root_computer_agrees sum_hash [#v[1], #v[2], #v[3], #v[4]] 2 rfl
  exact ⟨c₀, c, counts, hnew, hfeed, hcounted, hsum⟩

end MerkleAccumulatorRootComputer

end Vanadium
