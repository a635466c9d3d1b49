import Mathlib

/-!
# Ranges of a byte-addressed memory

A memory is a function from addresses to bytes; a range of it is a list. Two
writes next to each other are one write, and the same for reads, as long as
the range does not come round to its own beginning.
-/

namespace Vanadium.Lib.ByteMap

variable {w : ℕ} {β : Type}

/-- The `n` bytes from `a` on. -/
def load (mem : BitVec w → β) (a : BitVec w) (n : ℕ) : List β :=
  (List.range n).map fun k => mem (a + BitVec.ofNat w k)

/-- The memory with `bytes` from `a` on. -/
def store (mem : BitVec w → β) (a : BitVec w) (bytes : List β) (b : BitVec w) : β :=
  bytes.getD (b - a).toNat (mem b)

variable {mem : BitVec w → β} {a b : BitVec w}

@[simp] theorem length_load (mem : BitVec w → β) (a : BitVec w) (n : ℕ) :
    (load mem a n).length = n := by simp [load]

@[simp] theorem load_zero (mem : BitVec w → β) (a : BitVec w) : load mem a 0 = [] := rfl

theorem load_add (mem : BitVec w → β) (a : BitVec w) (m n : ℕ) :
    load mem a (m + n) = load mem a m ++ load mem (a + BitVec.ofNat w m) n := by
  simp only [load, List.range_add, List.map_append, List.map_map]
  congr 2
  funext k
  simp [BitVec.add_assoc, BitVec.ofNat_add]

@[simp] theorem store_nil (mem : BitVec w → β) (a : BitVec w) : store mem a [] = mem := rfl

/-- What is not in the range stays. -/
theorem store_of_le {bytes : List β} (h : bytes.length ≤ (b - a).toNat) :
    store mem a bytes b = mem b := by
  rw [store, List.getD_eq_getElem?_getD, List.getElem?_eq_none h, Option.getD_none]

theorem store_outside {bytes : List β} (hfit : a.toNat + bytes.length ≤ 2 ^ w)
    (h : b.toNat < a.toNat ∨ a.toNat + bytes.length ≤ b.toNat) : store mem a bytes b = mem b := by
  refine store_of_le ?_
  rw [BitVec.toNat_sub]
  have hb := b.isLt
  rcases h with h | h
  · rw [Nat.mod_eq_of_lt (by omega)]
    omega
  · rw [show 2 ^ w - a.toNat + b.toNat = (b.toNat - a.toNat) + 2 ^ w by omega,
      Nat.add_mod_right, Nat.mod_eq_of_lt (by omega)]
    omega

theorem store_append {xs ys : List β} (h : xs.length + ys.length ≤ 2 ^ w) :
    store (store mem a xs) (a + BitVec.ofNat w xs.length) ys = store mem a (xs ++ ys) := by
  funext b
  have hd : (b - (a + BitVec.ofNat w xs.length)).toNat =
      (2 ^ w - xs.length % 2 ^ w + (b - a).toNat) % 2 ^ w := by
    rw [← BitVec.sub_sub, BitVec.toNat_sub (b - a), BitVec.toNat_ofNat]
  have hlt := (b - a).isLt
  generalize hk : (b - a).toNat = k at hd hlt
  simp only [store, hk]
  by_cases hx : k < xs.length
  · have hxs : xs.getD k (mem b) = (xs ++ ys).getD k (mem b) := by
      rw [List.getD_append _ _ _ _ hx]
    rw [← hxs, List.getD_eq_getElem?_getD, List.getElem?_eq_none, Option.getD_none]
    rw [hd]
    rcases Nat.lt_or_ge xs.length (2 ^ w) with hlt' | hge
    · rw [Nat.mod_eq_of_lt hlt', Nat.mod_eq_of_lt (by omega)]
      omega
    · have hys : ys.length = 0 := by omega
      omega
  · have hlt' : xs.length < 2 ^ w := by omega
    rw [List.getD_append_right _ _ _ _ (by omega), hd, Nat.mod_eq_of_lt hlt',
      show 2 ^ w - xs.length + k = (k - xs.length) + 2 ^ w by omega, Nat.add_mod_right,
      Nat.mod_eq_of_lt (by omega)]
    simp only [List.getD_eq_getElem?_getD, List.getElem?_eq_none (show xs.length ≤ k by omega),
      Option.getD_none]

/-- The bytes stored are there. -/
theorem load_store {bytes : List β} (h : bytes.length ≤ 2 ^ w) :
    load (store mem a bytes) a bytes.length = bytes := by
  refine List.ext_getElem (by simp) fun k hk hk' => ?_
  have hsub : (a + BitVec.ofNat w k - a).toNat = k := by
    rw [BitVec.add_comm, BitVec.add_sub_cancel, BitVec.toNat_ofNat, Nat.mod_eq_of_lt (by omega)]
  simp only [load, List.getElem_map, List.getElem_range, store, hsub]
  rw [List.getD_eq_getElem _ _ hk']

end Vanadium.Lib.ByteMap
