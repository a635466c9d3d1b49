import Mathlib

/-!
# Numbers as bytes, the least significant one first

A number is written in a fixed number of bytes, and read from however many there
are. The bytes are the digits to the base 256, so that most of what there is to
know about them is known about digits.
-/

namespace Vanadium.Lib.LittleEndian

/-- The last `k` bytes of `n`. -/
def write : ℕ → ℕ → List (BitVec 8)
  | 0, _ => []
  | k + 1, n => BitVec.ofNat 8 n :: write k (n / 256)

def read (bytes : List (BitVec 8)) : ℕ := Nat.ofDigits 256 (bytes.map BitVec.toNat)

@[simp] theorem length_write (k n : ℕ) : (write k n).length = k := by
  induction k generalizing n with
  | zero => rfl
  | succ k ih => simp [write, ih]

@[simp] theorem read_nil : read [] = 0 := rfl

theorem read_cons (b : BitVec 8) (bytes : List (BitVec 8)) :
    read (b :: bytes) = b.toNat + 256 * read bytes := by
  rw [read, List.map_cons, Nat.ofDigits_cons]
  rfl

theorem read_lt (bytes : List (BitVec 8)) : read bytes < 256 ^ bytes.length := by
  have h := Nat.ofDigits_lt_base_pow_length (b := 256) (l := bytes.map BitVec.toNat) (by decide)
    (by simpa using fun b _ => b.isLt)
  rwa [List.length_map] at h

theorem read_write {k n : ℕ} (h : n < 256 ^ k) : read (write k n) = n := by
  induction k generalizing n with
  | zero =>
      obtain rfl : n = 0 := by simpa using h
      rfl
  | succ k ih =>
      have hdiv : n / 256 < 256 ^ k := Nat.div_lt_of_lt_mul (by rwa [← Nat.pow_succ'])
      rw [write, read_cons, ih hdiv, BitVec.toNat_ofNat]
      exact Nat.mod_add_div n 256

theorem write_read (bytes : List (BitVec 8)) : write bytes.length (read bytes) = bytes := by
  induction bytes with
  | nil => rfl
  | cons b bytes ih =>
      have hb := b.isLt
      have hdiv : (b.toNat + 256 * read bytes) / 256 = read bytes := by omega
      rw [List.length_cons, write, read_cons, hdiv, ih]
      congr 1
      refine BitVec.eq_of_toNat_eq ?_
      rw [BitVec.toNat_ofNat]
      omega

theorem write_injOn (k : ℕ) : Set.InjOn (write k) { n | n < 256 ^ k } := by
  intro m hm n hn h
  rw [← read_write hm, h, read_write hn]

end Vanadium.Lib.LittleEndian
