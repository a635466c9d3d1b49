import Vanadium.Proofs.HdNode

/-!
# The group of secp256k1

The points of the curve, with the one at infinity, form a group. The generator is one of
them, and its multiples are as many as the group order says, which is a prime: so what is
computed with multiples of the generator is arithmetic modulo that prime.

The SDK writes the point at infinity as zeros, and any other as its coordinates. No point
has a zero for `y`, so the two cannot be confused, and of a point and its opposite exactly
one has an even `y`.
-/

namespace Vanadium.AppSdk.Secp256k1

open Lib Lib.ModularPower WeierstrassCurve.Affine
open HDPrivNode (n)

/-! ## Points -/

theorem two_ne_zero : (2 : ZMod p) ≠ 0 := by
  intro h
  have hdvd : p ∣ 2 := (ZMod.natCast_eq_zero_iff 2 p).mp h
  exact absurd (Nat.le_of_dvd Nat.zero_lt_two hdvd) (by decide)

theorem nonsingular_iff {x y : ZMod p} :
    (Ladder.curve p 7).Nonsingular x y ↔ y ^ 2 = x ^ 3 + 7 := by
  rw [WeierstrassCurve.Affine.nonsingular_iff, WeierstrassCurve.Affine.equation_iff]
  refine ⟨fun h => by simpa using h.1, fun h => ⟨by simpa using h, .inr fun hy => ?_⟩⟩
  have hsum : 2 * y = 0 := by
    rw [two_mul]
    nth_rewrite 1 [hy]
    ring
  exact (AffinePoint.mk x y h).y_ne_zero ((mul_eq_zero.mp hsum).resolve_left two_ne_zero)

theorem AffinePoint.nonsingular (A : AffinePoint) : (Ladder.curve p 7).Nonsingular A.x A.y :=
  nonsingular_iff.mpr A.on_curve

def AffinePoint.point (A : AffinePoint) : Group := .some A.x A.y A.nonsingular

theorem AffinePoint.point_ne_zero (A : AffinePoint) : A.point ≠ 0 := Point.some_ne_zero _

theorem exists_affine {P : Group} (h : P ≠ 0) : ∃ A : AffinePoint, A.point = P := by
  cases P with
  | zero => exact absurd rfl h
  | some x y hxy => exact ⟨⟨x, y, nonsingular_iff.mp hxy⟩, rfl⟩

theorem AffinePoint.neg_on_curve (A : AffinePoint) : (-A.y) ^ 2 = A.x ^ 3 + 7 := by
  rw [neg_sq, A.on_curve]

/-- The opposite point. -/
def AffinePoint.neg (A : AffinePoint) : AffinePoint := ⟨A.x, -A.y, A.neg_on_curve⟩

theorem AffinePoint.point_eq {A B : AffinePoint} (hx : A.x = B.x) (hy : A.y = B.y) :
    A.point = B.point := by
  obtain ⟨x, y, hA⟩ := A
  obtain ⟨x', y', hB⟩ := B
  cases hx
  cases hy
  rfl

theorem AffinePoint.point_neg (A : AffinePoint) : A.neg.point = -A.point := by
  rw [AffinePoint.point, AffinePoint.point, Point.neg_some]
  simp [AffinePoint.neg, negY]

/-! ## As the SDK writes them -/

def encode : Group → AppSdk.Point
  | .zero => .default
  | .some x y _ => .new (hex32 x.val) (hex32 y.val)

theorem encode_point (A : AffinePoint) : encode A.point = A.key.public_key := rfl

theorem AffinePoint.is_zero (A : AffinePoint) : (encode A.point).is_zero = false := by
  have hy : hex32 A.y.val ≠ Vector.replicate 32 0 := by
    rw [Ne, eq_zero_iff, value_hex32_val, ZMod.val_eq_zero]
    exact A.y_ne_zero
  rw [encode_point]
  exact Bool.and_eq_false_imp.mpr fun _ => beq_eq_false_iff_ne.mpr hy

theorem is_zero_iff (P : Group) : (encode P).is_zero = true ↔ P = 0 := by
  by_cases h : P = 0
  · subst h
    exact ⟨fun _ => rfl, fun _ => rfl⟩
  · obtain ⟨A, rfl⟩ := exists_affine h
    rw [A.is_zero]
    exact ⟨fun h => (by cases h), fun h0 => absurd h0 h⟩

/-- Whether `y` is even, in the last byte. -/
def even (P : Group) : Bool := (encode P).y[31]! &&& 1 == 0

theorem AffinePoint.even_iff (A : AffinePoint) : even A.point = true ↔ A.y.val % 2 = 0 := by
  have hbyte : (encode A.point).y[31]! &&& 1 = (0 : U8) &&& 1 ↔
      (hex32 A.y.val)[31].toNat % 2 = (0 : U8).toNat % 2 := and_one_eq_iff _ _
  rw [last_byte_parity] at hbyte
  rw [even, beq_iff_eq]
  exact hbyte

theorem even_neg {P : Group} (h : P ≠ 0) : even (-P) = !even P := by
  obtain ⟨A, rfl⟩ := exists_affine h
  have hflip := val_neg_parity p_odd A.y_ne_zero
  have hneg : even (-A.point) = true ↔ (-A.y).val % 2 = 0 := by
    rw [← A.point_neg]
    exact A.neg.even_iff
  have hpos := A.even_iff
  cases heven : even A.point with
  | true =>
      rw [heven] at hpos
      exact Bool.eq_false_iff.mpr fun h => (by have := hneg.mp h; have := hpos.mp rfl; omega)
  | false =>
      rw [heven] at hpos
      exact hneg.mpr (by
        by_contra hodd
        exact absurd (hpos.mpr (by omega)) Bool.false_ne_true)

theorem x_neg (P : Group) : (encode (-P)).x = (encode P).x := by
  by_cases h : P = 0
  · rw [h, neg_zero]
  · obtain ⟨A, rfl⟩ := exists_affine h
    rw [← A.point_neg]
    rfl

/-- A point with the same `x` is the same one or its opposite. -/
theorem eq_or_neg_of_x {P Q : Group} (hP : P ≠ 0) (hQ : Q ≠ 0)
    (h : (encode P).x = (encode Q).x) : P = Q ∨ P = -Q := by
  obtain ⟨A, rfl⟩ := exists_affine hP
  obtain ⟨B, rfl⟩ := exists_affine hQ
  have hx : A.x = B.x := hex32_val_inj.mp h
  have hy : A.y = B.y ∨ A.y = -B.y := by
    rw [← sq_eq_sq_iff_eq_or_eq_neg, A.on_curve, B.on_curve, hx]
  rw [← B.point_neg]
  exact hy.imp (AffinePoint.point_eq hx) (AffinePoint.point_eq hx)

/-- The compressed encoding, and zeros for infinity. -/
def compressed (P : Group) : Vector U8 33 :=
  if (encode P).is_zero then Vector.replicate 33 0
  else EcfpPublicKey.compressed_bytes (encode P)

theorem compressed_point (A : AffinePoint) : compressed A.point = A.sec1 := by
  rw [compressed, if_neg (by rw [A.is_zero]; exact Bool.false_ne_true), encode_point,
    compressed_bytes_key]

/-! ## The generator -/

/-- The primes below the group order, down to those that are found by division, and what
generates the units modulo each of them. -/
theorem generators :
    Generates 297159362677 2 [2, 2, 3, 3, 11, 461, 1627771] 40 ∧
    Generates 545358713 5 [2, 2, 2, 41, 59, 28181] 30 ∧
    Generates 107361793816595537 3 [2, 2, 2, 2, 16699, 85831, 4681609] 60 ∧
    Generates 174723607534414371449 3 [2, 2, 2, 17, 59, 4051, 120233, 44706919] 70 ∧
    Generates 29047611873442575647497758179 2 [2, 293, 305873, 545358713, 297159362677] 100 ∧
    Generates 341948486974166000522343609283189 2
      [2, 2, 3, 3, 3, 109, 29047611873442575647497758179] 110 ∧
    Generates n 7 [2, 2, 2, 2, 2, 2, 3, 149, 631, 107361793816595537, 174723607534414371449,
      341948486974166000522343609283189] 256 := by
  decide +kernel

theorem n_prime : n.Prime := by
  obtain ⟨h12, h9, h17, h21, h29, h33, hn⟩ := generators
  have prime_12 : Nat.Prime 297159362677 := by
    refine h12.prime ?_
    simp only [List.forall_mem_cons]
    norm_num
  have prime_9 : Nat.Prime 545358713 := by
    refine h9.prime ?_
    simp only [List.forall_mem_cons]
    norm_num
  have prime_17 : Nat.Prime 107361793816595537 := by
    refine h17.prime ?_
    simp only [List.forall_mem_cons]
    norm_num
  have prime_21 : Nat.Prime 174723607534414371449 := by
    refine h21.prime ?_
    simp only [List.forall_mem_cons]
    norm_num
  have prime_29 : Nat.Prime 29047611873442575647497758179 := by
    refine h29.prime ?_
    simp only [List.forall_mem_cons, prime_12, prime_9]
    norm_num
  have prime_33 : Nat.Prime 341948486974166000522343609283189 := by
    refine h33.prime ?_
    simp only [List.forall_mem_cons, prime_29]
    norm_num
  refine hn.prime ?_
  simp only [List.forall_mem_cons, prime_17, prime_21, prime_33]
  norm_num

local instance : Fact n.Prime := ⟨n_prime⟩

theorem n_lt : n < 256 ^ 32 := by decide

def gx : ℕ := 0x79BE667EF9DCBBAC55A06295CE870B07029BFCDB2DCE28D959F2815B16F81798

def gy : ℕ := 0x483ADA7726A3C4655DA4FBFC0E1108A8FD17B448A68554199C47D08FFB10D4B8

theorem generator_on_curve : (gy : ZMod p) ^ 2 = (gx : ZMod p) ^ 3 + 7 := by
  have hmod : (gy ^ 2 : ℕ) % p = (gx ^ 3 + 7 : ℕ) % p := by decide
  simpa using (ZMod.natCast_eq_natCast_iff' _ _ _).mpr hmod

def generator : AffinePoint := ⟨gx, gy, generator_on_curve⟩

theorem encode_generator : encode generator.point = get_generator := by
  have hx : (gx : ZMod p).val = gx := ZMod.val_cast_of_lt (by decide)
  have hy : (gy : ZMod p).val = gy := ZMod.val_cast_of_lt (by decide)
  show AppSdk.Point.new (hex32 (gx : ZMod p).val) (hex32 (gy : ZMod p).val) = _
  rw [hx, hy]
  rfl

open Ladder.Jacobian in
/-- The multiple before the last one has the coordinates of the opposite point. -/
theorem multiple_opposite :
    (multiple p gx gy 255 (n - 1)).z % p ≠ 0 ∧
    (multiple p gx gy 255 (n - 1)).x % p = gx * (multiple p gx gy 255 (n - 1)).z ^ 2 % p ∧
    ((multiple p gx gy 255 (n - 1)).y + gy * (multiple p gx gy 255 (n - 1)).z ^ 3) % p = 0 := by
  decide +kernel

theorem n_smul_generator : n • generator.point = 0 :=
  Ladder.Jacobian.smul_eq_zero _ 255 (n - 1) (by decide) (by decide) multiple_opposite.1
    multiple_opposite.2.1 multiple_opposite.2.2

theorem addOrderOf_generator : addOrderOf generator.point = n :=
  addOrderOf_eq_prime n_smul_generator generator.point_ne_zero

/-- The multiple of the generator by a number modulo the order. -/
def mulG : ZMod n →+ Group :=
  ZMod.lift n ⟨zmultiplesHom Group generator.point, by
    rw [zmultiplesHom_apply, natCast_zsmul, n_smul_generator]⟩

theorem mulG_natCast (k : ℕ) : mulG k = k • generator.point := by
  have hcast : ((k : ℕ) : ZMod n) = ((k : ℤ) : ZMod n) := (Int.cast_natCast k).symm
  rw [hcast, mulG, ZMod.lift_coe]
  show (k : ℤ) • generator.point = _
  rw [natCast_zsmul]

theorem mulG_smul (k : ℕ) (z : ZMod n) : mulG (k * z) = k • mulG z := by
  rw [← nsmul_eq_mul, map_nsmul]

theorem mulG_eq_zero {z : ZMod n} : mulG z = 0 ↔ z = 0 := by
  rw [← ZMod.natCast_zmod_val z, mulG_natCast, ← addOrderOf_dvd_iff_nsmul_eq_zero,
    addOrderOf_generator, ZMod.natCast_eq_zero_iff]

theorem mulG_ne_zero {z : ZMod n} (h : z ≠ 0) : mulG z ≠ 0 := fun h0 => h (mulG_eq_zero.mp h0)

end Vanadium.AppSdk.Secp256k1
