import Mathlib

/-!
# Multiples of a point

The curve `y² = x³ + b` over a prime field. A point is kept as three numbers `x`, `y`, `z`
that stand for the coordinates `x / z²` and `y / z³`, so that to double it, or to add
another one, takes no division. A multiple of a point then takes one doubling for each bit
of the factor, and one addition for each bit that is set.

Both formulas break down at the same place: where the sum is not what they compute, the
last number is zero. It is a multiple of the one before, so it is enough that the result of
all the steps does not have it zero.
-/

namespace Vanadium.Lib.Ladder

variable (p : ℕ)

/-- `y² = x³ + b` -/
abbrev curve (b : ZMod p) : WeierstrassCurve.Affine (ZMod p) := ⟨0, 0, 0, 0, b⟩

def sub (a b : ℕ) : ℕ := a + (p - b % p)

structure Jacobian where
  x : ℕ
  y : ℕ
  z : ℕ

namespace Jacobian

def double (J : Jacobian) : Jacobian :=
  let y2 := J.y * J.y % p
  let s := 4 * J.x * y2 % p
  let m := 3 * J.x * J.x % p
  let x := sub p (m * m) (2 * s) % p
  { x, y := sub p (m * sub p s x) (8 * y2 * y2) % p, z := 2 * J.y * J.z % p }

/-- The point that is added has its coordinates as they are. -/
def add (J : Jacobian) (gx gy : ℕ) : Jacobian :=
  let z2 := J.z * J.z % p
  let h := sub p (gx * z2) J.x % p
  let r := sub p (gy * z2 * J.z) J.y % p
  let h2 := h * h % p
  let v := J.x * h2 % p
  let x := sub p (r * r) (h2 * h + 2 * v) % p
  { x, y := sub p (r * sub p v x) (J.y * h2 * h) % p, z := J.z * h % p }

/-- The multiple by a number of `fuel + 1` bits. -/
def multiple (gx gy : ℕ) : ℕ → ℕ → Jacobian
  | 0, _ => ⟨gx, gy, 1⟩
  | fuel + 1, k =>
      if k % 2 = 1 then ((multiple gx gy fuel (k / 2)).double p).add p gx gy
      else (multiple gx gy fuel (k / 2)).double p

end Jacobian

variable {p} [hp : Fact p.Prime] {b : ZMod p} {gx gy : ℕ}

@[simp] theorem cast_sub (a c : ℕ) : ((sub p a c : ℕ) : ZMod p) = a - c := by
  have hle : c % p ≤ p := (Nat.mod_lt c hp.out.pos).le
  rw [sub, Nat.cast_add, Nat.cast_sub hle, ZMod.natCast_self, ZMod.natCast_mod]
  ring

namespace Jacobian

/-- What the three numbers stand for. -/
def Is (J : Jacobian) (P : (curve p b).Point) : Prop :=
  ∃ x y h, P = .some x y h ∧ (J.x : ZMod p) = x * J.z ^ 2 ∧ (J.y : ZMod p) = y * J.z ^ 3

theorem cast_double_x (J : Jacobian) : (((J.double p).x : ℕ) : ZMod p) =
    9 * J.x ^ 4 - 8 * J.x * J.y ^ 2 := by
  simp [double]
  ring

theorem cast_double_y (J : Jacobian) : (((J.double p).y : ℕ) : ZMod p) =
    3 * J.x ^ 2 * (12 * J.x * J.y ^ 2 - 9 * J.x ^ 4) - 8 * J.y ^ 4 := by
  simp [double]
  ring

theorem cast_double_z (J : Jacobian) : (((J.double p).z : ℕ) : ZMod p) = 2 * J.y * J.z := by
  simp [double]

theorem Is.double {J : Jacobian} {P : (curve p b).Point} (hJ : J.Is P)
    (hz : (((J.double p).z : ℕ) : ZMod p) ≠ 0) : (J.double p).Is (P + P) := by
  obtain ⟨x, y, h, rfl, hx, hy⟩ := hJ
  rw [cast_double_z] at hz
  have hz0 : (J.z : ZMod p) ≠ 0 := right_ne_zero_of_mul hz
  have hy0 : 2 * y ≠ 0 := fun h0 => hz (by
    rw [hy, ← mul_assoc, h0, zero_mul, zero_mul])
  have hy2 : y ≠ 0 := right_ne_zero_of_mul hy0
  have htwo : (2 : ZMod p) ≠ 0 := left_ne_zero_of_mul hy0
  have hneg : y ≠ (curve p b).negY x y := by
    intro h0
    refine hy0 ?_
    rw [two_mul]
    nth_rewrite 1 [h0]
    simp [WeierstrassCurve.Affine.negY]
  have hslope : (curve p b).slope x x y y = 3 * x ^ 2 / (2 * y) := by
    rw [WeierstrassCurve.Affine.slope_of_Y_ne rfl hneg]
    simp [WeierstrassCurve.Affine.negY, two_mul]
  refine ⟨_, _, _, WeierstrassCurve.Affine.Point.add_self_of_Y_ne hneg, ?_, ?_⟩
  · rw [cast_double_x, cast_double_z, hx, hy, hslope, WeierstrassCurve.Affine.addX]
    field_simp
    ring
  · rw [cast_double_y, cast_double_z, hx, hy, hslope, WeierstrassCurve.Affine.addY,
      WeierstrassCurve.Affine.negAddY, WeierstrassCurve.Affine.negY, WeierstrassCurve.Affine.addX]
    field_simp
    ring

/-- The difference of the two `x`, times `z²`. -/
theorem cast_add_z (J : Jacobian) : (((J.add p gx gy).z : ℕ) : ZMod p) =
    J.z * (gx * J.z ^ 2 - J.x) := by
  simp only [add, ZMod.natCast_mod, Nat.cast_mul, cast_sub]
  ring

theorem cast_add_x (J : Jacobian) : (((J.add p gx gy).x : ℕ) : ZMod p) =
    (gy * J.z ^ 3 - J.y) ^ 2 - (gx * J.z ^ 2 - J.x) ^ 2 * (gx * J.z ^ 2 + J.x) := by
  simp [add]
  ring

theorem cast_add_y (J : Jacobian) : (((J.add p gx gy).y : ℕ) : ZMod p) =
    (gy * J.z ^ 3 - J.y) * (J.x * (gx * J.z ^ 2 - J.x) ^ 2 - ((J.add p gx gy).x : ℕ)) -
      J.y * (gx * J.z ^ 2 - J.x) ^ 3 := by
  rw [cast_add_x]
  simp [add]
  ring

theorem Is.add {J : Jacobian} {P : (curve p b).Point} (hJ : J.Is P)
    (hG : (curve p b).Nonsingular gx gy) (hz : (((J.add p gx gy).z : ℕ) : ZMod p) ≠ 0) :
    (J.add p gx gy).Is (P + .some gx gy hG) := by
  obtain ⟨x, y, h, rfl, hx, hy⟩ := hJ
  have hz' := hz
  rw [cast_add_z] at hz'
  have hz0 : (J.z : ZMod p) ≠ 0 := left_ne_zero_of_mul hz'
  have hne : x ≠ gx := by
    intro h0
    refine right_ne_zero_of_mul hz' ?_
    rw [hx, h0, sub_self]
  have hsub : x - gx ≠ 0 := sub_ne_zero.mpr hne
  refine ⟨_, _, _, WeierstrassCurve.Affine.Point.add_of_X_ne hne, ?_, ?_⟩
  · rw [cast_add_x, cast_add_z, hx, hy, WeierstrassCurve.Affine.slope_of_X_ne hne,
      WeierstrassCurve.Affine.addX]
    field_simp
    ring
  · rw [cast_add_y, cast_add_x, cast_add_z, hx, hy, WeierstrassCurve.Affine.slope_of_X_ne hne,
      WeierstrassCurve.Affine.addY, WeierstrassCurve.Affine.negAddY, WeierstrassCurve.Affine.negY,
      WeierstrassCurve.Affine.addX]
    field_simp
    ring

theorem double_z_eq_zero {J : Jacobian} (h : (J.z : ZMod p) = 0) :
    (((J.double p).z : ℕ) : ZMod p) = 0 := by
  rw [cast_double_z, h, mul_zero]

theorem add_z_eq_zero {J : Jacobian} (h : (J.z : ZMod p) = 0) :
    (((J.add p gx gy).z : ℕ) : ZMod p) = 0 := by
  rw [cast_add_z, h, zero_mul]

/-- Where the ladder comes out well, it computes the multiple. -/
theorem multiple_is (hG : (curve p b).Nonsingular gx gy) {fuel k : ℕ} (hlow : 2 ^ fuel ≤ k)
    (hhigh : k < 2 ^ (fuel + 1))
    (hz : (((multiple p gx gy fuel k).z : ℕ) : ZMod p) ≠ 0) :
    (multiple p gx gy fuel k).Is (k • (.some gx gy hG : (curve p b).Point)) := by
  induction fuel generalizing k with
  | zero =>
      obtain rfl : k = 1 := by omega
      exact ⟨gx, gy, hG, one_smul ℕ _, by simp [multiple], by simp [multiple]⟩
  | succ fuel ih =>
      have hhalf := ih (k := k / 2) (by omega) (by omega)
      rw [multiple] at hz ⊢
      split at hz
      · next hodd =>
          rw [if_pos hodd]
          have hdouble : (((multiple p gx gy fuel (k / 2)).double p).z : ZMod p) ≠ 0 :=
            fun h => hz (add_z_eq_zero h)
          have hP := hhalf fun h => hdouble (double_z_eq_zero h)
          have hk : k = k / 2 + k / 2 + 1 := by omega
          rw [show k • (.some gx gy hG : (curve p b).Point) = _ from congrArg (· • _) hk,
            add_smul, add_smul, one_smul]
          exact (hP.double hdouble).add hG hz
      · next heven =>
          rw [if_neg heven]
          have hP := hhalf fun h => hz (double_z_eq_zero h)
          have hk : k = k / 2 + k / 2 := by omega
          rw [show k • (.some gx gy hG : (curve p b).Point) = _ from congrArg (· • _) hk, add_smul]
          exact hP.double hz

/-- One multiple before the order of a point there is its opposite. -/
theorem smul_eq_zero (hG : (curve p b).Nonsingular gx gy) (fuel k : ℕ) (hlow : 2 ^ fuel ≤ k)
    (hhigh : k < 2 ^ (fuel + 1)) (hz : (multiple p gx gy fuel k).z % p ≠ 0)
    (hx : (multiple p gx gy fuel k).x % p = gx * (multiple p gx gy fuel k).z ^ 2 % p)
    (hy : ((multiple p gx gy fuel k).y + gy * (multiple p gx gy fuel k).z ^ 3) % p = 0) :
    (k + 1) • (.some gx gy hG : (curve p b).Point) = 0 := by
  have hz0 : (((multiple p gx gy fuel k).z : ℕ) : ZMod p) ≠ 0 := fun h =>
    hz (Nat.mod_eq_zero_of_dvd ((ZMod.natCast_eq_zero_iff _ _).mp h))
  obtain ⟨x, y, h, hP, hx', hy'⟩ := multiple_is hG hlow hhigh hz0
  have hxg : x = gx := by
    have hcast := (ZMod.natCast_eq_natCast_iff' _ _ _).mpr hx
    rw [hx', Nat.cast_mul, Nat.cast_pow] at hcast
    exact mul_right_cancel₀ (pow_ne_zero 2 hz0) hcast
  have hyg : y = -gy := by
    have hcast := (ZMod.natCast_eq_zero_iff _ _).mpr (Nat.dvd_of_mod_eq_zero hy)
    rw [Nat.cast_add, hy', Nat.cast_mul, Nat.cast_pow, ← add_mul] at hcast
    exact eq_neg_of_add_eq_zero_left
      ((mul_eq_zero.mp hcast).resolve_right (pow_ne_zero 3 hz0))
  have hneg : (.some x y h : (curve p b).Point) = -.some gx gy hG := by
    rw [WeierstrassCurve.Affine.Point.neg_some]
    simp [hxg, hyg, WeierstrassCurve.Affine.negY]
  rw [add_smul, one_smul, hP, hneg, neg_add_cancel]

end Jacobian

end Vanadium.Lib.Ladder
