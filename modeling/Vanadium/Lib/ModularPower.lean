import Mathlib

/-!
# Powers modulo a number, and what they decide

Squaring and multiplying computes a power modulo `m` in as many turns as the exponent
has bits, so that powers of numbers of any cryptographic size can be evaluated. Three
questions come down to such powers: whether a number is prime, by Lucas's criterion,
whether a residue is a cube, and what a square root is where the prime is 3 modulo 4.
-/

namespace Vanadium.Lib.ModularPower

/-- `a ^ e % m`, from the lowest of the bits of `e` on. -/
def power (m : ℕ) : (bits : ℕ) → (a e : ℕ) → ℕ
  | 0, _, _ => 1 % m
  | bits + 1, a, e =>
      let square := power m bits (a * a % m) (e / 2)
      if e % 2 = 0 then square else a * square % m

theorem power_eq {m bits : ℕ} (a : ℕ) {e : ℕ} (h : e < 2 ^ bits) :
    power m bits a e = a ^ e % m := by
  induction bits generalizing a e with
  | zero =>
      obtain rfl : e = 0 := by simpa using h
      rfl
  | succ bits ih =>
      have hhalf : e / 2 < 2 ^ bits := by
        rw [pow_succ] at h
        omega
      have hsquare : (a * a % m) ^ (e / 2) % m = a ^ (2 * (e / 2)) % m := by
        rw [← Nat.pow_mod, ← sq, pow_mul]
      rw [power, ih _ hhalf, hsquare]
      split
      · next heven => rw [show 2 * (e / 2) = e by omega]
      · next hodd =>
          rw [← Nat.mul_mod_mod, Nat.mod_mod, Nat.mul_mod_mod, ← pow_succ',
            show 2 * (e / 2) + 1 = e by omega]

theorem power_lt {m : ℕ} (hm : 0 < m) (bits a e : ℕ) : power m bits a e < m := by
  induction bits generalizing a e with
  | zero => exact Nat.mod_lt _ hm
  | succ bits ih =>
      rw [power]
      split
      · exact ih _ _
      · exact Nat.mod_lt _ hm

theorem cast_power {m bits : ℕ} (a : ℕ) {e : ℕ} (h : e < 2 ^ bits) :
    (power m bits a e : ZMod m) = (a : ZMod m) ^ e := by
  rw [power_eq a h, ZMod.natCast_mod, Nat.cast_pow]

theorem pow_eq_one_iff {m bits : ℕ} (hm : 1 < m) (a : ℕ) {e : ℕ} (h : e < 2 ^ bits) :
    (a : ZMod m) ^ e = 1 ↔ power m bits a e = 1 := by
  rw [power_eq a h, ← Nat.cast_pow, ← Nat.cast_one, ZMod.natCast_eq_natCast_iff',
    Nat.mod_eq_of_lt hm]

/-! ## Primes -/

/-- The primes whose product is `p - 1`, and a number whose order is `p - 1`. -/
structure Generates (p a : ℕ) (factors : List ℕ) (bits : ℕ) : Prop where
  bound : 1 < p ∧ p ≤ 2 ^ bits
  product : factors.prod = p - 1
  full : power p bits a (p - 1) = 1
  proper : ∀ q ∈ factors, power p bits a ((p - 1) / q) ≠ 1

instance (p a : ℕ) (factors : List ℕ) (bits : ℕ) : Decidable (Generates p a factors bits) :=
  decidable_of_iff ((1 < p ∧ p ≤ 2 ^ bits) ∧ factors.prod = p - 1 ∧
      power p bits a (p - 1) = 1 ∧ ∀ q ∈ factors, power p bits a ((p - 1) / q) ≠ 1)
    ⟨fun ⟨h₁, h₂, h₃, h₄⟩ => ⟨h₁, h₂, h₃, h₄⟩, fun h => ⟨h.bound, h.product, h.full, h.proper⟩⟩

theorem Generates.prime {p a bits : ℕ} {factors : List ℕ} (h : Generates p a factors bits)
    (hfactors : ∀ q ∈ factors, q.Prime) : p.Prime := by
  obtain ⟨hone, hbits⟩ := h.bound
  refine lucas_primality p (a : ZMod p) ?_ fun q hq hdvd => ?_
  · rw [pow_eq_one_iff hone a (by omega : p - 1 < 2 ^ bits)]
    exact h.full
  · rw [← h.product] at hdvd
    obtain ⟨r, hr, hqr⟩ := (Prime.dvd_prod_iff hq.prime).mp hdvd
    obtain rfl := (Nat.prime_dvd_prime_iff_eq hq (hfactors r hr)).mp hqr
    have hle : (p - 1) / q ≤ p - 1 := Nat.div_le_self _ _
    rw [Ne, pow_eq_one_iff hone a (by omega : (p - 1) / q < 2 ^ bits)]
    exact h.proper q hr

/-! ## Cubes and squares -/

section Field

variable {p : ℕ} [Fact p.Prime]

/-- A cube is one to a third of the order. -/
theorem pow_eq_one_of_cube {a x : ZMod p} {third : ℕ} (hthird : 3 * third = p - 1)
    (ha : a ≠ 0) (h : x ^ 3 = a) : a ^ third = 1 := by
  have hx : x ≠ 0 := by
    rintro rfl
    exact ha (by rw [← h, zero_pow three_ne_zero])
  rw [← h, ← pow_mul, hthird, ZMod.pow_card_sub_one_eq_one hx]

/-- Where `p` is 3 modulo 4, the power to `(p + 1) / 4` of a square is a root of it. -/
theorem sq_pow_of_isSquare {a : ZMod p} {e : ℕ} (he : 4 * e = p + 1) (ha : IsSquare a) :
    (a ^ e) ^ 2 = a := by
  obtain ⟨b, rfl⟩ := ha
  by_cases hb : b = 0
  · obtain rfl := hb
    have hpos : e ≠ 0 := by omega
    simp [hpos]
  · have hp := (Fact.out : p.Prime).pos
    rw [← sq, ← pow_mul, ← pow_mul, show 2 * (e * 2) = (p - 1) + 2 by omega, pow_add,
      ZMod.pow_card_sub_one_eq_one hb, one_mul]

theorem isSquare_iff_sq_pow {a : ZMod p} {e : ℕ} (he : 4 * e = p + 1) :
    IsSquare a ↔ (a ^ e) ^ 2 = a :=
  ⟨sq_pow_of_isSquare he, fun h => ⟨a ^ e, by rw [← sq, h]⟩⟩

/-- The two roots of a residue have different parities. -/
theorem val_neg_parity {y : ZMod p} (hp : p % 2 = 1) (hy : y ≠ 0) :
    (-y).val % 2 = 1 - y.val % 2 := by
  have : NeZero y := ⟨hy⟩
  have hlt := ZMod.val_lt y
  rw [ZMod.val_neg_of_ne_zero]
  omega

/-- A root is determined by its parity. -/
theorem root_unique {y z : ZMod p} (hp : p % 2 = 1) (hy : y ≠ 0) (h : y ^ 2 = z ^ 2)
    (hparity : y.val % 2 = z.val % 2) : y = z := by
  rcases sq_eq_sq_iff_eq_or_eq_neg.mp h with rfl | rfl
  · rfl
  · have hz : z ≠ 0 := by
      rintro rfl
      exact hy neg_zero
    have := val_neg_parity hp hz
    omega

end Field

end Vanadium.Lib.ModularPower
