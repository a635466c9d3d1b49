import Vanadium.AppSdk.Curve
import Vanadium.Lib.Ladder
import Vanadium.Lib.ModularPower
import Vanadium.Proofs.BigNum

/-!
# Compressed keys are the points of the curve

A compressed key has the prefix that gives the parity of `y`, and `x`. Decompressing
takes a power of `x³ + 7`, which is a root whenever there is one, checks that it is,
and negates it where its parity is not the one of the prefix. A root is never zero,
because no cube is -7: so the negated root is the other one, and has the other parity.

The coordinate is not compared with `p`. Since the VM reduces what it is given, the
bytes of `x + p` decompress like those of `x`, into a key that still has the bytes of
`x + p` in it. These are the only strings that are wrongly accepted.
-/

namespace Vanadium.AppSdk

open Lib Lib.ModularPower

/-! ## The numbers that the bytes are -/

/-- The number that 32 bytes represent, the most significant one first. -/
def value (v : Vector U8 32) : ℕ := BigNum.value ⟨v⟩

theorem value_lt (v : Vector U8 32) : value v < 256 ^ 32 := BigNum.value_lt _

theorem value_injective : Function.Injective value := by
  intro v w h
  simpa using BigNum.value_injective h

theorem value_hex32 {n : ℕ} (h : n < 256 ^ 32) : value (hex32 n) = n := by
  simp [value, BigNum.value, BigNum.low, hex32, LittleEndian.read_write h]

theorem hex32_value (v : Vector U8 32) : hex32 (value v) = v :=
  value_injective (value_hex32 (value_lt v))

@[simp] theorem value_zero : value (Vector.replicate 32 0) = 0 := by decide

theorem eq_zero_iff {v : Vector U8 32} : v = Vector.replicate 32 0 ↔ value v = 0 := by
  rw [← value_zero]
  exact value_injective.eq_iff.symm

/-- The last byte decides the parity. -/
theorem value_parity (v : Vector U8 32) : value v % 2 = v[31].toNat % 2 := by
  show BigNum.low v 0 % 2 = _
  have hlow : ∀ i ≤ 31, BigNum.low v i % 2 = v[31].toNat % 2 := by
    intro i hi
    induction h : 31 - i generalizing i with
    | zero =>
        obtain rfl : i = 31 := by omega
        rw [BigNum.low_eq v (by omega), BigNum.low_end]
        simp
    | succ k ih =>
        have hpow : 256 ^ (32 - (i + 1)) = 2 * (128 * 256 ^ (32 - (i + 2))) := by
          rw [show 32 - (i + 1) = (32 - (i + 2)) + 1 by omega, pow_succ]
          ring
        rw [BigNum.low_eq v (by omega), hpow, Nat.mul_assoc, Nat.add_mul_mod_self_left]
        exact ih (i + 1) (by omega) (by omega)
  exact hlow 0 (by omega)

namespace Secp256k1

/-! ## The field -/

def p : ℕ := 0xFFFFFFFFFFFFFFFFFFFFFFFFFFFFFFFFFFFFFFFFFFFFFFFFFFFFFFFEFFFFFC2F

theorem prime_23 : Nat.Prime 22149492674086928081353 := by
  have h : Nat.Prime 173378833005251801 := by
    refine (by decide +kernel :
      Generates _ 6 [2, 2, 2, 5, 5, 2621, 24809, 13331831] 60).prime ?_
    simp only [List.forall_mem_cons]
    norm_num
  refine (by decide +kernel :
    Generates _ 5 [2, 2, 2, 3, 5323, 173378833005251801] 80).prime ?_
  simp only [List.forall_mem_cons, h]
  norm_num

theorem prime_24 : Nat.Prime 132896956044521568488119 := by
  refine (by decide +kernel :
    Generates _ 6 [2, 3, 22149492674086928081353] 80).prime ?_
  simp only [List.forall_mem_cons, prime_23]
  norm_num

theorem prime_39 : Nat.Prime 255515944373312847190720520512484175977 := by
  refine (by decide +kernel : Generates _ 3
    [2, 2, 2, 7, 7, 11, 1627, 2657, 4423, 41201, 96557, 7240687, 107590001] 130).prime ?_
  simp only [List.forall_mem_cons]
  norm_num

theorem prime_72 :
    Nat.Prime 205115282021455665897114700593932402728804164701536103180137503955397371 := by
  refine (by decide +kernel : Generates _ 10 [2, 3, 5, 29, 29, 31, 7723,
    132896956044521568488119, 255515944373312847190720520512484175977] 240).prime ?_
  simp only [List.forall_mem_cons, prime_24, prime_39]
  norm_num

theorem p_prime : p.Prime := by
  refine (by decide +kernel : Generates p 3 [2, 3, 7, 13441,
    205115282021455665897114700593932402728804164701536103180137503955397371] 256).prime ?_
  simp only [List.forall_mem_cons, prime_72]
  norm_num

instance : Fact p.Prime := ⟨p_prime⟩

theorem value_P : value P = p := value_hex32 (by decide)

theorem p_odd : p % 2 = 1 := by decide

theorem p_lt : p < 256 ^ 32 := by decide

theorem value_SQUAREROOT_EXP : 4 * value SQUAREROOT_EXP = p + 1 := by
  rw [SQUAREROOT_EXP, value_hex32 (by decide)]
  decide

/-- No point has a zero for `y`: no cube is -7. -/
theorem cube_add_seven_ne_zero (x : ZMod p) : x ^ 3 + 7 ≠ 0 := by
  intro h
  have hcube : x ^ 3 = ((p - 7 : ℕ) : ZMod p) := by
    rw [Nat.cast_sub (by decide), ZMod.natCast_self, zero_sub]
    exact eq_neg_of_add_eq_zero_left h
  have hne : ((p - 7 : ℕ) : ZMod p) ≠ 0 := by
    rw [Ne, ZMod.natCast_eq_zero_iff]
    exact Nat.not_dvd_of_pos_of_lt (by decide) (by decide)
  have hpow := pow_eq_one_of_cube (by decide : 3 * ((p - 1) / 3) = p - 1) hne hcube
  rw [pow_eq_one_iff p_prime.one_lt _ (by decide : (p - 1) / 3 < 2 ^ 256)] at hpow
  exact absurd hpow (by decide +kernel)

/-! ## Points -/

/-- A point of the curve other than the one at infinity. -/
structure AffinePoint where
  x : ZMod p
  y : ZMod p
  on_curve : y ^ 2 = x ^ 3 + 7

/-- The point with these coordinates. -/
def AffinePoint.of_coordinates (x y : ZMod p) : Option AffinePoint :=
  if h : y ^ 2 = x ^ 3 + 7 then some ⟨x, y, h⟩ else none

/-- The points of the curve, with the one at infinity. -/
abbrev Group := (Ladder.curve p 7).Point

/-- The key that stands for a point. -/
def AffinePoint.key (A : AffinePoint) : EcfpPublicKey :=
  EcfpPublicKey.new (hex32 A.x.val) (hex32 A.y.val)

/-- The SEC1 compressed encoding. -/
def AffinePoint.sec1 (A : AffinePoint) : Vector U8 33 :=
  #v[BitVec.ofNat 8 (2 + A.y.val % 2)] ++ hex32 A.x.val

theorem value_hex32_val (x : ZMod p) : value (hex32 x.val) = x.val :=
  value_hex32 ((ZMod.val_lt x).trans p_lt)

theorem AffinePoint.y_ne_zero (A : AffinePoint) : A.y ≠ 0 := by
  intro h
  refine cube_add_seven_ne_zero A.x ?_
  rw [← A.on_curve, h, zero_pow two_ne_zero]

/-- The calls compute modulo the prime, and reduce what they are given. -/
structure Reduces (ecalls : Ecalls) : Prop where
  multm : ∀ a b, ∃ r, ecalls.bn_multm a b P = some r ∧ value r = value a * value b % p
  addm : ∀ a b, ∃ r, ecalls.bn_addm a b P = some r ∧ value r = (value a + value b) % p
  powm : ∀ a e, ∃ r, ecalls.bn_powm a e P = some r ∧ value r = value a ^ value e % p

/-! ## Decompression -/

theorem negate_loop (y : Vector U8 32) {i : ℕ} (hi : i ≤ 32) (borrow : ℤ)
    (neg_y : Vector U8 32) :
    EcfpPublicKey.from_compressed.negate y i hi borrow neg_y =
      BigNum.sub.loop P y i hi borrow neg_y := by
  induction i generalizing borrow neg_y with
  | zero => rfl
  | succ i ih =>
      rw [EcfpPublicKey.from_compressed.negate, BigNum.sub.loop]
      split
      · next hneg => rw [if_neg (by omega), ih]
      · next hpos => rw [if_pos (by omega), ih]

theorem negate_eq {y : ZMod p} (hy : y ≠ 0) :
    EcfpPublicKey.from_compressed.negate (hex32 y.val) 32 le_rfl 0 (Vector.replicate 32 0) =
      hex32 (-y).val := by
  have : NeZero y := ⟨hy⟩
  have hlt := ZMod.val_lt y
  have hp := p_lt
  refine value_injective ?_
  have hsub := BigNum.value_sub ⟨P⟩ ⟨hex32 y.val⟩
  have hP : BigNum.value ⟨P⟩ = p := value_P
  have hy : BigNum.value ⟨hex32 y.val⟩ = y.val := value_hex32_val y
  rw [hP, hy, Int.emod_eq_of_lt (by omega) (by omega)] at hsub
  rw [negate_loop, value_hex32_val, ZMod.val_neg_of_ne_zero]
  have hloop : value (BigNum.sub.loop P (hex32 y.val) 32 le_rfl 0 (Vector.replicate 32 0)) =
      BigNum.value (BigNum.sub ⟨P⟩ ⟨hex32 y.val⟩) := rfl
  rw [hloop]
  omega

theorem eq_hex32_of_value {r : Vector U8 32} {n : ℕ} (h : value r = n % p) :
    r = hex32 (n : ZMod p).val := by
  rw [ZMod.val_natCast, ← h, hex32_value]

@[simp] theorem cast_value_hex32 (z : ZMod p) : ((value (hex32 z.val) : ℕ) : ZMod p) = z := by
  rw [value_hex32_val, ZMod.natCast_zmod_val]

theorem hex32_val_inj {y z : ZMod p} : hex32 y.val = hex32 z.val ↔ y = z := by
  refine ⟨fun h => ?_, fun h => by rw [h]⟩
  rw [← cast_value_hex32 y, h, cast_value_hex32]

namespace Reduces

variable {ecalls : Ecalls}

theorem multm_eq (hec : Reduces ecalls) (a b : Vector U8 32) :
    ecalls.bn_multm a b P = some (hex32 ((value a : ZMod p) * value b).val) := by
  obtain ⟨r, hr, hvalue⟩ := hec.multm a b
  rw [hr, eq_hex32_of_value hvalue, Nat.cast_mul]

theorem addm_eq (hec : Reduces ecalls) (a b : Vector U8 32) :
    ecalls.bn_addm a b P = some (hex32 ((value a : ZMod p) + value b).val) := by
  obtain ⟨r, hr, hvalue⟩ := hec.addm a b
  rw [hr, eq_hex32_of_value hvalue, Nat.cast_add]

theorem powm_eq (hec : Reduces ecalls) (a e : Vector U8 32) :
    ecalls.bn_powm a e P = some (hex32 ((value a : ZMod p) ^ value e).val) := by
  obtain ⟨r, hr, hvalue⟩ := hec.powm a e
  rw [hr, eq_hex32_of_value hvalue, Nat.cast_pow]

end Reduces

theorem value_SEVEN : value SEVEN = 7 := value_hex32 (by decide)

theorem and_one_eq_iff (a b : U8) : a &&& 1 = b &&& 1 ↔ a.toNat % 2 = b.toNat % 2 := by
  rw [← BitVec.toNat_inj, BitVec.toNat_and, BitVec.toNat_and]
  simp [Nat.and_one_is_mod]

theorem last_byte_parity (y : ZMod p) : (hex32 y.val)[31].toNat % 2 = y.val % 2 := by
  rw [← value_parity, value_hex32_val]

section Decompress

variable {ecalls : Ecalls} (hec : Reduces ecalls) (s : Vector U8 33)

/-- The coordinate in the string. -/
def coordinate (s : Vector U8 33) : ZMod p := (value (s.drop 1 : Vector U8 32) : ZMod p)

/-- The candidate for the root. -/
def candidate (s : Vector U8 33) : ZMod p :=
  (coordinate s ^ 3 + 7) ^ value SQUAREROOT_EXP

theorem candidate_sq : (candidate s) ^ 2 = coordinate s ^ 3 + 7 ↔
    IsSquare (coordinate s ^ 3 + 7) :=
  (isSquare_iff_sq_pow value_SQUAREROOT_EXP).symm

include hec

theorem decompress_calls :
    (do
      let x2 ← ecalls.bn_multm (s.drop 1) (s.drop 1) P
      let x3 ← ecalls.bn_multm x2 (s.drop 1) P
      let rhs ← ecalls.bn_addm x3 SEVEN P
      let y ← ecalls.bn_powm rhs SQUAREROOT_EXP P
      some (rhs, y)) =
    some (hex32 (coordinate s ^ 3 + 7).val, hex32 (candidate s).val) := by
  have hcube : coordinate s * coordinate s * coordinate s + 7 = coordinate s ^ 3 + 7 := by ring
  have hseven : ((value SEVEN : ℕ) : ZMod p) = 7 := by
    rw [value_SEVEN]
    rfl
  simp only [hec.multm_eq, hec.addm_eq, hec.powm_eq, Option.bind_eq_bind, Option.bind_some,
    cast_value_hex32, hseven]
  rw [candidate, ← hcube]
  rfl

theorem from_compressed_eq : EcfpPublicKey.from_compressed ecalls s () =
    if s[0] ≠ 0x02 ∧ s[0] ≠ 0x03 then .err "Invalid compressed key prefix" ()
    else if candidate s ^ 2 ≠ coordinate s ^ 3 + 7 then .err "Point not on curve" ()
    else if (candidate s).val % 2 ≠ s[0].toNat % 2 then
      .ok (.new (s.drop 1) (EcfpPublicKey.from_compressed.negate (hex32 (candidate s).val) 32
        le_rfl 0 (Vector.replicate 32 0))) ()
    else .ok (.new (s.drop 1) (hex32 (candidate s).val)) () := by
  have hroot : ecalls.bn_multm (hex32 (candidate s).val) (hex32 (candidate s).val) P ≠
      some (hex32 (coordinate s ^ 3 + 7).val) ↔ candidate s ^ 2 ≠ coordinate s ^ 3 + 7 := by
    rw [hec.multm_eq, cast_value_hex32, ← sq, Ne, Option.some_inj, hex32_val_inj]
  have hodd : (hex32 (candidate s).val).get 31 &&& (1 : U8) ≠ s[0]! &&& (1 : U8) ↔
      (candidate s).val % 2 ≠ s[0].toNat % 2 := by
    rw [Ne, and_one_eq_iff, ← last_byte_parity]
    rfl
  unfold EcfpPublicKey.from_compressed
  by_cases htag : s[0] ≠ 0x02 ∧ s[0] ≠ 0x03
  · have hget : s[0]! ≠ 0x02 ∧ s[0]! ≠ 0x03 := htag
    rw [if_pos htag, Exec.reject_bind_pos hget]
  · have hget : ¬ (s[0]! ≠ 0x02 ∧ s[0]! ≠ 0x03) := htag
    rw [if_neg htag, Exec.reject_bind_neg hget,
      Exec.orElse_bind_some (decompress_calls hec s)]
    by_cases hsquare : candidate s ^ 2 ≠ coordinate s ^ 3 + 7
    · rw [if_pos hsquare]
      exact Exec.reject_bind_pos (hroot.mpr hsquare)
    · rw [if_neg hsquare]
      refine (Exec.reject_bind_neg (mt hroot.mp hsquare)).trans ?_
      by_cases hparity : (candidate s).val % 2 ≠ s[0].toNat % 2
      · rw [if_pos hparity]
        exact congrFun (if_pos (hodd.mpr hparity)) ()
      · rw [if_neg hparity]
        exact congrFun (if_neg (mt hodd.mp hparity)) ()

/-- What is accepted is a prefix and a coordinate over which there is a point; the point is
the one with the parity of the prefix. -/
theorem from_compressed_ok (key : EcfpPublicKey) :
    EcfpPublicKey.from_compressed ecalls s () = .ok key () ↔
      (s[0] = 0x02 ∨ s[0] = 0x03) ∧ ∃ A : AffinePoint, A.x = coordinate s ∧
        A.y.val % 2 = s[0].toNat % 2 ∧ key = .new (s.drop 1) (hex32 A.y.val) := by
  rw [from_compressed_eq hec]
  split
  · next htag =>
      refine ⟨fun h => (by cases h), fun ⟨h, _⟩ => ?_⟩
      rcases h with h | h
      · exact absurd h htag.1
      · exact absurd h htag.2
  · next htag =>
      have htag' : s[0] = 0x02 ∨ s[0] = 0x03 := by
        by_contra h
        exact htag (not_or.mp h)
      split
      · next hsquare =>
          refine ⟨fun h => (by cases h), fun ⟨_, A, hx, _, _⟩ => absurd ?_ hsquare⟩
          rw [candidate_sq]
          exact ⟨A.y, by rw [← sq, A.on_curve, hx]⟩
      · next hsquare =>
          rw [not_not] at hsquare
          -- whichever root the parity asks for, it is the point's
          have hroot : ∀ {y : ZMod p} {k : EcfpPublicKey}, y ^ 2 = coordinate s ^ 3 + 7 →
              y.val % 2 = s[0].toNat % 2 → k = .new (s.drop 1) (hex32 y.val) →
              ((.ok k () : Outcome String Unit EcfpPublicKey) = .ok key () ↔
                (s[0] = 0x02 ∨ s[0] = 0x03) ∧ ∃ A : AffinePoint, A.x = coordinate s ∧
                  A.y.val % 2 = s[0].toNat % 2 ∧ key = .new (s.drop 1) (hex32 A.y.val)) := by
            intro y k hy hparity hk
            refine ⟨fun h => ?_, fun ⟨_, A, hx, hodd, hkey⟩ => ?_⟩
            · cases h
              exact ⟨htag', ⟨coordinate s, y, hy⟩, rfl, hparity, hk⟩
            · have hsame : A.y = y := root_unique p_odd A.y_ne_zero
                (by rw [A.on_curve, hx, hy]) (by rw [hodd, hparity])
              rw [hk, hkey, hsame]
          have hne : candidate s ≠ 0 := by
            intro h
            refine cube_add_seven_ne_zero (coordinate s) ?_
            rw [← hsquare, h, zero_pow two_ne_zero]
          split
          · next hparity =>
              have hflip := val_neg_parity p_odd hne
              refine hroot (y := -candidate s) ?_ (by omega) ?_
              · rw [neg_sq, hsquare]
              · rw [negate_eq hne]
          · next hparity =>
              exact hroot hsquare (not_not.mp hparity) rfl

/-- What is not accepted is an error. -/
theorem from_compressed_err
    (h : ∀ key, EcfpPublicKey.from_compressed ecalls s () ≠ .ok key ()) :
    ∃ e, EcfpPublicKey.from_compressed ecalls s () = .err e () := by
  rw [from_compressed_eq hec] at h ⊢
  split
  · exact ⟨_, rfl⟩
  · next htag =>
      rw [if_neg htag] at h
      split
      · exact ⟨_, rfl⟩
      · next hsquare =>
          rw [if_neg hsquare] at h
          split
          · next hparity => exact absurd (if_pos hparity) (h _)
          · next hparity => exact absurd (if_neg hparity) (h _)

end Decompress

/-! ## Encodings -/

/-- A byte and a coordinate in a row. -/
theorem cons_eq_iff {b : U8} {v : Vector U8 32} {s : Vector U8 33} :
    #v[b] ++ v = s ↔ b = s[0] ∧ v = s.drop 1 := by
  obtain ⟨⟨bytes⟩, hs⟩ := s
  obtain ⟨⟨coordinate⟩, hv⟩ := v
  cases bytes with
  | nil => simp at hs
  | cons c bytes =>
      show Vector.mk (#[b] ++ ⟨coordinate⟩) _ = _ ↔ b = c ∧ _ = Vector.mk (Array.extract _ _ _) _
      rw [Vector.mk.injEq, Vector.mk.injEq]
      simp

theorem cons_toList (b : U8) (v : Vector U8 32) :
    (#v[b] ++ v : Vector U8 33).toList = b :: v.toList :=
  Vector.toList_append

theorem sec1_eq_iff {A : AffinePoint} {s : Vector U8 33} : A.sec1 = s ↔
    (s[0] = 0x02 ∨ s[0] = 0x03) ∧ A.y.val % 2 = s[0].toNat % 2 ∧
      value (s.drop 1 : Vector U8 32) = A.x.val := by
  have hbyte : BitVec.ofNat 8 (2 + A.y.val % 2) = s[0] ↔
      (s[0] = 0x02 ∨ s[0] = 0x03) ∧ A.y.val % 2 = s[0].toNat % 2 := by
    rw [← BitVec.toNat_inj, ← BitVec.toNat_inj, ← BitVec.toNat_inj, BitVec.toNat_ofNat]
    show _ ↔ (s[0].toNat = 2 ∨ s[0].toNat = 3) ∧ _
    omega
  rw [AffinePoint.sec1, cons_eq_iff, hbyte, and_assoc, ← value_injective.eq_iff,
    value_hex32_val, eq_comm (a := A.x.val)]

theorem prefix_eq (y : ZMod p) :
    (hex32 y.val)[31] % 2 + 2 = BitVec.ofNat 8 (2 + y.val % 2) := by
  have hlast := last_byte_parity y
  refine BitVec.eq_of_toNat_eq ?_
  rw [BitVec.toNat_add, BitVec.toNat_umod, BitVec.toNat_ofNat]
  show ((hex32 y.val)[31].toNat % 2 + 2) % 256 = _
  omega

theorem compressed_bytes_key (A : AffinePoint) :
    EcfpPublicKey.compressed_bytes A.key.public_key = A.sec1 := by
  show #v[(hex32 A.y.val)[31] % 2 + 2] ++ hex32 A.x.val = _
  rw [prefix_eq]
  rfl

theorem compressed_key (A : AffinePoint) :
    EcfpPublicKey.to_compressed A.key () = .ok A.sec1 () := by
  rw [← compressed_bytes_key]
  rfl

/-- What decompressing a string should do. -/
structure Decodes (ecalls : Ecalls) (s : Vector U8 33) : Prop where
  accepts : ∀ key, EcfpPublicKey.from_compressed ecalls s () = .ok key () ↔
    ∃ A : AffinePoint, A.sec1 = s ∧ A.key = key
  rejects : (∀ A : AffinePoint, A.sec1 ≠ s) →
    ∃ e, EcfpPublicKey.from_compressed ecalls s () = .err e ()

theorem string_decodes_iff {ecalls : Ecalls} (hec : Reduces ecalls) (s : Vector U8 33) :
    Decodes ecalls s ↔ ¬ ((s[0] = 0x02 ∨ s[0] = 0x03) ∧
      p ≤ value (s.drop 1 : Vector U8 32) ∧ IsSquare (coordinate s ^ 3 + 7)) := by
  refine ⟨fun h => ?_, fun h => ?_⟩
  · -- the point that the string is taken for, and that it does not encode
    rintro ⟨htag, hlarge, hsquare⟩
    have hnone : ∀ A : AffinePoint, A.sec1 ≠ s := by
      intro A hA
      have hx := (sec1_eq_iff.mp hA).2.2
      have hlt := ZMod.val_lt A.x
      omega
    obtain ⟨e, he⟩ := h.rejects hnone
    rw [from_compressed_eq hec, if_neg (by tauto),
      if_neg (not_not.mpr ((candidate_sq s).mpr hsquare))] at he
    split at he <;> cases he
  · have haccepts : ∀ key, EcfpPublicKey.from_compressed ecalls s () = .ok key () ↔
        ∃ A : AffinePoint, A.sec1 = s ∧ A.key = key := by
      intro key
      rw [from_compressed_ok hec]
      refine ⟨fun ⟨htag, A, hx, hparity, hkey⟩ => ?_, fun ⟨A, hA, hkey⟩ => ?_⟩
      · have hsmall : value (s.drop 1 : Vector U8 32) < p := by
          by_contra hlarge
          exact h ⟨htag, not_lt.mp hlarge, ⟨A.y, by rw [← sq, A.on_curve, hx]⟩⟩
        have hval : A.x.val = value (s.drop 1 : Vector U8 32) := by
          rw [hx, coordinate, ZMod.val_natCast, Nat.mod_eq_of_lt hsmall]
        refine ⟨A, sec1_eq_iff.mpr ⟨htag, hparity, hval.symm⟩, ?_⟩
        rw [hkey, AffinePoint.key, hval, hex32_value]
      · obtain ⟨htag, hparity, hval⟩ := sec1_eq_iff.mp hA
        refine ⟨htag, A, ?_, hparity, ?_⟩
        · rw [coordinate, hval, ZMod.natCast_zmod_val]
        · rw [← hkey, AffinePoint.key, ← hval, hex32_value]
    refine ⟨haccepts, fun hnone => from_compressed_err hec s fun key hkey => ?_⟩
    obtain ⟨A, hA, _⟩ := (haccepts key).mp hkey
    exact hnone A hA

/-- A string is decoded as SEC1 says if and only if it is not the encoding of a point with a
coordinate that was not reduced; and the points are what is encoded and decoded. -/
theorem from_compressed_decodes_iff (ecalls : Ecalls) (hec : Reduces ecalls) :
    (∀ s, Decodes ecalls s ↔ ¬ ((s[0] = 0x02 ∨ s[0] = 0x03) ∧
      p ≤ value (s.drop 1 : Vector U8 32) ∧ IsSquare (coordinate s ^ 3 + 7))) ∧
    ∀ A : AffinePoint, EcfpPublicKey.to_compressed A.key () = .ok A.sec1 () ∧
      EcfpPublicKey.from_compressed ecalls A.sec1 () = .ok A.key () := by
  refine ⟨string_decodes_iff hec, fun A => ⟨compressed_key A, ?_⟩⟩
  have hval := (sec1_eq_iff.mp (rfl : A.sec1 = A.sec1)).2.2
  have hlt := ZMod.val_lt A.x
  refine (((string_decodes_iff hec A.sec1).mpr fun h => ?_).accepts A.key).mpr ⟨A, rfl, rfl⟩
  have hlarge := h.2.1
  omega

/-- Big numbers as the VM computes them, and nothing else. -/
def big_number_ecalls : Ecalls where
  bn_addm a b m := some (hex32 ((value a + value b) % value m))
  bn_multm a b m := some (hex32 (value a * value b % value m))
  bn_powm a e m := some (hex32 (power (value m) 256 (value a) (value e)))
  ecfp_scalar_mult _ _ := none
  derive_hd_node _ := none
  get_master_fingerprint := 0
  sha256 _ := Vector.replicate 32 0
  ripemd160 _ := Vector.replicate 20 0
  sha512 _ := Vector.replicate 64 0

theorem big_number_ecalls_reduces : Reduces big_number_ecalls := by
  have hmod : ∀ n, value (hex32 (n % p)) = n % p := fun n =>
    value_hex32 ((Nat.mod_lt _ p_prime.pos).trans p_lt)
  refine ⟨fun a b => ⟨_, rfl, ?_⟩, fun a b => ⟨_, rfl, ?_⟩, fun a e => ⟨_, rfl, ?_⟩⟩
  · rw [value_P, hmod]
  · rw [value_P, hmod]
  · rw [value_P, power_eq _ (value_lt e), hmod]

theorem from_compressed_decodes_big_numbers :
    (∀ s, Decodes big_number_ecalls s ↔ ¬ ((s[0] = 0x02 ∨ s[0] = 0x03) ∧
      p ≤ value (s.drop 1 : Vector U8 32) ∧ IsSquare (coordinate s ^ 3 + 7))) ∧
    ∀ A : AffinePoint, EcfpPublicKey.to_compressed A.key () = .ok A.sec1 () ∧
      EcfpPublicKey.from_compressed big_number_ecalls A.sec1 () = .ok A.key () :=
  from_compressed_decodes_iff big_number_ecalls big_number_ecalls_reduces

/-- The bytes of `p + 1` are taken for the point over 1. -/
theorem unreduced_accepted : ¬ Decodes big_number_ecalls (#v[(0x02 : U8)] ++ hex32 (p + 1)) := by
  have hvalue : value (hex32 (p + 1)) = p + 1 := value_hex32 (by decide)
  obtain ⟨htag, hcoordinate⟩ :=
    cons_eq_iff.mp (rfl : #v[(0x02 : U8)] ++ hex32 (p + 1) = #v[(0x02 : U8)] ++ hex32 (p + 1))
  rw [string_decodes_iff big_number_ecalls_reduces, not_not]
  refine ⟨.inl htag.symm, ?_, ?_⟩
  · rw [← hcoordinate, hvalue]
    exact Nat.le_succ p
  · rw [coordinate, ← hcoordinate, hvalue, Nat.cast_succ, ZMod.natCast_self]
    refine ⟨0x4218F20AE6C646B363DB68605822FB14264CA8D2587FDD6FBC750D587E76A7EE, ?_⟩
    decide +kernel

end Secp256k1

end Vanadium.AppSdk
