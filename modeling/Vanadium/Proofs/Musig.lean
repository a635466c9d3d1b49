import Vanadium.Bitcoin.Musig
import Vanadium.Proofs.CurveGroup

/-!
# An aggregate signature verifies

Every point that the signers compute with is a multiple of the generator, so the protocol
is arithmetic modulo the group order. Two sums are carried along. The aggregate key is
`g (Σ aᵢ skᵢ) + t` times the generator, where `g` and `t` are what `gacc` and `tacc` stand
for: a tweak multiplies both by a sign, and adds itself to the second. The aggregate nonce
is `Σ k1ᵢ + b Σ k2ᵢ` times the generator.

A partial signature is `± (k1ᵢ + b k2ᵢ) ± e aᵢ g skᵢ`, with the sign of the final nonce and
that of the final key, and the last term of the sum makes up for `t`. So the signature is
the discrete logarithm of `± R ± e Q`, and both signs are such that the points are the ones
with an even `y`, which is what the verifier takes.

It fails in one case only: when the nonces add up to infinity, the generator is taken for
the final nonce, and nobody knows the other end of that.
-/

namespace Vanadium.Bitcoin.Musig

open Lib AppSdk Secp256k1
open AppSdk.HDPrivNode (n)

local instance : Fact n.Prime := ⟨n_prime⟩

/-! ## What the calls compute -/

/-- The calls compute with points, and with numbers below the group order. A multiple of a
point by a number that is not below it may be refused. -/
structure Computes (calls : Calls) : Prop where
  reduces : Reduces calls.curve.toEcalls
  add : ∀ P Q, calls.curve.ecfp_add_point (encode P) (encode Q) = some (encode (P + Q))
  mult : ∀ P k, value k < n →
    calls.curve.ecfp_scalar_mult (encode P) k = some (encode (value k • P))
  mult_some : ∀ P k q, calls.curve.ecfp_scalar_mult (encode P) k = some q →
    q = encode (value k • P)
  modm : ∀ a, ∃ r, calls.bn.bn_modm a N = some r ∧ value r = value a % n
  addm : ∀ a b, value a < n → value b < n →
    ∃ r, calls.bn.bn_addm a b N = some r ∧ value r = (value a + value b) % n
  subm : ∀ a b, value a < n → value b < n →
    ∃ r, calls.bn.bn_subm a b N = some r ∧ value r = (value a + (n - value b)) % n
  multm : ∀ a b, value a < n → value b < n →
    ∃ r, calls.bn.bn_multm a b N = some r ∧ value r = value a * value b % n

/-- The bytes of a number modulo the group order. -/
def bytes (z : ZMod n) : Vector U8 32 := hex32 z.val

theorem value_bytes (z : ZMod n) : value (bytes z) = z.val :=
  value_hex32 ((ZMod.val_lt z).trans n_lt)

@[simp] theorem cast_value_bytes (z : ZMod n) : ((value (bytes z) : ℕ) : ZMod n) = z := by
  rw [value_bytes, ZMod.natCast_zmod_val]

theorem bytes_injective : Function.Injective bytes := fun y z h => by
  rw [← cast_value_bytes y, h, cast_value_bytes]

/-- Bytes that are not changed when they are reduced are those of a number below the order. -/
theorem exists_bytes {v : Vector U8 32} (h : bytes (value v : ZMod n) = v) :
    ∃ z, v = bytes z := ⟨_, h.symm⟩

theorem eq_bytes_of_value {r : Vector U8 32} {k : ℕ} (h : value r = k % n) :
    r = bytes (k : ZMod n) :=
  value_injective (by rw [value_bytes, ZMod.val_natCast, h])

theorem zero32_eq : zero32 = bytes 0 := by decide

theorem bytes_one : bytes 1 = hex32 1 := by rw [bytes, ZMod.val_one]

theorem one32_eq : one32 = bytes 1 := by
  rw [bytes_one]
  decide

theorem bytes_eq_zero {z : ZMod n} : bytes z = zero32 ↔ z = 0 := by
  rw [zero32_eq]
  exact bytes_injective.eq_iff

section Calls

variable {calls : Calls} (hc : Computes calls) (y z : ZMod n) (P Q : Group)
include hc

theorem scalar_eval (v : Vector U8 32) :
    scalar calls v () = .ok ⟨bytes (value v : ZMod n)⟩ () := by
  obtain ⟨r, hr, hvalue⟩ := hc.modm v
  rw [eq_bytes_of_value hvalue] at hr
  simp only [scalar, BigNumMod.from_be_bytes, hr]
  rfl

theorem add_eval {ε : Type} :
    (BigNumMod.add calls.bn ⟨bytes y⟩ ⟨bytes z⟩ : Exec ε Unit Scalar) () =
      .ok ⟨bytes (y + z)⟩ () := by
  obtain ⟨r, hr, hvalue⟩ := hc.addm (bytes y) (bytes z)
    (by rw [value_bytes]; exact ZMod.val_lt y) (by rw [value_bytes]; exact ZMod.val_lt z)
  rw [eq_bytes_of_value hvalue, Nat.cast_add, cast_value_bytes, cast_value_bytes] at hr
  simp only [BigNumMod.add, hr]
  rfl

theorem add_assign_eval {ε : Type} :
    (BigNumMod.add_assign calls.bn ⟨bytes y⟩ ⟨bytes z⟩ : Exec ε Unit Scalar) () =
      .ok ⟨bytes (y + z)⟩ () := by
  obtain ⟨r, hr, hvalue⟩ := hc.addm (bytes y) (bytes z)
    (by rw [value_bytes]; exact ZMod.val_lt y) (by rw [value_bytes]; exact ZMod.val_lt z)
  rw [eq_bytes_of_value hvalue, Nat.cast_add, cast_value_bytes, cast_value_bytes] at hr
  simp only [BigNumMod.add_assign, hr]
  rfl

theorem mul_eval {ε : Type} :
    (BigNumMod.mul calls.bn ⟨bytes y⟩ ⟨bytes z⟩ : Exec ε Unit Scalar) () =
      .ok ⟨bytes (y * z)⟩ () := by
  obtain ⟨r, hr, hvalue⟩ := hc.multm (bytes y) (bytes z)
    (by rw [value_bytes]; exact ZMod.val_lt y) (by rw [value_bytes]; exact ZMod.val_lt z)
  rw [eq_bytes_of_value hvalue, Nat.cast_mul, cast_value_bytes, cast_value_bytes] at hr
  simp only [BigNumMod.mul, hr]
  rfl

theorem sub_eval {ε : Type} :
    (BigNumMod.sub calls.bn ⟨bytes y⟩ ⟨bytes z⟩ : Exec ε Unit Scalar) () =
      .ok ⟨bytes (y - z)⟩ () := by
  have hlt : value (bytes z) < n := by
    rw [value_bytes]
    exact ZMod.val_lt z
  obtain ⟨r, hr, hvalue⟩ := hc.subm (bytes y) (bytes z)
    (by rw [value_bytes]; exact ZMod.val_lt y) hlt
  rw [eq_bytes_of_value hvalue, Nat.cast_add, Nat.cast_sub hlt.le, ZMod.natCast_self,
    cast_value_bytes, cast_value_bytes, zero_sub, ← sub_eq_add_neg] at hr
  simp only [BigNumMod.sub, hr]
  rfl

theorem from_zero_eval {ε : Type} :
    (BigNumMod.from_u32 calls.bn 0 : Exec ε Unit Scalar) () = .ok ⟨bytes 0⟩ () := by
  obtain ⟨r, hr, hvalue⟩ := hc.modm (bytes 0)
  rw [eq_bytes_of_value hvalue, cast_value_bytes] at hr
  have hbuffer : (Vector.ofFn fun i : Fin 32 => if i.val < 32 - 4 then 0 else
      (Vanadium.to_be_bytes 0).getD (i.val - (32 - 4)) 0) = bytes 0 := by decide
  simp only [BigNumMod.from_u32, hbuffer, hr]
  rfl

theorem from_one_eval {ε : Type} :
    (BigNumMod.from_u32 calls.bn 1 : Exec ε Unit Scalar) () = .ok ⟨bytes 1⟩ () := by
  obtain ⟨r, hr, hvalue⟩ := hc.modm (bytes 1)
  rw [eq_bytes_of_value hvalue, cast_value_bytes] at hr
  have hbuffer : (Vector.ofFn fun i : Fin 32 => if i.val < 32 - 4 then 0 else
      (Vanadium.to_be_bytes 1).getD (i.val - (32 - 4)) 0) = bytes 1 := by
    rw [bytes_one]
    decide
  simp only [BigNumMod.from_u32, hbuffer, hr]
  rfl

theorem neg_eval {ε : Type} :
    (BigNumMod.neg calls.bn ⟨bytes z⟩ : Exec ε Unit Scalar) () = .ok ⟨bytes (-z)⟩ () := by
  rw [BigNumMod.neg, Exec.bind_apply_ok (from_zero_eval hc), sub_eval hc, zero_sub]

theorem neg_one_eval : neg_one calls () = .ok (bytes (-1)) () := by
  rw [neg_one, Exec.bind_apply_ok (from_one_eval hc), Exec.bind_apply_ok (neg_eval hc 1)]
  rfl

theorem point_add_eval {ε : Type} :
    ((encode P).add calls.curve (encode Q) : Exec ε Unit Point) () =
      .ok (encode (P + Q)) () := by
  rw [Point.add, hc.add]
  rfl

/-- A multiple of the generator, times a number below the order. -/
theorem mul_point_eval : mul calls (encode (mulG z)) (bytes y) () =
    .ok (encode (mulG (y * z))) () := by
  have hlt : value (bytes y) < n := by
    rw [value_bytes]
    exact ZMod.val_lt y
  have hmult := hc.mult (mulG z) (bytes y) hlt
  rw [← mulG_smul, cast_value_bytes] at hmult
  rw [mul, Exec.map_err_ok, Point.mul, hmult]
  rfl

theorem mul_generator_eval : mul calls get_generator (bytes y) () =
    .ok (encode (mulG y)) () := by
  have hone : encode (mulG 1) = get_generator := by
    rw [← Nat.cast_one, mulG_natCast, one_smul, encode_generator]
  rw [← hone, mul_point_eval hc, mul_one]

theorem mul_point_ok {k : Vector U8 32} {q : Point}
    (h : mul calls (encode (mulG z)) k () = .ok q ()) :
    q = encode (mulG (value k * z)) := by
  rw [mul, Exec.map_err_ok] at h
  rw [mulG_smul]
  exact hc.mult_some _ _ _ (Exec.unwrap_ok.mp h).1

omit hc in
theorem compress_eval {P : Group} (h : P ≠ 0) :
    compress (encode P) () = .ok (compressed P) () := by
  obtain ⟨A, rfl⟩ := exists_affine h
  rw [compress, Exec.map_err_ok, compressed_point]
  exact compressed_key A

theorem cpoint_eval {P : Group} (h : P ≠ 0) :
    cpoint calls (compressed P) () = .ok (encode P) () := by
  obtain ⟨A, rfl⟩ := exists_affine h
  have hdecode := (from_compressed_decodes_iff _ hc.reduces).2 A
  rw [compressed_point, cpoint, Exec.bind_apply_ok (Exec.map_err_ok.mpr hdecode.2)]
  rfl

theorem cpoint_ext_eval : cpoint_ext calls (compressed P) () = .ok (encode P) () := by
  by_cases h : P = 0
  · subst h
    rfl
  · have hcpoint := cpoint_eval hc h
    obtain ⟨A, rfl⟩ := exists_affine h
    rw [compressed_point] at hcpoint ⊢
    have hfirst : ¬ A.sec1.toList.all (· == 0) = true := by
      rw [AffinePoint.sec1, cons_toList, List.all_cons, Bool.and_eq_true, beq_iff_eq]
      intro hzero
      have hbyte := congrArg BitVec.toNat hzero.1
      rw [BitVec.toNat_ofNat, show (0 : U8).toNat = 0 from rfl] at hbyte
      omega
    rw [cpoint_ext, if_neg hfirst, hcpoint]

omit hc in
theorem has_even_y_eval {P : Group} (h : P ≠ 0) :
    has_even_y (encode P) () = .ok (even P) () := by
  have hzero : (encode P).is_zero = false :=
    Bool.eq_false_iff.mpr fun h0 => h ((is_zero_iff P).mp h0)
  rw [has_even_y, Exec.assert_bind_pos (by rw [hzero]; rfl)]
  rfl

/-! ## Aggregating keys -/

/-- The sign that makes a point even. -/
def sgn (even : Bool) : ZMod n := if even then 1 else -1

omit hc in
theorem sgn_mul_self (even : Bool) : sgn even * sgn even = 1 := by
  cases even <;> simp [sgn]

omit hc in
/-- A point times its sign has the same `x`, and an even `y`. -/
theorem even_sgn {z : ZMod n} (h : mulG z ≠ 0) :
    even (mulG (sgn (even (mulG z)) * z)) = true ∧
      (encode (mulG (sgn (even (mulG z)) * z))).x = (encode (mulG z)).x := by
  cases heven : even (mulG z) with
  | true =>
      rw [sgn, if_pos rfl, one_mul]
      exact ⟨heven, rfl⟩
  | false =>
      rw [sgn, if_neg Bool.false_ne_true, neg_one_mul, map_neg]
      exact ⟨by rw [even_neg h, heven]; rfl, x_neg _⟩

/-- `g`, for a sign. -/
theorem sgn_eval (even : Bool) :
    sign_bytes calls even () = .ok (bytes (sgn even)) () := by
  cases even with
  | true =>
      rw [sign_bytes, if_pos rfl, one32_eq]
      rfl
  | false => exact neg_one_eval hc

/-- The coefficient of a key among the others, of which `pk2` is the second. -/
def coefficient (calls : Calls) (pubkeys : List PlainPk) (pk2 pk : PlainPk) : ZMod n :=
  if pk = pk2 then 1
  else value (calls.sha256t "KeyAgg coefficient" ((hash_keys calls pubkeys).toList ++ pk.toList))

theorem key_agg_coeff_internal_eval (pubkeys : List PlainPk) (pk pk2 : PlainPk) :
    key_agg_coeff_internal calls pubkeys pk pk2 () =
      .ok (bytes (coefficient calls pubkeys pk2 pk)) () := by
  rw [key_agg_coeff_internal, coefficient]
  split
  · rw [one32_eq]
    rfl
  · exact Exec.bind_apply_ok (scalar_eval hc _)

/-- The sum of the keys with their coefficients. -/
def weighted (calls : Calls) (pubkeys : List PlainPk) (pk2 : PlainPk) (keys : List (ZMod n)) :
    ZMod n :=
  (keys.map fun x => coefficient calls pubkeys pk2 (compressed (mulG x)) * x).sum

omit hc in
theorem weighted_cons (pubkeys : List PlainPk) (pk2 : PlainPk) (x : ZMod n) (keys : List (ZMod n)) :
    weighted calls pubkeys pk2 (x :: keys) =
      coefficient calls pubkeys pk2 (compressed (mulG x)) * x + weighted calls pubkeys pk2 keys :=
  List.sum_cons

theorem key_agg_loop_eval (pubkeys : List PlainPk) (pk2 : PlainPk) {keys : List (ZMod n)}
    (hkeys : ∀ x ∈ keys, x ≠ 0) (z : ZMod n) :
    key_agg.loop calls pubkeys pk2 (keys.map fun x => compressed (mulG x)) (encode (mulG z)) () =
      .ok (encode (mulG (z + weighted calls pubkeys pk2 keys))) () := by
  induction keys generalizing z with
  | nil =>
      have hnil : weighted calls pubkeys pk2 [] = 0 := rfl
      rw [hnil, add_zero]
      rfl
  | cons x keys ih =>
      have hx : mulG x ≠ 0 := mulG_ne_zero (hkeys x List.mem_cons_self)
      rw [List.map_cons, key_agg.loop, Exec.bind_apply_ok (cpoint_eval hc hx),
        Exec.bind_apply_ok (key_agg_coeff_internal_eval hc pubkeys _ pk2),
        Exec.bind_apply_ok (mul_point_eval hc _ _), Exec.bind_apply_ok (point_add_eval hc _ _),
        ← map_add, ih (fun y hy => hkeys y (List.mem_cons_of_mem x hy)), weighted_cons, add_assoc]

/-- What the aggregate key is after some tweaks: its multiple, and what the two accumulators
stand for. -/
structure Tweaked (q₀ : ZMod n) (ctx : KeyAggContext) : Prop where
  sums : ∃ g t, ctx.gacc = bytes g ∧ ctx.tacc = bytes t ∧ g * q₀ + t ≠ 0 ∧
    ctx.q = encode (mulG (g * q₀ + t))

theorem key_agg_ok {keys : List (ZMod n)} {pubkeys : List PlainPk}
    (hpubkeys : pubkeys = keys.map fun x => compressed (mulG x)) (hkeys : ∀ x ∈ keys, x ≠ 0)
    {ctx : KeyAggContext} (h : key_agg calls pubkeys () = .ok ctx ()) :
    ∃ pk2, second_key pubkeys () = .ok pk2 () ∧
      Tweaked (weighted calls pubkeys pk2 keys) ctx := by
  obtain ⟨_, h⟩ := Exec.reject_bind_ok.mp h
  obtain ⟨pk2, u, hpk2, h⟩ := Exec.bind_ok.mp h
  obtain ⟨q, u', hloop, h⟩ := Exec.bind_ok.mp h
  refine ⟨pk2, hpk2, ?_⟩
  have hzero : Point.default = encode (mulG 0) := by
    rw [map_zero]
    rfl
  have heval := key_agg_loop_eval hc pubkeys pk2 hkeys 0
  rw [← hpubkeys, ← hzero, hloop, zero_add] at heval
  cases heval
  obtain ⟨hq, h⟩ := Exec.reject_bind_ok.mp h
  cases h
  refine ⟨1, 0, one32_eq, zero32_eq, ?_, ?_⟩
  · rw [one_mul, add_zero]
    exact fun h0 => hq ((is_zero_iff _).mpr (mulG_eq_zero.mpr h0))
  · rw [one_mul, add_zero]

/-! ## Tweaks -/

omit hc in
theorem parity_eval (h : P ≠ 0) (is_xonly : Bool) :
    (if is_xonly then has_even_y (encode P) else pure true : MusigResult Bool) () =
      .ok (!is_xonly || even P) () := by
  cases is_xonly with
  | true => exact has_even_y_eval h
  | false => rfl

/-- The new key is `s Q + t'`, for a sign `s` and the tweak `t'`. -/
theorem apply_tweak_ok {q₀ : ZMod n} {ctx ctx' : KeyAggContext} {tweak : Vector U8 32}
    {is_xonly : Bool} (hctx : Tweaked q₀ ctx)
    (h : apply_tweak calls ctx tweak is_xonly () = .ok ctx' ()) : Tweaked q₀ ctx' := by
  obtain ⟨g, t, hg, ht, hne, hq⟩ := hctx.sums
  rw [apply_tweak, hq,
    Exec.bind_apply_ok (parity_eval _ (mulG_ne_zero hne) is_xonly),
    Exec.bind_apply_ok (sgn_eval hc _), Exec.bind_apply_ok (scalar_eval hc _)] at h
  obtain ⟨hreduced, h⟩ := Exec.reject_bind_ok.mp h
  obtain ⟨t', rfl⟩ := exists_bytes (not_not.mp hreduced)
  generalize sgn (!is_xonly || even (mulG (g * q₀ + t))) = s at h
  rw [Exec.bind_apply_ok (mul_point_eval hc _ _), Exec.bind_apply_ok (mul_generator_eval hc _),
    Exec.bind_apply_ok (point_add_eval hc _ _), ← map_add] at h
  obtain ⟨hzero, h⟩ := Exec.reject_bind_ok.mp h
  rw [Exec.bind_apply_ok (scalar_eval hc _), Exec.bind_apply_ok (scalar_eval hc _), hg, ht] at h
  simp only [cast_value_bytes] at h
  rw [Exec.bind_apply_ok (mul_eval hc _ _), Exec.bind_apply_ok (scalar_eval hc _),
    Exec.bind_apply_ok (scalar_eval hc _)] at h
  simp only [cast_value_bytes] at h
  rw [Exec.bind_apply_ok (mul_eval hc _ _), Exec.bind_apply_ok (add_eval hc _ _)] at h
  cases h
  have hsum : s * (g * q₀ + t) + t' = s * g * q₀ + (s * t + t') := by ring
  refine ⟨s * g, s * t + t', rfl, rfl, ?_, ?_⟩
  · rw [← hsum]
    exact fun h0 => hzero ((is_zero_iff _).mpr (mulG_eq_zero.mpr h0))
  · rw [← hsum]

theorem apply_tweaks_ok {q₀ : ZMod n} {tweaks : List (Vector U8 32 × Bool)}
    {ctx ctx' : KeyAggContext} (hctx : Tweaked q₀ ctx)
    (h : apply_tweaks calls tweaks ctx () = .ok ctx' ()) : Tweaked q₀ ctx' := by
  induction tweaks generalizing ctx with
  | nil =>
      cases h
      exact hctx
  | cons tweak tweaks ih =>
      obtain ⟨ctx₁, u, happly, h⟩ := Exec.bind_ok.mp h
      exact ih (apply_tweak_ok hc hctx happly) h

/-! ## Nonces -/

omit hc in
theorem half_zero (r1 r2 : PlainPk) : half (r1 ++ r2) 0 = r1 := by
  refine Vector.ext fun i hi => ?_
  have hlt : (0 : Fin 2).val * 33 + i < 33 + 33 := by omega
  rw [half, Vector.getElem_ofFn, getElem!_pos (r1 ++ r2) _ hlt, Vector.getElem_append_left]
  · simp
  · omega

omit hc in
theorem half_one (r1 r2 : PlainPk) : half (r1 ++ r2) 1 = r2 := by
  refine Vector.ext fun i hi => ?_
  have hlt : (1 : Fin 2).val * 33 + i < 33 + 33 := by
    show 1 * 33 + i < 33 + 33
    omega
  rw [half, Vector.getElem_ofFn, getElem!_pos (r1 ++ r2) _ hlt, Vector.getElem_append_right]
  · simp
  · show 33 ≤ 1 * 33 + i
    omega

theorem nonce_gen_ok {rand : Bytes} {pk : PlainPk} {aggpk : XOnlyPk} {secnonce : SecNonce}
    {pubnonce : PubNonce}
    (h : nonce_gen calls rand pk aggpk () = .ok (secnonce, pubnonce) ()) :
    ∃ k1 k2, k1 ≠ 0 ∧ k2 ≠ 0 ∧ secnonce = ⟨bytes k1, bytes k2, pk⟩ ∧
      pubnonce = compressed (mulG k1) ++ compressed (mulG k2) := by
  rw [nonce_gen, Exec.bind_apply_ok (scalar_eval hc _),
    Exec.bind_apply_ok (scalar_eval hc _)] at h
  generalize (value (nonce_hash calls rand pk aggpk 0) : ZMod n) = k1 at h
  generalize (value (nonce_hash calls rand pk aggpk 1) : ZMod n) = k2 at h
  obtain ⟨hzero, h⟩ := Exec.reject_bind_ok.mp h
  rw [not_or] at hzero
  dsimp only [BigNumMod.to_be_bytes] at h
  have hk1 : k1 ≠ 0 := fun h0 => hzero.1 (bytes_eq_zero.mpr h0)
  have hk2 : k2 ≠ 0 := fun h0 => hzero.2 (bytes_eq_zero.mpr h0)
  have hr1 : mulG k1 ≠ 0 := mulG_ne_zero hk1
  have hr2 : mulG k2 ≠ 0 := mulG_ne_zero hk2
  rw [Exec.bind_apply_ok (mul_generator_eval hc k1),
    Exec.bind_apply_ok (mul_generator_eval hc k2)] at h
  obtain ⟨_, h⟩ := Exec.reject_bind_ok.mp h
  rw [Exec.bind_apply_ok (compress_eval hr1), Exec.bind_apply_ok (compress_eval hr2)] at h
  cases h
  exact ⟨k1, k2, hk1, hk2, rfl, rfl⟩

/-- One of the two numbers. -/
def component (j : Fin 2) (k : ZMod n × ZMod n) : ZMod n := if j.val = 0 then k.1 else k.2

/-- The public nonce of two numbers. -/
def pubnonce (k : ZMod n × ZMod n) : PubNonce := compressed (mulG k.1) ++ compressed (mulG k.2)

omit hc in
theorem half_pubnonce (k : ZMod n × ZMod n) (j : Fin 2) :
    half (pubnonce k) j = compressed (mulG (component j k)) := by
  fin_cases j
  · exact half_zero _ _
  · exact half_one _ _

theorem nonce_agg_loop_eval (j : Fin 2) {nonces : List (ZMod n × ZMod n)}
    (hnonces : ∀ k ∈ nonces, component j k ≠ 0) (i : ℕ) (z : ZMod n) :
    nonce_agg.loop calls j (nonces.map pubnonce) i (encode (mulG z)) () =
      .ok (encode (mulG (z + (nonces.map (component j)).sum))) () := by
  induction nonces generalizing i z with
  | nil =>
      have hnil : ((([] : List (ZMod n × ZMod n)).map (component j))).sum = 0 := rfl
      rw [hnil, add_zero]
      rfl
  | cons k nonces ih =>
      have hk : mulG (component j k) ≠ 0 := mulG_ne_zero (hnonces k List.mem_cons_self)
      have hcpoint : cpoint calls (half (pubnonce k) j) () =
          .ok (encode (mulG (component j k))) () := by
        rw [half_pubnonce, cpoint_eval hc hk]
      rw [List.map_cons, nonce_agg.loop, Exec.bind_apply_ok (Exec.map_err_ok.mpr hcpoint),
        Exec.bind_apply_ok (point_add_eval hc _ _), ← map_add,
        ih (fun k' hk' => hnonces k' (List.mem_cons_of_mem k hk')), List.map_cons, List.sum_cons,
        add_assoc]

theorem nonce_agg_component_eval (j : Fin 2) {nonces : List (ZMod n × ZMod n)}
    (hnonces : ∀ k ∈ nonces, component j k ≠ 0) :
    nonce_agg.component calls (nonces.map pubnonce) j () =
      .ok (compressed (mulG (nonces.map (component j)).sum)) () := by
  have hzero : Point.default = encode (mulG 0) := by
    rw [map_zero]
    rfl
  rw [nonce_agg.component, hzero, Exec.bind_apply_ok (nonce_agg_loop_eval hc j hnonces 0 0),
    zero_add]
  by_cases h : mulG (nonces.map (component j)).sum = 0
  · rw [h]
    rfl
  · rw [if_neg fun h0 => h ((is_zero_iff _).mp h0), compress_eval h]

/-- The aggregate nonce is the public nonce of the sums. -/
theorem nonce_agg_ok {nonces : List (ZMod n × ZMod n)} (hnonces : ∀ k ∈ nonces, k.1 ≠ 0 ∧ k.2 ≠ 0)
    {aggnonce : PubNonce} (h : nonce_agg calls (nonces.map pubnonce) () = .ok aggnonce ()) :
    aggnonce = pubnonce ((nonces.map Prod.fst).sum, (nonces.map Prod.snd).sum) := by
  obtain ⟨_, h⟩ := Exec.reject_bind_ok.mp h
  rw [Exec.bind_apply_ok (nonce_agg_component_eval hc 0 fun k hk => (hnonces k hk).1),
    Exec.bind_apply_ok (nonce_agg_component_eval hc 1 fun k hk => (hnonces k hk).2)] at h
  cases h
  rfl

/-- The final nonce: one where the sum is zero. -/
def final (ρ : ZMod n) : ZMod n := if ρ = 0 then 1 else ρ

omit hc in
theorem final_ne_zero (ρ : ZMod n) : final ρ ≠ 0 := by
  rw [final]
  split
  · exact one_ne_zero
  · assumption

theorem final_nonce_ok {k : ZMod n × ZMod n} {b : Vector U8 32} {r : Point}
    (h : final_nonce calls (pubnonce k) b () = .ok r ()) :
    r = encode (mulG (final (k.1 + value b * k.2))) := by
  have hfirst : cpoint_ext calls (half (pubnonce k) 0) () = .ok (encode (mulG k.1)) () := by
    rw [half_pubnonce, cpoint_ext_eval hc]
    rfl
  have hsecond : cpoint_ext calls (half (pubnonce k) 1) () = .ok (encode (mulG k.2)) () := by
    rw [half_pubnonce, cpoint_ext_eval hc]
    rfl
  rw [final_nonce, Exec.bind_apply_ok hfirst, Exec.bind_apply_ok hsecond] at h
  obtain ⟨b_r2, u, hmul, h⟩ := Exec.bind_ok.mp h
  obtain rfl := mul_point_ok hc _ hmul
  rw [Exec.bind_apply_ok (point_add_eval hc _ _), ← map_add] at h
  cases h
  have hone : encode (mulG 1) = get_generator := by
    rw [← Nat.cast_one, mulG_natCast, one_smul, encode_generator]
  rw [final]
  by_cases hsum : k.1 + value b * k.2 = 0
  · rw [if_pos hsum, hone, hsum, map_zero]
    rfl
  · rw [if_neg hsum, if_neg fun h0 => hsum (mulG_eq_zero.mp ((is_zero_iff _).mp h0))]

/-! ## Sessions -/

/-- What the values of a session are, for the keys and the sums of the nonces. -/
structure Session (calls : Calls) (ctx : SessionContext) (keys : List (ZMod n))
    (k : ZMod n × ZMod n) (values : SessionValues) (pk2 : PlainPk) (g t : ZMod n) : Prop where
  second : second_key ctx.pubkeys () = .ok pk2 ()
  gacc : values.gacc = bytes g
  tacc : values.tacc = bytes t
  key_ne_zero : g * weighted calls ctx.pubkeys pk2 keys + t ≠ 0
  q : values.q = encode (mulG (g * weighted calls ctx.pubkeys pk2 keys + t))
  r : values.r = encode (mulG (final (k.1 + value values.b * k.2)))
  e : values.e = challenge calls values.r.x values.q.x ctx.msg

theorem get_session_values_ok {ctx : SessionContext} {keys : List (ZMod n)}
    {k : ZMod n × ZMod n} (hpubkeys : ctx.pubkeys = keys.map fun x => compressed (mulG x))
    (hkeys : ∀ x ∈ keys, x ≠ 0) (haggnonce : ctx.aggnonce = pubnonce k) {values : SessionValues}
    (h : get_session_values calls ctx () = .ok values ()) :
    ∃ pk2 g t, Session calls ctx keys k values pk2 g t := by
  obtain ⟨keyagg, u, hagg, h⟩ := Exec.bind_ok.mp h
  obtain ⟨keyagg', u', htweaks, h⟩ := Exec.bind_ok.mp h
  obtain ⟨r, u'', hr, h⟩ := Exec.bind_ok.mp h
  cases h
  obtain ⟨pk2, hpk2, htweaked⟩ := key_agg_ok hc hpubkeys hkeys hagg
  obtain ⟨g, t, hg, ht, hne, hq⟩ := (apply_tweaks_ok hc htweaked htweaks).sums
  rw [haggnonce] at hr
  refine ⟨pk2, g, t, hpk2, hg, ht, hne, hq, ?_, rfl⟩
  rw [final_nonce_ok hc hr, haggnonce]

/-! ## Signatures -/

theorem flip_eval (even : Bool) :
    flip calls even (bytes z) ⟨bytes z⟩ () = .ok (bytes (sgn even * z)) () := by
  cases even with
  | true =>
      rw [sgn, if_pos rfl, one_mul]
      rfl
  | false =>
      rw [sgn, if_neg Bool.false_ne_true, neg_one_mul]
      exact Exec.bind_apply_ok (neg_eval hc z)

omit hc in
/-- A number other than zero is in range. -/
theorem in_range_bytes {z : ZMod n} (hz : z ≠ 0) :
    ¬ ((⟨bytes z⟩ : Scalar).to_be_bytes ≠ bytes z ∨ bytes z = zero32) :=
  not_or.mpr ⟨not_not.mpr rfl, fun h => hz (bytes_eq_zero.mp h)⟩

theorem in_range_eval (hz : z ≠ 0) (e : MusigError) :
    in_range calls (bytes z) e () = .ok ⟨bytes z⟩ () := by
  rw [in_range, Exec.bind_apply_ok (scalar_eval hc _), cast_value_bytes,
    Exec.reject_bind_neg (in_range_bytes hz)]
  rfl

/-- The partial signature of a signer. -/
def partial_sig (calls : Calls) (ctx : SessionContext) (keys : List (ZMod n))
    (values : SessionValues) (pk2 : PlainPk) (g t : ZMod n) (k : ZMod n × ZMod n) (ρ x : ZMod n) :
    ZMod n :=
  let σ := sgn (even (mulG (final ρ)))
  let γ := sgn (even (mulG (g * weighted calls ctx.pubkeys pk2 keys + t)))
  σ * k.1 + value values.b * (σ * k.2) +
    value values.e * coefficient calls ctx.pubkeys pk2 (compressed (mulG x)) * (γ * g * x)

theorem sign_eval {ctx : SessionContext} {keys : List (ZMod n)} {ks : ZMod n × ZMod n}
    {values : SessionValues} {pk2 : PlainPk} {g t : ZMod n}
    (hvalues : get_session_values calls ctx () = .ok values ())
    (hsession : Session calls ctx keys ks values pk2 g t) {k : ZMod n × ZMod n}
    (hk : k.1 ≠ 0 ∧ k.2 ≠ 0) {x : ZMod n} (hx : x ≠ 0)
    (hmem : compressed (mulG x) ∈ ctx.pubkeys) :
    sign calls ⟨bytes k.1, bytes k.2, compressed (mulG x)⟩ (bytes x) ctx () =
      .ok (bytes (partial_sig calls ctx keys values pk2 g t k
        (ks.1 + value values.b * ks.2) x)) () := by
  have hr : mulG (final (ks.1 + value values.b * ks.2)) ≠ 0 := mulG_ne_zero (final_ne_zero _)
  have hq : mulG (g * weighted calls ctx.pubkeys pk2 keys + t) ≠ 0 :=
    mulG_ne_zero hsession.key_ne_zero
  have hpoint : mulG x ≠ 0 := mulG_ne_zero hx
  have hcoeff : get_session_key_agg_coeff calls ctx (compressed (mulG x)) () =
      .ok (bytes (coefficient calls ctx.pubkeys pk2 (compressed (mulG x)))) () := by
    rw [get_session_key_agg_coeff, Exec.reject_bind_neg (not_not.mpr hmem), key_agg_coeff,
      Exec.bind_apply_ok hsession.second, key_agg_coeff_internal_eval hc]
  rw [sign, Exec.bind_apply_ok hvalues, Exec.bind_apply_ok (scalar_eval hc _),
    Exec.bind_apply_ok (scalar_eval hc _), cast_value_bytes, cast_value_bytes,
    Exec.reject_bind_neg (in_range_bytes hk.1), Exec.reject_bind_neg (in_range_bytes hk.2), hsession.r,
    Exec.bind_apply_ok (has_even_y_eval hr), Exec.bind_apply_ok (flip_eval hc _ _),
    Exec.bind_apply_ok (flip_eval hc _ _), Exec.bind_apply_ok (in_range_eval hc _ hx _),
    Exec.bind_apply_ok (mul_generator_eval hc _), Exec.bind_apply_ok (compress_eval hpoint),
    Exec.reject_bind_neg (not_not.mpr rfl), Exec.bind_apply_ok hcoeff, hsession.q,
    Exec.bind_apply_ok (has_even_y_eval hq), Exec.bind_apply_ok (sgn_eval hc _),
    Exec.bind_apply_ok (scalar_eval hc _), hsession.gacc, Exec.bind_apply_ok (scalar_eval hc _),
    cast_value_bytes, cast_value_bytes, Exec.bind_apply_ok (mul_eval hc _ _),
    Exec.bind_apply_ok (mul_eval hc _ _), Exec.bind_apply_ok (scalar_eval hc _),
    Exec.bind_apply_ok (scalar_eval hc _), cast_value_bytes,
    Exec.bind_apply_ok (mul_eval hc _ _), Exec.bind_apply_ok (scalar_eval hc _),
    Exec.bind_apply_ok (scalar_eval hc _), Exec.bind_apply_ok (scalar_eval hc _),
    Exec.bind_apply_ok (scalar_eval hc _)]
  simp only [BigNumMod.to_be_bytes, cast_value_bytes]
  rw [Exec.bind_apply_ok (mul_eval hc _ _), Exec.bind_apply_ok (mul_eval hc _ _),
    Exec.bind_apply_ok (scalar_eval hc _), Exec.bind_apply_ok (scalar_eval hc _)]
  simp only [cast_value_bytes]
  rw [Exec.bind_apply_ok (add_eval hc _ _), Exec.bind_apply_ok (add_eval hc _ _)]
  rfl

omit hc in
theorem reduced_bytes (z : ZMod n) : ¬ ((⟨bytes z⟩ : Scalar).to_be_bytes ≠ bytes z) :=
  not_not.mpr rfl

theorem partial_sig_agg_loop_eval (ss : List (ZMod n)) :
    partial_sig_agg.loop calls (ss.map bytes) ⟨bytes z⟩ () = .ok ⟨bytes (z + ss.sum)⟩ () := by
  induction ss generalizing z with
  | nil =>
      rw [List.sum_nil, add_zero]
      rfl
  | cons s ss ih =>
      rw [List.map_cons, partial_sig_agg.loop, Exec.bind_apply_ok (scalar_eval hc _),
        cast_value_bytes, Exec.reject_bind_neg (reduced_bytes s),
        Exec.bind_apply_ok (add_assign_eval hc _ _), ih, List.sum_cons, add_assoc]

theorem partial_sig_agg_sign_eval (even : Bool) :
    partial_sig_agg.sign calls even () = .ok ⟨bytes (sgn even)⟩ () := by
  cases even with
  | true =>
      rw [partial_sig_agg.sign, if_pos rfl, scalar_eval hc, one32_eq, cast_value_bytes]
      rfl
  | false =>
      rw [partial_sig_agg.sign, if_neg Bool.false_ne_true, Exec.bind_apply_ok (from_one_eval hc),
        neg_eval hc]
      rfl

/-- The sum of the partial signatures, and what makes up for the tweaks. -/
theorem partial_sig_agg_eval {ctx : SessionContext} {keys : List (ZMod n)} {ks : ZMod n × ZMod n}
    {values : SessionValues} {pk2 : PlainPk} {g t : ZMod n}
    (hvalues : get_session_values calls ctx () = .ok values ())
    (hsession : Session calls ctx keys ks values pk2 g t) {ss : List (ZMod n)}
    (hlength : ss.length = ctx.pubkeys.length) :
    partial_sig_agg calls ctx (ss.map bytes) () = .ok (values.r.x ++ bytes (ss.sum +
      value values.e * (sgn (even (mulG (g * weighted calls ctx.pubkeys pk2 keys + t))) * t))) ()
    := by
  have hq : mulG (g * weighted calls ctx.pubkeys pk2 keys + t) ≠ 0 :=
    mulG_ne_zero hsession.key_ne_zero
  rw [partial_sig_agg, Exec.reject_bind_neg (by rw [List.length_map]; exact not_not.mpr hlength),
    Exec.bind_apply_ok hvalues, Exec.bind_apply_ok (from_zero_eval hc),
    Exec.bind_apply_ok (partial_sig_agg_loop_eval hc 0 ss), zero_add,
    Exec.bind_apply_ok (scalar_eval hc _), hsession.tacc, Exec.bind_apply_ok (scalar_eval hc _),
    hsession.q, Exec.bind_apply_ok (has_even_y_eval hq),
    Exec.bind_apply_ok (partial_sig_agg_sign_eval hc _), cast_value_bytes,
    Exec.bind_apply_ok (mul_eval hc _ _), Exec.bind_apply_ok (mul_eval hc _ _),
    Exec.bind_apply_ok (add_assign_eval hc _ _)]
  rfl

end Calls

/-! ## The signature -/

/-- A signature of BIP-340, of a message under a key that is an `x`. -/
def Verifies (calls : Calls) (pk : XOnlyPk) (msg : Bytes) (sig : Vector U8 64) : Prop :=
  ∃ P R : Group, P ≠ 0 ∧ even P = true ∧ (encode P).x = pk ∧
    R ≠ 0 ∧ even R = true ∧ (encode R).x = (sig.take 32 : Vector U8 32) ∧
    value (sig.drop 32 : Vector U8 32) < n ∧
    value (sig.drop 32 : Vector U8 32) • generator.point =
      R + (value (challenge calls (sig.take 32 : Vector U8 32) pk msg) % n) • P

/-- One of the signers, with the nonces of the session. -/
structure Signer where
  sk : Vector U8 32
  secnonce : SecNonce
  pubnonce : PubNonce

def Signer.pubkey (signer : Signer) : PlainPk :=
  compressed (value signer.sk • generator.point)

structure Signer.Honest (calls : Calls) (signer : Signer) : Prop where
  sk_range : 0 < value signer.sk ∧ value signer.sk < n
  nonces : ∃ rand aggpk, nonce_gen calls rand signer.pubkey aggpk () =
    .ok (signer.secnonce, signer.pubnonce) ()

/-- The signer of a key and two nonces. -/
def signer (d : ZMod n × ZMod n × ZMod n) : Signer where
  sk := bytes d.1
  secnonce := ⟨bytes d.2.1, bytes d.2.2, compressed (mulG d.1)⟩
  pubnonce := pubnonce d.2

theorem signer_pubkey (d : ZMod n × ZMod n × ZMod n) :
    (signer d).pubkey = compressed (mulG d.1) := by
  rw [Signer.pubkey, ← mulG_natCast]
  show compressed (mulG ((value (bytes d.1) : ℕ) : ZMod n)) = _
  rw [cast_value_bytes]

variable {calls : Calls} (hc : Computes calls)
include hc

theorem Signer.Honest.exists {s : Signer} (h : s.Honest calls) :
    ∃ d, d.1 ≠ 0 ∧ d.2.1 ≠ 0 ∧ d.2.2 ≠ 0 ∧ s = signer d := by
  obtain ⟨rand, aggpk, hnonces⟩ := h.nonces
  obtain ⟨k1, k2, hk1, hk2, hsecret, hpublic⟩ := nonce_gen_ok hc hnonces
  have hsk : s.sk = bytes (value s.sk : ZMod n) :=
    eq_bytes_of_value (Nat.mod_eq_of_lt h.sk_range.2).symm
  have hne : ((value s.sk : ℕ) : ZMod n) ≠ 0 := fun h0 => by
    have hle := Nat.le_of_dvd h.sk_range.1 ((ZMod.natCast_eq_zero_iff _ _).mp h0)
    exact absurd hle (not_le.mpr h.sk_range.2)
  refine ⟨((value s.sk : ℕ), k1, k2), hne, hk1, hk2, ?_⟩
  obtain ⟨sk, secnonce, nonce⟩ := s
  rw [signer, Signer.mk.injEq]
  refine ⟨hsk, ?_, hpublic⟩
  dsimp only at hsecret
  rw [hsecret, SecNonce.mk.injEq]
  refine ⟨rfl, rfl, ?_⟩
  rw [Signer.pubkey, ← mulG_natCast]

theorem exists_data {signers : List Signer} (h : ∀ s ∈ signers, s.Honest calls) :
    ∃ data : List (ZMod n × ZMod n × ZMod n),
      (∀ d ∈ data, d.1 ≠ 0 ∧ d.2.1 ≠ 0 ∧ d.2.2 ≠ 0) ∧ signers = data.map signer := by
  induction signers with
  | nil => exact ⟨[], by simp, rfl⟩
  | cons s signers ih =>
      obtain ⟨data, hdata, rfl⟩ := ih fun s' hs' => h s' (List.mem_cons_of_mem s hs')
      obtain ⟨d, h1, h2, h3, rfl⟩ := (h s List.mem_cons_self).exists hc
      refine ⟨d :: data, fun d' hd' => ?_, rfl⟩
      rcases List.mem_cons.mp hd' with rfl | hd'
      · exact ⟨h1, h2, h3⟩
      · exact hdata d' hd'

omit hc in
/-- What the partial signatures add up to. -/
theorem sum_partial_sig (ctx : SessionContext) (keys : List (ZMod n)) (values : SessionValues)
    (pk2 : PlainPk) (g t ρ : ZMod n) (data : List (ZMod n × ZMod n × ZMod n)) :
    (data.map fun d => partial_sig calls ctx keys values pk2 g t d.2 ρ d.1).sum =
      sgn (even (mulG (final ρ))) * ((data.map fun d => d.2.1).sum +
        value values.b * (data.map fun d => d.2.2).sum) +
      value values.e * (sgn (even (mulG (g * weighted calls ctx.pubkeys pk2 keys + t))) *
        (g * weighted calls ctx.pubkeys pk2 (data.map Prod.fst))) := by
  induction data with
  | nil =>
      have hnil : weighted calls ctx.pubkeys pk2 [] = 0 := rfl
      simp [hnil]
  | cons d data ih =>
      rw [List.map_cons, List.sum_cons, ih, List.map_cons, List.sum_cons, List.map_cons,
        List.sum_cons, List.map_cons, weighted_cons]
      simp only [partial_sig]
      ring

omit hc in
theorem weighted_perm {pubkeys : List PlainPk} {pk2 : PlainPk} {keys keys' : List (ZMod n)}
    (h : keys.Perm keys') : weighted calls pubkeys pk2 keys = weighted calls pubkeys pk2 keys' :=
  (h.map _).sum_eq

omit hc in
theorem take_append (r s : Vector U8 32) : ((r ++ s).take 32 : Vector U8 32) = r := by
  refine Vector.ext fun i hi => ?_
  show ((r ++ s).extract 0 32)[i] = r[i]
  rw [Vector.getElem_extract, Vector.getElem_append_left (by omega)]
  simp only [Nat.zero_add]

omit hc in
theorem drop_append (r s : Vector U8 32) : ((r ++ s).drop 32 : Vector U8 32) = s := by
  refine Vector.ext fun i hi => ?_
  have hlt : 32 + i < 32 + 32 := by omega
  rw [Vector.getElem_drop, Vector.getElem_append_right (h := hlt) (Nat.le_add_right 32 i)]
  simp only [Nat.add_sub_cancel_left]

omit hc in
/-- There is one point with an even `y`, for an `x`. -/
theorem eq_of_even {P Q : Group} (hP : P ≠ 0) (hQ : Q ≠ 0) (hevenP : even P = true)
    (hevenQ : even Q = true) (hx : (encode P).x = (encode Q).x) : P = Q := by
  rcases eq_or_neg_of_x hP hQ hx with h | h
  · exact h
  · rw [h, even_neg hQ, hevenQ] at hevenP
    cases hevenP

omit hc in
theorem mulG_injective : Function.Injective mulG :=
  (injective_iff_map_eq_zero mulG).mpr fun _ h => mulG_eq_zero.mp h

omit hc in
theorem sgn_ne_zero (even : Bool) : sgn even ≠ 0 := fun h => by
  have hone := sgn_mul_self even
  rw [h, zero_mul] at hone
  exact zero_ne_one hone

omit hc in
/-- A signature that is made of a nonce and a key, each with the sign that makes it even. -/
theorem verifies_iff {ρ q S : ZMod n} (hq : q ≠ 0) (msg : Bytes)
    (hS : S = sgn (even (mulG (final ρ))) * ρ +
      value (challenge calls (encode (mulG (final ρ))).x (encode (mulG q)).x msg) *
        (sgn (even (mulG q)) * q)) :
    Verifies calls (encode (mulG q)).x msg ((encode (mulG (final ρ))).x ++ bytes S) ↔ ρ ≠ 0 := by
  have hpoint : mulG q ≠ 0 := mulG_ne_zero hq
  have hnonce : mulG (final ρ) ≠ 0 := mulG_ne_zero (final_ne_zero ρ)
  obtain ⟨hevenP, hxP⟩ := even_sgn hpoint
  obtain ⟨hevenR, hxR⟩ := even_sgn hnonce
  have hne : ∀ {z : ZMod n} (even : Bool), z ≠ 0 → mulG (sgn even * z) ≠ 0 :=
    fun even hz => mulG_ne_zero (mul_ne_zero (sgn_ne_zero even) hz)
  have hP := hne (even (mulG q)) hq
  have hR := hne (even (mulG (final ρ))) (final_ne_zero ρ)
  -- what the verifier compares, for the only points that it can take
  have hequation : value (bytes S) • generator.point =
      mulG (sgn (even (mulG (final ρ))) * final ρ) +
        (value (challenge calls (encode (mulG (final ρ))).x (encode (mulG q)).x msg) % n) •
          mulG (sgn (even (mulG q)) * q) ↔ ρ ≠ 0 := by
    rw [← mulG_natCast, cast_value_bytes, ← mulG_smul, ZMod.natCast_mod, ← map_add, hS,
      mulG_injective.eq_iff, add_left_inj, mul_right_inj' (sgn_ne_zero _), final]
    split
    · next h => simp [h]
    · next h => simp [h]
  unfold Verifies
  rw [take_append, drop_append]
  constructor
  · rintro ⟨P, R, hP', hevenP', hxP', hR', hevenR', hxR', _, h⟩
    rw [eq_of_even hP' hP hevenP' hevenP (hxP'.trans hxP.symm),
      eq_of_even hR' hR hevenR' hevenR (hxR'.trans hxR.symm)] at h
    exact hequation.mp h
  · intro h
    have hlt : value (bytes S) < n := by
      rw [value_bytes]
      exact ZMod.val_lt S
    exact ⟨_, _, hP, hevenP, hxP, hR, hevenR, hxR, hlt, hequation.mpr h⟩

/-! ## A session -/

variable (calls) in
omit hc in
/-- What the partial signatures and the tweaks add up to. -/
theorem aggregate_sum (ctx : SessionContext) {keys : List (ZMod n)} (values : SessionValues)
    (pk2 : PlainPk) (g t ρ : ZMod n) {data : List (ZMod n × ZMod n × ZMod n)}
    (hkeys : keys.Perm (data.map Prod.fst))
    (hρ : ρ = (data.map fun d => d.2.1).sum + value values.b * (data.map fun d => d.2.2).sum) :
    (data.map fun d => partial_sig calls ctx keys values pk2 g t d.2 ρ d.1).sum +
        value values.e * (sgn (even (mulG (g * weighted calls ctx.pubkeys pk2 keys + t))) * t) =
      sgn (even (mulG (final ρ))) * ρ + value values.e *
        (sgn (even (mulG (g * weighted calls ctx.pubkeys pk2 keys + t))) *
          (g * weighted calls ctx.pubkeys pk2 keys + t)) := by
  rw [sum_partial_sig, ← hρ, weighted_perm hkeys]
  ring

omit hc in
/-- The keys or nonces of the signers, in some order. -/
theorem exists_perm_map {α β γ : Type} {f : β → γ} {l : List γ} (data : List α) (g : α → β)
    (h : l.Perm (data.map fun d => f (g d))) : ∃ xs : List β, l = xs.map f ∧ xs.Perm (data.map g) := by
  have hmap : (data.map fun d => f (g d)) = (data.map g).map f := List.map_map.symm
  rw [hmap] at h
  have hcomp := (congrFun (congrFun (List.eq_map_comp_perm f) l) (data.map g)).mpr h
  obtain ⟨xs, hl, hperm⟩ := hcomp
  exact ⟨xs, hl, hperm⟩

omit hc in
theorem cast_sum_value {α : Type} (f : α → Vector U8 32) (l : List α) :
    (((l.map fun a => value (f a)).sum : ℕ) : ZMod n) = (l.map fun a => (value (f a) : ZMod n)).sum := by
  induction l with
  | nil => exact Nat.cast_zero
  | cons a l ih => rw [List.map_cons, List.sum_cons, Nat.cast_add, ih, List.map_cons, List.sum_cons]

/-- Honest signers sign, whatever the order of the keys, of the nonces and of the partial
signatures; what these add up to verifies under the key of the session unless the nonces
add up to infinity. -/
theorem aggregate_verifies {ctx : SessionContext} {signers : List Signer}
    {pubnonces : List PubNonce} {values : SessionValues}
    (hsigners : ∀ s ∈ signers, s.Honest calls)
    (hkeys : ctx.pubkeys.Perm (signers.map Signer.pubkey))
    (hpubnonces : pubnonces.Perm (signers.map Signer.pubnonce))
    (hnonces : nonce_agg calls pubnonces () = .ok ctx.aggnonce ())
    (hvalues : get_session_values calls ctx () = .ok values ()) :
    ∃ psigs sig,
      List.Forall₂ (fun s psig => sign calls s.secnonce s.sk ctx () = .ok psig ()) signers psigs ∧
      (∀ psigs', psigs'.Perm psigs → partial_sig_agg calls ctx psigs' () = .ok sig ()) ∧
      (Verifies calls values.q.x ctx.msg sig ↔
        ¬ n ∣ (signers.map fun s => value s.secnonce.k1).sum +
          value values.b * (signers.map fun s => value s.secnonce.k2).sum) := by
  obtain ⟨data, hdata, rfl⟩ := exists_data hc hsigners
  simp only [List.map_map, Function.comp_def, signer_pubkey] at hkeys hpubnonces
  obtain ⟨keys, hpubkeys, hkeys⟩ := exists_perm_map (f := fun x => compressed (mulG x)) data
    Prod.fst hkeys
  obtain ⟨ks, rfl, hks⟩ := exists_perm_map (f := pubnonce) data Prod.snd hpubnonces
  have hkeys_ne : ∀ x ∈ keys, x ≠ 0 := fun x hx => by
    obtain ⟨d, hd, rfl⟩ := List.mem_map.mp (hkeys.subset hx)
    exact (hdata d hd).1
  have hks_ne : ∀ k ∈ ks, k.1 ≠ 0 ∧ k.2 ≠ 0 := fun k hk => by
    obtain ⟨d, hd, rfl⟩ := List.mem_map.mp (hks.subset hk)
    exact (hdata d hd).2
  have haggnonce := nonce_agg_ok hc hks_ne hnonces
  rw [(hks.map Prod.fst).sum_eq, (hks.map Prod.snd).sum_eq, List.map_map, List.map_map] at haggnonce
  obtain ⟨pk2, g, t, hsession⟩ := get_session_values_ok hc hpubkeys hkeys_ne haggnonce hvalues
  set ρ : ZMod n := (data.map fun d => d.2.1).sum + value values.b * (data.map fun d => d.2.2).sum
    with hρ
  let ss := data.map fun d => partial_sig calls ctx keys values pk2 g t d.2 ρ d.1
  refine ⟨ss.map bytes, values.r.x ++ bytes (ss.sum + value values.e *
    (sgn (even (mulG (g * weighted calls ctx.pubkeys pk2 keys + t))) * t)), ?_, ?_, ?_⟩
  · -- each of them signs
    simp only [ss, List.map_map, List.forall₂_map_left_iff, List.forall₂_map_right_iff,
      List.forall₂_same]
    intro d hd
    have hmem : compressed (mulG d.1) ∈ ctx.pubkeys := by
      rw [hpubkeys]
      exact List.mem_map_of_mem (hkeys.symm.subset (List.mem_map_of_mem hd))
    exact sign_eval hc hvalues hsession (hdata d hd).2 (hdata d hd).1 hmem
  · intro psigs' hperm
    obtain ⟨ss', rfl, hss'⟩ := exists_perm_map (f := bytes) ss id hperm
    have hlength : ss'.length = ctx.pubkeys.length := by
      calc ss'.length = data.length := by
            rw [hss'.length_eq, List.length_map, List.length_map]
        _ = keys.length := by rw [hkeys.length_eq, List.length_map]
        _ = ctx.pubkeys.length := by rw [hpubkeys, List.length_map]
    rw [List.map_id] at hss'
    rw [partial_sig_agg_eval hc hvalues hsession hlength, hss'.sum_eq]
  · have hr : values.r = encode (mulG (final ρ)) := hsession.r
    have he := hsession.e
    have hq := hsession.key_ne_zero
    have hsum := aggregate_sum calls ctx values pk2 g t ρ hkeys hρ
    rw [hr, hsession.q] at he
    rw [hr, hsession.q, he]
    rw [he] at hsum
    refine (verifies_iff hq ctx.msg hsum).trans ?_
    rw [Ne, hρ, not_iff_not, ← ZMod.natCast_eq_zero_iff, Nat.cast_add, Nat.cast_mul,
      cast_sum_value, cast_sum_value]
    simp only [List.map_map, Function.comp_def, signer, cast_value_bytes]

/-! ### One signer -/

/-- The point of these bytes, and infinity for those of no point. -/
def decode (q : Point) : Group :=
  (AffinePoint.of_coordinates (value q.x : ZMod p) (value q.y : ZMod p)).elim 0 AffinePoint.point

omit hc in
theorem decode_encode (P : Group) : decode (encode P) = P := by
  by_cases hP : P = 0
  · subst hP
    have hnot : ¬ (value (Vector.replicate 32 0 : Vector U8 32) : ZMod p) ^ 2 =
        (value (Vector.replicate 32 0 : Vector U8 32) : ZMod p) ^ 3 + 7 := by
      rw [value_zero]
      decide
    exact congrArg (Option.elim · 0 AffinePoint.point) (dif_neg hnot)
  · obtain ⟨A, rfl⟩ := exists_affine hP
    have hx : (value (encode A.point).x : ZMod p) = A.x := by
      rw [encode_point]
      show (value (hex32 A.x.val) : ZMod p) = A.x
      rw [value_hex32_val, ZMod.natCast_zmod_val]
    have hy : (value (encode A.point).y : ZMod p) = A.y := by
      rw [encode_point]
      show (value (hex32 A.y.val) : ZMod p) = A.y
      rw [value_hex32_val, ZMod.natCast_zmod_val]
    have hcoordinates : AffinePoint.of_coordinates A.x A.y = some A := dif_pos A.on_curve
    rw [decode, hx, hy, hcoordinates]
    rfl

/-- A number, in as many bytes as the modulus. -/
def reduced {N : ℕ} (m : Vector U8 N) (k : ℕ) : Option (Vector U8 N) :=
  some ⟨(LittleEndian.write N (k % BigNum.value ⟨m⟩)).reverse.toArray, by simp⟩

/-- The calls of a VM where every hash is one. -/
def calls_of_ones : Calls where
  curve :=
    { big_number_ecalls with
      ecfp_scalar_mult := fun q k => some (encode (value k • decode q))
      ecfp_add_point := fun q q' => some (encode (decode q + decode q')) }
  bn :=
    { bn_modm := fun a m => reduced m (BigNum.value ⟨a⟩)
      bn_addm := fun a b m => reduced m (BigNum.value ⟨a⟩ + BigNum.value ⟨b⟩)
      bn_subm := fun a b m => reduced m (BigNum.value ⟨a⟩ + (BigNum.value ⟨m⟩ - BigNum.value ⟨b⟩))
      bn_multm := fun a b m => reduced m (BigNum.value ⟨a⟩ * BigNum.value ⟨b⟩) }
  sha256t _ _ := one32

omit hc in
theorem value_N : value N = n := value_hex32 n_lt

omit hc in
theorem reduced_N (k : ℕ) : ∃ r, reduced N k = some r ∧ value r = k % n := by
  refine ⟨hex32 (k % n), ?_, value_hex32 ((Nat.mod_lt k n_prime.pos).trans n_lt)⟩
  show some (hex32 (k % value N)) = _
  rw [value_N]

omit hc in
theorem calls_of_ones_computes : Computes calls_of_ones where
  reduces := ⟨big_number_ecalls_reduces.multm, big_number_ecalls_reduces.addm,
    big_number_ecalls_reduces.powm⟩
  add P Q := by
    show some (encode (decode (encode P) + decode (encode Q))) = _
    rw [decode_encode, decode_encode]
  mult P k _ := by
    show some (encode (value k • decode (encode P))) = _
    rw [decode_encode]
  mult_some P k q h := by
    have heq : some (encode (value k • decode (encode P))) = some q := h
    rw [decode_encode] at heq
    exact (Option.some.inj heq).symm
  modm a := reduced_N _
  addm a b _ _ := reduced_N _
  subm a b _ _ := by
    obtain ⟨r, hr, hvalue⟩ := reduced_N (value a + (value N - value b))
    rw [value_N] at hvalue
    exact ⟨r, hr, hvalue⟩
  multm a b _ _ := reduced_N _

/-- The session of the signer whose key and nonces are one. -/
def session_of_ones : SessionContext where
  aggnonce := pubnonce (1, 1)
  pubkeys := [compressed (mulG 1)]
  tweaks := []
  is_xonly := []
  msg := []

omit hc in
theorem mulG_one_ne_zero : mulG 1 ≠ 0 := mulG_ne_zero one_ne_zero

omit hc in
theorem nonce_gen_of_ones : nonce_gen calls_of_ones [] (signer (1, 1, 1)).pubkey zero32 () =
    .ok (⟨bytes 1, bytes 1, compressed (mulG 1)⟩, pubnonce (1, 1)) () := by
  have hpoint := mulG_one_ne_zero
  have hcalls := calls_of_ones_computes
  have hscalar : ∀ i, scalar calls_of_ones
      (nonce_hash calls_of_ones [] (signer (1, 1, 1)).pubkey zero32 i) () =
        .ok ⟨bytes 1⟩ () := by
    intro i
    rw [scalar_eval hcalls]
    have hhash : nonce_hash calls_of_ones [] (signer (1, 1, 1)).pubkey zero32 i = bytes 1 := one32_eq
    rw [hhash, cast_value_bytes]
  have hzero : ¬ ((encode (mulG 1)).is_zero = true ∨ (encode (mulG 1)).is_zero = true) := by
    rw [is_zero_iff, or_self]
    exact hpoint
  have hbytes : ¬ (bytes 1 = zero32 ∨ bytes 1 = zero32) := by
    rw [bytes_eq_zero, or_self]
    exact one_ne_zero
  rw [nonce_gen, Exec.bind_apply_ok (hscalar 0), Exec.bind_apply_ok (hscalar 1)]
  refine (Exec.reject_bind_neg hbytes).trans ?_
  refine (Exec.bind_apply_ok (mul_generator_eval hcalls 1)).trans ?_
  refine (Exec.bind_apply_ok (mul_generator_eval hcalls 1)).trans ?_
  rw [Exec.reject_bind_neg hzero, Exec.bind_apply_ok (compress_eval hpoint),
    Exec.bind_apply_ok (compress_eval hpoint), signer_pubkey]
  rfl

omit hc in
theorem nonce_agg_of_ones :
    nonce_agg calls_of_ones [pubnonce (1, 1)] () = .ok (pubnonce (1, 1)) () := by
  have hne : ∀ j, ∀ k ∈ [((1, 1) : ZMod n × ZMod n)], component j k ≠ 0 := by
    intro j k hk
    obtain rfl := List.mem_singleton.mp hk
    fin_cases j <;> exact one_ne_zero
  have hcomponent : ∀ j, nonce_agg.component calls_of_ones [pubnonce (1, 1)] j () =
      .ok (compressed (mulG 1)) () := by
    intro j
    have hsum : ([((1, 1) : ZMod n × ZMod n)].map (component j)).sum = 1 := by
      fin_cases j <;> rfl
    have heval := nonce_agg_component_eval calls_of_ones_computes j (hne j)
    rw [hsum] at heval
    exact heval
  rw [nonce_agg, Exec.reject_bind_neg (by simp), Exec.bind_apply_ok (hcomponent 0),
    Exec.bind_apply_ok (hcomponent 1)]
  rfl

omit hc in
theorem key_agg_of_ones : key_agg calls_of_ones [compressed (mulG 1)] () =
    .ok ⟨encode (mulG 1), one32, zero32⟩ () := by
  have hweighted : weighted calls_of_ones [compressed (mulG 1)] (Vector.replicate 33 0) [1] = 1 := by
    have hone : (value one32 : ZMod n) = 1 := by
      rw [one32_eq, cast_value_bytes]
    have hcoeff : coefficient calls_of_ones [compressed (mulG 1)] (Vector.replicate 33 0)
        (compressed (mulG 1)) = 1 := by
      rw [coefficient]
      split
      · rfl
      · exact hone
    rw [weighted_cons, hcoeff, one_mul]
    rfl
  have hloop := @key_agg_loop_eval _ calls_of_ones_computes [compressed (mulG 1)]
    (Vector.replicate 33 0) [1] (by simp) 0
  have hzero : Point.default = encode (mulG 0) := by
    rw [map_zero]
    rfl
  have hsecond : second_key [compressed (mulG 1)] () = .ok (Vector.replicate 33 0) () := rfl
  rw [hweighted, zero_add, ← hzero, List.map_singleton] at hloop
  rw [key_agg, Exec.reject_bind_neg (by simp), Exec.bind_apply_ok hsecond,
    Exec.bind_apply_ok hloop,
    Exec.reject_bind_neg fun h => mulG_one_ne_zero ((is_zero_iff _).mp h)]
  rfl

omit hc in
theorem session_values_of_ones : ∃ values,
    get_session_values calls_of_ones session_of_ones () = .ok values () ∧ values.b = one32 := by
  have hcalls := calls_of_ones_computes
  have hr : ∃ r, final_nonce calls_of_ones (pubnonce (1, 1)) one32 () = .ok r () := by
    rw [final_nonce, half_pubnonce, half_pubnonce, Exec.bind_apply_ok (cpoint_ext_eval hcalls _),
      Exec.bind_apply_ok (cpoint_ext_eval hcalls _), one32_eq,
      Exec.bind_apply_ok (mul_point_eval hcalls _ _), Exec.bind_apply_ok (point_add_eval hcalls _ _)]
    exact ⟨_, rfl⟩
  obtain ⟨r, hr⟩ := hr
  have hnonce : final_nonce calls_of_ones session_of_ones.aggnonce (noncecoef calls_of_ones
      session_of_ones.aggnonce (encode (mulG 1)).x session_of_ones.msg) () = .ok r () := hr
  have hkeyagg : key_agg calls_of_ones session_of_ones.pubkeys () =
      .ok ⟨encode (mulG 1), one32, zero32⟩ () := key_agg_of_ones
  have htweaks : ∀ keyagg, apply_tweaks calls_of_ones
      (session_of_ones.tweaks.zip session_of_ones.is_xonly) keyagg () = .ok keyagg () :=
    fun _ => rfl
  rw [get_session_values, Exec.bind_apply_ok hkeyagg, Exec.bind_apply_ok (htweaks _),
    Exec.bind_apply_ok hnonce]
  exact ⟨_, rfl, rfl⟩

omit hc in
/-- The nonces add up to two. -/
theorem aggregate_verifies_one : ∃ values psigs sig,
    get_session_values calls_of_ones session_of_ones () = .ok values () ∧
    List.Forall₂ (fun s psig => sign calls_of_ones s.secnonce s.sk session_of_ones () = .ok psig ())
      [signer (1, 1, 1)] psigs ∧
    partial_sig_agg calls_of_ones session_of_ones psigs () = .ok sig () ∧
    Verifies calls_of_ones values.q.x [] sig := by
  obtain ⟨values, hvalues, hb⟩ := session_values_of_ones
  have hhonest : (signer (1, 1, 1)).Honest calls_of_ones := by
    refine ⟨?_, [], zero32, nonce_gen_of_ones⟩
    show 0 < value (bytes 1) ∧ value (bytes 1) < n
    rw [value_bytes, ZMod.val_one]
    exact ⟨Nat.zero_lt_one, n_prime.one_lt⟩
  have hsigners : ∀ s ∈ [signer (1, 1, 1)], s.Honest calls_of_ones := by
    intro s hs
    rwa [List.mem_singleton.mp hs]
  have hkeys : session_of_ones.pubkeys.Perm ([signer (1, 1, 1)].map Signer.pubkey) := by
    rw [List.map_singleton, signer_pubkey]
    exact List.Perm.refl _
  have hpubnonces : [pubnonce (1, 1)].Perm ([signer (1, 1, 1)].map Signer.pubnonce) :=
    List.Perm.refl _
  obtain ⟨psigs, sig, hsigned, hagg, hverifies⟩ := aggregate_verifies calls_of_ones_computes
    hsigners hkeys hpubnonces nonce_agg_of_ones hvalues
  refine ⟨values, psigs, sig, hvalues, hsigned, hagg psigs (List.Perm.refl _), hverifies.mpr ?_⟩
  have hone : value (bytes 1) = 1 := by rw [value_bytes, ZMod.val_one]
  rw [hb, one32_eq, List.map_singleton, List.map_singleton, List.sum_singleton, List.sum_singleton]
  show ¬ n ∣ value (bytes 1) + value (bytes 1) * value (bytes 1)
  rw [hone]
  exact fun h => absurd (Nat.le_of_dvd (by omega) h) (by decide)

end Vanadium.Bitcoin.Musig
