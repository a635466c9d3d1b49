import Vanadium.AppSdk.Curve

/-!
# MuSig2

The model of `musig/mod.rs` and `musig/types.rs` in `apps/bitcoin/common`, up to the
aggregate signature. Points and scalars are computed by the VM and come from the SDK; the
tagged hashes are a parameter, by their tag.

A secret nonce is consumed by `sign` in the source, and is just an argument here.
-/

namespace Vanadium.Bitcoin.Musig

open Lib AppSdk

/-- The group order. -/
def N : Vector U8 32 :=
  hex32 0xFFFFFFFFFFFFFFFFFFFFFFFFFFFFFFFEBAAEDCE6AF48A03BBFD25E8CD0364141

abbrev PlainPk := Vector U8 33

abbrev XOnlyPk := Vector U8 32

/-- `Q`, and what became of it: the signs and the sum of the tweaks. -/
structure KeyAggContext where
  q : Point
  gacc : Vector U8 32
  tacc : Vector U8 32

/-- Two compressed points. -/
abbrev PubNonce := Vector U8 66

structure SecNonce where
  k1 : Vector U8 32
  k2 : Vector U8 32
  pk : PlainPk

structure SessionContext where
  aggnonce : PubNonce
  pubkeys : List PlainPk
  tweaks : List (Vector U8 32)
  is_xonly : List Bool
  msg : Bytes

inductive MusigError where
  | invalidPoint
  | emptyPubkeyList
  | keyAggInfinity
  | nonceGenFailed
  | invalidContribution (index : ℕ)
  | tweakOutOfRange
  | tweakInfinity
  | pubkeyNotInList
  | nonceOutOfRange
  | secretKeyOutOfRange
  | pubkeyMismatch
  | invalidPartialSignature
  deriving DecidableEq, Repr

structure Calls where
  curve : PointEcalls
  bn : BigNumEcalls
  sha256t : String → Bytes → Vector U8 32

abbrev MusigResult (α : Type) := Exec MusigError Unit α

variable (calls : Calls)

/-! ## Points and scalars -/

/-- `BigNumMod::<32, N>` -/
abbrev Scalar := BigNumMod N

def zero32 : Vector U8 32 := Vector.replicate 32 0

def one32 : Vector U8 32 := (Vector.replicate 31 0).push 1

/-- `BigNumMod::<32, N>::from_be_bytes` -/
def scalar (bytes : Vector U8 32) : MusigResult Scalar := BigNumMod.from_be_bytes calls.bn bytes

def mul (p : Point) (k : Vector U8 32) : MusigResult Point :=
  Exec.map_err (fun _ => .invalidPoint) (p.mul calls.curve.toEcalls k)

def cpoint (pk : PlainPk) : MusigResult Point := do
  let p ← Exec.map_err (fun _ => .invalidPoint)
    (EcfpPublicKey.from_compressed calls.curve.toEcalls pk)
  pure p.public_key

/-- All zeros are the point at infinity. -/
def cpoint_ext (pk : PlainPk) : MusigResult Point :=
  if pk.toList.all (· == 0) then pure Point.default else cpoint calls pk

/-- In a debug build, infinity is a panic. -/
def has_even_y (p : Point) : MusigResult Bool := do
  Exec.assert (!p.is_zero)
  pure (p.y[31]! &&& 1 == 0)

def compress (p : Point) : MusigResult PlainPk :=
  Exec.map_err (fun _ => .invalidPoint) (EcfpPublicKey.to_compressed ⟨p⟩)

/-- `n - 1` -/
def neg_one : MusigResult (Vector U8 32) := do
  let one : Scalar ← BigNumMod.from_u32 calls.bn 1
  let neg_one ← one.neg calls.bn
  pure neg_one.to_be_bytes

/-- `g`: 1 where the point is even, and `n - 1` where it is odd. -/
def sign_bytes (even : Bool) : MusigResult (Vector U8 32) :=
  if even then pure one32 else neg_one calls

/-! ## Aggregating keys -/

/-- The first key other than the first one. -/
def second_key (pubkeys : List PlainPk) : MusigResult PlainPk :=
  match pubkeys with
  | [] => Exec.panic
  | first :: rest => pure ((rest.find? fun pk => pk != first).getD (Vector.replicate 33 0))

def hash_keys (pubkeys : List PlainPk) : Vector U8 32 :=
  calls.sha256t "KeyAgg list" (pubkeys.flatMap Vector.toList)

def key_agg_coeff_internal (pubkeys : List PlainPk) (pk_ pk2 : PlainPk) :
    MusigResult (Vector U8 32) :=
  if pk_ = pk2 then pure one32
  else do
    let l := hash_keys calls pubkeys
    let out ← scalar calls (calls.sha256t "KeyAgg coefficient" (l.toList ++ pk_.toList))
    pure out.to_be_bytes

def key_agg_coeff (pubkeys : List PlainPk) (pk_ : PlainPk) : MusigResult (Vector U8 32) := do
  let pk2 ← second_key pubkeys
  key_agg_coeff_internal calls pubkeys pk_ pk2

def key_agg.loop (pubkeys : List PlainPk) (pk2 : PlainPk) : List PlainPk → Point → MusigResult Point
  | [], q => pure q
  | pk :: rest, q => do
      let p ← cpoint calls pk
      let a_i ← key_agg_coeff_internal calls pubkeys pk pk2
      let p_scaled ← mul calls p a_i
      let q ← q.add calls.curve p_scaled
      key_agg.loop pubkeys pk2 rest q

def key_agg (pubkeys : List PlainPk) : MusigResult KeyAggContext := do
  Exec.reject (pubkeys = []) .emptyPubkeyList
  let pk2 ← second_key pubkeys
  let q ← key_agg.loop calls pubkeys pk2 pubkeys Point.default
  Exec.reject q.is_zero .keyAggInfinity
  pure { q, gacc := one32, tacc := zero32 }

/-! ## Nonces -/

/-- The message is always the byte 0, and there is no extra input. -/
def nonce_hash (rand : Bytes) (pk : PlainPk) (aggpk : XOnlyPk) (i : U8) : Vector U8 32 :=
  calls.sha256t "MuSig/nonce"
    (rand ++ [33] ++ pk.toList ++ [32] ++ aggpk.toList ++ [0] ++ to_be_bytes (0 : U32) ++ [i])

def nonce_gen (rand : Bytes) (pk : PlainPk) (aggpk : XOnlyPk) :
    MusigResult (SecNonce × PubNonce) := do
  let k1 ← scalar calls (nonce_hash calls rand pk aggpk 0)
  let k2 ← scalar calls (nonce_hash calls rand pk aggpk 1)
  let k1 := k1.to_be_bytes
  let k2 := k2.to_be_bytes
  Exec.reject (k1 = zero32 ∨ k2 = zero32) .nonceGenFailed
  let r_s1 ← mul calls Secp256k1.get_generator k1
  let r_s2 ← mul calls Secp256k1.get_generator k2
  Exec.reject (r_s1.is_zero ∨ r_s2.is_zero) .nonceGenFailed
  let r_s1 ← compress r_s1
  let r_s2 ← compress r_s2
  pure (⟨k1, k2, pk⟩, r_s1 ++ r_s2)

/-- `pn.0[j * 33..j * 33 + 33]` -/
def half (pn : PubNonce) (j : Fin 2) : PlainPk := Vector.ofFn fun i => pn[j.val * 33 + i.val]!

/-- The sum of the points of all nonces; the signer of one that is not a point is to blame. -/
def nonce_agg.loop (j : Fin 2) : List PubNonce → ℕ → Point → MusigResult Point
  | [], _, acc => pure acc
  | pn :: rest, i, acc => do
      let r_ij ← Exec.map_err (fun _ => .invalidContribution i) (cpoint calls (half pn j))
      let acc ← acc.add calls.curve r_ij
      nonce_agg.loop j rest (i + 1) acc

def nonce_agg.component (pubnonces : List PubNonce) (j : Fin 2) : MusigResult PlainPk := do
  let acc ← nonce_agg.loop calls j pubnonces 0 Point.default
  if acc.is_zero then pure (Vector.replicate 33 0) else compress acc

def nonce_agg (pubnonces : List PubNonce) : MusigResult PubNonce := do
  Exec.reject (pubnonces = []) .emptyPubkeyList
  let r1 ← nonce_agg.component calls pubnonces 0
  let r2 ← nonce_agg.component calls pubnonces 1
  pure (r1 ++ r2)

/-! ## Tweaks -/

def apply_tweak (ctx : KeyAggContext) (tweak : Vector U8 32) (is_xonly : Bool) :
    MusigResult KeyAggContext := do
  let even ← (if is_xonly then has_even_y ctx.q else pure true : MusigResult Bool)
  let g ← sign_bytes calls even
  let reduced ← scalar calls tweak
  Exec.reject (reduced.to_be_bytes ≠ tweak) .tweakOutOfRange
  let q ← mul calls ctx.q g
  let t_g ← mul calls Secp256k1.get_generator tweak
  let q ← q.add calls.curve t_g
  Exec.reject q.is_zero .tweakInfinity
  let g_mod ← scalar calls g
  let gacc_mod ← scalar calls ctx.gacc
  let gacc ← g_mod.mul calls.bn gacc_mod
  let tacc_mod ← scalar calls ctx.tacc
  let t_mod ← scalar calls tweak
  let g_tacc ← g_mod.mul calls.bn tacc_mod
  let tacc ← g_tacc.add calls.bn t_mod
  pure { q, gacc := gacc.to_be_bytes, tacc := tacc.to_be_bytes }

/-! ## Sessions -/

structure SessionValues where
  q : Point
  gacc : Vector U8 32
  tacc : Vector U8 32
  b : Vector U8 32
  r : Point
  e : Vector U8 32

def noncecoef (aggnonce : PubNonce) (q_x : Vector U8 32) (msg : Bytes) : Vector U8 32 :=
  calls.sha256t "MuSig/noncecoef" (aggnonce.toList ++ q_x.toList ++ msg)

/-- `R_1 + b * R_2`, and the generator for infinity. -/
def final_nonce (aggnonce : PubNonce) (b : Vector U8 32) : MusigResult Point := do
  let r1 ← cpoint_ext calls (half aggnonce 0)
  let r2 ← cpoint_ext calls (half aggnonce 1)
  let b_r2 ← mul calls r2 b
  let r ← r1.add calls.curve b_r2
  pure (if r.is_zero then Secp256k1.get_generator else r)

def challenge (r_x q_x : Vector U8 32) (msg : Bytes) : Vector U8 32 :=
  calls.sha256t "BIP0340/challenge" (r_x.toList ++ q_x.toList ++ msg)

def apply_tweaks : List (Vector U8 32 × Bool) → KeyAggContext → MusigResult KeyAggContext
  | [], keyagg => pure keyagg
  | (tweak, is_xonly) :: rest, keyagg => do
      let keyagg ← apply_tweak calls keyagg tweak is_xonly
      apply_tweaks rest keyagg

def get_session_values (ctx : SessionContext) : MusigResult SessionValues := do
  let keyagg ← key_agg calls ctx.pubkeys
  let keyagg ← apply_tweaks calls (ctx.tweaks.zip ctx.is_xonly) keyagg
  let b := noncecoef calls ctx.aggnonce keyagg.q.x ctx.msg
  let r ← final_nonce calls ctx.aggnonce b
  let e := challenge calls r.x keyagg.q.x ctx.msg
  pure { q := keyagg.q, gacc := keyagg.gacc, tacc := keyagg.tacc, b, r, e }

def get_session_key_agg_coeff (ctx : SessionContext) (pubkey : PlainPk) :
    MusigResult (Vector U8 32) := do
  Exec.reject (pubkey ∉ ctx.pubkeys) .pubkeyNotInList
  key_agg_coeff calls ctx.pubkeys pubkey

/-! ## Signatures -/

/-- A number from 1 to `n - 1`, or the error. -/
def in_range (bytes : Vector U8 32) (e : MusigError) : MusigResult Scalar := do
  let reduced ← scalar calls bytes
  Exec.reject (reduced.to_be_bytes ≠ bytes ∨ bytes = zero32) e
  pure reduced

/-- One of the secret nonces, or its opposite. -/
def flip (even : Bool) (k : Vector U8 32) (reduced : Scalar) : MusigResult (Vector U8 32) :=
  if even then pure k
  else do
    let k ← reduced.neg calls.bn
    pure k.to_be_bytes

def sign (secnonce : SecNonce) (sk : Vector U8 32) (ctx : SessionContext) :
    MusigResult (Vector U8 32) := do
  let values ← get_session_values calls ctx
  let k1_reduced ← scalar calls secnonce.k1
  let k2_reduced ← scalar calls secnonce.k2
  Exec.reject (k1_reduced.to_be_bytes ≠ secnonce.k1 ∨ secnonce.k1 = zero32) .nonceOutOfRange
  Exec.reject (k2_reduced.to_be_bytes ≠ secnonce.k2 ∨ secnonce.k2 = zero32) .nonceOutOfRange
  let even ← has_even_y values.r
  let k1 ← flip calls even secnonce.k1 k1_reduced
  let k2 ← flip calls even secnonce.k2 k2_reduced
  let sk_reduced ← in_range calls sk .secretKeyOutOfRange
  let pubkey_point ← mul calls Secp256k1.get_generator sk
  let computed_pk ← compress pubkey_point
  Exec.reject (computed_pk ≠ secnonce.pk) .pubkeyMismatch
  let a ← get_session_key_agg_coeff calls ctx computed_pk
  let even ← has_even_y values.q
  let g ← sign_bytes calls even
  let g_mod ← scalar calls g
  let gacc_mod ← scalar calls values.gacc
  let g_gacc ← g_mod.mul calls.bn gacc_mod
  let d ← g_gacc.mul calls.bn sk_reduced
  let b_mod ← scalar calls values.b
  let k2_mod ← scalar calls k2
  let bk2 ← b_mod.mul calls.bn k2_mod
  let bk2_mod ← scalar calls bk2.to_be_bytes
  let e_mod ← scalar calls values.e
  let a_mod ← scalar calls a
  let d_mod ← scalar calls d.to_be_bytes
  let e_a ← e_mod.mul calls.bn a_mod
  let ead ← e_a.mul calls.bn d_mod
  let ead_mod ← scalar calls ead.to_be_bytes
  let k1_mod ← scalar calls k1
  let k_sum ← k1_mod.add calls.bn bk2_mod
  let s ← k_sum.add calls.bn ead_mod
  pure s.to_be_bytes

/-- The sum of the partial signatures, each of which is to be reduced. -/
def partial_sig_agg.loop : List (Vector U8 32) → Scalar → MusigResult Scalar
  | [], s => pure s
  | psig :: rest, s => do
      let reduced ← scalar calls psig
      Exec.reject (reduced.to_be_bytes ≠ psig) .invalidPartialSignature
      let s ← s.add_assign calls.bn reduced
      partial_sig_agg.loop rest s

/-- `g`, as a number. -/
def partial_sig_agg.sign (even : Bool) : MusigResult Scalar :=
  if even then scalar calls one32
  else do
    let one : Scalar ← BigNumMod.from_u32 calls.bn 1
    one.neg calls.bn

def partial_sig_agg (ctx : SessionContext) (psigs : List (Vector U8 32)) :
    MusigResult (Vector U8 64) := do
  Exec.reject (psigs.length ≠ ctx.pubkeys.length) .invalidPartialSignature
  let values ← get_session_values calls ctx
  let s ← BigNumMod.from_u32 calls.bn 0
  let s ← partial_sig_agg.loop calls psigs s
  let e ← scalar calls values.e
  let tacc ← scalar calls values.tacc
  let even ← has_even_y values.q
  let g ← partial_sig_agg.sign calls even
  let g_tacc ← g.mul calls.bn tacc
  let e_g_tacc ← e.mul calls.bn g_tacc
  let s ← s.add_assign calls.bn e_g_tacc
  pure (values.r.x ++ s.to_be_bytes)

end Vanadium.Bitcoin.Musig
