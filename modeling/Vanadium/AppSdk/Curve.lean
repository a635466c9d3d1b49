import Vanadium.Common.ClientCommands
import Vanadium.AppSdk.BigNum
import Vanadium.Lib.Exec

/-!
# Points and keys of secp256k1

The model of `app-sdk/src/curve.rs`, at its one curve. What the V-App cannot compute
by itself it asks the VM for: big numbers modulo another, hashes, multiples of a
point, the keys of the device. These calls are parameters here, and one that fails
answers `none`.

A point is laid out as the 65 bytes it is sent as, so that byte 64 of `to_bytes` is
the last one of `y`, and bytes 1 to 32 are `x`.
-/

namespace Vanadium.AppSdk

open Lib

/-- The 32 bytes of a constant, written in hexadecimal there. -/
def hex32 (n : ℕ) : Vector U8 32 := ⟨(LittleEndian.write 32 n).reverse.toArray, by simp⟩

structure Point where
  prefix_byte : U8
  x : Vector U8 32
  y : Vector U8 32
  deriving DecidableEq

def Point.new (x y : Vector U8 32) : Point := ⟨0x04, x, y⟩

structure EcfpPublicKey where
  public_key : Point
  deriving DecidableEq

def EcfpPublicKey.new (x y : Vector U8 32) : EcfpPublicKey := ⟨Point.new x y⟩

structure EcfpPrivateKey where
  private_key : Vector U8 32
  deriving DecidableEq

structure HDPrivNode where
  chaincode : Vector U8 32
  privkey : Vector U8 32
  deriving DecidableEq

/-- The calls to the VM, with the lengths and the curve that this file passes. -/
structure Ecalls where
  bn_addm : Vector U8 32 → Vector U8 32 → Vector U8 32 → Option (Vector U8 32)
  bn_multm : Vector U8 32 → Vector U8 32 → Vector U8 32 → Option (Vector U8 32)
  bn_powm : Vector U8 32 → Vector U8 32 → Vector U8 32 → Option (Vector U8 32)
  ecfp_scalar_mult : Point → Vector U8 32 → Option Point
  derive_hd_node : List U32 → Option HDPrivNode
  get_master_fingerprint : U32
  sha256 : Bytes → Vector U8 32
  ripemd160 : Bytes → Vector U8 20
  sha512 : Bytes → Vector U8 64

namespace Secp256k1

/-- The field prime. -/
def P : Vector U8 32 :=
  hex32 0xFFFFFFFFFFFFFFFFFFFFFFFFFFFFFFFFFFFFFFFFFFFFFFFFFFFFFFFEFFFFFC2F

/-- `(p + 1) / 4` -/
def SQUAREROOT_EXP : Vector U8 32 :=
  hex32 0x3FFFFFFFFFFFFFFFFFFFFFFFFFFFFFFFFFFFFFFFFFFFFFFFFFFFFFFFBFFFFF0C

def SEVEN : Vector U8 32 := hex32 7

def get_generator : Point where
  prefix_byte := 0x04
  x := hex32 0x79BE667EF9DCBBAC55A06295CE870B07029BFCDB2DCE28D959F2815B16F81798
  y := hex32 0x483ADA7726A3C4655DA4FBFC0E1108A8FD17B448A68554199C47D08FFB10D4B8

end Secp256k1

/-- The group order. -/
def HDPrivNode.SECP256K1_ORDER : Vector U8 32 :=
  hex32 0xFFFFFFFFFFFFFFFFFFFFFFFFFFFFFFFEBAAEDCE6AF48A03BBFD25E8CD0364141

variable (ecalls : Ecalls)

/-! ## Compressed keys -/

namespace EcfpPublicKey

/-- `p - y`, from the last byte to the first. -/
def from_compressed.negate (y : Vector U8 32) :
    (i : ℕ) → i ≤ 32 → ℤ → Vector U8 32 → Vector U8 32
  | 0, _, _, neg_y => neg_y
  | i + 1, _, borrow, neg_y =>
      let diff : ℤ := Secp256k1.P[i].toNat - y[i].toNat - borrow
      if diff < 0 then
        from_compressed.negate y i (by omega) 1 (neg_y.set i (BitVec.ofInt 8 (diff + 256)))
      else from_compressed.negate y i (by omega) 0 (neg_y.set i (BitVec.ofInt 8 diff))

def from_compressed (compressed : Vector U8 33) : Exec String Unit EcfpPublicKey := do
  Exec.reject (compressed[0]! ≠ 0x02 ∧ compressed[0]! ≠ 0x03) "Invalid compressed key prefix"
  let x : Vector U8 32 := compressed.drop 1
  let (rhs, y) ← Exec.orElse
    (do
      let x2 ← ecalls.bn_multm x x Secp256k1.P
      let x3 ← ecalls.bn_multm x2 x Secp256k1.P
      let rhs ← ecalls.bn_addm x3 Secp256k1.SEVEN Secp256k1.P
      let y ← ecalls.bn_powm rhs Secp256k1.SQUAREROOT_EXP Secp256k1.P
      some (rhs, y))
    "Point decompression failed"
  -- the candidate is a root only if there is one
  Exec.reject (ecalls.bn_multm y y Secp256k1.P ≠ some rhs) "Point not on curve"
  let expected_odd := compressed[0]! &&& 1
  if y.get 31 &&& 1 ≠ expected_odd then
    pure (EcfpPublicKey.new x (from_compressed.negate y 32 le_rfl 0 (Vector.replicate 32 0)))
  else pure (EcfpPublicKey.new x y)

/-- The prefix and the coordinate of a compressed point. -/
def compressed_bytes (p : Point) : Vector U8 33 :=
  let parity : U8 := p.y.get 31 % 2 + 0x02
  #v[parity] ++ p.x

def to_compressed (key : EcfpPublicKey) : Exec String Unit (Vector U8 33) := do
  if key.public_key.prefix_byte ≠ 0x04 then Exec.panic
  pure (compressed_bytes key.public_key)

/-- The hash is given the prefix and the coordinate one after the other. -/
def fingerprint (key : EcfpPublicKey) : U32 :=
  let hash := ecalls.ripemd160 (ecalls.sha256 (compressed_bytes key.public_key).toList).toList
  from_be_bytes (hash.get 0) (hash.get 1) (hash.get 2) (hash.get 3)

end EcfpPublicKey

/-! ## The group -/

/-- The point at infinity. -/
def Point.default : Point := ⟨0x00, Vector.replicate 32 0, Vector.replicate 32 0⟩

def Point.is_zero (p : Point) : Bool :=
  p.x == Vector.replicate 32 0 && p.y == Vector.replicate 32 0

/-- The calls, with the sum of two points. -/
structure PointEcalls extends Ecalls where
  ecfp_add_point : Point → Point → Option Point

/-- `&point + &other` -/
def Point.add {ε : Type} (ecalls : PointEcalls) (p other : Point) : Exec ε Unit Point :=
  Exec.unwrap (ecalls.ecfp_add_point p other)

/-- `&point * &scalar` -/
def Point.mul (p : Point) (scalar : Vector U8 32) : Exec String Unit Point :=
  Exec.unwrap (ecalls.ecfp_scalar_mult p scalar)

def EcfpPrivateKey.to_public_key (key : EcfpPrivateKey) : Exec String Unit EcfpPublicKey := do
  let point ← Secp256k1.get_generator.mul ecalls key.private_key
  pure ⟨point⟩

/-! ## Derivation -/

/-- Both pads are as long as a block, and the key is shorter. -/
def hmac_sha512 (key : Vector U8 32) (data1 data2 : Bytes) : Vector U8 64 :=
  let pad (byte : U8) : Bytes :=
    List.ofFn fun i : Fin 128 => if h : i.val < 32 then byte ^^^ key[i] else byte
  let inner_digest := ecalls.sha512 (pad 0x36 ++ data1 ++ data2)
  ecalls.sha512 (pad 0x5c ++ inner_digest.toList)

namespace HDPrivNode

/-- The compressed public key, or the private key after a zero. -/
def ckd_priv.prefix_data (node : HDPrivNode) (hardened : Prop) [Decidable hardened] :
    Exec String Unit (Vector U8 33) :=
  if hardened then
    let zero : U8 := 0x00
    pure (#v[zero] ++ node.privkey)
  else do
    let pubkey ← (EcfpPrivateKey.mk node.privkey).to_public_key ecalls
    let uncompressed := pubkey.public_key
    let parity : U8 := 2 + uncompressed.y.get 31 % 2
    pure (#v[parity] ++ uncompressed.x)

def ckd_priv (node : HDPrivNode) (child : U32) : Exec String Unit HDPrivNode := do
  let data_prefix ← ckd_priv.prefix_data ecalls node (child ≥ 0x80000000)
  let hmac_result := hmac_sha512 ecalls node.chaincode data_prefix.toList (to_be_bytes child)
  let tweak : Vector U8 32 := hmac_result.take 32
  let new_chaincode : Vector U8 32 := hmac_result.drop 32
  Exec.reject (tweak = Vector.replicate 32 0 ∨ tweak = SECP256K1_ORDER) "invalid tweak"
  let child_privkey ←
    Exec.orElse (ecalls.bn_addm node.privkey tweak SECP256K1_ORDER) "key derivation failed"
  Exec.reject (child_privkey = Vector.replicate 32 0) "derived child key is the zero scalar"
  pure { chaincode := new_chaincode, privkey := child_privkey }

end HDPrivNode

end Vanadium.AppSdk
