import Vanadium.AppSdk.Curve
import Vanadium.Bitcoin.Sdk

/-!
# Exporting an extended public key

The model of `handlers/get_extended_pubkey.rs` in `apps/bitcoin/app`, and of what it
uses of `bip32.rs`, `resident_key.rs` and `identity.rs` there, over the keys of the SDK.

The resident seed is drawn and stored when it is first asked for and is the same from
then on; the model starts after that, and there is none if the storage fails. What the
user sees, and signatures, are left to the device.
-/

namespace Vanadium.Bitcoin.ExtendedPubkey

open Lib AppSdk

/-- The errors of the handler: two that no other handler modelled here has, and those of the
others. -/
inductive Error where
  | derivationPathTooLong
  | invalidParameter
  | app (e : Bitcoin.Error)
  deriving DecidableEq, Repr

/-- What is shown: an identity key with its index, or a key with its tree and path. -/
inductive Review where
  | identity_key (value : String) (index : Option U32)
  | xpub (tree : KeyTree) (xpub : String) (path : List U32)

structure Device where
  ecalls : Ecalls
  resident_seed : Option (Vector U8 32)
  review : Review → Bool
  encode_check : Bytes → String
  hex : Bytes → String
  schnorr_sign : Vector U8 32 → Bytes → Option (Vector U8 64)

abbrev Handler (α : Type) := Exec Error Unit α

variable (dev : Device)

/-! ## `resident_key.rs` -/

/-- HMAC-SHA512 with a key of any length. -/
def hmac_sha512 (key data : Bytes) : Vector U8 64 :=
  let key_block :=
    if key.length > 128 then (dev.ecalls.sha512 key).toList ++ List.replicate 64 0
    else key ++ List.replicate (128 - key.length) 0
  let inner_digest := dev.ecalls.sha512 (key_block.map (0x36 ^^^ ·) ++ data)
  dev.ecalls.sha512 (key_block.map (0x5c ^^^ ·) ++ inner_digest.toList)

def master_hd_node_from_seed (seed : Vector U8 32) : AppSdk.HDPrivNode :=
  let hmac := hmac_sha512 dev (as_bytes "Bitcoin seed") seed.toList
  { privkey := hmac.take 32, chaincode := hmac.drop 32 }

def to_public_key (privkey : Vector U8 32) : Handler EcfpPublicKey :=
  Exec.map_err (fun _ => .app .invalidKey) ((EcfpPrivateKey.mk privkey).to_public_key dev.ecalls)

def get_resident_master_hd_node : Handler AppSdk.HDPrivNode := do
  let seed ← Exec.orElse dev.resident_seed (.app .storageError)
  pure (master_hd_node_from_seed dev seed)

def derive_resident_hd_node.step (node : AppSdk.HDPrivNode) (child : U32) :
    Handler AppSdk.HDPrivNode :=
  Exec.map_err (fun _ => .app .keyDerivationFailed) (node.ckd_priv dev.ecalls child)

def derive_resident_hd_node (path : List U32) : Handler AppSdk.HDPrivNode := do
  let node ← get_resident_master_hd_node dev
  path.foldlM (derive_resident_hd_node.step dev) node

def get_resident_master_fingerprint : Handler U32 := do
  let node ← get_resident_master_hd_node dev
  let pubkey ← to_public_key dev node.privkey
  pure (pubkey.fingerprint dev.ecalls)

/-! ## `bip32.rs` -/

def derive_hd_node (tree : KeyTree) (path : List U32) : Handler AppSdk.HDPrivNode :=
  match tree with
  | .standard => Exec.orElse (dev.ecalls.derive_hd_node path) (.app .keyDerivationFailed)
  | .resident => derive_resident_hd_node dev path

def master_fingerprint (tree : KeyTree) : Handler U32 :=
  match tree with
  | .standard => pure dev.ecalls.get_master_fingerprint
  | .resident => get_resident_master_fingerprint dev

/-! ## `identity.rs` -/

def IDENTITY_ROOT_PATH_COMPONENT : U32 := 1229210958 ||| 0x80000000

def is_identity_path (path : List U32) : Option (Option U32) :=
  match path with
  | [root] => if root = IDENTITY_ROOT_PATH_COMPONENT then some none else none
  | [root, index] => if root = IDENTITY_ROOT_PATH_COMPONENT then some (some index) else none
  | _ => none

structure IdentitySignature where
  identity_pubkey : Bytes
  signature : Vector U8 64

def compute_identity_signature (msg_type object : Bytes) (identity_index : U32) :
    Handler IdentitySignature := do
  let id_node ← Exec.orElse
    (dev.ecalls.derive_hd_node [IDENTITY_ROOT_PATH_COMPONENT, identity_index])
    (.app .keyDerivationFailed)
  let id_pubkey ← to_public_key dev id_node.privkey
  let msg ← Exec.ofExcept Error.app (build_identity_message msg_type object)
  let signature ← Exec.unwrap (dev.schnorr_sign id_node.privkey msg)
  pure {
    identity_pubkey := (EcfpPublicKey.compressed_bytes id_pubkey.public_key).toList
    signature }

/-! ## The handler -/

def BIP32_TESTNET_PUBKEY_VERSION : U32 := 0x043587CF

structure Response where
  xpub : Bytes
  identity_sig : Option IdentitySignature

/-- What the user is asked to verify; identity keys are shown in hexadecimal. -/
def review (tree : KeyTree) (path : List U32) (xpub compressed : Bytes) : Review :=
  match tree, is_identity_path path with
  | .standard, some none => .identity_key (dev.encode_check xpub) none
  | .standard, some (some index) => .identity_key (dev.hex compressed) (some index)
  | _, _ => .xpub tree (dev.encode_check xpub) path

/-- The fingerprint of the node one step above. -/
def parent_fpr (tree : KeyTree) (bip32_path : List U32) : Handler U32 :=
  if bip32_path.isEmpty then pure 0
  else if bip32_path.length = 1 then master_fingerprint dev tree
  else do
    let parent_node ← derive_hd_node dev tree (bip32_path.take (bip32_path.length - 1))
    let parent_pubkey ← to_public_key dev parent_node.privkey
    pure (parent_pubkey.fingerprint dev.ecalls)

def identity_sig (xpub : Bytes) : Option U32 → Handler (Option IdentitySignature)
  | some i => do
      let signature ← compute_identity_signature dev MSG_TYPE_XPUB xpub i
      pure (some signature)
  | none => pure none

def handle_get_extended_pubkey (tree : KeyTree) (bip32_path : List U32) (display : Bool)
    (identity_index : Option U32) : Handler Response := do
  Exec.reject (bip32_path.length > 256) .derivationPathTooLong
  Exec.reject (identity_index.isSome ∧ tree ≠ .standard) .invalidParameter
  let hd_node ← derive_hd_node dev tree bip32_path
  let pubkey ← to_public_key dev hd_node.privkey
  let compressed := (EcfpPublicKey.compressed_bytes pubkey.public_key).toList
  -- `as u8`
  let depth : U8 := BitVec.ofNat 8 bip32_path.length
  let parent_fpr ← parent_fpr dev tree bip32_path
  let child_number : U32 := bip32_path.getLast?.getD 0
  let xpub := to_be_bytes BIP32_TESTNET_PUBKEY_VERSION ++ [depth] ++ to_be_bytes parent_fpr ++
    to_be_bytes child_number ++ hd_node.chaincode.toList ++ compressed
  Exec.reject (display ∧ dev.review (review dev tree bip32_path xpub compressed) = false)
    (.app .userRejected)
  let identity_sig ← identity_sig dev xpub identity_index
  pure { xpub, identity_sig }

end Vanadium.Bitcoin.ExtendedPubkey
