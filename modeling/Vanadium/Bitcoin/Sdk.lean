import Vanadium.Bitcoin.Registration
import Vanadium.Common.Ux

/-!
# What the Bitcoin app runs on

The model of `bip32.rs` and `resident_key.rs` in `apps/bitcoin/app`, with the
errors of `apps/bitcoin/common` and what the app takes from the SDK: the hash,
the tag of an identifier under the device's key, the keys of the seed of the
device, Schnorr verification, and the reviews that the user answers.

The resident seed is drawn and stored when it is first asked for and is the same
from then on. The model starts after that, so that its master node is a value of
the device; there is none if the storage fails.
-/

namespace Vanadium.Bitcoin

open Lib Bip388

/-- `common::errors::Error`, as far as it occurs here. -/
inductive Error where
  | invalidRequest
  | invalidWalletPolicy
  | defaultAccountsNotSupported
  | invalidProofOfRegistrationLength
  | invalidProofOfRegistration
  | invalidAccountId
  | keyDerivationFailed
  | invalidKey
  | errorComputingSighash
  | signingFailed
  | failedToDeserializePsbt
  | failedToGetAccounts
  | externalInputsNotSupported
  | witnessUtxoNotAllowedForLegacy
  | invalidNonWitnessUtxo
  | nonWitnessUtxoMismatch
  | nonWitnessUtxoRequired
  | witnessUtxoRequiredForSegwit
  | invalidWitnessUtxo
  | redeemScriptMismatchWitness
  | witnessScriptRequiredForP2WSH
  | witnessScriptMismatchWitness
  | redeemScriptMismatch
  | missingPreviousOutputIndex
  | missingInputUtxo
  | inputScriptMismatch
  | outputScriptMissing
  | outputAmountMissing
  | outputScriptMismatch
  | inputsLessThanOutputs
  | failedUnsignedTransaction
  | addressFromScriptFailed
  | invalidIdentitySignature
  | identityMessageFieldTooLong
  | storageError
  | userRejected
  deriving DecidableEq, Repr

inductive KeyTree where
  | standard
  | resident
  deriving DecidableEq, Repr

structure HDPrivNode where
  chaincode : Vector U8 32
  privkey : Vector U8 32

/-- The operations of the SDK and of the libraries of the app, on one device. Keys of
type `X` are extended public keys. -/
structure Sdk (X : Type) where
  sha256 : Bytes → Vector U8 32
  /-- The tag of an identifier, `ProofOfRegistration::new`. -/
  proof : Vector U8 32 → Vector U8 32
  get_master_fingerprint : U32
  derive_hd_node : List U32 → Option HDPrivNode
  resident_master_hd_node : Option HDPrivNode
  ckd_priv : HDPrivNode → U32 → Option HDPrivNode
  /-- `EcfpPrivateKey::new(privkey).to_public_key().to_compressed()` -/
  to_compressed : Vector U8 32 → Vector U8 33
  /-- The fingerprint of a compressed public key. -/
  fingerprint : Vector U8 33 → U32
  /-- `from_compressed(pubkey)?.schnorr_verify(msg, sig)` is not an error. -/
  schnorr_verify : Vector U8 33 → Bytes → Vector U8 64 → Bool
  xpub_to_string : X → String
  confusion_score : DescriptorTemplate → Nat
  to_cleartext : DescriptorTemplate → List String

/-- The bytes as an array, if there are as many as it has. -/
def try_into (n : Nat) (bytes : Bytes) : Option (Vector U8 n) :=
  if bytes.length = n then some (array bytes 0 n) else none

theorem try_into_eq_some {n : ℕ} {bytes : Bytes} {v : Vector U8 n} :
    try_into n bytes = some v ↔ v.toList = bytes := by
  unfold try_into
  split
  · next hlen =>
      rw [Option.some_inj, ← Vector.toList_inj, array_toList_of_length hlen, eq_comm]
  · next hlen =>
      refine ⟨fun h => (Option.some_ne_none v h.symm).elim, fun h => ?_⟩
      rw [← h, Vector.length_toList] at hlen
      exact (hlen rfl).elim

/-! ## Extended public keys

Their encoding has the chain code from byte 13 and the key from byte 45 on. -/

section
variable {X : Type} [Xpub X]

def xpub_bytes (pubkey : X) : Bytes := (Xpub.encode pubkey).toList

def compressed_pubkey (pubkey : X) : Vector U8 33 := array (xpub_bytes pubkey) 45 33

def chain_code (pubkey : X) : Vector U8 32 := array (xpub_bytes pubkey) 13 32

end

/-! ## Reviews -/

/-- The reviews that were shown, latest first, and how the user answers those to
come. -/
structure Ui where
  answers : List Bool
  shown : List (List TagValue) := []

abbrev Handler (α : Type) := Exec Error Ui α

/-- `app.review_pairs`, without the texts around the pairs. -/
def review_pairs (pairs : List TagValue) : Handler Bool := fun ui =>
  let shown := pairs :: ui.shown
  match ui.answers with
  | [] => .stop .hang { ui with shown }
  | approved :: answers => .ok approved { answers, shown }

/-! ## Keys of the device -/

namespace Sdk

variable {X : Type} (sdk : Sdk X)

def derive_resident_hd_node (path : List U32) : Except Error HDPrivNode :=
  match sdk.resident_master_hd_node with
  | none => .error .storageError
  | some master =>
      match path.foldlM sdk.ckd_priv master with
      | none => .error .keyDerivationFailed
      | some node => .ok node

def derive_hd_node_in (tree : KeyTree) (path : List U32) : Except Error HDPrivNode :=
  match tree with
  | .standard =>
      match sdk.derive_hd_node path with
      | none => .error .keyDerivationFailed
      | some node => .ok node
  | .resident => sdk.derive_resident_hd_node path

def get_resident_master_fingerprint : Except Error U32 :=
  match sdk.resident_master_hd_node with
  | none => .error .storageError
  | some master => .ok (sdk.fingerprint (sdk.to_compressed master.privkey))

def master_fingerprint (tree : KeyTree) : Except Error U32 :=
  match tree with
  | .standard => .ok sdk.get_master_fingerprint
  | .resident => sdk.get_resident_master_fingerprint

end Sdk

/-! ## Identity messages -/

def SIGN_MAGIC : Bytes := 0x09 :: as_bytes "IDEN/SIGN"

def MSG_TYPE_XPUB : Bytes := as_bytes "XPUB"

def MSG_TYPE_OUTPUT : Bytes := as_bytes "OUTPUT"

def build_identity_message (msg_type object : Bytes) : Except Error Bytes :=
  if msg_type.length > 255 then .error .identityMessageFieldTooLong
  else if object.length > 255 then .error .identityMessageFieldTooLong
  else .ok (SIGN_MAGIC ++ [BitVec.ofNat 8 msg_type.length] ++ msg_type ++
    [BitVec.ofNat 8 object.length] ++ object)

end Vanadium.Bitcoin
