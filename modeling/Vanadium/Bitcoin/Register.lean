import Vanadium.Bitcoin.Sdk

/-!
# Registering accounts and identity keys

The model of `handlers/register_account.rs` and
`handlers/register_identity_key.rs` in `apps/bitcoin/app`. A handler checks what
it is sent, shows it to the user, and answers with the tag under which the
device will know it again.
-/

namespace Vanadium.Bitcoin

open Lib Bip388

/-- `{:02x}` of the bytes, one after the other. -/
def hex (bytes : Bytes) : String :=
  String.ofList (bytes.flatMap fun b =>
    [Nat.digitChar (b.toNat / 16), Nat.digitChar (b.toNat % 16)])

/-- `ChildNumber`, as it is displayed. -/
def child_number_to_string (step : U32) : String :=
  if step.toNat < 2 ^ 31 then toString step.toNat else toString (step.toNat - 2 ^ 31) ++ "'"

def key_origin_to_string (origin : KeyOrigin) : String :=
  hex (to_be_bytes origin.fingerprint) ++
    String.join (origin.derivation_path.map fun step => "/" ++ child_number_to_string step)

section
variable {X : Type} (sdk : Sdk X)

def key_info_to_string (key_info : KeyInformation X) : String :=
  match key_info.origin_info with
  | some origin => "[" ++ key_origin_to_string origin ++ "]" ++ sdk.xpub_to_string key_info.pubkey
  | none => sdk.xpub_to_string key_info.pubkey

/-! ## Identity keys -/

/-- The pairs of `display_register_identity_key`. -/
def identity_pairs (name : Name) (identity_key : IdentityKey) : List TagValue :=
  [⟨"Name", name.str⟩, ⟨"Public key", hex identity_key.compressed.toList⟩]

/-- The identifier and the tag of an object. -/
structure Registered where
  id : Vector U8 32
  hmac : Vector U8 32

/-- The answer to the registration of an object that the user approved. -/
def registered [Xpub X] (name : Name) (object : Registerable X) : Registered :=
  { id := object.registration_id sdk.sha256 name
    hmac := object.proof_of_registration sdk.sha256 sdk.proof name }

def handle_register_identity_key [Xpub X] (name : Name) (pubkey : Bytes) : Handler Registered := do
  Exec.reject (name.bytes = [] ∨ name.bytes.length > 255) .invalidRequest
  let compressed ← Exec.orElse (try_into 33 pubkey) .invalidKey
  let identity_key ← Exec.orElse (IdentityKey.new compressed) .invalidKey
  let approved ← review_pairs (identity_pairs name identity_key)
  Exec.reject (approved = false) .userRejected
  pure (registered sdk name (.identity identity_key))

/-! ## Labels of keys -/

/-- An identity key with a proof that it was registered under a name. -/
structure RegisteredIdentityEntry where
  pubkey : Bytes
  name : Name
  por : Bytes

structure IdentitySignature where
  identity_pubkey : Bytes
  signature : Bytes

variable [Xpub X]

/-- The names of the identity keys, each checked against its proof. -/
def identity_key_names : List RegisteredIdentityEntry → Handler (List (Vector U8 33 × Name))
  | [] => pure []
  | entry :: identities => do
      let pubkey ← Exec.orElse (try_into 33 entry.pubkey) .invalidIdentitySignature
      let ik ← Exec.orElse (IdentityKey.new pubkey) .invalidIdentitySignature
      let actual_por ← Exec.orElse (try_into 32 entry.por) .invalidProofOfRegistrationLength
      let expected_por :=
        (Registerable.identity ik : Registerable X).proof_of_registration sdk.sha256 sdk.proof
          entry.name
      Exec.reject (actual_por ≠ expected_por) .invalidProofOfRegistration
      let names ← identity_key_names identities
      pure ((pubkey, entry.name) :: names)

/-- The name of the signer of a key. A signature is valid, or the request is refused; its
signer need not have a name. -/
def signer_name (names : List (Vector U8 33 × Name)) (key_info : KeyInformation X) :
    Option IdentitySignature → Handler (Option String)
  | none => pure none
  | some sig => do
      let identity_pubkey ← Exec.orElse (try_into 33 sig.identity_pubkey) .invalidIdentitySignature
      let signature ← Exec.orElse (try_into 64 sig.signature) .invalidIdentitySignature
      let msg ← Exec.ofExcept (fun _ => .invalidIdentitySignature)
        (build_identity_message MSG_TYPE_XPUB (xpub_bytes key_info.pubkey))
      Exec.reject (sdk.schnorr_verify identity_pubkey msg signature = false)
        .invalidIdentitySignature
      pure ((names.find? fun entry => entry.1 = identity_pubkey).map fun entry => entry.2.str)

/-- The names of the signers of the keys. Signatures of more keys than there are do not
matter. -/
def signer_names (names : List (Vector U8 33 × Name)) :
    List (KeyInformation X) → List (Option IdentitySignature) → Handler (List (Option String))
  | [], _ => pure []
  | _ :: keys, [] => pure (none :: keys.map fun _ => none)
  | key_info :: keys, sig_opt :: signatures => do
      let name ← signer_name sdk names key_info sig_opt
      let key_auth_names ← signer_names names keys signatures
      pure (name :: key_auth_names)

/-- The point that BIP-341 gives as one whose secret key nobody knows. -/
def NUMS_COMPRESSED_PUBKEY : Bytes :=
  [0x02, 0x50, 0x92, 0x9b, 0x74, 0xc1, 0xa0, 0x49, 0x54, 0xb7, 0x8b, 0x4b, 0x60, 0x35, 0xe9, 0x7a,
   0x5e, 0x07, 0x8a, 0x5a, 0x0f, 0x28, 0xec, 0x96, 0xd5, 0x47, 0xbf, 0xee, 0x9a, 0xce, 0x80, 0x3a,
   0xc0]

/-- The tree that the fingerprint of an origin belongs to. -/
def tree_of_fingerprint (standard_fpr resident_fpr fingerprint : U32) : Option KeyTree :=
  if fingerprint = standard_fpr then some .standard
  else if fingerprint = resident_fpr then some .resident
  else none

/-- The label of a key that has none from a signature. -/
def property_label (standard_fpr resident_fpr : U32) (key_info : KeyInformation X) :
    Option String :=
  if (compressed_pubkey key_info.pubkey).toList = NUMS_COMPRESSED_PUBKEY then some "dummy"
  else
    match key_info.origin_info with
    | none => none
    | some origin =>
        match tree_of_fingerprint standard_fpr resident_fpr origin.fingerprint with
        | none => none
        | some tree =>
            match sdk.derive_hd_node_in tree origin.derivation_path with
            | .error _ => none
            | .ok hd_node =>
                if compressed_pubkey key_info.pubkey = sdk.to_compressed hd_node.privkey ∧
                    chain_code key_info.pubkey = hd_node.chaincode then some "our key"
                else none

def label_keys (standard_fpr resident_fpr : U32) (keys : List (KeyInformation X))
    (key_auth_names : List (Option String)) : List (Option String) :=
  List.zipWith (fun key_info name =>
    match name with
    | some label => some label
    | none => property_label sdk standard_fpr resident_fpr key_info) keys key_auth_names

/-- The names shown with the keys of an account. -/
def key_labels (wallet_policy : WalletPolicy X)
    (registered_identities : Option (List RegisteredIdentityEntry))
    (key_signatures : Option (List (Option IdentitySignature))) : Handler (List (Option String)) := do
  let names ← identity_key_names (X := X) sdk (registered_identities.getD [])
  let key_auth_names ←
    signer_names sdk names wallet_policy.key_information (key_signatures.getD [])
  let standard_fpr ← Exec.ofExcept id (sdk.master_fingerprint .standard)
  let resident_fpr ← Exec.ofExcept id (sdk.master_fingerprint .resident)
  pure (label_keys sdk standard_fpr resident_fpr wallet_policy.key_information key_auth_names)

/-! ## Accounts -/

def MAX_CONFUSION_SCORE : Nat := 3600

/-- How the spending paths of an account are shown. -/
def template_pairs (wallet_policy : WalletPolicy X) (show_cleartext : Bool) : List TagValue :=
  if show_cleartext ∧ sdk.confusion_score wallet_policy.descriptor_template ≤ MAX_CONFUSION_SCORE
  then
    (sdk.to_cleartext wallet_policy.descriptor_template).mapIdx fun i desc =>
      ⟨"Spending path #" ++ toString (i + 1), desc⟩
  else [⟨"Descriptor template", wallet_policy.descriptor_template_raw⟩]

def key_pair (i : Nat) (key_info : KeyInformation X) (label : Option String) : TagValue where
  tag :=
    match label with
    | some signer => "Key @" ++ toString i ++ " (" ++ signer ++ ")"
    | none => "Key @" ++ toString i
  value := key_info_to_string sdk key_info

/-- The pairs of `display_wallet_policy`. -/
def wallet_policy_pairs (name : Name) (wallet_policy : WalletPolicy X)
    (key_auth_names : List (Option String)) (show_cleartext : Bool) : List TagValue :=
  ⟨"Account", name.str⟩ :: template_pairs sdk wallet_policy show_cleartext ++
    wallet_policy.key_information.mapIdx fun i key_info =>
      key_pair sdk i key_info (key_auth_names[i]?).join

def handle_register_account (name : Name) (wallet_policy : WalletPolicy X)
    (registered_identities : Option (List RegisteredIdentityEntry))
    (key_signatures : Option (List (Option IdentitySignature))) (show_cleartext : Bool) :
    Handler Registered := do
  let key_auth_names ← key_labels sdk wallet_policy registered_identities key_signatures
  let approved ←
    review_pairs (wallet_policy_pairs sdk name wallet_policy key_auth_names show_cleartext)
  Exec.reject (approved = false) .userRejected
  pure (registered sdk name (.account wallet_policy))

end

end Vanadium.Bitcoin
