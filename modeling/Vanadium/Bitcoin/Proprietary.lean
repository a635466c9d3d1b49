import Vanadium.Bitcoin.FastPsbt

/-!
# Accounts and identities in PSBTs

The model of the readers of `psbt/mod.rs`, `psbt/account.rs` and `psbt/id_auth.rs`
in `apps/bitcoin/common`: the proprietary fields of the maps of a PSBT, and what
is looked up in them. Wallet policies are the only accounts there are, so that an
account is one.
-/

namespace Vanadium.Bitcoin

open Lib Bip388

/-- A proprietary entry of a map. -/
structure ProprietaryEntry where
  identifier : Bytes
  subtype : U8
  key : Bytes
  value : Bytes

/-- The data of the key are the length of an identifier, the identifier, a subtype, and the
key. -/
def parse_proprietary_key_data (kd value : Bytes) : Option ProprietaryEntry :=
  match kd with
  | [] => none
  | prefix_len :: rest =>
      match rest.drop prefix_len.toNat with
      | [] => none
      | subtype :: key =>
          some { identifier := rest.take prefix_len.toNat, subtype, key, value }

def proprietary (entries : List (Bytes × Bytes)) : List ProprietaryEntry :=
  entries.filterMap fun e => parse_proprietary_key_data e.1 e.2

def Psbt.iter_proprietary (psbt : Psbt) : List ProprietaryEntry :=
  proprietary (psbt.iter_keys 0xFC)

def Input.iter_proprietary (input : Input) : List ProprietaryEntry :=
  proprietary (input.iter_keys 0xFC)

def Output.iter_proprietary (output : Output) : List ProprietaryEntry :=
  proprietary (output.iter_keys 0xFC)

/-- The value of the first entry under a key. -/
def lookup (entries : List ProprietaryEntry) (identifier : Bytes) (subtype : U8) (key : Bytes) :
    Option Bytes :=
  (entries.find? fun e => e.identifier = identifier ∧ e.subtype = subtype ∧ e.key = key).map
    ProprietaryEntry.value

/-- Read from a slice of its own. -/
def read_from {ε σ α : Type} (bytes : Bytes) (e : ε) (reader : Reader α) : Exec ε σ α :=
  Exec.zoom (fun _ => bytes) (fun _ s => s) (fun _ => e) reader

/-! ## Accounts -/

def PSBT_ACCOUNT_PROPRIETARY_IDENTIFIER : Bytes := as_bytes "ACCOUNT"

def PSBT_ACCOUNT_GLOBAL_ACCOUNT_DESCRIPTOR : U8 := 0x00
def PSBT_ACCOUNT_GLOBAL_ACCOUNT_NAME : U8 := 0x01
def PSBT_ACCOUNT_GLOBAL_ACCOUNT_POR : U8 := 0x02

def PSBT_ACCOUNT_IN_COORDINATES : U8 := 0x00
def PSBT_ACCOUNT_OUT_COORDINATES : U8 := 0x00

def MAX_SINGLE_BYTE_COMPACTSIZE : U8 := 252

inductive PsbtAccountError where
  | emptyValue
  | invalidAccountName
  | unknownAccountType
  | accountIdTooLarge
  | invalidValue
  | deserializeError
  deriving DecidableEq, Repr

def is_valid_account_name (value : Bytes) : Bool :=
  1 ≤ value.length && value.length ≤ 64 && value.head? != some 0x20 &&
    value.getLast? != some 0x20 && value.all fun c => 0x20 ≤ c && c ≤ 0x7E

structure WalletPolicyCoordinates where
  is_change : Bool
  address_index : U32
  deriving DecidableEq

def WalletPolicyCoordinates.deserialize : Reader WalletPolicyCoordinates := do
  let is_change ← read_le 1
  let address_index ← read_le 4
  pure { is_change := is_change ≠ 0, address_index := BitVec.ofNat 32 address_index }

/-- `id.consensus_encode` -/
def id_raw (id : U32) : Bytes := LittleEndian.write 4 id.toNat

namespace Psbt

section
variable {σ X : Type} [Xpub X] (psbt : Psbt)

def get_account (id : U32) : Exec PsbtAccountError σ (Option (WalletPolicy X)) :=
  match lookup psbt.iter_proprietary PSBT_ACCOUNT_PROPRIETARY_IDENTIFIER
      PSBT_ACCOUNT_GLOBAL_ACCOUNT_DESCRIPTOR (id_raw id) with
  | none => pure none
  | some [] => Exec.throw .emptyValue
  | some (tag :: value) =>
      if tag = 0 then do
        let wp ← read_from value .deserializeError WalletPolicy.deserialize
        pure (some wp)
      else Exec.throw .unknownAccountType

/-- The accounts from `id` on, until one is missing. -/
def get_accounts.loop : Nat → U32 → List (WalletPolicy X) →
    Exec PsbtAccountError σ (List (WalletPolicy X))
  | 0, _, _ => Exec.stop .hang
  | fuel + 1, id, res => do
      let account : Option (WalletPolicy X) ← psbt.get_account id
      match account with
      | some account => get_accounts.loop fuel (id + 1) (res ++ [account])
      | none => pure res

/-- Every account that is found is an entry of the map. -/
def get_accounts : Exec PsbtAccountError σ (List (WalletPolicy X)) :=
  get_accounts.loop psbt (psbt.global_map.pairs.length + 1) 0 []

end

section
variable {σ : Type} (psbt : Psbt)

def get_account_name (id : U32) : Exec PsbtAccountError σ (Option String) :=
  match lookup psbt.iter_proprietary PSBT_ACCOUNT_PROPRIETARY_IDENTIFIER
      PSBT_ACCOUNT_GLOBAL_ACCOUNT_NAME (id_raw id) with
  | none => pure none
  | some value => do
      Exec.reject (is_valid_account_name value = false) .invalidAccountName
      let name ← Exec.unwrap (Deserializer.from_utf8 value)
      pure (some name)

def get_account_proof_of_registration (id : U32) : Exec PsbtAccountError σ (Option Bytes) :=
  match lookup psbt.iter_proprietary PSBT_ACCOUNT_PROPRIETARY_IDENTIFIER
      PSBT_ACCOUNT_GLOBAL_ACCOUNT_POR (id_raw id) with
  | none => pure none
  | some value => do
      Exec.reject (value = []) .emptyValue
      pure (some value)

end

end Psbt

/-- The coordinates among the entries of an input or an output. -/
def account_coordinates {σ : Type} (entries : List ProprietaryEntry) (subtype : U8) :
    Exec PsbtAccountError σ (Option (U32 × WalletPolicyCoordinates)) :=
  match lookup entries PSBT_ACCOUNT_PROPRIETARY_IDENTIFIER subtype [] with
  | none => pure none
  | some (account_id :: tag :: value) => do
      Exec.reject (value = []) .invalidValue
      Exec.reject (MAX_SINGLE_BYTE_COMPACTSIZE < account_id) .accountIdTooLarge
      if tag = 0 then do
        let coords ← read_from value .deserializeError WalletPolicyCoordinates.deserialize
        pure (some (account_id.setWidth 32, coords))
      else Exec.throw .unknownAccountType
  | some _ => Exec.throw .invalidValue

def Input.get_account_coordinates {σ : Type} (input : Input) :
    Exec PsbtAccountError σ (Option (U32 × WalletPolicyCoordinates)) :=
  account_coordinates input.iter_proprietary PSBT_ACCOUNT_IN_COORDINATES

def Output.get_account_coordinates {σ : Type} (output : Output) :
    Exec PsbtAccountError σ (Option (U32 × WalletPolicyCoordinates)) :=
  account_coordinates output.iter_proprietary PSBT_ACCOUNT_OUT_COORDINATES

/-! ## Identities -/

def PSBT_IDAUTH_PROPRIETARY_IDENTIFIER : Bytes := as_bytes "IDAUTH"

def PSBT_IDAUTH_GLOBAL_REGISTERED_IDENTITY_KEY : U8 := 0x00

def PSBT_IDAUTH_OUT_SIGNATURE : U8 := 0x00

def PSBT_IDAUTH_TAG_IDENTITY : U8 := 0x00

inductive PsbtIdAuthError where
  | malformedEntry
  | invalidUtf8
  deriving DecidableEq, Repr

structure RegisteredIdentityKey where
  pubkey : Vector U8 33
  name : Name
  por : Vector U8 32

/-- A string that is in memory. -/
def Name.new (str : String) : Option Name :=
  if h : (as_bytes str).length < 2 ^ 64 then some ⟨str, h⟩ else none

/-- The entries under an identifier and a subtype. -/
def entries_of (entries : List ProprietaryEntry) (identifier : Bytes) (subtype : U8) :
    List ProprietaryEntry :=
  entries.filter fun e => e.identifier = identifier ∧ e.subtype = subtype

section
variable {σ : Type}

/-- The value is the length of the name, the name and the proof of registration. -/
def registered_identity_key (entry : ProprietaryEntry) :
    Exec PsbtIdAuthError σ RegisteredIdentityKey := do
  let pubkey ← Exec.orElse (try_into 33 entry.key) .malformedEntry
  let value := entry.value
  Exec.reject (value.length < 1 + 1 + 32) .malformedEntry
  let name_len ← Exec.unwrap value.head?
  Exec.reject (name_len = 0) .malformedEntry
  Exec.reject (value.length ≠ 1 + name_len.toNat + 32) .malformedEntry
  let str ← Exec.orElse (Deserializer.from_utf8 (value.tail.take name_len.toNat)) .invalidUtf8
  let name ← Exec.unwrap (Name.new str)
  pure { pubkey, name, por := array value (1 + name_len.toNat) 32 }

def Psbt.get_registered_identity_keys (psbt : Psbt) :
    Exec PsbtIdAuthError σ (List RegisteredIdentityKey) :=
  (entries_of psbt.iter_proprietary PSBT_IDAUTH_PROPRIETARY_IDENTIFIER
    PSBT_IDAUTH_GLOBAL_REGISTERED_IDENTITY_KEY).mapM' registered_identity_key

/-- A proof of the only kind there is. -/
structure OutputAuthProof where
  pubkey : Vector U8 33
  sig : Vector U8 64

/-- The key is a tag and a public key. -/
def output_auth_proof (entry : ProprietaryEntry) : Exec PsbtIdAuthError σ OutputAuthProof := do
  Exec.reject (entry.key.length ≠ 34) .malformedEntry
  let auth_tag ← Exec.unwrap entry.key.head?
  let sig ← Exec.orElse (try_into 64 entry.value) .malformedEntry
  Exec.reject (auth_tag ≠ PSBT_IDAUTH_TAG_IDENTITY) .malformedEntry
  pure { pubkey := array entry.key 1 33, sig }

def Output.get_auth_proofs (output : Output) : Exec PsbtIdAuthError σ (List OutputAuthProof) :=
  (entries_of output.iter_proprietary PSBT_IDAUTH_PROPRIETARY_IDENTIFIER
    PSBT_IDAUTH_OUT_SIGNATURE).mapM' output_auth_proof

end

end Vanadium.Bitcoin
