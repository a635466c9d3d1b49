import Vanadium.Bip388.WalletPolicy

/-!
# Registrations

The model of `account.rs`, `identity.rs` and `por.rs` in `apps/bitcoin/common`:
the bytes hashed into the identifiers of named accounts and named identity keys,
and the proofs of registration, which are tags on these identifiers.

The hash function and the tag of an identifier under the device's key are
parameters. Proofs and identifiers carry the type of what they are about in the
source, but not on the wire, so here they are bytes.
-/

namespace Vanadium.Bitcoin

open Lib Bip388

/-- `b"\x0DNAMED_ACCOUNT"` -/
def ACCOUNT_MAGIC : Bytes := 0x0D :: as_bytes "NAMED_ACCOUNT"

/-- `b"\x0CIDENTITY_KEY"` -/
def IDENTITY_KEY_MAGIC : Bytes := 0x0C :: as_bytes "IDENTITY_KEY"

/-- `<WalletPolicy as Account>::VERSION` -/
def VERSION : U32 := 1

/-- A `&str` that an object is registered under. -/
structure Name where
  str : String
  in_memory : (as_bytes str).length < 2 ^ 64

def Name.bytes (name : Name) : Bytes := as_bytes name.str

section
variable {X : Type} [Xpub X]

/-- `<WalletPolicy as Account>::serialize` -/
def account_serialize (self : WalletPolicy X) : Bytes :=
  LittleEndian.write 4 VERSION.toNat ++ self.serialize

/-- What `Account::get_id` hashes. -/
def account_preimage (self : WalletPolicy X) (name : Name) : Bytes :=
  ACCOUNT_MAGIC ++ to_be_bytes VERSION ++ VarInt.consensus_encode name.bytes.length ++
    name.bytes ++ account_serialize self

structure IdentityKey where
  compressed : Vector U8 33
  deriving DecidableEq

/-- `IdentityKey::new` -/
def IdentityKey.new (compressed : Vector U8 33) : Option IdentityKey :=
  if compressed.head ≠ 0x02 ∧ compressed.head ≠ 0x03 then none else some { compressed }

/-- What `IdentityKey::get_id` hashes. The length of the name is cut off at a byte. -/
def identity_preimage (self : IdentityKey) (name : Name) : Bytes :=
  IDENTITY_KEY_MAGIC ++ [BitVec.ofNat 8 name.bytes.length] ++ name.bytes ++
    self.compressed.toList

/-- What can be registered. -/
inductive Registerable (X : Type) where
  | account (policy : WalletPolicy X)
  | identity (key : IdentityKey)

namespace Registerable

def preimage (name : Name) : Registerable X → Bytes
  | account policy => account_preimage policy name
  | identity key => identity_preimage key name

variable (sha256 : Bytes → Vector U8 32) (hmac : Vector U8 32 → Vector U8 32)

def registration_id (name : Name) (object : Registerable X) : Vector U8 32 :=
  sha256 (object.preimage name)

/-- `ProofOfRegistration::new` of the identifier. -/
def proof_of_registration (name : Name) (object : Registerable X) : Vector U8 32 :=
  hmac (object.registration_id sha256 name)

/-- The device takes a proof for `object` under `name` if it is the one it would issue. -/
def accepts (name : Name) (object : Registerable X) (por : Vector U8 32) : Prop :=
  por = object.proof_of_registration sha256 hmac name

end Registerable

end

end Vanadium.Bitcoin
