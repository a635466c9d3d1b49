import Vanadium.Bip388.Descriptor
import Vanadium.Common.Codec
import Vanadium.Common.Manifest
import Vanadium.Lib.LittleEndian

/-!
# Wallet policies

The model of `WalletPolicy` in `apps/bitcoin/bip388/src/lib.rs`: a template, kept
as it was written, and the keys it refers to, with the serialization that is
hashed for a registration and carried in PSBTs.

Extended public keys are those of a library. What is used of them is that they
are encoded as 78 bytes. A `ChildNumber` is the `u32` it converts to and from.
Memory is taken to suffice for what a message holds.
-/

namespace Vanadium.Bip388

open Lib

def MAX_SERIALIZED_DESCRIPTORTEMPLATE_LEN : Nat := 4096

def MAX_SERIALIZED_KEY_COUNT : Nat := MAX_KEYS_MULTI_A

def MAX_BIP32_DERIVATION_PATH_LEN : Nat := 32

/-- What is used of `bitcoin::bip32::Xpub`. -/
class Xpub (X : Type) where
  encode : X → Vector U8 78
  decode : Bytes → Option X

structure KeyOrigin where
  fingerprint : U32
  derivation_path : List U32
  deriving DecidableEq

structure KeyInformation (X : Type) where
  pubkey : X
  origin_info : Option KeyOrigin
  deriving DecidableEq

/-- A string or a vector is smaller than the address space. -/
def InMemory {X : Type} (descriptor_template_raw : String)
    (key_information : List (KeyInformation X)) : Prop :=
  (as_bytes descriptor_template_raw).length < 2 ^ 64 ∧
    key_information.length < 2 ^ 64 ∧
      ∀ key ∈ key_information, ∀ origin ∈ key.origin_info,
        origin.derivation_path.length < 2 ^ 64

instance {X : Type} (raw : String) (keys : List (KeyInformation X)) : Decidable (InMemory raw keys) :=
  inferInstanceAs (Decidable (_ ∧ _ ∧ _))

structure WalletPolicy (X : Type) where
  descriptor_template : DescriptorTemplate
  key_information : List (KeyInformation X)
  descriptor_template_raw : String
  parsed : ∃ rest, from_str descriptor_template_raw.toList = .ok descriptor_template rest
  in_memory : InMemory descriptor_template_raw key_information

/-! ## Readers -/

/-- `bitcoin::consensus::encode::Error`, as far as it occurs here. -/
inductive EncodeError where
  | io
  | nonMinimalVarInt
  | parseFailed (message : String)
  deriving DecidableEq, Repr

/-- What reads from a slice of bytes and moves it forward. -/
abbrev Reader (α : Type) := Exec EncodeError Bytes α

def read_exact (n : Nat) : Reader Bytes := do
  let r ← Exec.get
  Exec.reject (r.length < n) .io
  Exec.set (r.drop n)
  pure (r.take n)

/-- An unsigned integer of `n` bytes, the least significant one first. -/
def read_le (n : Nat) : Reader Nat := do
  let bytes ← read_exact n
  pure (LittleEndian.read bytes)

namespace VarInt

/-- `VarInt(n).consensus_encode` -/
def consensus_encode (n : Nat) : Bytes :=
  if n < 0xFD then LittleEndian.write 1 n
  else if n ≤ 0xFFFF then 0xFD :: LittleEndian.write 2 n
  else if n ≤ 0xFFFFFFFF then 0xFE :: LittleEndian.write 4 n
  else 0xFF :: LittleEndian.write 8 n

def consensus_decode : Reader Nat := do
  let n ← read_le 1
  if n = 0xFF then do
    let x ← read_le 8
    Exec.reject (x < 0x100000000) .nonMinimalVarInt
    pure x
  else if n = 0xFE then do
    let x ← read_le 4
    Exec.reject (x < 0x10000) .nonMinimalVarInt
    pure x
  else if n = 0xFD then do
    let x ← read_le 2
    Exec.reject (x < 0xFD) .nonMinimalVarInt
    pure x
  else pure n

end VarInt

/-- `n` times in a row. -/
def repeated {α : Type} (item : Reader α) : Nat → Reader (List α)
  | 0 => pure []
  | n + 1 => do
      let first ← item
      let rest ← repeated item n
      pure (first :: rest)

/-! ## Serialization -/

section
variable {X : Type} [Xpub X]

namespace KeyOrigin

def serialize (k : KeyOrigin) : Bytes :=
  to_be_bytes k.fingerprint ++ VarInt.consensus_encode k.derivation_path.length ++
    k.derivation_path.flatMap fun step => LittleEndian.write 4 step.toNat

def deserialize : Reader KeyOrigin := do
  let fp_buf ← read_exact 4
  let fingerprint := from_be_bytes (fp_buf.getD 0 0) (fp_buf.getD 1 0) (fp_buf.getD 2 0)
    (fp_buf.getD 3 0)
  let dp_len ← VarInt.consensus_decode
  -- two more steps are appended for addresses
  Exec.reject (dp_len > MAX_BIP32_DERIVATION_PATH_LEN - 2)
    (.parseFailed "Derivation path too long")
  let steps ← repeated (read_le 4) dp_len
  pure { fingerprint, derivation_path := steps.map (BitVec.ofNat 32) }

end KeyOrigin

namespace KeyInformation

def serialize (key_info : KeyInformation X) : Bytes :=
  (match key_info.origin_info with
    | none => [0]
    | some k => 1 :: k.serialize) ++ (Xpub.encode key_info.pubkey).toList

def deserialize : Reader (KeyInformation X) := do
  let flag ← read_le 1
  let origin_info ←
    if flag = 0 then pure none
    else if flag = 1 then do
      let origin ← KeyOrigin.deserialize
      pure (some origin)
    else Exec.throw (.parseFailed "Invalid key information flag")
  let xpub_bytes ← read_exact 78
  let pubkey ← Exec.orElse (Xpub.decode xpub_bytes) (.parseFailed "Invalid xpub")
  pure { origin_info, pubkey }

end KeyInformation

namespace WalletPolicy

omit [Xpub X] in
/-- There is no value that is not in memory. -/
def new {σ : Type} (descriptor_template_str : String) (key_information : List (KeyInformation X)) :
    Exec ParseError σ (WalletPolicy X) := fun s =>
  match h : from_str descriptor_template_str.toList with
  | .ok descriptor_template rest =>
      if hm : InMemory descriptor_template_str key_information then
        .ok {
          descriptor_template
          key_information
          descriptor_template_raw := descriptor_template_str
          parsed := ⟨rest, h⟩
          in_memory := hm } s
      else .stop .panic s
  | .err e _ => .err e s
  | .stop w _ => .stop w s

def serialize (self : WalletPolicy X) : Bytes :=
  let desc := as_bytes self.descriptor_template_raw
  VarInt.consensus_encode desc.length ++ desc ++
    VarInt.consensus_encode self.key_information.length ++
      self.key_information.flatMap KeyInformation.serialize

def deserialize : Reader (WalletPolicy X) := do
  let desc_len ← VarInt.consensus_decode
  Exec.reject (desc_len > MAX_SERIALIZED_DESCRIPTORTEMPLATE_LEN)
    (.parseFailed "Descriptor template too long")
  let desc_bytes ← read_exact desc_len
  let descriptor_template_str ← Exec.orElse (Deserializer.from_utf8 desc_bytes)
    (.parseFailed "Invalid UTF-8 in descriptor")
  let key_count ← VarInt.consensus_decode
  Exec.reject (key_count > MAX_SERIALIZED_KEY_COUNT) (.parseFailed "Too many keys")
  let key_information ← repeated KeyInformation.deserialize key_count
  -- the stream has to be exhausted
  let rest ← Exec.get
  Exec.reject (rest ≠ []) (.parseFailed "Extra data after deserializing WalletPolicy")
  Exec.zoom id (fun s _ => s)
    (fun _ => .parseFailed "Invalid descriptor template or key information")
    (new descriptor_template_str key_information)

end WalletPolicy

end

end Vanadium.Bip388
