import Vanadium.Bip388.WalletPolicy

/-!
# Wallet policies in messages

The model of `message/bip388_codec.rs` in `apps/bitcoin/common`: the maps that
policies and their keys are in a message to the device. The encoder and the
decoder of single items are those of a library; they are a parameter, and a map
or an array is the item in front of it and what comes after.
-/

namespace Vanadium.Bitcoin

open Lib Bip388

/-- `minicbor::decode::Error` -/
inductive CborError where
  | message (text : String)
  | other

/-- What reads items from a slice of bytes and moves it forward. -/
abbrev Decoder (α : Type) := Exec CborError Bytes α

/-- What is used of `minicbor::Encoder` and `minicbor::Decoder`. -/
structure Minicbor where
  encode_u8 : U8 → Bytes
  encode_u32 : U32 → Bytes
  encode_str : String → Bytes
  encode_bytes : Bytes → Bytes
  encode_array : Nat → Bytes
  encode_map : Nat → Bytes
  decode_u8 : Decoder U8
  decode_u32 : Decoder U32
  decode_str : Decoder String
  decode_bytes : Decoder Bytes
  -- of an array or a map of unknown length there is no number
  decode_array : Decoder (Option Nat)
  decode_map : Decoder (Option Nat)
  skip : Decoder Unit

namespace Minicbor

variable {X : Type} [Xpub X] (cbor : Minicbor)

/-- `d.map()?.ok_or_else(..)` -/
def definite_map : Decoder Nat := do
  let n ← cbor.decode_map
  Exec.orElse n (.message "indefinite-length maps not supported")

/-- `d.array()?.ok_or_else(..)` -/
def definite_array : Decoder Nat := do
  let m ← cbor.decode_array
  Exec.orElse m (.message "indefinite-length arrays not supported")

/-- `m` items in a row. -/
def items {α : Type} (item : Decoder α) : Nat → Decoder (List α)
  | 0 => pure []
  | m + 1 => do
      let first ← item
      let rest ← items item m
      pure (first :: rest)

/-- The entries of a map with two known keys. A key that comes again overwrites what
it was before, and keys that are not known are passed over. -/
def entries {α β : Type} (entry0 : Decoder α) (entry1 : Decoder β) :
    Nat → Option α → Option β → Decoder (Option α × Option β)
  | 0, value0, value1 => pure (value0, value1)
  | n + 1, value0, value1 => do
      let key ← cbor.decode_u8
      if key = 0 then do
        let value ← entry0
        entries entry0 entry1 n (some value) value1
      else if key = 1 then do
        let value ← entry1
        entries entry0 entry1 n value0 (some value)
      else do
        cbor.skip
        entries entry0 entry1 n value0 value1

def encode_key_origin (origin : KeyOrigin) : Bytes :=
  cbor.encode_map 2 ++ cbor.encode_u8 0 ++ cbor.encode_u32 origin.fingerprint ++
    cbor.encode_u8 1 ++ cbor.encode_array origin.derivation_path.length ++
      origin.derivation_path.flatMap cbor.encode_u32

def decode_key_origin : Decoder KeyOrigin := do
  let n ← cbor.definite_map
  let (fingerprint, path) ← cbor.entries cbor.decode_u32 (do
    let m ← cbor.definite_array
    items cbor.decode_u32 m) n none none
  let fingerprint ← Exec.orElse fingerprint (.message "missing fingerprint")
  let derivation_path ← Exec.orElse path (.message "missing path")
  pure { fingerprint, derivation_path }

def encode_key_information (ki : KeyInformation X) : Bytes :=
  cbor.encode_map (if ki.origin_info.isSome then 2 else 1) ++ cbor.encode_u8 0 ++
    cbor.encode_bytes (Xpub.encode ki.pubkey).toList ++
      match ki.origin_info with
      | some origin => cbor.encode_u8 1 ++ cbor.encode_key_origin origin
      | none => []

def decode_key_information : Decoder (KeyInformation X) := do
  let n ← cbor.definite_map
  let (pubkey, origin) ← cbor.entries (do
    let bytes ← cbor.decode_bytes
    Exec.orElse (Xpub.decode bytes) (.message "invalid xpub")) cbor.decode_key_origin n none none
  let pubkey ← Exec.orElse pubkey (.message "missing pubkey")
  pure { pubkey, origin_info := origin }

/-- `encode` -/
def encode_policy (wp : WalletPolicy X) : Bytes :=
  cbor.encode_map 2 ++ cbor.encode_u8 0 ++ cbor.encode_str wp.descriptor_template_raw ++
    cbor.encode_u8 1 ++ cbor.encode_array wp.key_information.length ++
      wp.key_information.flatMap cbor.encode_key_information

/-- `decode` -/
def decode_policy : Decoder (WalletPolicy X) := do
  let n ← cbor.definite_map
  let (template, keys) ← cbor.entries cbor.decode_str (do
    let m ← cbor.definite_array
    items cbor.decode_key_information m) n none none
  let template ← Exec.orElse template (.message "missing template")
  let keys ← Exec.orElse keys (.message "missing keys information")
  Exec.zoom id (fun s _ => s) (fun _ => .message "invalid wallet policy")
    (WalletPolicy.new template keys)

/-- What is written is read back, whatever comes after it. -/
structure Lawful : Prop where
  u8 : ∀ x rest, cbor.decode_u8 (cbor.encode_u8 x ++ rest) = .ok x rest
  u32 : ∀ x rest, cbor.decode_u32 (cbor.encode_u32 x ++ rest) = .ok x rest
  str : ∀ s : String, (as_bytes s).length < 2 ^ 64 →
    ∀ rest, cbor.decode_str (cbor.encode_str s ++ rest) = .ok s rest
  bytes : ∀ b : Bytes, b.length < 2 ^ 64 →
    ∀ rest, cbor.decode_bytes (cbor.encode_bytes b ++ rest) = .ok b rest
  array : ∀ n, n < 2 ^ 64 → ∀ rest, cbor.decode_array (cbor.encode_array n ++ rest) = .ok (some n) rest
  map : ∀ n, n < 2 ^ 64 → ∀ rest, cbor.decode_map (cbor.encode_map n ++ rest) = .ok (some n) rest

end Minicbor

end Vanadium.Bitcoin
