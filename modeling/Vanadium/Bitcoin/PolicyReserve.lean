import Vanadium.Bitcoin.PolicyCodec

/-!
# What reading a policy reserves

The decoder of `message/bip388_codec.rs` once more, with what does not show in the
value it returns: a vector gets the capacity that the head of its array announces,
and only then are the elements read. What happens at that moment is a parameter:
`with_capacity` is what the code does, and `announce` only writes down what it was
asked for.
-/

namespace Vanadium.Bitcoin

open Lib Bip388

/-- The head of an array whose elements are about to be read. -/
structure Reservation where
  announced : ℕ
  size_of : ℕ
  -- the bytes of input that come after the head
  remaining : ℕ
  deriving DecidableEq

/-- `m as usize` -/
def Reservation.capacity (r : Reservation) : ℕ := r.announced % 2 ^ 32

structure CborInput where
  rest : Bytes
  /-- The number of items that were read. -/
  steps : ℕ
  /-- The latest one is the first. -/
  reserved : List Reservation
  deriving DecidableEq

def CborInput.start (bytes : Bytes) : CborInput := ⟨bytes, 0, []⟩

abbrev Reserving (α : Type) := Exec CborError CborInput α

namespace Reserving

/-- Reading an item is a step. -/
def step {α : Type} (item : Decoder α) : Reserving α := do
  let value ← Exec.zoom CborInput.rest (fun rest s => { s with rest }) id item
  Exec.modify fun s => { s with steps := s.steps + 1 }
  pure value

def announce (m size_of : ℕ) : Reserving Unit :=
  Exec.modify fun s =>
    { s with reserved := ⟨m, size_of, s.rest.length⟩ :: s.reserved }

/-- `Vec::with_capacity(m as usize)` -/
def with_capacity (heap m size_of : ℕ) : Reserving Unit := do
  announce m size_of
  Exec.assert (Deserializer.Fits heap (m % 2 ^ 32) size_of)

/-- `size_of::<ChildNumber>()`: a tag and 32 bits. -/
def SIZE_OF_CHILD_NUMBER : ℕ := 8

def items {α : Type} (item : Reserving α) : ℕ → Reserving (List α)
  | 0 => pure []
  | m + 1 => do
      let first ← item
      let rest ← items item m
      pure (first :: rest)

section
variable {X : Type} [Xpub X] (cbor : Minicbor) (reserve : ℕ → ℕ → Reserving Unit)

def entries {α β : Type} (entry0 : Reserving α) (entry1 : Reserving β) :
    ℕ → Option α → Option β → Reserving (Option α × Option β)
  | 0, value0, value1 => pure (value0, value1)
  | n + 1, value0, value1 => do
      let key ← step cbor.decode_u8
      if key = 0 then do
        let value ← entry0
        entries entry0 entry1 n (some value) value1
      else if key = 1 then do
        let value ← entry1
        entries entry0 entry1 n value0 (some value)
      else do
        step cbor.skip
        entries entry0 entry1 n value0 value1

def vec {α : Type} (size_of : ℕ) (item : Reserving α) : Reserving (List α) := do
  let m ← step cbor.definite_array
  reserve m size_of
  items item m

def decode_key_origin : Reserving KeyOrigin := do
  let n ← step cbor.definite_map
  let (fingerprint, path) ← entries cbor (step cbor.decode_u32)
    (vec cbor reserve SIZE_OF_CHILD_NUMBER (step cbor.decode_u32)) n none none
  let fingerprint ← Exec.orElse fingerprint (.message "missing fingerprint")
  let derivation_path ← Exec.orElse path (.message "missing path")
  pure { fingerprint, derivation_path }

def decode_key_information : Reserving (KeyInformation X) := do
  let n ← step cbor.definite_map
  let (pubkey, origin) ← entries cbor (do
    let bytes ← step cbor.decode_bytes
    Exec.orElse (Xpub.decode bytes) (.message "invalid xpub"))
      (decode_key_origin cbor reserve) n none none
  let pubkey ← Exec.orElse pubkey (.message "missing pubkey")
  pure { pubkey, origin_info := origin }

/-- What the policy is made from. -/
def decode_fields (size_of_key : ℕ) : Reserving (String × List (KeyInformation X)) := do
  let n ← step cbor.definite_map
  let (template, keys) ← entries cbor (step cbor.decode_str)
    (vec cbor reserve size_of_key (decode_key_information cbor reserve)) n none none
  let template ← Exec.orElse template (.message "missing template")
  let keys ← Exec.orElse keys (.message "missing keys information")
  pure (template, keys)

/-- `decode` -/
def decode_policy (size_of_key : ℕ) : Reserving (WalletPolicy X) := do
  let (template, keys) ← decode_fields cbor reserve size_of_key
  Exec.zoom id (fun s _ => s) (fun _ => .message "invalid wallet policy")
    (WalletPolicy.new template keys)

/-! ## What a message announces -/

/-- The heads of arrays in a message, as far as it can be read. -/
def announced (X : Type) [Xpub X] (size_of_key : ℕ) (bytes : Bytes) : List Reservation :=
  (decode_fields cbor announce size_of_key (.start bytes) :
    Outcome CborError CborInput (String × List (KeyInformation X))).state.reserved

/-- The descriptor template of a message that can be read. -/
def template (X : Type) [Xpub X] (size_of_key : ℕ) (bytes : Bytes) : Option String :=
  match (decode_fields cbor announce size_of_key (.start bytes) :
    Outcome CborError CborInput (String × List (KeyInformation X))) with
  | .ok (template, _) _ => some template
  | .err _ _ | .stop _ _ => none

end

end Reserving

end Vanadium.Bitcoin
