import Vanadium.Bitcoin.Sdk
import Vanadium.Lib.BinarySearch

/-!
# PSBTs, as the app reads them

The model of `fastpsbt.rs` in `apps/bitcoin/common`: the parser of the maps of a
PSBT, the fields that it takes out of them on the way, and the lookups in a map.
A cursor is what is left of the bytes. Sizes are those of the target of the app,
where an address has 32 bits.

Transactions and their serialization are those of a library.
-/

namespace Vanadium.Bitcoin

open Lib Bip388

abbrev U64 := BitVec 64

inductive PsbtError where
  | invalidMagic
  | unexpectedEof
  | invalidCompactSize
  | duplicateKey
  | unsortedKeys
  | badValue
  | missingCounts
  | countsTooLarge
  | notAllowed
  | outOfRange
  | missingOutputIndex
  deriving DecidableEq, Repr

/-! ## Cursors -/

abbrev Cursor (α : Type) := Exec PsbtError Bytes α

namespace Cursor

/-- `usize::try_from` -/
def to_usize (n : Nat) : Option Nat := if n < 2 ^ 32 then some n else none

def take (n : Nat) : Cursor Bytes := do
  let buf ← Exec.get
  Exec.reject (buf.length < n) .unexpectedEof
  Exec.set (buf.drop n)
  pure (buf.take n)

/-- An integer of `n` bytes that were taken for it, the least significant one first. -/
def from_le_bytes (n : Nat) (s : Bytes) : Cursor Nat := do
  Exec.assert (n ≤ s.length)
  pure (LittleEndian.read (s.take n))

def read_compact_size : Cursor Nat := do
  let s ← take 1
  let b ← Exec.unwrap s.head?
  if b.toNat ≤ 0xfc then pure b.toNat
  else if b.toNat = 0xfd then do
    let s ← take 2
    from_le_bytes 2 s
  else if b.toNat = 0xfe then do
    let s ← take 4
    from_le_bytes 4 s
  else do
    let s ← take 8
    from_le_bytes 8 s

def read_len_prefixed : Cursor Bytes := do
  let len ← read_compact_size
  let n ← Exec.orElse (to_usize len) .unexpectedEof
  let buf ← Exec.get
  Exec.reject (buf.length < n) .unexpectedEof
  take n

end Cursor

/-! ## Maps -/

structure MapPair where
  key_type : U8
  key_data : Bytes
  value : Bytes
  deriving DecidableEq

/-- The order of keys: by type, and then by data. -/
def key_cmp (key_type : U8) (key_data : Bytes) (key_type' : U8) (key_data' : Bytes) : Ordering :=
  if key_type < key_type' then .lt
  else if key_type' < key_type then .gt
  else if key_data < key_data' then .lt
  else if key_data' < key_data then .gt
  else .eq

structure ParsedMap where
  pairs : List MapPair
  deriving DecidableEq

namespace ParsedMap

/-- What is read of a pair after its key. -/
def check_order (pairs : List MapPair) (key_type : U8) (key_data : Bytes) : Cursor Unit :=
  match pairs.getLast? with
  | none => pure ()
  | some last => do
      Exec.reject (key_type < last.key_type ∨
        (key_type = last.key_type ∧ key_data < last.key_data)) .unsortedKeys
      Exec.reject (key_type = last.key_type ∧ key_data = last.key_data) .duplicateKey

/-- The loop over the pairs. The closure `f` may refuse a pair, and keeps what it takes
from the pairs in `st`. Every turn takes a byte at least. -/
def from_cursor.loop {T : Type} (f : T → MapPair → Cursor T) :
    Nat → T → List MapPair → Cursor (ParsedMap × T)
  | 0, _, _ => Exec.stop .hang
  | fuel + 1, st, pairs => do
      let key_len ← Cursor.read_compact_size
      if key_len = 0 then pure ({ pairs }, st)
      else do
        let key_len ← Exec.orElse (Cursor.to_usize key_len) .invalidCompactSize
        let key_full ← Cursor.take key_len
        let key_type ← Exec.unwrap key_full.head?
        let key_data := key_full.tail
        check_order pairs key_type key_data
        let value ← Cursor.read_len_prefixed
        let pair : MapPair := { key_type, key_data, value }
        let st ← f st pair
        from_cursor.loop f fuel st (pairs ++ [pair])

def from_cursor {T : Type} (f : T → MapPair → Cursor T) (st : T) : Cursor (ParsedMap × T) := do
  let buf ← Exec.get
  from_cursor.loop f (buf.length + 1) st []

def get (map : ParsedMap) (key_type : U8) (key_data : Bytes) : Option Bytes :=
  (BinarySearch.search map.pairs fun p =>
    key_cmp p.key_type p.key_data key_type key_data).toOption.bind fun idx =>
      map.pairs[idx]?.map MapPair.value

/-- The pairs with a type of key, in order. -/
def iter_keys (map : ParsedMap) (key_type : U8) : List MapPair :=
  let start := BinarySearch.partition_point map.pairs fun p => p.key_type < key_type
  let rest := map.pairs.drop start
  rest.take (BinarySearch.partition_point rest fun p => p.key_type = key_type)

end ParsedMap

/-! ## Fields -/

/-- One arm of the match on the types of keys without data. -/
def field {α : Type} (key_type : U8) (read : Bytes → Cursor α) (pair : MapPair) (old : Option α) :
    Cursor (Option α) :=
  if pair.key_type = key_type then do
    let value ← read pair.value
    pure (some value)
  else pure old

def bytes_value (value : Bytes) : Cursor Bytes := pure value

/-- An integer of exactly `n` bytes. -/
def le_value (n : Nat) (value : Bytes) : Cursor Nat := do
  Exec.reject (value.length ≠ n) .badValue
  Cursor.from_le_bytes n value

def u32_value (value : Bytes) : Cursor U32 := do
  let x ← le_value 4 value
  pure (BitVec.ofNat 32 x)

def u64_value (value : Bytes) : Cursor U64 := do
  let x ← le_value 8 value
  pure (BitVec.ofNat 64 x)

def u8_value (value : Bytes) : Cursor U8 := do
  let x ← le_value 1 value
  pure (BitVec.ofNat 8 x)

def txid_value (value : Bytes) : Cursor (Vector U8 32) :=
  Exec.orElse (try_into 32 value) .badValue

/-- The number is read with a cursor of its own. What is left over is the first thing that
is looked at. -/
def u64_from_compact_size (data : Bytes) : Cursor Nat :=
  match Cursor.read_compact_size data with
  | .ok n rest => do
      Exec.reject (rest ≠ []) .invalidCompactSize
      pure n
  | .err e rest => do
      Exec.reject (rest ≠ []) .invalidCompactSize
      Exec.throw e
  | .stop w _ => Exec.stop w

def PSBT_GLOBAL_UNSIGNED_TX : U8 := 0x00
def PSBT_GLOBAL_TX_VERSION : U8 := 0x02
def PSBT_GLOBAL_FALLBACK_LOCKTIME : U8 := 0x03
def PSBT_GLOBAL_INPUT_COUNT : U8 := 0x04
def PSBT_GLOBAL_OUTPUT_COUNT : U8 := 0x05
def PSBT_GLOBAL_TX_MODIFIABLE : U8 := 0x06
def PSBT_GLOBAL_VERSION : U8 := 0xFB

def PSBT_IN_NON_WITNESS_UTXO : U8 := 0x00
def PSBT_IN_WITNESS_UTXO : U8 := 0x01
def PSBT_IN_SIGHASH_TYPE : U8 := 0x03
def PSBT_IN_REDEEM_SCRIPT : U8 := 0x04
def PSBT_IN_WITNESS_SCRIPT : U8 := 0x05
def PSBT_IN_FINAL_SCRIPTSIG : U8 := 0x07
def PSBT_IN_FINAL_SCRIPTWITNESS : U8 := 0x08
def PSBT_IN_PREVIOUS_TXID : U8 := 0x0E
def PSBT_IN_OUTPUT_INDEX : U8 := 0x0F
def PSBT_IN_SEQUENCE : U8 := 0x10
def PSBT_IN_REQUIRED_TIME_LOCKTIME : U8 := 0x11
def PSBT_IN_REQUIRED_HEIGHT_LOCKTIME : U8 := 0x12

def PSBT_OUT_REDEEM_SCRIPT : U8 := 0x00
def PSBT_OUT_WITNESS_SCRIPT : U8 := 0x01
def PSBT_OUT_AMOUNT : U8 := 0x03
def PSBT_OUT_SCRIPT : U8 := 0x04

structure GlobalFields where
  tx_version : Option U32 := none
  fallback_locktime : Option U32 := none
  n_inputs : Option Nat := none
  n_outputs : Option Nat := none
  tx_modifiable : Option U8 := none
  psbt_version : Option U32 := none

def GlobalFields.read (g : GlobalFields) (pair : MapPair) : Cursor GlobalFields :=
  if pair.key_data ≠ [] then pure g
  else do
    Exec.reject (pair.key_type = PSBT_GLOBAL_UNSIGNED_TX) .notAllowed
    let tx_version ← field PSBT_GLOBAL_TX_VERSION u32_value pair g.tx_version
    let fallback_locktime ←
      field PSBT_GLOBAL_FALLBACK_LOCKTIME u32_value pair g.fallback_locktime
    let n_inputs ← field PSBT_GLOBAL_INPUT_COUNT u64_from_compact_size pair g.n_inputs
    let n_outputs ← field PSBT_GLOBAL_OUTPUT_COUNT u64_from_compact_size pair g.n_outputs
    let tx_modifiable ← field PSBT_GLOBAL_TX_MODIFIABLE u8_value pair g.tx_modifiable
    let psbt_version ← field PSBT_GLOBAL_VERSION u32_value pair g.psbt_version
    pure { tx_version, fallback_locktime, n_inputs, n_outputs, tx_modifiable, psbt_version }

structure InputFields where
  non_witness_utxo : Option Bytes := none
  witness_utxo : Option Bytes := none
  sighash_type : Option U32 := none
  redeem_script : Option Bytes := none
  witness_script : Option Bytes := none
  final_scriptsig : Option Bytes := none
  final_scriptwitness : Option Bytes := none
  previous_txid : Option (Vector U8 32) := none
  output_index : Option U32 := none
  sequence : Option U32 := none
  required_time_locktime : Option U32 := none
  required_height_locktime : Option U32 := none
  deriving DecidableEq

def InputFields.read (i : InputFields) (pair : MapPair) : Cursor InputFields :=
  if pair.key_data ≠ [] then pure i
  else do
    let non_witness_utxo ← field PSBT_IN_NON_WITNESS_UTXO bytes_value pair i.non_witness_utxo
    let witness_utxo ← field PSBT_IN_WITNESS_UTXO bytes_value pair i.witness_utxo
    let sighash_type ← field PSBT_IN_SIGHASH_TYPE u32_value pair i.sighash_type
    let redeem_script ← field PSBT_IN_REDEEM_SCRIPT bytes_value pair i.redeem_script
    let witness_script ← field PSBT_IN_WITNESS_SCRIPT bytes_value pair i.witness_script
    let final_scriptsig ← field PSBT_IN_FINAL_SCRIPTSIG bytes_value pair i.final_scriptsig
    let final_scriptwitness ←
      field PSBT_IN_FINAL_SCRIPTWITNESS bytes_value pair i.final_scriptwitness
    let previous_txid ← field PSBT_IN_PREVIOUS_TXID txid_value pair i.previous_txid
    let output_index ← field PSBT_IN_OUTPUT_INDEX u32_value pair i.output_index
    let sequence ← field PSBT_IN_SEQUENCE u32_value pair i.sequence
    let required_time_locktime ←
      field PSBT_IN_REQUIRED_TIME_LOCKTIME u32_value pair i.required_time_locktime
    let required_height_locktime ←
      field PSBT_IN_REQUIRED_HEIGHT_LOCKTIME u32_value pair i.required_height_locktime
    pure { non_witness_utxo, witness_utxo, sighash_type, redeem_script, witness_script
           final_scriptsig, final_scriptwitness, previous_txid, output_index, sequence
           required_time_locktime, required_height_locktime }

structure OutputFields where
  redeem_script : Option Bytes := none
  witness_script : Option Bytes := none
  amount : Option U64 := none
  script : Option Bytes := none
  deriving DecidableEq

def OutputFields.read (o : OutputFields) (pair : MapPair) : Cursor OutputFields :=
  if pair.key_data ≠ [] then pure o
  else do
    let redeem_script ← field PSBT_OUT_REDEEM_SCRIPT bytes_value pair o.redeem_script
    let witness_script ← field PSBT_OUT_WITNESS_SCRIPT bytes_value pair o.witness_script
    let amount ← field PSBT_OUT_AMOUNT u64_value pair o.amount
    let script ← field PSBT_OUT_SCRIPT bytes_value pair o.script
    pure { redeem_script, witness_script, amount, script }

/-! ## PSBTs -/

structure Input extends InputFields where
  map : ParsedMap
  deriving DecidableEq

structure Output extends OutputFields where
  map : ParsedMap
  deriving DecidableEq

structure Psbt where
  global_map : ParsedMap
  inputs : List Input
  outputs : List Output
  version : U32
  tx_version : U32
  fallback_locktime : Option U32
  tx_modifiable : Option U8
  deriving DecidableEq

def Input.from_cursor : Cursor Input := do
  let (map, fields) ← ParsedMap.from_cursor InputFields.read {}
  pure { fields with map }

def Output.from_cursor : Cursor Output := do
  let (map, fields) ← ParsedMap.from_cursor OutputFields.read {}
  pure { fields with map }

/-- `n` maps in a row. -/
def maps {α : Type} (from_cursor : Cursor α) : Nat → Cursor (List α)
  | 0 => pure []
  | n + 1 => do
      let first ← from_cursor
      let rest ← maps from_cursor n
      pure (first :: rest)

namespace Psbt

def MAGIC : Bytes := as_bytes "psbt" ++ [0xff]

/-- What `parse` reads after the magic bytes. -/
def from_cursor : Cursor Psbt := do
  let (global_map, g) ← ParsedMap.from_cursor GlobalFields.read {}
  let n_inputs ← Exec.orElse g.n_inputs .missingCounts
  let n_outputs ← Exec.orElse g.n_outputs .missingCounts
  let psbt_version ← Exec.orElse g.psbt_version .missingCounts
  let tx_version ← Exec.orElse g.tx_version .missingCounts
  Exec.reject (psbt_version ≠ 2) .notAllowed
  let inputs_count ← Exec.orElse (Cursor.to_usize n_inputs) .countsTooLarge
  let outputs_count ← Exec.orElse (Cursor.to_usize n_outputs) .countsTooLarge
  let inputs ← maps Input.from_cursor inputs_count
  let outputs ← maps Output.from_cursor outputs_count
  pure { global_map, inputs, outputs, version := psbt_version, tx_version
         fallback_locktime := g.fallback_locktime, tx_modifiable := g.tx_modifiable }

def parse : Cursor Psbt := do
  let raw ← Exec.get
  Exec.reject (raw.length < MAGIC.length ∨ raw.take 5 ≠ MAGIC) .invalidMagic
  Exec.set (raw.drop MAGIC.length)
  let psbt ← from_cursor
  let rest ← Exec.get
  Exec.reject (rest ≠ []) .unexpectedEof
  pure psbt

/-- The entries of the global map with a type of key: their data and their values. -/
def iter_keys (psbt : Psbt) (key_type : U8) : List (Bytes × Bytes) :=
  (psbt.global_map.iter_keys key_type).map fun p => (p.key_data, p.value)

end Psbt

def Input.iter_keys (input : Input) (key_type : U8) : List (Bytes × Bytes) :=
  (input.map.iter_keys key_type).map fun p => (p.key_data, p.value)

def Output.iter_keys (output : Output) (key_type : U8) : List (Bytes × Bytes) :=
  (output.map.iter_keys key_type).map fun p => (p.key_data, p.value)

end Vanadium.Bitcoin
