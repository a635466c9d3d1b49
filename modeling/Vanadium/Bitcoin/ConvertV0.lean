import Vanadium.Bitcoin.UnsignedTx

/-!
# PSBTs of the old version, converted

The model of `psbt_v0_to_v2` in `psbt/mod.rs` of `apps/bitcoin/common`, which the
host calls before it sends a PSBT. In the old version the global map has the
unsigned transaction, with the scripts and witnesses of its inputs left empty; in
the new one its parts are in the maps.

The transaction is read by a library. Sizes are those of the host, where an
address has 64 bits, and memory suffices for what is read.
-/

namespace Vanadium.Bitcoin

open Lib Bip388

/-- An input, as the library reads it. -/
structure SignedTxIn extends TxIn where
  script_sig : Bytes
  witness : List Bytes
  deriving DecidableEq

/-- A transaction, as the library reads it. -/
structure SignedTransaction where
  version : U32
  lock_time : U32
  input : List SignedTxIn
  output : List TxOut
  deriving DecidableEq

namespace ConvertV0

structure KV where
  key : Bytes
  val : Bytes
  deriving DecidableEq

/-- What fails says why. -/
abbrev Reader (α : Type) := Exec String Bytes α

def read_varint : Reader Nat :=
  Exec.map_err (fun _ => "Failed to read varint") VarInt.consensus_decode

/-- There is no vector of more than `isize::MAX` bytes. -/
def read_bytes (len : Nat) : Reader Bytes := do
  Exec.assert (len < 2 ^ 63)
  Exec.map_err (fun _ => "Failed to read bytes") (read_exact len)

/-- The loop over the pairs. Every turn takes a byte at least. -/
def read_map.loop : Nat → List KV → Reader (List KV)
  | 0, _ => Exec.stop .hang
  | fuel + 1, out => do
      let key_len ← read_varint
      if key_len = 0 then pure out
      else do
        let key ← read_bytes key_len
        let val_len ← read_varint
        let val ← read_bytes val_len
        read_map.loop fuel (out ++ [{ key, val }])

def read_map : Reader (List KV) := do
  let buf ← Exec.get
  read_map.loop (buf.length + 1) []

/-- One map for each input, or for each output. -/
def read_maps : Nat → Reader (List (List KV))
  | 0 => pure []
  | n + 1 => do
      let first ← read_map
      let rest ← read_maps n
      pure (first :: rest)

/-- The key has a cursor of its own. -/
def key_type (raw_key : Bytes) : Reader Nat :=
  match VarInt.consensus_decode raw_key with
  | .ok typ _ => pure typ
  | .err _ _ => Exec.throw "Failed to read key type"
  | .stop w _ => Exec.stop w

def mk_key (typ : Nat) (keydata : Bytes) : Bytes := VarInt.consensus_encode typ ++ keydata

/-- The pair that `push_kv` appends to a map. -/
def new_kv (typ : Nat) (keydata val : Bytes) : KV := { key := mk_key typ keydata, val }

/-- `a.key.cmp(&b.key).then_with(|| a.val.cmp(&b.val))` is not `Greater`. -/
def KV.le (a b : KV) : Prop := a.key < b.key ∨ (a.key = b.key ∧ a.val ≤ b.val)

instance : DecidableRel KV.le := fun _ _ => inferInstanceAs (Decidable (_ ∨ _))

def KV.bytes (kv : KV) : Bytes :=
  VarInt.consensus_encode kv.key.length ++ kv.key ++
    (VarInt.consensus_encode kv.val.length ++ kv.val)

/-- The pairs in a row, and a separator. -/
def map_bytes (m : List KV) : Bytes := m.flatMap KV.bytes ++ [0x00]

/-- Pairs that the order does not tell apart are the same, so that every sort agrees. -/
def write_map_sorted (m : List KV) : Bytes := map_bytes (m.insertionSort KV.le)

/-- The pass over the global map: the last unsigned transaction, and the pairs that stay. -/
def capture : List KV → Option Bytes → List KV → Reader (Option Bytes × List KV)
  | [], unsigned_tx_bytes, g_pass => pure (unsigned_tx_bytes, g_pass)
  | kv :: g0, unsigned_tx_bytes, g_pass => do
      let t ← key_type kv.key
      if t = 0x00 then capture g0 (some kv.val) g_pass
      else if t = 0x02 ∨ t = 0x03 ∨ t = 0x04 ∨ t = 0x05 ∨ t = 0xFB then
        Exec.throw "v2 fields already present"
      else capture g0 unsigned_tx_bytes (g_pass ++ [kv])

/-- What is added to the global map. -/
def global_fields (tx : SignedTransaction) : List KV :=
  [new_kv 0xFB [] (LittleEndian.write 4 2),
    new_kv 0x02 [] (LittleEndian.write 4 tx.version.toNat),
    new_kv 0x03 [] (LittleEndian.write 4 tx.lock_time.toNat),
    new_kv 0x04 [] (VarInt.consensus_encode tx.input.length),
    new_kv 0x05 [] (VarInt.consensus_encode tx.output.length)]

/-- What is added to the map of an input. -/
def input_fields (txin : TxIn) : List KV :=
  [new_kv 0x0e [] txin.txid.toList,
    new_kv 0x0f [] (LittleEndian.write 4 txin.vout.toNat),
    new_kv 0x10 [] (LittleEndian.write 4 txin.sequence.toNat)]

/-- What is added to the map of an output. -/
def output_fields (txout : TxOut) : List KV :=
  [new_kv 0x03 [] (LittleEndian.write 8 txout.value.toNat), new_kv 0x04 [] txout.script_pubkey]

/-- What is written, from the maps that were read. -/
def v2_bytes (g_pass : List KV) (tx : SignedTransaction) (ins_v0 outs_v0 : List (List KV)) :
    Bytes :=
  Psbt.MAGIC ++ write_map_sorted (g_pass ++ global_fields tx) ++
    (List.zipWith (fun imap txin => write_map_sorted (imap ++ input_fields txin.toTxIn))
      ins_v0 tx.input).flatten ++
    (List.zipWith (fun omap txout => write_map_sorted (omap ++ output_fields txout))
      outs_v0 tx.output).flatten

/-- The reader is left with what comes after the last map, which nothing looks at. -/
def psbt_v0_to_v2 (deserialize : Bytes → Option SignedTransaction) : Reader Bytes := do
  let raw_psbt ← Exec.get
  Exec.reject (raw_psbt.length < 5 ∨ raw_psbt.take 5 ≠ Psbt.MAGIC) "Not a PSBT"
  Exec.set (raw_psbt.drop 5)
  let g0 ← read_map
  let (unsigned_tx_bytes, g_pass) ← capture g0 none []
  let utx ← Exec.orElse unsigned_tx_bytes "missing unsigned tx"
  let tx ← Exec.orElse (deserialize utx) "Failed to deserialize unsigned tx"
  let ins_v0 ← read_maps tx.input.length
  let outs_v0 ← read_maps tx.output.length
  pure (v2_bytes g_pass tx ins_v0 outs_v0)

end ConvertV0

end Vanadium.Bitcoin
