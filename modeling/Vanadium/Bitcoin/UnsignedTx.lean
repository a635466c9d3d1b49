import Vanadium.Bitcoin.FastPsbt

/-!
# Unsigned transactions

The model of `build_unsigned_tx` in `fastpsbt.rs` of `apps/bitcoin/common`. Inputs
have no scripts and no witnesses.
-/

namespace Vanadium.Bitcoin

open Lib

structure TxOut where
  value : U64
  script_pubkey : Bytes
  deriving DecidableEq

structure TxIn where
  txid : Vector U8 32
  vout : U32
  sequence : U32
  deriving DecidableEq

structure Transaction where
  version : U32
  lock_time : U32
  input : List TxIn
  output : List TxOut
  deriving DecidableEq

/-- From here on, lock times are times. Below, they are heights. -/
def LOCKTIME_THRESHOLD : U32 := 500000000

def u32_max (a b : U32) : U32 := if a ≤ b then b else a

/-- The maximum with what one more input requires. -/
def raise (req : Option U32) : Option U32 → Option U32
  | none => req
  | some v => some (match req with
      | none => v
      | some m => u32_max m v)

namespace Psbt

/-- The height and the time that the inputs require. -/
def requirements (psbt : Psbt) : Option U32 × Option U32 :=
  psbt.inputs.foldl (fun (req_height, req_time) inp =>
    (raise req_height inp.required_height_locktime, raise req_time inp.required_time_locktime))
    (none, none)

def lock_time (psbt : Psbt) : Except PsbtError U32 :=
  let lock_time := psbt.fallback_locktime.getD 0
  match psbt.requirements with
  | (some _, some _) => .error .badValue
  | (some h, none) =>
      if LOCKTIME_THRESHOLD ≤ h then .error .badValue else .ok (u32_max lock_time h)
  | (none, some t) =>
      if t < LOCKTIME_THRESHOLD then .error .badValue else .ok (u32_max lock_time t)
  | (none, none) => .ok lock_time

end Psbt

def Input.tx_in (inp : Input) : Except PsbtError TxIn :=
  match inp.previous_txid, inp.output_index with
  | some txid, some vout => .ok { txid, vout, sequence := inp.sequence.getD 0xFFFFFFFF }
  | _, _ => .error .badValue

def Output.tx_out (out : Output) : Except PsbtError TxOut :=
  match out.amount, out.script with
  | some value, some script_pubkey => .ok { value, script_pubkey }
  | _, _ => .error .badValue

def Psbt.build_unsigned_tx (psbt : Psbt) : Except PsbtError Transaction := do
  let lock_time ← psbt.lock_time
  let input ← psbt.inputs.mapM' Input.tx_in
  let output ← psbt.outputs.mapM' Output.tx_out
  pure { version := psbt.tx_version, lock_time, input, output }

end Vanadium.Bitcoin
