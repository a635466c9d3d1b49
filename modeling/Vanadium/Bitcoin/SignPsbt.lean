import Vanadium.Bitcoin.Proprietary
import Vanadium.Bitcoin.UnsignedTx

/-!
# Analysing and displaying a transaction

The model of `analyze_transaction` and `build_display_pairs` in
`handlers/sign_psbt.rs` of `apps/bitcoin/app`, with the accessors of `fastpsbt.rs`
that they use. The app is built for release, where arithmetic wraps.

Transactions and addresses are those of a library.
-/

namespace Vanadium.Bitcoin

open Lib Bip388

/-- What is used of the library for transactions of type `T`. -/
structure Transactions (T : Type) where
  deserialize : Bytes → Option T
  compute_txid : T → Vector U8 32
  output : T → List TxOut
  hash160 : Bytes → Vector U8 20
  /-- `Address::from_script(script, Testnet)`, as it is displayed. -/
  address : Bytes → Option String

/-! ## Outputs that are spent -/

/-- Eight bytes of an amount, and a script with a length of one byte. -/
def Input.get_witness_utxo (input : Input) : Except PsbtError (Option TxOut) :=
  match input.witness_utxo with
  | none => .ok none
  | some wutxo =>
      match wutxo.drop 8 with
      | [] => .error .badValue
      | script_len :: script =>
          if 0xfc < script_len ∨ script.length ≠ script_len.toNat then .error .badValue
          else .ok (some {
            value := BitVec.ofNat 64 (LittleEndian.read (wutxo.take 8))
            script_pubkey := script })

section
variable {T : Type} (tx : Transactions T)

def Input.get_non_witness_utxo (input : Input) : Except PsbtError (Option T) :=
  match input.non_witness_utxo with
  | none => .ok none
  | some bytes =>
      match tx.deserialize bytes with
      | none => .error .badValue
      | some t => .ok (some t)

/-- The output that an input spends, as signing takes it from the PSBT. -/
def Psbt.spend_utxo (psbt : Psbt) (input_index : Nat) : Except PsbtError TxOut :=
  match psbt.inputs[input_index]? with
  | none => .error .outOfRange
  | some input => do
      match ← input.get_witness_utxo with
      | some wutxo => pure wutxo
      | none =>
          match ← input.get_non_witness_utxo tx with
          | none => .error .badValue
          | some nwutxo =>
              match input.output_index with
              | none => .error .missingOutputIndex
              | some vout =>
                  match (tx.output nwutxo)[vout.toNat]? with
                  | none => .error .outOfRange
                  | some out => .ok out

end

/-! ## Segwit versions -/

inductive SegwitVersion where
  | legacy
  | segwitV0
  | taproot
  deriving DecidableEq, Repr

def SegwitVersion.is_segwit : SegwitVersion → Bool
  | legacy => false
  | segwitV0 => true
  | taproot => true

/-- `get_segwit_version` of a policy with this template. -/
def get_segwit_version : DescriptorTemplate → Option SegwitVersion
  | .tr _ _ => some .taproot
  | .pkh _ => some .legacy
  | .wpkh _ => some .segwitV0
  | .wsh _ => some .segwitV0
  | .sh (.wpkh _) => some .segwitV0
  | .sh (.wsh _) => some .segwitV0
  | .sh _ => some .legacy
  | _ => none

/-! ## Inputs -/

/-- A script that the check in the background has to find. -/
structure ScriptCheck where
  account_id : U32
  is_change : Bool
  address_index : U32
  expected_script : Bytes
  is_input : Bool

section
variable {X T : Type} (sdk : Sdk X) (tx : Transactions T)

def to_p2sh (script : Bytes) : Bytes := [0xa9, 0x14] ++ (tx.hash160 script).toList ++ [0x87]

def to_p2wsh (script : Bytes) : Bytes := [0x00, 0x20] ++ (sdk.sha256 script).toList

def is_p2wsh (script : Bytes) : Bool := script.length == 34 && script.take 2 == [0x00, 0x20]

/-- The check of the previous transaction of an input that is not of taproot: whether it is
missing. -/
def check_non_witness_utxo (segwit_version : SegwitVersion) (input : Input) : Handler Bool :=
  if segwit_version = .taproot then pure false
  else do
    let non_witness_utxo ←
      Exec.ofExcept (fun _ => .invalidNonWitnessUtxo) (input.get_non_witness_utxo tx)
    match non_witness_utxo with
    | some t => do
        Exec.reject (input.previous_txid ≠ some (tx.compute_txid t)) .nonWitnessUtxoMismatch
        pure false
    | none => do
        Exec.reject (segwit_version = .legacy) .nonWitnessUtxoRequired
        pure true

/-- The script that the witness script is of. -/
def redeemed (input : Input) (witness_utxo : TxOut) : Handler Bytes :=
  match input.redeem_script with
  | some redeem_script => do
      Exec.reject (witness_utxo.script_pubkey ≠ to_p2sh tx redeem_script)
        .redeemScriptMismatchWitness
      pure redeem_script
  | none => pure witness_utxo.script_pubkey

def check_witness_script (input : Input) (script : Bytes) : Handler Unit :=
  if is_p2wsh script then do
    let witness_script ← Exec.orElse input.witness_script .witnessScriptRequiredForP2WSH
    Exec.reject (script ≠ to_p2wsh sdk witness_script) .witnessScriptMismatchWitness
  else pure ()

/-- An output of a previous transaction. The index is not checked. -/
def nth_output (non_witness_utxo : T) (prevout_index : U32) : Handler TxOut :=
  Exec.unwrap (tx.output non_witness_utxo)[prevout_index.toNat]?

def check_redeem_script (input : Input) (non_witness_utxo : T) (prevout_index : U32) :
    Handler Unit :=
  match input.redeem_script with
  | some redeem_script => do
      let out ← nth_output tx non_witness_utxo prevout_index
      Exec.reject (out.script_pubkey ≠ to_p2sh tx redeem_script) .redeemScriptMismatch
  | none => pure ()

/-- The output of the previous transaction that an input spends. -/
def non_witness_tx_out (input : Input) (non_witness_utxo : T) : Handler TxOut := do
  let prevout_index ← Exec.orElse input.output_index .missingPreviousOutputIndex
  check_redeem_script tx input non_witness_utxo prevout_index
  nth_output tx non_witness_utxo prevout_index

/-- The output that an input spends, as the analysis takes it from the PSBT. -/
def input_tx_out (input : Input) : Handler TxOut := do
  let witness_utxo ← Exec.ofExcept (fun _ => .invalidWitnessUtxo) input.get_witness_utxo
  match witness_utxo with
  | some witness_utxo => do
      let script ← redeemed tx input witness_utxo
      check_witness_script sdk input script
      pure witness_utxo
  | none => do
      let non_witness_utxo ←
        Exec.ofExcept (fun _ => .invalidNonWitnessUtxo) (input.get_non_witness_utxo tx)
      match non_witness_utxo with
      | some non_witness_utxo => non_witness_tx_out tx input non_witness_utxo
      | none => Exec.throw .missingInputUtxo

/-- The checks of one input: the output that it spends, and whether that is unverified. -/
def check_input (accounts : List (WalletPolicy X)) (input : Input) (account_id : U32) :
    Handler (TxOut × Bool) := do
  let wallet_policy ← Exec.orElse accounts[account_id.toNat]? .invalidAccountId
  let segwit_version ←
    Exec.orElse (get_segwit_version wallet_policy.descriptor_template) .invalidWalletPolicy
  Exec.reject (segwit_version = .legacy ∧ input.witness_utxo.isSome)
    .witnessUtxoNotAllowedForLegacy
  let unverified ← check_non_witness_utxo tx segwit_version input
  Exec.reject (segwit_version.is_segwit ∧ input.witness_utxo.isNone) .witnessUtxoRequiredForSegwit
  let tx_out ← input_tx_out sdk tx input
  pure (tx_out, unverified)

/-- What the loops over the inputs and the outputs add up. -/
structure Tally where
  account_spent_amounts : List U64
  inputs_total_amount : U64 := 0
  outputs_total_amount : U64 := 0
  warn_unverified_inputs : Bool := false
  external_outputs_indexes : List Nat := []
  external_output_auth_names : List (Option String) := []
  script_checks : List ScriptCheck := []

def Tally.spend (tally : Tally) (account_id : U32) (coords : WalletPolicyCoordinates)
    (tx_out : TxOut) (unverified : Bool) : Tally :=
  { tally with
    account_spent_amounts :=
      tally.account_spent_amounts.modify account_id.toNat (· + tx_out.value)
    inputs_total_amount := tally.inputs_total_amount + tx_out.value
    warn_unverified_inputs := tally.warn_unverified_inputs || unverified
    script_checks := tally.script_checks ++ [{
      account_id
      is_change := coords.is_change
      address_index := coords.address_index
      expected_script := tx_out.script_pubkey
      is_input := true }] }

def analyze_inputs (accounts : List (WalletPolicy X)) :
    List (Input × U32 × WalletPolicyCoordinates) → Tally → Handler Tally
  | [], tally => pure tally
  | (input, account_id, coords) :: inputs, tally => do
      let (tx_out, unverified) ← check_input sdk tx accounts input account_id
      analyze_inputs accounts inputs (tally.spend account_id coords tx_out unverified)

end

/-! ## Outputs -/

section
variable {X : Type} (sdk : Sdk X)

/-- The names of the identity keys of a PSBT, each checked against its proof. -/
def registered_names [Xpub X] (psbt : Psbt) : Handler (List (Vector U8 33 × Name)) := do
  let registered_identity_keys ←
    Exec.map_err (fun _ => .invalidIdentitySignature) psbt.get_registered_identity_keys
  registered_identity_keys.mapM' fun rik => do
    let ik ← Exec.orElse (IdentityKey.new rik.pubkey) .invalidIdentitySignature
    let expected_por :=
      (Registerable.identity ik : Registerable X).proof_of_registration sdk.sha256 sdk.proof
        rik.name
    Exec.reject (rik.por ≠ expected_por) .invalidProofOfRegistration
    pure (rik.pubkey, rik.name)

/-- Every proof is verified. The name is that of the first key that has one. -/
def auth_name (identity_key_names : List (Vector U8 33 × Name)) (script : Bytes) :
    List OutputAuthProof → Option String → Handler (Option String)
  | [], first_auth_name => pure first_auth_name
  | proof :: proofs, first_auth_name => do
      let msg ← Exec.ofExcept (fun _ => .invalidIdentitySignature)
        (build_identity_message MSG_TYPE_OUTPUT script)
      Exec.reject (sdk.schnorr_verify proof.pubkey msg proof.sig = false) .invalidIdentitySignature
      auth_name identity_key_names script proofs (first_auth_name.or
        ((identity_key_names.find? fun entry => entry.1 = proof.pubkey).map fun entry =>
          entry.2.str))

def Tally.receive (tally : Tally) (account_id : U32) (coords : WalletPolicyCoordinates)
    (script : Bytes) (amount : U64) : Tally :=
  { tally with
    account_spent_amounts := tally.account_spent_amounts.modify account_id.toNat (· - amount)
    outputs_total_amount := tally.outputs_total_amount + amount
    script_checks := tally.script_checks ++ [{
      account_id
      is_change := coords.is_change
      address_index := coords.address_index
      expected_script := script
      is_input := false }] }

def Tally.pay (tally : Tally) (output_index : Nat) (amount : U64) (auth_name : Option String) :
    Tally :=
  { tally with
    outputs_total_amount := tally.outputs_total_amount + amount
    external_outputs_indexes := tally.external_outputs_indexes ++ [output_index]
    external_output_auth_names := tally.external_output_auth_names ++ [auth_name] }

def analyze_output (n_accounts : Nat) (identity_key_names : List (Vector U8 33 × Name))
    (output_index : Nat) (output : Output) (tally : Tally) :
    Option (U32 × WalletPolicyCoordinates) → Handler Tally
  | some (account_id, coords) => do
      let amount ← Exec.orElse output.amount .outputAmountMissing
      Exec.reject (n_accounts ≤ account_id.toNat) .invalidAccountId
      let script ← Exec.orElse output.script .outputScriptMissing
      pure (tally.receive account_id coords script amount)
  | none => do
      let amount ← Exec.orElse output.amount .outputAmountMissing
      let proofs ← Exec.map_err (fun _ => .invalidIdentitySignature) output.get_auth_proofs
      let script ← Exec.orElse output.script .outputScriptMissing
      let name ← auth_name sdk identity_key_names script proofs none
      pure (tally.pay output_index amount name)

/-- The outputs from an index on. -/
def analyze_outputs (n_accounts : Nat) (identity_key_names : List (Vector U8 33 × Name)) :
    Nat → List (Output × Option (U32 × WalletPolicyCoordinates)) → Tally → Handler Tally
  | _, [], tally => pure tally
  | output_index, (output, coords) :: outputs, tally => do
      let tally ←
        analyze_output sdk n_accounts identity_key_names output_index output tally coords
      analyze_outputs n_accounts identity_key_names (output_index + 1) outputs tally

end

/-! ## Transactions -/

structure TransactionSummary (X : Type) where
  accounts : List (WalletPolicy X)
  account_names : List (Option String)
  input_coordinates : List (U32 × WalletPolicyCoordinates)
  account_spent_amounts : List U64
  external_outputs_indexes : List Nat
  external_output_auth_names : List (Option String)
  inputs_total_amount : U64
  outputs_total_amount : U64
  warn_unverified_inputs : Bool

def TransactionSummary.fee {X : Type} (summary : TransactionSummary X) : U64 :=
  summary.inputs_total_amount - summary.outputs_total_amount

/-- What the analysis of a PSBT leads to. -/
structure Analysis (X : Type) where
  summary : TransactionSummary X
  account_proofs : List (Vector U8 32)
  script_checks : List ScriptCheck

section
variable {X T : Type} [Xpub X] (sdk : Sdk X) (tx : Transactions T)

/-- The name of an account, and the proof of its registration. -/
def account_registration (psbt : Psbt) (account_id : Nat) :
    Handler (Option String × Vector U8 32) := do
  let name ← Exec.map_err (fun _ => .invalidWalletPolicy)
    (psbt.get_account_name (BitVec.ofNat 32 account_id))
  let por ← Exec.map_err (fun _ => .invalidWalletPolicy)
    (psbt.get_account_proof_of_registration (BitVec.ofNat 32 account_id))
  let por ← Exec.orElse por .defaultAccountsNotSupported
  let por ← Exec.orElse (try_into 32 por) .invalidProofOfRegistrationLength
  pure (name, por)

def analyze_transaction (psbt : Psbt) : Handler (Analysis X) := do
  let accounts : List (WalletPolicy X) ←
    Exec.map_err (fun _ => .invalidWalletPolicy) psbt.get_accounts
  let registrations ← (List.range accounts.length).mapM' (account_registration psbt)
  let identity_key_names ← registered_names sdk psbt
  let input_coordinates ← psbt.inputs.mapM' fun input => do
    let coords ← Exec.map_err (fun _ => .failedToGetAccounts) input.get_account_coordinates
    Exec.orElse coords .externalInputsNotSupported
  let tally ← analyze_inputs sdk tx accounts (psbt.inputs.zip input_coordinates)
    { account_spent_amounts := List.replicate accounts.length 0 }
  let output_coordinates ← psbt.outputs.mapM' fun output =>
    Exec.map_err (fun _ => .failedToGetAccounts) output.get_account_coordinates
  let tally ← analyze_outputs sdk accounts.length identity_key_names 0
    (psbt.outputs.zip output_coordinates) tally
  Exec.reject (tally.inputs_total_amount < tally.outputs_total_amount) .inputsLessThanOutputs
  pure {
    summary := {
      accounts
      account_names := registrations.map Prod.fst
      input_coordinates
      account_spent_amounts := tally.account_spent_amounts
      external_outputs_indexes := tally.external_outputs_indexes
      external_output_auth_names := tally.external_output_auth_names
      inputs_total_amount := tally.inputs_total_amount
      outputs_total_amount := tally.outputs_total_amount
      warn_unverified_inputs := tally.warn_unverified_inputs }
    account_proofs := registrations.map Prod.snd
    script_checks := tally.script_checks }

end

/-! ## Display -/

def COIN_TICKER : String := "TEST"

def SATS_PER_BTC : Nat := 100000000

/-- `{:08}` -/
def pad8 (n : Nat) : String :=
  let digits := Nat.toDigits 10 n
  String.ofList (List.replicate (8 - digits.length) '0' ++ digits)

def format_amount (value : U64) : String :=
  toString (value.toNat / SATS_PER_BTC) ++ "." ++ pad8 (value.toNat % SATS_PER_BTC) ++ " " ++
    COIN_TICKER

def account_description : Option String → String
  | some name => "account: " ++ name
  | none => "default account"

/-- What is shown for an account that spends. -/
def spend_pairs (account_name : Option String) (spent_amount : U64) : List TagValue :=
  if 0 ≤ spent_amount.toInt then
    [⟨"Spend from", account_description account_name⟩,
      ⟨"Amount", if 0 < spent_amount.toInt then format_amount spent_amount
        else "0 (self-transfer)"⟩]
  else []

/-- What is shown for an account that receives. -/
def receive_pairs (account_name : Option String) (spent_amount : U64) : List TagValue :=
  if spent_amount.toInt < 0 then
    [⟨"Send to", account_description account_name⟩, ⟨"Amount", format_amount (-spent_amount)⟩]
  else []

section
variable {X T : Type} (tx : Transactions T) (has_page_api : Bool)

def address_value (name : Option String) (address : String) : String :=
  match name with
  | some name => if has_page_api then name ++ "\n\n" ++ address else name ++ ":" ++ address
  | none => address

def output_pairs (psbt : Psbt) (output_index : Nat) (auth_name : Option String) :
    Handler (List TagValue) := do
  let output ← Exec.unwrap psbt.outputs[output_index]?
  let script ← Exec.orElse output.script .outputScriptMissing
  let amount ← Exec.orElse output.amount .outputAmountMissing
  let address ← Exec.orElse (tx.address script) .addressFromScriptFailed
  pure [⟨"Output " ++ toString output_index, address_value has_page_api auth_name address⟩,
    ⟨"Amount", format_amount amount⟩]

def build_display_pairs (psbt : Psbt) (summary : TransactionSummary X) :
    Handler (List TagValue) := do
  let accounts := summary.account_names.zip summary.account_spent_amounts
  let outputs ← (summary.external_outputs_indexes.zip summary.external_output_auth_names).mapM'
    fun (output_index, auth_name) => output_pairs tx has_page_api psbt output_index auth_name
  pure (accounts.flatMap (fun (name, spent_amount) => spend_pairs name spent_amount) ++
    accounts.flatMap (fun (name, spent_amount) => receive_pairs name spent_amount) ++
      outputs.flatten ++ [⟨"Fee", toString summary.fee.toNat ++ " " ++ COIN_TICKER⟩])

end

end Vanadium.Bitcoin
