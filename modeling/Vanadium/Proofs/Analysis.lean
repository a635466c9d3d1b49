import Vanadium.Bitcoin.SignPsbt

/-!
# What the analysis of a transaction adds up

A PSBT that is accepted moves amounts: from an account by an input, back to one
by an output that is change, and away by any other output. The analysis goes
through these movements in the order of the PSBT, and what it adds up are sums
over them in the arithmetic of the machine.
-/

namespace Vanadium.Bitcoin

open Lib Bip388

/-! ## Lists -/

/-- What stands on the right of a relation between lists belongs to something on the left. -/
theorem exists_of_forall₂ {α β : Type} {R : α → β → Prop} {l : List α} {l' : List β}
    (h : List.Forall₂ R l l') {b : β} (hb : b ∈ l') : ∃ a ∈ l, R a b := by
  induction h with
  | nil => cases hb
  | cons hR _ ih =>
      rcases List.mem_cons.mp hb with rfl | hb
      · exact ⟨_, List.mem_cons_self, hR⟩
      · obtain ⟨a, ha, hab⟩ := ih hb
        exact ⟨a, List.mem_cons_of_mem _ ha, hab⟩

/-- What stands on the right may be put together from something else. -/
theorem exists_map_of_forall₂ {α β γ : Type} {R : α → γ → Prop} {f : γ → β} {l : List α}
    {l' : List β} (h : List.Forall₂ (fun a b => ∃ c, R a c ∧ b = f c) l l') :
    ∃ cs, List.Forall₂ R l cs ∧ l' = cs.map f := by
  induction h with
  | nil => exact ⟨[], .nil, rfl⟩
  | cons hR _ ih =>
      obtain ⟨c, hc, rfl⟩ := hR
      obtain ⟨cs, hcs, rfl⟩ := ih
      exact ⟨c :: cs, .cons hc hcs, rfl⟩

/-! ## What an input and an output are about -/

/-- The coordinates among the entries, if they are well-formed and there are any. -/
def coordinates (entries : List ProprietaryEntry) (subtype : U8) :
    Option (U32 × WalletPolicyCoordinates) :=
  match account_coordinates entries subtype () with
  | .ok coords _ => coords
  | _ => none

theorem read_from_ok {ε σ τ α : Type} {bytes : Bytes} {e : ε} {reader : Reader α} {s s' : σ} {a : α}
    (h : read_from bytes e reader s = .ok a s') (t : τ) :
    (read_from bytes e reader : Exec ε τ α) t = .ok a t := by
  obtain ⟨rest, hrun, -⟩ := Exec.zoom_ok.mp h
  exact Exec.zoom_ok.mpr ⟨rest, hrun, rfl⟩

theorem coordinates_of_ok {σ : Type} {entries : List ProprietaryEntry} {subtype : U8} {s s' : σ}
    {coords : Option (U32 × WalletPolicyCoordinates)}
    (h : account_coordinates entries subtype s = .ok coords s') :
    coordinates entries subtype = coords := by
  have hrun : account_coordinates entries subtype () = .ok coords () := by
    rcases hlookup : lookup entries PSBT_ACCOUNT_PROPRIETARY_IDENTIFIER subtype [] with
      _ | _ | ⟨account_id, _ | ⟨tag, value⟩⟩
    all_goals simp only [account_coordinates, hlookup] at h ⊢
    · cases h
      rfl
    · cases h
    · cases h
    · obtain ⟨hvalue, h⟩ := Exec.reject_bind_ok.mp h
      obtain ⟨hid, h⟩ := Exec.reject_bind_ok.mp h
      rw [Exec.reject_bind_neg hvalue, Exec.reject_bind_neg hid]
      split at h
      · next htag =>
          rw [if_pos htag]
          obtain ⟨c, s₁, hread, h⟩ := Exec.bind_ok.mp h
          cases h
          rw [Exec.bind_apply_ok (read_from_ok hread ())]
          rfl
      · cases h
  rw [coordinates, hrun]

def Input.coordinates (input : Input) : Option (U32 × WalletPolicyCoordinates) :=
  Bitcoin.coordinates input.iter_proprietary PSBT_ACCOUNT_IN_COORDINATES

def Output.coordinates (output : Output) : Option (U32 × WalletPolicyCoordinates) :=
  Bitcoin.coordinates output.iter_proprietary PSBT_ACCOUNT_OUT_COORDINATES

section
variable {X T : Type} {sdk : Sdk X} {tx : Transactions T}

/-- The output that an input spends, according to the PSBT. -/
def Input.prevout (tx : Transactions T) (input : Input) : Option TxOut :=
  match input.get_witness_utxo with
  | .ok (some witness_utxo) => some witness_utxo
  | .ok none =>
      match input.get_non_witness_utxo tx with
      | .ok (some t) => input.output_index.bind fun vout => (tx.output t)[vout.toNat]?
      | _ => none
  | .error _ => none

theorem non_witness_tx_out_ok {input : Input} {t : T} {out : TxOut} {ui ui' : Ui}
    (h : non_witness_tx_out tx input t ui = .ok out ui') :
    ∃ vout, input.output_index = some vout ∧ (tx.output t)[vout.toNat]? = some out := by
  unfold non_witness_tx_out at h
  obtain ⟨vout, hvout, h⟩ := Exec.orElse_bind_ok.mp h
  obtain ⟨_, ui₁, -, h⟩ := Exec.bind_ok.mp h
  unfold nth_output at h
  exact ⟨vout, hvout, (Exec.unwrap_ok.mp h).1⟩

theorem input_tx_out_ok {input : Input} {out : TxOut} {ui ui' : Ui}
    (h : input_tx_out sdk tx input ui = .ok out ui') : input.prevout tx = some out := by
  unfold input_tx_out at h
  obtain ⟨witness_utxo, hwitness, h⟩ := Exec.ofExcept_bind_ok.mp h
  unfold Input.prevout
  rw [hwitness]
  cases witness_utxo with
  | some witness_utxo =>
      simp only at h
      obtain ⟨script, ui₁, -, h⟩ := Exec.bind_ok.mp h
      obtain ⟨_, ui₂, -, h⟩ := Exec.bind_ok.mp h
      cases h
      rfl
  | none =>
      simp only at h
      obtain ⟨non_witness_utxo, hnon, h⟩ := Exec.ofExcept_bind_ok.mp h
      rw [hnon]
      cases non_witness_utxo with
      | none => cases h
      | some t =>
          simp only at h
          obtain ⟨vout, hvout, hout⟩ := non_witness_tx_out_ok h
          simp only [hvout, Option.bind_some]
          exact hout

/-- What is known of an input that was accepted, but for its scripts. -/
structure Checked (tx : Transactions T) (accounts : List (WalletPolicy X)) (input : Input)
    (account_id : U32) (segwit_version : SegwitVersion) (out : TxOut) (unverified : Bool) :
    Prop where
  account : ∃ policy, accounts[account_id.toNat]? = some policy ∧
    get_segwit_version policy.descriptor_template = some segwit_version
  not_legacy : ¬ (segwit_version = .legacy ∧ input.witness_utxo.isSome)
  non_witness_utxo : ∃ ui ui', check_non_witness_utxo tx segwit_version input ui =
    .ok unverified ui'
  segwit : ¬ (segwit_version.is_segwit ∧ input.witness_utxo.isNone)
  prevout : input.prevout tx = some out

theorem check_input_ok {accounts : List (WalletPolicy X)} {input : Input} {account_id : U32}
    {out : TxOut} {unverified : Bool} {ui ui' : Ui}
    (h : check_input sdk tx accounts input account_id ui = .ok (out, unverified) ui') :
    ∃ segwit_version, Checked tx accounts input account_id segwit_version out unverified := by
  unfold check_input at h
  obtain ⟨policy, hpolicy, h⟩ := Exec.orElse_bind_ok.mp h
  obtain ⟨segwit_version, hversion, h⟩ := Exec.orElse_bind_ok.mp h
  obtain ⟨hlegacy, h⟩ := Exec.reject_bind_ok.mp h
  obtain ⟨unverified', ui₁, hnon, h⟩ := Exec.bind_ok.mp h
  obtain ⟨hsegwit, h⟩ := Exec.reject_bind_ok.mp h
  obtain ⟨out', ui₂, hout, h⟩ := Exec.bind_ok.mp h
  cases h
  exact ⟨segwit_version, ⟨policy, hpolicy, hversion⟩, hlegacy, ⟨_, _, hnon⟩, hsegwit,
    input_tx_out_ok hout⟩

/-- What is known of an output that was accepted. -/
theorem analyze_output_ok {n_accounts : ℕ} {names : List (Vector U8 33 × Name)} {output_index : ℕ}
    {output : Output} {tally tally' : Tally} {coords : Option (U32 × WalletPolicyCoordinates)}
    {ui ui' : Ui}
    (h : analyze_output sdk n_accounts names output_index output tally coords ui = .ok tally' ui') :
    ∃ amount script, output.amount = some amount ∧ output.script = some script ∧
      ((∃ account_id c, coords = some (account_id, c) ∧ account_id.toNat < n_accounts ∧
          tally' = tally.receive account_id c script amount) ∨
        coords = none ∧ ∃ name proofs t t', output.get_auth_proofs t = .ok proofs t' ∧
          auth_name sdk names script proofs none t' = .ok name ui' ∧
            tally' = tally.pay output_index amount name) := by
  cases coords with
  | some coords =>
      obtain ⟨account_id, c⟩ := coords
      rw [analyze_output] at h
      obtain ⟨amount, hamount, h⟩ := Exec.orElse_bind_ok.mp h
      obtain ⟨hid, h⟩ := Exec.reject_bind_ok.mp h
      obtain ⟨script, hscript, h⟩ := Exec.orElse_bind_ok.mp h
      cases h
      exact ⟨amount, script, hamount, hscript, .inl ⟨account_id, c, rfl, not_le.mp hid, rfl⟩⟩
  | none =>
      rw [analyze_output] at h
      obtain ⟨amount, hamount, h⟩ := Exec.orElse_bind_ok.mp h
      obtain ⟨proofs, ui₁, hproofs, h⟩ := Exec.bind_ok.mp h
      obtain ⟨script, hscript, h⟩ := Exec.orElse_bind_ok.mp h
      obtain ⟨name, ui₂, hname, h⟩ := Exec.bind_ok.mp h
      cases h
      exact ⟨amount, script, hamount, hscript,
        .inr ⟨rfl, name, proofs, _, _, Exec.map_err_ok.mp hproofs, hname, rfl⟩⟩

end

/-! ## The analysis as a whole -/

section
variable {X T : Type} [Xpub X] {sdk : Sdk X} {tx : Transactions T} {psbt : Psbt}

/-- The parts of an analysis that succeeded: the names of identities, the coordinates of the
outputs, and what was added up after the inputs and after the outputs. -/
structure Analyzed (sdk : Sdk X) (tx : Transactions T) (psbt : Psbt) (analysis : Analysis X)
    (identity_key_names : List (Vector U8 33 × Name))
    (out_coords : List (Option (U32 × WalletPolicyCoordinates))) (tally tally' : Tally) : Prop where
  names : ∃ ui ui', registered_names sdk psbt ui = .ok identity_key_names ui'
  input_coordinates : List.Forall₂ (fun input c => input.coordinates = some c) psbt.inputs
    analysis.summary.input_coordinates
  inputs : ∃ ui ui', analyze_inputs sdk tx analysis.summary.accounts
    (psbt.inputs.zip analysis.summary.input_coordinates)
    { account_spent_amounts := List.replicate analysis.summary.accounts.length 0 } ui =
      .ok tally ui'
  output_coordinates : List.Forall₂ (fun output c => output.coordinates = c) psbt.outputs
    out_coords
  outputs : ∃ ui ui', analyze_outputs sdk analysis.summary.accounts.length identity_key_names 0
    (psbt.outputs.zip out_coords) tally ui = .ok tally' ui'
  enough : ¬ tally'.inputs_total_amount < tally'.outputs_total_amount
  account_spent_amounts : analysis.summary.account_spent_amounts = tally'.account_spent_amounts
  external_outputs_indexes :
    analysis.summary.external_outputs_indexes = tally'.external_outputs_indexes
  external_output_auth_names :
    analysis.summary.external_output_auth_names = tally'.external_output_auth_names
  inputs_total_amount : analysis.summary.inputs_total_amount = tally'.inputs_total_amount
  outputs_total_amount : analysis.summary.outputs_total_amount = tally'.outputs_total_amount
  warn_unverified_inputs : analysis.summary.warn_unverified_inputs = tally'.warn_unverified_inputs

theorem analyze_transaction_ok {analysis : Analysis X} {ui ui' : Ui}
    (h : analyze_transaction sdk tx psbt ui = .ok analysis ui') :
    ∃ names output_coordinates tally tally',
      Analyzed sdk tx psbt analysis names output_coordinates tally tally' := by
  unfold analyze_transaction at h
  obtain ⟨accounts, ui₁, -, h⟩ := Exec.bind_ok.mp h
  obtain ⟨registrations, ui₂, -, h⟩ := Exec.bind_ok.mp h
  obtain ⟨names, ui₃, hnames, h⟩ := Exec.bind_ok.mp h
  obtain ⟨input_coordinates, ui₄, hcoords, h⟩ := Exec.bind_ok.mp h
  obtain ⟨tally, ui₅, hinputs, h⟩ := Exec.bind_ok.mp h
  obtain ⟨output_coordinates, ui₆, hcoords', h⟩ := Exec.bind_ok.mp h
  obtain ⟨tally', ui₇, houtputs, h⟩ := Exec.bind_ok.mp h
  obtain ⟨henough, h⟩ := Exec.reject_bind_ok.mp h
  cases h
  refine ⟨names, output_coordinates, tally, tally', ⟨_, _, hnames⟩, ?_, ⟨_, _, hinputs⟩, ?_,
    ⟨_, _, houtputs⟩, henough, rfl, rfl, rfl, rfl, rfl, rfl⟩
  · refine (Exec.mapM'_ok hcoords).imp fun input c ⟨t, t', hc⟩ => ?_
    obtain ⟨c', t₁, hc', hc⟩ := Exec.bind_ok.mp hc
    rw [(Exec.orElse_ok.mp hc).1] at hc'
    exact coordinates_of_ok (Exec.map_err_ok.mp hc')
  · refine (Exec.mapM'_ok hcoords').imp fun output c ⟨t, t', hc⟩ => ?_
    exact coordinates_of_ok (Exec.map_err_ok.mp hc)

end

/-! ## What is displayed -/

section
variable {X T : Type} {psbt : Psbt} {ui ui' : Ui}

/-- An external output, as it is displayed. -/
structure ShownOutput where
  index : ℕ
  auth_name : Option String
  address : String
  amount : U64

def ShownOutput.pairs (has_page_api : Bool) (o : ShownOutput) : List TagValue :=
  [⟨"Output " ++ toString o.index, address_value has_page_api o.auth_name o.address⟩,
    ⟨"Amount", format_amount o.amount⟩]

/-- What is displayed before the outputs. -/
def account_pairs (summary : TransactionSummary X) : List TagValue :=
  let accounts := summary.account_names.zip summary.account_spent_amounts
  accounts.flatMap (fun (name, spent_amount) => spend_pairs name spent_amount) ++
    accounts.flatMap (fun (name, spent_amount) => receive_pairs name spent_amount)

def fee_pair (summary : TransactionSummary X) : TagValue :=
  ⟨"Fee", toString summary.fee.toNat ++ " " ++ COIN_TICKER⟩

/-- The address that is displayed is that of the script of the output. -/
def ShownOutput.Of (tx : Transactions T) (psbt : Psbt) (e : ℕ × Option String) (o : ShownOutput) :
    Prop :=
  (o.index, o.auth_name) = e ∧ ∃ output script, psbt.outputs[o.index]? = some output ∧
    output.script = some script ∧ output.amount = some o.amount ∧
      tx.address script = some o.address

theorem output_pairs_ok {tx : Transactions T} {has_page_api : Bool} {output_index : ℕ}
    {auth_name : Option String} {pairs : List TagValue}
    (h : output_pairs tx has_page_api psbt output_index auth_name ui = .ok pairs ui') :
    ∃ o : ShownOutput, o.Of tx psbt (output_index, auth_name) ∧ pairs = o.pairs has_page_api := by
  unfold output_pairs at h
  obtain ⟨output, houtput, h⟩ := Exec.unwrap_bind_ok.mp h
  obtain ⟨script, hscript, h⟩ := Exec.orElse_bind_ok.mp h
  obtain ⟨amount, hamount, h⟩ := Exec.orElse_bind_ok.mp h
  obtain ⟨address, haddress, h⟩ := Exec.orElse_bind_ok.mp h
  cases h
  exact ⟨⟨output_index, auth_name, address, amount⟩,
    ⟨rfl, output, script, houtput, hscript, hamount, haddress⟩, rfl⟩

theorem build_display_pairs_ok {tx : Transactions T} {has_page_api : Bool}
    {summary : TransactionSummary X} {pairs : List TagValue}
    (h : build_display_pairs tx has_page_api psbt summary ui = .ok pairs ui') :
    ∃ shown : List ShownOutput, List.Forall₂ (ShownOutput.Of tx psbt)
        (summary.external_outputs_indexes.zip summary.external_output_auth_names) shown ∧
      pairs = account_pairs summary ++ shown.flatMap (ShownOutput.pairs has_page_api) ++
        [fee_pair summary] := by
  unfold build_display_pairs at h
  obtain ⟨outputs, ui₁, houtputs, h⟩ := Exec.bind_ok.mp h
  cases h
  have hmapped := (Exec.mapM'_ok houtputs).imp fun e outputs ⟨t, t', h⟩ => output_pairs_ok h
  obtain ⟨shown, hshown, rfl⟩ := exists_map_of_forall₂ hmapped
  exact ⟨shown, hshown, by rw [List.flatMap_def]; rfl⟩

end

end Vanadium.Bitcoin
