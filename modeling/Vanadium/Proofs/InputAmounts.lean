import Vanadium.Proofs.Analysis

/-!
# Amounts of inputs

An input names the output that it spends by the id of a transaction and an index.
The PSBT carries that transaction, or a copy of the output, or both. Where it
carries both, the id of the transaction is checked, but it is the copy that is
counted and that is signed for, and nothing compares the two.
-/

namespace Vanadium.Bitcoin

open Lib Bip388

/-! ## The accepted inputs -/

section
variable {X T : Type} {sdk : Sdk X} {tx : Transactions T}

theorem forall₂_getElem? {α β : Type} {R : α → β → Prop} {l₁ : List α} {l₂ : List β}
    (h : List.Forall₂ R l₁ l₂) {i : ℕ} {a : α} {b : β} (ha : l₁[i]? = some a)
    (hb : l₂[i]? = some b) : R a b := by
  refine (List.forall₂_iff_zip.mp h).2 (List.mem_of_getElem? (i := i) ?_)
  exact List.getElem?_zip_eq_some.mpr ⟨ha, hb⟩

/-- One input is checked after the other, and what each spends is added up. -/
theorem analyze_inputs_ok {accounts : List (WalletPolicy X)} :
    ∀ {inputs : List (Input × U32 × WalletPolicyCoordinates)} {tally tally' : Tally} {ui ui' : Ui},
      analyze_inputs sdk tx accounts inputs tally ui = .ok tally' ui' →
        ∃ checked : List (TxOut × Bool),
          List.Forall₂ (fun e c => ∃ version, Checked tx accounts e.1 e.2.1 version c.1 c.2)
            inputs checked ∧
          tally' = (inputs.zip checked).foldl
            (fun tally (e, c) => tally.spend e.2.1 e.2.2 c.1 c.2) tally := by
  intro inputs
  induction inputs with
  | nil =>
      intro tally tally' ui ui' h
      cases h
      exact ⟨[], .nil, rfl⟩
  | cons input inputs ih =>
      intro tally tally' ui ui' h
      obtain ⟨input, account_id, c⟩ := input
      rw [analyze_inputs] at h
      obtain ⟨⟨out, unverified⟩, ui₁, hcheck, h⟩ := Exec.bind_ok.mp h
      obtain ⟨checked, hchecked, htally⟩ := ih h
      exact ⟨(out, unverified) :: checked, .cons (check_input_ok hcheck) hchecked, htally⟩

/-- What the inputs leave in the sums, but for the accounts. -/
theorem foldl_spend {inputs : List (Input × U32 × WalletPolicyCoordinates)}
    {checked : List (TxOut × Bool)} (hlen : inputs.length = checked.length) (tally : Tally) :
    let tally' := (inputs.zip checked).foldl
      (fun tally (e, c) => tally.spend e.2.1 e.2.2 c.1 c.2) tally
    tally'.inputs_total_amount = tally.inputs_total_amount +
        (checked.map fun c => c.1.value).sum ∧
      tally'.warn_unverified_inputs = (tally.warn_unverified_inputs || checked.any Prod.snd) := by
  induction inputs generalizing checked tally with
  | nil =>
      cases checked with
      | nil => simp
      | cons c checked => simp at hlen
  | cons e inputs ih =>
      cases checked with
      | nil => simp at hlen
      | cons c checked =>
          have := ih (Nat.succ.inj hlen) (tally.spend e.2.1 e.2.2 c.1 c.2)
          simpa [Tally.spend, add_assoc, Bool.or_assoc] using this

/-- Outputs change nothing in what the inputs left. -/
theorem analyze_outputs_inputs {n_accounts : ℕ} {names : List (Vector U8 33 × Name)} :
    ∀ {outputs : List (Output × Option (U32 × WalletPolicyCoordinates))} {output_index : ℕ}
      {tally tally' : Tally} {ui ui' : Ui},
      analyze_outputs sdk n_accounts names output_index outputs tally ui = .ok tally' ui' →
        tally'.inputs_total_amount = tally.inputs_total_amount ∧
          tally'.warn_unverified_inputs = tally.warn_unverified_inputs := by
  intro outputs
  induction outputs with
  | nil =>
      intro output_index tally tally' ui ui' h
      cases h
      exact ⟨rfl, rfl⟩
  | cons output outputs ih =>
      intro output_index tally tally' ui ui' h
      rw [analyze_outputs] at h
      obtain ⟨tally₁, ui₁, hfirst, h⟩ := Exec.bind_ok.mp h
      rw [(ih h).1, (ih h).2]
      obtain ⟨amount, script, -, -, hcases⟩ := analyze_output_ok hfirst
      rcases hcases with ⟨account_id, c, -, -, rfl⟩ | ⟨-, name, _, _, _, _, _, rfl⟩
      · exact ⟨rfl, rfl⟩
      · exact ⟨rfl, rfl⟩

theorem Psbt.spend_utxo_of_prevout {psbt : Psbt} {i : ℕ} {input : Input} {out : TxOut}
    (hi : psbt.inputs[i]? = some input) (h : input.prevout tx = some out) :
    psbt.spend_utxo tx i = .ok out := by
  unfold Input.prevout at h
  simp only [Psbt.spend_utxo, hi]
  rcases hwitness : input.get_witness_utxo with e | _ | witness_utxo
  all_goals simp only [hwitness] at h
  · cases h
  · rcases hnon : input.get_non_witness_utxo tx with e | _ | t
    all_goals simp only [hnon] at h
    · cases h
    · cases h
    · obtain ⟨vout, hvout, hout⟩ := Option.bind_eq_some_iff.mp h
      simp only [bind, Except.bind, hvout, hout]
  · cases h
    rfl

end

/-! ## Legacy and segwit -/

section
variable {X T : Type} {sdk : Sdk X} {tx : Transactions T}

/-- The output is the one with the index of the input, of the transaction with its id. The PSBT
carries that transaction. -/
def Spent (tx : Transactions T) (input : Input) (out : TxOut) : Prop :=
  ∃ t vout, input.get_non_witness_utxo tx = .ok (some t) ∧
    input.previous_txid = some (tx.compute_txid t) ∧ input.output_index = some vout ∧
      (tx.output t)[vout.toNat]? = some out

/-- The copy of the output is the output of the transaction, as the PSBT carries the two. -/
def Input.Consistent (tx : Transactions T) (input : Input) : Prop :=
  ∃ t vout out, input.get_non_witness_utxo tx = .ok (some t) ∧ input.output_index = some vout ∧
    (tx.output t)[vout.toNat]? = some out ∧ input.get_witness_utxo = .ok (some out)

theorem check_non_witness_utxo_ok {version : SegwitVersion} {input : Input} {ui ui' : Ui}
    (h : check_non_witness_utxo tx version input ui = .ok false ui')
    (hversion : version ≠ .taproot) :
    ∃ t, input.get_non_witness_utxo tx = .ok (some t) ∧
      input.previous_txid = some (tx.compute_txid t) := by
  rw [check_non_witness_utxo, if_neg hversion] at h
  obtain ⟨non_witness_utxo, hnon, h⟩ := Exec.ofExcept_bind_ok.mp h
  cases non_witness_utxo with
  | none =>
      obtain ⟨-, h⟩ := Exec.reject_bind_ok.mp h
      cases h
  | some t =>
      obtain ⟨htxid, -⟩ := Exec.reject_bind_ok.mp h
      exact ⟨t, hnon, not_not.mp htxid⟩

theorem check_non_witness_utxo_legacy {input : Input} {unverified : Bool} {ui ui' : Ui}
    (h : check_non_witness_utxo tx .legacy input ui = .ok unverified ui') : unverified = false := by
  rw [check_non_witness_utxo, if_neg (by decide)] at h
  obtain ⟨non_witness_utxo, -, h⟩ := Exec.ofExcept_bind_ok.mp h
  cases non_witness_utxo with
  | none => exact absurd rfl (Exec.reject_bind_ok.mp h).1
  | some t =>
      obtain ⟨-, h⟩ := Exec.reject_bind_ok.mp h
      cases h
      rfl

namespace Checked

variable {accounts : List (WalletPolicy X)} {input : Input} {account_id : U32} {out : TxOut}
  {unverified : Bool}

/-- There is no copy of an output in the case of legacy. -/
theorem spent_legacy (h : Checked tx accounts input account_id .legacy out unverified) :
    Spent tx input out := by
  obtain ⟨ui, ui', hcheck⟩ := h.non_witness_utxo
  cases check_non_witness_utxo_legacy hcheck
  obtain ⟨t, hnon, htxid⟩ := check_non_witness_utxo_ok hcheck (by decide)
  have hwitness : input.witness_utxo = none := by simpa using h.not_legacy
  have hprevout := h.prevout
  simp only [Input.prevout, Input.get_witness_utxo, hwitness, hnon] at hprevout
  obtain ⟨vout, hvout, hout⟩ := Option.bind_eq_some_iff.mp hprevout
  exact ⟨t, vout, hnon, htxid, hvout, hout⟩

/-- There is one in the case of segwit, and it is taken as it is. -/
theorem get_witness_utxo (h : Checked tx accounts input account_id .segwitV0 out unverified) :
    input.get_witness_utxo = .ok (some out) := by
  have hprevout := h.prevout
  unfold Input.prevout at hprevout
  rcases hwitness : input.get_witness_utxo with e | _ | witness_utxo
  all_goals simp only [hwitness] at hprevout
  · cases hprevout
  · have hsome : input.witness_utxo ≠ none := by simpa [SegwitVersion.is_segwit] using h.segwit
    obtain ⟨bytes, hbytes⟩ := Option.ne_none_iff_exists'.mp hsome
    simp only [Input.get_witness_utxo, hbytes] at hwitness
    split at hwitness
    · cases hwitness
    · split at hwitness <;> cases hwitness
  · cases hprevout
    rfl

theorem spent_iff (h : Checked tx accounts input account_id .segwitV0 out false) :
    Spent tx input out ↔ input.Consistent tx := by
  have hwitness := h.get_witness_utxo
  obtain ⟨ui, ui', hcheck⟩ := h.non_witness_utxo
  obtain ⟨t, hnon, htxid⟩ := check_non_witness_utxo_ok hcheck (by decide)
  constructor
  · intro ⟨t', vout, hnon', _, hvout, hout⟩
    exact ⟨t', vout, out, hnon', hvout, hout, hwitness⟩
  · intro ⟨t', vout, out', hnon', hvout, hout, hwitness'⟩
    cases hnon.symm.trans hnon'
    cases hwitness.symm.trans hwitness'
    exact ⟨t, vout, hnon, htxid, hvout, hout⟩

end Checked

end

/-! ## A transaction -/

section
variable {X T : Type} [Xpub X] {sdk : Sdk X} {tx : Transactions T} {psbt : Psbt}

/-- The version of an input is that of its account. -/
def TransactionSummary.segwit_version (summary : TransactionSummary X) (i : ℕ) :
    Option SegwitVersion := do
  let coords ← summary.input_coordinates[i]?
  let policy ← summary.accounts[coords.1.toNat]?
  get_segwit_version policy.descriptor_template

/-- These are the outputs that the inputs are signed for, and that are counted. -/
structure Counted (tx : Transactions T) (psbt : Psbt) (summary : TransactionSummary X)
    (outs : List TxOut) : Prop where
  spent : (List.range psbt.inputs.length).map (psbt.spend_utxo tx) = outs.map .ok
  total : summary.inputs_total_amount = (outs.map TxOut.value).sum

/-- The inputs of a transaction that is analysed, with what each spends. -/
theorem analyze_transaction_checked {analysis : Analysis X} {ui ui' : Ui}
    (h : analyze_transaction sdk tx psbt ui = .ok analysis ui') :
    ∃ checked : List (TxOut × Bool), Counted tx psbt analysis.summary (checked.map Prod.fst) ∧
      analysis.summary.warn_unverified_inputs = checked.any Prod.snd ∧
      ∀ i input, psbt.inputs[i]? = some input → ∃ c account_id version, checked[i]? = some c ∧
        analysis.summary.segwit_version i = some version ∧
        Checked tx analysis.summary.accounts input account_id version c.1 c.2 := by
  obtain ⟨names, out_coords, tally, tally', ha⟩ := analyze_transaction_ok h
  obtain ⟨_, _, hinputs⟩ := ha.inputs
  obtain ⟨_, _, houtputs⟩ := ha.outputs
  obtain ⟨checked, hforall, htally⟩ := analyze_inputs_ok hinputs
  have hlen := ha.input_coordinates.length_eq
  have hlen' := hforall.length_eq
  rw [List.length_zip, hlen, Nat.min_self] at hlen'
  have hchecked : ∀ i input, psbt.inputs[i]? = some input →
      ∃ c account_id version, checked[i]? = some c ∧
        analysis.summary.segwit_version i = some version ∧
        Checked tx analysis.summary.accounts input account_id version c.1 c.2 := by
    intro i input hi
    have hi' := (List.getElem?_eq_some_iff.mp hi).1
    have hcoord := List.getElem?_eq_getElem (hlen ▸ hi')
    have hc := List.getElem?_eq_getElem (hlen' ▸ hlen ▸ hi' : i < checked.length)
    have hzip : (psbt.inputs.zip analysis.summary.input_coordinates)[i]? = some (input, _) :=
      List.getElem?_zip_eq_some.mpr ⟨hi, hcoord⟩
    obtain ⟨version, hcheck⟩ := forall₂_getElem? hforall hzip hc
    refine ⟨_, _, version, hc, ?_, hcheck⟩
    obtain ⟨policy, hpolicy, hversion⟩ := hcheck.account
    simp only [TransactionSummary.segwit_version, hcoord, Option.bind_eq_bind, Option.bind_some,
      hpolicy, hversion]
  obtain ⟨htotal, hwarn⟩ := foldl_spend hforall.length_eq
    { account_spent_amounts := List.replicate analysis.summary.accounts.length 0 }
  obtain ⟨htotal', hwarn'⟩ := analyze_outputs_inputs houtputs
  refine ⟨checked, ⟨List.ext_getElem? fun i => ?_, ?_⟩, ?_, hchecked⟩
  · rw [List.map_map, List.getElem?_map, List.getElem?_map]
    rcases hi : psbt.inputs[i]? with _ | input
    · have hi' := List.getElem?_eq_none_iff.mp hi
      rw [List.getElem?_eq_none (by simpa using hi'),
        List.getElem?_eq_none (hlen' ▸ hlen ▸ hi')]
      rfl
    · have hi' := (List.getElem?_eq_some_iff.mp hi).1
      obtain ⟨c, account_id, version, hc, -, hcheck⟩ := hchecked i input hi
      rw [List.getElem?_range hi', hc, Option.map_some, Option.map_some,
        Psbt.spend_utxo_of_prevout hi hcheck.prevout]
      rfl
  · rw [ha.inputs_total_amount, htotal', htally, htotal, List.map_map]
    simp
    rfl
  · rw [ha.warn_unverified_inputs, hwarn', htally, hwarn, Bool.false_or]

/-- What is counted and signed for is what an input spends, exactly if the PSBT does not
contradict itself. -/
theorem input_amounts_genuine {analysis : Analysis X} {ui ui' : Ui}
    (h : analyze_transaction sdk tx psbt ui = .ok analysis ui')
    (hverified : analysis.summary.warn_unverified_inputs = false) :
    ∃ outs, Counted tx psbt analysis.summary outs ∧
      ((∀ i input out, psbt.inputs[i]? = some input → outs[i]? = some out →
          analysis.summary.segwit_version i ≠ some .taproot → Spent tx input out) ↔
        ∀ i input, psbt.inputs[i]? = some input →
          analysis.summary.segwit_version i = some .segwitV0 → input.Consistent tx) := by
  obtain ⟨checked, hcounted, hany, hchecked⟩ := analyze_transaction_checked h
  have hverify : ∀ c ∈ checked, c.2 = false := by
    rw [hverified] at hany
    simpa using hany.symm
  refine ⟨checked.map Prod.fst, hcounted, ⟨?_, ?_⟩⟩
  · intro hspent i input hi hversion
    obtain ⟨⟨out, unverified⟩, account_id, version, hc, hversion', hcheck⟩ := hchecked i input hi
    cases hversion.symm.trans hversion'
    cases hverify _ (List.mem_of_getElem? hc)
    refine hcheck.spent_iff.mp (hspent i input out hi ?_ (by rw [hversion]; decide))
    rw [List.getElem?_map, hc]
    rfl
  · intro hconsistent i input out hi hout hversion
    obtain ⟨⟨out', unverified⟩, account_id, version, hc, hversion', hcheck⟩ := hchecked i input hi
    rw [List.getElem?_map, hc] at hout
    cases hout
    cases hverify _ (List.mem_of_getElem? hc)
    cases version with
    | legacy => exact hcheck.spent_legacy
    | segwitV0 => exact hcheck.spent_iff.mpr (hconsistent i input hi hversion')
    | taproot => exact absurd hversion' hversion

end

namespace Copies

/-- A key is its encoding. -/
local instance : Xpub (Vector U8 78) where
  encode := id
  decode bytes := if bytes.length = 78 then some (array bytes 0 78) else none

def script : Bytes :=
  [0x00, 0x14, 0x75, 0x1e, 0x76, 0xe8, 0x19, 0x91, 0x96, 0xd4, 0x54, 0x94, 0x1c, 0x45, 0xd1, 0xb3,
   0xa3, 0x23, 0xf1, 0x43, 0x3b, 0xd6]

/-- A transaction with one output of one coin to that script. -/
def previous : Bytes :=
  [0x02, 0x00, 0x00, 0x00, 0x01, 0x11, 0x11, 0x11, 0x11, 0x11, 0x11, 0x11, 0x11, 0x11, 0x11, 0x11,
   0x11, 0x11, 0x11, 0x11, 0x11, 0x11, 0x11, 0x11, 0x11, 0x11, 0x11, 0x11, 0x11, 0x11, 0x11, 0x11,
   0x11, 0x11, 0x11, 0x11, 0x11, 0x00, 0x00, 0x00, 0x00, 0x00, 0xff, 0xff, 0xff, 0xff, 0x01, 0x00,
   0xe1, 0xf5, 0x05, 0x00, 0x00, 0x00, 0x00, 0x16, 0x00, 0x14, 0x75, 0x1e, 0x76, 0xe8, 0x19, 0x91,
   0x96, 0xd4, 0x54, 0x94, 0x1c, 0x45, 0xd1, 0xb3, 0xa3, 0x23, 0xf1, 0x43, 0x3b, 0xd6, 0x00, 0x00,
   0x00, 0x00]

def txid : Bytes :=
  [0xc6, 0x04, 0xf3, 0x7c, 0x7b, 0xf5, 0x46, 0xa9, 0x73, 0x94, 0xd8, 0x76, 0xb9, 0x7b, 0x50, 0xdc,
   0xfe, 0xcf, 0x2c, 0xd7, 0x38, 0xeb, 0xab, 0xd5, 0xa5, 0x02, 0x2d, 0x04, 0xa8, 0x3e, 0xe6, 0x72]

/-- The only transaction there is. -/
def tx : Transactions Unit where
  deserialize bytes := if bytes = previous then some () else none
  compute_txid _ := array txid 0 32
  output _ := [⟨100000000, script⟩]
  hash160 _ := Vector.replicate 20 0
  address bytes :=
    if bytes = script then some "tb1qw508d6qejxtdg4y5r3zarvary0c5xw7kxpjzsx" else none

/-- Of the device, nothing is used. -/
def sdk : Sdk (Vector U8 78) where
  sha256 _ := Vector.replicate 32 0
  proof _ := Vector.replicate 32 0
  get_master_fingerprint := 0xf5acc2fd
  derive_hd_node _ := none
  resident_master_hd_node := none
  ckd_priv _ _ := none
  to_compressed _ := Vector.replicate 33 2
  fingerprint _ := 0
  schnorr_verify _ _ _ := false
  xpub_to_string _ := ""
  confusion_score _ := 1
  to_cleartext _ := []

/-- A pair of a map, of short parts. -/
def pair (key value : Bytes) : Bytes :=
  [BitVec.ofNat 8 key.length] ++ key ++ [BitVec.ofNat 8 value.length] ++ value

def account_key (subtype : U8) (key : Bytes) : Bytes :=
  [0xfc, 0x07] ++ as_bytes "ACCOUNT" ++ [subtype] ++ key

/-- The account `wpkh(@0/**)`. -/
def policy : Bytes := [0x0b] ++ as_bytes "wpkh(@0/**)" ++ [0x01, 0x00] ++ List.replicate 78 0x04

/-- A PSBT with one input, which spends the coin of the account under the copy of it that is
given, and with outputs of these amounts. -/
def raw (copy : U64) (amounts : List U64) : Bytes :=
  Psbt.MAGIC ++ pair [0x02] [0x02, 0x00, 0x00, 0x00] ++ pair [0x04] [0x01] ++
    pair [0x05] [BitVec.ofNat 8 amounts.length] ++ pair [0xfb] [0x02, 0x00, 0x00, 0x00] ++
    pair (account_key 0 [0x00, 0x00, 0x00, 0x00]) (0x00 :: policy) ++
    pair (account_key 2 [0x00, 0x00, 0x00, 0x00]) (List.replicate 32 0x07) ++ [0x00] ++
    pair [0x00] previous ++ pair [0x01] (LittleEndian.write 8 copy.toNat ++ [22] ++ script) ++
    pair [0x0e] txid ++ pair [0x0f] [0x00, 0x00, 0x00, 0x00] ++
    pair (account_key 0 []) [0x00, 0x00, 0x00, 0x00, 0x00, 0x00, 0x00] ++ [0x00] ++
    amounts.flatMap fun amount =>
      pair [0x03] (LittleEndian.write 8 amount.toNat) ++ pair [0x04] script ++ [0x00]

def analyzed (bytes : Bytes) : Option (Psbt × Analysis (Vector U8 78)) :=
  match Psbt.parse bytes with
  | .ok psbt _ =>
      match analyze_transaction sdk tx psbt { answers := [] } with
      | .ok analysis _ => some (psbt, analysis)
      | _ => none
  | _ => none

theorem analyzed_ok {bytes : Bytes} {psbt : Psbt} {analysis : Analysis (Vector U8 78)}
    (h : analyzed bytes = some (psbt, analysis)) :
    ∃ rest ui', Psbt.parse bytes = .ok psbt rest ∧
      analyze_transaction sdk tx psbt { answers := [] } = .ok analysis ui' := by
  unfold analyzed at h
  split at h
  · next psbt' rest hparse =>
      split at h
      · next analysis' ui' hanalysis =>
          cases h
          exact ⟨rest, ui', hparse, hanalysis⟩
      · cases h
  · cases h

/-- Whether the input is unverified, its version, and what it is signed for. -/
def first_input (bytes : Bytes) : Option (Bool × Option SegwitVersion × Option TxOut) :=
  (analyzed bytes).map fun (psbt, analysis) =>
    (analysis.summary.warn_unverified_inputs, analysis.summary.segwit_version 0,
      (psbt.spend_utxo tx 0).toOption)

theorem first_input_some {bytes : Bytes} {seen : Bool × Option SegwitVersion × Option TxOut}
    (h : first_input bytes = some seen) :
    ∃ psbt rest analysis ui', Psbt.parse bytes = .ok psbt rest ∧
      analyze_transaction sdk tx psbt { answers := [] } = .ok analysis ui' ∧
      seen = (analysis.summary.warn_unverified_inputs, analysis.summary.segwit_version 0,
        (psbt.spend_utxo tx 0).toOption) := by
  obtain ⟨⟨psbt, analysis⟩, ha, hseen⟩ := Option.map_eq_some_iff.mp h
  obtain ⟨rest, ui', hparse, hanalysis⟩ := analyzed_ok ha
  exact ⟨psbt, rest, analysis, ui', hparse, hanalysis, hseen.symm⟩

/-- The true copy. -/
theorem input_amounts_genuine_coin :
    ∃ psbt rest analysis ui', Psbt.parse (raw 100000000 [99990000]) = .ok psbt rest ∧
      analyze_transaction sdk tx psbt { answers := [] } = .ok analysis ui' ∧
      ∃ outs, Counted tx psbt analysis.summary outs ∧
        ((∀ i input out, psbt.inputs[i]? = some input → outs[i]? = some out →
            analysis.summary.segwit_version i ≠ some .taproot → Spent tx input out) ↔
          ∀ i input, psbt.inputs[i]? = some input →
            analysis.summary.segwit_version i = some .segwitV0 → input.Consistent tx) := by
  have hseen : first_input (raw 100000000 [99990000]) =
      some (false, some .segwitV0, some ⟨100000000, script⟩) := by decide +kernel
  obtain ⟨psbt, rest, analysis, ui', hparse, hanalysis, hseen⟩ := first_input_some hseen
  have hverified : analysis.summary.warn_unverified_inputs = false :=
    (congrArg Prod.fst hseen).symm
  exact ⟨psbt, rest, analysis, ui', hparse, hanalysis,
    input_amounts_genuine hanalysis hverified⟩

/-- The copy of an output of one coin says that it is of 1000. -/
theorem copy_is_counted : ¬ ∀ (bytes : Bytes) (psbt : Psbt) (rest : Bytes)
    (analysis : Analysis (Vector U8 78)) (ui' : Ui), Psbt.parse bytes = .ok psbt rest →
      analyze_transaction sdk tx psbt { answers := [] } = .ok analysis ui' →
      analysis.summary.warn_unverified_inputs = false →
      ∀ i out, analysis.summary.segwit_version i = some .segwitV0 →
        psbt.spend_utxo tx i = .ok out →
        ∃ (t : Unit) (input : Input) (vout : U32), psbt.inputs[i]? = some input ∧
          input.previous_txid = some (tx.compute_txid t) ∧ input.output_index = some vout ∧
          (tx.output t)[vout.toNat]? = some out := by
  intro hall
  have hseen : first_input (raw 1000 [500]) = some (false, some .segwitV0, some ⟨1000, script⟩) := by
    decide +kernel
  obtain ⟨psbt, rest, analysis, ui', hparse, hanalysis, hseen⟩ := first_input_some hseen
  have hverified : analysis.summary.warn_unverified_inputs = false :=
    (congrArg Prod.fst hseen).symm
  have hversion : analysis.summary.segwit_version 0 = some .segwitV0 :=
    (congrArg (fun seen => seen.2.1) hseen).symm
  have hspent : psbt.spend_utxo tx 0 = .ok ⟨1000, script⟩ := by
    have := (congrArg (fun seen => seen.2.2) hseen).symm
    rcases hout : psbt.spend_utxo tx 0 with e | out
    · simp [hout, Except.toOption] at this
    · simpa [hout, Except.toOption] using this
  obtain ⟨t, input, vout, -, -, -, hout⟩ :=
    hall _ psbt rest analysis ui' hparse hanalysis hverified 0 _ hversion hspent
  have hmem := List.mem_of_getElem? hout
  rw [tx, List.mem_singleton] at hmem
  simp at hmem

end Copies

end Vanadium.Bitcoin
