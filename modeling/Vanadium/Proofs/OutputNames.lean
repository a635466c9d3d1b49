import Vanadium.Proofs.Analysis
import Vanadium.Proofs.FastPsbt
import Vanadium.Proofs.KeyLabels
import Vanadium.Proofs.MessageCodecs

/-!
# The names of outputs

An external output is shown with its address, and with a name before it if an
identity signed for it. The names are in records of the global map, each with a
proof that the device registered it for a key, and the signatures in records of
the outputs. What joins them is the key. All that is shown with a name goes back
to a record of either kind, and to the script whose address is shown.
-/

namespace Vanadium.Bitcoin

open Lib Bip388

/-! ## Records -/

/-- There is a proprietary record in the map. -/
def Holds (map : ParsedMap) (identifier : Bytes) (subtype : U8) (key value : Bytes) : Prop :=
  ∃ p ∈ map.pairs, p.key_type = 0xFC ∧ p.value = value ∧ ∃ len : U8,
    len.toNat = identifier.length ∧ p.key_data = len :: identifier ++ subtype :: key

theorem parse_proprietary_key_data_eq_some {kd value : Bytes} {e : ProprietaryEntry}
    (h : parse_proprietary_key_data kd value = some e) :
    e.value = value ∧ ∃ len : U8, len.toNat = e.identifier.length ∧
      kd = len :: e.identifier ++ e.subtype :: e.key := by
  unfold parse_proprietary_key_data at h
  split at h
  · cases h
  · next len rest =>
      split at h
      · cases h
      · next subtype key hdrop =>
          cases h
          have hlen : len.toNat < rest.length := by
            by_contra hge
            rw [List.drop_of_length_le (by omega)] at hdrop
            cases hdrop
          refine ⟨rfl, len, by simp; omega, ?_⟩
          show len :: rest = len :: rest.take len.toNat ++ subtype :: key
          rw [← hdrop, List.cons_append, List.take_append_drop]

theorem holds_of_mem {map : ParsedMap} (hmap : Sorted map.pairs) {identifier : Bytes} {subtype : U8}
    {e : ProprietaryEntry}
    (h : e ∈ entries_of (proprietary ((map.iter_keys 0xFC).map fun p => (p.key_data, p.value)))
      identifier subtype) : Holds map identifier subtype e.key e.value := by
  obtain ⟨he, hid⟩ := List.mem_filter.mp h
  obtain ⟨rfl, rfl⟩ : e.identifier = identifier ∧ e.subtype = subtype := by simpa using hid
  obtain ⟨kv, hkv, hparse⟩ := List.mem_filterMap.mp he
  obtain ⟨p, hp, rfl⟩ := List.mem_map.mp hkv
  rw [ParsedMap.iter_keys_eq_filter hmap] at hp
  obtain ⟨hmem, htype⟩ := List.mem_filter.mp hp
  obtain ⟨hvalue, len, hlen, hkd⟩ := parse_proprietary_key_data_eq_some hparse
  exact ⟨p, hmem, by simpa using htype, hvalue.symm, len, hlen, hkd⟩

theorem as_bytes_of_from_utf8 {bytes : Bytes} {s : String}
    (h : Deserializer.from_utf8 bytes = some s) : as_bytes s = bytes := by
  unfold Deserializer.from_utf8 String.fromUTF8? at h
  split at h
  · cases h
    show (bytes.map UInt8.ofBitVec).map UInt8.toBitVec = bytes
    simp [Function.comp_def]
  · cases h

theorem Name.new_str {str : String} {name : Name} (h : Name.new str = some name) :
    name.str = str := by
  unfold Name.new at h
  split at h
  · cases h
    rfl
  · cases h

section
variable {X T : Type} [Xpub X] {sdk : Sdk X}

/-- The value of the record of a registered name. -/
def name_record (name : Name) (por : Vector U8 32) : Bytes :=
  BitVec.ofNat 8 name.bytes.length :: name.bytes ++ por.toList

theorem registered_identity_key_ok {σ : Type} {e : ProprietaryEntry} {rik : RegisteredIdentityKey}
    {s s' : σ} (h : registered_identity_key e s = .ok rik s') :
    rik.pubkey.toList = e.key ∧ e.value = name_record rik.name rik.por := by
  unfold registered_identity_key at h
  obtain ⟨pubkey, hpubkey, h⟩ := Exec.orElse_bind_ok.mp h
  obtain ⟨-, h⟩ := Exec.reject_bind_ok.mp h
  obtain ⟨name_len, hhead, h⟩ := Exec.unwrap_bind_ok.mp h
  obtain ⟨-, h⟩ := Exec.reject_bind_ok.mp h
  obtain ⟨hlen, h⟩ := Exec.reject_bind_ok.mp h
  obtain ⟨str, hstr, h⟩ := Exec.orElse_bind_ok.mp h
  obtain ⟨name, hname, h⟩ := Exec.unwrap_bind_ok.mp h
  cases h
  refine ⟨try_into_eq_some.mp hpubkey, ?_⟩
  obtain ⟨rest, hvalue⟩ : ∃ rest, e.value = name_len :: rest := by
    cases hv : e.value with
    | nil => rw [hv] at hhead; cases hhead
    | cons b rest =>
        rw [hv] at hhead
        cases hhead
        exact ⟨rest, rfl⟩
  have hstr' : as_bytes name.str = rest.take name_len.toNat := by
    rw [Name.new_str hname, as_bytes_of_from_utf8 hstr, hvalue, List.tail_cons]
  rw [hvalue, List.length_cons] at hlen
  have hrest : rest.length = name_len.toNat + 32 := by omega
  have hname_len : name.bytes.length = name_len.toNat := by
    rw [Name.bytes, hstr', List.length_take]
    omega
  have hpor : (array e.value (1 + name_len.toNat) 32).toList = rest.drop name_len.toNat := by
    rw [array_last (by rw [hvalue, List.length_cons]; omega), hvalue, Nat.add_comm,
      List.drop_succ_cons]
  rw [name_record, hname_len, BitVec.ofNat_toNat, BitVec.setWidth_eq, hpor, Name.bytes, hstr',
    hvalue, List.cons_append, List.take_append_drop]

theorem output_auth_proof_ok {σ : Type} {e : ProprietaryEntry} {proof : OutputAuthProof}
    {s s' : σ} (h : output_auth_proof e s = .ok proof s') :
    e.key = PSBT_IDAUTH_TAG_IDENTITY :: proof.pubkey.toList ∧ e.value = proof.sig.toList := by
  unfold output_auth_proof at h
  obtain ⟨hlen, h⟩ := Exec.reject_bind_ok.mp h
  obtain ⟨auth_tag, hhead, h⟩ := Exec.unwrap_bind_ok.mp h
  obtain ⟨sig, hsig, h⟩ := Exec.orElse_bind_ok.mp h
  obtain ⟨htag, h⟩ := Exec.reject_bind_ok.mp h
  cases h
  refine ⟨?_, (try_into_eq_some.mp hsig).symm⟩
  have hpubkey : (array e.key 1 33).toList = e.key.drop 1 :=
    array_last (not_not.mp hlen).symm
  rw [hpubkey, ← not_not.mp htag]
  cases hkey : e.key with
  | nil => rw [hkey] at hhead; cases hhead
  | cons b rest =>
      rw [hkey] at hhead
      cases hhead
      rfl

/-! ## Names -/

/-- The map has a record of the name of an identity, and the device accepts its proof. -/
def Registers (sdk : Sdk X) (psbt : Psbt) (identity : IdentityKey) (name : Name) : Prop :=
  ∃ por, Holds psbt.global_map PSBT_IDAUTH_PROPRIETARY_IDENTIFIER
      PSBT_IDAUTH_GLOBAL_REGISTERED_IDENTITY_KEY identity.compressed.toList
      (name_record name por) ∧
    (Registerable.identity identity : Registerable X).accepts sdk.sha256 sdk.proof name por

/-- The map of the output has a record of a valid signature of the script by an identity. -/
def Signs (sdk : Sdk X) (output : Output) (script : Bytes) (identity : IdentityKey) : Prop :=
  ∃ sig msg, Holds output.map PSBT_IDAUTH_PROPRIETARY_IDENTIFIER PSBT_IDAUTH_OUT_SIGNATURE
      (PSBT_IDAUTH_TAG_IDENTITY :: identity.compressed.toList) sig.toList ∧
    build_identity_message MSG_TYPE_OUTPUT script = .ok msg ∧
      sdk.schnorr_verify identity.compressed msg sig = true

variable {psbt : Psbt} {ui ui' : Ui}

theorem registered_names_ok (hglobal : Sorted psbt.global_map.pairs)
    {names : List (Vector U8 33 × Name)} (h : registered_names sdk psbt ui = .ok names ui') :
    ∀ e ∈ names, Registers sdk psbt ⟨e.1⟩ e.2 := by
  unfold registered_names at h
  obtain ⟨riks, ui₁, hriks, h⟩ := Exec.bind_ok.mp h
  have hread := Exec.mapM'_ok (Exec.map_err_ok.mp hriks)
  have hnames := Exec.mapM'_ok h
  intro e he
  obtain ⟨rik, hrik, u, u', hstep⟩ := exists_of_forall₂ hnames he
  obtain ⟨entry, hentry, t, t', hentry'⟩ := exists_of_forall₂ hread hrik
  obtain ⟨ik, hik, hstep⟩ := Exec.orElse_bind_ok.mp hstep
  obtain ⟨hpor, hstep⟩ := Exec.reject_bind_ok.mp hstep
  cases hstep
  obtain ⟨hpubkey, hvalue⟩ := registered_identity_key_ok hentry'
  have hkey : ik = ⟨rik.pubkey⟩ := by rw [← IdentityKey.new_compressed hik]
  refine ⟨rik.por, ?_, ?_⟩
  · rw [hpubkey, ← hvalue]
    exact holds_of_mem hglobal hentry
  · rw [hkey] at hpor
    exact not_not.mp hpor

omit [Xpub X] in
/-- The name of an output is that of a key that signed its script. -/
theorem auth_name_ok {names : List (Vector U8 33 × Name)} {script : Bytes} :
    ∀ {proofs : List OutputAuthProof} {first_name : Option String} {name : String} {ui ui' : Ui},
      auth_name sdk names script proofs first_name ui = .ok (some name) ui' →
        first_name = some name ∨ ∃ proof ∈ proofs, ∃ e ∈ names, e.1 = proof.pubkey ∧
          e.2.str = name ∧ ∃ msg, build_identity_message MSG_TYPE_OUTPUT script = .ok msg ∧
            sdk.schnorr_verify proof.pubkey msg proof.sig = true := by
  intro proofs
  induction proofs with
  | nil =>
      intro first_name name ui ui' h
      cases h
      exact .inl rfl
  | cons proof proofs ih =>
      intro first_name name ui ui' h
      rw [auth_name] at h
      obtain ⟨msg, hmsg, h⟩ := Exec.ofExcept_bind_ok.mp h
      obtain ⟨hverify, h⟩ := Exec.reject_bind_ok.mp h
      rcases ih h with hfirst | ⟨proof', hmem, hproof⟩
      · rcases Option.or_eq_some_iff.mp hfirst with hfirst | ⟨-, hfind⟩
        · exact .inl hfirst
        · obtain ⟨e, he, hname⟩ := Option.map_eq_some_iff.mp hfind
          have hkey : e.1 = proof.pubkey := by simpa using List.find?_some he
          exact .inr ⟨proof, List.mem_cons_self, e, List.mem_of_find?_eq_some he, hkey, hname,
            msg, hmsg, by simpa using hverify⟩
      · exact .inr ⟨proof', List.mem_cons_of_mem _ hmem, hproof⟩

/-- A name is that of an identity that is registered under it and signed the script. -/
def Authentic (sdk : Sdk X) (psbt : Psbt) (output : Output) (script : Bytes) (name : String) :
    Prop :=
  ∃ identity registered, Registers sdk psbt identity registered ∧ registered.str = name ∧
    Signs sdk output script identity

/-- The names that the analysis has given to the external outputs are authentic. -/
def Named (sdk : Sdk X) (psbt : Psbt) (tally : Tally) : Prop :=
  tally.external_outputs_indexes.length = tally.external_output_auth_names.length ∧
  ∀ e ∈ tally.external_outputs_indexes.zip tally.external_output_auth_names, ∀ name,
    e.2 = some name → ∃ output script, psbt.outputs[e.1]? = some output ∧
      output.script = some script ∧ Authentic sdk psbt output script name

theorem Named.of_eq {tally tally' : Tally} (h : Named sdk psbt tally)
    (hindexes : tally'.external_outputs_indexes = tally.external_outputs_indexes)
    (hnames : tally'.external_output_auth_names = tally.external_output_auth_names) :
    Named sdk psbt tally' := by
  unfold Named
  rw [hindexes, hnames]
  exact h

theorem analyze_inputs_named {tx : Transactions T} {accounts : List (WalletPolicy X)} :
    ∀ {inputs : List (Input × U32 × WalletPolicyCoordinates)} {tally tally' : Tally} {ui ui' : Ui},
      analyze_inputs sdk tx accounts inputs tally ui = .ok tally' ui' → Named sdk psbt tally →
        Named sdk psbt tally' := by
  intro inputs
  induction inputs with
  | nil =>
      intro tally tally' ui ui' h hnamed
      cases h
      exact hnamed
  | cons input inputs ih =>
      intro tally tally' ui ui' h hnamed
      obtain ⟨input, account_id, coords⟩ := input
      rw [analyze_inputs] at h
      obtain ⟨⟨tx_out, unverified⟩, ui₁, -, h⟩ := Exec.bind_ok.mp h
      exact ih h (hnamed.of_eq rfl rfl)

theorem analyze_output_named {n_accounts : ℕ} {names : List (Vector U8 33 × Name)}
    (hnames : ∀ e ∈ names, Registers sdk psbt ⟨e.1⟩ e.2) {output_index : ℕ} {output : Output}
    (houtput : psbt.outputs[output_index]? = some output) (hsorted : Sorted output.map.pairs)
    {tally tally' : Tally} {coords : Option (U32 × WalletPolicyCoordinates)}
    (h : analyze_output sdk n_accounts names output_index output tally coords ui = .ok tally' ui')
    (hnamed : Named sdk psbt tally) : Named sdk psbt tally' := by
  obtain ⟨amount, script, -, hscript, hcoords⟩ := analyze_output_ok h
  rcases hcoords with ⟨account_id, c, -, -, rfl⟩ | ⟨-, name, proofs, t, t', hproofs, hname, rfl⟩
  · exact hnamed.of_eq rfl rfl
  · have hread := Exec.mapM'_ok hproofs
    refine ⟨by simp [Tally.pay, hnamed.1], fun e he n hn => ?_⟩
    simp only [Tally.pay, List.zip_append hnamed.1, List.zip_cons_cons, List.zip_nil_right] at he
    rcases List.mem_append.mp he with he | he
    · exact hnamed.2 e he n hn
    · rw [List.mem_singleton] at he
      subst he
      simp only at hn
      subst hn
      rcases auth_name_ok hname with hnone | ⟨proof, hproof, entry, hentry, hkey, hstr, msg, hmsg,
        hverify⟩
      · cases hnone
      · obtain ⟨record, hrecord, u, u', hparse⟩ := exists_of_forall₂ hread hproof
        obtain ⟨hpubkey, hsig⟩ := output_auth_proof_ok hparse
        have hregisters := hnames entry hentry
        rw [hkey] at hregisters
        refine ⟨output, script, houtput, hscript, ⟨proof.pubkey⟩, entry.2, hregisters, hstr,
          proof.sig, msg, ?_, hmsg, hverify⟩
        rw [← hpubkey, ← hsig]
        exact holds_of_mem hsorted hrecord

theorem analyze_outputs_named {n_accounts : ℕ} {names : List (Vector U8 33 × Name)}
    (hnames : ∀ e ∈ names, Registers sdk psbt ⟨e.1⟩ e.2)
    (hsorted : ∀ output ∈ psbt.outputs, Sorted output.map.pairs) :
    ∀ {outputs : List (Output × Option (U32 × WalletPolicyCoordinates))} {output_index : ℕ}
      {tally tally' : Tally} {ui ui' : Ui},
      (∀ k e, outputs[k]? = some e → psbt.outputs[output_index + k]? = some e.1) →
        analyze_outputs sdk n_accounts names output_index outputs tally ui = .ok tally' ui' →
          Named sdk psbt tally → Named sdk psbt tally' := by
  intro outputs
  induction outputs with
  | nil =>
      intro output_index tally tally' ui ui' _ h hnamed
      cases h
      exact hnamed
  | cons output outputs ih =>
      intro output_index tally tally' ui ui' hat h hnamed
      obtain ⟨output, coords⟩ := output
      rw [analyze_outputs] at h
      obtain ⟨tally₁, ui₁, hfirst, h⟩ := Exec.bind_ok.mp h
      have houtput := hat 0 (output, coords) rfl
      have hnamed₁ := analyze_output_named hnames houtput
        (hsorted output (List.mem_of_getElem? houtput)) hfirst hnamed
      refine ih (fun k e hk => ?_) h hnamed₁
      rw [Nat.add_assoc, Nat.add_comm 1 k]
      exact hat (k + 1) e hk

theorem analyze_transaction_named {tx : Transactions T} {analysis : Analysis X}
    (hsorted : ∀ map ∈ psbt.all_maps, Sorted map.pairs)
    (h : analyze_transaction sdk tx psbt ui = .ok analysis ui') :
    ∃ tally, Named sdk psbt tally ∧
      analysis.summary.external_outputs_indexes = tally.external_outputs_indexes ∧
      analysis.summary.external_output_auth_names = tally.external_output_auth_names := by
  obtain ⟨names, coords, tally, tally', hanalyzed⟩ := analyze_transaction_ok h
  obtain ⟨_, _, hnames⟩ := hanalyzed.names
  obtain ⟨_, _, hinputs⟩ := hanalyzed.inputs
  obtain ⟨_, _, houtputs⟩ := hanalyzed.outputs
  have hglobal : Sorted psbt.global_map.pairs := hsorted _ List.mem_cons_self
  have hmaps : ∀ output ∈ psbt.outputs, Sorted output.map.pairs := by
    intro output houtput
    refine hsorted _ (List.mem_cons_of_mem _ (List.mem_append_right _ ?_))
    exact List.mem_map_of_mem houtput
  refine ⟨tally', analyze_outputs_named (registered_names_ok hglobal hnames) hmaps ?_ houtputs
    (analyze_inputs_named hinputs ⟨rfl, fun e he => by cases he⟩),
    hanalyzed.external_outputs_indexes, hanalyzed.external_output_auth_names⟩
  intro k e hk
  obtain ⟨houtput, -⟩ := List.getElem?_zip_eq_some.mp hk
  rw [Nat.zero_add]
  exact houtput

/-- The host presents a proof of a name for a key in the PSBT. -/
def Presents (psbt : Psbt) (entry : RegisteredIdentityEntry) : Prop :=
  Holds psbt.global_map PSBT_IDAUTH_PROPRIETARY_IDENTIFIER
    PSBT_IDAUTH_GLOBAL_REGISTERED_IDENTITY_KEY entry.pubkey
    (BitVec.ofNat 8 entry.name.bytes.length :: entry.name.bytes ++ entry.por)

/-- If what the host presents is not forged and the hashes do not collide, the user approved the
name for the key. -/
theorem Registers.approved {history : History X} {identity : IdentityKey} {name : Name}
    (h : Registers sdk psbt identity name)
    (hmac : ∀ entry, Presents psbt entry → Unforged sdk history [entry])
    (hhash : ∀ entry, Presents psbt entry → CollisionFree sdk history [entry]) :
    Approved sdk history name (.identity identity) := by
  obtain ⟨por, hholds, hpor⟩ := h
  have hpresents : Presents psbt ⟨identity.compressed.toList, name, por.toList⟩ := hholds
  exact approved_of_accepted (hmac _ hpresents) (hhash _ hpresents) List.mem_cons_self
    ⟨rfl, congrArg Vector.toList hpor⟩

/-- An output is displayed with a name only if the PSBT has a record of that name with a key,
which the device registered, and a record with a signature by that key of the script of that
output. -/
theorem output_names_authentic {X T : Type} [Xpub X] (sdk : Sdk X) (tx : Transactions T)
    (has_page_api : Bool) {raw rest : Bytes} {psbt : Psbt} {analysis : Analysis X}
    {pairs : List TagValue} {ui ui₁ ui₂ ui₃ : Ui} (hraw : raw.length < 2 ^ 32)
    (hparse : Psbt.parse raw = .ok psbt rest)
    (hanalysis : analyze_transaction sdk tx psbt ui = .ok analysis ui₁)
    (hpairs : build_display_pairs tx has_page_api psbt analysis.summary ui₂ = .ok pairs ui₃) :
    ∃ shown : List ShownOutput,
      pairs = account_pairs analysis.summary ++ shown.flatMap (ShownOutput.pairs has_page_api) ++
        [fee_pair analysis.summary] ∧
      ∀ o ∈ shown, ∃ output script, psbt.outputs[o.index]? = some output ∧
        output.script = some script ∧ tx.address script = some o.address ∧
        ∀ name, o.auth_name = some name → Authentic sdk psbt output script name := by
  obtain ⟨-, body, -, hdescribes⟩ := (Psbt.parse_ok hraw).mp hparse
  obtain ⟨tally, hnamed, hindexes, hnames⟩ := analyze_transaction_named
    (fun map hmap => Psbt.sorted_of_mem_maps hdescribes hmap) hanalysis
  obtain ⟨shown, hshown, hpairs⟩ := build_display_pairs_ok hpairs
  refine ⟨shown, hpairs, fun o ho => ?_⟩
  obtain ⟨e, he, rfl, output, script, houtput, hscript, -, haddress⟩ :=
    exists_of_forall₂ hshown ho
  rw [hindexes, hnames] at he
  refine ⟨output, script, houtput, hscript, haddress, fun name hname => ?_⟩
  obtain ⟨output', script', houtput', hscript', hauthentic⟩ := hnamed.2 _ he name hname
  cases houtput.symm.trans houtput'
  cases hscript.symm.trans hscript'
  exact hauthentic

end

namespace Alice

/-- A key is its encoding. -/
local instance : Xpub (Vector U8 78) where
  encode := id
  decode bytes := if bytes.length = 78 then some (array bytes 0 78) else none

def identity_pubkey : Bytes :=
  [0x02, 0xf9, 0x30, 0x8a, 0x01, 0x92, 0x58, 0xc3, 0x10, 0x49, 0x34, 0x4f, 0x85, 0xf8, 0x9d, 0x52,
   0x29, 0xb5, 0x31, 0xc8, 0x45, 0x83, 0x6f, 0x99, 0xb0, 0x86, 0x01, 0xf1, 0x13, 0xbc, 0xe0, 0x36,
   0xf9]

/-- The SHA-256 of what is hashed for this key under the name `Alice`. -/
def key_id : Bytes :=
  [0x71, 0x30, 0x85, 0xe7, 0x5f, 0x3f, 0xc6, 0x35, 0xbb, 0xb3, 0x60, 0x11, 0x81, 0x41, 0x4c, 0xf5,
   0x15, 0x20, 0x49, 0x6e, 0x60, 0x0d, 0xd8, 0x4d, 0x77, 0x10, 0xcb, 0x6f, 0x9a, 0x23, 0x02, 0x5b]

def tag : Bytes :=
  [0xd1, 0x0a, 0x4e, 0x26, 0xfd, 0xf0, 0xe2, 0x05, 0x3d, 0x8c, 0xd8, 0xcf, 0xa1, 0xdc, 0x49, 0x9d,
   0x51, 0xc2, 0x20, 0x18, 0xe7, 0xa7, 0x59, 0x1d, 0x1a, 0x1c, 0x6f, 0x40, 0x06, 0x75, 0x34, 0xd4]

def script : Bytes :=
  [0x00, 0x14, 0x75, 0x1e, 0x76, 0xe8, 0x19, 0x91, 0x96, 0xd4, 0x54, 0x94, 0x1c, 0x45, 0xd1, 0xb3,
   0xa3, 0x23, 0xf1, 0x43, 0x3b, 0xd6]

/-- The signature of that script with the secret key 3. -/
def signature : Bytes :=
  [0xc2, 0xf6, 0xde, 0x8e, 0xa5, 0xcc, 0x46, 0x89, 0x56, 0x9f, 0xd0, 0xca, 0x97, 0x76, 0x8e, 0x74,
   0x5e, 0xac, 0x0a, 0xe0, 0xfc, 0xab, 0x90, 0x1c, 0xc2, 0xe4, 0xaa, 0xf5, 0x6f, 0xeb, 0x68, 0x6a,
   0xcc, 0x21, 0xfe, 0xaf, 0x7b, 0x02, 0xae, 0xe9, 0xac, 0x6d, 0x24, 0x95, 0xa1, 0x3f, 0xd8, 0x76,
   0xc1, 0x5f, 0x5d, 0x21, 0x9c, 0x08, 0x3c, 0x87, 0xed, 0x71, 0x8f, 0x6d, 0xc6, 0x8f, 0x56, 0x74]

def msg : Bytes := SIGN_MAGIC ++ [6] ++ MSG_TYPE_OUTPUT ++ [22] ++ script

/-- A device on which the operations give, on the inputs in question, what they give. -/
def sdk : Sdk (Vector U8 78) where
  sha256 bytes :=
    if bytes = IDENTITY_KEY_MAGIC ++ [5] ++ as_bytes "Alice" ++ identity_pubkey then
      array key_id 0 32
    else Vector.replicate 32 0
  proof id' := if id'.toList = key_id then array tag 0 32 else Vector.replicate 32 0
  get_master_fingerprint := 0xf5acc2fd
  derive_hd_node _ := none
  resident_master_hd_node := some ⟨Vector.replicate 32 1, Vector.replicate 32 2⟩
  ckd_priv _ _ := none
  to_compressed _ := Vector.replicate 33 2
  fingerprint _ := 0xad85d955
  schnorr_verify pubkey msg' sig :=
    pubkey.toList = identity_pubkey ∧ msg' = msg ∧ sig.toList = signature
  xpub_to_string _ := ""
  confusion_score _ := 1
  to_cleartext _ := []

/-- There are no previous transactions. -/
def tx : Transactions Unit where
  deserialize _ := none
  compute_txid _ := Vector.replicate 32 0
  output _ := []
  hash160 _ := Vector.replicate 20 0
  address bytes :=
    if bytes = script then some "tb1qw508d6qejxtdg4y5r3zarvary0c5xw7kxpjzsx" else none

/-- No inputs, and one output of nothing that Alice signed. -/
def raw : Bytes :=
  Psbt.MAGIC ++
    [0x01, 0x02, 0x04, 0x02, 0x00, 0x00, 0x00, 0x01, 0x04, 0x01, 0x00, 0x01, 0x05, 0x01, 0x01,
      0x01, 0xfb, 0x04, 0x02, 0x00, 0x00, 0x00] ++
    [0x2a, 0xfc, 0x06] ++ as_bytes "IDAUTH" ++ [0x00] ++ identity_pubkey ++
      [0x26, 0x05] ++ as_bytes "Alice" ++ tag ++ [0x00] ++
    [0x01, 0x03, 0x08, 0x00, 0x00, 0x00, 0x00, 0x00, 0x00, 0x00, 0x00, 0x01, 0x04, 0x16] ++ script ++
    [0x2b, 0xfc, 0x06] ++ as_bytes "IDAUTH" ++ [0x00, 0x00] ++ identity_pubkey ++
      [0x40] ++ signature ++ [0x00]

def shown_pairs : List TagValue :=
  [⟨"Output 0", "Alice\n\ntb1qw508d6qejxtdg4y5r3zarvary0c5xw7kxpjzsx"⟩,
    ⟨"Amount", "0.00000000 TEST"⟩, ⟨"Fee", "0 TEST"⟩]

/-- What is displayed for a PSBT. -/
def displayed : Option (List TagValue) :=
  match Psbt.parse raw with
  | .ok psbt _ =>
      match analyze_transaction sdk tx psbt { answers := [] } with
      | .ok analysis ui =>
          match build_display_pairs tx true psbt analysis.summary ui with
          | .ok pairs _ => some pairs
          | _ => none
      | _ => none
  | _ => none

theorem output_names_authentic_alice : ∃ psbt rest, Psbt.parse raw = .ok psbt rest ∧
    ∃ (analysis : Analysis (Vector U8 78)) (shown : List ShownOutput),
      shown_pairs = account_pairs analysis.summary ++ shown.flatMap (ShownOutput.pairs true) ++
        [fee_pair analysis.summary] ∧
      ∀ o ∈ shown, ∃ output script, psbt.outputs[o.index]? = some output ∧
        output.script = some script ∧ tx.address script = some o.address ∧
        ∀ name, o.auth_name = some name → Authentic sdk psbt output script name := by
  have hshown : displayed = some shown_pairs := by decide +kernel
  unfold displayed at hshown
  split at hshown
  · next psbt rest hparse =>
      split at hshown
      · next analysis ui hanalysis =>
          split at hshown
          · next pairs ui' hpairs =>
              cases hshown
              exact ⟨psbt, rest, hparse, analysis,
                output_names_authentic sdk tx true (by decide +kernel) hparse hanalysis hpairs⟩
          · cases hshown
      · cases hshown
  · cases hshown

end Alice

end Vanadium.Bitcoin
