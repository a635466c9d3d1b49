import Vanadium.Bitcoin.Register
import Vanadium.Proofs.Registration

/-!
# The labels of the keys of an account

When an account is registered, its keys are shown with labels: `our key` for a
key of the device, `dummy` for the point that nobody has the secret key of, and
otherwise the name of an identity that signed for the key. The names of
identities are those that the user approved. They are not kept apart from the
two labels of the device's own, so a label can be either of the two things.
-/

namespace Vanadium.Bitcoin

open Lib Bip388

variable {X : Type} [Xpub X]

/-! ## What labels say -/

/-- The device derives the key, with its chain code, at the origin that it claims. -/
def Ours (sdk : Sdk X) (key_info : KeyInformation X) : Prop :=
  ∃ origin tree node, key_info.origin_info = some origin ∧
    sdk.master_fingerprint tree = .ok origin.fingerprint ∧
    sdk.derive_hd_node_in tree origin.derivation_path = .ok node ∧
    compressed_pubkey key_info.pubkey = sdk.to_compressed node.privkey ∧
    chain_code key_info.pubkey = node.chaincode

/-- The key is the point that nobody has the secret key of. -/
def Dummy (key_info : KeyInformation X) : Prop :=
  (compressed_pubkey key_info.pubkey).toList = NUMS_COMPRESSED_PUBKEY

/-- There is a signature of the key by an identity key. -/
def SignedBy (sdk : Sdk X) (key_info : KeyInformation X) (identity : IdentityKey) : Prop :=
  ∃ msg sig, build_identity_message MSG_TYPE_XPUB (xpub_bytes key_info.pubkey) = .ok msg ∧
    sdk.schnorr_verify identity.compressed msg sig = true

/-! ## Registrations so far -/

inductive RegistrationRequest (X : Type) where
  | identity (name : Name) (pubkey : Bytes)
  | account (name : Name) (wallet_policy : WalletPolicy X)
      (registered_identities : Option (List RegisteredIdentityEntry))
      (key_signatures : Option (List (Option IdentitySignature))) (show_cleartext : Bool)

namespace RegistrationRequest

def handle (sdk : Sdk X) : RegistrationRequest X → Handler Registered
  | identity name pubkey => handle_register_identity_key sdk name pubkey
  | account name wallet_policy registered_identities key_signatures show_cleartext =>
      handle_register_account sdk name wallet_policy registered_identities key_signatures
        show_cleartext

/-- What the request is to register, and under which name. -/
def Asks (name : Name) (object : Registerable X) : RegistrationRequest X → Prop
  | identity name' pubkey => name' = name ∧
      ∃ identity_key, object = .identity identity_key ∧ identity_key.compressed.toList = pubkey
  | account name' wallet_policy _ _ _ => name' = name ∧ object = .account wallet_policy

end RegistrationRequest

/-- The requests that a device was sent, with the answers of its user to the reviews. -/
abbrev History (X : Type) := List (RegistrationRequest X × List Bool)

/-- The identifiers that the device gave out tags of. -/
def issued (sdk : Sdk X) (history : History X) : List (Vector U8 32) :=
  history.filterMap fun entry =>
    match entry.1.handle sdk { answers := entry.2 } with
    | .ok r _ => some r.id
    | _ => none

/-- The user approved the registration of the object under the name. -/
def Approved (sdk : Sdk X) (history : History X) (name : Name) (object : Registerable X) : Prop :=
  ∃ entry ∈ history, entry.1.Asks name object ∧
    ∃ ui, entry.1.handle sdk { answers := entry.2 } = .ok (registered sdk name object) ui

/-- The label says what the key is, or it is the name of an identity that signed for it. -/
inductive Truthful (sdk : Sdk X) (history : History X) (key_info : KeyInformation X) :
    String → Prop
  | ours : Ours sdk key_info → Truthful sdk history key_info "our key"
  | dummy : Dummy key_info → Truthful sdk history key_info "dummy"
  | signer (name : Name) (identity : IdentityKey) :
      Approved sdk history name (.identity identity) → SignedBy sdk key_info identity →
        Truthful sdk history key_info name.str

/-- The device accepts the proof of an entry that is sent with a request. -/
def Accepted (sdk : Sdk X) (entry : RegisteredIdentityEntry) (identity : IdentityKey) : Prop :=
  identity.compressed.toList = entry.pubkey ∧
    entry.por = ((Registerable.identity identity : Registerable X).proof_of_registration sdk.sha256
      sdk.proof entry.name).toList

/-- Tags are not forged: the host has a tag because the device gave it out. -/
def Unforged (sdk : Sdk X) (history : History X) (entries : List RegisteredIdentityEntry) : Prop :=
  ∀ entry ∈ entries, ∀ identity : IdentityKey, Accepted sdk entry identity →
    (Registerable.identity identity : Registerable X).registration_id sdk.sha256 entry.name ∈
      issued sdk history

/-- The hashes of the texts in question do not collide. -/
def CollisionFree (sdk : Sdk X) (history : History X) (entries : List RegisteredIdentityEntry) :
    Prop :=
  ∀ entry ∈ entries, ∀ identity : IdentityKey, Accepted sdk entry identity →
    ∀ name object, Approved sdk history name object →
      sdk.sha256 ((Registerable.identity identity : Registerable X).preimage entry.name) =
          sdk.sha256 (object.preimage name) →
        (Registerable.identity identity : Registerable X).preimage entry.name =
          object.preimage name

section
variable {sdk : Sdk X} {history : History X} {ui ui' : Ui}

theorem IdentityKey.new_compressed {compressed : Vector U8 33} {identity : IdentityKey}
    (h : IdentityKey.new compressed = some identity) : identity.compressed = compressed := by
  unfold IdentityKey.new at h
  split at h
  · cases h
  · rw [← Option.some.inj h]

/-! ## What was approved -/

theorem review_pairs_shown (pairs : List TagValue) (ui : Ui) :
    (review_pairs pairs ui).state.shown = pairs :: ui.shown := by
  unfold review_pairs
  cases ui.answers <;> rfl

/-- A tag is given out for what was asked for. -/
theorem RegistrationRequest.handle_ok {request : RegistrationRequest X} {r : Registered}
    (h : request.handle sdk ui = .ok r ui') :
    ∃ name object, request.Asks name object ∧ r = registered sdk name object := by
  cases request with
  | identity name pubkey =>
      simp only [handle, handle_register_identity_key] at h
      obtain ⟨-, h⟩ := Exec.reject_bind_ok.mp h
      obtain ⟨compressed, hcompressed, h⟩ := Exec.orElse_bind_ok.mp h
      obtain ⟨identity_key, hkey, h⟩ := Exec.orElse_bind_ok.mp h
      obtain ⟨approved, ui₁, -, h⟩ := Exec.bind_ok.mp h
      obtain ⟨-, h⟩ := Exec.reject_bind_ok.mp h
      cases h
      refine ⟨name, .identity identity_key, ⟨rfl, identity_key, rfl, ?_⟩, rfl⟩
      rw [IdentityKey.new_compressed hkey, try_into_eq_some.mp hcompressed]
  | account name wallet_policy registered_identities key_signatures show_cleartext =>
      simp only [handle, handle_register_account] at h
      obtain ⟨labels, ui₁, -, h⟩ := Exec.bind_ok.mp h
      obtain ⟨approved, ui₂, -, h⟩ := Exec.bind_ok.mp h
      obtain ⟨-, h⟩ := Exec.reject_bind_ok.mp h
      cases h
      exact ⟨name, .account wallet_policy, ⟨rfl, rfl⟩, rfl⟩

theorem approved_of_issued {id : Vector U8 32} (h : id ∈ issued sdk history) :
    ∃ name object, Approved sdk history name object ∧
      id = object.registration_id sdk.sha256 name := by
  obtain ⟨entry, hmem, hentry⟩ := List.mem_filterMap.mp h
  split at hentry
  · next r ui hrun =>
      obtain ⟨name, object, hasks, rfl⟩ := RegistrationRequest.handle_ok hrun
      exact ⟨name, object, ⟨entry, hmem, hasks, ui, hrun⟩, (Option.some.inj hentry).symm⟩
  · cases hentry

/-- An identity whose proof is accepted was registered under its name. -/
theorem approved_of_accepted {entries : List RegisteredIdentityEntry}
    (hmac : Unforged sdk history entries) (hhash : CollisionFree sdk history entries)
    {entry : RegisteredIdentityEntry} (hmem : entry ∈ entries) {identity : IdentityKey}
    (h : Accepted sdk entry identity) :
    Approved sdk history entry.name (.identity identity) := by
  obtain ⟨name, object, happroved, hid⟩ := approved_of_issued (hmac entry hmem identity h)
  have hpre := hhash entry hmem identity h name object happroved hid
  cases object with
  | account wallet_policy => exact absurd hpre.symm (preimages_differ wallet_policy identity _ _)
  | identity identity' =>
      obtain ⟨hname, hkey⟩ := identity_preimage_inj hpre
      rw [hname, hkey]
      exact happroved

/-! ## Names of signers -/

theorem still_identity_key_names :
    ∀ entries : List RegisteredIdentityEntry, Exec.Still (identity_key_names sdk entries)
  | [] => .pure []
  | entry :: entries => by
      rw [identity_key_names]
      refine (Exec.Still.orElse _ _).bind fun pubkey => ?_
      refine (Exec.Still.orElse _ _).bind fun ik => ?_
      refine (Exec.Still.orElse _ _).bind fun por => ?_
      refine (Exec.Still.reject _ _).bind fun _ => ?_
      exact (still_identity_key_names entries).bind fun names => .pure _

/-- The names are those of accepted entries. -/
theorem identity_key_names_ok : ∀ {entries : List RegisteredIdentityEntry}
    {names : List (Vector U8 33 × Name)},
    identity_key_names sdk entries ui = .ok names ui' → ∀ e ∈ names,
      ∃ entry ∈ entries, Accepted sdk entry ⟨e.1⟩ ∧ entry.name = e.2 := by
  intro entries
  induction entries generalizing ui ui' with
  | nil =>
      intro names h e he
      cases h
      cases he
  | cons entry entries ih =>
      intro names h e he
      rw [identity_key_names] at h
      obtain ⟨pubkey, hpubkey, h⟩ := Exec.orElse_bind_ok.mp h
      obtain ⟨ik, hik, h⟩ := Exec.orElse_bind_ok.mp h
      obtain ⟨por, hpor, h⟩ := Exec.orElse_bind_ok.mp h
      obtain ⟨hexpected, h⟩ := Exec.reject_bind_ok.mp h
      obtain ⟨names', ui₁, hnames, h⟩ := Exec.bind_ok.mp h
      cases h
      rcases List.mem_cons.mp he with rfl | he
      · have hkey : ik = ⟨pubkey⟩ := by
          rw [← IdentityKey.new_compressed hik]
        refine ⟨entry, List.mem_cons_self, ⟨try_into_eq_some.mp hpubkey, ?_⟩, rfl⟩
        rw [← try_into_eq_some.mp hpor, not_not.mp hexpected, hkey]
      · obtain ⟨entry', hmem, hentry'⟩ := ih hnames e he
        exact ⟨entry', List.mem_cons_of_mem _ hmem, hentry'⟩

theorem still_signer_name (names : List (Vector U8 33 × Name)) (key_info : KeyInformation X) :
    ∀ sig_opt : Option IdentitySignature, Exec.Still (signer_name sdk names key_info sig_opt)
  | none => .pure none
  | some sig => by
      rw [signer_name]
      refine (Exec.Still.orElse _ _).bind fun identity_pubkey => ?_
      refine (Exec.Still.orElse _ _).bind fun signature => ?_
      refine (Exec.Still.ofExcept _ _).bind fun msg => ?_
      exact (Exec.Still.reject _ _).bind fun _ => .pure _

theorem still_signer_names (names : List (Vector U8 33 × Name)) :
    ∀ (keys : List (KeyInformation X)) (sigs : List (Option IdentitySignature)),
      Exec.Still (signer_names sdk names keys sigs)
  | [], _ => .pure []
  | _ :: _, [] => .pure _
  | key_info :: keys, sig_opt :: sigs =>
      (still_signer_name names key_info sig_opt).bind fun _ =>
        (still_signer_names names keys sigs).bind fun _ => .pure _

theorem signer_name_ok {names : List (Vector U8 33 × Name)} {key_info : KeyInformation X}
    {sig_opt : Option IdentitySignature} {label : String}
    (h : signer_name sdk names key_info sig_opt ui = .ok (some label) ui') :
    ∃ e ∈ names, e.2.str = label ∧ SignedBy sdk key_info ⟨e.1⟩ := by
  cases sig_opt with
  | none => cases h
  | some sig =>
      rw [signer_name] at h
      obtain ⟨identity_pubkey, -, h⟩ := Exec.orElse_bind_ok.mp h
      obtain ⟨signature, -, h⟩ := Exec.orElse_bind_ok.mp h
      obtain ⟨msg, hmsg, h⟩ := Exec.ofExcept_bind_ok.mp h
      obtain ⟨hverify, h⟩ := Exec.reject_bind_ok.mp h
      injection h with hfind
      obtain ⟨e, he, hlabel⟩ := Option.map_eq_some_iff.mp hfind
      have hkey : e.1 = identity_pubkey := by simpa using List.find?_some he
      refine ⟨e, List.mem_of_find?_eq_some he, hlabel, msg, signature, hmsg, ?_⟩
      rw [hkey]
      simpa using hverify

/-- Every name is that of the signer of its key. -/
theorem signer_names_ok {names : List (Vector U8 33 × Name)} :
    ∀ {keys : List (KeyInformation X)} {sigs : List (Option IdentitySignature)}
      {labels : List (Option String)} {ui ui' : Ui},
      signer_names sdk names keys sigs ui = .ok labels ui' →
        ∀ {i : ℕ} {key_info : KeyInformation X} {label : String}, keys[i]? = some key_info →
          labels[i]? = some (some label) →
            ∃ e ∈ names, e.2.str = label ∧ SignedBy sdk key_info ⟨e.1⟩ := by
  intro keys
  induction keys with
  | nil =>
      intro sigs labels ui ui' h i key_info label hkey
      simp at hkey
  | cons key keys ih =>
      intro sigs labels ui ui' h i key_info label hkey hlabel
      cases sigs with
      | nil =>
          rw [signer_names] at h
          injection h with h
          have hnone : ∀ {l : List (KeyInformation X)} {i : ℕ} {label : String},
              (none :: l.map fun _ => none)[i]? ≠ some (some label) := by
            intro l i label
            cases i <;> simp [List.getElem?_replicate]
          rw [← h] at hlabel
          exact absurd hlabel hnone
      | cons sig_opt sigs =>
          rw [signer_names] at h
          obtain ⟨name, ui₁, hname, h⟩ := Exec.bind_ok.mp h
          obtain ⟨labels', ui₂, hrest, h⟩ := Exec.bind_ok.mp h
          cases h
          cases i with
          | succ i =>
              rw [List.getElem?_cons_succ] at hkey hlabel
              exact ih hrest hkey hlabel
          | zero =>
              rw [List.getElem?_cons_zero] at hkey hlabel
              cases hkey
              cases hlabel
              exact signer_name_ok hname

/-! ## Labels of the device -/

theorem ours_of_property {standard_fpr resident_fpr : U32} {key_info : KeyInformation X}
    {label : String} (hstandard : sdk.master_fingerprint .standard = .ok standard_fpr)
    (hresident : sdk.master_fingerprint .resident = .ok resident_fpr)
    (h : property_label sdk standard_fpr resident_fpr key_info = some label) :
    (label = "our key" ∧ Ours sdk key_info) ∨ (label = "dummy" ∧ Dummy key_info) := by
  unfold property_label at h
  split at h
  · next hdummy => exact .inr ⟨(Option.some.inj h).symm, hdummy⟩
  · split at h
    · cases h
    · next origin horigin =>
        split at h
        · cases h
        · next tree htree =>
            split at h
            · cases h
            · next node hnode =>
                split at h
                · next hsame =>
                    refine .inl ⟨(Option.some.inj h).symm, origin, tree, node, horigin, ?_, hnode,
                      hsame.1, hsame.2⟩
                    unfold tree_of_fingerprint at htree
                    split at htree
                    · next hfpr =>
                        cases htree
                        rw [hstandard, hfpr]
                    · split at htree
                      · next hfpr =>
                          cases htree
                          rw [hresident, hfpr]
                      · cases htree
                · cases h

theorem still_key_labels (wallet_policy : WalletPolicy X)
    (entries : Option (List RegisteredIdentityEntry))
    (sigs : Option (List (Option IdentitySignature))) :
    Exec.Still (key_labels sdk wallet_policy entries sigs) := by
  unfold key_labels
  refine (still_identity_key_names _).bind fun names => ?_
  refine (still_signer_names _ _ _).bind fun key_auth_names => ?_
  refine (Exec.Still.ofExcept _ _).bind fun standard_fpr => ?_
  exact (Exec.Still.ofExcept _ _).bind fun resident_fpr => .pure _

/-- The labels of the keys. -/
theorem key_labels_ok {wallet_policy : WalletPolicy X}
    {entries : Option (List RegisteredIdentityEntry)}
    {sigs : Option (List (Option IdentitySignature))} {labels : List (Option String)}
    (hmac : Unforged sdk history (entries.getD []))
    (hhash : CollisionFree sdk history (entries.getD []))
    (h : key_labels sdk wallet_policy entries sigs ui = .ok labels ui') {i : ℕ}
    {key_info : KeyInformation X} {label : String}
    (hkey : wallet_policy.key_information[i]? = some key_info)
    (hlabel : labels[i]? = some (some label)) : Truthful sdk history key_info label := by
  unfold key_labels at h
  obtain ⟨names, ui₁, hnames, h⟩ := Exec.bind_ok.mp h
  obtain ⟨key_auth_names, ui₂, hauth, h⟩ := Exec.bind_ok.mp h
  obtain ⟨standard_fpr, hstandard, h⟩ := Exec.ofExcept_bind_ok.mp h
  obtain ⟨resident_fpr, hresident, h⟩ := Exec.ofExcept_bind_ok.mp h
  cases h
  rw [label_keys, List.getElem?_zipWith, hkey] at hlabel
  cases hname : key_auth_names[i]? with
  | none => simp [hname] at hlabel
  | some name =>
      rw [hname] at hlabel
      cases name with
      | some signer =>
          cases hlabel
          obtain ⟨e, he, rfl, hsigned⟩ := signer_names_ok hauth hkey hname
          obtain ⟨entry, hmem, haccepted, hentry⟩ := identity_key_names_ok hnames e he
          rw [← hentry]
          exact .signer entry.name ⟨e.1⟩ (approved_of_accepted hmac hhash hmem haccepted) hsigned
      | none =>
          rcases ours_of_property hstandard hresident (Option.some.inj hlabel) with
            ⟨rfl, h⟩ | ⟨rfl, h⟩
          · exact .ours h
          · exact .dummy h

/-- Whatever was registered before, if the account is shown at all then each key is shown
with a label that is truthful. A label of the device's own is about the key itself, or the
user gave an identity the same name. -/
theorem labels_truthful (sdk : Sdk X) (history : History X) (name : Name)
    (wallet_policy : WalletPolicy X) (entries : Option (List RegisteredIdentityEntry))
    (sigs : Option (List (Option IdentitySignature))) (show_cleartext : Bool) (ui : Ui)
    (hmac : Unforged sdk history (entries.getD []))
    (hhash : CollisionFree sdk history (entries.getD [])) :
    (handle_register_account sdk name wallet_policy entries sigs show_cleartext ui).state.shown =
        ui.shown ∨
      ∃ labels, (handle_register_account sdk name wallet_policy entries sigs show_cleartext
          ui).state.shown =
          wallet_policy_pairs sdk name wallet_policy labels show_cleartext :: ui.shown ∧
        ∀ (i : ℕ) (key_info : KeyInformation X) (label : String),
          wallet_policy.key_information[i]? = some key_info → labels[i]? = some (some label) →
            Truthful sdk history key_info label := by
  have hstill : (key_labels sdk wallet_policy entries sigs ui).state = ui :=
    still_key_labels wallet_policy entries sigs ui
  unfold handle_register_account
  cases hlabels : key_labels sdk wallet_policy entries sigs ui with
  | err e ui₁ =>
      rw [hlabels] at hstill
      rw [Exec.bind_apply_err hlabels]
      exact .inl (congrArg Ui.shown hstill)
  | stop w ui₁ =>
      rw [hlabels] at hstill
      rw [Exec.bind_apply_stop hlabels]
      exact .inl (congrArg Ui.shown hstill)
  | ok labels ui₁ =>
      have hui : ui₁ = ui := (still_key_labels wallet_policy entries sigs).ok hlabels
      rw [Exec.bind_apply_ok hlabels, hui]
      refine .inr ⟨labels, ?_, fun i key_info label => key_labels_ok hmac hhash hlabels⟩
      rw [Exec.state_bind fun approved => (Exec.Still.reject _ _).bind fun _ => .pure _]
      exact review_pairs_shown _ ui

end

/-! ## A foreign key called `our key` -/

namespace OurKey

/-- A key is its encoding. -/
local instance : Xpub (Vector U8 78) where
  encode := id
  decode bytes := if bytes.length = 78 then some (array bytes 0 78) else none

def identity_pubkey : Bytes :=
  [0x02, 0xf9, 0x30, 0x8a, 0x01, 0x92, 0x58, 0xc3, 0x10, 0x49, 0x34, 0x4f, 0x85, 0xf8, 0x9d, 0x52,
   0x29, 0xb5, 0x31, 0xc8, 0x45, 0x83, 0x6f, 0x99, 0xb0, 0x86, 0x01, 0xf1, 0x13, 0xbc, 0xe0, 0x36,
   0xf9]

/-- The SHA-256 of what is hashed for this key under the name `our key`. -/
def key_id : Bytes :=
  [0xbb, 0x84, 0x2a, 0xa1, 0x14, 0x54, 0xab, 0x71, 0x7d, 0x5d, 0x7f, 0xf9, 0x07, 0x62, 0x58, 0x48,
   0x79, 0xe5, 0x8d, 0x19, 0x53, 0x1b, 0xfb, 0x89, 0x29, 0xbf, 0x2d, 0xa9, 0xfc, 0x44, 0x1d, 0xfb]

def tag : Bytes :=
  [0x1f, 0x7a, 0xd9, 0x2e, 0xec, 0xc6, 0x1a, 0x21, 0x88, 0xd0, 0x9c, 0xb0, 0x02, 0x55, 0xc8, 0xf7,
   0x9f, 0x87, 0xe6, 0x15, 0x80, 0x7f, 0x87, 0x3f, 0xf2, 0xd2, 0x73, 0x68, 0x1b, 0x92, 0x79, 0x08]

/-- An extended public key of someone else. -/
def xpub : Bytes :=
  [0x04, 0x88, 0xb2, 0x1e, 0x00, 0x00, 0x00, 0x00, 0x00, 0x00, 0x00, 0x00, 0x00, 0x87, 0x3d, 0xff,
   0x81, 0xc0, 0x2f, 0x52, 0x56, 0x23, 0xfd, 0x1f, 0xe5, 0x16, 0x7e, 0xac, 0x3a, 0x55, 0xa0, 0x49,
   0xde, 0x3d, 0x31, 0x4b, 0xb4, 0x2e, 0xe2, 0x27, 0xff, 0xed, 0x37, 0xd5, 0x08, 0x03, 0x39, 0xa3,
   0x60, 0x13, 0x30, 0x15, 0x97, 0xda, 0xef, 0x41, 0xfb, 0xe5, 0x93, 0xa0, 0x2c, 0xc5, 0x13, 0xd0,
   0xb5, 0x55, 0x27, 0xec, 0x2d, 0xf1, 0x05, 0x0e, 0x2e, 0x8f, 0xf4, 0x9c, 0x85, 0xc2]

/-- The signature of that key with the secret key 3. -/
def signature : Bytes :=
  [0x78, 0x99, 0xc0, 0xc7, 0x98, 0xee, 0xfc, 0xf9, 0xe0, 0x76, 0x02, 0x4d, 0x90, 0xef, 0xe5, 0x4b,
   0x29, 0xa7, 0xa5, 0xc5, 0x43, 0xad, 0xd1, 0xe3, 0xf4, 0x34, 0x89, 0xd1, 0x27, 0x6c, 0xf4, 0x9a,
   0x72, 0xd7, 0x6d, 0x27, 0x8f, 0x42, 0xeb, 0x0d, 0x8a, 0x1c, 0xc5, 0x9e, 0x23, 0x90, 0x3c, 0x2f,
   0xc2, 0x46, 0xf5, 0xe3, 0xd7, 0xc4, 0x1d, 0xa1, 0xd0, 0xba, 0x63, 0xcb, 0x4c, 0x1f, 0x28, 0x46]

def name : Name := ⟨"our key", by decide +kernel⟩

def msg : Bytes := SIGN_MAGIC ++ [4] ++ MSG_TYPE_XPUB ++ [78] ++ xpub

/-- A device on which the operations give, on the inputs in question, what they give. -/
def sdk : Sdk (Vector U8 78) where
  sha256 bytes :=
    if bytes = IDENTITY_KEY_MAGIC ++ [7] ++ name.bytes ++ identity_pubkey then array key_id 0 32
    else Vector.replicate 32 0
  proof id' := if id'.toList = key_id then array tag 0 32 else Vector.replicate 32 0
  get_master_fingerprint := 0xf5acc2fd
  derive_hd_node _ := none
  resident_master_hd_node := some ⟨Vector.replicate 32 1, Vector.replicate 32 2⟩
  ckd_priv _ _ := none
  to_compressed _ := Vector.replicate 33 2
  fingerprint _ := 0xad85d955
  schnorr_verify pubkey msg' sig :=
    pubkey.toList = identity_pubkey ∧ msg' = msg ∧ sig.toList = signature
  xpub_to_string _ := "xpub661MyMwAqRbcFtXgS5sYJABqqG9YLmC4Q1Rdap9gSE8NqtwybGhePY2gZ29ESFjqJoCu1Rupje8YtGqsefD265TMg7usUDFdp6W1EGMcet8"
  confusion_score _ := 1
  to_cleartext _ := []

def key_info : KeyInformation (Vector U8 78) := { pubkey := array xpub 0 78, origin_info := none }

theorem template_parsed : ∃ rest, Bip388.from_str "wpkh(@0/**)".toList =
    .ok (.wpkh { key_type := .plainKey 0, num1 := 0, num2 := 1 }) rest := ⟨[], rfl⟩

def wallet_policy : WalletPolicy (Vector U8 78) where
  descriptor_template := .wpkh { key_type := .plainKey 0, num1 := 0, num2 := 1 }
  key_information := [key_info]
  descriptor_template_raw := "wpkh(@0/**)"
  parsed := template_parsed
  in_memory := by decide +kernel

def entry : RegisteredIdentityEntry := { pubkey := identity_pubkey, name, por := tag }

/-- The user has approved the identity key under the name. -/
def history : History (Vector U8 78) := [(.identity name identity_pubkey, [true])]

/-- The device gave out the tag of an identity named `our key`, and shows a key that it does
not derive as its own. -/
theorem our_key_foreign :
    issued sdk history = [array key_id 0 32] ∧
      (handle_register_account sdk name wallet_policy (some [entry])
        (some [some ⟨identity_pubkey, signature⟩]) false { answers := [true] }).state.shown =
          [[⟨"Account", "our key"⟩, ⟨"Descriptor template", "wpkh(@0/**)"⟩,
            ⟨"Key @0 (our key)", sdk.xpub_to_string key_info.pubkey⟩]] ∧
      ¬ Ours sdk key_info := by
  refine ⟨by decide +kernel, by decide +kernel, ?_⟩
  rintro ⟨origin, -, -, horigin, -⟩
  cases horigin

theorem key_of_toList {identity : IdentityKey}
    (h : identity.compressed.toList = identity_pubkey) :
    identity = ⟨array identity_pubkey 0 33⟩ := by
  cases identity with
  | mk compressed =>
      congr 1
      rw [← array_toList compressed]
      exact congrArg (array · 0 33) h

theorem unforged : Unforged sdk history [entry] := by
  intro e he identity h
  cases List.mem_singleton.mp he
  rw [key_of_toList h.1]
  decide +kernel

theorem collision_free : CollisionFree sdk history [entry] := by
  intro e he identity h name' object happroved _
  cases List.mem_singleton.mp he
  rw [key_of_toList h.1]
  obtain ⟨request, hrequest, hasks, -⟩ := happroved
  cases List.mem_singleton.mp hrequest
  obtain ⟨rfl, k, rfl, hk⟩ := hasks
  rw [key_of_toList hk]
  rfl

/-- There the label is that of the identity. -/
theorem labels_truthful_our_key :
    (handle_register_account sdk name wallet_policy (some [entry])
        (some [some ⟨identity_pubkey, signature⟩]) false { answers := [true] }).state.shown = [] ∨
      ∃ labels, (handle_register_account sdk name wallet_policy (some [entry])
          (some [some ⟨identity_pubkey, signature⟩]) false { answers := [true] }).state.shown =
          [wallet_policy_pairs sdk name wallet_policy labels false] ∧
        ∀ (i : ℕ) (key : KeyInformation (Vector U8 78)) (label : String),
          wallet_policy.key_information[i]? = some key → labels[i]? = some (some label) →
            Truthful sdk history key label :=
  labels_truthful sdk history name wallet_policy (some [entry])
    (some [some ⟨identity_pubkey, signature⟩]) false { answers := [true] } unforged collision_free

end OurKey

end Vanadium.Bitcoin
