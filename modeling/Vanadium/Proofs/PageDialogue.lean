import Vanadium.Client.VanadiumClient
import Vanadium.Lib.Dialogue
import Vanadium.Proofs.ClientMemory
import Vanadium.Proofs.Messages
import Vanadium.Proofs.OutsourcedMem

/-!
# The dialogues about pages

The device asks for a page, or for a new root, and the client answers out of
its segment, with a proof that may take several messages. Both programs count
the proof elements on their own. Here they talk the same dialogue: what the
device asks is what the client waits for, and the proof put together from the
pieces is the one the client cut up.
-/

namespace Vanadium

open Lib Lib.Exec

/-! ## The two sides of a dialogue -/

instance (E : Type) : Line (OutsourcedMemory E) Bytes (Except InterruptError Bytes) where
  put replies sent m := { m with comm := { replies, sent } }

instance : Line Client.VAppEngine Client.APDUCommand (Option (Client.StatusWord × Bytes)) where
  put answers sent e := { e with transport := { answers, sent } }

/-- The device's messages, each with the client's answer to it. -/
abbrev Dialogue := List (Bytes × Bytes)

namespace Dialogue

/-- What the device says and hears. -/
def asked (d : Dialogue) : List (Bytes × Except InterruptError Bytes) :=
  d.map fun x => (x.1, .ok x.2)

/-- What the client hears first, if the device says `next` at the end. -/
def heard (d : Dialogue) (next : Client.StatusWord × Bytes) : Client.StatusWord × Bytes :=
  match d with
  | [] => next
  | (message, _) :: _ => (.interruptedExecution, message)

/-- What the client says, and hears next. -/
def served : Dialogue → Client.StatusWord × Bytes →
    List (Client.APDUCommand × Option (Client.StatusWord × Bytes))
  | [], _ => []
  | (_, answer) :: d, next =>
      (Client.apdu_continue answer, some (heard d next)) :: served d next

variable {d d' : Dialogue} {next : Client.StatusWord × Bytes}

theorem asked_append : asked (d ++ d') = asked d ++ asked d' := List.map_append

theorem heard_append : heard (d ++ d') next = heard d (heard d' next) := by
  cases d <;> rfl

theorem served_append : served (d ++ d') next = served d (heard d' next) ++ served d' next := by
  induction d with
  | nil => rfl
  | cons x d ih => rw [List.cons_append, served, served, heard_append, ih, List.cons_append]

theorem served_length : (served d next).length = d.length := by
  induction d with
  | nil => rfl
  | cons x d ih => rw [served, List.length_cons, List.length_cons, ih]

/-- The rest of a proof, in as many messages as it takes. -/
def continued (message : Bytes) (proof : List (HashOutput 32)) : Dialogue :=
  if proof = [] then []
  else
    let t := min proof.length ProofContinuedResponse.max_proof_size
    (message, ProofContinuedResponse.serialize
      { t := BitVec.ofNat 8 t, proof := proof.take t }) :: continued message (proof.drop t)
termination_by proof.length
decreasing_by
  rename_i h
  have := List.length_pos_of_ne_nil h
  have hmax : ProofContinuedResponse.max_proof_size = 18 := rfl
  rw [List.length_drop]
  omega

theorem continued_nil (message : Bytes) : continued message [] = [] := by
  rw [continued, if_pos rfl]

end Dialogue

open Dialogue

/-! ## The device's side -/

namespace OutsourcedMemory

variable {E : Type} {dev : Device} {m : OutsourcedMemory E}

theorem exchange_talks (message answer : Bytes) :
    Talks (exchange message) m (asked [(message, answer)]) answer m := fun _ _ => rfl

theorem with_hasher_talks {α : Type} (f : Hasher → α × Hasher) :
    Talks (with_hasher f) m [] (f m.hasher).1 { m with hasher := (f m.hasher).2 } :=
  fun _ _ => rfl

theorem chunk_toNat {n : ℕ} : (BitVec.ofNat 8 (min n ProofContinuedResponse.max_proof_size)).toNat =
    min n ProofContinuedResponse.max_proof_size := by
  have hmax : ProofContinuedResponse.max_proof_size = 18 := rfl
  rw [BitVec.toNat_ofNat]
  omega

theorem load_page_continue_talks {n : ℕ} : ∀ {fuel k : ℕ} {proof : List (HashOutput 32)}
    {v : MerkleInclusionProofVerifier 32} {m : OutsourcedMemory E}, k + proof.length = n →
    (continued GetPageProofContinuedMessage.serialize proof).length ≤ fuel →
    Talks (load_page.continue dev n v k fuel) m
      (asked (continued GetPageProofContinuedMessage.serialize proof))
      (v.feed_all dev.sha256 m.hasher proof).1
      { m with hasher := (v.feed_all dev.sha256 m.hasher proof).2 } := by
  intro fuel
  induction fuel with
  | zero =>
      intro k proof v m hk hfuel
      rw [continued] at hfuel ⊢
      split at hfuel
      · next hnil =>
          subst hnil
          rw [if_pos rfl, load_page.continue, if_neg (by simp at hk; omega)]
          exact .pure v
      · simp at hfuel
  | succ fuel ih =>
      intro k proof v m hk hfuel
      rw [continued] at hfuel ⊢
      split at hfuel
      · next hnil =>
          subst hnil
          rw [if_pos rfl, load_page.continue, if_neg (by simp at hk; omega)]
          exact .pure v
      · next hne =>
          have hpos := List.length_pos_of_ne_nil hne
          have hlen : (proof.take (min proof.length
              ProofContinuedResponse.max_proof_size)).length =
              min proof.length ProofContinuedResponse.max_proof_size := by
            rw [List.length_take]
            omega
          rw [if_neg hne, load_page.continue, if_pos (by omega)]
          refine (exchange_talks _ _).bind (.ofExcept_bind
            (ProofContinuedResponse.deserialize_serialize _) (.reject_bind ?_ ?_))
          · rw [chunk_toNat, hlen]
            simp
          · refine (with_hasher_talks _).quiet_bind ?_
            have hrest := @ih (k + min proof.length ProofContinuedResponse.max_proof_size)
              (proof.drop (min proof.length ProofContinuedResponse.max_proof_size))
              (v.feed_all dev.sha256 m.hasher (proof.take (min proof.length
                ProofContinuedResponse.max_proof_size))).1
              ({ m with hasher := (v.feed_all dev.sha256 m.hasher (proof.take
                (min proof.length ProofContinuedResponse.max_proof_size))).2 })
              (by rw [List.length_drop]; omega)
              (by simp only [List.length_cons] at hfuel; omega)
            rw [← MerkleInclusionProofVerifier.feed_all_append, List.take_append_drop] at hrest
            rw [chunk_toNat]
            exact hrest

theorem commit_page_at_continue_talks {n : ℕ} : ∀ {fuel k : ℕ} {proof : List (HashOutput 32)}
    {v : MerkleUpdateProofVerifier 32} {m : OutsourcedMemory E}, k + proof.length = n →
    (continued CommitPageProofContinuedMessage.serialize proof).length ≤ fuel →
    Talks (commit_page_at.continue dev n v k fuel) m
      (asked (continued CommitPageProofContinuedMessage.serialize proof))
      (v.feed_all dev.sha256 m.hasher proof).1
      { m with hasher := (v.feed_all dev.sha256 m.hasher proof).2 } := by
  intro fuel
  induction fuel with
  | zero =>
      intro k proof v m hk hfuel
      rw [continued] at hfuel ⊢
      split at hfuel
      · next hnil =>
          subst hnil
          rw [if_pos rfl, commit_page_at.continue, if_neg (by simp at hk; omega)]
          exact .pure v
      · simp at hfuel
  | succ fuel ih =>
      intro k proof v m hk hfuel
      rw [continued] at hfuel ⊢
      split at hfuel
      · next hnil =>
          subst hnil
          rw [if_pos rfl, commit_page_at.continue, if_neg (by simp at hk; omega)]
          exact .pure v
      · next hne =>
          have hpos := List.length_pos_of_ne_nil hne
          have hlen : (proof.take (min proof.length
              ProofContinuedResponse.max_proof_size)).length =
              min proof.length ProofContinuedResponse.max_proof_size := by
            rw [List.length_take]
            omega
          rw [if_neg hne, commit_page_at.continue, if_pos (by omega)]
          refine (exchange_talks _ _).bind (.ofExcept_bind
            (ProofContinuedResponse.deserialize_serialize _) (.reject_bind ?_ ?_))
          · rw [chunk_toNat, hlen]
            simp
          · refine (with_hasher_talks _).quiet_bind ?_
            have hrest := @ih (k + min proof.length ProofContinuedResponse.max_proof_size)
              (proof.drop (min proof.length ProofContinuedResponse.max_proof_size))
              (v.feed_all dev.sha256 m.hasher (proof.take (min proof.length
                ProofContinuedResponse.max_proof_size))).1
              ({ m with hasher := (v.feed_all dev.sha256 m.hasher (proof.take
                (min proof.length ProofContinuedResponse.max_proof_size))).2 })
              (by rw [List.length_drop]; omega)
              (by simp only [List.length_cons] at hfuel; omega)
            rw [← MerkleUpdateProofVerifier.feed_all_append, List.take_append_drop] at hrest
            rw [chunk_toNat]
            exact hrest

theorem page_hash_talks (dev : Device) (m : OutsourcedMemory E) (r : Record) :
    ∃ hasher, Talks (with_hasher fun h => get_page_hash dev.sha256 h r.2.toList r.1) m []
      (dev.sha256 (recordMessage r)) { m with hasher } := by
  have h := with_hasher_talks (m := m) fun h => get_page_hash dev.sha256 h r.2.toList r.1
  rw [get_page_hash_eq] at h
  exact ⟨_, h⟩

/-- The answer to `GetPage`, with the first elements of a proof. -/
def pageResponse (r : Record) (proof : List (HashOutput 32)) : GetPageResponse where
  page_data := r.2
  is_encrypted := r.1.isSome
  nonce := r.1.getD (Vector.replicate 12 0)
  n := BitVec.ofNat 8 proof.length
  t := BitVec.ofNat 8 (min proof.length GetPageResponse.max_proof_size)
  proof_kind := .merkle
  proof := proof.take (min proof.length GetPageResponse.max_proof_size)

theorem deserialize_pageResponse (r : Record) (proof : List (HashOutput 32)) :
    GetPageResponse.deserialize (pageResponse r proof).serialize = .ok (pageResponse r proof) := by
  have hmax : GetPageResponse.max_proof_size = 9 := rfl
  refine GetPageResponse.deserialize_serialize _ ?_ ?_
  · rw [pageResponse, BitVec.toNat_ofNat, List.length_take]
    omega
  · intro h
    obtain ⟨nonce, page⟩ := r
    cases nonce with
    | none => rfl
    | some nonce => cases h

/-- A page with its branch. -/
def getPage (kind : SectionKind) (i : U32) (r : Record) (proof : List (HashOutput 32)) :
    Dialogue :=
  (GetPageMessage.serialize ⟨kind, i⟩, (pageResponse r proof).serialize) ::
    continued GetPageProofContinuedMessage.serialize
      (proof.drop (min proof.length GetPageResponse.max_proof_size))

theorem load_page_talks {i : U32} {r : Record} {proof : List (HashOutput 32)} {page : Page}
    (hlen : proof.length < 256) (hopen : openRecord m.aes_ctr.key r = some page)
    (hver : ∀ hasher, ((begin_inclusion_proof m.merkle_root (dev.sha256 (recordMessage r)) i.toNat
      (checked_next_power_of_two m.n_pages.toNat)).feed_all dev.sha256 hasher
        proof).1.verified = true) :
    ∃ hasher, Talks (load_page dev i) m (asked (getPage m.section_kind i r proof))
      (page, dev.sha256 (recordMessage r)) { m with hasher } := by
  have hmax : GetPageResponse.max_proof_size = 9 := rfl
  have hn : (BitVec.ofNat 8 proof.length).toNat = proof.length := by
    rw [BitVec.toNat_ofNat]
    omega
  have ht : (BitVec.ofNat 8 (min proof.length GetPageResponse.max_proof_size)).toNat =
      min proof.length GetPageResponse.max_proof_size := by
    rw [BitVec.toNat_ofNat]
    omega
  have hnonce : (if (pageResponse r proof).is_encrypted then some (pageResponse r proof).nonce
      else none) = r.1 := by
    obtain ⟨nonce, data⟩ := r
    cases nonce <;> rfl
  obtain ⟨k, hk⟩ : ∃ k, k = min proof.length GetPageResponse.max_proof_size := ⟨_, rfl⟩
  obtain ⟨v, hv⟩ : ∃ v, v = begin_inclusion_proof m.merkle_root (dev.sha256 (recordMessage r))
    i.toNat (checked_next_power_of_two m.n_pages.toNat) := ⟨_, rfl⟩
  obtain ⟨h₁, hhash⟩ := page_hash_talks dev m r
  have hfeed : Talks (with_hasher fun h => v.feed_all dev.sha256 h (proof.take k))
      { m with hasher := h₁ } [] (v.feed_all dev.sha256 h₁ (proof.take k)).1
      { m with hasher := (v.feed_all dev.sha256 h₁ (proof.take k)).2 } := with_hasher_talks _
  have hrest {fuel : ℕ} (hfuel : (continued GetPageProofContinuedMessage.serialize
      (proof.drop k)).length ≤ fuel) :=
    @load_page_continue_talks E dev proof.length fuel k _
      (v.feed_all dev.sha256 h₁ (proof.take k)).1
      ({ m with hasher := (v.feed_all dev.sha256 h₁ (proof.take k)).2 })
      (by rw [List.length_drop]; omega) hfuel
  rw [← MerkleInclusionProofVerifier.feed_all_append, List.take_append_drop] at hrest
  have hverified : (v.feed_all dev.sha256 h₁ proof).1.verified = true := by
    rw [hv]
    exact hver h₁
  rw [getPage, ← hk]
  refine ⟨(v.feed_all dev.sha256 h₁ proof).2, .get_bind fun answers said => ?_⟩
  refine (exchange_talks _ _).bind (.ofExcept_bind (deserialize_pageResponse r proof) ?_)
  rw [hnonce]
  refine .quiet_bind hhash (.reject_bind ?_ ?_)
  · show ¬ (BitVec.ofNat 8 _).toNat ≠ (proof.take _).length
    rw [ht, List.length_take]
    omega
  rw [pageResponse, ← hk]
  rw [← hk] at ht
  dsimp only
  rw [hn, ht]
  subst hv
  refine .quiet_bind hfeed (.get_bind fun answers' said' => .bind_quiet (hrest ?_) ?_)
  · show _ ≤ (List.map Prod.snd (asked (continued _ _)) ++ answers').length + 1
    rw [List.length_append, List.length_map, asked, List.length_map]
    omega
  refine .reject_bind (by simp [hverified]) ?_
  obtain ⟨nonce, data⟩ := r
  cases nonce with
  | none =>
      cases hopen
      exact .pure _
  | some nonce =>
      simp only [openRecord] at hopen
      split at hopen
      · next plain hdec =>
          split at hopen
          · next hplain =>
              cases hopen
              exact .orElse_bind hdec (.reject_bind (not_not.mpr hplain) (.pure _))
          · cases hopen
      · cases hopen

/-- A new root with the branch of the page that was replaced. -/
def commitResponse (new_root : HashOutput 32) (proof : List (HashOutput 32)) :
    CommitPageProofResponse where
  n := BitVec.ofNat 8 proof.length
  t := BitVec.ofNat 8 (min proof.length CommitPageProofResponse.max_proof_size)
  new_root
  proof := proof.take (min proof.length CommitPageProofResponse.max_proof_size)

def commitPage (kind : SectionKind) (i : U32) (nonce : Vector U8 12) (data : Page)
    (new_root : HashOutput 32) (proof : List (HashOutput 32)) : Dialogue :=
  (CommitPageMessage.serialize ⟨kind, i, true, nonce, data⟩,
    (commitResponse new_root proof).serialize) ::
    continued CommitPageProofContinuedMessage.serialize
      (proof.drop (min proof.length CommitPageProofResponse.max_proof_size))

theorem commit_page_at_talks {s : ℕ} {c : CachedPage} {nonce : Vector U8 12} {data : Page}
    {new_root : HashOutput 32} {proof : List (HashOutput 32)} (hc : m.cached_pages[s]? = some c)
    (hvalid : c.valid = true)
    (henc : (m.aes_ctr.encrypt c.page.toList).1 = some (nonce, data.toList))
    (hpos : 0 < proof.length) (hlen : proof.length < 256)
    (hver : ∀ hasher, ((begin_update_proof m.merkle_root new_root c.page_hash
      (dev.sha256 (recordMessage (some nonce, data))) c.idx.toNat
      (n_pages_adjusted m.n_pages.toNat)).feed_all dev.sha256 hasher proof).1.verified = true) :
    ∃ hasher, Talks (commit_page_at dev s) m
      (asked (commitPage m.section_kind c.idx nonce data new_root proof)) ()
      { m with
        hasher, merkle_root := new_root, aes_ctr := (m.aes_ctr.encrypt c.page.toList).2 } := by
  have hmax : CommitPageProofResponse.max_proof_size = 17 := rfl
  obtain ⟨k, hk⟩ : ∃ k, k = min proof.length CommitPageProofResponse.max_proof_size := ⟨_, rfl⟩
  have hn : (BitVec.ofNat 8 proof.length).toNat = proof.length := by
    rw [BitVec.toNat_ofNat]
    omega
  have ht : (BitVec.ofNat 8 k).toNat = k := by
    rw [BitVec.toNat_ofNat]
    omega
  obtain ⟨m₁, hm₁⟩ : ∃ m₁, m₁ = { m with aes_ctr := (m.aes_ctr.encrypt c.page.toList).2 } :=
    ⟨_, rfl⟩
  obtain ⟨v, hv⟩ : ∃ v, v = begin_update_proof m.merkle_root new_root c.page_hash
    (dev.sha256 (recordMessage (some nonce, data))) c.idx.toNat
    (n_pages_adjusted m.n_pages.toNat) := ⟨_, rfl⟩
  obtain ⟨h₁, hhash⟩ := page_hash_talks dev m₁ (some nonce, data)
  have hfeed : Talks (with_hasher fun h => v.feed_all dev.sha256 h (proof.take k))
      { m₁ with hasher := h₁ } [] (v.feed_all dev.sha256 h₁ (proof.take k)).1
      { m₁ with hasher := (v.feed_all dev.sha256 h₁ (proof.take k)).2 } := with_hasher_talks _
  have hrest {fuel : ℕ} (hfuel : (continued CommitPageProofContinuedMessage.serialize
      (proof.drop k)).length ≤ fuel) :=
    @commit_page_at_continue_talks E dev proof.length fuel k _
      (v.feed_all dev.sha256 h₁ (proof.take k)).1
      ({ m₁ with hasher := (v.feed_all dev.sha256 h₁ (proof.take k)).2 })
      (by rw [List.length_drop]; omega) hfuel
  rw [← MerkleUpdateProofVerifier.feed_all_append, List.take_append_drop] at hrest
  have hverified : (v.feed_all dev.sha256 h₁ proof).1.verified = true := by
    rw [hv]
    exact hver h₁
  have hpage : data.toList.length = PAGE_SIZE := Vector.length_toList
  have hresp : CommitPageProofResponse.deserialize (commitResponse new_root proof).serialize =
    .ok (commitResponse new_root proof) := CommitPageProofResponse.deserialize_serialize _
  rw [commitResponse, ← hk] at hresp
  rw [commitPage, commitResponse, ← hk]
  refine ⟨(v.feed_all dev.sha256 h₁ proof).2, .get_bind fun answers said => ?_⟩
  refine .unwrap_bind hc (.assert_bind hvalid (.quiet_bind (t := m₁) (.modify fun _ _ => ?_)
    (.orElse_bind henc (.quiet_bind hhash (.assert_bind hpage ?_)))))
  · rw [hm₁]
    rfl
  rw [array_toList]
  refine (exchange_talks _ _).bind (.ofExcept_bind hresp ?_)
  dsimp only
  rw [hn, ht]
  refine .reject_bind ?_ (.reject_bind ?_ ?_)
  · intro h0
    rw [h0] at hn
    simp at hn
    omega
  · rw [List.length_take]
    omega
  subst hv
  refine .quiet_bind hfeed (.get_bind fun answers' said' => .bind_quiet (hrest ?_) ?_)
  · show _ ≤ (List.map Prod.snd (asked (continued _ _)) ++ answers').length + 1
    rw [List.length_append, List.length_map, asked, List.length_map]
    omega
  refine .reject_bind (by simp [hverified]) (.modify fun _ _ => ?_)
  subst hm₁
  rfl

/-- A page of code with its tag. -/
def tagResponse (page : Page) (hmac : HashOutput 32) : GetPageResponse where
  page_data := page
  is_encrypted := false
  nonce := Vector.replicate 12 0
  n := 1
  t := 1
  proof_kind := .hmac
  proof := [hmac]

def getTagged (i : U32) (page : Page) (hmac : HashOutput 32) : Dialogue :=
  [(GetPageMessage.serialize ⟨.code, i⟩, (tagResponse page hmac).serialize)]

theorem load_page_tagged_talks {i : U32} {page : Page} {hmac : HashOutput 32}
    (hcode : m.section_kind = .code)
    (htag : dev.compute_code_page_hmac (dev.get_vapp_auth_key m.vapp_hash) m.vapp_hash i
      (dev.sha256 (recordMessage (none, page))) = some hmac) :
    ∃ hasher, Talks (load_page dev i) m (asked (getTagged i page hmac))
      (page, dev.sha256 (recordMessage (none, page))) { m with hasher } := by
  obtain ⟨h₁, hhash⟩ := page_hash_talks dev m (none, page)
  refine ⟨h₁, .get_bind fun answers said => ?_⟩
  have hmessage : GetPageMessage.serialize ⟨.code, i⟩ =
      GetPageMessage.serialize ⟨m.section_kind, i⟩ := by rw [hcode]
  rw [getTagged, hmessage]
  refine Talks.bind_quiet (exchange_talks _ _) (.ofExcept_bind
    (GetPageResponse.deserialize_serialize (tagResponse page hmac) rfl fun _ => rfl) ?_)
  refine .quiet_bind hhash (.reject_bind (by simp [tagResponse]) (.reject_bind
    (by simp [tagResponse]) (.reject_bind (by simp [tagResponse]) (.reject_bind
    (not_not.mpr hcode) (.orElse_bind htag (.reject_bind (by simp [tagResponse])
    (.pure _)))))))

end OutsourcedMemory

/-! ## The client's side -/

namespace Client.VAppEngine

variable {e : VAppEngine} {next : StatusWord × Bytes}

theorem exchange_talks (answer : Bytes) (next : StatusWord × Bytes) :
    Talks (exchange (apdu_continue answer)) e [(apdu_continue answer, some next)] next e :=
  fun _ _ => rfl

theorem send_proof_talks {deserialize : Bytes → Except MessageDeserializationError Unit}
    {message : Bytes} (hread : deserialize message = .ok ()) {proof : List (HashOutput 32)}
    {last : StatusWord × Bytes} : ∀ {fuel offset : ℕ}, offset < proof.length →
      proof.length - offset ≤ fuel →
      Talks (send_proof deserialize proof last fuel offset) e
        (served (continued message (proof.drop offset)) next) next e := by
  intro fuel
  induction fuel with
  | zero => intro offset hlt hfuel; omega
  | succ fuel ih =>
      intro offset hlt hfuel
      have hmax : ProofContinuedResponse.max_proof_size = 18 := rfl
      have hne : proof.drop offset ≠ [] := by
        rw [← List.length_pos_iff, List.length_drop]
        omega
      rw [continued, if_neg hne, send_proof, if_pos hlt, served, List.length_drop,
        List.drop_drop]
      obtain ⟨t, ht⟩ : ∃ t, t = min (proof.length - offset) ProofContinuedResponse.max_proof_size :=
        ⟨_, rfl⟩
      simp only [← ht]
      refine (exchange_talks _ _).bind ?_
      by_cases hlast : offset + t ≥ proof.length
      · rw [List.drop_eq_nil_of_le hlast, continued_nil, heard, served, if_pos hlast]
        exact .pure _
      · have hmore : proof.drop (offset + t) ≠ [] := by
          rw [← List.length_pos_iff, List.length_drop]
          omega
        have hheard : heard (continued message (proof.drop (offset + t))) next =
            (.interruptedExecution, message) := by
          rw [continued, if_neg hmore]
          rfl
        rw [hheard]
        dsimp only
        rw [if_neg hlast]
        exact .reject_bind (by simp) (.ofExcept_bind hread (ih (by omega) (by omega)))

section
variable {kind : SectionKind} {i : U32} {r : Record} {proof : List (HashOutput 32)}

/-- A serialized page, taken apart again. -/
theorem get_serialized_page_parts (r : Record) :
    (get_serialized_page r.2.toList r.1).length = 1 + 12 + PAGE_SIZE ∧
      ((get_serialized_page r.2.toList r.1).getD 0 0 != 0) = r.1.isSome ∧
      array (get_serialized_page r.2.toList r.1) 1 12 = r.1.getD (Vector.replicate 12 0) ∧
      array (get_serialized_page r.2.toList r.1) 13 PAGE_SIZE = r.2 := by
  obtain ⟨nonce, page⟩ := r
  cases nonce with
  | none =>
      have h := array_append (List.replicate 13 0) page [] rfl
      rw [List.append_nil] at h
      refine ⟨?_, rfl, rfl, h⟩
      simp [get_serialized_page]
      omega
  | some nonce =>
      have hnonce := array_append [1] nonce page.toList rfl
      have hlen : (1 :: nonce.toList).length = 13 := by simp
      have hpage := array_append (1 :: nonce.toList) page [] hlen
      rw [List.append_nil] at hpage
      refine ⟨?_, rfl, hnonce, hpage⟩
      simp [get_serialized_page]
      omega

theorem with_proof_talks (hlen : proof.length < 256) :
    Talks (process_get_page.with_proof proof r.1.isSome (r.1.getD (Vector.replicate 12 0)) r.2) e
      (served (OutsourcedMemory.getPage kind i r proof) next) next e := by
  have hmax : GetPageResponse.max_proof_size = 9 := rfl
  obtain ⟨k, hk⟩ : ∃ k, k = min proof.length GetPageResponse.max_proof_size := ⟨_, rfl⟩
  have hn : (BitVec.ofNat 8 proof.length).toNat = proof.length := by
    rw [BitVec.toNat_ofNat]
    omega
  have ht : (BitVec.ofNat 8 k).toNat = k := by
    rw [BitVec.toNat_ofNat]
    omega
  rw [OutsourcedMemory.getPage, OutsourcedMemory.pageResponse, ← hk, served]
  unfold process_get_page.with_proof
  simp only [← hk, ht]
  refine (exchange_talks _ _).bind ?_
  by_cases hmore : k < proof.length
  · have hne : proof.drop k ≠ [] := by
      rw [← List.length_pos_iff, List.length_drop]
      omega
    have hheard : heard (continued GetPageProofContinuedMessage.serialize (proof.drop k)) next =
        (.interruptedExecution, GetPageProofContinuedMessage.serialize) := by
      rw [continued, if_neg hne]
      rfl
    have hlt : BitVec.ofNat 8 k < BitVec.ofNat 8 proof.length := by
      rw [BitVec.lt_def, hn, ht]
      exact hmore
    rw [hheard, if_pos hlt]
    exact .reject_bind (by simp [GetPageProofContinuedMessage.serialize]) (.ofExcept_bind
      (deserialize_bare_toU8 .getPageProofContinued)
      (send_proof_talks (deserialize_bare_toU8 .getPageProofContinued) hmore (by omega)))
  · have hge : ¬ BitVec.ofNat 8 k < BitVec.ofNat 8 proof.length := by
      rw [BitVec.lt_def, hn, ht]
      exact hmore
    rw [List.drop_eq_nil_of_le (by omega), continued_nil, heard, served, if_neg hge]
    exact .pure _

/-- What is said to the VM leaves the table of the code pages' tags alone. -/
@[simp] theorem put_code_hmacs (answers : List (Option (StatusWord × Bytes)))
    (said : List APDUCommand) : (Line.put answers said e).code_hmacs = e.code_hmacs :=
  rfl

theorem process_get_page_talks
    (hget : (e.segment kind).get_page i = .ok (get_serialized_page r.2.toList r.1, proof))
    (hlen : proof.length < 256) (hclear : kind = .code → e.code_hmacs = none) :
    Talks (process_get_page (GetPageMessage.serialize ⟨kind, i⟩)) e
      (served (OutsourcedMemory.getPage kind i r proof) next) next e := by
  obtain ⟨hsize, hflag, hnonce, hpage⟩ := get_serialized_page_parts r
  refine .ofExcept_bind (GetPageMessage.deserialize_serialize _) (.get_bind fun _ _ => ?_)
  refine .ofExcept_bind hget (.assert_bind hsize ?_)
  dsimp only
  rw [hflag, hnonce, hpage]
  cases kind with
  | code =>
      simp only [put_code_hmacs, hclear rfl]
      exact with_proof_talks hlen
  | data => exact with_proof_talks hlen
  | stack => exact with_proof_talks hlen

theorem process_get_page_tagged_talks {page : Page} {hmac : HashOutput 32}
    {code_hmacs : List (HashOutput 32)}
    (hget : e.code_seg.get_page i = .ok (get_serialized_page page.toList none, proof))
    (htable : e.code_hmacs = some code_hmacs) (htag : code_hmacs[i.toNat]? = some hmac) :
    Talks (process_get_page (GetPageMessage.serialize ⟨.code, i⟩)) e
      (served (OutsourcedMemory.getTagged i page hmac) next) next e := by
  obtain ⟨hsize, hflag, hnonce, hpage⟩ := get_serialized_page_parts (none, page)
  refine .ofExcept_bind (GetPageMessage.deserialize_serialize _) (.get_bind fun _ _ => ?_)
  refine .ofExcept_bind hget (.assert_bind hsize ?_)
  dsimp only
  rw [hflag, hnonce, hpage]
  simp only [put_code_hmacs, htable]
  exact .reject_bind (by simp) (.reject_bind (by simp) (.orElse_bind htag (exchange_talks _ _)))

theorem process_commit_page_talks {sha256 : Bytes → HashOutput 32} {nonce : Vector U8 12}
    {data : Page} {new_root : HashOutput 32} {seg : MemorySegment} (hkind : kind ≠ .code)
    (hstore : (e.segment kind).store_page sha256 i
      (get_serialized_page data.toList (some nonce)) = .ok ((proof, new_root), seg))
    (hlen : proof.length < 256) :
    Talks (process_commit_page sha256 (CommitPageMessage.serialize ⟨kind, i, true, nonce, data⟩)) e
      (served (OutsourcedMemory.commitPage kind i nonce data new_root proof) next) next
      (e.set_segment seg kind) := by
  have hmax : CommitPageProofResponse.max_proof_size = 17 := rfl
  obtain ⟨k, hk⟩ : ∃ k, k = min proof.length CommitPageProofResponse.max_proof_size := ⟨_, rfl⟩
  have hn : (BitVec.ofNat 8 proof.length).toNat = proof.length := by
    rw [BitVec.toNat_ofNat]
    omega
  have ht : (BitVec.ofNat 8 k).toNat = k := by
    rw [BitVec.toNat_ofNat]
    omega
  rw [OutsourcedMemory.commitPage, OutsourcedMemory.commitResponse, ← hk, served]
  refine .ofExcept_bind (CommitPageMessage.deserialize_serialize _ (by simp)) ?_
  apply Talks.congr (t := e.set_segment seg kind)
  rotate_left
  · intro answers said
    have hput : VAppEngine.segment (Line.put answers said e) kind = e.segment kind := by
      cases kind <;> rfl
    have hset : VAppEngine.set_segment (Line.put answers said e) seg kind =
        Line.put answers said (e.set_segment seg kind) := by
      cases kind <;> rfl
    rw [Exec.get_bind, Exec.reject_bind_neg hkind, Exec.assert_bind_pos rfl, hput]
    refine (Exec.ofExcept_bind_eq_ok hstore).trans ?_
    dsimp only
    rw [Exec.set_bind, hset]
  simp only [← hk, ht]
  refine (exchange_talks _ _).bind ?_
  by_cases hmore : k < proof.length
  · have hne : proof.drop k ≠ [] := by
      rw [← List.length_pos_iff, List.length_drop]
      omega
    have hheard : heard (continued CommitPageProofContinuedMessage.serialize (proof.drop k)) next =
        (.interruptedExecution, CommitPageProofContinuedMessage.serialize) := by
      rw [continued, if_neg hne]
      rfl
    have hlt : BitVec.ofNat 8 k < BitVec.ofNat 8 proof.length := by
      rw [BitVec.lt_def, hn, ht]
      exact hmore
    rw [hheard]
    dsimp only
    rw [if_pos ⟨hlt, rfl, by simp [CommitPageProofContinuedMessage.serialize]⟩]
    exact .ofExcept_bind (deserialize_bare_toU8 .commitPageProofContinued)
      (send_proof_talks (deserialize_bare_toU8 .commitPageProofContinued) hmore (by omega))
  · have hge : ¬ BitVec.ofNat 8 k < BitVec.ofNat 8 proof.length := by
      rw [BitVec.lt_def, hn, ht]
      exact hmore
    rw [List.drop_eq_nil_of_le (by omega), continued_nil, heard, served, if_neg fun h => hge h.1]
    exact .pure _

end

end Client.VAppEngine

end Vanadium
