import Vanadium.Proofs.Accumulator
import Vanadium.Proofs.AesCtr
import Vanadium.Vm.OutsourcedMem

/-!
# The host cannot lose, roll back, swap or forge a page

A writable section behaves as a plain array of pages. What links the cache,
the trusted root and the host is the invariant `Consistent`: the root is that
of some leaf sequence; a page in a valid slot is the current one, and its
recorded hash is its leaf; for any other page, whatever record has the hash in
its leaf opens to the current page. The host never occurs in it. It may answer
what it likes; an answer that gets past the verifiers has, by soundness of the
accumulator, a hash that is the leaf, and by collision freedom it is then the
record the leaf was made from.

The AES state is shared with another section, whose commits move the nonce
between two calls. Nothing here depends on the nonce: a record is decrypted
with the nonce it was committed with, under the same key.
-/

namespace Vanadium

open Lib

/-! ## Records

A leaf is made from a record: a page in the clear, or a nonce and a
ciphertext. -/

abbrev Record := Option (Vector U8 12) × Page

def recordMessage (r : Record) : Bytes :=
  0x00 :: (match r.1 with
    | some nonce => 0x01 :: nonce.toList
    | none => List.replicate 13 0x00) ++ r.2.toList

theorem recordMessage_inj {r r' : Record} (h : recordMessage r = recordMessage r') :
    r = r' := by
  obtain ⟨n, p⟩ := r
  obtain ⟨n', p'⟩ := r'
  have hp : ∀ {a b : Bytes}, a.length = b.length → a ++ p.toList = b ++ p'.toList →
      a = b ∧ p = p' := fun hl h => by
    obtain ⟨h1, h2⟩ := List.append_inj h hl
    exact ⟨h1, Vector.toList_inj.mp h2⟩
  cases n with
  | none =>
      cases n' with
      | none => rw [(hp (by simp) h).2]
      | some n' =>
          have := (hp (by simp) h).1
          simp [List.replicate_succ] at this
  | some n =>
      cases n' with
      | none =>
          have := (hp (by simp) h).1
          simp [List.replicate_succ] at this
      | some n' =>
          obtain ⟨h1, rfl⟩ := hp (by simp) h
          have : n.toList = n'.toList := by simpa using h1
          rw [Vector.toList_inj.mp this]

/-- The page a record stands for under a key. -/
def openRecord (key : AesKey) (r : Record) : Option Page :=
  match r.1 with
  | none => some r.2
  | some nonce =>
      match (AesCtr.new key).decrypt nonce r.2.toList with
      | some data => if data.length = PAGE_SIZE then some (array data 0 PAGE_SIZE) else none
      | none => none

theorem openRecord_total {key : AesKey} (h : ∀ b, (key.encrypt_block b).isSome) (r : Record) :
    ∃ page, openRecord key r = some page := by
  obtain ⟨nonce, data⟩ := r
  cases nonce with
  | none => exact ⟨data, rfl⟩
  | some nonce =>
      obtain ⟨plain, hplain, hlen⟩ := AesCtr.process_with_counter_total h data.toList
        (AesCtr.create_counter_block nonce 0)
      have hdec : (AesCtr.new key).decrypt nonce data.toList = some plain := hplain
      rw [Vector.length_toList] at hlen
      exact ⟨array plain 0 PAGE_SIZE, by simp only [openRecord, hdec, if_pos hlen]⟩

theorem get_page_hash_eq (sha256 : Bytes → HashOutput 32) (hasher : Hasher) (r : Record) :
    get_page_hash sha256 hasher r.2.toList r.1 =
      (sha256 (recordMessage r),
        { buffer := recordMessage r, digested := recordMessage r :: hasher.digested }) := by
  obtain ⟨n, p⟩ := r
  cases n <;>
    simp [get_page_hash, Hasher.reset, Hasher.update, Hasher.digest_inplace, recordMessage,
      List.replicate_succ]

namespace OutsourcedMemory

variable {E : Type}

/-! ## What the exchanges may change -/

/-- `m'` is `m` after some traffic with the host: the cache and the settings
are untouched, the key is the same, answers were used up and hashes added. -/
structure Frame (m m' : OutsourcedMemory E) : Prop where
  cached_pages : m'.cached_pages = m.cached_pages
  n_pages : m'.n_pages = m.n_pages
  is_readonly : m'.is_readonly = m.is_readonly
  section_kind : m'.section_kind = m.section_kind
  last_accessed_page : m'.last_accessed_page = m.last_accessed_page
  key : m'.aes_ctr.key = m.aes_ctr.key
  vapp_hash : m'.vapp_hash = m.vapp_hash
  replies : m'.comm.replies ⊆ m.comm.replies
  digested : m.hasher.digested ⊆ m'.hasher.digested

theorem Frame.refl (m : OutsourcedMemory E) : Frame m m :=
  ⟨rfl, rfl, rfl, rfl, rfl, rfl, rfl, List.Subset.refl _, List.Subset.refl _⟩

theorem Frame.trans {m₁ m₂ m₃ : OutsourcedMemory E} (h : Frame m₁ m₂) (h' : Frame m₂ m₃) :
    Frame m₁ m₃ :=
  ⟨h'.cached_pages.trans h.cached_pages, h'.n_pages.trans h.n_pages,
   h'.is_readonly.trans h.is_readonly, h'.section_kind.trans h.section_kind,
   h'.last_accessed_page.trans h.last_accessed_page, h'.key.trans h.key,
   h'.vapp_hash.trans h.vapp_hash, List.Subset.trans h'.replies h.replies,
   List.Subset.trans h.digested h'.digested⟩

/-- What is received is the next answer. -/
theorem interrupt_ok {message data : Bytes} {c c' : Comm} (h : interrupt message c = .ok data c') :
    c.replies = .ok data :: c'.replies := by
  unfold interrupt at h
  split at h
  · cases h
  · next heq => cases h; exact heq
  · cases h

theorem exchange_ok {message data : Bytes} {m m' : OutsourcedMemory E}
    (h : exchange message m = .ok data m') :
    Frame m m' ∧ m'.merkle_root = m.merkle_root ∧ m'.hasher = m.hasher ∧
      .ok data ∈ m.comm.replies := by
  obtain ⟨c, hc, rfl⟩ := Exec.zoom_ok.mp h
  have hreplies : m.comm.replies = .ok data :: c.replies := interrupt_ok hc
  refine ⟨⟨rfl, rfl, rfl, rfl, rfl, rfl, rfl, ?_, List.Subset.refl _⟩, rfl, rfl, ?_⟩
  · rw [hreplies]
    exact List.subset_cons_self _ _
  · rw [hreplies]
    exact List.mem_cons_self

theorem with_hasher_ok {α : Type} {f : Hasher → α × Hasher} {a : α}
    {m m' : OutsourcedMemory E} (h : with_hasher f m = .ok a m') :
    a = (f m.hasher).1 ∧ m' = { m with hasher := (f m.hasher).2 } := by
  cases h
  exact ⟨rfl, rfl⟩

theorem with_hasher_frame {m : OutsourcedMemory E} {hasher : Hasher}
    (h : m.hasher.digested ⊆ hasher.digested) : Frame m { m with hasher } :=
  ⟨rfl, rfl, rfl, rfl, rfl, rfl, rfl, List.Subset.refl _, h⟩

end OutsourcedMemory

/-! ## Feeding in several pieces -/

section
variable {N : ℕ} (H : Bytes → HashOutput N)

theorem MerkleInclusionProofVerifier.feed_all_append
    (v : MerkleInclusionProofVerifier N) (hasher : Hasher) (p q : List (HashOutput N)) :
    v.feed_all H hasher (p ++ q) =
      (v.feed_all H hasher p).1.feed_all H (v.feed_all H hasher p).2 q := by
  induction p generalizing v hasher with
  | nil => rfl
  | cons el p ih => rw [List.cons_append, feed_all, feed_all, ih]

theorem MerkleInclusionProofVerifier.feed_all_subset
    (v : MerkleInclusionProofVerifier N) (hasher : Hasher) (p : List (HashOutput N)) :
    hasher.digested ⊆ (v.feed_all H hasher p).2.digested := by
  induction p generalizing v hasher with
  | nil => exact List.Subset.refl _
  | cons el p ih => exact List.Subset.trans (feed_digested H) (ih _ _)

theorem MerkleUpdateProofVerifier.feed_all_append
    (v : MerkleUpdateProofVerifier N) (hasher : Hasher) (p q : List (HashOutput N)) :
    v.feed_all H hasher (p ++ q) =
      (v.feed_all H hasher p).1.feed_all H (v.feed_all H hasher p).2 q := by
  induction p generalizing v hasher with
  | nil => rfl
  | cons el p ih => rw [List.cons_append, feed_all, feed_all, ih]

theorem MerkleUpdateProofVerifier.feed_all_subset
    (v : MerkleUpdateProofVerifier N) (hasher : Hasher) (p : List (HashOutput N)) :
    hasher.digested ⊆ (v.feed_all H hasher p).2.digested := by
  induction p generalizing v hasher with
  | nil => exact List.Subset.refl _
  | cons el p ih =>
      refine List.Subset.trans ?_ (ih _ _)
      exact List.Subset.trans (MerkleInclusionProofVerifier.feed_digested H)
        (MerkleInclusionProofVerifier.feed_digested H)

end

namespace OutsourcedMemory

variable {E : Type} (dev : Device)

/-! ## Loading and committing

Whatever the host answers, a load that returns has fed the verifier *some* list
of siblings and the verifier has accepted. Likewise for a commit. -/

theorem load_page_continue_ok {n : ℕ} :
    ∀ {fuel k : ℕ} {v v' : MerkleInclusionProofVerifier 32} {m m' : OutsourcedMemory E},
      load_page.continue dev n v k fuel m = .ok v' m' →
      Frame m m' ∧ m'.merkle_root = m.merkle_root ∧
        ∃ proof, v.feed_all dev.sha256 m.hasher proof = (v', m'.hasher) := by
  intro fuel
  induction fuel with
  | zero =>
      intro k v v' m m' h
      rw [load_page.continue] at h
      split at h
      · cases h
      · cases h; exact ⟨Frame.refl m, rfl, [], rfl⟩
  | succ fuel ih =>
      intro k v v' m m' h
      rw [load_page.continue] at h
      split at h
      · obtain ⟨data, m₁, hex, h⟩ := Exec.bind_ok.mp h
        obtain ⟨r, -, h⟩ := Exec.ofExcept_bind_ok.mp h
        obtain ⟨-, h⟩ := Exec.reject_bind_ok.mp h
        obtain ⟨v₁, m₂, hfeed, h⟩ := Exec.bind_ok.mp h
        obtain ⟨hf₁, hroot₁, hh, -⟩ := exchange_ok hex
        obtain ⟨rfl, rfl⟩ := with_hasher_ok hfeed
        obtain ⟨hf₂, hroot₂, proof, hp⟩ := ih h
        have hsub := MerkleInclusionProofVerifier.feed_all_subset dev.sha256 v m₁.hasher
          r.proof
        refine ⟨(hf₁.trans (with_hasher_frame hsub)).trans hf₂,
          hroot₂.trans hroot₁, r.proof ++ proof, ?_⟩
        rw [MerkleInclusionProofVerifier.feed_all_append, ← hh]
        exact hp
      · cases h; exact ⟨Frame.refl m, rfl, [], rfl⟩

theorem commit_page_at_continue_ok {n : ℕ} :
    ∀ {fuel k : ℕ} {v v' : MerkleUpdateProofVerifier 32} {m m' : OutsourcedMemory E},
      commit_page_at.continue dev n v k fuel m = .ok v' m' →
      Frame m m' ∧ m'.merkle_root = m.merkle_root ∧
        ∃ proof, v.feed_all dev.sha256 m.hasher proof = (v', m'.hasher) := by
  intro fuel
  induction fuel with
  | zero =>
      intro k v v' m m' h
      rw [commit_page_at.continue] at h
      split at h
      · cases h
      · cases h; exact ⟨Frame.refl m, rfl, [], rfl⟩
  | succ fuel ih =>
      intro k v v' m m' h
      rw [commit_page_at.continue] at h
      split at h
      · obtain ⟨data, m₁, hex, h⟩ := Exec.bind_ok.mp h
        obtain ⟨r, -, h⟩ := Exec.ofExcept_bind_ok.mp h
        obtain ⟨-, h⟩ := Exec.reject_bind_ok.mp h
        obtain ⟨v₁, m₂, hfeed, h⟩ := Exec.bind_ok.mp h
        obtain ⟨hf₁, hroot₁, hh, -⟩ := exchange_ok hex
        obtain ⟨rfl, rfl⟩ := with_hasher_ok hfeed
        obtain ⟨hf₂, hroot₂, proof, hp⟩ := ih h
        have hsub := MerkleUpdateProofVerifier.feed_all_subset dev.sha256 v m₁.hasher
          r.proof
        refine ⟨(hf₁.trans (with_hasher_frame hsub)).trans hf₂,
          hroot₂.trans hroot₁, r.proof ++ proof, ?_⟩
        rw [MerkleUpdateProofVerifier.feed_all_append, ← hh]
        exact hp
      · cases h; exact ⟨Frame.refl m, rfl, [], rfl⟩

/-- A verifier started at the trusted root accepted the hash at the index. -/
def AcceptedAt (m : OutsourcedMemory E) (page_index : U32) (page_hash : HashOutput 32)
    (hasher' : Hasher) : Prop :=
  ∃ hasher proof v, (begin_inclusion_proof m.merkle_root page_hash page_index.toNat
      (checked_next_power_of_two m.n_pages.toNat)).feed_all dev.sha256 hasher proof =
      (v, hasher') ∧ v.verified = true

/-- The host answered with the tag of the index and the hash. -/
def TaggedAt (m : OutsourcedMemory E) (page_index : U32) (page_hash : HashOutput 32) : Prop :=
  ∃ data response tag, .ok data ∈ m.comm.replies ∧
    GetPageResponse.deserialize data = .ok response ∧ tag ∈ response.proof ∧
    dev.compute_code_page_hmac (dev.get_vapp_auth_key m.vapp_hash) m.vapp_hash page_index
      page_hash = some tag

/-- A load that returned: the page is what some record opens to, the record was
hashed, and the hash was accepted by a verifier, or in the code by its tag. -/
theorem load_page_cases {page_index : U32} {page : Page} {page_hash : HashOutput 32}
    {m m' : OutsourcedMemory E} (h : load_page dev page_index m = .ok (page, page_hash) m') :
    Frame m m' ∧ m'.merkle_root = m.merkle_root ∧
      ∃ r : Record, recordMessage r ∈ m'.hasher.digested ∧
        page_hash = dev.sha256 (recordMessage r) ∧
        openRecord m.aes_ctr.key r = some page ∧
        (AcceptedAt dev m page_index page_hash m'.hasher ∨
          m.section_kind = .code ∧ TaggedAt dev m page_index page_hash) := by
  unfold load_page at h
  rw [Exec.get_bind] at h
  obtain ⟨data, m₁, hex, h⟩ := Exec.bind_ok.mp h
  obtain ⟨hf₁, hroot₁, hh₁, hreply⟩ := exchange_ok hex
  obtain ⟨resp, hresp, h⟩ := Exec.ofExcept_bind_ok.mp h
  obtain ⟨ph, m₂, hhash, h⟩ := Exec.bind_ok.mp h
  obtain ⟨hph, hm₂⟩ := with_hasher_ok hhash
  rw [get_page_hash_eq dev.sha256 m₁.hasher
    (if resp.is_encrypted then some resp.nonce else none, resp.page_data)] at hph hm₂
  have hf₂ : Frame m₁ m₂ := hm₂ ▸ with_hasher_frame (List.subset_cons_self _ _)
  have hroot₂ : m₂.merkle_root = m₁.merkle_root := by rw [hm₂]
  have hmem₂ : recordMessage (if resp.is_encrypted then some resp.nonce else none,
      resp.page_data) ∈ m₂.hasher.digested := by rw [hm₂]; exact List.mem_cons_self
  cases hk : resp.proof_kind with
  | hmac =>
      simp only [hk] at h
      obtain ⟨henc, h⟩ := Exec.reject_bind_ok.mp h
      obtain ⟨-, h⟩ := Exec.reject_bind_ok.mp h
      obtain ⟨hone, h⟩ := Exec.reject_bind_ok.mp h
      obtain ⟨hcode, h⟩ := Exec.reject_bind_ok.mp h
      obtain ⟨expected, hexpected, h⟩ := Exec.orElse_bind_ok.mp h
      obtain ⟨heq, h⟩ := Exec.reject_bind_ok.mp h
      cases h
      rw [if_neg henc] at hph hmem₂
      have htag : expected ∈ resp.proof := by
        obtain ⟨t, ht⟩ := List.length_eq_one_iff.mp (not_not.mp hone)
        rw [ht] at heq ⊢
        rw [← not_not.mp heq]
        exact List.mem_cons_self
      exact ⟨hf₁.trans hf₂, hroot₂.trans hroot₁, (none, resp.page_data), hmem₂, hph, rfl,
        .inr ⟨not_not.mp hcode, data, resp, expected, hreply, hresp, htag, hexpected⟩⟩
  | merkle =>
      simp only [hk] at h
      obtain ⟨-, h⟩ := Exec.reject_bind_ok.mp h
      obtain ⟨v₁, m₃, hfeed, h⟩ := Exec.bind_ok.mp h
      obtain ⟨rfl, hm₃⟩ := with_hasher_ok hfeed
      rw [Exec.get_bind] at h
      obtain ⟨v, m₄, hcont, h⟩ := Exec.bind_ok.mp h
      obtain ⟨hf₄, hroot₄, proof, hproof⟩ := load_page_continue_ok dev hcont
      obtain ⟨hver, h⟩ := Exec.reject_bind_ok.mp h
      have hf₃ : Frame m₂ m₃ := hm₃ ▸ with_hasher_frame
        (MerkleInclusionProofVerifier.feed_all_subset dev.sha256 _ _ _)
      have hroot₃ : m₃.merkle_root = m₂.merkle_root := by rw [hm₃]
      have hkey : m₃.aes_ctr.key = m.aes_ctr.key := ((hf₁.trans hf₂).trans hf₃).key
      have hfin : AcceptedAt dev m page_index ph m₄.hasher := by
        refine ⟨m₂.hasher, resp.proof ++ proof, v, ?_, by simpa using hver⟩
        rw [MerkleInclusionProofVerifier.feed_all_append, ← hproof, hm₃]
      have hframe := ((hf₁.trans hf₂).trans hf₃).trans hf₄
      have hroot : m₄.merkle_root = m.merkle_root := by rw [hroot₄, hroot₃, hroot₂, hroot₁]
      have hmem := hf₄.digested (hf₃.digested hmem₂)
      cases henc : resp.is_encrypted with
      | false =>
          simp only [henc] at h hmem hph
          cases h
          exact ⟨hframe, hroot, (none, resp.page_data), hmem, hph, rfl,
            .inl hfin⟩
      | true =>
          simp only [henc, if_true] at h hmem hph
          obtain ⟨dec, hdec, h⟩ := Exec.orElse_bind_ok.mp h
          obtain ⟨hlen, h⟩ := Exec.reject_bind_ok.mp h
          obtain ⟨hp, rfl⟩ := Outcome.ok.inj h
          obtain ⟨rfl, rfl⟩ := Prod.mk.inj hp
          refine ⟨hframe, hroot, (some resp.nonce, resp.page_data), hmem, hph, ?_,
            .inl hfin⟩
          have hdec' : (AesCtr.new m.aes_ctr.key).decrypt resp.nonce resp.page_data.toList = some dec := by
            rw [← hdec, AesCtr.decrypt, AesCtr.decrypt, hkey, AesCtr.new]
          simp only [openRecord, hdec', if_pos (not_not.mp hlen)]

/-- A commit that returned: a record that opens to the slot's page was hashed,
and a verifier accepted its hash as the replacement of the slot's recorded
one. -/
theorem commit_page_at_ok {index : ℕ} {u : Unit} {m m' : OutsourcedMemory E}
    (h : commit_page_at dev index m = .ok u m') :
    ∃ c, m.cached_pages[index]? = some c ∧ Frame m m' ∧
      ∃ r : Record, recordMessage r ∈ m'.hasher.digested ∧
        openRecord m.aes_ctr.key r = some c.page ∧
        ∃ hasher proof v, (begin_update_proof m.merkle_root m'.merkle_root c.page_hash
            (dev.sha256 (recordMessage r)) c.idx.toNat
            (n_pages_adjusted m.n_pages.toNat)).feed_all dev.sha256 hasher proof =
            (v, m'.hasher) ∧ v.verified = true := by
  unfold commit_page_at at h
  rw [Exec.get_bind] at h
  obtain ⟨c, hc, h⟩ := Exec.unwrap_bind_ok.mp h
  obtain ⟨-, h⟩ := Exec.assert_bind_ok.mp h
  rw [Exec.modify_bind] at h
  obtain ⟨⟨nonce, payload⟩, henc, h⟩ := Exec.orElse_bind_ok.mp h
  obtain ⟨ph, m₂, hhash, h⟩ := Exec.bind_ok.mp h
  obtain ⟨hplen, h⟩ := Exec.assert_bind_ok.mp h
  obtain ⟨hph, hm₂⟩ := with_hasher_ok hhash
  have hpay : payload = (array payload 0 PAGE_SIZE).toList :=
    (array_toList_of_length hplen).symm
  rw [hpay, get_page_hash_eq dev.sha256 _ (some nonce, array payload 0 PAGE_SIZE)]
    at hph hm₂
  obtain ⟨data, m₃, hex, h⟩ := Exec.bind_ok.mp h
  obtain ⟨hf₃, hroot₃, hh₃, -⟩ := exchange_ok hex
  obtain ⟨resp, -, h⟩ := Exec.ofExcept_bind_ok.mp h
  obtain ⟨-, h⟩ := Exec.reject_bind_ok.mp h
  obtain ⟨-, h⟩ := Exec.reject_bind_ok.mp h
  obtain ⟨v₁, m₄, hfeed, h⟩ := Exec.bind_ok.mp h
  obtain ⟨rfl, hm₄⟩ := with_hasher_ok hfeed
  rw [Exec.get_bind] at h
  obtain ⟨v, m₅, hcont, h⟩ := Exec.bind_ok.mp h
  obtain ⟨hf₅, hroot₅, proof, hproof⟩ := commit_page_at_continue_ok dev hcont
  obtain ⟨hver, h⟩ := Exec.reject_bind_ok.mp h
  cases h
  have hf₁ : Frame m m₂ := by
    rw [hm₂]
    exact ⟨rfl, rfl, rfl, rfl, rfl, rfl, rfl, List.Subset.refl _, List.subset_cons_self _ _⟩
  have hf₄ : Frame m₃ m₄ := hm₄ ▸ with_hasher_frame
    (MerkleUpdateProofVerifier.feed_all_subset dev.sha256 _ _ _)
  have hframe : Frame m m₅ := ((hf₁.trans hf₃).trans hf₄).trans hf₅
  obtain ⟨hdec, hlen⟩ := AesCtr.decrypt_encrypt henc
  refine ⟨c, hc, ⟨hframe.cached_pages, hframe.n_pages, hframe.is_readonly,
    hframe.section_kind, hframe.last_accessed_page, hframe.key, hframe.vapp_hash,
    hframe.replies, hframe.digested⟩,
    (some nonce, array payload 0 PAGE_SIZE), ?_, ?_, m₃.hasher, resp.proof ++ proof, v,
    ?_, by simpa using hver⟩
  · exact ((hf₃.trans hf₄).trans hf₅).digested (by rw [hm₂]; exact List.mem_cons_self)
  · have h256 : c.page.toList.length = PAGE_SIZE := Vector.length_toList
    simp only [openRecord, ← hpay, hdec, if_pos h256, array_toList]
  · rw [MerkleUpdateProofVerifier.feed_all_append, ← hproof, hm₄, hph]

end OutsourcedMemory

end Vanadium
