import Vanadium.Common.Memory
import Vanadium.Vm.Crypto
import Vanadium.Vm.Evict

/-!
# Memory kept by the host

The model of `vm/src/handlers/lib/outsourced_mem.rs`. The VM keeps a few pages
in slots and a Merkle root; everything else is with the host, which answers
the exchanges of `commit_page_at` and `load_page`.

Two things are shared in the source and owned here. The line to the host is
`comm`: the answers in it are those to this memory's own exchanges, and they
are arbitrary anyway. The AES state serves the data and the stack memory; what
the other one does to it between two calls is the nonce having moved, which
the statements about runs allow for.
-/

namespace Vanadium

open Lib

structure CachedPage where
  idx : U32
  page : Page
  page_hash : HashOutput 32
  valid : Bool
  modified : Bool

def CachedPage.default : CachedPage :=
  { idx := 0, page := Vector.replicate PAGE_SIZE 0, page_hash := Vector.replicate 32 0
    valid := false, modified := false }

instance : Inhabited CachedPage := ⟨CachedPage.default⟩

structure OutsourcedMemory (E : Type) where
  comm : Comm
  cached_pages : List CachedPage
  n_pages : U32
  merkle_root : HashOutput 32
  aes_ctr : AesCtr
  hasher : Hasher
  is_readonly : Bool
  section_kind : SectionKind
  eviction_strategy : E
  last_accessed_page : Option (U32 × Nat)
  vapp_hash : HashOutput 32

/-- The hash of a page as an element of the accumulator: the leaf prefix, then
an encryption flag and the nonce, or 13 zero bytes, then the data. -/
def get_page_hash (sha256 : Bytes → HashOutput 32) (hasher : Hasher) (data : Bytes)
    (nonce : Option (Vector U8 12)) : HashOutput 32 × Hasher :=
  let hasher := hasher.reset
  let hasher := hasher.update [0x00]
  let hasher :=
    match nonce with
    | some nonce => (hasher.update [0x01]).update nonce.toList
    | none => hasher.update (List.replicate 13 0x00)
  let hasher := hasher.update data
  hasher.digest_inplace sha256

namespace OutsourcedMemory

def n_pages_adjusted (n_pages : Nat) : Nat := checked_next_power_of_two n_pages

variable {E : Type}

def new (comm : Comm) (max_pages_in_cache : Nat) (is_readonly : Bool)
    (section_kind : SectionKind) (n_pages : U32) (merkle_root : HashOutput 32)
    (aes_ctr : AesCtr) (eviction_strategy : E) (vapp_hash : HashOutput 32) :
    OutsourcedMemory E :=
  { comm, cached_pages := List.replicate max_pages_in_cache CachedPage.default, n_pages
    merkle_root, aes_ctr, hasher := Hasher.new, is_readonly, section_kind
    eviction_strategy, last_accessed_page := none, vapp_hash }

/-- Send a message and wait for the answer; an unexpected command is an error. -/
def exchange (message : Bytes) : Exec MemoryError (OutsourcedMemory E) Bytes :=
  Exec.zoom comm (fun comm m => { m with comm }) (fun e => .genericError e.as_str)
    (interrupt message)

/-- Run a computation that uses the hasher the memory owns. -/
def with_hasher {α : Type} (f : Hasher → α × Hasher) :
    Exec MemoryError (OutsourcedMemory E) α := do
  let m ← Exec.get
  Exec.set { m with hasher := (f m.hasher).2 }
  pure (f m.hasher).1

variable (dev : Device)

/-- The requests for the rest of an update proof. Each answer is fed as it
comes; the loop ends when `n` elements were announced and received. -/
def commit_page_at.continue (n : Nat) (verifier : MerkleUpdateProofVerifier 32)
    (n_processed_elements : Nat) : Nat →
    Exec MemoryError (OutsourcedMemory E) (MerkleUpdateProofVerifier 32)
  | 0 => if n_processed_elements < n then Exec.stop .hang else pure verifier
  | fuel + 1 =>
      if n_processed_elements < n then do
        let data ← exchange CommitPageProofContinuedMessage.serialize
        let r ← Exec.ofExcept (fun _ => .genericError "Invalid continued proof data")
          (CommitPageProofContinuedResponse.deserialize data)
        Exec.reject (r.t.toNat ≠ r.proof.length) (.genericError
          "Continued proof size does not match the expected number of elements")
        let verifier ← with_hasher fun h => verifier.feed_all dev.sha256 h r.proof
        commit_page_at.continue n verifier (n_processed_elements + r.t.toNat) fuel
      else pure verifier

/-- Commit the page of a slot: encrypt it, send it, and take the host's new root
if the update proof verifies against the old one. -/
def commit_page_at (index : Nat) : Exec MemoryError (OutsourcedMemory E) Unit := do
  let m ← Exec.get
  let cached_page ← Exec.unwrap m.cached_pages[index]?
  Exec.assert (cached_page.valid = true)
  let page_hash_old := cached_page.page_hash
  Exec.modify fun m => { m with aes_ctr := (m.aes_ctr.encrypt cached_page.page.toList).2 }
  let (nonce, payload) ← Exec.orElse (m.aes_ctr.encrypt cached_page.page.toList).1
    (.genericError "AES encryption failed")
  let new_page_hash ← with_hasher fun h => get_page_hash dev.sha256 h payload (some nonce)
  Exec.assert (payload.length = PAGE_SIZE)
  let data ← exchange (CommitPageMessage.serialize
    { section_kind := m.section_kind, page_index := cached_page.idx, is_encrypted := true
      nonce, data := array payload 0 PAGE_SIZE })
  let r ← Exec.ofExcept (fun _ => .genericError "Invalid proof data")
    (CommitPageProofResponse.deserialize data)
  Exec.reject (r.n = 0) (.genericError "Proof must contain at least one element")
  Exec.reject (r.t.toNat ≠ r.proof.length) (.genericError
    "Proof fragment size does not match the expected number of elements")
  let new_root := r.new_root
  let verifier := begin_update_proof m.merkle_root new_root page_hash_old new_page_hash
    cached_page.idx.toNat (n_pages_adjusted m.n_pages.toNat)
  let verifier ← with_hasher fun h => verifier.feed_all dev.sha256 h r.proof
  -- an answer consumes a reply, so the replies left are fuel enough
  let m ← Exec.get
  let verifier ← commit_page_at.continue dev r.n.toNat verifier r.t.toNat
    (m.comm.replies.length + 1)
  Exec.reject (verifier.verified = false)
    (.genericError "Merkle update verification failed")
  Exec.modify fun m => { m with merkle_root := new_root }

def load_page.continue (n : Nat) (verifier : MerkleInclusionProofVerifier 32)
    (n_processed_elements : Nat) : Nat →
    Exec MemoryError (OutsourcedMemory E) (MerkleInclusionProofVerifier 32)
  | 0 => if n_processed_elements < n then Exec.stop .hang else pure verifier
  | fuel + 1 =>
      if n_processed_elements < n then do
        let data ← exchange GetPageProofContinuedMessage.serialize
        let r ← Exec.ofExcept (fun _ => .genericError "Invalid continued proof data")
          (GetPageProofContinuedResponse.deserialize data)
        Exec.reject (r.t.toNat ≠ r.proof.length) (.genericError
          "Continued proof size does not match the expected number of elements")
        let verifier ← with_hasher fun h => verifier.feed_all dev.sha256 h r.proof
        load_page.continue n verifier (n_processed_elements + r.t.toNat) fuel
      else pure verifier

/-- Fetch a page and check it: a Merkle branch, or for a code page the HMAC
computed when the code was preloaded. -/
def load_page (page_index : U32) :
    Exec MemoryError (OutsourcedMemory E) (Page × HashOutput 32) := do
  let m ← Exec.get
  let data ← exchange (GetPageMessage.serialize
    { section_kind := m.section_kind, page_index })
  let r ← Exec.ofExcept (fun _ => .genericError "Invalid page data")
    (GetPageResponse.deserialize data)
  let page_hash ← with_hasher fun h => get_page_hash dev.sha256 h r.page_data.toList
    (if r.is_encrypted then some r.nonce else none)
  match r.proof_kind with
  | .merkle =>
      Exec.reject (r.t.toNat ≠ r.proof.length) (.genericError
        "Proof fragment size does not match the expected number of elements")
      let verifier := begin_inclusion_proof m.merkle_root page_hash page_index.toNat
        (checked_next_power_of_two m.n_pages.toNat)
      let verifier ← with_hasher fun h => verifier.feed_all dev.sha256 h r.proof
      let m ← Exec.get
      let verifier ← load_page.continue dev r.n.toNat verifier r.t.toNat
        (m.comm.replies.length + 1)
      Exec.reject (verifier.verified = false)
        (.genericError "Merkle inclusion verification failed")
      if r.is_encrypted then
        let decrypted_data ← Exec.orElse (m.aes_ctr.decrypt r.nonce r.page_data.toList)
          (.genericError "AES decryption failed")
        Exec.reject (decrypted_data.length ≠ PAGE_SIZE)
          (.genericError "Decrypted page size mismatch")
        pure (array decrypted_data 0 PAGE_SIZE, page_hash)
      else pure (r.page_data, page_hash)
  | .hmac =>
      Exec.reject (r.is_encrypted = true)
        (.genericError "HMAC proof not allowed for encrypted pages")
      Exec.reject (r.n ≠ 1 ∨ r.t ≠ 1)
        (.genericError "HMAC proof must contain exactly one element")
      Exec.reject (r.proof.length ≠ 1)
        (.genericError "HMAC proof must contain exactly one element")
      let hmac := r.proof.headD (Vector.replicate 32 0)
      Exec.reject (m.section_kind ≠ .code)
        (.genericError "HMAC proof not allowed for non-code section")
      let app_auth_key := dev.get_vapp_auth_key m.vapp_hash
      let expected_hmac ← Exec.orElse
        (dev.compute_code_page_hmac app_auth_key m.vapp_hash page_index page_hash)
        (.genericError "HMAC computation failed")
      Exec.reject (hmac ≠ expected_hmac) (.genericError "HMAC verification failed")
      pure (r.page_data, page_hash)

/-! ## The cache -/

/-- A reference to the page in a slot, which becomes the last accessed one. -/
def get_cached_page_ref (page_index : U32) (slot : Nat) :
    Exec MemoryError (OutsourcedMemory E) Nat := do
  Exec.modify fun m => { m with last_accessed_page := some (page_index, slot) }
  let m ← Exec.get
  Exec.assert (slot < m.cached_pages.length)
  pure slot

variable [PageEvictionStrategy E]

/-- Call a method of the eviction strategy. -/
def notify (f : E → Option E) : Exec MemoryError (OutsourcedMemory E) Unit := do
  let m ← Exec.get
  let eviction_strategy ← Exec.unwrap (f m.eviction_strategy)
  Exec.set { m with eviction_strategy }

/-- The victim is committed if it can have changed. -/
def commit_victim (index : Nat) (victim : CachedPage) :
    Exec MemoryError (OutsourcedMemory E) Unit := do
  let m ← Exec.get
  if !m.is_readonly && victim.modified then commit_page_at dev index else pure ()

/-- Make room: after this the slot is free. -/
def evict_page : Exec MemoryError (OutsourcedMemory E) Nat := do
  let m ← Exec.get
  let (evict_index, eviction_strategy) ←
    Exec.unwrap (PageEvictionStrategy.choose_victim m.eviction_strategy)
  Exec.set { m with eviction_strategy }
  let victim ← Exec.unwrap m.cached_pages[evict_index]?
  commit_victim dev evict_index victim
  Exec.modify fun m => { m with
    cached_pages := m.cached_pages.set evict_index { victim with valid := false } }
  notify fun e => PageEvictionStrategy.on_invalidate e evict_index victim.idx
  pure evict_index

/-- Load a page into a free slot. -/
def load_into (page_index : U32) (slot : Nat) :
    Exec MemoryError (OutsourcedMemory E) Nat := do
  let (page, page_hash) ← load_page dev page_index
  Exec.modify fun m => { m with
    cached_pages := m.cached_pages.set slot
      { idx := page_index, page, page_hash, valid := true, modified := false } }
  notify fun e => PageEvictionStrategy.on_load e slot page_index
  get_cached_page_ref page_index slot

def get_page (page_index : U32) : Exec MemoryError (OutsourcedMemory E) Nat := do
  let m ← Exec.get
  match m.last_accessed_page.filter (fun last => page_index = last.1) with
  | some (_, last_slot) => get_cached_page_ref page_index last_slot
  | none =>
      match m.cached_pages.findIdx? (fun c => c.valid && c.idx == page_index) with
      | some i =>
          notify fun e => PageEvictionStrategy.on_access e i page_index
          get_cached_page_ref page_index i
      | none =>
          match m.cached_pages.findIdx? (fun c => !c.valid) with
          | some slot => load_into dev page_index slot
          | none =>
              let slot ← evict_page dev
              load_into dev page_index slot

/-- Reading through a reference. -/
def deref (m : OutsourcedMemory E) (slot : Nat) : Page := m.cached_pages[slot]!.page

/-- Writing through a reference marks the page as modified. -/
def deref_mut (m : OutsourcedMemory E) (slot : Nat) (page : Page) :
    OutsourcedMemory E :=
  { m with
    cached_pages := m.cached_pages.set slot
      { m.cached_pages[slot]! with page, modified := true } }

/-- The memory of a device `dev`. -/
@[reducible] def pagedMemory : PagedMemory (OutsourcedMemory E) where
  PageRef := Nat
  get_page := get_page dev
  deref := deref
  deref_mut := deref_mut

end OutsourcedMemory

end Vanadium
