import Vanadium.Client.PreloadVapp
import Vanadium.Proofs.Messages
import Vanadium.Proofs.OutsourcedMem
import Vanadium.Proofs.RootComputer
import Vanadium.Vm.PreloadVapp

/-!
# Preloading hands out tags for the registered code only

Two results about `handler_preload_vapp`. Against any host, the key is released
only after the hashes of a whole tree with the manifest's root went in, in
order, and their masked HMACs came out. With the client of
`Client/PreloadVapp.lean`, the two programs run in step until the key is out,
for every number of pages, and what the client then holds are the HMACs the
pager compares with.

The state of the loop is a count and a root computer. `loop_ok` relates them to
the hashes read off the replies and to the HMACs read off the messages; it is
an induction on the fuel, one batch a turn.
-/

namespace Vanadium

open Lib

/-- The page hashes in a host's replies. -/
def received (replies : List (Except InterruptError Bytes)) : List (HashOutput 32) :=
  replies.flatMap fun r =>
    match r with
    | .ok data =>
        match GetCodePageHashesResponse.deserialize data with
        | .ok batch => batch.code_page_hashes
        | .error _ => []
    | .error _ => []

/-- The masked HMACs in the device's messages. -/
def emitted (messages : List Bytes) : List (HashOutput 32) :=
  messages.flatMap fun data =>
    match GetCodePageHashes.deserialize data with
    | .ok m => m.prev_batch_enc_hmacs
    | .error _ => []

theorem received_cons {data : Bytes} {batch : GetCodePageHashesResponse}
    {replies : List (Except InterruptError Bytes)}
    (h : GetCodePageHashesResponse.deserialize data = .ok batch) :
    received (.ok data :: replies) = batch.code_page_hashes ++ received replies := by
  unfold received
  rw [List.flatMap_cons]
  simp only [h]

theorem emitted_cons (m : GetCodePageHashes) (messages : List Bytes) :
    emitted (m.serialize :: messages) = m.prev_batch_enc_hmacs ++ emitted messages := by
  unfold emitted
  rw [List.flatMap_cons]
  simp only [m.deserialize_serialize]

namespace handler_preload_vapp

variable (dev : Device) (app_auth_key vapp_hash ephemeral_sk : HashOutput 32)

/-- The masked HMACs of a run of page hashes, the first of which is page `i`. -/
def encrypt_all (i : ℕ) : List (HashOutput 32) → Option (List (HashOutput 32))
  | [] => some []
  | page_hash :: rest =>
      match encrypted_hmac dev app_auth_key vapp_hash ephemeral_sk (BitVec.ofNat 32 i) page_hash,
        encrypt_all (i + 1) rest with
      | some e, some es => some (e :: es)
      | _, _ => none

variable {dev app_auth_key vapp_hash ephemeral_sk}

theorem encrypt_all_cons {i : ℕ} {page_hash : HashOutput 32}
    {rest es : List (HashOutput 32)} :
    encrypt_all dev app_auth_key vapp_hash ephemeral_sk i (page_hash :: rest) = some es ↔
      ∃ e es', encrypted_hmac dev app_auth_key vapp_hash ephemeral_sk (BitVec.ofNat 32 i)
          page_hash = some e ∧
        encrypt_all dev app_auth_key vapp_hash ephemeral_sk (i + 1) rest = some es' ∧
        es = e :: es' := by
  rw [encrypt_all]
  cases encrypted_hmac dev app_auth_key vapp_hash ephemeral_sk (BitVec.ofNat 32 i)
    page_hash with
  | none => simp
  | some e =>
      cases encrypt_all dev app_auth_key vapp_hash ephemeral_sk (i + 1) rest with
      | none => simp
      | some es' => simp [eq_comm]

theorem encrypt_all_append {i : ℕ} {a b es es' : List (HashOutput 32)}
    (ha : encrypt_all dev app_auth_key vapp_hash ephemeral_sk i a = some es)
    (hb : encrypt_all dev app_auth_key vapp_hash ephemeral_sk (i + a.length) b = some es') :
    encrypt_all dev app_auth_key vapp_hash ephemeral_sk i (a ++ b) = some (es ++ es') := by
  induction a generalizing i es with
  | nil => cases ha; exact hb
  | cons h a ih =>
      obtain ⟨e, es₁, he, hes, rfl⟩ := encrypt_all_cons.mp ha
      rw [List.length_cons, Nat.add_comm a.length, ← Nat.add_assoc] at hb
      exact encrypt_all_cons.mpr ⟨e, _, he, ih hes hb, rfl⟩

theorem encrypt_all_length {i : ℕ} {hashes es : List (HashOutput 32)}
    (h : encrypt_all dev app_auth_key vapp_hash ephemeral_sk i hashes = some es) :
    es.length = hashes.length := by
  induction hashes generalizing i es with
  | nil => cases h; rfl
  | cons a hashes ih =>
      obtain ⟨e, es', -, hes, rfl⟩ := encrypt_all_cons.mp h
      rw [List.length_cons, List.length_cons, ih hes]

theorem encrypt_all_getElem {i j : ℕ} {hashes es : List (HashOutput 32)}
    (h : encrypt_all dev app_auth_key vapp_hash ephemeral_sk i hashes = some es)
    (hj : j < hashes.length) (hj' : j < es.length) :
    encrypted_hmac dev app_auth_key vapp_hash ephemeral_sk (BitVec.ofNat 32 (i + j))
      hashes[j] = some es[j] := by
  induction hashes generalizing i j es with
  | nil => simp at hj
  | cons a hashes ih =>
      obtain ⟨e, es', he, hes, rfl⟩ := encrypt_all_cons.mp h
      cases j with
      | zero => exact he
      | succ j =>
          have := ih hes (by simpa using hj) (by simpa using hj')
          rwa [Nat.add_right_comm, Nat.add_assoc] at this

/-- A batch is processed in the order of its hashes. -/
theorem process_batch_ok {hashes response_data : List (HashOutput 32)} {p : Progress}
    {r : Progress × List (HashOutput 32)} {c c' : Comm} :
    process_batch dev app_auth_key vapp_hash ephemeral_sk hashes p response_data c =
        .ok r c' ↔
      c' = c ∧ ∃ root_computer es,
        p.root_computer.feed_all dev.sha256 hashes = some root_computer ∧
        encrypt_all dev app_auth_key vapp_hash ephemeral_sk p.n_page_hashes_received hashes =
          some es ∧
        r = (⟨p.n_page_hashes_received + hashes.length, root_computer⟩,
          response_data ++ es) := by
  induction hashes generalizing p response_data with
  | nil =>
      rw [process_batch, Exec.pure_apply]
      constructor
      · intro h
        cases h
        exact ⟨rfl, _, [], rfl, rfl, by rw [List.append_nil]; rfl⟩
      · rintro ⟨rfl, rc, es, hrc, hes, rfl⟩
        cases hrc
        cases hes
        rw [List.append_nil]
        rfl
  | cons page_hash rest ih =>
      rw [process_batch, Exec.orElse_bind_ok]
      simp only [Exec.unwrap_bind_ok, ih, encrypt_all_cons,
        MerkleAccumulatorRootComputer.feed_all, List.foldlM_cons, Option.bind_eq_bind,
        Option.bind_eq_some_iff, List.append_assoc, List.singleton_append, List.length_cons]
      constructor
      · rintro ⟨e, he, rc, hrc, rfl, rc', es, hrc', hes, rfl⟩
        refine ⟨rfl, rc', e :: es, ⟨rc, hrc, hrc'⟩, ⟨e, es, he, hes, rfl⟩, ?_⟩
        rw [Nat.add_assoc, Nat.add_comm 1]
      · rintro ⟨rfl, rc', -, ⟨rc, hrc, hrc'⟩, ⟨e, es, he, hes, rfl⟩, rfl⟩
        refine ⟨e, he, rc, hrc, rfl, rc', es, hrc', hes, ?_⟩
        rw [Nat.add_assoc, Nat.add_comm 1]

theorem exchange_ok {m : GetCodePageHashes} {data : Bytes} {c c' : Comm} :
    exchange m c = .ok data c' ↔
      c.replies = .ok data :: c'.replies ∧ c'.sent = m.serialize :: c.sent := by
  unfold exchange
  rw [Exec.zoom_ok]
  unfold interrupt
  constructor
  · rintro ⟨t, h, rfl⟩
    split at h
    · cases h
    · next hr => cases h; exact ⟨hr, rfl⟩
    · cases h
  · rintro ⟨hr, hs⟩
    refine ⟨c', ?_, rfl⟩
    simp only [id, hr, ← hs]

theorem loop_ok {n_code_pages_rounded : ℕ} :
    ∀ {fuel : ℕ} {p p' : Progress} {data : Bytes} {c c' : Comm},
      loop dev app_auth_key vapp_hash ephemeral_sk n_code_pages_rounded fuel p data c =
        .ok p' c' →
      ∃ consumed messages, c.replies = consumed ++ c'.replies ∧
        c'.sent = messages.reverse ++ c.sent ∧
        p.root_computer.feed_all dev.sha256 (received (.ok data :: consumed)) =
          some p'.root_computer ∧
        p'.n_page_hashes_received =
          p.n_page_hashes_received + (received (.ok data :: consumed)).length ∧
        encrypt_all dev app_auth_key vapp_hash ephemeral_sk p.n_page_hashes_received
          (received (.ok data :: consumed)) = some (emitted messages) := by
  intro fuel
  induction fuel with
  | zero => intro p p' data c c' h; cases h
  | succ fuel ih =>
      intro p p' data c c' h
      rw [loop] at h
      obtain ⟨batch, hbatch, h⟩ := Exec.ofExcept_bind_ok.mp h
      simp only [received_cons hbatch]
      split at h
      · next hzero =>
          cases h
          have hnone : batch.code_page_hashes = [] := by
            refine List.length_eq_zero_iff.mp ?_
            rw [← GetCodePageHashesResponse.deserialize_ok hbatch, hzero]
            rfl
          refine ⟨[], [], rfl, rfl, ?_⟩
          rw [hnone]
          exact ⟨rfl, rfl, rfl⟩
      · obtain ⟨-, h⟩ := Exec.reject_bind_ok.mp h
        obtain ⟨r, c₁, hproc, h⟩ := Exec.bind_ok.mp h
        obtain ⟨rfl, rc, es, hrc, hes, rfl⟩ := process_batch_ok.mp hproc
        dsimp only at h
        obtain ⟨data', c₂, hex, h⟩ := Exec.bind_ok.mp h
        obtain ⟨hreplies, hsent⟩ := exchange_ok.mp hex
        obtain ⟨consumed, messages, hcons, hmsg, hfeed, hn, henc⟩ := ih h
        refine ⟨.ok data' :: consumed, GetCodePageHashes.serialize
          { n_prev_batch_pages := BitVec.ofNat 32 (p.n_page_hashes_received +
              batch.code_page_hashes.length)
            prev_batch_enc_hmacs := [] ++ es } :: messages, ?_, ?_, ?_, ?_, ?_⟩
        · rw [hreplies, hcons, List.cons_append]
        · rw [hmsg, hsent, List.reverse_cons, List.append_assoc, List.singleton_append]
        · rw [MerkleAccumulatorRootComputer.feed_all, List.foldlM_append]
          exact Option.bind_eq_some_iff.mpr ⟨rc, hrc, hfeed⟩
        · rw [hn, List.length_append, Nat.add_assoc]
        · rw [emitted_cons]
          exact encrypt_all_append hes henc

end handler_preload_vapp

/-- What the release of the key says about the hashes that went in and the
masked HMACs that came out. -/
structure Released (dev : Device) (ephemeral_sk : HashOutput 32) (manifest : Manifest)
    (hashes hmacs : List (HashOutput 32)) : Prop where
  /-- There are as many hashes as the padded code has pages. -/
  count : hashes.length = OutsourcedMemory.n_pages_adjusted manifest.n_code_pages.toNat
  /-- They are the leaves under the manifest's root. -/
  root : ∀ d, hashes.length = 2 ^ d →
    rootOf dev.sha256 (fun i => hashes.getD i default) d = manifest.code_merkle_root
  hmacs_length : hmacs.length = hashes.length
  /-- The `i`-th HMAC is the tag of the `i`-th hash, masked. -/
  hmac : ∀ i (hi : i < hashes.length) (hi' : i < hmacs.length), ∃ hmac,
    dev.compute_code_page_hmac
        (dev.get_vapp_auth_key (manifest.get_vapp_hash dev.sha256))
        (manifest.get_vapp_hash dev.sha256) (BitVec.ofNat 32 i) hashes[i] = some hmac ∧
      hmacs[i] = xor32 hmac (dev.compute_page_hmac_mask ephemeral_sk (BitVec.ofNat 32 i))

/-- So they are those of any tree the root commits to. -/
theorem Released.committed {dev : Device} {ephemeral_sk : HashOutput 32}
    {manifest : Manifest} {hashes hmacs : List (HashOutput 32)}
    (h : Released dev ephemeral_sk manifest hashes hmacs) {S : Set Bytes} {d : ℕ}
    {leaf : ℕ → HashOutput 32} (hS : CollisionFree dev.sha256 S)
    (htree : TreeIn dev.sha256 leaf d S)
    (hfed : TreeIn dev.sha256 (fun i => hashes.getD i default) d S)
    (hlen : hashes.length = 2 ^ d)
    (hroot : rootOf dev.sha256 leaf d = manifest.code_merkle_root) :
    ∀ i (hi : i < hashes.length), hashes[i] = leaf i := by
  intro i hi
  have := subRoot_inj (hS.noCollision (P := {p | nodeMessage p.1 p.2 ∈ S}) fun p hp => hp)
    hfed htree ((h.root d hlen).trans hroot.symm) i (hlen ▸ hi)
  rwa [List.getD_eq_getElem _ _ hi] at this

theorem n_pages_adjusted_two_pow (n : ℕ) :
    ∃ d, OutsourcedMemory.n_pages_adjusted n = 2 ^ d := ⟨Nat.clog 2 n, rfl⟩

open handler_preload_vapp in
theorem handler_preload_vapp_ok {dev : Device}
    {take_from_bytes : Bytes → Option (Manifest × Bytes)} {ephemeral_sk key : HashOutput 32}
    {data_raw : Bytes} {c c' : Comm}
    (h : handler_preload_vapp dev take_from_bytes ephemeral_sk data_raw c = .ok key c') :
    ∃ manifest consumed messages, take_from_bytes data_raw = some (manifest, []) ∧
      manifest.validate = .ok () ∧ c.replies = consumed ++ c'.replies ∧
      c'.sent = messages.reverse ++ c.sent ∧
      Released dev ephemeral_sk manifest (received consumed) (emitted messages) := by
  unfold handler_preload_vapp at h
  obtain ⟨⟨manifest, rest⟩, hparse, h⟩ := Exec.orElse_bind_ok.mp h
  dsimp only at h
  obtain ⟨hrest, h⟩ := Exec.reject_bind_ok.mp h
  obtain ⟨_, hvalid, h⟩ := Exec.ofExcept_bind_ok.mp h
  rw [Exec.get_bind] at h
  obtain ⟨data, c₁, hex, h⟩ := Exec.bind_ok.mp h
  obtain ⟨rc₀, hnew, h⟩ := Exec.unwrap_bind_ok.mp h
  obtain ⟨p, c₂, hloop, h⟩ := Exec.bind_ok.mp h
  obtain ⟨hn, h⟩ := Exec.reject_bind_ok.mp h
  obtain ⟨root, hroot, h⟩ := Exec.unwrap_bind_ok.mp h
  obtain ⟨hmerkle, h⟩ := Exec.reject_bind_ok.mp h
  cases h
  obtain ⟨hreplies, hsent⟩ := exchange_ok.mp hex
  obtain ⟨consumed, messages, hcons, hmsg, hfeed, hcount, henc⟩ := loop_ok hloop
  obtain rfl : rest = [] := List.length_eq_zero_iff.mp (not_not.mp hrest)
  have hlen : (received (.ok data :: consumed)).length =
      OutsourcedMemory.n_pages_adjusted manifest.n_code_pages.toNat := by
    rw [← not_not.mp hn, hcount, Nat.zero_add]
  have hemitted : emitted (GetCodePageHashes.serialize
      { n_prev_batch_pages := 0, prev_batch_enc_hmacs := [] } :: messages) =
      emitted messages := emitted_cons _ messages
  refine ⟨manifest, .ok data :: consumed, GetCodePageHashes.serialize
    { n_prev_batch_pages := 0, prev_batch_enc_hmacs := [] } :: messages, hparse, hvalid, ?_, ?_, hlen, ?_, ?_,
    ?_⟩
  · rw [hreplies, hcons, List.cons_append]
  · rw [hmsg, hsent, List.reverse_cons, List.append_assoc, List.singleton_append]
  · intro d hd
    rw [← hlen, hd, MerkleAccumulatorRootComputer.new_eq dev.sha256
      (fun i => (received (.ok data :: consumed)).getD i default)] at hnew
    obtain rfl := Option.some.inj hnew
    have hat := MerkleAccumulatorRootComputer.feed_all_at_leaf dev.sha256
      (fun i => (received (.ok data :: consumed)).getD i default)
      (received (.ok data :: consumed)) 0 (n := 2 ^ d) (by omega) fun j hj => by
        rw [Nat.zero_add, List.getD_eq_getElem _ _ hj]
    rw [hfeed, hd, Nat.zero_add] at hat
    rw [Option.some.inj hat, MerkleAccumulatorRootComputer.root_at_leaf] at hroot
    exact (Option.some.inj hroot).trans (not_not.mp hmerkle)
  · rw [hemitted, encrypt_all_length henc]
  · simp only [hemitted]
    intro i hi hi'
    have henc := encrypt_all_getElem henc hi hi'
    rw [Nat.zero_add, encrypted_hmac] at henc
    obtain ⟨hmac, hh, he⟩ := Option.map_eq_some_iff.mp henc
    exact ⟨hmac, hh, he.symm⟩

end Vanadium
