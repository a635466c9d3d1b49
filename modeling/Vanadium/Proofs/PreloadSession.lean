import Vanadium.Proofs.ClientMemory
import Vanadium.Proofs.Preload

/-!
# The device and its client preload in step

A session is two runs, each of which receives what the other sends. `lockstep`
builds one from any offset of the list of hashes, by induction on what is left
to send: the client sends a batch, the device answers with its HMACs and waits,
and the empty batch, which is the only one that can be empty, ends both.
-/

namespace Vanadium

open Lib

namespace handler_preload_vapp

variable {dev : Device} {app_auth_key vapp_hash ephemeral_sk : HashOutput 32}

theorem encrypt_all_drop {i o : ℕ} {hashes es : List (HashOutput 32)}
    (h : encrypt_all dev app_auth_key vapp_hash ephemeral_sk i hashes = some es) :
    encrypt_all dev app_auth_key vapp_hash ephemeral_sk (i + o) (hashes.drop o) =
      some (es.drop o) := by
  induction o generalizing i hashes es with
  | zero => exact h
  | succ o ih =>
      cases hashes with
      | nil => cases h; rfl
      | cons a hashes =>
          obtain ⟨e, es', -, hes, rfl⟩ := encrypt_all_cons.mp h
          have := ih hes
          rwa [Nat.add_assoc, Nat.add_comm 1 o] at this

theorem encrypt_all_take {i b : ℕ} {hashes es : List (HashOutput 32)}
    (h : encrypt_all dev app_auth_key vapp_hash ephemeral_sk i hashes = some es) :
    encrypt_all dev app_auth_key vapp_hash ephemeral_sk i (hashes.take b) =
      some (es.take b) := by
  induction b generalizing i hashes es with
  | zero => rfl
  | succ b ih =>
      cases hashes with
      | nil => cases h; rfl
      | cons a hashes =>
          obtain ⟨e, es', he, hes, rfl⟩ := encrypt_all_cons.mp h
          exact encrypt_all_cons.mpr ⟨e, _, he, ih hes, rfl⟩

theorem encrypt_all_isSome (hhmac : ∀ key message, (dev.hmac_sha256 key message).isSome)
    (i : ℕ) (hashes : List (HashOutput 32)) :
    ∃ es, encrypt_all dev app_auth_key vapp_hash ephemeral_sk i hashes = some es := by
  induction hashes generalizing i with
  | nil => exact ⟨[], rfl⟩
  | cons a hashes ih =>
      obtain ⟨es, hes⟩ := ih (i + 1)
      obtain ⟨hmac, hh⟩ := Option.isSome_iff_exists.mp (hhmac app_auth_key.toList
        (TAG_PAGE_HMAC ++ vapp_hash.toList ++ to_be_bytes (BitVec.ofNat 32 i) ++ a.toList))
      exact ⟨_, encrypt_all_cons.mpr ⟨_, es, by
        rw [encrypted_hmac, Device.compute_code_page_hmac, hh, Option.map_some], hes, rfl⟩⟩

end handler_preload_vapp

/-! ## Batches -/

/-- The batch a client with these hashes sends at an offset. -/
def batch_at (leaf_hashes : List (HashOutput 32)) (offset : ℕ) :
    GetCodePageHashesResponse :=
  let batch_size := min GetCodePageHashesResponse.max_hashes (leaf_hashes.length - offset)
  { n_code_pages := BitVec.ofNat 32 batch_size
    code_page_hashes := (leaf_hashes.drop offset).take batch_size }

theorem max_hashes_eq : GetCodePageHashesResponse.max_hashes = 18 := rfl

section
variable {leaf_hashes : List (HashOutput 32)} {offset : ℕ}

theorem batch_at_length : (batch_at leaf_hashes offset).code_page_hashes.length =
    min GetCodePageHashesResponse.max_hashes (leaf_hashes.length - offset) := by
  unfold batch_at
  rw [List.length_take, List.length_drop]
  omega

theorem batch_at_count : (batch_at leaf_hashes offset).n_code_pages.toNat =
    (batch_at leaf_hashes offset).code_page_hashes.length := by
  rw [batch_at_length]
  unfold batch_at
  have := max_hashes_eq
  rw [BitVec.toNat_ofNat, Nat.mod_eq_of_lt (by omega)]

/-- A batch and the answer to it fit into an APDU. -/
theorem batch_at_fits (n : U32) (hmacs : List (HashOutput 32))
    (h : hmacs.length = (batch_at leaf_hashes offset).code_page_hashes.length) :
    (batch_at leaf_hashes offset).serialize.length ≤ MAX_APDU_DATA_SIZE ∧
      (GetCodePageHashes.serialize ⟨n, hmacs⟩).length ≤ MAX_APDU_DATA_SIZE := by
  have hlen : hmacs.length ≤ 18 := by rw [h, batch_at_length, max_hashes_eq]; omega
  have hmax : MAX_APDU_DATA_SIZE = 590 := rfl
  have hcode : [ClientCommandCode.getCodePageHashes.toU8].length = 1 := rfl
  rw [GetCodePageHashesResponse.serialize, GetCodePageHashes.serialize, List.length_append,
    List.length_append, List.length_append, flatten32_length, flatten32_length,
    to_be_bytes_length, to_be_bytes_length, ← h, hcode]
  dsimp only
  omega

theorem deserialize_batch_at :
    GetCodePageHashesResponse.deserialize (batch_at leaf_hashes offset).serialize =
      .ok (batch_at leaf_hashes offset) :=
  GetCodePageHashesResponse.deserialize_serialize _ batch_at_count

end

/-! ## The session -/

section
variable {dev : Device} {app_auth_key vapp_hash ephemeral_sk : HashOutput 32}
  {leaf_hashes es : List (HashOutput 32)} {n : ℕ}

/-- Where the device stands when the client has sent the first `o` hashes. -/
def progress_at (dev : Device) (leaf_hashes : List (HashOutput 32)) (o : ℕ) :
    handler_preload_vapp.Progress :=
  { n_page_hashes_received := o
    root_computer := .at_leaf dev.sha256 (fun i => leaf_hashes.getD i default)
      leaf_hashes.length o }

open handler_preload_vapp in
theorem process_batch_at
    (hes : encrypt_all dev app_auth_key vapp_hash ephemeral_sk 0 leaf_hashes = some es)
    {o : ℕ} (ho : o ≤ leaf_hashes.length) (c : Comm) :
    process_batch dev app_auth_key vapp_hash ephemeral_sk
        (batch_at leaf_hashes o).code_page_hashes (progress_at dev leaf_hashes o) [] c =
      .ok (progress_at dev leaf_hashes
          (o + (batch_at leaf_hashes o).code_page_hashes.length),
        (es.drop o).take (batch_at leaf_hashes o).code_page_hashes.length) c := by
  have hlen : (batch_at leaf_hashes o).code_page_hashes.length = _ := batch_at_length
  refine process_batch_ok.mpr ⟨rfl, _, _, ?_, ?_, rfl⟩
  · refine MerkleAccumulatorRootComputer.feed_all_at_leaf dev.sha256 _ _ o (by omega) ?_
    intro j hj
    rw [List.getD_eq_getElem _ _ (by omega)]
    simp [batch_at]
  · have h := encrypt_all_take (b := (batch_at leaf_hashes o).code_page_hashes.length)
      (encrypt_all_drop (o := o) hes)
    rw [Nat.zero_add] at h
    rw [batch_at_length] at h ⊢
    exact h

/-- The device's answer to the batch at an offset. -/
def answer_at (leaf_hashes es : List (HashOutput 32)) (o : ℕ) : GetCodePageHashes :=
  { n_prev_batch_pages :=
      BitVec.ofNat 32 (o + (batch_at leaf_hashes o).code_page_hashes.length)
    prev_batch_enc_hmacs :=
      (es.drop o).take (batch_at leaf_hashes o).code_page_hashes.length }

open handler_preload_vapp in
/-- One turn of the device's loop. -/
theorem device_turn
    (hes : encrypt_all dev app_auth_key vapp_hash ephemeral_sk 0 leaf_hashes = some es)
    {o : ℕ} (ho : o < leaf_hashes.length) (fuel : ℕ) (data : Bytes)
    (replies : List (Except InterruptError Bytes)) (sent : List Bytes) :
    loop dev app_auth_key vapp_hash ephemeral_sk leaf_hashes.length (fuel + 1)
        (progress_at dev leaf_hashes o) (batch_at leaf_hashes o).serialize
        { replies := .ok data :: replies, sent } =
      loop dev app_auth_key vapp_hash ephemeral_sk leaf_hashes.length fuel
        (progress_at dev leaf_hashes (o + (batch_at leaf_hashes o).code_page_hashes.length))
        data { replies, sent := (answer_at leaf_hashes es o).serialize :: sent } := by
  have hlen : (batch_at leaf_hashes o).code_page_hashes.length = _ := batch_at_length
  have hmax := max_hashes_eq
  have hread : ∀ c : Comm, Exec.ofExcept (fun _ => AppSW.incorrectData)
      (GetCodePageHashesResponse.deserialize (batch_at leaf_hashes o).serialize) c =
      .ok (batch_at leaf_hashes o) c :=
    fun c => Exec.ofExcept_ok.mpr ⟨deserialize_batch_at, rfl⟩
  have hsome : ¬ (batch_at leaf_hashes o).n_code_pages = 0 := by
    intro h0
    have hcount : (batch_at leaf_hashes o).n_code_pages.toNat = _ := batch_at_count
    have hz : (0 : U32).toNat = 0 := rfl
    rw [h0, hz] at hcount
    omega
  have hfits : ¬ (progress_at dev leaf_hashes o).n_page_hashes_received +
      (batch_at leaf_hashes o).n_code_pages.toNat > leaf_hashes.length := by
    rw [batch_at_count]
    show ¬ o + _ > _
    omega
  rw [loop, Exec.bind_apply_ok (hread _), if_neg hsome,
    Exec.reject_bind_neg hfits,
    Exec.bind_apply_ok (process_batch_at hes (by omega) _)]
  rfl

/-- One turn of the client's loop, when the device wants more. -/
theorem client_turn (o fuel : ℕ) (acc : List (HashOutput 32)) (m : GetCodePageHashes)
    (answers : List (Option (Client.StatusWord × Bytes))) (sent : List Client.APDUCommand) :
    Client.preload_vapp.loop leaf_hashes.length leaf_hashes (fuel + 1) o acc
        { answers := some (.interruptedExecution, m.serialize) :: answers, sent } =
      Client.preload_vapp.loop leaf_hashes.length leaf_hashes fuel
        (o + (batch_at leaf_hashes o).code_page_hashes.length)
        (acc ++ m.prev_batch_enc_hmacs)
        { answers
          sent := Client.apdu_continue (batch_at leaf_hashes o).serialize :: sent } := by
  have hread : ∀ t : Client.Transport,
      Exec.ofExcept (fun _ => "failed to parse GetCodePageHashes")
        (GetCodePageHashes.deserialize m.serialize) t = .ok m t :=
    fun t => Exec.ofExcept_ok.mpr ⟨m.deserialize_serialize, rfl⟩
  rw [batch_at_length]
  show Exec.bind (Exec.ofExcept (fun _ => "failed to parse GetCodePageHashes")
    (GetCodePageHashes.deserialize m.serialize)) _ _ = _
  rw [Exec.bind, hread]
  rfl

/-- Its last turn. -/
theorem client_last (o fuel : ℕ) (acc : List (HashOutput 32))
    (answers : List (Option (Client.StatusWord × Bytes))) (sent : List Client.APDUCommand) :
    Client.preload_vapp.loop leaf_hashes.length leaf_hashes (fuel + 1) o acc
        { answers := some (.ok, ephemeral_sk.toList) :: answers, sent } =
      .ok (ephemeral_sk, acc)
        { answers
          sent := Client.apdu_continue (batch_at leaf_hashes o).serialize :: sent } := by
  have hkey : array ephemeral_sk.toList 0 32 = ephemeral_sk := array_toList _
  have hlen : ¬ ephemeral_sk.toList.length ≠ 32 := not_not.mpr Vector.length_toList
  show Exec.bind (Exec.reject (ephemeral_sk.toList.length ≠ 32)
    "expected a 32-byte decryption key in response") _ _ = _
  rw [Exec.bind, Exec.reject, if_neg hlen]
  show Outcome.ok (array ephemeral_sk.toList 0 32, acc) _ = _
  rw [hkey]
  rfl

open handler_preload_vapp in
/-- From any offset, the two loops run to the end on each other's messages. -/
theorem lockstep
    (hes : encrypt_all dev app_auth_key vapp_hash ephemeral_sk 0 leaf_hashes = some es) :
    ∀ (left o : ℕ), o + left = leaf_hashes.length → ∃ (rest msgs : List Bytes),
      (∀ (fuel : ℕ) (sent : List Bytes), rest.length < fuel →
        loop dev app_auth_key vapp_hash ephemeral_sk leaf_hashes.length fuel
            (progress_at dev leaf_hashes o) (batch_at leaf_hashes o).serialize
            { replies := rest.map .ok, sent } =
          .ok (progress_at dev leaf_hashes leaf_hashes.length)
            { replies := [], sent := msgs.reverse ++ sent }) ∧
      ∀ (fuel : ℕ) (sent : List Client.APDUCommand) (acc : List (HashOutput 32)),
        msgs.length < fuel →
        Client.preload_vapp.loop leaf_hashes.length leaf_hashes fuel o acc
            { answers := msgs.map (fun m => some (.interruptedExecution, m)) ++
                [some (.ok, ephemeral_sk.toList)]
              sent } =
          .ok (ephemeral_sk, acc ++ es.drop o)
            { answers := []
              sent := (((batch_at leaf_hashes o).serialize :: rest).map
                Client.apdu_continue).reverse ++ sent } := by
  intro left
  induction left using Nat.strong_induction_on with
  | h left ih =>
      intro o ho
      have hlen : (batch_at leaf_hashes o).code_page_hashes.length = _ := batch_at_length
      have hmax := max_hashes_eq
      have heslen := encrypt_all_length hes
      rcases Nat.eq_zero_or_pos left with rfl | hpos
      · -- the empty batch
        obtain rfl : o = leaf_hashes.length := by omega
        have hread : ∀ c : Comm, Exec.ofExcept (fun _ => AppSW.incorrectData)
            (GetCodePageHashesResponse.deserialize
              (batch_at leaf_hashes leaf_hashes.length).serialize) c =
            .ok (batch_at leaf_hashes leaf_hashes.length) c :=
          fun c => Exec.ofExcept_ok.mpr ⟨deserialize_batch_at, rfl⟩
        have hzero : (batch_at leaf_hashes leaf_hashes.length).n_code_pages = 0 := by
          refine BitVec.eq_of_toNat_eq ?_
          rw [batch_at_count, hlen]
          show _ = 0
          omega
        refine ⟨[], [], ?_, ?_⟩
        · intro fuel sent hfuel
          obtain ⟨fuel, rfl⟩ := Nat.exists_eq_add_of_lt hfuel
          rw [loop, Exec.bind_apply_ok (hread _), if_pos hzero]
          rfl
        · intro fuel sent acc hfuel
          obtain ⟨fuel, rfl⟩ := Nat.exists_eq_add_of_lt hfuel
          rw [List.map_nil, List.nil_append, client_last,
            List.drop_of_length_le (by omega), List.append_nil]
          rfl
      · obtain ⟨rest, msgs, hdevice, hclient⟩ := ih
          (left - (batch_at leaf_hashes o).code_page_hashes.length) (by omega)
          (o + (batch_at leaf_hashes o).code_page_hashes.length) (by omega)
        refine ⟨(batch_at leaf_hashes
            (o + (batch_at leaf_hashes o).code_page_hashes.length)).serialize :: rest,
          (answer_at leaf_hashes es o).serialize :: msgs, ?_, ?_⟩
        · intro fuel sent hfuel
          obtain ⟨fuel, rfl⟩ := Nat.exists_eq_add_of_lt hfuel
          rw [List.map_cons, device_turn hes (by omega), hdevice _ _ (by simp; omega),
            List.reverse_cons, List.append_assoc, List.singleton_append]
        · intro fuel sent acc hfuel
          obtain ⟨fuel, rfl⟩ := Nat.exists_eq_add_of_lt hfuel
          rw [List.map_cons, List.cons_append, client_turn,
            hclient _ _ _ (by simp; omega), List.append_assoc, answer_at]
          simp only [List.map_cons, List.reverse_cons, List.append_assoc,
            List.singleton_append]
          rw [← List.drop_drop, List.take_append_drop]
          rfl

end

/-! ## The whole session -/

theorem leaf_hashes_ok {sha256 : Bytes → HashOutput 32} {seg : Client.MemorySegment}
    (hb : Built sha256 seg.content) (hsize : seg.content.data.length ≤ 2 ^ 32)
    (t : Client.Transport) (is : List ℕ) (his : ∀ i ∈ is, i < seg.content.data.length) :
    Client.preload_vapp.leaf_hashes sha256 seg is t =
      .ok (is.map (leafOf sha256 seg.content.data)) t := by
  obtain ⟨d, hd, ht⟩ := hb.isTree
  induction is with
  | nil => rfl
  | cons i is ih =>
      have hi := his i List.mem_cons_self
      have hidx : (BitVec.ofNat 32 i).toNat = i := by
        rw [BitVec.toNat_ofNat, Nat.mod_eq_of_lt (by omega)]
      have hpage : seg.get_page (BitVec.ofNat 32 i) = .ok (seg.content.data[i],
          siblings (hash_internal_node sha256) (leafOf sha256 seg.content.data) 0 d i) := by
        rw [Client.MemorySegment.get_page, hidx, MerkleAccumulator.get,
          List.getElem?_eq_getElem hi]
        simp only [prove_eq sha256 hd ht (hd ▸ hi)]
      rw [Client.preload_vapp.leaf_hashes,
        Exec.ofExcept_bind_eq_ok hpage]
      dsimp only
      rw [Exec.bind_apply_ok (ih fun j hj => his j (List.mem_cons_of_mem i hj)),
        List.map_cons, leafOf_eq sha256 hi]
      rfl

theorem Manifest.validate_ok {m : Manifest} (h : m.validate = .ok ()) :
    m.code_start < m.code_end := by
  unfold Manifest.validate at h
  by_cases hname : (as_bytes m.vapp_name).length > APP_NAME_MAX_LEN
  · rw [if_pos hname] at h
    cases h
  rw [if_neg hname] at h
  by_cases hversion : (as_bytes m.vapp_version).length > APP_VERSION_MAX_LEN
  · rw [if_pos hversion] at h
    cases h
  rw [if_neg hversion] at h
  by_cases hentry : m.entrypoint < m.code_start ∨ m.entrypoint ≥ m.code_end
  · rw [if_pos hentry] at h
    cases h
  obtain ⟨h1, h2⟩ := not_or.mp hentry
  exact Nat.lt_of_le_of_lt (Nat.le_of_not_lt h1) (Nat.lt_of_not_le h2)

theorem xor32_xor32 (a b : HashOutput 32) : xor32 (xor32 a b) b = a := by
  refine Vector.ext fun j hj => ?_
  simp [xor32]

theorem checked_next_power_of_two_le {n : ℕ} (h : n ≤ 2 ^ 24) :
    checked_next_power_of_two n ≤ 2 ^ 24 :=
  Nat.pow_le_pow_right (by omega) (Nat.clog_le_of_le_pow h)

/-- The client has the file the manifest was made from. -/
structure Describes (sha256 : Bytes → HashOutput 32) (manifest : Manifest)
    (code_segment : Client.Segment) (seg : Client.MemorySegment) : Prop where
  valid : manifest.validate = .ok ()
  size : code_segment.data.length < 2 ^ 32
  end_ : code_segment.end_ = code_segment.start + BitVec.ofNat 32 code_segment.data.length
  segment : Client.MemorySegment.new sha256 code_segment.start code_segment.data = some seg
  code_start : manifest.code_start = code_segment.start
  code_end : manifest.code_end = code_segment.end_
  code_merkle_root : manifest.code_merkle_root = seg.get_content_root

section
variable {dev : Device} {manifest : Manifest} {code_segment : Client.Segment}
  {seg : Client.MemorySegment}

theorem Describes.content (h : Describes dev.sha256 manifest code_segment seg) :
    Built dev.sha256 seg.content ∧
      seg.content.data.length = checked_next_power_of_two manifest.n_code_pages.toNat ∧
      seg.content.data.length ≤ 2 ^ 24 := by
  have hlt := Manifest.validate_ok h.valid
  rw [h.code_start, h.code_end, h.end_] at hlt
  obtain ⟨hb, hlen⟩ := Client.MemorySegment.new_ok h.segment h.size hlt
  have hn : manifest.n_code_pages.toNat ≤ 2 ^ 24 := by
    rw [Manifest.n_code_pages, h.code_start, h.code_end, h.end_,
      Manifest.n_pages_toNat hlt]
    have := (code_segment.start + BitVec.ofNat 32 code_segment.data.length).isLt
    omega
  have hlen' : seg.content.data.length =
      checked_next_power_of_two manifest.n_code_pages.toNat := by
    rw [hlen, Manifest.n_code_pages, h.code_start, h.code_end, h.end_]
  exact ⟨hb, hlen', hlen' ▸ checked_next_power_of_two_le hn⟩

/-- The hash the accumulator has for a code page. -/
def code_page_hash (dev : Device) (seg : Client.MemorySegment) (i : ℕ) : HashOutput 32 :=
  leafOf dev.sha256 seg.content.data i

/-- The padded hashes of the code are a tree with the manifest's root. -/
theorem Describes.root (h : Describes dev.sha256 manifest code_segment seg)
    {L : List (HashOutput 32)} (hL : L = (List.range seg.content.data.length).map
      (leafOf dev.sha256 seg.content.data)) :
    ∃ d, L.length = 2 ^ d ∧
      rootOf dev.sha256 (fun i => L.getD i default) d = manifest.code_merkle_root := by
  obtain ⟨hb, -, -⟩ := h.content
  obtain ⟨d, hd, ht⟩ := hb.isTree
  have hlen : L.length = 2 ^ d := by rw [hL, List.length_map, List.length_range, hd]
  refine ⟨d, hlen, ?_⟩
  rw [h.code_merkle_root, Client.MemorySegment.get_content_root, ht.root_eq]
  refine subRoot_congr fun i _ hi => ?_
  rw [Nat.zero_add, Nat.one_mul, ← hlen] at hi
  rw [List.getD_eq_getElem _ _ hi]
  simp only [hL, List.getElem_map, List.getElem_range]

open handler_preload_vapp in
/-- The device's run, given that of its loop. -/
theorem device_completes {ephemeral_sk : HashOutput 32}
    {take_from_bytes : Bytes → Option (Manifest × Bytes)} {serialized : Bytes}
    (hparse : take_from_bytes serialized = some (manifest, []))
    (h : Describes dev.sha256 manifest code_segment seg) {L : List (HashOutput 32)}
    (hL : L = (List.range seg.content.data.length).map
      (leafOf dev.sha256 seg.content.data))
    {rest msgs : List Bytes}
    (hloop : loop dev (dev.get_vapp_auth_key (manifest.get_vapp_hash dev.sha256))
        (manifest.get_vapp_hash dev.sha256) ephemeral_sk L.length (rest.length + 1)
        (progress_at dev L 0) (batch_at L 0).serialize
        { replies := rest.map .ok
          sent := [GetCodePageHashes.serialize ⟨0, []⟩] } =
      .ok (progress_at dev L L.length)
        { replies := [], sent := msgs.reverse ++ [GetCodePageHashes.serialize ⟨0, []⟩] }) :
    handler_preload_vapp dev take_from_bytes ephemeral_sk serialized
        { replies := ((batch_at L 0).serialize :: rest).map .ok, sent := [] } =
      .ok ephemeral_sk
        { replies := []
          sent := (GetCodePageHashes.serialize ⟨0, []⟩ :: msgs).reverse } := by
  obtain ⟨-, hn, -⟩ := h.content
  obtain ⟨d, hd, hroot⟩ := h.root hL
  have hadj : OutsourcedMemory.n_pages_adjusted manifest.n_code_pages.toNat = L.length := by
    rw [OutsourcedMemory.n_pages_adjusted, ← hn, hL, List.length_map, List.length_range]
  have hexch : exchange { n_prev_batch_pages := 0, prev_batch_enc_hmacs := [] }
      { replies := ((batch_at L 0).serialize :: rest).map .ok, sent := [] } =
      .ok (batch_at L 0).serialize
        { replies := rest.map .ok, sent := [GetCodePageHashes.serialize ⟨0, []⟩] } :=
    exchange_ok.mpr ⟨rfl, rfl⟩
  have hnew : (MerkleAccumulatorRootComputer.new L.length :
      Option (MerkleAccumulatorRootComputer 32)) =
      some (progress_at dev L 0).root_computer := by
    rw [progress_at, hd]
    exact MerkleAccumulatorRootComputer.new_eq dev.sha256 _
  have hcomputed : (progress_at dev L L.length).root_computer.root =
      some manifest.code_merkle_root := by
    rw [progress_at, hd, MerkleAccumulatorRootComputer.root_at_leaf, hroot]
  have hfuel : (((batch_at L 0).serialize :: rest).map
      (Except.ok : Bytes → Except InterruptError Bytes)).length = rest.length + 1 := by
    rw [List.length_map, List.length_cons]
  have hstart : (⟨0, (progress_at dev L 0).root_computer⟩ : Progress) =
      progress_at dev L 0 := rfl
  have hcount : ¬ (progress_at dev L L.length).n_page_hashes_received ≠ L.length :=
    not_not.mpr rfl
  unfold handler_preload_vapp
  rw [Exec.orElse_bind_some hparse]
  dsimp only
  rw [Exec.reject_bind_neg (by simp), Exec.ofExcept_bind_eq_ok h.valid, Exec.get_bind,
    Exec.bind_apply_ok hexch, hadj, Exec.unwrap_bind_some hnew, hfuel, hstart,
    Exec.bind_apply_ok hloop, Exec.reject_bind_neg hcount,
    Exec.unwrap_bind_some hcomputed, Exec.reject_bind_neg (not_not.mpr rfl),
    List.reverse_cons]
  rfl

/-- The client's run, given that of its loop. -/
theorem client_completes {ephemeral_sk : HashOutput 32}
    {to_allocvec : Manifest → Option Bytes} {serialized : Bytes}
    (hser : to_allocvec manifest = some serialized)
    (h : Describes dev.sha256 manifest code_segment seg) {L es : List (HashOutput 32)}
    (hL : L = (List.range seg.content.data.length).map
      (leafOf dev.sha256 seg.content.data))
    (hes : es.length = checked_next_power_of_two manifest.n_code_pages.toNat)
    {rest msgs : List Bytes}
    (hloop : Client.preload_vapp.loop L.length L
        ((msgs.map (fun m => some (Client.StatusWord.interruptedExecution, m)) ++
          [some (Client.StatusWord.ok, ephemeral_sk.toList)]).length + 1) 0 []
        { answers := msgs.map (fun m => some (.interruptedExecution, m)) ++
            [some (.ok, ephemeral_sk.toList)]
          sent := [Client.apdu_preload_vapp serialized] } =
      .ok (ephemeral_sk, [] ++ es.drop 0)
        { answers := []
          sent := (((batch_at L 0).serialize :: rest).map
            Client.apdu_continue).reverse ++ [Client.apdu_preload_vapp serialized] }) :
    Client.preload_vapp dev.sha256 to_allocvec manifest code_segment
        { answers := (GetCodePageHashes.serialize ⟨0, []⟩ :: msgs).map
            (fun m => some (.interruptedExecution, m)) ++ [some (.ok, ephemeral_sk.toList)]
          sent := [] } =
      .ok (es.mapIdx (Client.preload_vapp.decrypt dev.sha256 ephemeral_sk))
        { answers := []
          sent := (Client.apdu_preload_vapp serialized ::
            ((batch_at L 0).serialize :: rest).map Client.apdu_continue).reverse } := by
  obtain ⟨hb, hn, hmax⟩ := h.content
  have hlen : L.length = checked_next_power_of_two manifest.n_code_pages.toNat := by
    rw [hL, List.length_map, List.length_range, hn]
  have hhashes : ∀ t, Client.preload_vapp.leaf_hashes dev.sha256 seg (List.range L.length) t =
      .ok L t := by
    intro t
    have := leaf_hashes_ok hb (by omega) t (List.range seg.content.data.length)
      fun i hi => List.mem_range.mp hi
    rw [← hL] at this
    rwa [hlen, ← hn]
  have hexch : Client.exchange (Client.apdu_preload_vapp serialized)
      { answers := (GetCodePageHashes.serialize ⟨0, []⟩ :: msgs).map
          (fun m => some (.interruptedExecution, m)) ++ [some (.ok, ephemeral_sk.toList)]
        sent := [] } =
      .ok (.interruptedExecution, GetCodePageHashes.serialize ⟨0, []⟩)
        { answers := msgs.map (fun m => some (.interruptedExecution, m)) ++
            [some (.ok, ephemeral_sk.toList)]
          sent := [Client.apdu_preload_vapp serialized] } := rfl
  unfold Client.preload_vapp
  rw [Exec.orElse_bind_some hser, Exec.unwrap_bind_some h.segment, ← hlen,
    Exec.bind_apply_ok (hhashes _), Exec.bind_apply_ok hexch]
  dsimp only
  rw [Exec.reject_bind_neg (not_not.mpr rfl),
    Exec.ofExcept_bind_eq_ok (GetCodePageHashes.deserialize_serialize _), Exec.get_bind,
    Exec.bind_apply_ok hloop]
  dsimp only
  rw [List.drop_zero, List.nil_append, Exec.reject_bind_neg (not_not.mpr (hes.trans hlen.symm)),
    List.reverse_cons]
  rfl

open handler_preload_vapp in
/-- With the right file the two programs complete, and the client has the HMAC
of every page. -/
theorem preload_session (ephemeral_sk : HashOutput 32)
    (hhmac : ∀ key message, (dev.hmac_sha256 key message).isSome)
    {take_from_bytes : Bytes → Option (Manifest × Bytes)}
    {to_allocvec : Manifest → Option Bytes} {serialized : Bytes}
    (hser : to_allocvec manifest = some serialized)
    (hparse : take_from_bytes serialized = some (manifest, []))
    (h : Describes dev.sha256 manifest code_segment seg) :
    ∃ (batches messages : List Bytes) (hmacs : List (HashOutput 32)),
      handler_preload_vapp dev take_from_bytes ephemeral_sk serialized
          { replies := batches.map .ok, sent := [] } =
        .ok ephemeral_sk { replies := [], sent := messages.reverse } ∧
      Client.preload_vapp dev.sha256 to_allocvec manifest code_segment
          { answers := messages.map (fun m => some (.interruptedExecution, m)) ++
              [some (.ok, ephemeral_sk.toList)]
            sent := [] } =
        .ok hmacs
          { answers := []
            sent := (Client.apdu_preload_vapp serialized ::
              batches.map Client.apdu_continue).reverse } ∧
      hmacs.length = checked_next_power_of_two manifest.n_code_pages.toNat ∧
      ∀ i (hi : i < hmacs.length), dev.compute_code_page_hmac
        (dev.get_vapp_auth_key (manifest.get_vapp_hash dev.sha256))
        (manifest.get_vapp_hash dev.sha256) (BitVec.ofNat 32 i) (code_page_hash dev seg i) =
          some hmacs[i] := by
  obtain ⟨hb, hn, hmax⟩ := h.content
  obtain ⟨L, hL⟩ : ∃ L, L = (List.range seg.content.data.length).map
      (leafOf dev.sha256 seg.content.data) := ⟨_, rfl⟩
  have hlen : L.length = seg.content.data.length := by
    rw [hL, List.length_map, List.length_range]
  have hget : ∀ i (hi : i < L.length), L[i] = code_page_hash dev seg i := by
    intro i hi
    simp only [hL, List.getElem_map, List.getElem_range]
    rfl
  obtain ⟨es, hes⟩ : ∃ es, encrypt_all dev
      (dev.get_vapp_auth_key (manifest.get_vapp_hash dev.sha256))
      (manifest.get_vapp_hash dev.sha256) ephemeral_sk 0 L = some es :=
    encrypt_all_isSome hhmac 0 L
  have heslen := encrypt_all_length hes
  obtain ⟨rest, msgs, hdevice, hclient⟩ := lockstep hes L.length 0 (Nat.zero_add _)
  refine ⟨(batch_at L 0).serialize :: rest,
    GetCodePageHashes.serialize { n_prev_batch_pages := 0, prev_batch_enc_hmacs := [] } :: msgs,
    es.mapIdx (Client.preload_vapp.decrypt dev.sha256 ephemeral_sk), ?_, ?_, ?_, ?_⟩
  · exact device_completes hparse h hL (hdevice _ _ (Nat.lt_succ_self _))
  · exact client_completes hser h hL (heslen.trans (by rw [hlen, hn]))
      (hclient _ _ _ (by
      rw [List.length_append, List.length_map, List.length_singleton]
      omega))
  · rw [List.length_mapIdx, heslen, hlen, hn]
  · intro i hi
    rw [List.length_mapIdx] at hi
    have henc := encrypt_all_getElem hes (heslen ▸ hi) hi
    rw [Nat.zero_add, encrypted_hmac, hget] at henc
    obtain ⟨hmac, hh, he⟩ := Option.map_eq_some_iff.mp henc
    rw [hh, List.getElem_mapIdx, ← he]
    exact congrArg some (xor32_xor32 _ _).symm

end

/-! ## What the pager accepts -/

/-- A page of code that comes with one HMAC is accepted if and only if the HMAC
is that of its hash at this index. -/
theorem load_page_hmac {E : Type} (dev : Device) (page_index : U32) {m : OutsourcedMemory E}
    {data : Bytes} {replies : List (Except InterruptError Bytes)} {r : GetPageResponse}
    {hmac : HashOutput 32} (hcode : m.section_kind = .code)
    (hreplies : m.comm.replies = .ok data :: replies)
    (hread : GetPageResponse.deserialize data = .ok r) (hkind : r.proof_kind = .hmac)
    (hclear : r.is_encrypted = false) (hn : r.n = 1) (ht : r.t = 1) (hproof : r.proof = [hmac]) :
    (∃ m', OutsourcedMemory.load_page dev page_index m =
        .ok (r.page_data, dev.sha256 (recordMessage (none, r.page_data))) m') ↔
      dev.compute_code_page_hmac (dev.get_vapp_auth_key m.vapp_hash) m.vapp_hash page_index
        (dev.sha256 (recordMessage (none, r.page_data))) = some hmac := by
  obtain ⟨m₁, hexch⟩ : ∃ m₁, OutsourcedMemory.exchange (GetPageMessage.serialize
      { section_kind := m.section_kind, page_index }) m = .ok data m₁ := by
    refine ⟨_, Exec.zoom_ok.mpr ⟨⟨replies, GetPageMessage.serialize
      ⟨m.section_kind, page_index⟩ :: m.comm.sent⟩, ?_, rfl⟩⟩
    unfold interrupt
    rw [hreplies]
  obtain ⟨m₂, hhash⟩ : ∃ m₂, OutsourcedMemory.with_hasher (fun h => get_page_hash dev.sha256 h
      r.page_data.toList none) m₁ =
      .ok (dev.sha256 (recordMessage (none, r.page_data))) m₂ := by
    have h : (get_page_hash dev.sha256 m₁.hasher r.page_data.toList none).1 =
        dev.sha256 (recordMessage (none, r.page_data)) :=
      congrArg Prod.fst (get_page_hash_eq dev.sha256 m₁.hasher (none, r.page_data))
    refine ⟨{ m₁ with hasher := (get_page_hash dev.sha256 m₁.hasher r.page_data.toList
      none).2 }, ?_⟩
    show Outcome.ok (get_page_hash dev.sha256 m₁.hasher r.page_data.toList none).1 _ = _
    rw [h]
  unfold OutsourcedMemory.load_page
  rw [Exec.get_bind, Exec.bind_apply_ok hexch, Exec.ofExcept_bind_eq_ok hread]
  simp only [hclear, Bool.false_eq_true, if_false]
  rw [Exec.bind_apply_ok hhash]
  simp only [hkind]
  rw [Exec.reject_bind_neg (by simp [hclear]), Exec.reject_bind_neg (by simp [hn, ht]),
    Exec.reject_bind_neg (by simp [hproof]), Exec.reject_bind_neg (by simp [hcode]), hproof]
  constructor
  · rintro ⟨m', h⟩
    obtain ⟨expected, hexp, h⟩ := Exec.orElse_bind_ok.mp h
    obtain ⟨heq, -⟩ := Exec.reject_bind_ok.mp h
    rw [hexp, ← not_not.mp heq]
    rfl
  · intro h
    refine ⟨m₂, ?_⟩
    rw [Exec.orElse_bind_some h, Exec.reject_bind_neg (by simp)]
    rfl

/-! ## The protocol -/

/-- Against any host, the key comes out only after the hashes of the registered
tree went in, in order, and each masked HMAC that was sent is the tag of the
hash with its index. With the honest client, both programs complete for every
page count, and a page with the hash of the tree is accepted with exactly the
HMAC that the client recovered. -/
theorem preload_vapp_authenticates (dev : Device)
    (hhmac : ∀ key message, (dev.hmac_sha256 key message).isSome) :
    (∀ (take_from_bytes : Bytes → Option (Manifest × Bytes)) (ephemeral_sk key : HashOutput 32)
      (data_raw : Bytes) (c c' : Comm),
      handler_preload_vapp dev take_from_bytes ephemeral_sk data_raw c = .ok key c' →
      ∃ manifest consumed messages, take_from_bytes data_raw = some (manifest, []) ∧
        c.replies = consumed ++ c'.replies ∧ c'.sent = messages.reverse ++ c.sent ∧
        Released dev ephemeral_sk manifest (received consumed) (emitted messages) ∧
        ∀ (S : Set Bytes) (d : ℕ) (leaf : ℕ → HashOutput 32), CollisionFree dev.sha256 S →
          TreeIn dev.sha256 leaf d S →
          TreeIn dev.sha256 (fun i => (received consumed).getD i default) d S →
          (received consumed).length = 2 ^ d →
          rootOf dev.sha256 leaf d = manifest.code_merkle_root →
          ∀ i (hi : i < (received consumed).length), (received consumed)[i] = leaf i) ∧
    ∀ (take_from_bytes : Bytes → Option (Manifest × Bytes))
      (to_allocvec : Manifest → Option Bytes) (ephemeral_sk : HashOutput 32)
      (manifest : Manifest) (serialized : Bytes) (code_segment : Client.Segment)
      (seg : Client.MemorySegment), to_allocvec manifest = some serialized →
      take_from_bytes serialized = some (manifest, []) →
      Describes dev.sha256 manifest code_segment seg →
      ∃ (batches messages : List Bytes) (hmacs : List (HashOutput 32)),
        handler_preload_vapp dev take_from_bytes ephemeral_sk serialized
            { replies := batches.map .ok, sent := [] } =
          .ok ephemeral_sk { replies := [], sent := messages.reverse } ∧
        Client.preload_vapp dev.sha256 to_allocvec manifest code_segment
            { answers := messages.map (fun m => some (.interruptedExecution, m)) ++
                [some (.ok, ephemeral_sk.toList)]
              sent := [] } =
          .ok hmacs
            { answers := []
              sent := (Client.apdu_preload_vapp serialized ::
                batches.map Client.apdu_continue).reverse } ∧
        hmacs.length = OutsourcedMemory.n_pages_adjusted manifest.n_code_pages.toNat ∧
        ∀ (i : ℕ) (hi : i < hmacs.length) (E : Type) (m : OutsourcedMemory E) (data : Bytes)
          (replies : List (Except InterruptError Bytes)) (r : GetPageResponse)
          (hmac : HashOutput 32), m.section_kind = .code →
          m.vapp_hash = manifest.get_vapp_hash dev.sha256 →
          m.comm.replies = .ok data :: replies → GetPageResponse.deserialize data = .ok r →
          r.proof_kind = .hmac → r.is_encrypted = false → r.n = 1 → r.t = 1 →
          r.proof = [hmac] →
          dev.sha256 (recordMessage (none, r.page_data)) = code_page_hash dev seg i →
          ((∃ m', OutsourcedMemory.load_page dev (BitVec.ofNat 32 i) m =
            .ok (r.page_data, code_page_hash dev seg i) m') ↔ hmac = hmacs[i]) := by
  refine ⟨?_, ?_⟩
  · intro take_from_bytes ephemeral_sk key data_raw c c' h
    obtain ⟨manifest, consumed, messages, hparse, -, hreplies, hsent, hrel⟩ :=
      handler_preload_vapp_ok h
    exact ⟨manifest, consumed, messages, hparse, hreplies, hsent, hrel,
      fun S d leaf hS htree hfed hlen hroot => hrel.committed hS htree hfed hlen hroot⟩
  · intro take_from_bytes to_allocvec ephemeral_sk manifest serialized code_segment seg hser
      hparse h
    obtain ⟨batches, messages, hmacs, hdevice, hclient, hlen, htags⟩ :=
      preload_session ephemeral_sk hhmac hser hparse h
    refine ⟨batches, messages, hmacs, hdevice, hclient, hlen, ?_⟩
    intro i hi E m data replies r hmac hcode hvapp hreplies hread hkind hclear hn ht hproof
      hpage
    have hiff := load_page_hmac dev (BitVec.ofNat 32 i) hcode hreplies hread hkind hclear hn ht hproof
    rw [hpage, hvapp, htags i hi] at hiff
    rw [hiff]
    exact ⟨fun he => (Option.some.inj he).symm, fun he => by rw [he]⟩

/-! ## A V-App of one page

The code is one return instruction. The hash functions have the values of
SHA-256 and HMAC-SHA-256 on the messages of the session. -/

namespace OnePage

def leaf : HashOutput 32 :=
  ofHex 0x0d4923b40bae77cd59f8ecac92d63be6ddff3e08c1861bf848f90653d9ff41d4

def zeros : HashOutput 32 := Vector.replicate 32 0

def manifest : Manifest where
  manifest_version := 0
  vapp_name := "a"
  vapp_version := "1"
  entrypoint := 0x10000
  code_start := 0x10000
  code_end := 0x10002
  code_merkle_root := leaf
  data_start := 0x20000
  data_end := 0x20001
  data_merkle_root := zeros
  stack_start := 0xf0000000
  stack_end := 0xf0010000
  stack_merkle_root := zeros
  n_storage_slots := 0

/-- The manifest in the `postcard` format. -/
def serialized : Bytes :=
  [0x00, 0x01, 0x61, 0x01, 0x31, 0x80, 0x80, 0x04, 0x80, 0x80, 0x04, 0x82, 0x80, 0x04] ++
    leaf.toList ++ [0x80, 0x80, 0x08, 0x81, 0x80, 0x08] ++ zeros.toList ++
    [0x80, 0x80, 0x80, 0x80, 0x0f, 0x80, 0x80, 0x84, 0x80, 0x0f] ++ zeros.toList ++ [0x00]

/-- The messages of the session have different lengths. -/
def sha256 (m : Bytes) : HashOutput 32 :=
  match m.length with
  | 270 => leaf
  | 136 => ofHex 0x8bef49e92f3df78b51b5bd20143d1e13433123ba5dab2bd2e4ab1ca7b69a4b36
  | 16 => ofHex 0x345b02644f76e6743f3e26a65e2c3ee743303052692c945d338cc3c2ae7c9f21
  | 96 => ofHex 0xc9d40876e3f8ba48c3e8f19f62c51e052760184a61a236b1ae63d1fe72f7000b
  | _ => ofHex 0xba50c08842f3a433d60823d2758a6588322e8dc371f9d5c0c9a1f31cf7ea20b1

def device : Device where
  sha256 := sha256
  hmac_sha256 _ _ :=
    some (ofHex 0x99624cb0e69cf89606da27639558ce381663af1a39c239f3da7231ffe0451925)
  auth_key := zeros

def code_segment : Client.Segment where
  data := [0x82, 0x80]
  start := 0x10000
  end_ := 0x10002

theorem described : ∃ seg, Describes sha256 manifest code_segment seg := by
  have hseg : (Client.MemorySegment.new sha256 0x10000 [0x82, 0x80]).map
      Client.MemorySegment.get_content_root = some leaf := by decide +kernel
  obtain ⟨seg, hseg, hroot⟩ := Option.map_eq_some_iff.mp hseg
  exact ⟨seg, by decide +kernel, by decide, by decide, hseg, rfl, rfl, hroot.symm⟩

end OnePage

theorem preload_vapp_authenticates_one_page :
    ∃ (batches messages : List Bytes) (hmacs : List (HashOutput 32)),
      handler_preload_vapp OnePage.device
          (fun data => if data = OnePage.serialized then some (OnePage.manifest, []) else none)
          (Vector.replicate 32 1) OnePage.serialized
          { replies := batches.map .ok, sent := [] } =
        .ok (Vector.replicate 32 1) { replies := [], sent := messages.reverse } ∧
      hmacs.length = OutsourcedMemory.n_pages_adjusted 1 := by
  obtain ⟨seg, hseg⟩ := OnePage.described
  obtain ⟨-, hcomplete⟩ := preload_vapp_authenticates OnePage.device fun _ _ => rfl
  obtain ⟨batches, messages, hmacs, hdevice, -, hlen, -⟩ := hcomplete
    (fun data => if data = OnePage.serialized then some (OnePage.manifest, []) else none)
    (fun _ => some OnePage.serialized) (Vector.replicate 32 1) OnePage.manifest
    OnePage.serialized OnePage.code_segment seg rfl (if_pos rfl) hseg
  exact ⟨batches, messages, hmacs, hdevice, hlen⟩

end Vanadium
