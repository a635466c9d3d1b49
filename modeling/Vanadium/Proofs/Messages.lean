import Vanadium.Common.ClientCommands
import Mathlib

/-!
# Messages survive the wire

What `serialize` writes, `deserialize` reads back. The two messages of the
preload protocol are a header and a list of digests, so both facts come down
to one: digests laid end to end are cut again where they were joined.
-/

namespace Vanadium

theorem from_be_bytes_to_be_bytes (x : U32) :
    from_be_bytes ((to_be_bytes x).getD 0 0) ((to_be_bytes x).getD 1 0)
      ((to_be_bytes x).getD 2 0) ((to_be_bytes x).getD 3 0) = x := by
  show x.extractLsb' 24 8 ++ x.extractLsb' 16 8 ++ x.extractLsb' 8 8 ++ x.extractLsb' 0 8 = x
  ext i hi
  simp only [BitVec.getElem_append, BitVec.getElem_extractLsb']
  grind

theorem to_be_bytes_length (x : U32) : (to_be_bytes x).length = 4 := rfl

theorem to_be_bytes_inj {x y : U32} (h : to_be_bytes x = to_be_bytes y) : x = y := by
  rw [← from_be_bytes_to_be_bytes x, h, from_be_bytes_to_be_bytes]

/-! ## Digests end to end -/

theorem flatten32_length (l : List (HashOutput 32)) : (flatten32 l).length = 32 * l.length := by
  induction l with
  | nil => rfl
  | cons h l ih =>
      rw [flatten32, List.flatMap_cons, List.length_append, Vector.length_toList,
        List.length_cons]
      rw [flatten32] at ih
      omega

theorem array_append {n : ℕ} (pre : Bytes) (v : Vector U8 n) (rest : Bytes) {off : ℕ}
    (h : pre.length = off) : array (pre ++ v.toList ++ rest) off n = v := by
  refine Vector.toList_inj.mp ?_
  show ((pre ++ v.toList ++ rest).drop off).takeD n 0 = v.toList
  rw [List.append_assoc, List.drop_left' h, List.takeD_left' Vector.length_toList]

theorem arrays32_succ (data : Bytes) (off count : ℕ) :
    arrays32 data off (count + 1) = array data off 32 :: arrays32 data (off + 32) count := by
  rw [arrays32, List.range_succ_eq_map, List.map_cons, List.map_map, Nat.mul_zero, Nat.add_zero]
  refine congrArg (array data off 32 :: ·) (List.map_congr_left fun k _ => ?_)
  rw [Function.comp, show off + 32 * (k + 1) = off + 32 + 32 * k by omega]

theorem arrays32_flatten32 (pre : Bytes) {off : ℕ} (h : pre.length = off)
    (l : List (HashOutput 32)) : arrays32 (pre ++ flatten32 l) off l.length = l := by
  induction l generalizing pre off with
  | nil => rfl
  | cons d l ih =>
      have hsplit : pre ++ flatten32 (d :: l) = pre ++ d.toList ++ flatten32 l := by
        rw [flatten32, List.flatMap_cons, ← List.append_assoc, ← flatten32]
      have hlen : (pre ++ d.toList).length = off + 32 := by
        rw [List.length_append, h, Vector.length_toList]
      rw [hsplit, List.length_cons, arrays32_succ, array_append pre d _ h, ih _ hlen]

/-! ## The preload messages -/

theorem GetCodePageHashes.deserialize_serialize (m : GetCodePageHashes) :
    GetCodePageHashes.deserialize m.serialize = .ok m := by
  have hlen : m.serialize.length = 5 + 32 * m.prev_batch_enc_hmacs.length := by
    rw [serialize, List.length_append, flatten32_length, List.length_append,
      to_be_bytes_length]
    rfl
  have hn := from_be_bytes_to_be_bytes m.n_prev_batch_pages
  have hpre : ([ClientCommandCode.getCodePageHashes.toU8] ++
      to_be_bytes m.n_prev_batch_pages).length = 5 := rfl
  have harr := arrays32_flatten32 _ hpre m.prev_batch_enc_hmacs
  have hcode : ClientCommandCode.try_from (m.serialize.getD 0 0) =
      some .getCodePageHashes := rfl
  have hcount : (5 + 32 * m.prev_batch_enc_hmacs.length - 5) / 32 =
      m.prev_batch_enc_hmacs.length := by omega
  rw [deserialize, if_neg (by omega)]
  simp only [hcode, hlen]
  rw [if_neg (by simp), if_neg (by omega), hcount, show m.serialize = _ from rfl, serialize,
    harr]
  exact congrArg (fun n => Except.ok (GetCodePageHashes.mk n _)) hn

/-- The device requires the announced number of digests. -/
theorem GetCodePageHashesResponse.deserialize_serialize (m : GetCodePageHashesResponse)
    (h : m.n_code_pages.toNat = m.code_page_hashes.length) :
    GetCodePageHashesResponse.deserialize m.serialize = .ok m := by
  have hlen : m.serialize.length = 4 + 32 * m.code_page_hashes.length := by
    rw [serialize, List.length_append, flatten32_length, to_be_bytes_length]
  have hn := from_be_bytes_to_be_bytes m.n_code_pages
  have hn' : from_be_bytes (m.serialize.getD 0 0) (m.serialize.getD 1 0)
      (m.serialize.getD 2 0) (m.serialize.getD 3 0) = m.n_code_pages := hn
  have harr := arrays32_flatten32 _ (to_be_bytes_length m.n_code_pages) m.code_page_hashes
  have hcount : (4 + 32 * m.code_page_hashes.length - 4) / 32 =
      m.code_page_hashes.length := by omega
  rw [deserialize, if_neg (by omega)]
  simp only [hlen, hn', hcount, h]
  rw [if_neg (by omega), if_neg (by simp), serialize, harr]

/-- What the device accepts as a batch has that many digests. -/
theorem GetCodePageHashesResponse.deserialize_ok {data : Bytes}
    {m : GetCodePageHashesResponse} (h : deserialize data = .ok m) :
    m.n_code_pages.toNat = m.code_page_hashes.length := by
  unfold deserialize at h
  split at h
  · cases h
  · simp only at h
    split at h
    · cases h
    · split at h
      · cases h
      · next hcount =>
          cases h
          rw [arrays32, List.length_map, List.length_range]
          exact (not_not.mp hcount).symm

/-! ## The page messages

Their fields are one after the other, so a byte is found behind what comes
before it. -/

theorem getD_append {pre rest : Bytes} {off : ℕ} (h : pre.length = off) (k : ℕ) :
    (pre ++ rest).getD (off + k) 0 = rest.getD k 0 := by
  rw [List.getD_append_right _ _ _ _ (by omega), h, Nat.add_sub_cancel_left]

theorem ClientCommandCode.try_from_toU8 (c : ClientCommandCode) :
    ClientCommandCode.try_from c.toU8 = some c := by
  cases c <;> rfl

theorem SectionKind.try_from_toU8 (k : SectionKind) : SectionKind.try_from k.toU8 = some k := by
  cases k <;> rfl

theorem BufferType.try_from_toU8 (t : BufferType) : BufferType.try_from t.toU8 = some t := by
  cases t <;> rfl

theorem check_command_code_toU8 (c : ClientCommandCode) (rest : Bytes) :
    check_command_code (c.toU8 :: rest) c = .ok () := by
  unfold check_command_code
  rw [List.getD_cons_zero, ClientCommandCode.try_from_toU8]
  simp

theorem deserialize_bare_toU8 (c : ClientCommandCode) : deserialize_bare c [c.toU8] = .ok () := by
  rw [deserialize_bare, if_neg (by simp), check_command_code_toU8]

theorem GetPageMessage.deserialize_serialize (m : GetPageMessage) :
    GetPageMessage.deserialize m.serialize = .ok m := by
  have hn := from_be_bytes_to_be_bytes m.page_index
  have hshape : m.serialize = ClientCommandCode.getPage.toU8 ::
      m.section_kind.toU8 :: to_be_bytes m.page_index := rfl
  rw [deserialize, hshape, if_neg (by simp [to_be_bytes_length]), check_command_code_toU8]
  simp only [List.getD_cons_succ, List.getD_cons_zero]
  simp only [SectionKind.try_from_toU8]
  exact congrArg (fun i => Except.ok (GetPageMessage.mk m.section_kind i)) hn

/-- The proof elements that are there are counted, and a page that is not
encrypted has the zero nonce. -/
theorem GetPageResponse.deserialize_serialize (r : GetPageResponse)
    (ht : r.t.toNat = r.proof.length)
    (hnonce : r.is_encrypted = false → r.nonce = Vector.replicate 12 0) :
    GetPageResponse.deserialize r.serialize = .ok r := by
  have hpage : r.page_data.toList.length = PAGE_SIZE := Vector.length_toList
  obtain ⟨flag, hflag⟩ : ∃ flag : U8, flag = if r.is_encrypted then 1 else 0 := ⟨_, rfl⟩
  have hshape : r.serialize = r.page_data.toList ++ (r.n :: r.t :: flag ::
      (r.nonce.toList ++ (r.proof_kind.toU8 :: flatten32 r.proof))) := by
    simp [serialize, hflag]
  have hpre : (r.page_data.toList ++ [r.n, r.t, flag]).length = PAGE_SIZE + 3 := by
    simp [hpage]
  have hpre' : (r.page_data.toList ++ [r.n, r.t, flag] ++ r.nonce.toList ++
      [r.proof_kind.toU8]).length = PAGE_SIZE + 16 := by
    simp [hpage]
  have hlen : r.serialize.length = PAGE_SIZE + 16 + 32 * r.proof.length := by
    rw [hshape]
    simp [flatten32_length]
    omega
  have hn : r.serialize.getD PAGE_SIZE 0 = r.n := by
    rw [hshape, getD_append hpage 0, List.getD_cons_zero]
  have ht' : r.serialize.getD (PAGE_SIZE + 1) 0 = r.t := by
    rw [hshape, getD_append hpage 1]
    rfl
  have hflag' : r.serialize.getD (PAGE_SIZE + 2) 0 = flag := by
    rw [hshape, getD_append hpage 2]
    rfl
  have hkind : r.serialize.getD (PAGE_SIZE + 15) 0 = r.proof_kind.toU8 := by
    have hsplit : r.serialize = (r.page_data.toList ++ [r.n, r.t, flag] ++ r.nonce.toList) ++
        (r.proof_kind.toU8 :: flatten32 r.proof) := by
      rw [hshape]
      simp
    have hl : (r.page_data.toList ++ [r.n, r.t, flag] ++ r.nonce.toList).length =
        PAGE_SIZE + 15 := by
      simp [hpage]
    rw [hsplit, getD_append hl 0, List.getD_cons_zero]
  have hread : array r.serialize 0 PAGE_SIZE = r.page_data := by
    have h := array_append [] r.page_data (r.n :: r.t :: flag ::
      (r.nonce.toList ++ (r.proof_kind.toU8 :: flatten32 r.proof))) List.length_nil
    rwa [List.nil_append, ← hshape] at h
  have hnonce' : array r.serialize (PAGE_SIZE + 3) 12 = r.nonce := by
    have h := array_append _ r.nonce (r.proof_kind.toU8 :: flatten32 r.proof) hpre
    rw [← h, hshape]
    simp
  have hproof : arrays32 r.serialize (PAGE_SIZE + 16) r.proof.length = r.proof := by
    have h := arrays32_flatten32 _ hpre' r.proof
    simp only [List.append_assoc, List.cons_append, List.nil_append] at h
    rw [hshape]
    exact h
  have hkind' : PageProofKind.try_from r.proof_kind.toU8 = some r.proof_kind := by
    cases r.proof_kind <;> rfl
  rw [deserialize, if_neg (by omega)]
  simp only [hn, ht', hflag', hkind, hkind', hread, hnonce']
  rw [if_neg (by omega), show (r.serialize.length - (PAGE_SIZE + 1 + 1 + 1 + 12 + 1)) / 32 =
    r.proof.length by omega, if_neg (by omega), hproof]
  cases hencrypted : r.is_encrypted with
  | true =>
      simp only [hencrypted, if_true] at hflag
      simp [hflag, ← hencrypted]
  | false =>
      simp only [hencrypted, Bool.false_eq_true, if_false] at hflag
      obtain ⟨_, _, _, _, _, _, _⟩ := r
      obtain rfl : _ = false := hencrypted
      obtain rfl := hnonce rfl
      simp [hflag]

theorem ProofContinuedResponse.deserialize_serialize (r : ProofContinuedResponse) :
    ProofContinuedResponse.deserialize r.serialize = .ok r := by
  have hlen : r.serialize.length = 1 + 32 * r.proof.length := by
    rw [serialize, List.length_append, flatten32_length]
    rfl
  have harr := arrays32_flatten32 [r.t] (show [r.t].length = 1 from rfl) r.proof
  rw [deserialize, if_neg (by omega)]
  simp only [hlen]
  rw [if_neg (by omega), show (1 + 32 * r.proof.length - 1) / 32 = r.proof.length by omega,
    show r.serialize = _ from rfl, serialize, harr]
  rfl

/-- The nonce of a page that is not encrypted is not written. -/
theorem CommitPageMessage.deserialize_serialize (m : CommitPageMessage)
    (h : m.is_encrypted = false → m.nonce = Vector.replicate 12 0) :
    CommitPageMessage.deserialize m.serialize = .ok m := by
  have hn := from_be_bytes_to_be_bytes m.page_index
  obtain ⟨flag, hflag⟩ : ∃ flag : U8, flag = if m.is_encrypted then 1 else 0 := ⟨_, rfl⟩
  have hshape : m.serialize = ClientCommandCode.commitPage.toU8 :: m.section_kind.toU8 ::
      (to_be_bytes m.page_index ++ (flag :: (m.nonce.toList ++ m.data.toList))) := by
    cases hencrypted : m.is_encrypted with
    | true => simp [serialize, hflag, hencrypted]
    | false =>
        rw [h hencrypted]
        simp [serialize, hflag, hencrypted]
  have hlen : m.serialize.length = 1 + 1 + 4 + 1 + 12 + PAGE_SIZE := by
    rw [hshape]
    simp [to_be_bytes_length]
    omega
  have hnonce : array m.serialize 7 12 = m.nonce := by
    have hpre : ([ClientCommandCode.commitPage.toU8, m.section_kind.toU8] ++
      to_be_bytes m.page_index ++ [flag]).length = 7 := rfl
    have h' := array_append _ m.nonce m.data.toList hpre
    rw [← h', hshape]
    simp
  have hdata : array m.serialize (1 + 1 + 4 + 1 + 12) PAGE_SIZE = m.data := by
    have hpre : ([ClientCommandCode.commitPage.toU8, m.section_kind.toU8] ++
        to_be_bytes m.page_index ++ [flag] ++ m.nonce.toList).length = 1 + 1 + 4 + 1 + 12 := by
      simp [to_be_bytes_length]
    have h' := array_append _ m.data [] hpre
    rw [← h', hshape]
    simp
  have hcode : check_command_code m.serialize .commitPage = .ok () := by
    rw [hshape, check_command_code_toU8]
  have hkind : SectionKind.try_from (m.serialize.getD 1 0) = some m.section_kind := by
    rw [hshape]
    exact SectionKind.try_from_toU8 m.section_kind
  have hindex : from_be_bytes (m.serialize.getD 2 0) (m.serialize.getD 3 0)
      (m.serialize.getD 4 0) (m.serialize.getD 5 0) = m.page_index := by
    rw [hshape]
    exact hn
  have hflag' : (m.serialize.getD 6 0 == 1) = m.is_encrypted := by
    have hread : m.serialize.getD 6 0 = flag := by
      rw [hshape]
      rfl
    rw [hread, hflag]
    cases m.is_encrypted <;> rfl
  rw [deserialize, if_neg (by omega), hnonce, hdata, hcode]
  simp only [hkind, hindex, hflag']
  cases hencrypted : m.is_encrypted with
  | true => rw [if_pos rfl, ← hencrypted]; rfl
  | false =>
      rw [if_neg Bool.false_ne_true, ← h hencrypted, ← hencrypted]
      rfl

theorem CommitPageProofResponse.deserialize_serialize (r : CommitPageProofResponse) :
    CommitPageProofResponse.deserialize r.serialize = .ok r := by
  have hlen : r.serialize.length = 2 + 32 + 32 * r.proof.length := by
    rw [serialize, List.length_append, flatten32_length]
    simp
  have hroot : array r.serialize 2 32 = r.new_root :=
    array_append ([r.n] ++ [r.t]) r.new_root (flatten32 r.proof) rfl
  have hpre : ([r.n] ++ [r.t] ++ r.new_root.toList).length = 2 + 32 := by simp
  have harr := arrays32_flatten32 _ hpre r.proof
  rw [deserialize, if_neg (by omega)]
  simp only [hlen, hroot]
  rw [if_neg (by omega), show (2 + 32 + 32 * r.proof.length - (2 + 32)) / 32 =
    r.proof.length by omega, show r.serialize = _ from rfl, serialize, harr]
  rfl

/-! ## The buffer messages -/

theorem SendBufferMessage.deserialize_serialize (m : SendBufferMessage)
    (h : m.data.length ≤ m.total_size.toNat) :
    SendBufferMessage.deserialize m.serialize = .ok m := by
  have hn := from_be_bytes_to_be_bytes m.total_size
  have hshape : m.serialize = ClientCommandCode.sendBuffer.toU8 :: m.buffer_type.toU8 ::
      (to_be_bytes m.total_size ++ m.data) := by
    simp [serialize]
  have hlen : m.serialize.length = 6 + m.data.length := by
    rw [hshape]
    simp [to_be_bytes_length]
    omega
  have hdrop : m.serialize.drop 6 = m.data := List.drop_left' rfl
  have hn' : from_be_bytes (m.serialize.getD 2 0) (m.serialize.getD 3 0)
      (m.serialize.getD 4 0) (m.serialize.getD 5 0) = m.total_size := hn
  have hcode : ClientCommandCode.try_from (m.serialize.getD 0 0) = some .sendBuffer := rfl
  have htype : BufferType.try_from (m.serialize.getD 1 0) = some m.buffer_type :=
    BufferType.try_from_toU8 m.buffer_type
  unfold deserialize
  simp only [hcode, htype, hn', hdrop]
  rw [if_neg (by simp [hlen]), if_neg (by omega)]

theorem SendBufferContinuedMessage.deserialize_serialize (data : Bytes) :
    SendBufferContinuedMessage.deserialize (SendBufferContinuedMessage.serialize data) =
      .ok data := by
  show (if _ then _ else do
    check_command_code (ClientCommandCode.sendBufferContinued.toU8 :: data) _; _) = _
  rw [if_neg (by simp [SendBufferContinuedMessage.serialize]), check_command_code_toU8]
  rfl

theorem ReceiveBufferResponse.deserialize_serialize (r : ReceiveBufferResponse)
    (h : r.content.length ≤ r.remaining_length.toNat) :
    ReceiveBufferResponse.deserialize r.serialize = .ok r := by
  have hn := from_be_bytes_to_be_bytes r.remaining_length
  have hlen : r.serialize.length = 4 + r.content.length := by
    rw [serialize, List.length_append, to_be_bytes_length]
  have hn' : from_be_bytes (r.serialize.getD 0 0) (r.serialize.getD 1 0)
      (r.serialize.getD 2 0) (r.serialize.getD 3 0) = r.remaining_length := hn
  have hdrop : r.serialize.drop 4 = r.content := List.drop_left' rfl
  rw [deserialize, if_neg (by omega)]
  simp only [hn', hdrop]
  rw [if_neg (by omega)]

end Vanadium
