import Vanadium.Common.MessageReader
import Vanadium.Proofs.Messages

/-!
# Messages are read as they are written

Every message the VM and the host exchange, in both directions. A reader looks
at fixed places of the bytes, all of them inside once the length was checked,
so that it can be replaced by the function that answers what it answers
(`read_eq`). That function undoes the serializer if the fields of the message
agree; and what it accepts is put together again, field by field from the last
to the first, to the bytes it was read from.

Two things are in the way of saying this of all bytes. The reader of a buffer
message looks at the first byte before it knows that there is one. And the flag
of an encrypted page is compared with 1, so that a 2 is as good as a 0.
-/

namespace Vanadium

open Lib

namespace MessageReader

variable {α β : Type} {data : Bytes} {off n : ℕ}

theorem byte_bind {g : U8 → MessageReader β} (h : off < data.length) :
    (byte off >>= g) data = g (data.getD off 0) data := by
  have hget : data[off]? = some (data.getD off 0) := by
    rw [List.getD_eq_getElem?_getD, List.getElem?_eq_getElem h, Option.getD_some]
  refine Exec.bind_apply_ok ?_
  rw [byte, Exec.get_bind, hget]
  rfl

theorem array_at_bind {g : Vector U8 n → MessageReader β} (h : off + n ≤ data.length) :
    (array_at off n >>= g) data = g (array data off n) data := by
  refine Exec.bind_apply_ok ?_
  rw [array_at, Exec.get_bind, Exec.assert_bind_pos h]
  rfl

theorem arrays_at_bind {g : List (HashOutput 32) → MessageReader β}
    (h : off + 32 * n ≤ data.length) :
    (arrays_at off n >>= g) data = g (arrays32 data off n) data := by
  refine Exec.bind_apply_ok ?_
  rw [arrays_at, Exec.get_bind, Exec.assert_bind_pos h]
  rfl

theorem rest_from_bind {g : Bytes → MessageReader β} (h : off ≤ data.length) :
    (rest_from off >>= g) data = g (data.drop off) data := by
  refine Exec.bind_apply_ok ?_
  rw [rest_from, Exec.get_bind, Exec.assert_bind_pos h]
  rfl

theorem u32_at_bind {g : U32 → MessageReader β} (h : off + 4 ≤ data.length) :
    (u32_at off >>= g) data = g (from_be_bytes (data.getD off 0) (data.getD (off + 1) 0)
      (data.getD (off + 2) 0) (data.getD (off + 3) 0)) data := by
  refine Exec.bind_apply_ok ?_
  rw [u32_at, byte_bind (by omega), byte_bind (by omega), byte_bind (by omega),
    byte_bind (by omega)]
  rfl

theorem nonce_at_bind {g : Vector U8 12 → MessageReader β} {is_encrypted : Bool}
    (h : off + 12 ≤ data.length) : (nonce_at is_encrypted off >>= g) data =
      g (if is_encrypted then array data off 12 else Vector.replicate 12 0) data := by
  cases is_encrypted with
  | true => exact array_at_bind h
  | false => rfl

theorem command_code_bind {g : Unit → MessageReader β} {expected : ClientCommandCode}
    (h : 0 < data.length) : (command_code expected >>= g) data =
      (Exec.ofExcept id (check_command_code data expected) >>= g) data := by
  unfold check_command_code
  rw [command_code, Exec.bind_bind, byte_bind h, Exec.bind_bind]
  cases ClientCommandCode.try_from (data.getD 0 0) with
  | none => rfl
  | some code =>
      rw [Exec.orElse_bind_some rfl]
      dsimp only
      by_cases hne : code ≠ expected
      · rw [Exec.reject_bind_pos hne, if_pos hne]
        rfl
      · rw [Exec.reject_bind_neg hne, if_neg hne]
        rfl

theorem section_byte_bind {g : SectionKind → MessageReader β} (h : 1 < data.length) :
    (section_byte >>= g) data =
      (Exec.orElse (SectionKind.try_from (data.getD 1 0)) .invalidSectionKind >>= g) data := by
  rw [section_byte, Exec.bind_bind, byte_bind h]

theorem digests_from_bind {g : List (HashOutput 32) → MessageReader β}
    (h : off ≤ data.length) (hmod : (data.length - off) % 32 = 0) : (digests_from off >>= g) data =
      g (arrays32 data off ((data.length - off) / 32)) data := by
  refine Exec.bind_apply_ok ?_
  have hwhole : off + 32 * ((data.length - off) / 32) ≤ data.length := by omega
  have hread := arrays_at_bind (g := pure) hwhole
  rw [Exec.bind_pure'] at hread
  rw [digests_from, Exec.get_bind, Exec.reject_bind_neg (by omega)]
  exact hread

theorem digests_from_fails {g : List (HashOutput 32) → MessageReader β}
    (hmod : (data.length - off) % 32 ≠ 0) :
    (digests_from off >>= g) data = .err .invalidDataLength data := by
  refine Exec.bind_apply_err ?_
  rw [digests_from, Exec.get_bind]
  exact Exec.reject_bind_pos hmod

end MessageReader

open MessageReader

theorem GetPageMessage.read_eq (data : Bytes) :
    read data = Exec.ofExcept id (deserialize data) data := by
  unfold read deserialize
  rw [Exec.get_bind]
  by_cases hlen : data.length ≠ 6
  · rw [Exec.reject_bind_pos hlen, if_pos hlen]
    rfl
  rw [Exec.reject_bind_neg hlen, if_neg hlen, command_code_bind (by omega)]
  cases check_command_code data .getPage with
  | error e => rfl
  | ok u =>
      rw [Exec.ofExcept_bind_eq_ok rfl, section_byte_bind (by omega)]
      cases SectionKind.try_from (data.getD 1 0) with
      | none => rfl
      | some kind =>
          rw [Exec.orElse_bind_some rfl, u32_at_bind (by omega)]
          rfl

theorem GetPageResponse.read_eq (data : Bytes) :
    read data = Exec.ofExcept id (deserialize data) data := by
  unfold read deserialize
  rw [Exec.get_bind]
  by_cases hlen : data.length < PAGE_SIZE + 1 + 1 + 1 + 12 + 1
  · rw [Exec.reject_bind_pos hlen, if_pos hlen]
    rfl
  rw [Exec.reject_bind_neg hlen, if_neg hlen, array_at_bind (by omega), byte_bind (by omega),
    byte_bind (by omega), byte_bind (by omega)]
  dsimp only
  rw [nonce_at_bind (by omega), byte_bind (by omega)]
  cases PageProofKind.try_from (data.getD (PAGE_SIZE + 15) 0) with
  | none => rfl
  | some kind =>
      rw [Exec.orElse_bind_some rfl]
      dsimp only
      by_cases hmod : (data.length - (PAGE_SIZE + 1 + 1 + 1 + 12 + 1)) % 32 ≠ 0
      · rw [Exec.reject_bind_pos hmod, if_pos hmod]
        rfl
      rw [Exec.reject_bind_neg hmod, if_neg hmod]
      by_cases ht : (data.getD (PAGE_SIZE + 1) 0).toNat ≠
          (data.length - (PAGE_SIZE + 1 + 1 + 1 + 12 + 1)) / 32
      · rw [Exec.reject_bind_pos ht, if_pos ht]
        rfl
      rw [Exec.reject_bind_neg ht, if_neg ht, arrays_at_bind (by omega)]
      rfl

theorem read_bare_eq (expected : ClientCommandCode) (data : Bytes) :
    read_bare expected data = Exec.ofExcept id (deserialize_bare expected data) data := by
  unfold read_bare deserialize_bare
  rw [Exec.get_bind]
  by_cases hlen : data.length ≠ 1
  · rw [Exec.reject_bind_pos hlen, if_pos hlen]
    rfl
  rw [Exec.reject_bind_neg hlen, if_neg hlen]
  have h : (command_code expected >>= pure) data = _ := command_code_bind (by omega)
  rw [Exec.bind_pure', Exec.bind_pure'] at h
  exact h

theorem ProofContinuedResponse.read_eq (data : Bytes) :
    read data = Exec.ofExcept id (deserialize data) data := by
  unfold read deserialize
  rw [Exec.get_bind]
  by_cases hlen : data.length < 1
  · rw [Exec.reject_bind_pos hlen, if_pos hlen]
    rfl
  rw [Exec.reject_bind_neg hlen, if_neg hlen, byte_bind (by omega)]
  dsimp only
  by_cases hmod : (data.length - 1) % 32 ≠ 0
  · rw [digests_from_fails hmod, if_pos hmod]
    rfl
  rw [digests_from_bind (by omega) (not_not.mp hmod), if_neg hmod]
  rfl

theorem CommitPageMessage.read_eq (data : Bytes) :
    read data = Exec.ofExcept id (deserialize data) data := by
  unfold read deserialize
  rw [Exec.get_bind]
  by_cases hlen : data.length ≠ 1 + 1 + 4 + 1 + 12 + PAGE_SIZE
  · rw [Exec.reject_bind_pos hlen, if_pos hlen]
    rfl
  rw [Exec.reject_bind_neg hlen, if_neg hlen, command_code_bind (by omega)]
  cases check_command_code data .commitPage with
  | error e => rfl
  | ok u =>
      rw [Exec.ofExcept_bind_eq_ok rfl, section_byte_bind (by omega)]
      cases SectionKind.try_from (data.getD 1 0) with
      | none => rfl
      | some kind =>
          rw [Exec.orElse_bind_some rfl, u32_at_bind (by omega), byte_bind (by omega)]
          dsimp only
          rw [nonce_at_bind (by omega), array_at_bind (by omega)]
          rfl

theorem CommitPageProofResponse.read_eq (data : Bytes) :
    read data = Exec.ofExcept id (deserialize data) data := by
  unfold read deserialize
  rw [Exec.get_bind]
  by_cases hlen : data.length < 2 + 32
  · rw [Exec.reject_bind_pos hlen, if_pos hlen]
    rfl
  rw [Exec.reject_bind_neg hlen, if_neg hlen, byte_bind (by omega), byte_bind (by omega),
    array_at_bind (by omega)]
  dsimp only
  by_cases hmod : (data.length - (2 + 32)) % 32 ≠ 0
  · rw [digests_from_fails hmod, if_pos hmod]
    rfl
  rw [digests_from_bind (by omega) (not_not.mp hmod), if_neg hmod]
  rfl

/-- Of the messages that are there. -/
theorem SendBufferMessage.read_eq {data : Bytes} (hne : data ≠ []) :
    read data = Exec.ofExcept id (deserialize data) data := by
  have hpos := List.length_pos_of_ne_nil hne
  unfold read deserialize
  rw [Exec.get_bind, byte_bind hpos]
  cases ClientCommandCode.try_from (data.getD 0 0) with
  | none => rfl
  | some code =>
      rw [Exec.orElse_bind_some rfl]
      dsimp only
      by_cases hcode : code ≠ .sendBuffer ∨ data.length < 6
      · rw [Exec.reject_bind_pos hcode, if_pos hcode]
        rfl
      obtain ⟨-, hlen⟩ := not_or.mp hcode
      rw [Exec.reject_bind_neg hcode, if_neg hcode, byte_bind (by omega)]
      cases BufferType.try_from (data.getD 1 0) with
      | none => rfl
      | some type =>
          rw [Exec.orElse_bind_some rfl, u32_at_bind (by omega), rest_from_bind (by omega)]
          dsimp only
          by_cases hbig : (data.drop 6).length > (from_be_bytes (data.getD 2 0) (data.getD 3 0)
              (data.getD 4 0) (data.getD 5 0)).toNat
          · rw [Exec.reject_bind_pos hbig, if_pos hbig]
            rfl
          · rw [Exec.reject_bind_neg hbig, if_neg hbig]
            rfl

/-- There is no first byte to look at. -/
theorem SendBufferMessage.read_nil : read [] = .stop .panic [] := rfl

theorem SendBufferContinuedMessage.read_eq (data : Bytes) :
    read data = Exec.ofExcept id (deserialize data) data := by
  unfold read deserialize
  rw [Exec.get_bind]
  by_cases hlen : data.length < 1
  · rw [Exec.reject_bind_pos hlen, if_pos hlen]
    rfl
  rw [Exec.reject_bind_neg hlen, if_neg hlen, command_code_bind (by omega)]
  cases check_command_code data .sendBufferContinued with
  | error e => rfl
  | ok u =>
      rw [Exec.ofExcept_bind_eq_ok rfl]
      have h : (rest_from 1 >>= pure) data = _ := rest_from_bind (by omega)
      rw [Exec.bind_pure'] at h
      exact h

theorem ReceiveBufferResponse.read_eq (data : Bytes) :
    read data = Exec.ofExcept id (deserialize data) data := by
  unfold read deserialize
  rw [Exec.get_bind]
  by_cases hlen : data.length < 4
  · rw [Exec.reject_bind_pos hlen, if_pos hlen]
    rfl
  rw [Exec.reject_bind_neg hlen, if_neg hlen, u32_at_bind (by omega)]
  dsimp only
  by_cases hbig : data.length - 4 > (from_be_bytes (data.getD 0 0) (data.getD 1 0)
      (data.getD 2 0) (data.getD 3 0)).toNat
  · rw [Exec.reject_bind_pos hbig, if_pos hbig]
    rfl
  · rw [Exec.reject_bind_neg hbig, if_neg hbig, rest_from_bind (by omega)]
    rfl

theorem GetCodePageHashes.read_eq (data : Bytes) :
    read data = Exec.ofExcept id (deserialize data) data := by
  unfold read deserialize
  rw [Exec.get_bind]
  by_cases hlen : data.length < 1 + 4
  · rw [Exec.reject_bind_pos hlen, if_pos hlen]
    rfl
  rw [Exec.reject_bind_neg hlen, if_neg hlen, command_code_bind (by omega)]
  unfold check_command_code
  cases ClientCommandCode.try_from (data.getD 0 0) with
  | none => rfl
  | some code =>
      dsimp only
      by_cases hcode : code ≠ .getCodePageHashes
      · rw [if_pos hcode, if_pos hcode]
        rfl
      rw [if_neg hcode, if_neg hcode, Exec.ofExcept_bind_eq_ok rfl, u32_at_bind (by omega)]
      by_cases hmod : (data.length - 5) % 32 ≠ 0
      · rw [digests_from_fails hmod, if_pos hmod]
        rfl
      rw [digests_from_bind (by omega) (not_not.mp hmod), if_neg hmod]
      rfl

theorem GetCodePageHashesResponse.read_eq (data : Bytes) :
    read data = Exec.ofExcept id (deserialize data) data := by
  unfold read deserialize
  rw [Exec.get_bind]
  by_cases hlen : data.length < 4
  · rw [Exec.reject_bind_pos hlen, if_pos hlen]
    rfl
  rw [Exec.reject_bind_neg hlen, if_neg hlen, u32_at_bind (by omega)]
  dsimp only
  by_cases hmod : (data.length - 4) % 32 ≠ 0
  · rw [Exec.reject_bind_pos hmod, if_pos hmod]
    rfl
  rw [Exec.reject_bind_neg hmod, if_neg hmod]
  by_cases hcount : (data.length - 4) / 32 ≠ (from_be_bytes (data.getD 0 0) (data.getD 1 0)
      (data.getD 2 0) (data.getD 3 0)).toNat
  · rw [Exec.reject_bind_pos hcount, if_pos hcount]
    rfl
  rw [Exec.reject_bind_neg hcount, if_neg hcount, arrays_at_bind (by omega)]
  rfl

/-! ## What was accepted, put together again

Each field, written in front of the bytes behind it, gives the bytes from where
it was read. -/

section
variable {data : Bytes} {off n : ℕ}

theorem byte_drop (h : off < data.length) : data.getD off 0 :: data.drop (off + 1) =
    data.drop off := by
  rw [List.getD_eq_getElem?_getD, List.getElem?_eq_getElem h, Option.getD_some,
    List.drop_eq_getElem_cons h]

theorem array_drop (h : off + n ≤ data.length) :
    (array data off n).toList ++ data.drop (off + n) = data.drop off := by
  show (data.drop off).takeD n 0 ++ data.drop (off + n) = data.drop off
  rw [List.takeD_eq_take _ (by rw [List.length_drop]; omega), ← List.drop_drop,
    List.take_append_drop]

theorem to_be_bytes_from_be_bytes (a b c d : U8) :
    to_be_bytes (from_be_bytes a b c d) = [a, b, c, d] := by
  unfold to_be_bytes from_be_bytes
  refine List.cons_eq_cons.mpr ⟨?_, List.cons_eq_cons.mpr ⟨?_, List.cons_eq_cons.mpr ⟨?_,
    List.cons_eq_cons.mpr ⟨?_, rfl⟩⟩⟩⟩
  all_goals
    ext i hi
    simp only [BitVec.getElem_extractLsb', BitVec.getLsbD_append]
    grind

theorem u32_drop (h : off + 4 ≤ data.length) :
    to_be_bytes (from_be_bytes (data.getD off 0) (data.getD (off + 1) 0) (data.getD (off + 2) 0)
      (data.getD (off + 3) 0)) ++ data.drop (off + 4) = data.drop off := by
  rw [to_be_bytes_from_be_bytes, ← byte_drop (by omega : off < data.length),
    ← byte_drop (by omega : off + 1 < data.length), ← byte_drop (by omega : off + 2 < data.length),
    ← byte_drop (by omega : off + 3 < data.length)]
  rfl

theorem arrays_drop {count : ℕ} (h : off + 32 * count = data.length) :
    flatten32 (arrays32 data off count) = data.drop off := by
  induction count generalizing off with
  | zero => rw [List.drop_eq_nil_of_le (by omega)]; rfl
  | succ count ih =>
      rw [arrays32_succ, flatten32, List.flatMap_cons]
      exact (congrArg _ (ih (by omega))).trans (array_drop (by omega))

/-- The last field has nothing behind it. -/
theorem u32_last (h : off + 4 = data.length) :
    to_be_bytes (from_be_bytes (data.getD off 0) (data.getD (off + 1) 0) (data.getD (off + 2) 0)
      (data.getD (off + 3) 0)) = data.drop off := by
  rw [← u32_drop (Nat.le_of_eq h), List.drop_eq_nil_of_le (Nat.le_of_eq h.symm), List.append_nil]

theorem array_last (h : off + n = data.length) : (array data off n).toList = data.drop off := by
  rw [← array_drop (Nat.le_of_eq h), List.drop_eq_nil_of_le (Nat.le_of_eq h.symm),
    List.append_nil]

end

theorem ClientCommandCode.toU8_of_try_from {b : U8} {c : ClientCommandCode}
    (h : try_from b = some c) : c.toU8 = b := by
  revert b c
  decide

theorem SectionKind.toU8_of_try_from {b : U8} {k : SectionKind} (h : try_from b = some k) :
    k.toU8 = b := by
  revert b k
  decide

theorem BufferType.toU8_of_try_from {b : U8} {t : BufferType} (h : try_from b = some t) :
    t.toU8 = b := by
  revert b t
  decide

theorem PageProofKind.toU8_of_try_from {b : U8} {k : PageProofKind} (h : try_from b = some k) :
    k.toU8 = b := by
  revert b k
  decide

theorem check_command_code_ok {data : Bytes} {expected : ClientCommandCode}
    (h : check_command_code data expected = .ok ()) : expected.toU8 = data.getD 0 0 := by
  unfold check_command_code at h
  split at h
  · cases h
  · next code hcode =>
      split at h
      · cases h
      · next heq =>
          rw [← not_not.mp heq]
          exact ClientCommandCode.toU8_of_try_from hcode

theorem GetPageMessage.serialize_of_deserialize {data : Bytes} {m : GetPageMessage}
    (h : deserialize data = .ok m) : m.serialize = data := by
  unfold deserialize at h
  split at h
  · cases h
  · next hlen =>
      have hlen' : data.length = 6 := not_not.mp hlen
      cases hcode : check_command_code data .getPage with
      | error e => rw [hcode] at h; cases h
      | ok u =>
          rw [hcode] at h
          cases hkind : SectionKind.try_from (data.getD 1 0) with
          | none => simp only [hkind] at h; cases h
          | some kind =>
              simp only [hkind] at h
              cases h
              show _ :: _ :: to_be_bytes _ = data
              rw [check_command_code_ok hcode, SectionKind.toU8_of_try_from hkind,
                u32_last (by omega), byte_drop (by omega), byte_drop (by omega)]
              rfl

theorem deserialize_bare_ok {data : Bytes} {expected : ClientCommandCode}
    (h : deserialize_bare expected data = .ok ()) : [expected.toU8] = data := by
  unfold deserialize_bare at h
  split at h
  · cases h
  · next hlen =>
      obtain ⟨b, rfl⟩ := List.length_eq_one_iff.mp (not_not.mp hlen)
      rw [check_command_code_ok h]
      rfl

theorem ProofContinuedResponse.serialize_of_deserialize {data : Bytes}
    {r : ProofContinuedResponse} (h : deserialize data = .ok r) : r.serialize = data := by
  unfold deserialize at h
  split at h
  · cases h
  · next hlen =>
      dsimp only at h
      split at h
      · cases h
      · next hmod =>
          cases h
          show _ :: flatten32 (arrays32 _ _ _) = data
          rw [arrays_drop (by omega), byte_drop (by omega)]
          rfl

theorem CommitPageProofResponse.serialize_of_deserialize {data : Bytes}
    {r : CommitPageProofResponse} (h : deserialize data = .ok r) : r.serialize = data := by
  unfold deserialize at h
  split at h
  · cases h
  · next hlen =>
      dsimp only at h
      split at h
      · cases h
      · next hmod =>
          cases h
          show _ :: _ :: ((array _ _ _).toList ++ flatten32 (arrays32 _ _ _)) = data
          rw [arrays_drop (by omega), array_drop (by omega), byte_drop (by omega),
            byte_drop (by omega)]
          rfl

theorem SendBufferMessage.serialize_of_deserialize {data : Bytes} {m : SendBufferMessage}
    (h : deserialize data = .ok m) :
    m.data.length ≤ m.total_size.toNat ∧ m.serialize = data := by
  unfold deserialize at h
  cases hcode : ClientCommandCode.try_from (data.getD 0 0) with
  | none => simp only [hcode] at h; cases h
  | some code =>
      simp only [hcode] at h
      split at h
      · cases h
      · next hne =>
          obtain ⟨hcode', hlen⟩ := not_or.mp hne
          obtain rfl := not_not.mp hcode'
          cases htype : BufferType.try_from (data.getD 1 0) with
          | none => simp only [htype] at h; cases h
          | some type =>
              simp only [htype] at h
              split at h
              · cases h
              · next hbig =>
                  cases h
                  refine ⟨Nat.le_of_not_lt hbig, ?_⟩
                  show _ :: _ :: (to_be_bytes _ ++ data.drop 6) = data
                  rw [ClientCommandCode.toU8_of_try_from hcode, BufferType.toU8_of_try_from htype,
                    u32_drop (by omega), byte_drop (by omega), byte_drop (by omega)]
                  rfl

theorem SendBufferContinuedMessage.serialize_of_deserialize {data content : Bytes}
    (h : deserialize data = .ok content) : serialize content = data := by
  unfold deserialize at h
  split at h
  · cases h
  · next hlen =>
      cases hcode : check_command_code data .sendBufferContinued with
      | error e => rw [hcode] at h; cases h
      | ok u =>
          rw [hcode] at h
          cases h
          show _ :: data.drop 1 = data
          rw [check_command_code_ok hcode, byte_drop (by omega)]
          rfl

theorem ReceiveBufferResponse.serialize_of_deserialize {data : Bytes} {r : ReceiveBufferResponse}
    (h : deserialize data = .ok r) :
    r.content.length ≤ r.remaining_length.toNat ∧ r.serialize = data := by
  unfold deserialize at h
  split at h
  · cases h
  · next hlen =>
      dsimp only at h
      split at h
      · cases h
      · next hbig =>
          cases h
          refine ⟨?_, ?_⟩
          · show (data.drop 4).length ≤ _
            rw [List.length_drop]
            exact Nat.le_of_not_lt hbig
          · show to_be_bytes _ ++ data.drop 4 = data
            rw [u32_drop (by omega)]
            rfl

theorem GetCodePageHashes.serialize_of_deserialize {data : Bytes} {m : GetCodePageHashes}
    (h : deserialize data = .ok m) : m.serialize = data := by
  unfold deserialize at h
  split at h
  · cases h
  · next hlen =>
      cases hcode : ClientCommandCode.try_from (data.getD 0 0) with
      | none => simp only [hcode] at h; cases h
      | some code =>
          simp only [hcode] at h
          split at h
          · cases h
          · next heq =>
              obtain rfl := not_not.mp heq
              split at h
              · cases h
              · next hmod =>
                  cases h
                  show _ :: (to_be_bytes _ ++ flatten32 (arrays32 _ _ _)) = data
                  rw [ClientCommandCode.toU8_of_try_from hcode, arrays_drop (by omega),
                    u32_drop (by omega), byte_drop (by omega)]
                  rfl

theorem GetCodePageHashesResponse.serialize_of_deserialize {data : Bytes}
    {m : GetCodePageHashesResponse} (h : deserialize data = .ok m) : m.serialize = data := by
  unfold deserialize at h
  split at h
  · cases h
  · next hlen =>
      dsimp only at h
      split at h
      · cases h
      · next hmod =>
          split at h
          · cases h
          · cases h
            show to_be_bytes _ ++ flatten32 (arrays32 _ _ _) = data
            rw [arrays_drop (by omega), u32_drop (by omega)]
            rfl

/-! ## The flag of an encrypted page

Any byte but 1 says that a page is not encrypted, and then the twelve bytes of
the nonce are not looked at. `unflag` is what such bytes are read as. -/

/-- Bytes with a flag at `off` and a nonce behind it, with zeros there if the
flag is not 1. -/
def unflag (off : ℕ) (data : Bytes) : Bytes :=
  if data.getD off 0 = 1 then data
  else data.take off ++ (List.replicate 13 0 ++ data.drop (off + 13))

theorem take_of_append_drop {data pre : Bytes} {off : ℕ} (hlen : pre.length = off)
    (h : pre ++ data.drop off = data) : data.take off = pre := by
  conv_lhs => rw [← h]
  exact List.take_left' hlen

/-- The flag and the nonce that were read, written again between what is before
and behind them. -/
theorem unflag_eq {data pre : Bytes} {off : ℕ} (hoff : off + 13 ≤ data.length)
    (hlen : pre.length = off) (hpre : pre ++ data.drop off = data) {is_encrypted : Bool}
    {nonce : Vector U8 12} (hflag : is_encrypted = (data.getD off 0 == 1))
    (hnonce : nonce = if is_encrypted then array data (off + 1) 12 else Vector.replicate 12 0) :
    pre ++ ((if is_encrypted then (1 : U8) else 0) :: (nonce.toList ++ data.drop (off + 13))) =
      unflag off data := by
  unfold unflag
  by_cases hone : data.getD off 0 = 1
  · obtain rfl : is_encrypted = true := by rw [hflag, hone]; rfl
    rw [if_pos hone, hnonce, if_pos rfl, if_pos rfl, array_drop (by omega), ← hone,
      byte_drop (by omega), hpre]
  · obtain rfl : is_encrypted = false := by
      rw [hflag]
      exact beq_eq_false_iff_ne.mpr hone
    rw [if_neg hone, hnonce, take_of_append_drop hlen hpre]
    rfl

theorem GetPageResponse.serialize_of_deserialize {data : Bytes} {r : GetPageResponse}
    (h : deserialize data = .ok r) :
    (r.t.toNat = r.proof.length ∧
      (r.is_encrypted = false → r.nonce = Vector.replicate 12 0)) ∧
      r.serialize = unflag (PAGE_SIZE + 2) data := by
  unfold deserialize at h
  split at h
  · cases h
  · next hlen =>
      dsimp only at h
      cases hkind : PageProofKind.try_from (data.getD (PAGE_SIZE + 15) 0) with
      | none => simp only [hkind] at h; cases h
      | some kind =>
          simp only [hkind] at h
          split at h
          · cases h
          · next hmod =>
              split at h
              · cases h
              · next ht =>
                  cases h
                  refine ⟨⟨?_, ?_⟩, ?_⟩
                  · show _ = (arrays32 _ _ _).length
                    rw [arrays32, List.length_map, List.length_range]
                    exact not_not.mp ht
                  · intro hplain
                    exact if_neg (Bool.eq_false_iff.mp hplain)
                  · have hpre : ((array data 0 PAGE_SIZE).toList ++ [data.getD PAGE_SIZE 0] ++
                        [data.getD (PAGE_SIZE + 1) 0]) ++ data.drop (PAGE_SIZE + 2) = data := by
                      rw [List.append_assoc, List.append_assoc]
                      show _ ++ (_ :: _ :: data.drop (PAGE_SIZE + 2)) = data
                      rw [byte_drop (by omega), byte_drop (by omega)]
                      exact array_drop (by omega)
                    rw [← unflag_eq (by omega) (by simp) hpre rfl rfl]
                    have hrest : kind.toU8 :: flatten32 (arrays32 data (PAGE_SIZE + 16)
                        ((data.length - (PAGE_SIZE + 16)) / 32)) = data.drop (PAGE_SIZE + 2 + 13) := by
                      rw [PageProofKind.toU8_of_try_from hkind, arrays_drop (by omega),
                        byte_drop (by omega)]
                    rw [← hrest]
                    simp [serialize]

theorem PageProofKind.try_from_isSome (b : U8) : (try_from b).isSome ↔ b < 2 := by
  revert b
  decide

theorem SectionKind.try_from_isSome (b : U8) : (try_from b).isSome ↔ b < 3 := by
  revert b
  decide

theorem GetPageResponse.accepted_iff {data : Bytes} : (∃ r, deserialize data = .ok r) ↔
    data.length = PAGE_SIZE + 16 + 32 * (data.getD (PAGE_SIZE + 1) 0).toNat ∧
      data.getD (PAGE_SIZE + 15) 0 < 2 := by
  rw [← PageProofKind.try_from_isSome]
  unfold deserialize
  by_cases hlen : data.length < PAGE_SIZE + 1 + 1 + 1 + 12 + 1
  · rw [if_pos hlen]
    exact ⟨fun ⟨r, h⟩ => (nomatch h), fun ⟨h, _⟩ => by omega⟩
  rw [if_neg hlen]
  dsimp only
  cases PageProofKind.try_from (data.getD (PAGE_SIZE + 15) 0) with
  | none => exact ⟨fun ⟨r, h⟩ => (nomatch h), fun ⟨_, h⟩ => (nomatch h)⟩
  | some kind =>
      dsimp only
      split
      · exact ⟨fun ⟨r, h⟩ => (nomatch h), fun ⟨h, _⟩ => by omega⟩
      split
      · exact ⟨fun ⟨r, h⟩ => (nomatch h), fun ⟨h, _⟩ => by omega⟩
      · exact ⟨fun _ => ⟨by omega, rfl⟩, fun _ => ⟨_, rfl⟩⟩

theorem GetPageResponse.serialize_eq (r : GetPageResponse) :
    r.serialize = (r.page_data.toList ++ [r.n] ++ [r.t]) ++
      ((if r.is_encrypted then 1 else 0) ::
        (r.nonce.toList ++ (r.proof_kind.toU8 :: flatten32 r.proof))) := by
  simp [serialize]

/-- The flag that is written is 0 or 1. -/
theorem GetPageResponse.flag_lt (r : GetPageResponse) :
    r.serialize.getD (PAGE_SIZE + 2) 0 < 2 := by
  have hlen : (r.page_data.toList ++ [r.n] ++ [r.t]).length = PAGE_SIZE + 2 := by simp
  rw [serialize_eq, show PAGE_SIZE + 2 = PAGE_SIZE + 2 + 0 from rfl, getD_append hlen,
    List.getD_cons_zero]
  cases r.is_encrypted <;> decide

/-- Bytes that are read and have such a flag were written for a response: the
one that was read, or the one with the nonce that was skipped. -/
theorem GetPageResponse.exists_serialize {data : Bytes} {r : GetPageResponse}
    (h : deserialize data = .ok r) (hflag : data.getD (PAGE_SIZE + 2) 0 < 2) :
    ∃ r' : GetPageResponse, r'.serialize = data := by
  obtain ⟨hlen, -⟩ := accepted_iff.mp ⟨r, h⟩
  obtain ⟨-, hs⟩ := serialize_of_deserialize h
  unfold unflag at hs
  by_cases hone : data.getD (PAGE_SIZE + 2) 0 = 1
  · rw [if_pos hone] at hs
    exact ⟨r, hs⟩
  have hzero : data.getD (PAGE_SIZE + 2) 0 = 0 := by bv_omega
  rw [if_neg hone, serialize_eq] at hs
  obtain ⟨hpre, hrest⟩ := List.append_inj hs (by simp; omega)
  obtain ⟨hplain, hrest⟩ := List.cons.inj hrest
  obtain ⟨-, htail⟩ := List.append_inj hrest (by simp)
  refine ⟨{ r with nonce := array data (PAGE_SIZE + 3) 12 }, ?_⟩
  have hdrop := array_drop (show PAGE_SIZE + 3 + 12 ≤ data.length by omega)
  rw [serialize_eq]
  show (r.page_data.toList ++ [r.n] ++ [r.t]) ++ ((if r.is_encrypted then 1 else 0) ::
    ((array data (PAGE_SIZE + 3) 12).toList ++ (r.proof_kind.toU8 :: flatten32 r.proof))) = data
  rw [hpre, hplain, htail, hdrop, ← hzero, byte_drop (by omega), List.take_append_drop]

theorem CommitPageMessage.serialize_of_deserialize {data : Bytes} {m : CommitPageMessage}
    (h : deserialize data = .ok m) :
    (m.is_encrypted = false → m.nonce = Vector.replicate 12 0) ∧
      m.serialize = unflag 6 data := by
  unfold deserialize at h
  split at h
  · cases h
  · next hlen =>
      have hlen' : data.length = 1 + 1 + 4 + 1 + 12 + PAGE_SIZE := not_not.mp hlen
      cases hcode : check_command_code data .commitPage with
      | error e => rw [hcode] at h; cases h
      | ok u =>
          rw [hcode] at h
          cases hkind : SectionKind.try_from (data.getD 1 0) with
          | none => simp only [hkind] at h; cases h
          | some kind =>
              simp only [hkind] at h
              cases h
              refine ⟨fun hplain => if_neg (Bool.eq_false_iff.mp hplain), ?_⟩
              have hpre : ([ClientCommandCode.commitPage.toU8] ++ [kind.toU8] ++
                  to_be_bytes (from_be_bytes (data.getD 2 0) (data.getD 3 0) (data.getD 4 0)
                    (data.getD 5 0))) ++ data.drop 6 = data := by
                rw [List.append_assoc, List.append_assoc, u32_drop (by omega),
                  check_command_code_ok hcode, SectionKind.toU8_of_try_from hkind]
                show _ :: _ :: data.drop 2 = data
                rw [byte_drop (by omega), byte_drop (by omega)]
                rfl
              have hsix : ([ClientCommandCode.commitPage.toU8] ++ [kind.toU8] ++
                  to_be_bytes (from_be_bytes (data.getD 2 0) (data.getD 3 0) (data.getD 4 0)
                    (data.getD 5 0))).length = 6 := rfl
              rw [← unflag_eq (by omega) hsix hpre rfl rfl]
              have hrest : (array data 19 PAGE_SIZE).toList = data.drop (6 + 13) :=
                array_last (by omega)
              rw [← hrest]
              unfold serialize
              cases data.getD 6 0 == 1 with
              | true => simp
              | false => simp

theorem CommitPageMessage.accepted_iff {data : Bytes} : (∃ m, deserialize data = .ok m) ↔
    data.length = 19 + PAGE_SIZE ∧ data.getD 0 0 = 2 ∧ data.getD 1 0 < 3 := by
  rw [← SectionKind.try_from_isSome]
  unfold deserialize
  by_cases hlen : data.length ≠ 1 + 1 + 4 + 1 + 12 + PAGE_SIZE
  · rw [if_pos hlen]
    exact ⟨fun ⟨r, h⟩ => (nomatch h), fun ⟨h, _⟩ => by omega⟩
  rw [if_neg hlen]
  cases hcode : check_command_code data .commitPage with
  | error e =>
      refine ⟨fun ⟨r, h⟩ => (nomatch h), fun ⟨_, h, _⟩ => ?_⟩
      unfold check_command_code at hcode
      rw [h] at hcode
      cases hcode
  | ok u =>
      have h2 := check_command_code_ok hcode
      cases SectionKind.try_from (data.getD 1 0) with
      | none => exact ⟨fun ⟨r, h⟩ => (nomatch h), fun ⟨_, _, h⟩ => (nomatch h)⟩
      | some kind => exact ⟨fun _ => ⟨by omega, h2.symm, rfl⟩, fun _ => ⟨_, rfl⟩⟩

/-- What is written is flag 1, or thirteen zeros. -/
theorem CommitPageMessage.flag_or (m : CommitPageMessage) : m.serialize.getD 6 0 = 1 ∨
    (m.serialize.drop 6).take 13 = List.replicate 13 0 := by
  unfold serialize
  cases m.is_encrypted with
  | true => exact .inl rfl
  | false => exact .inr rfl

theorem unflag_self {data : Bytes} {off : ℕ}
    (h : data.getD off 0 = 1 ∨ (data.drop off).take 13 = List.replicate 13 0) :
    unflag off data = data := by
  unfold unflag
  split
  · rfl
  · next hne =>
      rw [← h.resolve_left hne, ← List.drop_drop, List.take_append_drop, List.take_append_drop]

/-! ## Every kind of message -/

namespace MessageKind

/-- The fields of a message agree with each other: the proof elements and the
hashes are counted, there is no more of a buffer than its size, and a page that
is not encrypted has the zero nonce. -/
def Consistent : (kind : MessageKind) → kind.Value → Prop
  | .getPageResponse => fun r : GetPageResponse => r.t.toNat = r.proof.length ∧
      (r.is_encrypted = false → r.nonce = Vector.replicate 12 0)
  | .commitPage => fun m : CommitPageMessage =>
      m.is_encrypted = false → m.nonce = Vector.replicate 12 0
  | .sendBuffer => fun m : SendBufferMessage => m.data.length ≤ m.total_size.toNat
  | .receiveBufferResponse => fun r : ReceiveBufferResponse =>
      r.content.length ≤ r.remaining_length.toNat
  | .getCodePageHashesResponse => fun r : GetCodePageHashesResponse =>
      r.n_code_pages.toNat = r.code_page_hashes.length
  | _ => fun _ => True

/-- The bytes a message is read as: those of its own serialization. -/
def canonical : MessageKind → Bytes → Bytes
  | .getPageResponse => unflag (PAGE_SIZE + 2)
  | .commitPage => unflag 6
  | _ => id

/-- Bytes that come as the sender writes them. For a buffer they are not none
at all. Where there is a flag, and the rest of the message is in order, the flag
is 0 or 1; that of a committed page which is not encrypted has zeros behind it. -/
def Clean : MessageKind → Bytes → Prop
  | .sendBuffer => fun data => data ≠ []
  | .getPageResponse => fun data =>
      data.length = PAGE_SIZE + 16 + 32 * (data.getD (PAGE_SIZE + 1) 0).toNat →
      data.getD (PAGE_SIZE + 15) 0 < 2 → data.getD (PAGE_SIZE + 2) 0 < 2
  | .commitPage => fun data =>
      data.length = 19 + PAGE_SIZE → data.getD 0 0 = 2 → data.getD 1 0 < 3 →
      data.getD 6 0 = 1 ∨ (data.drop 6).take 13 = List.replicate 13 0
  | _ => fun _ => True

def deserialize : (kind : MessageKind) → Bytes → Except MessageDeserializationError kind.Value
  | .getPage => GetPageMessage.deserialize
  | .getPageResponse => GetPageResponse.deserialize
  | .getPageProofContinued => deserialize_bare .getPageProofContinued
  | .getPageProofContinuedResponse => ProofContinuedResponse.deserialize
  | .commitPage => CommitPageMessage.deserialize
  | .commitPageProofResponse => CommitPageProofResponse.deserialize
  | .commitPageProofContinued => deserialize_bare .commitPageProofContinued
  | .commitPageProofContinuedResponse => ProofContinuedResponse.deserialize
  | .sendBuffer => SendBufferMessage.deserialize
  | .sendBufferContinued => SendBufferContinuedMessage.deserialize
  | .receiveBuffer => deserialize_bare .receiveBuffer
  | .receiveBufferResponse => ReceiveBufferResponse.deserialize
  | .getCodePageHashes => GetCodePageHashes.deserialize
  | .getCodePageHashesResponse => GetCodePageHashesResponse.deserialize

variable {kind : MessageKind} {data : Bytes}

theorem read_eq (h : kind = .sendBuffer → data ≠ []) :
    kind.read data = Exec.ofExcept id (kind.deserialize data) data := by
  cases kind with
  | getPage => exact GetPageMessage.read_eq data
  | getPageResponse => exact GetPageResponse.read_eq data
  | getPageProofContinued => exact read_bare_eq _ data
  | getPageProofContinuedResponse => exact ProofContinuedResponse.read_eq data
  | commitPage => exact CommitPageMessage.read_eq data
  | commitPageProofResponse => exact CommitPageProofResponse.read_eq data
  | commitPageProofContinued => exact read_bare_eq _ data
  | commitPageProofContinuedResponse => exact ProofContinuedResponse.read_eq data
  | sendBuffer => exact SendBufferMessage.read_eq (h rfl)
  | sendBufferContinued => exact SendBufferContinuedMessage.read_eq data
  | receiveBuffer => exact read_bare_eq _ data
  | receiveBufferResponse => exact ReceiveBufferResponse.read_eq data
  | getCodePageHashes => exact GetCodePageHashes.read_eq data
  | getCodePageHashesResponse => exact GetCodePageHashesResponse.read_eq data

theorem deserialize_serialize (m : kind.Value) (h : kind.Consistent m) :
    kind.deserialize (kind.serialize m) = .ok m := by
  cases kind with
  | getPage => exact GetPageMessage.deserialize_serialize m
  | getPageResponse => exact GetPageResponse.deserialize_serialize m h.1 h.2
  | getPageProofContinued => exact deserialize_bare_toU8 _
  | getPageProofContinuedResponse => exact ProofContinuedResponse.deserialize_serialize m
  | commitPage => exact CommitPageMessage.deserialize_serialize m h
  | commitPageProofResponse => exact CommitPageProofResponse.deserialize_serialize m
  | commitPageProofContinued => exact deserialize_bare_toU8 _
  | commitPageProofContinuedResponse => exact ProofContinuedResponse.deserialize_serialize m
  | sendBuffer => exact SendBufferMessage.deserialize_serialize m h
  | sendBufferContinued => exact SendBufferContinuedMessage.deserialize_serialize m
  | receiveBuffer => exact deserialize_bare_toU8 _
  | receiveBufferResponse => exact ReceiveBufferResponse.deserialize_serialize m h
  | getCodePageHashes => exact GetCodePageHashes.deserialize_serialize m
  | getCodePageHashesResponse => exact GetCodePageHashesResponse.deserialize_serialize m h

theorem serialize_of_deserialize {m : kind.Value} (h : kind.deserialize data = .ok m) :
    kind.Consistent m ∧ kind.serialize m = kind.canonical data := by
  cases kind with
  | getPage => exact ⟨trivial, GetPageMessage.serialize_of_deserialize h⟩
  | getPageResponse => exact GetPageResponse.serialize_of_deserialize h
  | getPageProofContinued => exact ⟨trivial, deserialize_bare_ok h⟩
  | getPageProofContinuedResponse =>
      exact ⟨trivial, ProofContinuedResponse.serialize_of_deserialize h⟩
  | commitPage => exact CommitPageMessage.serialize_of_deserialize h
  | commitPageProofResponse =>
      exact ⟨trivial, CommitPageProofResponse.serialize_of_deserialize h⟩
  | commitPageProofContinued => exact ⟨trivial, deserialize_bare_ok h⟩
  | commitPageProofContinuedResponse =>
      exact ⟨trivial, ProofContinuedResponse.serialize_of_deserialize h⟩
  | sendBuffer => exact SendBufferMessage.serialize_of_deserialize h
  | sendBufferContinued =>
      exact ⟨trivial, SendBufferContinuedMessage.serialize_of_deserialize h⟩
  | receiveBuffer => exact ⟨trivial, deserialize_bare_ok h⟩
  | receiveBufferResponse => exact ReceiveBufferResponse.serialize_of_deserialize h
  | getCodePageHashes => exact ⟨trivial, GetCodePageHashes.serialize_of_deserialize h⟩
  | getCodePageHashesResponse =>
      exact ⟨GetCodePageHashesResponse.deserialize_ok h,
        GetCodePageHashesResponse.serialize_of_deserialize h⟩

theorem read_ok {m : kind.Value} {s : Bytes} (h : kind.read data = .ok m s) :
    kind.deserialize data = .ok m ∧ (kind = .sendBuffer → data ≠ []) := by
  have hne : kind = .sendBuffer → data ≠ [] := by
    rintro rfl rfl
    cases h
  rw [read_eq hne] at h
  exact ⟨(Exec.ofExcept_ok.mp h).1, hne⟩

theorem not_panics (h : kind = .sendBuffer → data ≠ []) : ¬ Exec.Panics kind.read data := by
  rintro ⟨s, hs⟩
  rw [read_eq h] at hs
  cases hd : kind.deserialize data with
  | ok m => rw [hd] at hs; cases hs
  | error e => rw [hd] at hs; cases hs

theorem read_serialize_iff (m : kind.Value) :
    kind.read (kind.serialize m) = .ok m (kind.serialize m) ↔ kind.Consistent m := by
  constructor
  · intro h
    exact (serialize_of_deserialize (read_ok h).1).1
  · intro h
    have hne : kind = .sendBuffer → kind.serialize m ≠ [] := by
      rintro rfl
      exact List.cons_ne_nil _ _
    rw [read_eq hne, deserialize_serialize m h]
    rfl

/-- No panic, and nothing is accepted that no message was written as. -/
def ReadsOnly (kind : MessageKind) (data : Bytes) : Prop :=
  ¬ Exec.Panics kind.read data ∧
    ∀ m s, kind.read data = .ok m s → ∃ m', kind.serialize m' = data

/-- Of the kinds that are read as they are written. -/
theorem readsOnly_of_canonical (hne : kind = .sendBuffer → data ≠ [])
    (hcanonical : kind.canonical data = data) : kind.ReadsOnly data := by
  refine ⟨not_panics hne, fun m s h => ⟨m, ?_⟩⟩
  rw [(serialize_of_deserialize (read_ok h).1).2, hcanonical]

theorem readsOnly_iff : kind.ReadsOnly data ↔ kind.Clean data := by
  cases kind with
  | sendBuffer =>
      refine ⟨?_, fun h => readsOnly_of_canonical (fun _ => h) rfl⟩
      rintro ⟨hno, -⟩ rfl
      exact hno ⟨[], rfl⟩
  | getPageResponse =>
      constructor
      · rintro ⟨-, hread⟩ hlen hkind
        obtain ⟨r, hr⟩ := GetPageResponse.accepted_iff.mpr ⟨hlen, hkind⟩
        obtain ⟨r', rfl⟩ := hread r data (by rw [read_eq (by simp)]; exact congrFun (congrArg _ hr) _)
        exact GetPageResponse.flag_lt r'
      · intro hclean
        refine ⟨not_panics (by simp), fun r s h => ?_⟩
        have hr : GetPageResponse.deserialize data = .ok r := (read_ok h).1
        obtain ⟨hlen, hkind⟩ := GetPageResponse.accepted_iff.mp ⟨r, hr⟩
        exact GetPageResponse.exists_serialize hr (hclean hlen hkind)
  | commitPage =>
      constructor
      · rintro ⟨-, hread⟩ hlen hcode hkind
        obtain ⟨m, hm⟩ := CommitPageMessage.accepted_iff.mpr ⟨hlen, hcode, hkind⟩
        obtain ⟨m', rfl⟩ := hread m data (by rw [read_eq (by simp)]; exact congrFun (congrArg _ hm) _)
        exact CommitPageMessage.flag_or m'
      · intro hclean
        refine ⟨not_panics (by simp), fun m s h => ⟨m, ?_⟩⟩
        have hm : CommitPageMessage.deserialize data = .ok m := (read_ok h).1
        obtain ⟨hlen, hcode, hkind⟩ := CommitPageMessage.accepted_iff.mp ⟨m, hm⟩
        obtain ⟨-, hs⟩ := CommitPageMessage.serialize_of_deserialize hm
        exact hs.trans (unflag_self (hclean hlen hcode hkind))
  | getPage | getPageProofContinued | getPageProofContinuedResponse | commitPageProofResponse
  | commitPageProofContinued | commitPageProofContinuedResponse | sendBufferContinued
  | receiveBuffer | receiveBufferResponse | getCodePageHashes | getCodePageHashesResponse =>
      exact ⟨fun _ => trivial, fun _ => readsOnly_of_canonical (by simp) rfl⟩

theorem toU8_inj {c d : ClientCommandCode} (h : c.toU8 = d.toU8) : c = d := by
  have hread := ClientCommandCode.try_from_toU8 c
  rw [h, ClientCommandCode.try_from_toU8] at hread
  exact (Option.some.inj hread).symm

/-- The message of the VM with a command code. -/
def of_code : ClientCommandCode → MessageKind
  | .getPage => .getPage
  | .getPageProofContinued => .getPageProofContinued
  | .commitPage => .commitPage
  | .commitPageProofContinued => .commitPageProofContinued
  | .sendBuffer => .sendBuffer
  | .sendBufferContinued => .sendBufferContinued
  | .receiveBuffer => .receiveBuffer
  | .getCodePageHashes => .getCodePageHashes

theorem of_code_eq {c : ClientCommandCode} (h : kind.code = some c) : of_code c = kind := by
  cases kind <;> cases h <;> rfl

/-- The first byte of a message of the VM that was read is its command code. -/
theorem read_code {m : kind.Value} {s : Bytes} {c : ClientCommandCode}
    (h : kind.read data = .ok m s) (hc : kind.code = some c) : data.getD 0 0 = c.toU8 := by
  have hs := (serialize_of_deserialize (read_ok h).1).2
  have hread : (kind.serialize m).getD 0 0 = (kind.canonical data).getD 0 0 := by rw [hs]
  have hfirst : (kind.serialize m).getD 0 0 = c.toU8 := by
    cases kind <;> cases hc <;> rfl
  have hkept : (kind.canonical data).getD 0 0 = data.getD 0 0 := by
    cases kind with
    | commitPage =>
        show (unflag 6 data).getD 0 0 = data.getD 0 0
        unfold unflag
        split
        · rfl
        · rw [← List.append_assoc, List.getD_eq_getElem?_getD, List.getD_eq_getElem?_getD]
          cases data with
          | nil => rfl
          | cons b data => rfl
    | getPageResponse => cases hc
    | _ => rfl
  rw [← hkept, ← hread, hfirst]

/-- A message comes back as it was if its fields agree, and not otherwise. Bytes
that come as they are written are read without a panic, and only if a message
was written so, and others are not. No bytes are two messages of the VM. -/
theorem reads_as_written (kind : MessageKind) :
    (∀ m, kind.read (kind.serialize m) = .ok m (kind.serialize m) ↔ kind.Consistent m) ∧
    (∀ data, (¬ Exec.Panics kind.read data ∧
      ∀ m s, kind.read data = .ok m s → ∃ m', kind.serialize m' = data) ↔ kind.Clean data) ∧
    ∀ (other : MessageKind) (data : Bytes) (m : kind.Value) (m' : other.Value) (s s' : Bytes),
      kind.code.isSome → other.code.isSome → kind.read data = .ok m s →
      other.read data = .ok m' s' → kind = other := by
  refine ⟨fun m => read_serialize_iff m, fun data => readsOnly_iff, ?_⟩
  intro other data m m' s s' hcode hcode' h h'
  obtain ⟨c, hc⟩ := Option.isSome_iff_exists.mp hcode
  obtain ⟨c', hc'⟩ := Option.isSome_iff_exists.mp hcode'
  obtain rfl := toU8_inj ((read_code h hc).symm.trans (read_code h' hc'))
  exact (of_code_eq hc).symm.trans (of_code_eq hc')

/-- A page of zeros that is said to be encrypted by a 2. -/
def flag_two : Bytes := List.replicate PAGE_SIZE 0 ++ [0, 0, 2] ++ List.replicate 13 0

/-- An empty buffer message is a panic, and a flag of 2 is taken for one of 0. -/
theorem empty_buffer_panics : Exec.Panics MessageKind.sendBuffer.read [] ∧
    (∃ m, MessageKind.getPageResponse.read flag_two = .ok m flag_two) ∧
      ∀ m, MessageKind.getPageResponse.serialize m ≠ flag_two := by
  refine ⟨⟨[], rfl⟩, ?_, ?_⟩
  · obtain ⟨r, hr⟩ := (@GetPageResponse.accepted_iff flag_two).mpr (by decide +kernel)
    refine ⟨r, (read_eq (by simp)).trans ?_⟩
    exact congrFun (congrArg _ hr) _
  · intro m hm
    have hflag := GetPageResponse.flag_lt m
    rw [show GetPageResponse.serialize m = flag_two from hm] at hflag
    exact absurd hflag (by decide +kernel)

end MessageKind

end Vanadium
