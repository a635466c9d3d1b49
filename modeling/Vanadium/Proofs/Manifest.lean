import Vanadium.Common.Manifest
import Vanadium.Lib.Delimited
import Vanadium.Proofs.Messages

/-!
# What validation promises, and what the hash of a V-App says

Validation bounds the two texts of a manifest by 32 bytes, so that the byte in
front of each in what is hashed is its whole length and not that modulo 256.
All the other fields have a fixed width. Field by field, then, the bytes that
are hashed can be read back in one way only, and two valid manifests with one
hash are one manifest, short of a collision.
-/

namespace Vanadium

open Lib

namespace Manifest

/-! ## Validation -/

/-- What a manifest that passed validation satisfies. -/
structure Valid (m : Manifest) : Prop where
  name : (as_bytes m.vapp_name).length ≤ APP_NAME_MAX_LEN
  version : (as_bytes m.vapp_version).length ≤ APP_VERSION_MAX_LEN
  code_start_le : m.code_start ≤ m.entrypoint
  lt_code_end : m.entrypoint < m.code_end
  aligned : m.entrypoint.toNat % 2 = 0
  name_text : validate_text "vapp_name" m.vapp_name = .ok ()
  version_text : validate_text "vapp_version" m.vapp_version = .ok ()
  name_spaces : validate_spaces "vapp_name" m.vapp_name = .ok ()
  version_spaces : validate_spaces "vapp_version" m.vapp_version = .ok ()
  slots : m.n_storage_slots ≤ MAX_STORAGE_SLOTS

theorem ite_error_ok {c : Prop} [Decidable c] {e : String} {k : Except String Unit} :
    (if c then Except.error e >>= fun _ : Unit => k else k) = .ok () ↔ ¬ c ∧ k = .ok () := by
  by_cases hc : c
  · simp [hc, bind, Except.bind]
  · simp [hc]

theorem bind_unit_ok {x k : Except String Unit} :
    (x >>= fun _ : Unit => k) = .ok () ↔ x = .ok () ∧ k = .ok () := by
  cases x with
  | error e => simp [bind, Except.bind]
  | ok u => simp [bind, Except.bind]

theorem validate_iff {m : Manifest} : m.validate = .ok () ↔ m.Valid := by
  unfold validate
  simp only [ite_error_ok, bind_unit_ok]
  constructor
  · rintro ⟨hname, hversion, hentry, haligned, h1, h2, h3, h4, hslots⟩
    obtain ⟨hle, hlt⟩ := not_or.mp hentry
    refine ⟨by omega, by omega, BitVec.not_lt.mp hle, BitVec.not_le.mp hlt, by omega,
      h1, h2, h3, h4, ?_⟩
    split at hslots
    · cases hslots
    · next h => exact BitVec.not_lt.mp h
  · rintro ⟨hname, hversion, hle, hlt, haligned, h1, h2, h3, h4, hslots⟩
    refine ⟨by omega, by omega, ?_, by omega, h1, h2, h3, h4, ?_⟩
    · exact not_or.mpr ⟨BitVec.not_lt.mpr hle, BitVec.not_le.mpr hlt⟩
    · exact if_neg (BitVec.not_lt.mpr hslots)

end Manifest

/-! ## Fields that can be read back -/

theorem delimited_to_be_bytes : Delimited Set.univ to_be_bytes :=
  .of_length (fun x _ => to_be_bytes_length x) fun _ _ _ _ h => to_be_bytes_inj h

theorem delimited_toList {n : ℕ} : Delimited Set.univ (Vector.toList : Vector U8 n → Bytes) :=
  .of_length (n := n) (fun v _ => v.length_toList) fun _ _ _ _ h => Vector.toList_inj.mp h

/-- A length that fits the one byte it is written in. -/
theorem delimited_length_byte :
    Delimited { n : ℕ | n < 256 } fun n => ([BitVec.ofNat 8 n] : Bytes) := by
  refine .of_length (n := 1) (fun _ _ => rfl) fun n hn m hm h => ?_
  have hbyte : BitVec.ofNat 8 n = BitVec.ofNat 8 m := (List.cons.inj h).1
  have hval := congrArg BitVec.toNat hbyte
  rw [BitVec.toNat_ofNat, BitVec.toNat_ofNat, Nat.mod_eq_of_lt hn, Nat.mod_eq_of_lt hm] at hval
  exact hval

theorem as_bytes_inj {s t : String} (h : as_bytes s = as_bytes t) : s = t := by
  unfold as_bytes at h
  have hbytes : s.toUTF8.data.toList = t.toUTF8.data.toList := by
    refine List.map_injective_iff.mpr ?_ h
    intro a b hab
    exact UInt8.toBitVec_inj.mp hab
  exact String.toByteArray_inj.mp (ByteArray.ext (Array.toList_inj.mp hbytes))

/-- A text behind its length byte. -/
def text_field (s : String) : Bytes := [BitVec.ofNat 8 (as_bytes s).length] ++ as_bytes s

theorem delimited_text_field : Delimited { s | (as_bytes s).length < 256 } text_field := by
  intro s hs t ht u v huv
  obtain ⟨hbytes, htail⟩ := delimited_length_byte.counted hs ht huv
  exact ⟨as_bytes_inj hbytes, htail⟩

/-! ## The hash of a V-App -/

namespace Manifest

theorem hashed_eq (m : Manifest) : m.hashed =
    to_be_bytes m.manifest_version ++ (text_field m.vapp_name ++ (text_field m.vapp_version ++
      (to_be_bytes m.entrypoint ++ (to_be_bytes m.code_start ++ (to_be_bytes m.code_end ++
        (m.code_merkle_root.toList ++ (to_be_bytes m.data_start ++ (to_be_bytes m.data_end ++
          (m.data_merkle_root.toList ++ (to_be_bytes m.stack_start ++ (to_be_bytes m.stack_end ++
            (m.stack_merkle_root.toList ++ (to_be_bytes m.n_storage_slots ++ [])))))))))))))
  := by
  simp only [hashed, text_field, List.append_assoc, List.append_nil]

theorem Valid.text_lengths {m : Manifest} (h : m.Valid) :
    (as_bytes m.vapp_name).length < 256 ∧ (as_bytes m.vapp_version).length < 256 :=
  ⟨Nat.lt_of_le_of_lt h.name (by decide), Nat.lt_of_le_of_lt h.version (by decide)⟩

/-- The bytes hashed for a valid manifest say all of it. -/
theorem hashed_injective {m n : Manifest} (hm : m.validate = .ok ()) (hn : n.validate = .ok ())
    (h : m.hashed = n.hashed) : m = n := by
  obtain ⟨hname, hversion⟩ := (validate_iff.mp hm).text_lengths
  obtain ⟨hname', hversion'⟩ := (validate_iff.mp hn).text_lengths
  cases m with
  | mk =>
    cases n with
    | mk =>
      rw [hashed_eq, hashed_eq] at h
      obtain ⟨rfl, h⟩ := delimited_to_be_bytes trivial trivial h
      obtain ⟨rfl, h⟩ := delimited_text_field hname hname' h
      obtain ⟨rfl, h⟩ := delimited_text_field hversion hversion' h
      obtain ⟨rfl, h⟩ := delimited_to_be_bytes trivial trivial h
      obtain ⟨rfl, h⟩ := delimited_to_be_bytes trivial trivial h
      obtain ⟨rfl, h⟩ := delimited_to_be_bytes trivial trivial h
      obtain ⟨rfl, h⟩ := delimited_toList trivial trivial h
      obtain ⟨rfl, h⟩ := delimited_to_be_bytes trivial trivial h
      obtain ⟨rfl, h⟩ := delimited_to_be_bytes trivial trivial h
      obtain ⟨rfl, h⟩ := delimited_toList trivial trivial h
      obtain ⟨rfl, h⟩ := delimited_to_be_bytes trivial trivial h
      obtain ⟨rfl, h⟩ := delimited_to_be_bytes trivial trivial h
      obtain ⟨rfl, h⟩ := delimited_toList trivial trivial h
      obtain ⟨rfl, -⟩ := delimited_to_be_bytes trivial trivial h
      rfl

/-- A V-App of one page in each section, under a name. -/
def named (vapp_name : String) : Manifest where
  manifest_version := 1
  vapp_name := vapp_name
  vapp_version := "0.1"
  entrypoint := 0x10002
  code_start := 0x10000
  code_end := 0x10100
  code_merkle_root := Vector.replicate 32 1
  data_start := 0x20000
  data_end := 0x20100
  data_merkle_root := Vector.replicate 32 2
  stack_start := 0x30000
  stack_end := 0x30100
  stack_merkle_root := Vector.replicate 32 3
  n_storage_slots := 4

theorem hashed_injective_two_words :
    named "two words" = named (" ".intercalate ["two", "words"]) :=
  hashed_injective (by decide +kernel) (by decide +kernel) (by decide +kernel)

end Manifest

end Vanadium
