import Vanadium.Bip388.WalletPolicy
import Vanadium.Proofs.Manifest

/-!
# Wallet policies as bytes

What a policy is serialized to says all of it: field by field the bytes can be
read back in one way only. The reader does read them back, provided that the
policy stays within its limits on the length of the template, the number of keys
and the length of their paths; if not, it fails.
-/

namespace Vanadium.Bip388

open Lib

/-! ## Readers -/

section
variable {α : Type} {s s' : Bytes}

theorem read_exact_append (bytes rest : Bytes) :
    read_exact bytes.length (bytes ++ rest) = .ok bytes rest := by
  rw [read_exact, Exec.get_bind, Exec.reject_bind_neg (by simp)]
  show Outcome.ok _ _ = _
  simp

theorem read_le_append {k n : ℕ} (h : n < 256 ^ k) (rest : Bytes) :
    read_le k (LittleEndian.write k n ++ rest) = .ok n rest := by
  have hread := read_exact_append (LittleEndian.write k n) rest
  rw [LittleEndian.length_write] at hread
  rw [read_le, Exec.bind_apply_ok hread, LittleEndian.read_write h]
  rfl

theorem repeated_append {item : Reader α} {enc : α → Bytes} {xs : List α}
    (h : ∀ x ∈ xs, ∀ rest, item (enc x ++ rest) = .ok x rest) (rest : Bytes) :
    repeated item xs.length (xs.flatMap enc ++ rest) = .ok xs rest := by
  induction xs with
  | nil => rfl
  | cons x xs ih =>
      have htail := ih fun y hy => h y (.tail _ hy)
      rw [List.length_cons, repeated, List.flatMap_cons, List.append_assoc,
        Exec.bind_apply_ok (h x (.head _) _), Exec.bind_apply_ok htail]
      rfl

namespace VarInt

theorem decode_encode {n : ℕ} (h : n < 2 ^ 64) (rest : Bytes) :
    consensus_decode (consensus_encode n ++ rest) = .ok n rest := by
  have htag : ∀ (tag : U8) (bytes : Bytes), read_le 1 (tag :: bytes) = .ok tag.toNat bytes :=
    fun tag bytes => by simpa [LittleEndian.write] using read_le_append (k := 1) tag.isLt bytes
  rw [consensus_decode, consensus_encode]
  split
  · next hsmall =>
      rw [Exec.bind_apply_ok (read_le_append (by omega) rest), if_neg (by omega),
        if_neg (by omega), if_neg (by omega)]
      rfl
  · next hsmall =>
      split
      · next hmid =>
          rw [List.cons_append, Exec.bind_apply_ok (htag 0xFD _), if_neg (by decide),
            if_neg (by decide), if_pos (by decide),
            Exec.bind_apply_ok (read_le_append (by omega) rest), Exec.reject_bind_neg (by omega)]
          rfl
      · next hmid =>
          split
          · next hlarge =>
              rw [List.cons_append, Exec.bind_apply_ok (htag 0xFE _), if_neg (by decide),
                if_pos (by decide), Exec.bind_apply_ok (read_le_append (by omega) rest),
                Exec.reject_bind_neg (by omega)]
              rfl
          · next hlarge =>
              rw [List.cons_append, Exec.bind_apply_ok (htag 0xFF _), if_pos (by decide),
                Exec.bind_apply_ok (read_le_append (by omega) rest),
                Exec.reject_bind_neg (by omega)]
              rfl

end VarInt

end

/-! ## What is written says what was meant -/

theorem delimited_varint : Delimited { n : ℕ | n < 2 ^ 64 } VarInt.consensus_encode := by
  intro m hm n hn u v huv
  have h := (VarInt.decode_encode hm u).symm.trans
    ((congrArg VarInt.consensus_decode huv).trans (VarInt.decode_encode hn v))
  cases h
  exact ⟨rfl, rfl⟩

/-- A text behind its own length. -/
theorem delimited_var_bytes : Delimited { bytes : Bytes | bytes.length < 2 ^ 64 }
    fun bytes => VarInt.consensus_encode bytes.length ++ bytes :=
  delimited_varint.counted

theorem delimited_step :
    Delimited Set.univ fun step : U32 => LittleEndian.write 4 step.toNat := by
  refine .of_length (n := 4) (fun _ _ => LittleEndian.length_write _ _) fun x _ y _ h => ?_
  exact BitVec.eq_of_toNat_eq (LittleEndian.write_injOn 4 x.isLt y.isLt h)

theorem delimited_origin :
    Delimited { k : KeyOrigin | k.derivation_path.length < 2 ^ 64 } KeyOrigin.serialize := by
  intro k hk k' hk' u v huv
  unfold KeyOrigin.serialize at huv
  rw [List.append_assoc, List.append_assoc, List.append_assoc, List.append_assoc] at huv
  obtain ⟨hfingerprint, hrest⟩ := delimited_to_be_bytes trivial trivial huv
  obtain ⟨hpath, htail⟩ := delimited_varint.counted_items delimited_step (a := k.derivation_path)
    (b := k'.derivation_path) ⟨hk, fun _ _ => trivial⟩ ⟨hk', fun _ _ => trivial⟩
    (by simpa using hrest)
  cases k
  cases k'
  cases hfingerprint
  cases hpath
  exact ⟨rfl, htail⟩

section
variable {X : Type} [Xpub X]

/-- A key whose origin, if it has one, has a path that is in memory. -/
def KeyInMemory (key : KeyInformation X) : Prop :=
  ∀ origin ∈ key.origin_info, origin.derivation_path.length < 2 ^ 64

theorem delimited_key (hxpub : Function.Injective (Xpub.encode : X → Vector U8 78)) :
    Delimited { key : KeyInformation X | KeyInMemory key } KeyInformation.serialize := by
  have hpub : Delimited Set.univ fun x : X => (Xpub.encode x).toList :=
    .of_length (n := 78) (fun x _ => Vector.length_toList) fun x _ y _ h =>
      hxpub (Vector.toList_inj.mp h)
  rintro ⟨pubkey, origin⟩ hk ⟨pubkey', origin'⟩ hk' u v huv
  unfold KeyInformation.serialize at huv
  rw [List.append_assoc, List.append_assoc] at huv
  cases origin with
  | none =>
      cases origin' with
      | none =>
          obtain ⟨rfl, htail⟩ := hpub trivial trivial (List.cons.inj huv).2
          exact ⟨rfl, htail⟩
      | some k' => exact absurd (List.cons.inj huv).1 (by decide)
  | some k =>
      cases origin' with
      | none => exact absurd (List.cons.inj huv).1 (by decide)
      | some k' =>
          obtain ⟨rfl, hrest⟩ := delimited_origin (hk k rfl) (hk' k' rfl) (List.cons.inj huv).2
          obtain ⟨rfl, htail⟩ := hpub trivial trivial hrest
          exact ⟨rfl, htail⟩

namespace WalletPolicy

omit [Xpub X] in
/-- The template is what its text parses to. -/
theorem ext' {w w' : WalletPolicy X} (hraw : w.descriptor_template_raw = w'.descriptor_template_raw)
    (hkeys : w.key_information = w'.key_information) : w = w' := by
  obtain ⟨template, keys, raw, ⟨rest, hparsed⟩, hmem⟩ := w
  obtain ⟨template', keys', raw', ⟨rest', hparsed'⟩, hmem'⟩ := w'
  cases hraw
  cases hkeys
  cases hparsed.symm.trans hparsed'
  rfl

theorem delimited_serialize (hxpub : Function.Injective (Xpub.encode : X → Vector U8 78)) :
    Delimited Set.univ (serialize : WalletPolicy X → Bytes) := by
  intro w _ w' _ u v huv
  unfold serialize at huv
  simp only [List.append_assoc] at huv
  rw [← List.append_assoc, ← List.append_assoc (VarInt.consensus_encode
    (as_bytes w'.descriptor_template_raw).length)] at huv
  obtain ⟨hraw, hrest⟩ := delimited_var_bytes w.in_memory.1 w'.in_memory.1 huv
  obtain ⟨hkeys, htail⟩ := delimited_varint.counted_items (delimited_key hxpub)
    (a := w.key_information) (b := w'.key_information) ⟨w.in_memory.2.1, w.in_memory.2.2⟩
    ⟨w'.in_memory.2.1, w'.in_memory.2.2⟩ (by simpa using hrest)
  exact ⟨ext' (as_bytes_inj hraw) hkeys, htail⟩

omit [Xpub X] in
/-- A policy is what its own parts make up. -/
theorem new_self {σ : Type} (w : WalletPolicy X) (s : σ) :
    new w.descriptor_template_raw w.key_information s = .ok w s := by
  obtain ⟨rest, hparsed⟩ := w.parsed
  unfold new
  split
  · next template rest' h =>
      rw [dif_pos w.in_memory]
      exact congrArg (Outcome.ok · s) (ext' rfl rfl)
  · next e rest' h => cases hparsed.symm.trans h
  · next why rest' h => cases hparsed.symm.trans h

end WalletPolicy

/-! ## Reading back, within the limits -/

theorem from_utf8_as_bytes (s : String) : Deserializer.from_utf8 (as_bytes s) = some s := by
  have hbytes : (⟨((as_bytes s).map UInt8.ofBitVec).toArray⟩ : ByteArray) = s.toByteArray := by
    refine ByteArray.ext (Array.toList_inj.mp ?_)
    simp [as_bytes, Function.comp_def]
  rw [Deserializer.from_utf8, hbytes, String.fromUTF8?, dif_pos s.isValidUTF8]
  rfl

omit [Xpub X] in
/-- Reading a number of items fails at the first one beyond its limit. -/
theorem repeated_within {α : Type} {item : Reader α} {enc : α → Bytes} {P : α → Prop} {xs ys : List α}
    {rest s : Bytes} (hok : ∀ x ∈ xs, P x → ∀ rest, item (enc x ++ rest) = .ok x rest)
    (hno : ∀ x ∈ xs, ¬ P x → ∀ rest y s, item (enc x ++ rest) ≠ .ok y s)
    (h : repeated item xs.length (xs.flatMap enc ++ rest) = .ok ys s) : ∀ x ∈ xs, P x := by
  induction xs generalizing ys s with
  | nil => simp
  | cons x xs ih =>
      rw [List.length_cons, repeated, List.flatMap_cons, List.append_assoc] at h
      obtain ⟨y, s₁, hy, h⟩ := Exec.bind_ok.mp h
      have hx : P x := by
        by_contra hx
        exact hno x (.head _) hx _ y s₁ hy
      cases (hok x (.head _) hx _).symm.trans hy
      obtain ⟨ys', s₂, hys, -⟩ := Exec.bind_ok.mp h
      exact List.forall_mem_cons.mpr ⟨hx, ih (fun x hx => hok x (.tail _ hx))
        (fun x hx => hno x (.tail _ hx)) hys⟩

/-- What the reader of a serialized origin allows. -/
def KeyOrigin.WithinLimits (k : KeyOrigin) : Prop :=
  k.derivation_path.length ≤ MAX_BIP32_DERIVATION_PATH_LEN - 2

theorem be_bytes_read (x : U32) (rest : Bytes) :
    read_exact 4 (to_be_bytes x ++ rest) = .ok (to_be_bytes x) rest :=
  read_exact_append (to_be_bytes x) rest

theorem origin_reads {k : KeyOrigin} (hmem : k.derivation_path.length < 2 ^ 64) (rest : Bytes) :
    KeyOrigin.deserialize (k.serialize ++ rest) = (Exec.reject
        (k.derivation_path.length > MAX_BIP32_DERIVATION_PATH_LEN - 2)
        (EncodeError.parseFailed "Derivation path too long") >>= fun _ =>
      repeated (read_le 4) k.derivation_path.length >>= fun steps =>
        pure { k with derivation_path := steps.map (BitVec.ofNat 32) })
      ((k.derivation_path.flatMap fun step : U32 => LittleEndian.write 4 step.toNat) ++ rest) := by
  unfold KeyOrigin.serialize KeyOrigin.deserialize
  rw [List.append_assoc, List.append_assoc, Exec.bind_apply_ok (be_bytes_read _ _),
    Exec.bind_apply_ok (VarInt.decode_encode hmem _)]
  simp only [from_be_bytes_to_be_bytes]

theorem origin_read_back {k : KeyOrigin} (hmem : k.derivation_path.length < 2 ^ 64)
    (hk : k.WithinLimits) (rest : Bytes) :
    KeyOrigin.deserialize (k.serialize ++ rest) = .ok k rest := by
  have hstep : ∀ n ∈ k.derivation_path.map BitVec.toNat, ∀ rest,
      read_le 4 (LittleEndian.write 4 n ++ rest) = .ok n rest := by
    intro n hn rest
    obtain ⟨step, -, rfl⟩ := List.mem_map.mp hn
    exact read_le_append step.isLt rest
  have hsteps := repeated_append hstep rest
  rw [List.length_map, List.flatMap_map] at hsteps
  rw [origin_reads hmem, Exec.reject_bind_neg (not_lt.mpr hk), Exec.bind_apply_ok hsteps]
  show Outcome.ok _ _ = _
  congr 1
  cases k
  simp [Function.comp_def]

theorem origin_beyond {k : KeyOrigin} (hmem : k.derivation_path.length < 2 ^ 64)
    (hk : ¬ k.WithinLimits) (rest : Bytes) :
    KeyOrigin.deserialize (k.serialize ++ rest) = .err (.parseFailed "Derivation path too long")
      ((k.derivation_path.flatMap fun step => LittleEndian.write 4 step.toNat) ++ rest) := by
  rw [origin_reads hmem, Exec.reject_bind_pos (not_le.mp hk)]

def KeyInformation.WithinLimits (key : KeyInformation X) : Prop :=
  ∀ origin ∈ key.origin_info, origin.WithinLimits

theorem xpub_read (hxpub : ∀ x : X, Xpub.decode (Xpub.encode x).toList = some x)
    (origin_info : Option KeyOrigin) (x : X) (rest : Bytes) :
    (read_exact 78 >>= fun xpub_bytes =>
      Exec.orElse (Xpub.decode xpub_bytes) (EncodeError.parseFailed "Invalid xpub") >>= fun pubkey =>
        pure ({ origin_info, pubkey } : KeyInformation X)) ((Xpub.encode x).toList ++ rest) =
      .ok { origin_info, pubkey := x } rest := by
  have hread := read_exact_append (Xpub.encode x).toList rest
  rw [Vector.length_toList] at hread
  rw [Exec.bind_apply_ok hread, Exec.orElse_bind_some (hxpub x)]
  rfl

theorem flag_read (flag : U8) (rest : Bytes) : read_le 1 (flag :: rest) = .ok flag.toNat rest := by
  simpa [LittleEndian.write] using read_le_append (k := 1) flag.isLt rest

theorem key_read_back (hxpub : ∀ x : X, Xpub.decode (Xpub.encode x).toList = some x)
    {key : KeyInformation X} (hmem : KeyInMemory key) (hk : key.WithinLimits) (rest : Bytes) :
    KeyInformation.deserialize (key.serialize ++ rest) = .ok key rest := by
  obtain ⟨pubkey, origin⟩ := key
  unfold KeyInformation.serialize KeyInformation.deserialize
  cases origin with
  | none =>
      rw [List.append_assoc, List.singleton_append, Exec.bind_apply_ok (flag_read 0 _),
        if_pos (by decide)]
      exact xpub_read hxpub none pubkey rest
  | some k =>
      rw [List.append_assoc, List.cons_append, Exec.bind_apply_ok (flag_read 1 _),
        if_neg (by decide), if_pos (by decide),
        Exec.bind_apply_ok (origin_read_back (hmem k rfl) (hk k rfl) _)]
      exact xpub_read hxpub (some k) pubkey rest

theorem key_beyond {key : KeyInformation X} (hmem : KeyInMemory key) (hk : ¬ key.WithinLimits)
    (rest : Bytes) (key' : KeyInformation X) (s : Bytes) :
    KeyInformation.deserialize (key.serialize ++ rest) ≠ .ok key' s := by
  obtain ⟨pubkey, origin⟩ := key
  unfold KeyInformation.serialize KeyInformation.deserialize
  cases origin with
  | none => exact absurd (fun k hk => by cases hk) hk
  | some k =>
      have hk : ¬ k.WithinLimits := fun h => hk fun k' hk' => by cases hk'; exact h
      rw [List.append_assoc, List.cons_append, Exec.bind_apply_ok (flag_read 1 _),
        if_neg (by decide), if_pos (by decide),
        Exec.bind_apply_err (origin_beyond (hmem k rfl) hk _)]
      exact fun h => by cases h

namespace WalletPolicy

/-- What the reader of a serialized policy allows. -/
structure WithinLimits (w : WalletPolicy X) : Prop where
  template : (as_bytes w.descriptor_template_raw).length ≤ MAX_SERIALIZED_DESCRIPTORTEMPLATE_LEN
  keys : w.key_information.length ≤ MAX_SERIALIZED_KEY_COUNT
  paths : ∀ key ∈ w.key_information, key.WithinLimits

theorem deserialize_serialize_iff (hxpub : ∀ x : X, Xpub.decode (Xpub.encode x).toList = some x)
    (w : WalletPolicy X) : deserialize w.serialize = .ok w [] ↔ w.WithinLimits := by
  have hserialize : w.serialize = VarInt.consensus_encode (as_bytes w.descriptor_template_raw).length ++
      (as_bytes w.descriptor_template_raw ++ (VarInt.consensus_encode w.key_information.length ++
        (w.key_information.flatMap KeyInformation.serialize ++ []))) := by
    simp [serialize]
  unfold deserialize
  rw [hserialize, Exec.bind_apply_ok (VarInt.decode_encode w.in_memory.1 _)]
  constructor
  · intro h
    obtain ⟨htemplate, h⟩ := Exec.reject_bind_ok.mp h
    rw [Exec.bind_apply_ok (read_exact_append _ _),
      Exec.orElse_bind_some (from_utf8_as_bytes _),
      Exec.bind_apply_ok (VarInt.decode_encode w.in_memory.2.1 _)] at h
    obtain ⟨hkeys, h⟩ := Exec.reject_bind_ok.mp h
    obtain ⟨keys, s, hread, -⟩ := Exec.bind_ok.mp h
    refine ⟨not_lt.mp htemplate, not_lt.mp hkeys, ?_⟩
    exact repeated_within
      (fun key hmem hk rest => key_read_back hxpub (w.in_memory.2.2 key hmem) hk rest)
      (fun key hmem hk rest => key_beyond (w.in_memory.2.2 key hmem) hk rest) hread
  · intro h
    rw [Exec.reject_bind_neg (not_lt.mpr h.template), Exec.bind_apply_ok (read_exact_append _ _),
      Exec.orElse_bind_some (from_utf8_as_bytes _),
      Exec.bind_apply_ok (VarInt.decode_encode w.in_memory.2.1 _),
      Exec.reject_bind_neg (not_lt.mpr h.keys), Exec.bind_apply_ok (repeated_append
        (fun key hk rest => key_read_back hxpub (w.in_memory.2.2 key hk) (h.paths key hk) rest) []),
      Exec.get_bind, Exec.reject_bind_neg (by simp)]
    exact Exec.zoom_ok.mpr ⟨[], new_self w [], rfl⟩

end WalletPolicy

end

end Vanadium.Bip388
