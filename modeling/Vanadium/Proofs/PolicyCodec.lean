import Vanadium.Bitcoin.PolicyCodec
import Vanadium.Bitcoin.Registration
import Vanadium.Proofs.WalletPolicy

/-!
# Wallet policies that come back

A policy goes to the device in a message when it is registered, and comes back in
a PSBT when its coins are spent. The codec of messages reads back whatever policy
it writes. The reader of the form in PSBTs has limits that the codec does not
have, and exactly the policies within these come back.
-/

namespace Vanadium.Bitcoin

open Lib Bip388

namespace Minicbor

variable {X : Type} [Xpub X] {cbor : Minicbor}

theorem Lawful.definite_map (h : cbor.Lawful) {n : ℕ} (hn : n < 2 ^ 64) (rest : Bytes) :
    cbor.definite_map (cbor.encode_map n ++ rest) = .ok n rest := by
  rw [Minicbor.definite_map, Exec.bind_apply_ok (h.map n hn rest)]
  rfl

theorem Lawful.items {α : Type} {item : Decoder α} {enc : α → Bytes} {xs : List α}
    (h : cbor.Lawful) (hn : xs.length < 2 ^ 64)
    (hitem : ∀ x ∈ xs, ∀ rest, item (enc x ++ rest) = .ok x rest) (rest : Bytes) :
    (cbor.definite_array >>= Minicbor.items item)
      (cbor.encode_array xs.length ++ (xs.flatMap enc ++ rest)) = .ok xs rest := by
  have hlen : cbor.definite_array (cbor.encode_array xs.length ++ (xs.flatMap enc ++ rest)) =
      .ok xs.length (xs.flatMap enc ++ rest) := by
    rw [definite_array, Exec.bind_apply_ok (h.array _ hn _)]
    rfl
  rw [Exec.bind_apply_ok hlen]
  clear hlen hn
  induction xs with
  | nil => rfl
  | cons x xs ih =>
      have htail := ih fun y hy => hitem y (.tail _ hy)
      rw [List.length_cons, Minicbor.items, List.flatMap_cons, List.append_assoc,
        Exec.bind_apply_ok (hitem x (.head _) _), Exec.bind_apply_ok htail]
      rfl

/-- A map with both of its entries, in order. -/
theorem Lawful.entries {α β : Type} {entry0 : Decoder α} {entry1 : Decoder β} {a : α} {b : β}
    {enc0 enc1 : Bytes} (h : cbor.Lawful) (h0 : ∀ rest, entry0 (enc0 ++ rest) = .ok a rest)
    (h1 : ∀ rest, entry1 (enc1 ++ rest) = .ok b rest) (rest : Bytes) :
    cbor.entries entry0 entry1 2 none none
        (cbor.encode_u8 0 ++ (enc0 ++ (cbor.encode_u8 1 ++ (enc1 ++ rest)))) =
      .ok (some a, some b) rest := by
  rw [Minicbor.entries, Exec.bind_apply_ok (h.u8 0 _), if_pos rfl, Exec.bind_apply_ok (h0 _),
    Minicbor.entries, Exec.bind_apply_ok (h.u8 1 _), if_neg (by decide), if_pos rfl,
    Exec.bind_apply_ok (h1 _)]
  rfl

/-- A map without the second one. -/
theorem Lawful.entry {α β : Type} {entry0 : Decoder α} {entry1 : Decoder β} {a : α}
    {enc0 rest : Bytes} (h : cbor.Lawful) (h0 : ∀ rest, entry0 (enc0 ++ rest) = .ok a rest) :
    cbor.entries entry0 entry1 1 none none (cbor.encode_u8 0 ++ (enc0 ++ rest)) =
      .ok (some a, none) rest := by
  rw [Minicbor.entries, Exec.bind_apply_ok (h.u8 0 _), if_pos rfl, Exec.bind_apply_ok (h0 _)]
  rfl

theorem Lawful.key_origin (h : cbor.Lawful) {origin : KeyOrigin}
    (hmem : origin.derivation_path.length < 2 ^ 64) (rest : Bytes) :
    cbor.decode_key_origin (cbor.encode_key_origin origin ++ rest) = .ok origin rest := by
  unfold encode_key_origin decode_key_origin
  have hpath : ∀ rest, (cbor.definite_array >>= Minicbor.items cbor.decode_u32)
      (cbor.encode_array origin.derivation_path.length ++
        origin.derivation_path.flatMap cbor.encode_u32 ++ rest) =
      .ok origin.derivation_path rest := by
    intro rest
    rw [List.append_assoc]
    exact h.items hmem (fun step _ rest => h.u32 step rest) rest
  have hentries := h.entries (h.u32 origin.fingerprint) hpath rest
  simp only [List.append_assoc] at hentries ⊢
  rw [Exec.bind_apply_ok (h.definite_map (by decide) _), Exec.bind_apply_ok hentries]
  rfl

theorem Lawful.key_information (h : cbor.Lawful)
    (hxpub : ∀ x : X, Xpub.decode (Xpub.encode x).toList = some x) {key : KeyInformation X}
    (hmem : KeyInMemory key) (rest : Bytes) :
    cbor.decode_key_information (cbor.encode_key_information key ++ rest) = .ok key rest := by
  obtain ⟨pubkey, origin⟩ := key
  have hpub : ∀ rest, (cbor.decode_bytes >>= fun bytes =>
      Exec.orElse (Xpub.decode bytes) (CborError.message "invalid xpub"))
        (cbor.encode_bytes (Xpub.encode pubkey).toList ++ rest) = .ok pubkey rest := by
    intro rest
    rw [Exec.bind_apply_ok (h.bytes _ (by rw [Vector.length_toList]; decide) _), hxpub]
    rfl
  unfold encode_key_information decode_key_information
  cases origin with
  | none =>
      simp only [List.append_assoc, List.nil_append, Option.isSome_none, Bool.false_eq_true,
        if_false]
      rw [Exec.bind_apply_ok (h.definite_map (by decide) _), Exec.bind_apply_ok (h.entry hpub)]
      rfl
  | some origin =>
      simp only [List.append_assoc, Option.isSome_some, if_true]
      rw [Exec.bind_apply_ok (h.definite_map (by decide) _),
        Exec.bind_apply_ok (h.entries hpub (h.key_origin (hmem origin rfl)) rest)]
      rfl

/-- The codec reads back what it writes. -/
theorem Lawful.policy (h : cbor.Lawful)
    (hxpub : ∀ x : X, Xpub.decode (Xpub.encode x).toList = some x) (w : WalletPolicy X) :
    cbor.decode_policy (cbor.encode_policy w) = .ok w [] := by
  unfold encode_policy decode_policy
  have hkeys : ∀ rest, (cbor.definite_array >>= Minicbor.items cbor.decode_key_information)
      (cbor.encode_array w.key_information.length ++
        w.key_information.flatMap cbor.encode_key_information ++ rest) =
      .ok w.key_information rest := by
    intro rest
    rw [List.append_assoc]
    exact h.items w.in_memory.2.1 (fun key hk rest =>
      h.key_information hxpub (w.in_memory.2.2 key hk) rest) rest
  have hentries := h.entries (h.str _ w.in_memory.1) hkeys []
  simp only [List.append_assoc, List.append_nil] at hentries ⊢
  rw [Exec.bind_apply_ok (h.definite_map (by decide) _), Exec.bind_apply_ok hentries]
  have hnew : Exec.zoom id (fun s _ => s) (fun _ => CborError.message "invalid wallet policy")
      (WalletPolicy.new w.descriptor_template_raw w.key_information) ([] : Bytes) = .ok w [] :=
    Exec.zoom_ok.mpr ⟨[], w.new_self [], rfl⟩
  exact hnew

/-! ## Through the device -/

/-- The device takes `w` from some message. -/
def Accepted (cbor : Minicbor) (w : WalletPolicy X) : Prop :=
  ∃ bytes rest, cbor.decode_policy bytes = .ok w rest

/-- Both forms of `w` are read as `w` again, under the identifier of its registration. -/
structure ComesBack (cbor : Minicbor) (w : WalletPolicy X) : Prop where
  message : cbor.decode_policy (cbor.encode_policy w) = .ok w []
  psbt : ∃ w' : WalletPolicy X, WalletPolicy.deserialize w.serialize = .ok w' [] ∧ w' = w ∧
    ∀ sha256 name, (Registerable.account w').registration_id sha256 name =
      (Registerable.account w).registration_id sha256 name

/-- Every policy is accepted, and those within the limits of the reader come back. -/
theorem comes_back_iff (hcbor : cbor.Lawful)
    (hxpub : ∀ x : X, Xpub.decode (Xpub.encode x).toList = some x) (w : WalletPolicy X) :
    cbor.Accepted w ∧ (cbor.ComesBack w ↔ w.WithinLimits) := by
  have hmessage := hcbor.policy hxpub w
  refine ⟨⟨_, [], hmessage⟩, fun h => ?_, fun h => ⟨hmessage, w, ?_, rfl, fun _ _ => rfl⟩⟩
  · obtain ⟨w', hread, rfl, -⟩ := h.psbt
    exact (WalletPolicy.deserialize_serialize_iff hxpub w').mp hread
  · exact (WalletPolicy.deserialize_serialize_iff hxpub w).mpr h

/-! ### The items of CBOR

A head is a type and a number; its first byte has the type in three bits, and the
number too if it is small. -/

/-- A number of `k` bytes, the most significant one first. -/
def big_endian (k n : ℕ) : Bytes := (LittleEndian.write k n).reverse

def head (major n : ℕ) : Bytes :=
  if n < 24 then [BitVec.ofNat 8 (32 * major + n)]
  else if n < 256 ^ 1 then BitVec.ofNat 8 (32 * major + 24) :: big_endian 1 n
  else if n < 256 ^ 2 then BitVec.ofNat 8 (32 * major + 25) :: big_endian 2 n
  else if n < 256 ^ 4 then BitVec.ofNat 8 (32 * major + 26) :: big_endian 4 n
  else BitVec.ofNat 8 (32 * major + 27) :: big_endian 8 n

def take (n : ℕ) : Decoder Bytes := do
  let rest ← Exec.get
  Exec.reject (rest.length < n) .other
  Exec.set (rest.drop n)
  pure (rest.take n)

def number (k : ℕ) : Decoder (Option ℕ) := do
  let bytes ← take k
  pure (some (LittleEndian.read bytes.reverse))

def read_head (major : ℕ) : Decoder (Option ℕ) := do
  let first ← take 1
  let first := LittleEndian.read first
  Exec.reject (first / 32 ≠ major) .other
  if first % 32 < 24 then pure (some (first % 32))
  else if first % 32 = 24 then number 1
  else if first % 32 = 25 then number 2
  else if first % 32 = 26 then number 4
  else if first % 32 = 27 then number 8
  else if first % 32 = 31 then pure none
  else Exec.throw .other

def definite (major : ℕ) : Decoder ℕ := do
  let n ← read_head major
  Exec.orElse n .other

/-- The library on what the codec writes; it skips nothing there. -/
def rfc8949 : Minicbor where
  encode_u8 x := head 0 x.toNat
  encode_u32 x := head 0 x.toNat
  encode_str s := head 3 (as_bytes s).length ++ as_bytes s
  encode_bytes b := head 2 b.length ++ b
  encode_array n := head 4 n
  encode_map n := head 5 n
  decode_u8 := do
    let n ← definite 0
    Exec.reject (n ≥ 2 ^ 8) .other
    pure (BitVec.ofNat 8 n)
  decode_u32 := do
    let n ← definite 0
    Exec.reject (n ≥ 2 ^ 32) .other
    pure (BitVec.ofNat 32 n)
  decode_str := do
    let n ← definite 3
    let bytes ← take n
    Exec.orElse (Deserializer.from_utf8 bytes) .other
  decode_bytes := do
    let n ← definite 2
    take n
  decode_array := read_head 4
  decode_map := read_head 5
  skip := Exec.throw .other

theorem take_append (bytes rest : Bytes) : take bytes.length (bytes ++ rest) = .ok bytes rest := by
  rw [take, Exec.get_bind, Exec.reject_bind_neg (by simp)]
  show Outcome.ok _ _ = _
  simp

theorem number_append {k n : ℕ} (h : n < 256 ^ k) (rest : Bytes) :
    number k (big_endian k n ++ rest) = .ok (some n) rest := by
  have htake := take_append (big_endian k n) rest
  rw [big_endian, List.length_reverse, LittleEndian.length_write] at htake
  rw [number, big_endian, Exec.bind_apply_ok htake, List.reverse_reverse, LittleEndian.read_write h]
  rfl

theorem read_head_cons {major k : ℕ} (hmajor : major < 8) (hk : k < 32) (bytes : Bytes) :
    read_head major (BitVec.ofNat 8 (32 * major + k) :: bytes) =
      (if k < 24 then pure (some k) else if k = 24 then number 1 else if k = 25 then number 2
        else if k = 26 then number 4 else if k = 27 then number 8 else if k = 31 then pure none
        else Exec.throw .other : Decoder (Option ℕ)) bytes := by
  have htake := take_append [BitVec.ofNat 8 (32 * major + k)] bytes
  rw [List.length_singleton, List.singleton_append] at htake
  have hfirst : LittleEndian.read [BitVec.ofNat 8 (32 * major + k)] = 32 * major + k := by
    rw [LittleEndian.read_cons, LittleEndian.read_nil, BitVec.toNat_ofNat,
      Nat.mod_eq_of_lt (by omega), Nat.mul_zero, Nat.add_zero]
  have hdiv : (32 * major + k) / 32 = major := by omega
  have hmod : (32 * major + k) % 32 = k := by omega
  rw [read_head, Exec.bind_apply_ok htake, hfirst, hdiv, hmod,
    Exec.reject_bind_neg (not_not.mpr rfl)]

theorem read_head_append {major n : ℕ} (hmajor : major < 8) (hn : n < 2 ^ 64) (rest : Bytes) :
    read_head major (head major n ++ rest) = .ok (some n) rest := by
  rw [head]
  split
  · next h =>
      rw [List.singleton_append, read_head_cons hmajor (by omega), if_pos h]
      rfl
  · split
    · next h =>
        rw [List.cons_append, read_head_cons hmajor (by decide)]
        exact number_append h rest
    · split
      · next h =>
          rw [List.cons_append, read_head_cons hmajor (by decide)]
          exact number_append h rest
      · split
        · next h =>
            rw [List.cons_append, read_head_cons hmajor (by decide)]
            exact number_append h rest
        · rw [List.cons_append, read_head_cons hmajor (by decide)]
          exact number_append (by omega) rest

theorem definite_append {major n : ℕ} (hmajor : major < 8) (hn : n < 2 ^ 64) (rest : Bytes) :
    definite major (head major n ++ rest) = .ok n rest := by
  rw [definite, Exec.bind_apply_ok (read_head_append hmajor hn rest)]
  rfl

theorem rfc8949_lawful : rfc8949.Lawful where
  u8 x rest := by
    have hx := x.isLt
    show (definite 0 >>= _) (head 0 x.toNat ++ rest) = _
    rw [Exec.bind_apply_ok (definite_append (by decide) (by omega) rest),
      Exec.reject_bind_neg (by omega), BitVec.ofNat_toNat, BitVec.setWidth_eq]
    rfl
  u32 x rest := by
    have hx := x.isLt
    show (definite 0 >>= _) (head 0 x.toNat ++ rest) = _
    rw [Exec.bind_apply_ok (definite_append (by decide) (by omega) rest),
      Exec.reject_bind_neg (by omega), BitVec.ofNat_toNat, BitVec.setWidth_eq]
    rfl
  str s hs rest := by
    show (definite 3 >>= _) (head 3 _ ++ as_bytes s ++ rest) = _
    rw [List.append_assoc, Exec.bind_apply_ok (definite_append (by decide) hs _),
      Exec.bind_apply_ok (take_append _ _), from_utf8_as_bytes]
    rfl
  bytes b hb rest := by
    show (definite 2 >>= _) (head 2 _ ++ b ++ rest) = _
    rw [List.append_assoc, Exec.bind_apply_ok (definite_append (by decide) hb _), take_append]
  array n hn rest := read_head_append (by decide) hn rest
  map n hn rest := read_head_append (by decide) hn rest

/-! ### One key, and an origin of some length -/

/-- A key is its encoding, of a version and everything else. -/
local instance : Xpub (Vector U8 78) where
  encode := id
  decode bytes := if bytes.length = 78 then some (array bytes 0 78) else none

theorem xpub_lawful (x : Vector U8 78) : Xpub.decode (Xpub.encode x).toList = some x := by
  simp [Xpub.decode, Xpub.encode, array_toList]

def single_key (steps : ℕ) (h : steps < 2 ^ 64) : WalletPolicy (Vector U8 78) where
  descriptor_template := .wpkh { key_type := .plainKey 0, num1 := 0, num2 := 1 }
  key_information := [{
    pubkey := Vector.replicate 78 4
    origin_info := some { fingerprint := 0x76223a6e, derivation_path := List.replicate steps 0 } }]
  descriptor_template_raw := "wpkh(@0/**)"
  parsed := ⟨[], rfl⟩
  in_memory := by
    refine ⟨by decide +kernel, by simp, ?_⟩
    simpa using h

/-- A path of 30 steps comes back. -/
theorem comes_back_30_steps : rfc8949.ComesBack (single_key 30 (by decide)) := by
  refine (comes_back_iff rfc8949_lawful xpub_lawful _).2.mpr ⟨by decide +kernel, by decide, ?_⟩
  simp [single_key, KeyInformation.WithinLimits, KeyOrigin.WithinLimits,
    MAX_BIP32_DERIVATION_PATH_LEN]

/-- A path of 31 steps is accepted, and does not come back. -/
theorem accepted_31_steps : rfc8949.Accepted (single_key 31 (by decide)) ∧
    ¬ rfc8949.ComesBack (single_key 31 (by decide)) := by
  refine ⟨⟨_, [], rfc8949_lawful.policy xpub_lawful _⟩, fun h => ?_⟩
  obtain ⟨w', hread, rfl, -⟩ := h.psbt
  have hpath := ((WalletPolicy.deserialize_serialize_iff xpub_lawful _).mp hread).paths
  simp [single_key, KeyInformation.WithinLimits, KeyOrigin.WithinLimits,
    MAX_BIP32_DERIVATION_PATH_LEN] at hpath

end Minicbor

end Vanadium.Bitcoin
