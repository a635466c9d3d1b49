import Vanadium.Bitcoin.ConvertV0
import Vanadium.Proofs.FastPsbt
import Vanadium.Proofs.LockTime
import Vanadium.Proofs.WalletPolicy

/-!
# What a conversion keeps

A PSBT of the old version is given by its text: the maps in a row, with every
number as short as it can be. What is read off a text is what was written into
it, so that the converter has the maps to work with, and what it writes is a text
of the new version that has them too, each with a few more pairs and in order.

The rest is about fields. Those that were added are the only ones of their kind
once the parser has accepted them, and they have the transaction in them, up to
its lock time, which depends on what else is in the maps.
-/

namespace Vanadium.Bitcoin.ConvertV0

open Lib Bip388

/-! ## Reading -/

section
variable {s r : Bytes}

theorem read_exact_ok {n : ℕ} {t : Bytes} :
    read_exact n s = .ok t r ↔ t.length = n ∧ s = t ++ r := by
  rw [read_exact, Exec.bind_apply_ok (Exec.get_apply s), Exec.reject_bind_ok]
  constructor
  · rintro ⟨hlen, h⟩
    rw [Exec.bind_apply_ok (Exec.set_apply s _)] at h
    cases h
    exact ⟨by rw [List.length_take]; omega, (List.take_append_drop n s).symm⟩
  · rintro ⟨hlen, hs⟩
    subst hlen hs
    refine ⟨by simp, ?_⟩
    rw [Exec.bind_apply_ok (Exec.set_apply _ _), List.take_left, List.drop_left]
    rfl

theorem read_le_ok {k n : ℕ} :
    read_le k s = .ok n r ↔ n < 256 ^ k ∧ s = LittleEndian.write k n ++ r := by
  simp only [read_le, Exec.bind_ok, read_exact_ok, Exec.pure_apply]
  constructor
  · rintro ⟨t, r', ⟨hlen, hs⟩, h⟩
    cases h
    subst hlen hs
    exact ⟨LittleEndian.read_lt t, by rw [LittleEndian.write_read]⟩
  · rintro ⟨hn, hs⟩
    exact ⟨_, r, ⟨LittleEndian.length_write k n, hs⟩, by rw [LittleEndian.read_write hn]⟩

/-- Nothing but the shortest text of a number is read. -/
theorem consensus_decode_ok {n : ℕ} :
    VarInt.consensus_decode s = .ok n r ↔ n < 2 ^ 64 ∧ s = VarInt.consensus_encode n ++ r := by
  constructor
  · intro h
    simp only [VarInt.consensus_decode, Exec.bind_ok, read_le_ok] at h
    obtain ⟨tag, s₁, ⟨htag, hs⟩, h⟩ := h
    have hwide : ∀ {k least : ℕ}, (do
        let x ← read_le k
        Exec.reject (x < least) .nonMinimalVarInt
        pure x : Bip388.Reader ℕ) s₁ = .ok n r →
          n < 256 ^ k ∧ least ≤ n ∧ s₁ = LittleEndian.write k n ++ r := by
      intro k least h
      rw [Exec.bind_ok] at h
      obtain ⟨x, s₂, hread, h⟩ := h
      obtain ⟨hx, hs₁⟩ := read_le_ok.mp hread
      obtain ⟨hleast, h⟩ := Exec.reject_bind_ok.mp h
      cases h
      exact ⟨hx, not_lt.mp hleast, hs₁⟩
    unfold VarInt.consensus_encode
    split at h
    · next heq =>
        obtain ⟨hn, hleast, hs₁⟩ := hwide h
        rw [if_neg (by omega), if_neg (by omega), if_neg (by omega), hs, hs₁, heq]
        exact ⟨hn, rfl⟩
    · split at h
      · next heq =>
          obtain ⟨hn, hleast, hs₁⟩ := hwide h
          rw [if_neg (by omega), if_neg (by omega), if_pos (by omega), hs, hs₁, heq]
          exact ⟨by omega, rfl⟩
      · split at h
        · next heq =>
            obtain ⟨hn, hleast, hs₁⟩ := hwide h
            rw [if_neg (by omega), if_pos (by omega), hs, hs₁, heq]
            exact ⟨by omega, rfl⟩
        · next h₁ h₂ h₃ =>
            cases h
            rw [if_pos (by omega)]
            exact ⟨by omega, hs⟩
  · rintro ⟨hn, hs⟩
    rw [hs]
    exact VarInt.decode_encode hn r

theorem read_varint_ok {n : ℕ} :
    read_varint s = .ok n r ↔ n < 2 ^ 64 ∧ s = VarInt.consensus_encode n ++ r := by
  rw [read_varint, Exec.map_err_ok, consensus_decode_ok]

theorem read_bytes_ok {n : ℕ} {t : Bytes} :
    read_bytes n s = .ok t r ↔ n < 2 ^ 63 ∧ t.length = n ∧ s = t ++ r := by
  rw [read_bytes, Exec.assert_bind_ok, Exec.map_err_ok, read_exact_ok]

/-- A pair that a map can have: a key of no bytes would end it. -/
structure KV.Fits (kv : KV) : Prop where
  key_pos : 0 < kv.key.length
  key_lt : kv.key.length < 2 ^ 63
  val_lt : kv.val.length < 2 ^ 63

theorem KV.length_bytes_pos (kv : KV) (h : kv.Fits) : 0 < kv.bytes.length := by
  have := h.key_pos
  simp only [KV.bytes, List.length_append]
  omega

theorem loop_ok {fuel : ℕ} {out m : List KV} (hfuel : s.length < fuel) :
    read_map.loop fuel out s = .ok m r ↔
      ∃ rest, m = out ++ rest ∧ (∀ kv ∈ rest, kv.Fits) ∧ s = map_bytes rest ++ r := by
  induction fuel generalizing s out with
  | zero => omega
  | succ fuel ih =>
      rw [read_map.loop, Exec.bind_ok]
      constructor
      · intro ⟨key_len, s₁, hread, h⟩
        obtain ⟨hkey_len, hs⟩ := read_varint_ok.mp hread
        split at h
        · next hzero =>
            cases h
            exact ⟨[], (List.append_nil _).symm, by simp, by rw [hs, hzero]; rfl⟩
        · next hne =>
            rw [Exec.bind_ok] at h
            obtain ⟨key, s₂, hread, h⟩ := h
            obtain ⟨hlt, hkey, hs₁⟩ := read_bytes_ok.mp hread
            rw [Exec.bind_ok] at h
            obtain ⟨val_len, s₃, hread, h⟩ := h
            obtain ⟨hval_len, hs₂⟩ := read_varint_ok.mp hread
            rw [Exec.bind_ok] at h
            obtain ⟨val, s₄, hread, h⟩ := h
            obtain ⟨hvlt, hval, hs₃⟩ := read_bytes_ok.mp hread
            have hfits : KV.Fits { key, val } :=
              ⟨show 0 < key.length by omega, show key.length < _ by omega,
                show val.length < _ by omega⟩
            have hbytes : s = KV.bytes { key, val } ++ s₄ := by
              rw [hs, hs₁, hs₂, hs₃, ← hkey, ← hval]
              simp [KV.bytes]
            have hpos := KV.length_bytes_pos _ hfits
            rw [hbytes, List.length_append] at hfuel
            obtain ⟨rest, hm, hrest, hs₄⟩ := (ih (by omega)).mp h
            refine ⟨{ key, val } :: rest, by rw [hm, List.append_assoc]; rfl,
              List.forall_mem_cons.mpr ⟨hfits, hrest⟩, ?_⟩
            rw [hbytes, hs₄]
            simp [map_bytes]
      · intro ⟨rest, hm, hrest, hs⟩
        cases rest with
        | nil =>
            refine ⟨0, r, read_varint_ok.mpr ⟨by decide, hs⟩, ?_⟩
            rw [if_pos rfl, hm, List.append_nil]
            rfl
        | cons kv rest =>
            obtain ⟨hfits, hrest⟩ := List.forall_mem_cons.mp hrest
            have hpos := KV.length_bytes_pos _ hfits
            obtain ⟨hkey, hkey_lt, hval_lt⟩ := hfits
            have hbytes : s = kv.bytes ++ (map_bytes rest ++ r) := by
              rw [hs]
              simp [map_bytes]
            rw [hbytes, List.length_append] at hfuel
            have hsplit : s = VarInt.consensus_encode kv.key.length ++ (kv.key ++
                (VarInt.consensus_encode kv.val.length ++ (kv.val ++ (map_bytes rest ++ r)))) := by
              rw [hbytes, KV.bytes]
              simp
            refine ⟨kv.key.length, _, read_varint_ok.mpr ⟨by omega, hsplit⟩, ?_⟩
            rw [if_neg (by omega)]
            refine Exec.bind_ok.mpr ⟨_, _, read_bytes_ok.mpr ⟨hkey_lt, rfl, rfl⟩, ?_⟩
            refine Exec.bind_ok.mpr ⟨_, _, read_varint_ok.mpr ⟨by omega, rfl⟩, ?_⟩
            refine Exec.bind_ok.mpr ⟨_, _, read_bytes_ok.mpr ⟨hval_lt, rfl, rfl⟩, ?_⟩
            exact (ih (by omega)).mpr ⟨rest, by rw [hm, List.append_assoc]; rfl, hrest, rfl⟩

theorem read_map_ok {m : List KV} :
    read_map s = .ok m r ↔ (∀ kv ∈ m, kv.Fits) ∧ s = map_bytes m ++ r := by
  rw [read_map, Exec.bind_apply_ok (Exec.get_apply s), loop_ok (Nat.lt_succ_self _)]
  simp

theorem read_maps_ok {n : ℕ} {ms : List (List KV)} :
    read_maps n s = .ok ms r ↔
      ms.length = n ∧ (∀ m ∈ ms, ∀ kv ∈ m, kv.Fits) ∧ s = ms.flatMap map_bytes ++ r := by
  induction n generalizing s r ms with
  | zero =>
      rw [read_maps, Exec.pure_apply, List.length_eq_zero_iff]
      constructor
      · intro h
        cases h
        exact ⟨rfl, by simp, rfl⟩
      · intro ⟨hms, _, hs⟩
        rw [hs, hms]
        rfl
  | succ n ih =>
      simp only [read_maps, Exec.bind_ok, read_map_ok, ih, Exec.pure_apply]
      constructor
      · intro ⟨m, s₁, ⟨hm, hs⟩, ms', s₂, ⟨hlen, hms, hs₁⟩, h⟩
        cases h
        refine ⟨congrArg Nat.succ hlen, List.forall_mem_cons.mpr ⟨hm, hms⟩, ?_⟩
        rw [hs, hs₁, List.flatMap_cons, List.append_assoc]
      · intro ⟨hlen, hms, hs⟩
        cases ms with
        | nil => cases hlen
        | cons m ms =>
            obtain ⟨hm, hms⟩ := List.forall_mem_cons.mp hms
            rw [List.flatMap_cons, List.append_assoc] at hs
            exact ⟨m, _, ⟨hm, hs⟩, ms, r, ⟨Nat.succ.inj hlen, hms, rfl⟩, rfl⟩

theorem read_maps_append {ms : List (List KV)} (rest : Bytes)
    (h : ∀ m ∈ ms, ∀ kv ∈ m, kv.Fits) :
    read_maps ms.length (ms.flatMap map_bytes ++ rest) = .ok ms rest :=
  read_maps_ok.mpr ⟨rfl, h, rfl⟩

end

/-! ## The global map -/

/-- Whether the type of the key is that of the unsigned transaction. -/
def KV.IsUnsignedTx (kv : KV) : Prop := kv.key.head? = some 0

instance : DecidablePred KV.IsUnsignedTx := fun kv =>
  inferInstanceAs (Decidable (kv.key.head? = some 0))

theorem head_consensus_encode {t : ℕ} (ht : t < 2 ^ 64) (rest : Bytes) :
    (VarInt.consensus_encode t ++ rest).head? = some 0 ↔ t = 0 := by
  unfold VarInt.consensus_encode
  split
  · next h =>
      rw [LittleEndian.write, List.cons_append, List.head?_cons, Option.some_inj]
      refine ⟨fun h0 => ?_, fun h0 => by rw [h0]; rfl⟩
      have := congrArg BitVec.toNat h0
      rw [BitVec.toNat_ofNat, Nat.mod_eq_of_lt (by omega)] at this
      exact this
  · next h =>
      have ht0 : t ≠ 0 := by omega
      split <;> [skip; split] <;> simp [ht0]

theorem key_type_ok {key s s' : Bytes} {t : ℕ} (h : key_type key s = .ok t s') :
    s' = s ∧ (t = 0 ↔ key.head? = some 0) := by
  unfold key_type at h
  cases hdecode : VarInt.consensus_decode key with
  | ok typ rest =>
      obtain ⟨htyp, hkey⟩ := consensus_decode_ok.mp hdecode
      rw [hdecode] at h
      cases h
      rw [hkey, head_consensus_encode htyp]
      exact ⟨rfl, Iff.rfl⟩
  | err e rest =>
      rw [hdecode] at h
      cases h
  | stop w rest =>
      rw [hdecode] at h
      cases h

/-- The last unsigned transaction is taken, and all of them are taken out. -/
theorem capture_ok {g0 g_pass : List KV} {utx : Option Bytes} {s s' : Bytes}
    {out : Option Bytes × List KV} (h : capture g0 utx g_pass s = .ok out s') :
    s' = s ∧ out.1 = ((g0.filter KV.IsUnsignedTx).getLast?.map KV.val).or utx ∧
      out.2 = g_pass ++ g0.filter fun kv => ¬ kv.IsUnsignedTx := by
  induction g0 generalizing utx g_pass with
  | nil =>
      cases h
      exact ⟨rfl, rfl, (List.append_nil _).symm⟩
  | cons kv g0 ih =>
      rw [capture, Exec.bind_ok] at h
      obtain ⟨t, s₁, htype, h⟩ := h
      obtain ⟨hs₁, ht⟩ := key_type_ok htype
      subst hs₁
      by_cases h0 : t = 0
      · have hkv : kv.IsUnsignedTx := ht.mp h0
        rw [if_pos h0] at h
        obtain ⟨hs, hutx, hpass⟩ := ih h
        refine ⟨hs, ?_, ?_⟩
        · rw [hutx, List.filter_cons_of_pos (by simpa using hkv), List.getLast?_cons]
          cases (g0.filter KV.IsUnsignedTx).getLast? <;> rfl
        · rw [hpass, List.filter_cons_of_neg (by simpa using hkv)]
      · have hkv : ¬ kv.IsUnsignedTx := fun hkv => h0 (ht.mpr hkv)
        rw [if_neg h0] at h
        split at h
        · cases h
        · obtain ⟨hs, hutx, hpass⟩ := ih h
          refine ⟨hs, ?_, ?_⟩
          · rw [hutx, List.filter_cons_of_neg (by simpa using hkv)]
          · rw [hpass, List.filter_cons_of_pos (by simpa using hkv), List.append_assoc]
            rfl

/-! ## What was read -/

/-- A PSBT of the old version. Of the pairs of the global map, `unsigned_tx` is the one that
the transaction is in, and the last one of its type. -/
structure V0 where
  before : List KV
  unsigned_tx : KV
  after : List KV
  tx : SignedTransaction
  inputs : List (List KV)
  outputs : List (List KV)

namespace V0

def global (v0 : V0) : List KV := v0.before ++ v0.unsigned_tx :: v0.after

def maps (v0 : V0) : List (List KV) := v0.global :: (v0.inputs ++ v0.outputs)

/-- Its text, and whatever comes after it. -/
structure Describes (deserialize : Bytes → Option SignedTransaction) (v0 : V0) (raw : Bytes) :
    Prop where
  bytes : ∃ rest, raw = Psbt.MAGIC ++ (v0.maps.flatMap map_bytes ++ rest)
  fits : ∀ m ∈ v0.maps, ∀ kv ∈ m, kv.Fits
  unsigned_tx : v0.unsigned_tx.IsUnsignedTx
  after : ∀ kv ∈ v0.after, ¬ kv.IsUnsignedTx
  tx : deserialize v0.unsigned_tx.val = some v0.tx
  inputs : v0.inputs.length = v0.tx.input.length
  outputs : v0.outputs.length = v0.tx.output.length

/-- The pairs that are not unsigned transactions. -/
def pass (v0 : V0) : List KV := v0.global.filter fun kv => ¬ kv.IsUnsignedTx

end V0

section
variable {deserialize : Bytes → Option SignedTransaction} {raw out r : Bytes}

/-- The steps of the converter. -/
theorem psbt_v0_to_v2_ok : psbt_v0_to_v2 deserialize raw = .ok out r ↔
    ∃ body, raw = Psbt.MAGIC ++ body ∧ ∃ g0 s₁, read_map body = .ok g0 s₁ ∧
      ∃ captured s₂, capture g0 none [] s₁ = .ok captured s₂ ∧ ∃ utx, captured.1 = some utx ∧
        ∃ tx, deserialize utx = some tx ∧
          ∃ ins s₃, read_maps tx.input.length s₂ = .ok ins s₃ ∧
            ∃ outs, read_maps tx.output.length s₃ = .ok outs r ∧
              out = v2_bytes captured.2 tx ins outs := by
  rw [psbt_v0_to_v2, Exec.bind_apply_ok (Exec.get_apply raw), Exec.reject_bind_ok,
    Exec.bind_apply_ok (Exec.set_apply _ _)]
  have hmagic : ¬ (raw.length < 5 ∨ raw.take 5 ≠ Psbt.MAGIC) ↔
      raw = Psbt.MAGIC ++ raw.drop 5 := by
    rw [not_or, not_not]
    constructor
    · intro ⟨_, htake⟩
      rw [← htake, List.take_append_drop]
    · intro hraw
      have hlen := congrArg List.length hraw
      have htake := congrArg (List.take 5) hraw
      rw [show 5 = Psbt.MAGIC.length from rfl, List.take_left] at htake
      rw [List.length_append, List.length_drop] at hlen
      have hmagic : Psbt.MAGIC.length = 5 := rfl
      exact ⟨by omega, htake⟩
  have hbody : ∀ {P : Bytes → Prop}, (raw = Psbt.MAGIC ++ raw.drop 5 ∧ P (raw.drop 5)) ↔
      ∃ body, raw = Psbt.MAGIC ++ body ∧ P body := by
    intro P
    refine ⟨fun h => ⟨_, h⟩, fun ⟨body, hraw, h⟩ => ?_⟩
    have hdrop : raw.drop 5 = body := by rw [hraw]; rfl
    rw [hdrop]
    exact ⟨hraw, h⟩
  rw [hmagic, ← hbody]
  refine and_congr_right fun _ => ?_
  simp only [Exec.bind_ok, Exec.orElse_ok, Exec.pure_apply]
  constructor
  · intro ⟨g0, s₁, hg0, captured, s₂, hcapture, utx, _, ⟨hutx, rfl⟩, tx, _, ⟨htx, rfl⟩, ins, s₃,
      hins, outs, s₄, houts, h⟩
    cases h
    exact ⟨g0, s₁, hg0, captured, s₂, hcapture, utx, hutx, tx, htx, ins, s₃, hins, outs, houts, rfl⟩
  · intro ⟨g0, s₁, hg0, captured, s₂, hcapture, utx, hutx, tx, htx, ins, s₃, hins, outs, houts, h⟩
    subst h
    exact ⟨g0, s₁, hg0, captured, s₂, hcapture, utx, s₂, ⟨hutx, rfl⟩, tx, s₂, ⟨htx, rfl⟩, ins, s₃,
      hins, outs, r, houts, rfl⟩

/-- What is accepted is the text of something. -/
theorem exists_describes (h : psbt_v0_to_v2 deserialize raw = .ok out r) :
    ∃ v0 : V0, v0.Describes deserialize raw := by
  obtain ⟨body, hraw, g0, s₁, hg0, captured, s₂, hcapture, utx, hutx, tx, htx, ins, s₃, hins,
    outs, houts, _⟩ := psbt_v0_to_v2_ok.mp h
  obtain ⟨hfits, hbody⟩ := read_map_ok.mp hg0
  obtain ⟨hs, hcaptured, -⟩ := capture_ok hcapture
  obtain ⟨hilen, hifits, hs₂⟩ := read_maps_ok.mp hins
  obtain ⟨holen, hofits, hs₃⟩ := read_maps_ok.mp houts
  rw [hutx, Option.or_none, eq_comm, Option.map_eq_some_iff] at hcaptured
  obtain ⟨u, hlast, hval⟩ := hcaptured
  obtain ⟨ys, hys⟩ := List.getLast?_eq_some_iff.mp hlast
  obtain ⟨l₁, l₂, hg0, -, hl₂⟩ := List.filter_eq_append_iff.mp hys
  obtain ⟨l₃, after, hl₂, -, hu, hafter⟩ := List.filter_eq_cons_iff.mp hl₂
  have hglobal : g0 = (l₁ ++ l₃) ++ u :: after := by rw [hg0, hl₂, List.append_assoc]
  refine ⟨⟨l₁ ++ l₃, u, after, tx, ins, outs⟩, ⟨r, ?_⟩, ?_, by simpa using hu, ?_, ?_, hilen, holen⟩
  · rw [hraw, hbody, ← hs, hs₂, hs₃, V0.maps, V0.global, ← hglobal]
    simp
  · intro m hm
    rcases List.mem_cons.mp hm with hm | hm
    · rw [hm, V0.global, ← hglobal]
      exact hfits
    · exact (List.mem_append.mp hm).elim (hifits m) (hofits m)
  · intro kv hkv
    have := List.filter_eq_nil_iff.mp hafter kv hkv
    simpa using this
  · rw [hval]
    exact htx

/-- What was read is what the text describes. -/
theorem v2_bytes_of_describes {v0 : V0} (h : psbt_v0_to_v2 deserialize raw = .ok out r)
    (hv0 : v0.Describes deserialize raw) :
    out = v2_bytes v0.pass v0.tx v0.inputs v0.outputs := by
  obtain ⟨body, hraw, g0, s₁, hg0, captured, s₂, hcapture, utx, hutx, tx, htx, ins, s₃, hins,
    outs, houts, hout⟩ := psbt_v0_to_v2_ok.mp h
  obtain ⟨rest, hbytes⟩ := hv0.bytes
  have hbody : body = map_bytes v0.global ++
      (v0.inputs.flatMap map_bytes ++ (v0.outputs.flatMap map_bytes ++ rest)) := by
    have := List.append_cancel_left (hraw.symm.trans hbytes)
    simpa [V0.maps] using this
  have hglobal := read_map_ok.mpr ⟨hv0.fits _ (.head _), hbody⟩
  cases hg0.symm.trans hglobal
  obtain ⟨hs, hcaptured, hpass⟩ := capture_ok hcapture
  have hafter : v0.after.filter KV.IsUnsignedTx = [] :=
    List.filter_eq_nil_iff.mpr fun kv hkv => by simpa using hv0.after kv hkv
  rw [V0.global, List.filter_append, List.filter_cons_of_pos (by simpa using hv0.unsigned_tx),
    hafter, List.getLast?_concat, Option.or_none, Option.map_some, hutx, Option.some_inj]
    at hcaptured
  rw [hcaptured, hv0.tx, Option.some_inj] at htx
  subst htx hs
  have hinputs := read_maps_append (v0.outputs.flatMap map_bytes ++ rest)
    fun m hm => hv0.fits m (.tail _ (List.mem_append_left _ hm))
  rw [hv0.inputs] at hinputs
  cases hins.symm.trans hinputs
  have houtputs := read_maps_append rest
    fun m hm => hv0.fits m (.tail _ (List.mem_append_right _ hm))
  rw [hv0.outputs] at houtputs
  cases houts.symm.trans houtputs
  rw [hout, hpass, List.nil_append, V0.pass]

end

/-! ## Texts of maps -/

def KV.pair (kv : KV) : MapPair :=
  { key_type := kv.key.headD 0, key_data := kv.key.tail, value := kv.val }

theorem KV.pair_key {kv : KV} (h : 0 < kv.key.length) :
    kv.pair.key_type :: kv.pair.key_data = kv.key := by
  obtain ⟨_ | ⟨t, d⟩, v⟩ := kv
  · simp at h
  · rfl

theorem compactSize_encode {n : ℕ} (h : n < 2 ^ 64) :
    CompactSize n (VarInt.consensus_encode n) := by
  unfold VarInt.consensus_encode
  have hread : ∀ {k : ℕ}, n < 256 ^ k → LittleEndian.read (LittleEndian.write k n) = n :=
    LittleEndian.read_write
  split
  · next hlt =>
      have hn : (BitVec.ofNat 8 n).toNat = n := by
        rw [BitVec.toNat_ofNat]
        omega
      have := CompactSize.one (BitVec.ofNat 8 n) (by omega)
      rwa [hn] at this
  · split
    · have := CompactSize.two (LittleEndian.write 2 n) (LittleEndian.length_write 2 n)
      rwa [hread (by omega)] at this
    · split
      · have := CompactSize.four (LittleEndian.write 4 n) (LittleEndian.length_write 4 n)
        rwa [hread (by omega)] at this
      · have := CompactSize.eight (LittleEndian.write 8 n) (LittleEndian.length_write 8 n)
        rwa [hread (by omega)] at this

/-- A number says where its text ends. -/
theorem compactSize_delimited {m n : ℕ} {t u r q : Bytes} (ht : CompactSize m t)
    (hu : CompactSize n u) (h : t ++ r = u ++ q) : m = n ∧ r = q := by
  have hparses := Cursor.read_compact_size_parses ((t ++ r).length + 1)
  have hm := (hparses.ok (Nat.lt_succ_self _)).mpr ⟨t, ht, rfl⟩
  have hn := (hparses.ok (Nat.lt_succ_self _)).mpr ⟨u, hu, h⟩
  cases hm.symm.trans hn
  exact ⟨rfl, rfl⟩

theorem pairBytes_delimited {p p' : MapPair} {t u r q : Bytes} (ht : PairBytes p t)
    (hu : PairBytes p' u) (h : t ++ r = u ++ q) : p = p' ∧ r = q := by
  obtain ⟨n, v, hn, ⟨l, hl, hv⟩, ht⟩ := ht
  obtain ⟨n', v', hn', ⟨l', hl', hv'⟩, hu⟩ := hu
  subst hv hv' ht hu
  simp only [List.append_assoc] at h
  obtain ⟨hlen, h⟩ := compactSize_delimited hn hn' h
  obtain ⟨hkey, h⟩ := List.append_inj h (by simpa using hlen)
  obtain ⟨htype, hdata⟩ := List.cons.inj hkey
  obtain ⟨hlen, h⟩ := compactSize_delimited hl hl' h
  obtain ⟨hvalue, hrest⟩ := List.append_inj h hlen
  cases p
  cases p'
  subst htype hdata hvalue
  exact ⟨rfl, hrest⟩

/-- Only a separator has a length of zero at its front. -/
theorem not_separator {p : MapPair} {t u r q : Bytes} (ht : CompactSize 0 t)
    (hu : PairBytes p u) : t ++ r ≠ u ++ q := by
  intro h
  obtain ⟨n, v, hn, -, hu⟩ := hu
  rw [hu, List.append_assoc, List.append_assoc] at h
  exact absurd (compactSize_delimited ht hn h).1 (by omega)

theorem mapBytes_delimited {ps qs : List MapPair} {t u r q : Bytes} (ht : MapBytes ps t)
    (hu : MapBytes qs u) (h : t ++ r = u ++ q) : ps = qs ∧ r = q := by
  induction ht generalizing qs u with
  | nil t ht =>
      cases hu with
      | nil _ hu => exact ⟨rfl, (compactSize_delimited ht hu h).2⟩
      | cons p ps u us hp hs =>
          rw [List.append_assoc] at h
          exact absurd h (not_separator ht hp)
  | cons p ps t ts hp hs ih =>
      rw [List.append_assoc] at h
      cases hu with
      | nil _ hu => exact absurd h.symm (not_separator hu hp)
      | cons p' qs u us hp' hs' =>
          rw [List.append_assoc] at h
          obtain ⟨hpair, h⟩ := pairBytes_delimited hp hp' h
          obtain ⟨hpairs, h⟩ := ih hs' h
          exact ⟨by rw [hpair, hpairs], h⟩

theorem maps_delimited {ps qs : List (List MapPair)} {ts us : List Bytes} {r q : Bytes}
    (ht : List.Forall₂ MapBytes ps ts) (hu : List.Forall₂ MapBytes qs us)
    (hlen : ps.length = qs.length) (h : ts.flatten ++ r = us.flatten ++ q) : ps = qs ∧ r = q := by
  induction ht generalizing qs us with
  | nil =>
      cases hu with
      | nil => exact ⟨rfl, h⟩
      | cons _ _ => simp at hlen
  | cons hp _ ih =>
      cases hu with
      | nil => simp at hlen
      | cons hp' hs' =>
          rw [List.flatten_cons, List.flatten_cons, List.append_assoc, List.append_assoc] at h
          obtain ⟨hmap, h⟩ := mapBytes_delimited hp hp' h
          obtain ⟨hmaps, h⟩ := ih hs' (Nat.succ.inj hlen) h
          exact ⟨by rw [hmap, hmaps], h⟩

theorem mapBytes_map_bytes {m : List KV} (h : ∀ kv ∈ m, kv.Fits) :
    MapBytes (m.map KV.pair) (map_bytes m) := by
  induction m with
  | nil => exact .nil _ (.one 0 (by decide))
  | cons kv m ih =>
      obtain ⟨hkv, hm⟩ := List.forall_mem_cons.mp h
      have hkey := KV.pair_key hkv.key_pos
      have hpair : PairBytes kv.pair kv.bytes := by
        refine ⟨VarInt.consensus_encode kv.key.length, _, ?_,
          ⟨_, compactSize_encode (hkv.val_lt.trans (by decide)), rfl⟩, ?_⟩
        · rw [← List.length_cons, hkey]
          exact compactSize_encode (hkv.key_lt.trans (by decide))
        · rw [List.append_assoc, KV.bytes, ← hkey, List.append_assoc]
          rfl
      rw [map_bytes, List.flatMap_cons, List.append_assoc]
      exact .cons _ _ _ _ hpair (ih hm)

theorem length_le_map_bytes {m : List KV} {kv : KV} (h : kv ∈ m) :
    kv.key.length + kv.val.length < (map_bytes m).length := by
  obtain ⟨m₁, m₂, rfl⟩ := List.append_of_mem h
  simp only [map_bytes, KV.bytes, List.flatMap_append, List.flatMap_cons, List.length_append,
    List.length_cons]
  omega

theorem length_map_bytes_le {ms : List (List KV)} {m : List KV} (h : m ∈ ms) :
    (map_bytes m).length ≤ (ms.map map_bytes).flatten.length := by
  obtain ⟨ms₁, ms₂, rfl⟩ := List.append_of_mem h
  simp only [List.map_append, List.map_cons, List.flatten_append, List.flatten_cons,
    List.length_append]
  omega

theorem length_le_maps (ms : List (List KV)) : ms.length ≤ (ms.map map_bytes).flatten.length :=
  length_le_flatten (G := fun m t => t = map_bytes m)
    (fun m t ht => by rw [ht, map_bytes, List.length_append]; exact Nat.succ_pos _)
    (List.forall₂_map_right_iff.mpr (List.forall₂_same.mpr fun _ _ => rfl))

/-! ## What the parser makes of what was written -/

/-- A map that was written: these pairs, in some order, and no key twice. -/
structure Written (m fields : List KV) (ps : List MapPair) : Prop where
  sorted : Sorted ps
  perm : ps.Perm ((m ++ fields).map KV.pair)

/-- A map, its new pairs added, and in order. -/
def extended (m fields : List KV) : List KV := (m ++ fields).insertionSort KV.le

theorem fits_extended {m fields : List KV} (hkeys : ∀ kv ∈ m ++ fields, 0 < kv.key.length)
    (hlen : (map_bytes (extended m fields)).length < 2 ^ 63) :
    ∀ kv ∈ extended m fields, kv.Fits := by
  intro kv hkv
  have hle := length_le_map_bytes hkv
  have hmem := (List.perm_insertionSort KV.le (m ++ fields)).mem_iff.mp hkv
  exact ⟨hkeys kv hmem, by omega, by omega⟩

theorem extended_written {m fields : List KV} (h : Sorted ((extended m fields).map KV.pair)) :
    Written m fields ((extended m fields).map KV.pair) :=
  ⟨h, (List.perm_insertionSort _ _).map _⟩

section
variable {m fields : List KV} {ps : List MapPair}

theorem Written.mem (h : Written m fields ps) {kv : KV} (hkv : kv ∈ m) : kv.pair ∈ ps :=
  h.perm.mem_iff.mpr (List.mem_map_of_mem (List.mem_append_left _ hkv))

/-- Keys are only there once. -/
theorem filter_of_sorted (hs : Sorted ps) (t : U8) :
    (ps.filter fun p => p.key_type = t ∧ p.key_data = []).map MapPair.value =
      (scan ps t []).toList := by
  induction ps with
  | nil => rfl
  | cons p ps ih =>
      obtain ⟨hp, hs⟩ := List.pairwise_cons.mp hs
      by_cases hpt : p.key_type = t ∧ p.key_data = []
      · have hrest : ps.filter (fun p => p.key_type = t ∧ p.key_data = []) = [] := by
          refine List.filter_eq_nil_iff.mpr fun q hq h => (hp q hq).ne ?_
          simp only [decide_eq_true_eq] at h
          rw [MapPair.key, MapPair.key, hpt.1, hpt.2, h.1, h.2]
        rw [List.filter_cons_of_pos (by simpa using hpt), hrest, scan,
          List.find?_cons_of_pos (by simpa using hpt)]
        rfl
      · rw [List.filter_cons_of_neg (by simpa using hpt), ih hs, scan, scan,
          List.find?_cons_of_neg (by simpa using hpt)]

theorem KV.pair_has {kv : KV} (h : 0 < kv.key.length) {t : U8} :
    (kv.pair.key_type = t ∧ kv.pair.key_data = []) ↔ kv.key = [t] := by
  rw [← KV.pair_key h, List.cons.injEq]

/-- The values that a map has under a type without data. -/
def values (m : List KV) (t : U8) : List Bytes := (m.filter fun kv => kv.key = [t]).map KV.val

theorem Written.scan_toList (h : Written m fields ps)
    (hkeys : ∀ kv ∈ m ++ fields, 0 < kv.key.length) (t : U8) :
    (values (m ++ fields) t).Perm (scan ps t []).toList := by
  have hpairs := (h.perm.filter fun p => p.key_type = t ∧ p.key_data = []).map MapPair.value
  have hfilter : (((m ++ fields).map KV.pair).filter fun p => p.key_type = t ∧ p.key_data = []).map
      MapPair.value = values (m ++ fields) t := by
    rw [List.filter_map, List.map_map, values]
    refine congrArg (List.map KV.val) (List.filter_congr fun kv hkv => ?_)
    rw [Function.comp_apply, decide_eq_decide]
    exact KV.pair_has (hkeys kv hkv)
  rw [filter_of_sorted h.sorted, hfilter] at hpairs
  exact hpairs.symm

/-- What was added under a type is found there. -/
theorem Written.scan_eq (h : Written m fields ps) (hkeys : ∀ kv ∈ m ++ fields, 0 < kv.key.length)
    {t : U8} {v : Bytes} (hfield : { key := [t], val := v } ∈ fields) : scan ps t [] = some v := by
  have hmem : v ∈ values (m ++ fields) t :=
    List.mem_map.mpr ⟨{ key := [t], val := v }, List.mem_filter.mpr
      ⟨List.mem_append_right _ hfield, by simp⟩, rfl⟩
  exact Option.mem_toList.mp ((h.scan_toList hkeys t).mem_iff.mp hmem)

end

theorem fixed_write {k w : ℕ} (hw : 2 ^ w = 256 ^ k) {x a : BitVec w}
    (h : Fixed k (LittleEndian.write k x.toNat) a) : a = x :=
  BitVec.eq_of_toNat_eq (h.2.trans (LittleEndian.read_write (hw ▸ x.isLt)))

/-- A field that was written is read as what was written. -/
theorem field_of_scan {α : Type} {P : Bytes → α → Prop} {ps : List MapPair} {t : U8} {v : Bytes}
    {o : Option α} {x : α} (hrel : Option.Rel P (scan ps t []) o) (hscan : scan ps t [] = some v)
    (hx : ∀ a, P v a → a = x) : o = some x := by
  rw [hscan, rel_some] at hrel
  obtain ⟨a, ha, ho⟩ := hrel
  rw [ho, hx a ha]

section
variable {m : List KV}

theorem key_pos_append {fields : List KV} (hm : ∀ kv ∈ m, kv.Fits)
    (hfields : ∀ kv ∈ fields, 0 < kv.key.length) : ∀ kv ∈ m ++ fields, 0 < kv.key.length :=
  fun kv hkv => (List.mem_append.mp hkv).elim (fun h => (hm kv h).key_pos) (hfields kv)

theorem input_fields_key (txin : TxIn) : ∀ kv ∈ input_fields txin, 0 < kv.key.length := by
  simp [input_fields, new_kv, mk_key, VarInt.consensus_encode]

theorem output_fields_key (txout : TxOut) : ∀ kv ∈ output_fields txout, 0 < kv.key.length := by
  simp [output_fields, new_kv, mk_key, VarInt.consensus_encode]

theorem global_fields_key (tx : SignedTransaction) :
    ∀ kv ∈ global_fields tx, 0 < kv.key.length := by
  simp [global_fields, new_kv, mk_key, VarInt.consensus_encode]

theorem global_fields_type (tx : SignedTransaction) :
    ∀ kv ∈ global_fields tx, ¬ kv.IsUnsignedTx := by
  simp [global_fields, new_kv, mk_key, VarInt.consensus_encode, KV.IsUnsignedTx, LittleEndian.write]

theorem tx_in_of_written {i : Input} {txin : TxIn} (hm : ∀ kv ∈ m, kv.Fits)
    (h : Written m (input_fields txin) i.map.pairs)
    (hfields : inputFields.Of i.map.pairs i.toInputFields) : i.tx_in = .ok txin := by
  obtain ⟨-, -, -, -, -, -, -, htxid, hindex, hsequence, -, -⟩ := hfields
  have hkeys := key_pos_append hm (input_fields_key txin)
  have htxid := field_of_scan htxid (h.scan_eq hkeys (.head _)) fun a ha =>
    Vector.toList_inj.mp ha
  have hindex := field_of_scan hindex (h.scan_eq hkeys (.tail _ (.head _))) fun a ha =>
    fixed_write (by norm_num) ha
  have hsequence := field_of_scan hsequence (h.scan_eq hkeys (.tail _ (.tail _ (.head _))))
    fun a ha => fixed_write (by norm_num) ha
  rw [Input.tx_in, htxid, hindex, hsequence]
  rfl

theorem tx_out_of_written {o : Output} {txout : TxOut} (hm : ∀ kv ∈ m, kv.Fits)
    (h : Written m (output_fields txout) o.map.pairs)
    (hfields : outputFields.Of o.map.pairs o.toOutputFields) : o.tx_out = .ok txout := by
  obtain ⟨-, -, hamount, hscript⟩ := hfields
  have hkeys := key_pos_append hm (output_fields_key txout)
  have hamount := field_of_scan hamount (h.scan_eq hkeys (.head _)) fun a ha =>
    fixed_write (by norm_num) ha
  have hscript := field_of_scan hscript (h.scan_eq hkeys (.tail _ (.head _))) fun a ha => ha
  rw [Output.tx_out, hamount, hscript]

/-- A lock time that an input requires was already required by its map. -/
theorem required_of_written {i : Input} {txin : TxIn} (hm : ∀ kv ∈ m, kv.Fits)
    (h : Written m (input_fields txin) i.map.pairs) {t : U8} {o : Option U32}
    (ht : values (input_fields txin) t = [])
    (hrel : Option.Rel (Fixed 4) (scan i.map.pairs t []) o) :
    (values m t).map LittleEndian.read = (o.map BitVec.toNat).toList := by
  have hperm := h.scan_toList (key_pos_append hm (input_fields_key txin)) t
  have hvalues : values (m ++ input_fields txin) t = values m t := by
    rw [values, List.filter_append, List.map_append, ← values, ← values, ht, List.append_nil]
  rw [hvalues] at hperm
  cases hscan : scan i.map.pairs t [] with
  | none =>
      rw [hscan, rel_none] at hrel
      rw [hscan] at hperm
      rw [hperm.eq_nil, hrel]
      rfl
  | some v =>
      rw [hscan, rel_some] at hrel
      rw [hscan] at hperm
      obtain ⟨a, ⟨-, ha⟩, ho⟩ := hrel
      rw [List.perm_singleton.mp hperm, ho]
      exact congrArg (fun n => [n]) ha.symm

end

/-- What was written for each row is what is read for each item. -/
theorem rows_written {ρ ι : Type} {rows : List ρ} {f : ρ → List KV} {items : List ι}
    {g : ι → List MapPair} {P : ι → Prop} {ts : List Bytes} {r q : Bytes}
    (hfits : ∀ row ∈ rows, ∀ kv ∈ f row, kv.Fits)
    (hitems : List.Forall₂ (fun i t => P i ∧ MapBytes (g i) t) items ts)
    (hlen : items.length = rows.length)
    (h : ((rows.map f).map map_bytes).flatten ++ r = ts.flatten ++ q) :
    List.Forall₂ (fun row i => (f row).map KV.pair = g i ∧ P i) rows items ∧ r = q := by
  obtain ⟨hP, hmaps⟩ := (List.forall₂_and_left _ _).mp hitems
  have hrows : List.Forall₂ MapBytes ((rows.map f).map (List.map KV.pair))
      ((rows.map f).map map_bytes) := by
    rw [List.forall₂_map_left_iff, List.forall₂_map_right_iff, List.forall₂_same]
    intro m hm
    obtain ⟨row, hrow, rfl⟩ := List.mem_map.mp hm
    exact mapBytes_map_bytes (hfits row hrow)
  have hitems : List.Forall₂ MapBytes (items.map g) ts := List.forall₂_map_left_iff.mpr hmaps
  obtain ⟨heq, hrest⟩ := maps_delimited hrows hitems (by simp [hlen]) h
  refine ⟨?_, hrest⟩
  rw [List.map_map, ← List.forall₂_eq_eq_eq, List.forall₂_map_left_iff,
    List.forall₂_map_right_iff] at heq
  refine List.Forall₂.flip ((List.forall₂_and_left _ _).mpr ⟨hP, heq.flip⟩) |>.imp ?_
  exact fun row i h => ⟨h.2, h.1⟩

namespace V0

/-- The inputs, each with its map. -/
def in_rows (v0 : V0) : List (List KV × SignedTxIn) := v0.inputs.zip v0.tx.input

def out_rows (v0 : V0) : List (List KV × TxOut) := v0.outputs.zip v0.tx.output

/-- The maps that are written. -/
def v2_global (v0 : V0) : List KV := extended v0.pass (global_fields v0.tx)

def v2_inputs (v0 : V0) : List (List KV) :=
  v0.in_rows.map fun row => extended row.1 (input_fields row.2.toTxIn)

def v2_outputs (v0 : V0) : List (List KV) :=
  v0.out_rows.map fun row => extended row.1 (output_fields row.2)

theorem v2_bytes_eq (v0 : V0) :
    v2_bytes v0.pass v0.tx v0.inputs v0.outputs = Psbt.MAGIC ++ (map_bytes v0.v2_global ++
      ((v0.v2_inputs.map map_bytes).flatten ++ (v0.v2_outputs.map map_bytes).flatten)) := by
  simp only [v2_bytes, v2_inputs, v2_outputs, in_rows, out_rows, List.map_map, List.append_assoc,
    ← List.map_uncurry_zip_eq_zipWith]
  rfl

/-- What is known of the maps of a PSBT that was parsed from what was written. -/
structure Parsed (v0 : V0) (psbt : Psbt) : Prop where
  global : Written v0.pass (global_fields v0.tx) psbt.global_map.pairs
  version : psbt.tx_version = v0.tx.version
  fallback : psbt.fallback_locktime = some v0.tx.lock_time
  inputs : List.Forall₂ (fun row i => Written row.1 (input_fields row.2.toTxIn) i.map.pairs ∧
    inputFields.Of i.map.pairs i.toInputFields) v0.in_rows psbt.inputs
  outputs : List.Forall₂ (fun row o => Written row.1 (output_fields row.2) o.map.pairs ∧
    outputFields.Of o.map.pairs o.toOutputFields) v0.out_rows psbt.outputs

/-- What was written is what is parsed. -/
theorem parsed_of_describes {v0 : V0} {psbt : Psbt} {body : Bytes}
    (hinputs : v0.inputs.length = v0.tx.input.length)
    (houtputs : v0.outputs.length = v0.tx.output.length)
    (hfits : ∀ m ∈ v0.maps, ∀ kv ∈ m, kv.Fits) (hlen : body.length < 2 ^ 32)
    (hbody : body = map_bytes v0.v2_global ++
      ((v0.v2_inputs.map map_bytes).flatten ++ (v0.v2_outputs.map map_bytes).flatten))
    (h : Bitcoin.Describes psbt body) : v0.Parsed psbt := by
  obtain ⟨g, ins, outs, htext, ⟨hg, hsorted, hversion, hfallback, hn_inputs, hn_outputs, -, -⟩,
    hins, houts⟩ := h.bytes
  have hsplit : body.length = (map_bytes v0.v2_global).length +
      ((v0.v2_inputs.map map_bytes).flatten.length +
        (v0.v2_outputs.map map_bytes).flatten.length) := by
    rw [hbody, List.length_append, List.length_append]
  rw [hbody, List.append_assoc] at htext
  -- the global map
  have hkeys : ∀ kv ∈ v0.pass ++ global_fields v0.tx, 0 < kv.key.length :=
    key_pos_append (fun kv hkv => hfits _ (.head _) kv (List.mem_of_mem_filter hkv))
      (global_fields_key v0.tx)
  have hglobal := mapBytes_map_bytes (fits_extended hkeys (show (map_bytes v0.v2_global).length <
    2 ^ 63 by omega))
  obtain ⟨hpairs, htext⟩ := mapBytes_delimited hglobal hg htext
  rw [← hpairs] at hsorted
  have hwritten : Written v0.pass (global_fields v0.tx) psbt.global_map.pairs :=
    hpairs ▸ extended_written hsorted
  -- the numbers of inputs and of outputs
  have hcount : ∀ {n k : ℕ}, n < 2 ^ 64 → Counts (VarInt.consensus_encode n) k → k = n :=
    fun hn hk => (compactSize_delimited (r := []) hk (compactSize_encode hn) rfl).1
  have hin_rows : v0.in_rows.length = v0.tx.input.length := by
    rw [in_rows, List.length_zip, hinputs, min_self]
  have hout_rows : v0.out_rows.length = v0.tx.output.length := by
    rw [out_rows, List.length_zip, houtputs, min_self]
  have hin_le := length_le_maps v0.v2_inputs
  have hout_le := length_le_maps v0.v2_outputs
  rw [v2_inputs, List.length_map, hin_rows, ← v2_inputs] at hin_le
  rw [v2_outputs, List.length_map, hout_rows, ← v2_outputs] at hout_le
  have hn_inputs : psbt.inputs.length = v0.tx.input.length := Option.some.inj <|
    field_of_scan hn_inputs (hwritten.scan_eq hkeys (.tail _ (.tail _ (.tail _ (.head _)))))
      fun k hk => hcount (by omega) hk
  have hn_outputs : psbt.outputs.length = v0.tx.output.length := Option.some.inj <|
    field_of_scan hn_outputs
      (hwritten.scan_eq hkeys (.tail _ (.tail _ (.tail _ (.tail _ (.head _))))))
      fun k hk => hcount (by omega) hk
  -- the maps of the inputs and of the outputs
  have hins_fit : ∀ row ∈ v0.in_rows,
      ∀ kv ∈ extended row.1 (input_fields row.2.toTxIn), kv.Fits := by
    intro row hrow
    have hmap := hfits row.1 (.tail _ (List.mem_append_left _ (List.of_mem_zip hrow).1))
    have hle := length_map_bytes_le (List.mem_map_of_mem
      (f := fun row : List KV × SignedTxIn => extended row.1 (input_fields row.2.toTxIn)) hrow)
    rw [← v2_inputs] at hle
    exact fits_extended (key_pos_append hmap (input_fields_key _)) (by omega)
  have houts_fit : ∀ row ∈ v0.out_rows, ∀ kv ∈ extended row.1 (output_fields row.2), kv.Fits := by
    intro row hrow
    have hmap := hfits row.1 (.tail _ (List.mem_append_right _ (List.of_mem_zip hrow).1))
    have hle := length_map_bytes_le (List.mem_map_of_mem
      (f := fun row : List KV × TxOut => extended row.1 (output_fields row.2)) hrow)
    rw [← v2_outputs] at hle
    exact fits_extended (key_pos_append hmap (output_fields_key _)) (by omega)
  obtain ⟨hin_maps, htext⟩ := rows_written hins_fit (g := fun i : Input => i.map.pairs)
    (hins.imp fun i t h => ⟨h.2, h.1⟩) (hn_inputs.trans hin_rows.symm) htext
  rw [← List.append_nil outs.flatten,
    ← List.append_nil (v0.v2_outputs.map map_bytes).flatten] at htext
  obtain ⟨hout_maps, -⟩ := rows_written houts_fit (g := fun o : Output => o.map.pairs)
    (houts.imp fun o t h => ⟨h.2, h.1⟩) (hn_outputs.trans hout_rows.symm) htext
  refine ⟨hwritten, ?_, ?_, ?_, ?_⟩
  · exact Option.some.inj <| field_of_scan hversion (hwritten.scan_eq hkeys (.tail _ (.head _)))
      fun a ha => fixed_write (by norm_num) ha
  · exact field_of_scan hfallback (hwritten.scan_eq hkeys (.tail _ (.tail _ (.head _))))
      fun a ha => fixed_write (by norm_num) ha
  · exact hin_maps.imp fun row i h => ⟨h.1 ▸ extended_written (h.1 ▸ h.2.1), h.2.2⟩
  · exact hout_maps.imp fun row o h => ⟨h.1 ▸ extended_written (h.1 ▸ h.2.1), h.2.2⟩

end V0

/-! ## What is kept -/

/-- No input is signed. -/
def Unsigned (tx : SignedTransaction) : Prop :=
  ∀ txin ∈ tx.input, txin.script_sig = [] ∧ txin.witness = []

instance (tx : SignedTransaction) : Decidable (Unsigned tx) :=
  inferInstanceAs (Decidable (∀ txin ∈ tx.input, _ ∧ _))

/-- A transaction as the library has it, without scripts and witnesses of its inputs. -/
def unsigned (tx : Transaction) : SignedTransaction where
  version := tx.version
  lock_time := tx.lock_time
  input := tx.input.map fun txin => { txin with script_sig := [], witness := [] }
  output := tx.output

namespace V0

/-- The transaction is the one that was embedded, and the maps still have their other pairs. -/
structure Carried (v0 : V0) (psbt : Psbt) : Prop where
  tx : ∃ tx, psbt.build_unsigned_tx = .ok tx ∧ unsigned tx = v0.tx
  global : ∀ kv ∈ v0.before ++ v0.after, kv.pair ∈ psbt.global_map.pairs
  inputs : List.Forall₂ (fun m (i : Input) => ∀ kv ∈ m, kv.pair ∈ i.map.pairs) v0.inputs psbt.inputs
  outputs : List.Forall₂ (fun m (o : Output) => ∀ kv ∈ m, kv.pair ∈ o.map.pairs)
    v0.outputs psbt.outputs

/-- The heights that maps of inputs have as required lock times. -/
def heights (v0 : V0) : List ℕ :=
  v0.inputs.flatMap fun m => (values m PSBT_IN_REQUIRED_HEIGHT_LOCKTIME).map LittleEndian.read

def times (v0 : V0) : List ℕ :=
  v0.inputs.flatMap fun m => (values m PSBT_IN_REQUIRED_TIME_LOCKTIME).map LittleEndian.read

/-- There is one transaction, and what the maps of the inputs require is not more than what its
lock time has. -/
structure Convertible (v0 : V0) : Prop where
  sole : ∀ kv ∈ v0.before, ¬ kv.IsUnsignedTx
  one_kind : v0.heights = [] ∨ v0.times = []
  heights : ∀ h ∈ v0.heights, h < 500000000 ∧ h ≤ v0.tx.lock_time.toNat
  some_time : v0.times ≠ [] → ∃ t ∈ v0.times, 500000000 ≤ t
  times : ∀ t ∈ v0.times, t ≤ v0.tx.lock_time.toNat

/-- When the lock time for the case of no requirements is the lock time. -/
theorem locked_eq_some {l : ℕ} {hs ts : List ℕ} :
    Psbt.locked l hs.max? ts.max? = some l ↔
      (hs = [] ∨ ts = []) ∧ (∀ h ∈ hs, h < 500000000 ∧ h ≤ l) ∧
        (ts ≠ [] → ∃ t ∈ ts, 500000000 ≤ t) ∧ ∀ t ∈ ts, t ≤ l := by
  rcases hh : hs.max? with _ | h <;> rcases ht : ts.max? with _ | t
  · rw [List.max?_eq_none_iff] at hh ht
    simp [Psbt.locked, hh, ht]
  · rw [List.max?_eq_none_iff] at hh
    obtain ⟨hmem, hmax⟩ := List.max?_eq_some_iff.mp ht
    have hne := List.ne_nil_of_mem hmem
    have hle : (∀ t' ∈ ts, t' ≤ l) ↔ t ≤ l :=
      ⟨fun h => h t hmem, fun h t' ht' => (hmax t' ht').trans h⟩
    have hlarge : (∃ t' ∈ ts, 500000000 ≤ t') ↔ 500000000 ≤ t := by
      refine ⟨?_, fun h => ⟨t, hmem, h⟩⟩
      rintro ⟨t', ht', h⟩
      exact h.trans (hmax t' ht')
    by_cases hlt : t < 500000000
    · simp [Psbt.locked, hh, hne, hle, hlarge, hlt, not_le.mpr hlt]
    · simp [Psbt.locked, hh, hne, hle, hlarge, hlt, not_lt.mp hlt]
  · rw [List.max?_eq_none_iff] at ht
    obtain ⟨hmem, hmax⟩ := List.max?_eq_some_iff.mp hh
    have hle : (∀ h' ∈ hs, h' < 500000000 ∧ h' ≤ l) ↔ h < 500000000 ∧ h ≤ l :=
      ⟨fun hall => hall h hmem, fun hlt h' hh' =>
        ⟨(hmax h' hh').trans_lt hlt.1, (hmax h' hh').trans hlt.2⟩⟩
    by_cases hlt : 500000000 ≤ h
    · simp [Psbt.locked, ht, hle, hlt, not_lt.mpr hlt]
    · simp [Psbt.locked, ht, hle, hlt, not_le.mp hlt]
  · have hhs := List.ne_nil_of_mem (List.max?_eq_some_iff.mp hh).1
    have hts := List.ne_nil_of_mem (List.max?_eq_some_iff.mp ht).1
    simp [Psbt.locked, hhs, hts]

end V0

theorem mapM'_of_forall₂ {ε α β ρ : Type} {f : α → Except ε β} {g : ρ → β} {rows : List ρ}
    {items : List α} (h : List.Forall₂ (fun row a => f a = .ok (g row)) rows items) :
    items.mapM' f = .ok (rows.map g) := by
  induction h with
  | nil => rfl
  | cons ha _ ih =>
      rw [List.mapM'_cons, ha, ih]
      rfl

theorem filterMap_of_forall₂ {α β ρ : Type} {f : α → Option β} {g : ρ → List β} {rows : List ρ}
    {items : List α} (h : List.Forall₂ (fun row a => g row = (f a).toList) rows items) :
    items.filterMap f = rows.flatMap g := by
  induction h with
  | nil => rfl
  | cons ha _ ih =>
      rw [List.flatMap_cons, ha, ← ih, List.filterMap_cons]
      cases f _ <;> rfl

theorem unsigned_eq {tx : SignedTransaction} (h : Unsigned tx) (lock_time : U32) :
    unsigned { version := tx.version, lock_time, input := tx.input.map SignedTxIn.toTxIn
               output := tx.output } = tx ↔ lock_time = tx.lock_time := by
  have hinput : (tx.input.map SignedTxIn.toTxIn).map
      (fun txin => ({ txin with script_sig := [], witness := [] } : SignedTxIn)) = tx.input := by
    rw [List.map_map]
    refine (List.map_congr_left fun txin htxin => ?_).trans (List.map_id _)
    obtain ⟨hscript, hwitness⟩ := h txin htxin
    obtain ⟨_, _, _⟩ := txin
    subst hscript hwitness
    rfl
  constructor
  · intro heq
    exact congrArg SignedTransaction.lock_time heq
  · intro heq
    rw [unsigned, hinput, heq]

section
variable {deserialize : Bytes → Option SignedTransaction} {v0 : V0} {psbt : Psbt} {raw : Bytes}

theorem V0.Describes.input_fits (hv0 : v0.Describes deserialize raw) {row : List KV × SignedTxIn}
    (hrow : row ∈ v0.in_rows) : ∀ kv ∈ row.1, kv.Fits :=
  hv0.fits row.1 (.tail _ (List.mem_append_left _ (List.of_mem_zip hrow).1))

theorem V0.Describes.output_fits (hv0 : v0.Describes deserialize raw) {row : List KV × TxOut}
    (hrow : row ∈ v0.out_rows) : ∀ kv ∈ row.1, kv.Fits :=
  hv0.fits row.1 (.tail _ (List.mem_append_right _ (List.of_mem_zip hrow).1))

theorem forall₂_mem {α β : Type} {R : α → β → Prop} {l : List α} {l' : List β}
    (h : List.Forall₂ R l l') : List.Forall₂ (fun a b => a ∈ l ∧ R a b) l l' :=
  (List.forall₂_and_left l l').mpr ⟨fun _ ha => ha, h⟩

/-- The transaction is rebuilt exactly if the lock time comes out the same. -/
theorem rebuilt_iff (hv0 : v0.Describes deserialize raw) (hp : v0.Parsed psbt)
    (hunsigned : Unsigned v0.tx) :
    (∃ tx, psbt.build_unsigned_tx = .ok tx ∧ unsigned tx = v0.tx) ↔
      psbt.lock_time = .ok v0.tx.lock_time := by
  have hins : psbt.inputs.mapM' Input.tx_in = .ok (v0.tx.input.map SignedTxIn.toTxIn) := by
    have hrows : psbt.inputs.mapM' Input.tx_in = .ok (v0.in_rows.map fun row => row.2.toTxIn) :=
      mapM'_of_forall₂ ((forall₂_mem hp.inputs).imp fun row i h =>
        tx_in_of_written (hv0.input_fits h.1) h.2.1 h.2.2)
    have hsnd : v0.in_rows.map Prod.snd = v0.tx.input := List.map_snd_zip hv0.inputs.ge
    rwa [← Function.comp_def, ← List.map_map, hsnd] at hrows
  have houts : psbt.outputs.mapM' Output.tx_out = .ok v0.tx.output := by
    have hrows : psbt.outputs.mapM' Output.tx_out = .ok (v0.out_rows.map fun row => row.2) :=
      mapM'_of_forall₂ ((forall₂_mem hp.outputs).imp fun row o h =>
        tx_out_of_written (hv0.output_fits h.1) h.2.1 h.2.2)
    have hsnd : v0.out_rows.map Prod.snd = v0.tx.output := List.map_snd_zip hv0.outputs.ge
    exact hrows.trans (congrArg Except.ok hsnd)
  rw [Psbt.build_unsigned_tx, hins, houts, hp.version]
  cases psbt.lock_time with
  | error e =>
      constructor
      · intro ⟨tx, h, _⟩
        cases h
      · intro h
        cases h
  | ok lock_time =>
      constructor
      · intro ⟨tx, h, htx⟩
        cases h
        rw [(unsigned_eq hunsigned lock_time).mp htx]
      · intro h
        cases h
        exact ⟨_, rfl, (unsigned_eq hunsigned _).mpr rfl⟩

/-- What the parser finds required is what the maps of the inputs had. -/
theorem required_eq (hv0 : v0.Describes deserialize raw) (hp : v0.Parsed psbt) :
    psbt.heights = v0.heights ∧ psbt.times = v0.times := by
  have hrows : ∀ {t : U8} {o : Input → Option U32},
      (∀ txin, values (input_fields txin) t = []) →
      (∀ i : Input, inputFields.Of i.map.pairs i.toInputFields →
        Option.Rel (Fixed 4) (scan i.map.pairs t []) (o i)) →
      psbt.inputs.filterMap (fun i => (o i).map BitVec.toNat) =
        v0.inputs.flatMap fun m => (values m t).map LittleEndian.read := by
    intro t o ht hrel
    have hfst : v0.in_rows.map Prod.fst = v0.inputs := List.map_fst_zip hv0.inputs.le
    rw [← hfst, List.flatMap_map]
    exact filterMap_of_forall₂ ((forall₂_mem hp.inputs).imp fun row i h =>
      required_of_written (hv0.input_fits h.1) h.2.1 (ht _) (hrel i h.2.2))
  constructor
  · refine hrows (fun txin => ?_) fun i h => ?_
    · rfl
    · obtain ⟨-, -, -, -, -, -, -, -, -, -, -, hheight⟩ := h
      exact hheight
  · refine hrows (fun txin => ?_) fun i h => ?_
    · rfl
    · obtain ⟨-, -, -, -, -, -, -, -, -, -, htime, -⟩ := h
      exact htime

theorem lock_time_iff (hv0 : v0.Describes deserialize raw) (hp : v0.Parsed psbt) :
    psbt.lock_time = .ok v0.tx.lock_time ↔
      (v0.heights = [] ∨ v0.times = []) ∧
        (∀ h ∈ v0.heights, h < 500000000 ∧ h ≤ v0.tx.lock_time.toNat) ∧
          (v0.times ≠ [] → ∃ t ∈ v0.times, 500000000 ≤ t) ∧
            ∀ t ∈ v0.times, t ≤ v0.tx.lock_time.toNat := by
  obtain ⟨hheights, htimes⟩ := required_eq hv0 hp
  have hfallback : psbt.fallback = v0.tx.lock_time.toNat := by
    rw [Psbt.fallback, hp.fallback]
    rfl
  rw [← V0.locked_eq_some, ← hheights, ← htimes, ← hfallback, ← Psbt.lock_time_eq, hfallback]
  cases psbt.lock_time with
  | error e => simp [Except.toOption]
  | ok lock_time => simp [Except.toOption, BitVec.toNat_inj]

theorem KV.pair_inj {kv kv' : KV} (h : 0 < kv.key.length) (h' : 0 < kv'.key.length)
    (heq : kv.pair = kv'.pair) : kv = kv' := by
  have hkey : kv.key = kv'.key := by rw [← KV.pair_key h, heq, KV.pair_key h']
  have hval : kv.val = kv'.val := congrArg MapPair.value heq
  cases kv
  cases kv'
  rw [KV.mk.injEq]
  exact ⟨hkey, hval⟩

/-- An unsigned transaction is never among the pairs that are written. -/
theorem global_iff (hv0 : v0.Describes deserialize raw) (hp : v0.Parsed psbt) :
    (∀ kv ∈ v0.before ++ v0.after, kv.pair ∈ psbt.global_map.pairs) ↔
      ∀ kv ∈ v0.before, ¬ kv.IsUnsignedTx := by
  have hfits := hv0.fits v0.global (.head _)
  constructor
  · intro h kv hkv hutx
    have hkv_fits := hfits kv (List.mem_append_left _ hkv)
    have hmem := hp.global.perm.mem_iff.mp (h kv (List.mem_append_left _ hkv))
    obtain ⟨kv', hkv', heq⟩ := List.mem_map.mp hmem
    have hkeys := key_pos_append (fun kv hkv => hfits kv (List.mem_of_mem_filter hkv))
      (global_fields_key v0.tx) (m := v0.pass)
    obtain rfl := KV.pair_inj (hkeys kv' hkv') hkv_fits.key_pos heq
    rcases List.mem_append.mp hkv' with hpass | hfield
    · simpa [hutx] using (List.mem_filter.mp hpass).2
    · exact global_fields_type v0.tx kv' hfield hutx
  · intro h kv hkv
    refine hp.global.mem (List.mem_filter.mpr ?_)
    rcases List.mem_append.mp hkv with hbefore | hafter
    · exact ⟨List.mem_append_left _ hbefore, by simpa using h kv hbefore⟩
    · exact ⟨List.mem_append_right _ (.tail _ hafter), by simpa using hv0.after kv hafter⟩

theorem carried_iff (hv0 : v0.Describes deserialize raw) (hp : v0.Parsed psbt)
    (hunsigned : Unsigned v0.tx) : v0.Carried psbt ↔ v0.Convertible := by
  constructor
  · intro h
    obtain ⟨hkind, hheights, hsome, htimes⟩ :=
      (lock_time_iff hv0 hp).mp ((rebuilt_iff hv0 hp hunsigned).mp h.tx)
    exact ⟨(global_iff hv0 hp).mp h.global, hkind, hheights, hsome, htimes⟩
  · intro h
    refine ⟨?_, (global_iff hv0 hp).mpr h.sole, ?_, ?_⟩
    · exact (rebuilt_iff hv0 hp hunsigned).mpr ((lock_time_iff hv0 hp).mpr
        ⟨h.one_kind, h.heights, h.some_time, h.times⟩)
    · have hfst : v0.in_rows.map Prod.fst = v0.inputs := List.map_fst_zip hv0.inputs.le
      rw [← hfst, List.forall₂_map_left_iff]
      refine hp.inputs.imp ?_
      intro row i h kv hkv
      exact h.1.mem hkv
    · have hfst : v0.out_rows.map Prod.fst = v0.outputs := List.map_fst_zip hv0.outputs.le
      rw [← hfst, List.forall₂_map_left_iff]
      refine hp.outputs.imp ?_
      intro row o h kv hkv
      exact h.1.mem hkv

/-- The maps of what the parser accepts of the output. -/
theorem parsed_of_parse {out rest r : Bytes} (h : psbt_v0_to_v2 deserialize raw = .ok out rest)
    (hlen : out.length < 2 ^ 32) (hparse : Psbt.parse out = .ok psbt r)
    (hv0 : v0.Describes deserialize raw) : v0.Parsed psbt := by
  obtain ⟨-, body, hout, hdescribes⟩ := (Psbt.parse_ok hlen).mp hparse
  have hbytes := (v2_bytes_of_describes h hv0).trans v0.v2_bytes_eq
  have hbody := List.append_cancel_left (hout.symm.trans hbytes)
  rw [hout, List.length_append] at hlen
  exact V0.parsed_of_describes hv0.inputs hv0.outputs hv0.fits (by omega) hbody hdescribes

/-- What is accepted is the text of a PSBT of the old version. It is carried over exactly if it
has one transaction only and the lock times that its inputs require, which are there in the new
version only, agree with what that one has. -/
theorem psbt_v0_to_v2_carries_iff (deserialize : Bytes → Option SignedTransaction)
    (raw out rest r : Bytes) (psbt : Psbt) (h : psbt_v0_to_v2 deserialize raw = .ok out rest)
    (hlen : out.length < 2 ^ 32) (hparse : Psbt.parse out = .ok psbt r) :
    (∃ v0 : V0, v0.Describes deserialize raw) ∧
      ∀ v0 : V0, v0.Describes deserialize raw → Unsigned v0.tx →
        (v0.Carried psbt ↔ v0.Convertible) :=
  ⟨exists_describes h, fun _ hv0 hunsigned =>
    carried_iff hv0 (parsed_of_parse h hlen hparse hv0) hunsigned⟩

end

/-! ## A height that comes out of nowhere -/

/-- One input, one output, and no lock time. -/
def sample_tx : SignedTransaction where
  version := 2
  lock_time := 0
  input := [{ txid := Vector.replicate 32 0x11, vout := 0, sequence := 0xfffffffe
              script_sig := [], witness := [] }]
  output := [{ value := 1000, script_pubkey := [0x51] }]

def sample_tx_bytes : Bytes :=
  [0x02, 0x00, 0x00, 0x00, 0x01] ++ List.replicate 32 0x11 ++
    [0x00, 0x00, 0x00, 0x00, 0x00, 0xfe, 0xff, 0xff, 0xff, 0x01, 0xe8, 0x03, 0x00, 0x00, 0x00, 0x00,
      0x00, 0x00, 0x01, 0x51, 0x00, 0x00, 0x00, 0x00]

/-- What the library makes of these bytes. -/
def sample_deserialize (bytes : Bytes) : Option SignedTransaction :=
  if bytes = sample_tx_bytes then some sample_tx else none

def sample_kv : KV where
  key := [0x00]
  val := sample_tx_bytes

/-- With these pairs in the map of the input. -/
def sample (imap : List KV) : V0 where
  before := []
  unsigned_tx := sample_kv
  after := []
  tx := sample_tx
  inputs := [imap]
  outputs := [[]]

def sample_bytes (imap : List KV) : Bytes := Psbt.MAGIC ++ (sample imap).maps.flatMap map_bytes

theorem sample_describes {imap : List KV} (h : ∀ kv ∈ imap, kv.Fits) :
    (sample imap).Describes sample_deserialize (sample_bytes imap) where
  bytes := ⟨[], by rw [List.append_nil]; rfl⟩
  fits m hm kv hkv := by
    rcases List.mem_cons.mp hm with hm | hm
    · rw [hm] at hkv
      have hsample : sample_kv.Fits := ⟨by decide, by decide, by decide⟩
      exact List.mem_singleton.mp hkv ▸ hsample
    · rcases List.mem_cons.mp hm with hm | hm
      · exact h kv (hm ▸ hkv)
      · rw [List.mem_singleton.mp hm] at hkv
        cases hkv
  unsigned_tx := rfl
  after _ h := by cases h
  tx := if_pos rfl
  inputs := rfl
  outputs := rfl

theorem psbt_v0_to_v2_carries_sample :
    ∃ out rest psbt r, psbt_v0_to_v2 sample_deserialize (sample_bytes []) = .ok out rest ∧
      Psbt.parse out = .ok psbt r ∧ (sample []).Carried psbt := by
  have hrun : ∃ out rest psbt r,
      psbt_v0_to_v2 sample_deserialize (sample_bytes []) = .ok out rest ∧
        out.length < 2 ^ 32 ∧ Psbt.parse out = .ok psbt r :=
    ⟨_, _, _, _, rfl, by decide, rfl⟩
  obtain ⟨out, rest, psbt, r, h, hlen, hparse⟩ := hrun
  have hiff := (psbt_v0_to_v2_carries_iff _ _ _ _ _ _ h hlen hparse).2 (sample [])
    (sample_describes (by simp)) (by decide)
  refine ⟨out, rest, psbt, r, h, hparse, hiff.mpr ⟨by simp [sample], .inl rfl, ?_, ?_, ?_⟩⟩
  · intro h hmem
    cases hmem
  · intro hne
    exact absurd rfl hne
  · intro t hmem
    cases hmem

/-- A height that the input requires. -/
def height_kv : KV where
  key := [0x12]
  val := [0x64, 0x00, 0x00, 0x00]

/-- In the new version the lock time is that height. -/
theorem height_not_carried :
    ¬ ∀ (deserialize : Bytes → Option SignedTransaction) (raw out rest r : Bytes) (psbt : Psbt),
      psbt_v0_to_v2 deserialize raw = .ok out rest → out.length < 2 ^ 32 →
        Psbt.parse out = .ok psbt r →
          ∀ v0 : V0, v0.Describes deserialize raw → Unsigned v0.tx → v0.Carried psbt := by
  intro hall
  have hrun : ∃ out rest psbt r,
      psbt_v0_to_v2 sample_deserialize (sample_bytes [height_kv]) = .ok out rest ∧
        out.length < 2 ^ 32 ∧ Psbt.parse out = .ok psbt r :=
    ⟨_, _, _, _, rfl, by decide, rfl⟩
  obtain ⟨out, rest, psbt, r, h, hlen, hparse⟩ := hrun
  have hfits : ∀ kv ∈ [height_kv], kv.Fits := by
    intro kv hkv
    obtain rfl := List.mem_singleton.mp hkv
    exact ⟨by decide, by decide, by decide⟩
  have hv0 := sample_describes hfits
  have hunsigned : Unsigned (sample [height_kv]).tx := by decide
  have hcarried := hall _ _ _ _ _ _ h hlen hparse _ hv0 hunsigned
  have hconvertible := (carried_iff hv0 (parsed_of_parse h hlen hparse hv0) hunsigned).mp hcarried
  have hle : 100 ≤ 0 := (hconvertible.heights 100 (by decide)).2
  omega

end Vanadium.Bitcoin.ConvertV0
