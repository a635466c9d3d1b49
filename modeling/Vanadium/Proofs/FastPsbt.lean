import Vanadium.Bitcoin.FastPsbt
import Vanadium.Lib.Parsing

/-!
# What the parser of PSBTs accepts

The format is given by its texts: the texts of a compact size, of a pair and of
a map, of which there may be several for one value, since a number can be written
longer than it has to be. A map has strictly increasing keys, and a field is what
a scan of its map finds under a type without data.

The parser follows the format. Each of its functions reads the texts of one
notion and nothing else, and always ends: the loop over the pairs takes a byte
for each, and indices are only taken of slices that were checked for it.
-/

namespace Vanadium.Bitcoin

open Lib Bip388

/-! ## Numbers and strings -/

/-- The texts of a number. A larger one than needed may be used. -/
inductive CompactSize : ℕ → Bytes → Prop where
  | one (b : U8) (h : b.toNat ≤ 0xfc) : CompactSize b.toNat [b]
  | two (s : Bytes) (h : s.length = 2) : CompactSize (LittleEndian.read s) (0xfd :: s)
  | four (s : Bytes) (h : s.length = 4) : CompactSize (LittleEndian.read s) (0xfe :: s)
  | eight (s : Bytes) (h : s.length = 8) : CompactSize (LittleEndian.read s) (0xff :: s)

/-- A string and its length before it. -/
def LenPrefixed (v t : Bytes) : Prop := ∃ n, CompactSize v.length n ∧ t = n ++ v

theorem CompactSize.length_pos {n : ℕ} {t : Bytes} (h : CompactSize n t) : 0 < t.length := by
  cases h <;> simp

namespace Cursor

theorem take_parses (k n : ℕ) : Parses (take k) (fun a t => t = a ∧ a.length = k) n where
  ok {s} _ a r := by
    unfold take
    rw [Exec.bind_apply_ok (Exec.get_apply s), Exec.reject_bind_ok]
    constructor
    · intro ⟨hlen, h⟩
      rw [Exec.bind_apply_ok (Exec.set_apply s _)] at h
      cases h
      exact ⟨s.take k, ⟨rfl, by simp; omega⟩, (List.take_append_drop k s).symm⟩
    · intro ⟨t, ⟨ht, hk⟩, hs⟩
      subst ht hk hs
      refine ⟨by simp, ?_⟩
      rw [Exec.bind_apply_ok (Exec.set_apply _ _), List.take_left, List.drop_left]
      rfl
  ends {s} _ w r h := by
    unfold take at h
    rw [Exec.bind_apply_ok (Exec.get_apply s)] at h
    by_cases hlen : s.length < k
    · rw [Exec.reject_bind_pos hlen] at h
      cases h
    · rw [Exec.reject_bind_neg hlen, Exec.bind_apply_ok (Exec.set_apply s _)] at h
      cases h

theorem from_le_bytes_parses {k : ℕ} {s : Bytes} (h : s.length = k) (n : ℕ) :
    Parses (from_le_bytes k s) (fun x t => x = LittleEndian.read s ∧ t = []) n := by
  unfold from_le_bytes
  refine Parses.assert_bind (Nat.le_of_eq h.symm) ?_
  rw [← h, List.take_length]
  exact Parses.pure _

/-- An integer of `k` bytes behind a byte that announces it. -/
theorem wide_parses (k n : ℕ) :
    Parses (take k >>= from_le_bytes k)
      (fun x t => t.length = k ∧ x = LittleEndian.read t) n := by
  refine ((take_parses k n).bind fun s t hs => from_le_bytes_parses hs.2 n).congr ?_
  intro x t _
  constructor
  · intro ⟨s, t₁, t₂, ⟨ht₁, hk⟩, ⟨hx, ht₂⟩, ht⟩
    subst ht₁ ht₂ ht
    rw [List.append_nil]
    exact ⟨hk, hx⟩
  · intro ⟨hk, hx⟩
    exact ⟨t, t, [], ⟨rfl, hk⟩, ⟨hx, rfl⟩, (List.append_nil t).symm⟩

/-- What follows the first byte. -/
theorem compactSize_cons {b : U8} {x : ℕ} {t : Bytes} : CompactSize x (b :: t) ↔
    b.toNat ≤ 0xfc ∧ x = b.toNat ∧ t = [] ∨ b = 0xfd ∧ t.length = 2 ∧ x = LittleEndian.read t ∨
      b = 0xfe ∧ t.length = 4 ∧ x = LittleEndian.read t ∨
        b = 0xff ∧ t.length = 8 ∧ x = LittleEndian.read t := by
  constructor
  · intro h
    cases h with
    | one _ hb => exact .inl ⟨hb, rfl, rfl⟩
    | two _ ht => exact .inr (.inl ⟨rfl, ht, rfl⟩)
    | four _ ht => exact .inr (.inr (.inl ⟨rfl, ht, rfl⟩))
    | eight _ ht => exact .inr (.inr (.inr ⟨rfl, ht, rfl⟩))
  · intro h
    rcases h with ⟨hb, rfl, rfl⟩ | ⟨rfl, ht, rfl⟩ | ⟨rfl, ht, rfl⟩ | ⟨rfl, ht, rfl⟩
    · exact .one b hb
    · exact .two t ht
    · exact .four t ht
    · exact .eight t ht

theorem read_compact_size_parses (n : ℕ) : Parses read_compact_size CompactSize n := by
  unfold read_compact_size
  have hrest : ∀ s t : Bytes, t = s ∧ s.length = 1 → Parses
      (do
        let b ← Exec.unwrap s.head?
        if b.toNat ≤ 0xfc then pure b.toNat
        else if b.toNat = 0xfd then do
          let s ← take 2
          from_le_bytes 2 s
        else if b.toNat = 0xfe then do
          let s ← take 4
          from_le_bytes 4 s
        else do
          let s ← take 8
          from_le_bytes 8 s)
      (fun x t => CompactSize x (s ++ t)) n := by
    intro s t ⟨_, hs⟩
    obtain ⟨b, rfl⟩ := List.length_eq_one_iff.mp hs
    refine Parses.unwrap_bind rfl ?_
    simp only [List.cons_append, List.nil_append, compactSize_cons]
    have htoNat : ∀ k : U8, b.toNat = k.toNat → b = k := fun k => BitVec.eq_of_toNat_eq
    split
    · next hb =>
        refine (Parses.pure b.toNat).congr fun x t _ => ?_
        have hne : ∀ k : U8, 0xfc < k.toNat → b ≠ k := by
          intro k hk h
          rw [h] at hb
          omega
        simp only [hb, hne 0xfd (by decide), hne 0xfe (by decide), hne 0xff (by decide),
          true_and, false_and, or_false]
    · next hb =>
        split
        · next hb' =>
            obtain rfl := htoNat 0xfd hb'
            exact (wide_parses 2 n).congr fun x t _ => by simp
        · next hb' =>
            split
            · next hb'' =>
                obtain rfl := htoNat 0xfe hb''
                exact (wide_parses 4 n).congr fun x t _ => by simp
            · next hb'' =>
                have hlt := b.isLt
                obtain rfl := htoNat 0xff (by simp; omega)
                exact (wide_parses 8 n).congr fun x t _ => by simp
  refine ((take_parses 1 n).bind hrest).congr fun x t _ => ?_
  constructor
  · intro ⟨s, t₁, t₂, ⟨ht₁, _⟩, h, ht⟩
    subst ht₁ ht
    exact h
  · intro h
    obtain ⟨b, t, rfl⟩ := List.exists_cons_of_length_pos h.length_pos
    exact ⟨[b], [b], t, ⟨rfl, rfl⟩, h, rfl⟩

theorem to_usize_eq_some {n k : ℕ} : to_usize n = some k ↔ n < 2 ^ 32 ∧ k = n := by
  unfold to_usize
  split
  · next h =>
      rw [Option.some_inj, eq_comm]
      exact ⟨fun hk => ⟨h, hk⟩, fun hk => hk.2⟩
  · next h =>
      exact ⟨fun hk => (Option.some_ne_none k hk.symm).elim, fun hk => absurd hk.1 h⟩

theorem read_len_prefixed_parses {n : ℕ} (hn : n ≤ 2 ^ 32) :
    Parses read_len_prefixed LenPrefixed n := by
  unfold read_len_prefixed
  have hbody : ∀ len t, CompactSize len t → Parses
      (do
        let n ← Exec.orElse (to_usize len) .unexpectedEof
        let buf ← Exec.get
        Exec.reject (buf.length < n) .unexpectedEof
        take n)
      (fun v t => v.length = len ∧ t = v) n := by
    intro len _ _
    refine (Parses.orElse_bind fun k hk =>
      (take_parses k n).at_least fun a t ht => ?_).congr fun v t ht => ?_
    · rw [ht.1, ht.2]
    · constructor
      · intro ⟨k, hk, htv, hv⟩
        exact ⟨hv.trans (to_usize_eq_some.mp hk).2, htv⟩
      · intro ⟨hv, htv⟩
        subst htv
        exact ⟨len, to_usize_eq_some.mpr ⟨by omega, rfl⟩, rfl, hv⟩
  refine ((read_compact_size_parses n).bind hbody).congr fun v t _ => ?_
  constructor
  · intro ⟨len, t₁, t₂, hlen, ⟨hv, ht₂⟩, ht⟩
    subst hv ht₂
    exact ⟨t₁, hlen, ht⟩
  · intro ⟨t₁, hlen, ht⟩
    exact ⟨v.length, t₁, v, hlen, ⟨rfl, rfl⟩, ht⟩

end Cursor

/-! ## Maps -/

instance byteOrder : LinearOrder U8 where
  le_refl x := BitVec.le_refl x
  le_trans x y z := BitVec.le_trans
  lt_iff_le_not_ge x y := by
    simp only [BitVec.lt_def, BitVec.le_def]
    omega
  le_antisymm x y := BitVec.le_antisymm
  le_total x y := by
    simp only [BitVec.le_def]
    omega
  toDecidableLE := inferInstance
  toDecidableLT := inferInstance
  toDecidableEq := inferInstance

/-- Keys are compared by type, and then by data. -/
def MapPair.key (p : MapPair) : U8 ×ₗ Bytes := toLex (p.key_type, p.key_data)

/-- The length of the key, its type and its data, and the value. -/
def PairBytes (p : MapPair) (t : Bytes) : Prop :=
  ∃ n v, CompactSize (p.key_data.length + 1) n ∧ LenPrefixed p.value v ∧
    t = n ++ p.key_type :: p.key_data ++ v

/-- Pairs, and the key of no bytes after them. -/
inductive MapBytes : List MapPair → Bytes → Prop where
  | nil (t : Bytes) (h : CompactSize 0 t) : MapBytes [] t
  | cons (p : MapPair) (ps : List MapPair) (t ts : Bytes) (h : PairBytes p t)
      (hs : MapBytes ps ts) : MapBytes (p :: ps) (t ++ ts)

/-- Keys that increase, and so no key twice. -/
def Sorted (ps : List MapPair) : Prop := ps.Pairwise fun p q => p.key < q.key

/-- What a closure makes of the pairs of a map, one after the other. -/
def Steps {T : Type} (R : T → MapPair → T → Prop) : T → List MapPair → T → Prop
  | st, [], st' => st' = st
  | st, p :: ps, st' => ∃ st₁, R st p st₁ ∧ Steps R st₁ ps st'

/-- A closure that a map is read with: what it takes from a pair is given by `R`. -/
def Takes {T : Type} (f : T → MapPair → Cursor T) (R : T → MapPair → T → Prop) : Prop :=
  ∀ st p, Parses (f st p) (fun st' t => R st p st' ∧ t = []) (2 ^ 32)

namespace ParsedMap

theorem check_order_parses (pairs : List MapPair) (p : MapPair) (n : ℕ) :
    Parses (check_order pairs p.key_type p.key_data)
      (fun _ t => (∀ last ∈ pairs.getLast?, last.key < p.key) ∧ t = []) n := by
  unfold check_order
  cases pairs.getLast? with
  | none =>
      refine (Parses.pure ()).congr fun _ t _ => ?_
      simp
  | some last =>
      have hlt : p.key < last.key ↔ p.key_type < last.key_type ∨
          p.key_type = last.key_type ∧ p.key_data < last.key_data := Prod.Lex.toLex_lt_toLex
      have heq : p.key = last.key ↔ p.key_type = last.key_type ∧ p.key_data = last.key_data :=
        toLex.injective.eq_iff.trans Prod.mk_inj
      refine Parses.congr (Parses.reject_bind fun _ => Parses.reject) fun _ t _ => ?_
      rw [← hlt, ← heq, ← and_assoc]
      refine and_congr_left fun _ => ?_
      simp only [Option.mem_def, Option.some_inj, forall_eq']
      exact ⟨fun ⟨hnlt, hne⟩ => (lt_trichotomy last.key p.key).resolve_right fun h =>
          h.elim (fun h => hne h.symm) hnlt,
        fun h => ⟨h.not_gt, h.ne'⟩⟩

/-- What the loop reads after pairs that were read: more of them, in order. -/
def Reads {T : Type} (R : T → MapPair → T → Prop) (st : T) (pairs : List MapPair)
    (out : ParsedMap × T) (t : Bytes) : Prop :=
  ∃ ps, out.1.pairs = pairs ++ ps ∧ MapBytes ps t ∧ Sorted (pairs ++ ps) ∧ Steps R st ps out.2

/-- A turn, after the length of the key. -/
def ReadsKey {T : Type} (R : T → MapPair → T → Prop) (st : T) (pairs : List MapPair)
    (key : Bytes) (out : ParsedMap × T) (t : Bytes) : Prop :=
  ∃ p v ts st₁, key = p.key_type :: p.key_data ∧ (∀ last ∈ pairs.getLast?, last.key < p.key) ∧
    LenPrefixed p.value v ∧ R st p st₁ ∧ Reads R st₁ (pairs ++ [p]) out ts ∧ t = v ++ ts

theorem Sorted.concat {ps : List MapPair} {p : MapPair} :
    Sorted (ps ++ [p]) ↔ Sorted ps ∧ ∀ last ∈ ps.getLast?, last.key < p.key := by
  unfold Sorted
  rw [← List.isChain_iff_pairwise, ← List.isChain_iff_pairwise, List.isChain_append]
  simp

/-- A map ends with a key of no bytes. Otherwise it goes on with a pair. -/
theorem reads_iff {T : Type} {R : T → MapPair → T → Prop} {st : T} {pairs : List MapPair}
    {out : ParsedMap × T} {t : Bytes} (hpairs : Sorted pairs) :
    Reads R st pairs out t ↔ ∃ key_len n ts, CompactSize key_len n ∧
      (if key_len = 0 then out = ({ pairs }, st) ∧ ts = [] else
        ∃ key rest, key.length = key_len ∧ ReadsKey R st pairs key out rest ∧
          ts = key ++ rest) ∧ t = n ++ ts := by
  constructor
  · intro ⟨ps, hout, hbytes, hsorted, hsteps⟩
    cases hbytes with
    | nil _ h =>
        rw [List.append_nil] at hout
        refine ⟨0, t, [], h, ?_, (List.append_nil t).symm⟩
        rw [if_pos rfl, ← hout, ← show out.2 = st from hsteps]
        exact ⟨rfl, rfl⟩
    | cons p ps _ ts h hs =>
        obtain ⟨n, v, hn, hv, rfl⟩ := h
        obtain ⟨st₁, hR, hsteps⟩ := hsteps
        rw [List.append_cons] at hout hsorted
        refine ⟨p.key_data.length + 1, n, p.key_type :: p.key_data ++ (v ++ ts), hn, ?_, ?_⟩
        · rw [if_neg (Nat.succ_ne_zero _)]
          have hp := (Sorted.concat.mp (List.pairwise_append.mp hsorted).1).2
          exact ⟨_, v ++ ts, rfl,
            ⟨p, v, ts, st₁, rfl, hp, hv, hR, ⟨ps, hout, hs, hsorted, hsteps⟩, rfl⟩, rfl⟩
        · simp
  · intro ⟨key_len, n, ts, hn, h, ht⟩
    split at h
    · next h0 =>
        subst h0
        obtain ⟨rfl, rfl⟩ := h
        rw [List.append_nil] at ht
        subst ht
        exact ⟨[], (List.append_nil pairs).symm, .nil t hn, by rwa [List.append_nil], rfl⟩
    · next hpos =>
        obtain ⟨key, rest, hlen, ⟨p, v, ts', st₁, rfl, -, hv, hR, hreads, rfl⟩, rfl⟩ := h
        obtain ⟨ps, hout, hs, hsorted, hsteps⟩ := hreads
        subst hlen
        rw [← List.append_cons] at hout hsorted
        have hbytes := MapBytes.cons p ps _ ts' ⟨n, v, hn, hv, rfl⟩ hs
        refine ⟨p :: ps, hout, ?_, hsorted, st₁, hR, hsteps⟩
        simpa [ht] using hbytes

theorem loop_parses {T : Type} {f : T → MapPair → Cursor T} {R : T → MapPair → T → Prop}
    (hf : Takes f R) {fuel : ℕ} {st : T} {pairs : List MapPair} (hpairs : Sorted pairs) :
    Parses (from_cursor.loop f fuel st pairs) (Reads R st pairs) (min fuel (2 ^ 32)) := by
  induction fuel generalizing st pairs with
  | zero => exact ⟨fun hs => absurd hs (by simp), fun hs => absurd hs (by simp)⟩
  | succ fuel ih =>
      rw [from_cursor.loop]
      have hn : min fuel (2 ^ 32) ≤ 2 ^ 32 := Nat.min_le_right ..
      refine Parses.congr ((Cursor.read_compact_size_parses _).bind_rest
        (H := fun key_len out t => if key_len = 0 then out = ({ pairs }, st) ∧ t = [] else
          ∃ key ts, key.length = key_len ∧ ReadsKey R st pairs key out ts ∧ t = key ++ ts)
        fun key_len t ht => ?_) fun out t _ => ?_
      · have hlen := ht.length_pos
        refine Parses.mono ?_ (show _ ≤ min fuel (2 ^ 32) by omega)
        split
        · exact Parses.pure _
        · next hpos =>
            refine Parses.congr (Parses.orElse_bind fun k hk =>
              (Cursor.take_parses k _).bind (H := ReadsKey R st pairs) fun key t hkey => ?_) ?_
            · have hkk : key.length ≠ 0 := by
                rw [hkey.2, (Cursor.to_usize_eq_some.mp hk).2]
                exact hpos
              obtain ⟨b, data, rfl⟩ := List.exists_cons_of_length_pos (Nat.pos_of_ne_zero hkk)
              refine Parses.unwrap_bind rfl ?_
              refine Parses.congr ((check_order_parses pairs ⟨b, data, []⟩ _).bind fun _ _ ho =>
                (Cursor.read_len_prefixed_parses hn).bind fun v _ _ =>
                  ((hf st ⟨b, data, v⟩).mono hn).bind fun st₁ _ _ =>
                    ih (Sorted.concat.mpr ⟨hpairs, ho.1⟩)) fun out t _ => ?_
              constructor
              · intro ⟨_, _, _, ⟨ho, h₁⟩, ⟨v, tv, _, hv, ⟨st₁, _, ts, ⟨hR, h₂⟩, hts, h₃⟩, h₄⟩, h₅⟩
                subst h₁ h₂ h₃ h₄ h₅
                exact ⟨⟨b, data, v⟩, tv, _, st₁, rfl, ho, hv, hR, hts, rfl⟩
              · intro ⟨⟨_, _, v⟩, tv, ts, st₁, hp, ho, hv, hR, hts, ht⟩
                cases hp
                exact ⟨(), [], _, ⟨ho, rfl⟩,
                  ⟨v, tv, _, hv, ⟨st₁, [], ts, ⟨hR, rfl⟩, hts, rfl⟩, rfl⟩, ht⟩
            · intro out t ht
              constructor
              · intro ⟨k, hk, key, _, ts, ⟨htk, hlen⟩, hts, hteq⟩
                subst htk
                exact ⟨_, ts, hlen.trans (Cursor.to_usize_eq_some.mp hk).2, hts, hteq⟩
              · intro ⟨key, ts, hlen, hts, hteq⟩
                rw [hteq, List.length_append] at ht
                exact ⟨key_len, Cursor.to_usize_eq_some.mpr ⟨by omega, rfl⟩, key, key, ts,
                  ⟨rfl, hlen⟩, hts, hteq⟩
      · exact (reads_iff hpairs).symm

/-- A map, and what the closure makes of its pairs. -/
theorem from_cursor_parses {T : Type} {f : T → MapPair → Cursor T} {R : T → MapPair → T → Prop}
    (hf : Takes f R) (st : T) :
    Parses (from_cursor f st) (fun out t => MapBytes out.1.pairs t ∧ Sorted out.1.pairs ∧
      Steps R st out.1.pairs out.2) (2 ^ 32) := by
  have hloop : ∀ fuel, Parses (from_cursor.loop f fuel st []) (fun out t =>
      MapBytes out.1.pairs t ∧ Sorted out.1.pairs ∧ Steps R st out.1.pairs out.2)
      (min fuel (2 ^ 32)) := by
    intro fuel
    refine (loop_parses hf List.Pairwise.nil).congr fun out t _ => ?_
    unfold Reads
    simp only [List.nil_append, exists_eq_left']
  have hlt : ∀ s : Bytes, s.length < 2 ^ 32 → s.length < min (s.length + 1) (2 ^ 32) :=
    fun s hs => lt_min (Nat.lt_succ_self _) hs
  refine ⟨fun {s} hs out r => ?_, fun {s} hs w r h => ?_⟩
  · unfold from_cursor
    rw [Exec.bind_apply_ok (Exec.get_apply s)]
    exact (hloop _).ok (hlt s hs)
  · unfold from_cursor at h
    rw [Exec.bind_apply_ok (Exec.get_apply s)] at h
    exact (hloop _).ends (hlt s hs) w r h

end ParsedMap

/-! ## Lookups -/

/-- What a scan of the pairs finds under a key. -/
def scan (ps : List MapPair) (key_type : U8) (key_data : Bytes) : Option Bytes :=
  (ps.find? fun p => p.key_type = key_type ∧ p.key_data = key_data).map MapPair.value

theorem key_cmp_eq_cmp (t : U8) (d : Bytes) (t' : U8) (d' : Bytes) :
    key_cmp t d t' d' = cmp (toLex (t, d)) (toLex (t', d')) := by
  have hlt : ∀ (t : U8) (d : Bytes) (t' : U8) (d' : Bytes),
      toLex (t, d) < toLex (t', d') ↔ t < t' ∨ t = t' ∧ d < d' :=
    fun t d t' d' => Prod.Lex.toLex_lt_toLex
  unfold key_cmp cmp cmpUsing
  simp only [hlt]
  rcases lt_trichotomy t t' with h | h | h
  · simp [h]
  · subst h
    simp
  · simp [h, h.not_gt, h.ne']

namespace ParsedMap

theorem get_eq_scan {map : ParsedMap} (h : Sorted map.pairs) (t : U8) (d : Bytes) :
    map.get t d = scan map.pairs t d := by
  have hordered : BinarySearch.Ordered (fun p : MapPair => key_cmp p.key_type p.key_data t d)
      map.pairs := by
    refine ⟨h.imp fun {p q} hpq => ?_, h.imp fun {p q} hpq => ?_⟩
    · rw [key_cmp_eq_cmp, key_cmp_eq_cmp, cmp_eq_lt_iff, cmp_eq_lt_iff]
      exact hpq.trans
    · rw [key_cmp_eq_cmp, key_cmp_eq_cmp, cmp_eq_gt_iff, cmp_eq_gt_iff]
      exact fun hp => hp.trans hpq
  have hunique : map.pairs.Pairwise fun p q => key_cmp p.key_type p.key_data t d = .eq →
      key_cmp q.key_type q.key_data t d ≠ .eq := by
    refine h.imp fun {p q} hpq hp hq => ?_
    rw [key_cmp_eq_cmp, cmp_eq_eq_iff] at hp hq
    exact absurd (hp.trans hq.symm) hpq.ne
  have hkey : (fun p : MapPair => decide (key_cmp p.key_type p.key_data t d = .eq)) =
      fun p => decide (p.key_type = t ∧ p.key_data = d) := by
    funext p
    rw [key_cmp_eq_cmp, decide_eq_decide, cmp_eq_eq_iff, toLex.injective.eq_iff, Prod.mk_inj]
  have hfind := BinarySearch.search_eq_find hordered hunique
  rw [hkey] at hfind
  unfold get scan
  rw [← hfind]
  cases BinarySearch.search map.pairs fun p => key_cmp p.key_type p.key_data t d with
  | ok i => rfl
  | error i => rfl

theorem key_type_le {p q : MapPair} (h : p.key < q.key) : p.key_type ≤ q.key_type :=
  (Prod.Lex.toLex_lt_toLex.mp h).elim le_of_lt fun h => h.1.le

theorem iter_keys_eq_filter {map : ParsedMap} (h : Sorted map.pairs) (t : U8) :
    map.iter_keys t = map.pairs.filter fun p => p.key_type = t :=
  BinarySearch.slice_eq_filter MapPair.key_type (h.imp key_type_le) t

end ParsedMap

/-! ## Values -/

/-- The value itself. -/
def Raw (v a : Bytes) : Prop := a = v

/-- An integer of exactly `n` bytes. -/
def Fixed (n : ℕ) {w : ℕ} (v : Bytes) (a : BitVec w) : Prop :=
  v.length = n ∧ a.toNat = LittleEndian.read v

def Counts (v : Bytes) (n : ℕ) : Prop := CompactSize n v

def Txid (v : Bytes) (a : Vector U8 32) : Prop := a.toList = v

/-- What reads a value takes nothing from the text of the map. -/
def Reader {α : Type} (read : Bytes → Cursor α) (P : Bytes → α → Prop) : Prop :=
  ∀ v, Parses (read v) (fun a t => P v a ∧ t = []) (2 ^ 32)

theorem bytes_value_reader : Reader bytes_value Raw := fun v => Parses.pure v

theorem le_value_reader (n : ℕ) :
    Reader (le_value n) fun v x => v.length = n ∧ x = LittleEndian.read v := by
  intro v
  unfold le_value
  refine Parses.congr (Parses.reject_bind fun hn =>
    Cursor.from_le_bytes_parses (not_not.mp hn) _) fun x t _ => ?_
  rw [not_not, and_assoc]

/-- An integer of `n` bytes fills a word of as many. -/
theorem word_reader {n w : ℕ} (hw : 256 ^ n = 2 ^ w) :
    Reader (fun v => do
      let x ← le_value n v
      pure (BitVec.ofNat w x)) (Fixed n) := by
  intro v
  refine Parses.congr ((le_value_reader n v).bind_empty fun x => Parses.pure _) fun a t _ => ?_
  refine and_congr_left fun _ => ?_
  constructor
  · intro ⟨x, ⟨hn, hx⟩, ha⟩
    have hlt := LittleEndian.read_lt v
    rw [hn, hw] at hlt
    rw [ha, hx]
    exact ⟨hn, by rw [BitVec.toNat_ofNat, Nat.mod_eq_of_lt hlt]⟩
  · intro ⟨hn, ha⟩
    exact ⟨_, ⟨hn, rfl⟩, by rw [← ha, BitVec.ofNat_toNat, BitVec.setWidth_eq]⟩

theorem u32_value_reader : Reader u32_value (Fixed 4) := word_reader (by norm_num)

theorem u64_value_reader : Reader u64_value (Fixed 8) := word_reader (by norm_num)

theorem u8_value_reader : Reader u8_value (Fixed 1) := word_reader (by norm_num)

theorem txid_value_reader : Reader txid_value Txid := by
  intro v
  refine Parses.congr Parses.orElse fun a t _ => ?_
  rw [try_into_eq_some, Txid]

theorem u64_from_compact_size_reader : Reader u64_from_compact_size Counts := by
  intro v
  have hread := Cursor.read_compact_size_parses (v.length + 1)
  have hv := Nat.lt_succ_self v.length
  have hall : ∀ n, Counts v n ↔ Cursor.read_compact_size v = .ok n [] := by
    intro n
    rw [hread.ok hv]
    simp [Counts]
  unfold u64_from_compact_size
  cases hr : Cursor.read_compact_size v with
  | ok n rest =>
      refine Parses.congr (Parses.reject_bind fun _ => Parses.pure n) fun a t _ => ?_
      rw [hall, hr, ← and_assoc, not_not]
      refine and_congr_left fun _ => ?_
      simp [and_comm, eq_comm]
  | err e rest =>
      refine Parses.congr (Parses.reject_bind fun _ => Parses.throw e) fun a t _ => ?_
      rw [hall, hr]
      simp
  | stop w rest => exact (hread.ends hv w rest hr).elim

/-! ## Fields -/

/-- What a pair makes of the field of a type without data. -/
def FieldStep {α : Type} (p : MapPair) (t : U8) (P : Bytes → α → Prop) (old new : Option α) :
    Prop :=
  if p.key_data = [] ∧ p.key_type = t then ∃ a, P p.value a ∧ new = some a else new = old

theorem field_parses {α : Type} {read : Bytes → Cursor α} {P : Bytes → α → Prop}
    (hread : Reader read P) {p : MapPair} (hp : p.key_data = []) (t : U8) (old : Option α) :
    Parses (field t read p old) (fun new text => FieldStep p t P old new ∧ text = []) (2 ^ 32) := by
  unfold field FieldStep
  by_cases ht : p.key_type = t
  · rw [if_pos ht]
    refine Parses.congr ((hread p.value).bind_empty fun a => Parses.pure _) fun new text _ => ?_
    rw [if_pos ⟨hp, ht⟩]
  · rw [if_neg ht]
    refine (Parses.pure old).congr fun new text _ => ?_
    rw [if_neg fun h => ht h.2]

theorem fieldStep_of_not {α : Type} {p : MapPair} {t : U8} {P : Bytes → α → Prop}
    (hp : ¬ (p.key_data = [] ∧ p.key_type = t)) {old new : Option α} :
    FieldStep p t P old new ↔ new = old := by
  unfold FieldStep
  rw [if_neg hp]

/-- A field that no pair is about stays as it is. -/
theorem steps_absent {α : Type} {ps : List MapPair} {t : U8} {P : Bytes → α → Prop}
    (h : ∀ p ∈ ps, ¬ (p.key_data = [] ∧ p.key_type = t)) {old new : Option α} :
    Steps (fun old p new => FieldStep p t P old new) old ps new ↔ new = old := by
  induction ps generalizing old with
  | nil => exact Iff.rfl
  | cons p ps ih =>
      rw [List.forall_mem_cons] at h
      simp only [Steps, fieldStep_of_not h.1, exists_eq_left]
      exact ih h.2

theorem rel_none {α : Type} {P : Bytes → α → Prop} {o : Option α} :
    Option.Rel P none o ↔ o = none := by
  cases o <;> simp

theorem rel_some {α : Type} {P : Bytes → α → Prop} {v : Bytes} {o : Option α} :
    Option.Rel P (some v) o ↔ ∃ a, P v a ∧ o = some a := by
  refine ⟨fun h => ?_, fun ⟨a, ha, ho⟩ => ho ▸ .some ha⟩
  cases h with
  | some ha => exact ⟨_, ha, rfl⟩

/-- A field is what a scan finds: keys are only there once. -/
theorem steps_field {α : Type} {ps : List MapPair} (hps : Sorted ps) {t : U8}
    {P : Bytes → α → Prop} {new : Option α} :
    Steps (fun old p new => FieldStep p t P old new) none ps new ↔
      Option.Rel P (scan ps t []) new := by
  induction ps with
  | nil => exact rel_none.symm
  | cons p ps ih =>
      obtain ⟨hp, hps⟩ := List.pairwise_cons.mp hps
      by_cases hpt : p.key_data = [] ∧ p.key_type = t
      · have habsent : ∀ q ∈ ps, ¬ (q.key_data = [] ∧ q.key_type = t) := by
          intro q hq h
          refine (hp q hq).ne ?_
          rw [MapPair.key, MapPair.key, hpt.1, hpt.2, h.1, h.2]
        have hscan : scan (p :: ps) t [] = some p.value := by simp [scan, hpt]
        rw [hscan, rel_some]
        simp only [Steps, steps_absent habsent]
        constructor
        · intro ⟨st₁, h, hnew⟩
          rw [FieldStep, if_pos hpt, ← hnew] at h
          exact h
        · intro h
          refine ⟨new, ?_, rfl⟩
          rw [FieldStep, if_pos hpt]
          exact h
      · have hscan : scan (p :: ps) t [] = scan ps t [] := by
          rw [scan, List.find?_cons_of_neg (by simpa [and_comm] using hpt), scan]
        simp only [Steps, fieldStep_of_not hpt, exists_eq_left, hscan]
        exact ih hps

/-- What is said of one field, by its type and by what its value means. -/
abbrev FieldRel : Type 1 := ∀ {α : Type}, U8 → (Bytes → α → Prop) → Option α → Option α → Prop

/-- Records of fields, where the same can be said of every field of two of them. -/
structure Fields (T : Type) where
  each : FieldRel → T → T → Prop
  /-- Nothing was read yet. -/
  empty : T
  from_empty : ∀ {F : FieldRel} {x : T},
    each F empty x ↔ each (fun t P _ new => F t P none new) x x
  same : ∀ {x x' : T}, each (fun _ _ old new => new = old) x x' ↔ x' = x
  comp : ∀ {F G : FieldRel} {x x' : T},
    each (fun t P old new => ∃ o, F t P old o ∧ G t P o new) x x' ↔ ∃ y, each F x y ∧ each G y x'

theorem Fields.steps {T : Type} (fields : Fields T) {ps : List MapPair} {x x' : T} :
    Steps (fun x p x' => fields.each (FieldStep p) x x') x ps x' ↔
      fields.each (fun t P old new => Steps (fun old p new => FieldStep p t P old new) old ps new)
        x x' := by
  induction ps generalizing x with
  | nil => exact fields.same.symm
  | cons p ps ih =>
      simp only [Steps, ih]
      exact fields.comp.symm

/-- The fields of a map are what scans of it find. -/
def Fields.Of {T : Type} (fields : Fields T) (ps : List MapPair) (x : T) : Prop :=
  fields.each (fun t P _ o => Option.Rel P (scan ps t []) o) x x

theorem Fields.steps_empty {T : Type} (fields : Fields T) {ps : List MapPair} (hps : Sorted ps)
    {x : T} :
    Steps (fun x p x' => fields.each (FieldStep p) x x') fields.empty ps x ↔ fields.Of ps x := by
  have h : (fun {_} t P _ new => Steps (fun old p new => FieldStep p t P old new) none ps new :
      FieldRel) = fun {_} t P _ o => Option.Rel P (scan ps t []) o := by
    funext α t P _ o
    exact propext (steps_field hps)
  rw [fields.steps, fields.from_empty, h]
  rfl

def globalFields : Fields GlobalFields where
  each F g g' :=
    F PSBT_GLOBAL_TX_VERSION (Fixed 4) g.tx_version g'.tx_version ∧
    F PSBT_GLOBAL_FALLBACK_LOCKTIME (Fixed 4) g.fallback_locktime g'.fallback_locktime ∧
    F PSBT_GLOBAL_INPUT_COUNT Counts g.n_inputs g'.n_inputs ∧
    F PSBT_GLOBAL_OUTPUT_COUNT Counts g.n_outputs g'.n_outputs ∧
    F PSBT_GLOBAL_TX_MODIFIABLE (Fixed 1) g.tx_modifiable g'.tx_modifiable ∧
    F PSBT_GLOBAL_VERSION (Fixed 4) g.psbt_version g'.psbt_version
  empty := {}
  from_empty := Iff.rfl
  same {g g'} := by
    cases g
    cases g'
    simp
  comp {F G g g'} := by
    constructor
    · intro ⟨⟨_, h₁, k₁⟩, ⟨_, h₂, k₂⟩, ⟨_, h₃, k₃⟩, ⟨_, h₄, k₄⟩, ⟨_, h₅, k₅⟩, _, h₆, k₆⟩
      exact ⟨⟨_, _, _, _, _, _⟩, ⟨h₁, h₂, h₃, h₄, h₅, h₆⟩, k₁, k₂, k₃, k₄, k₅, k₆⟩
    · intro ⟨_, ⟨h₁, h₂, h₃, h₄, h₅, h₆⟩, k₁, k₂, k₃, k₄, k₅, k₆⟩
      exact ⟨⟨_, h₁, k₁⟩, ⟨_, h₂, k₂⟩, ⟨_, h₃, k₃⟩, ⟨_, h₄, k₄⟩, ⟨_, h₅, k₅⟩, _, h₆, k₆⟩

def inputFields : Fields InputFields where
  each F i i' :=
    F PSBT_IN_NON_WITNESS_UTXO Raw i.non_witness_utxo i'.non_witness_utxo ∧
    F PSBT_IN_WITNESS_UTXO Raw i.witness_utxo i'.witness_utxo ∧
    F PSBT_IN_SIGHASH_TYPE (Fixed 4) i.sighash_type i'.sighash_type ∧
    F PSBT_IN_REDEEM_SCRIPT Raw i.redeem_script i'.redeem_script ∧
    F PSBT_IN_WITNESS_SCRIPT Raw i.witness_script i'.witness_script ∧
    F PSBT_IN_FINAL_SCRIPTSIG Raw i.final_scriptsig i'.final_scriptsig ∧
    F PSBT_IN_FINAL_SCRIPTWITNESS Raw i.final_scriptwitness i'.final_scriptwitness ∧
    F PSBT_IN_PREVIOUS_TXID Txid i.previous_txid i'.previous_txid ∧
    F PSBT_IN_OUTPUT_INDEX (Fixed 4) i.output_index i'.output_index ∧
    F PSBT_IN_SEQUENCE (Fixed 4) i.sequence i'.sequence ∧
    F PSBT_IN_REQUIRED_TIME_LOCKTIME (Fixed 4) i.required_time_locktime i'.required_time_locktime ∧
    F PSBT_IN_REQUIRED_HEIGHT_LOCKTIME (Fixed 4) i.required_height_locktime i'.required_height_locktime
  empty := {}
  from_empty := Iff.rfl
  same {i i'} := by
    cases i
    cases i'
    simp
  comp {F G i i'} := by
    constructor
    · intro ⟨⟨_, h₁, k₁⟩, ⟨_, h₂, k₂⟩, ⟨_, h₃, k₃⟩, ⟨_, h₄, k₄⟩, ⟨_, h₅, k₅⟩, ⟨_, h₆, k₆⟩,
        ⟨_, h₇, k₇⟩, ⟨_, h₈, k₈⟩, ⟨_, h₉, k₉⟩, ⟨_, h₁₀, k₁₀⟩, ⟨_, h₁₁, k₁₁⟩, _, h₁₂, k₁₂⟩
      exact ⟨⟨_, _, _, _, _, _, _, _, _, _, _, _⟩, ⟨h₁, h₂, h₃, h₄, h₅, h₆, h₇, h₈, h₉, h₁₀, h₁₁,
        h₁₂⟩, k₁, k₂, k₃, k₄, k₅, k₆, k₇, k₈, k₉, k₁₀, k₁₁, k₁₂⟩
    · intro ⟨_, ⟨h₁, h₂, h₃, h₄, h₅, h₆, h₇, h₈, h₉, h₁₀, h₁₁, h₁₂⟩, k₁, k₂, k₃, k₄, k₅, k₆, k₇,
        k₈, k₉, k₁₀, k₁₁, k₁₂⟩
      exact ⟨⟨_, h₁, k₁⟩, ⟨_, h₂, k₂⟩, ⟨_, h₃, k₃⟩, ⟨_, h₄, k₄⟩, ⟨_, h₅, k₅⟩, ⟨_, h₆, k₆⟩,
        ⟨_, h₇, k₇⟩, ⟨_, h₈, k₈⟩, ⟨_, h₉, k₉⟩, ⟨_, h₁₀, k₁₀⟩, ⟨_, h₁₁, k₁₁⟩, _, h₁₂, k₁₂⟩

def outputFields : Fields OutputFields where
  each F o o' :=
    F PSBT_OUT_REDEEM_SCRIPT Raw o.redeem_script o'.redeem_script ∧
    F PSBT_OUT_WITNESS_SCRIPT Raw o.witness_script o'.witness_script ∧
    F PSBT_OUT_AMOUNT (Fixed 8) o.amount o'.amount ∧
    F PSBT_OUT_SCRIPT Raw o.script o'.script
  empty := {}
  from_empty := Iff.rfl
  same {o o'} := by
    cases o
    cases o'
    simp
  comp {F G o o'} := by
    constructor
    · intro ⟨⟨_, h₁, k₁⟩, ⟨_, h₂, k₂⟩, ⟨_, h₃, k₃⟩, _, h₄, k₄⟩
      exact ⟨⟨_, _, _, _⟩, ⟨h₁, h₂, h₃, h₄⟩, k₁, k₂, k₃, k₄⟩
    · intro ⟨_, ⟨h₁, h₂, h₃, h₄⟩, k₁, k₂, k₃, k₄⟩
      exact ⟨⟨_, h₁, k₁⟩, ⟨_, h₂, k₂⟩, ⟨_, h₃, k₃⟩, _, h₄, k₄⟩

/-- A pair with data is about no field. -/
theorem Fields.each_of_data {T : Type} (fields : Fields T) {p : MapPair} (hp : p.key_data ≠ [])
    {x x' : T} : fields.each (FieldStep p) x x' ↔ x' = x := by
  have h : (FieldStep p : FieldRel) = fun {_} _ _ old new => new = old := by
    funext α t P old new
    exact propext (fieldStep_of_not fun h => hp h.1)
  rw [h]
  exact fields.same

theorem GlobalFields.read_takes : Takes GlobalFields.read (fun g p g' =>
    ¬ (p.key_data = [] ∧ p.key_type = PSBT_GLOBAL_UNSIGNED_TX) ∧
      globalFields.each (FieldStep p) g g') := by
  intro g p
  unfold GlobalFields.read
  by_cases hp : p.key_data ≠ []
  · rw [if_pos hp]
    refine (Parses.pure g).congr fun g' t _ => and_congr_left fun _ => ?_
    beta_reduce
    rw [globalFields.each_of_data hp]
    exact ⟨fun h => ⟨fun h => hp h.1, h⟩, fun h => h.2⟩
  · rw [if_neg hp]
    have hp := not_not.mp hp
    refine Parses.congr (Parses.reject_bind fun _ =>
        (field_parses u32_value_reader hp _ _).bind_empty fun _ =>
        (field_parses u32_value_reader hp _ _).bind_empty fun _ =>
        (field_parses u64_from_compact_size_reader hp _ _).bind_empty fun _ =>
        (field_parses u64_from_compact_size_reader hp _ _).bind_empty fun _ =>
        (field_parses u8_value_reader hp _ _).bind_empty fun _ =>
        (field_parses u32_value_reader hp _ _).bind_empty fun _ =>
        Parses.pure _) fun g' t _ => ?_
    rw [and_assoc.symm]
    refine and_congr_left fun _ => ?_
    constructor
    · intro ⟨h₀, _, h₁, _, h₂, _, h₃, _, h₄, _, h₅, _, h₆, hg⟩
      subst hg
      exact ⟨fun h => h₀ h.2, h₁, h₂, h₃, h₄, h₅, h₆⟩
    · intro ⟨h₀, h₁, h₂, h₃, h₄, h₅, h₆⟩
      exact ⟨fun h => h₀ ⟨hp, h⟩, _, h₁, _, h₂, _, h₃, _, h₄, _, h₅, _, h₆, rfl⟩

theorem InputFields.read_takes : Takes InputFields.read
    (fun i p i' => inputFields.each (FieldStep p) i i') := by
  intro i p
  unfold InputFields.read
  by_cases hp : p.key_data ≠ []
  · rw [if_pos hp]
    refine (Parses.pure i).congr fun i' t _ => and_congr_left fun _ => ?_
    exact (inputFields.each_of_data hp).symm
  · rw [if_neg hp]
    have hp := not_not.mp hp
    refine Parses.congr (
        (field_parses bytes_value_reader hp _ _).bind_empty fun _ =>
        (field_parses bytes_value_reader hp _ _).bind_empty fun _ =>
        (field_parses u32_value_reader hp _ _).bind_empty fun _ =>
        (field_parses bytes_value_reader hp _ _).bind_empty fun _ =>
        (field_parses bytes_value_reader hp _ _).bind_empty fun _ =>
        (field_parses bytes_value_reader hp _ _).bind_empty fun _ =>
        (field_parses bytes_value_reader hp _ _).bind_empty fun _ =>
        (field_parses txid_value_reader hp _ _).bind_empty fun _ =>
        (field_parses u32_value_reader hp _ _).bind_empty fun _ =>
        (field_parses u32_value_reader hp _ _).bind_empty fun _ =>
        (field_parses u32_value_reader hp _ _).bind_empty fun _ =>
        (field_parses u32_value_reader hp _ _).bind_empty fun _ =>
        Parses.pure _) fun i' t _ => ?_
    refine and_congr_left fun _ => ?_
    constructor
    · intro ⟨_, h₁, _, h₂, _, h₃, _, h₄, _, h₅, _, h₆, _, h₇, _, h₈, _, h₉, _, h₁₀, _, h₁₁,
        _, h₁₂, hx⟩
      subst hx
      exact ⟨h₁, h₂, h₃, h₄, h₅, h₆, h₇, h₈, h₉, h₁₀, h₁₁, h₁₂⟩
    · intro ⟨h₁, h₂, h₃, h₄, h₅, h₆, h₇, h₈, h₉, h₁₀, h₁₁, h₁₂⟩
      exact ⟨_, h₁, _, h₂, _, h₃, _, h₄, _, h₅, _, h₆, _, h₇, _, h₈, _, h₉, _, h₁₀, _, h₁₁,
        _, h₁₂, rfl⟩

theorem OutputFields.read_takes : Takes OutputFields.read
    (fun o p o' => outputFields.each (FieldStep p) o o') := by
  intro o p
  unfold OutputFields.read
  by_cases hp : p.key_data ≠ []
  · rw [if_pos hp]
    refine (Parses.pure o).congr fun o' t _ => and_congr_left fun _ => ?_
    exact (outputFields.each_of_data hp).symm
  · rw [if_neg hp]
    have hp := not_not.mp hp
    refine Parses.congr (
        (field_parses bytes_value_reader hp _ _).bind_empty fun _ =>
        (field_parses bytes_value_reader hp _ _).bind_empty fun _ =>
        (field_parses u64_value_reader hp _ _).bind_empty fun _ =>
        (field_parses bytes_value_reader hp _ _).bind_empty fun _ =>
        Parses.pure _) fun o' t _ => ?_
    refine and_congr_left fun _ => ?_
    constructor
    · intro ⟨_, h₁, _, h₂, _, h₃, _, h₄, hx⟩
      subst hx
      exact ⟨h₁, h₂, h₃, h₄⟩
    · intro ⟨h₁, h₂, h₃, h₄⟩
      exact ⟨_, h₁, _, h₂, _, h₃, _, h₄, rfl⟩

/-! ## The maps of a PSBT -/

/-- The text of a map that has its fields taken out. -/
def Mapped {T : Type} (fields : Fields T) (ps : List MapPair) (x : T) (t : Bytes) : Prop :=
  MapBytes ps t ∧ Sorted ps ∧ fields.Of ps x

theorem from_cursor_mapped {T : Type} {fields : Fields T} {f : T → MapPair → Cursor T}
    (hf : Takes f fun x p x' => fields.each (FieldStep p) x x') :
    Parses (ParsedMap.from_cursor f fields.empty)
      (fun out t => Mapped fields out.1.pairs out.2 t) (2 ^ 32) :=
  (ParsedMap.from_cursor_parses hf fields.empty).congr fun _ _ _ =>
    and_congr_right fun _ => and_congr_right fun hsorted => fields.steps_empty hsorted

theorem Input.from_cursor_parses : Parses Input.from_cursor
    (fun i t => Mapped inputFields i.map.pairs i.toInputFields t) (2 ^ 32) := by
  refine Parses.congr ((from_cursor_mapped InputFields.read_takes).bind fun _ _ _ =>
    Parses.pure _) fun i t _ => ?_
  constructor
  · intro ⟨out, t₁, _, hmap, ⟨hi, ht₂⟩, ht⟩
    subst hi ht₂ ht
    rwa [List.append_nil]
  · intro h
    exact ⟨(i.map, i.toInputFields), t, [], h, ⟨rfl, rfl⟩, (List.append_nil t).symm⟩

theorem Output.from_cursor_parses : Parses Output.from_cursor
    (fun o t => Mapped outputFields o.map.pairs o.toOutputFields t) (2 ^ 32) := by
  refine Parses.congr ((from_cursor_mapped OutputFields.read_takes).bind fun _ _ _ =>
    Parses.pure _) fun o t _ => ?_
  constructor
  · intro ⟨out, t₁, _, hmap, ⟨ho, ht₂⟩, ht⟩
    subst ho ht₂ ht
    rwa [List.append_nil]
  · intro h
    exact ⟨(o.map, o.toOutputFields), t, [], h, ⟨rfl, rfl⟩, (List.append_nil t).symm⟩

theorem maps_parses {α : Type} {c : Cursor α} {G : α → Bytes → Prop} {n : ℕ} (h : Parses c G n)
    (count : ℕ) : Parses (maps c count)
      (fun xs t => xs.length = count ∧ ∃ ts, List.Forall₂ G xs ts ∧ t = ts.flatten) n := by
  induction count with
  | zero =>
      refine (Parses.pure []).congr fun xs t _ => ?_
      rw [List.length_eq_zero_iff]
      refine and_congr_right fun hxs => ?_
      subst hxs
      simp
  | succ count ih =>
      refine Parses.congr (h.bind fun _ _ _ => ih.bind fun _ _ _ => Parses.pure _)
        fun xs t _ => ?_
      constructor
      · intro ⟨x, t₁, _, hx, ⟨xs, _, _, ⟨hlen, ts, hts, h₁⟩, ⟨hxs, h₂⟩, h₃⟩, h₄⟩
        subst h₁ h₂ h₃ h₄ hxs
        refine ⟨by rw [List.length_cons, hlen], t₁ :: ts, .cons hx hts, ?_⟩
        rw [List.append_nil, List.flatten_cons]
      · intro ⟨hlen, ts, hts, ht⟩
        cases hts with
        | nil => cases hlen
        | cons hx hxs =>
            rw [List.flatten_cons] at ht
            exact ⟨_, _, _, hx, ⟨_, _, [], ⟨Nat.succ.inj hlen, _, hxs, rfl⟩, ⟨rfl, rfl⟩,
              (List.append_nil _).symm⟩, ht⟩

theorem steps_and {T : Type} {C : MapPair → Prop} {R : T → MapPair → T → Prop} {x x' : T}
    {ps : List MapPair} :
    Steps (fun x p x' => C p ∧ R x p x') x ps x' ↔ (∀ p ∈ ps, C p) ∧ Steps R x ps x' := by
  induction ps generalizing x with
  | nil => simp [Steps]
  | cons p ps ih =>
      simp only [Steps, ih, List.forall_mem_cons]
      constructor
      · intro ⟨y, ⟨hp, hR⟩, hps, hsteps⟩
        exact ⟨⟨hp, hps⟩, y, hR, hsteps⟩
      · intro ⟨⟨hp, hps⟩, y, hR, hsteps⟩
        exact ⟨y, ⟨hp, hR⟩, hps, hsteps⟩

theorem scan_eq_none {ps : List MapPair} {t : U8} :
    scan ps t [] = none ↔ ∀ p ∈ ps, ¬ (p.key_data = [] ∧ p.key_type = t) := by
  rw [scan, Option.map_eq_none_iff, List.find?_eq_none]
  simp [and_comm]

theorem global_map_parses : Parses (ParsedMap.from_cursor GlobalFields.read {})
    (fun out t => Mapped globalFields out.1.pairs out.2 t ∧
      scan out.1.pairs PSBT_GLOBAL_UNSIGNED_TX [] = none) (2 ^ 32) := by
  refine (ParsedMap.from_cursor_parses GlobalFields.read_takes _).congr fun out t _ => ?_
  rw [steps_and, ← scan_eq_none, Mapped, and_assoc, and_assoc]
  refine and_congr_right fun _ => and_congr_right fun hsorted => ?_
  rw [and_comm]
  exact and_congr_left fun _ => globalFields.steps_empty hsorted

/-! ## PSBTs -/

/-- The text of a PSBT, and what is taken out of it. -/
structure Describes (psbt : Psbt) (t : Bytes) : Prop where
  bytes : ∃ g ins outs, t = g ++ ins.flatten ++ outs.flatten ∧
    Mapped globalFields psbt.global_map.pairs
      { tx_version := psbt.tx_version, fallback_locktime := psbt.fallback_locktime
        n_inputs := psbt.inputs.length, n_outputs := psbt.outputs.length
        tx_modifiable := psbt.tx_modifiable, psbt_version := psbt.version } g ∧
    List.Forall₂ (fun i t => Mapped inputFields i.map.pairs i.toInputFields t) psbt.inputs ins ∧
    List.Forall₂ (fun o t => Mapped outputFields o.map.pairs o.toOutputFields t) psbt.outputs outs
  unsigned_tx : scan psbt.global_map.pairs PSBT_GLOBAL_UNSIGNED_TX [] = none
  version : psbt.version = 2

theorem MapBytes.length_pos {ps : List MapPair} {t : Bytes} (h : MapBytes ps t) : 0 < t.length := by
  cases h with
  | nil _ h => exact h.length_pos
  | cons p ps t ts h hs =>
      obtain ⟨n, v, hn, -, rfl⟩ := h
      have := hn.length_pos
      simp only [List.length_append]
      omega

/-- There are not more maps than bytes. -/
theorem length_le_flatten {α : Type} {G : α → Bytes → Prop} (hG : ∀ x t, G x t → 0 < t.length)
    {xs : List α} {ts : List Bytes} (h : List.Forall₂ G xs ts) :
    xs.length ≤ ts.flatten.length := by
  induction h with
  | nil => exact Nat.zero_le _
  | cons hx _ ih =>
      have := hG _ _ hx
      rw [List.length_cons, List.flatten_cons, List.length_append]
      omega

theorem Psbt.from_cursor_parses : Parses Psbt.from_cursor Describes (2 ^ 32) := by
  unfold Psbt.from_cursor
  refine Parses.congr (global_map_parses.bind fun out _ _ =>
    Parses.orElse_bind fun n_inputs _ => Parses.orElse_bind fun n_outputs _ =>
      Parses.orElse_bind fun psbt_version _ => Parses.orElse_bind fun tx_version _ =>
        Parses.reject_bind fun _ => Parses.orElse_bind fun inputs_count _ =>
          Parses.orElse_bind fun outputs_count _ =>
            (maps_parses Input.from_cursor_parses inputs_count).bind fun inputs _ _ =>
              (maps_parses Output.from_cursor_parses outputs_count).bind fun outputs _ _ =>
                Parses.pure _) fun psbt t ht => ?_
  constructor
  · intro ⟨⟨map, g⟩, t₁, _, ⟨hmap, hunsigned⟩, ⟨n_inputs, h₁, n_outputs, h₂, version, h₃, tx_version,
      h₄, hversion, inputs_count, h₅, outputs_count, h₆, inputs, _, _, ⟨hilen, ins, hins, k₁⟩,
      ⟨outputs, _, _, ⟨holen, outs, houts, k₂⟩, ⟨hpsbt, k₃⟩, k₄⟩, k₅⟩, k₆⟩
    obtain ⟨_, _, _, _, _, _⟩ := g
    rw [(Cursor.to_usize_eq_some.mp h₅).2] at hilen
    rw [(Cursor.to_usize_eq_some.mp h₆).2] at holen
    simp only at h₁ h₂ h₃ h₄
    subst h₁ h₂ h₃ h₄ hpsbt k₁ k₂ k₃ k₄ k₅ k₆ hilen holen
    refine ⟨⟨t₁, ins, outs, ?_, hmap, hins, houts⟩, hunsigned, not_not.mp hversion⟩
    rw [List.append_nil, List.append_assoc]
  · intro ⟨⟨g, ins, outs, hbytes, hmap, hins, houts⟩, hunsigned, hversion⟩
    have hi := length_le_flatten (fun _ _ h => h.1.length_pos) hins
    have ho := length_le_flatten (fun _ _ h => h.1.length_pos) houts
    have hlen := congrArg List.length hbytes
    rw [List.length_append, List.length_append] at hlen
    refine ⟨(psbt.global_map, _), g, ins.flatten ++ outs.flatten, ⟨hmap, hunsigned⟩,
      ⟨psbt.inputs.length, rfl, psbt.outputs.length, rfl, psbt.version, rfl, psbt.tx_version, rfl,
        not_not.mpr hversion, psbt.inputs.length, Cursor.to_usize_eq_some.mpr ⟨by omega, rfl⟩,
        psbt.outputs.length, Cursor.to_usize_eq_some.mpr ⟨by omega, rfl⟩, psbt.inputs, _, _,
        ⟨rfl, ins, hins, rfl⟩, ⟨psbt.outputs, _, _, ⟨rfl, outs, houts, rfl⟩, ⟨rfl, rfl⟩,
          (List.append_nil _).symm⟩, rfl⟩, ?_⟩
    rw [hbytes, List.append_assoc]

namespace Psbt

/-- All the maps, in the order of the text. -/
def all_maps (psbt : Psbt) : List ParsedMap :=
  psbt.global_map :: (psbt.inputs.map Input.map ++ psbt.outputs.map Output.map)

theorem parse_of_magic (body : Bytes) :
    parse (MAGIC ++ body) = (do
      let psbt ← from_cursor
      let rest ← Exec.get
      Exec.reject (rest ≠ []) .unexpectedEof
      pure psbt) body := by
  have hmagic : ¬ ((MAGIC ++ body).length < MAGIC.length ∨ (MAGIC ++ body).take 5 ≠ MAGIC) := by
    rw [not_or, not_not, List.length_append, show 5 = MAGIC.length from rfl, List.take_left]
    exact ⟨by omega, rfl⟩
  unfold parse
  rw [Exec.bind_apply_ok (Exec.get_apply _), Exec.reject_bind_neg hmagic,
    Exec.bind_apply_ok (Exec.set_apply _ _), List.drop_left]

theorem parse_of_not_magic {raw : Bytes} (h : ∀ body, raw ≠ MAGIC ++ body) :
    parse raw = .err .invalidMagic raw := by
  have hmagic : raw.length < MAGIC.length ∨ raw.take 5 ≠ MAGIC := by
    by_contra hno
    rw [not_or, not_not] at hno
    exact h (raw.drop 5) (by rw [← hno.2, List.take_append_drop])
  unfold parse
  rw [Exec.bind_apply_ok (Exec.get_apply _), Exec.reject_bind_pos hmagic]

/-- Nothing is left over. -/
theorem finish_ok {psbt psbt' : Psbt} {s r : Bytes} :
    (do
      let rest ← Exec.get
      Exec.reject (rest ≠ []) .unexpectedEof
      pure psbt : Cursor Psbt) s = .ok psbt' r ↔ psbt' = psbt ∧ s = [] ∧ r = [] := by
  rw [Exec.bind_apply_ok (Exec.get_apply s), Exec.reject_bind_ok, not_not, Exec.pure_apply]
  constructor
  · intro ⟨hs, h⟩
    cases h
    exact ⟨rfl, hs, hs⟩
  · intro ⟨hpsbt, hs, hr⟩
    rw [hpsbt, hs, hr]
    exact ⟨rfl, rfl⟩

theorem parse_ends {raw : Bytes} (hraw : raw.length < 2 ^ 32) (w : Stop) (r : Bytes) :
    parse raw ≠ .stop w r := by
  by_cases hmagic : ∃ body, raw = MAGIC ++ body
  · obtain ⟨body, rfl⟩ := hmagic
    rw [List.length_append] at hraw
    have hbody : body.length < 2 ^ 32 := by omega
    rw [parse_of_magic]
    cases h : from_cursor body with
    | ok psbt s =>
        rw [Exec.bind_apply_ok h, Exec.bind_apply_ok (Exec.get_apply s)]
        by_cases hs : s ≠ []
        · rw [Exec.reject_bind_pos hs]
          simp
        · rw [Exec.reject_bind_neg hs]
          simp
    | err e s =>
        rw [Exec.bind_apply_err h]
        simp
    | stop w' s => exact (from_cursor_parses.ends hbody w' s h).elim
  · rw [parse_of_not_magic (not_exists.mp hmagic)]
    simp

theorem parse_ok {raw : Bytes} (hraw : raw.length < 2 ^ 32) {psbt : Psbt} {r : Bytes} :
    parse raw = .ok psbt r ↔ r = [] ∧ ∃ body, raw = MAGIC ++ body ∧ Describes psbt body := by
  by_cases hmagic : ∃ body, raw = MAGIC ++ body
  · obtain ⟨body, rfl⟩ := hmagic
    rw [List.length_append] at hraw
    have hbody : body.length < 2 ^ 32 := by omega
    rw [parse_of_magic, Exec.bind_ok]
    simp only [finish_ok, List.append_cancel_left_eq, exists_eq_left']
    constructor
    · intro ⟨psbt', s, h, hpsbt, hs, hr⟩
      subst hpsbt hs hr
      obtain ⟨t, ht, hst⟩ := (from_cursor_parses.ok hbody).mp h
      rw [hst, List.append_nil]
      exact ⟨rfl, ht⟩
    · intro ⟨hr, h⟩
      exact ⟨psbt, [], (from_cursor_parses.ok hbody).mpr ⟨body, h, (List.append_nil _).symm⟩,
        rfl, rfl, hr⟩
  · rw [parse_of_not_magic (not_exists.mp hmagic)]
    constructor
    · intro h
      cases h
    · intro ⟨_, body, hbody, _⟩
      exact (hmagic ⟨body, hbody⟩).elim

theorem sorted_of_mem_maps {psbt : Psbt} {t : Bytes} (h : Describes psbt t) {map : ParsedMap}
    (hmap : map ∈ psbt.all_maps) : Sorted map.pairs := by
  obtain ⟨g, ins, outs, -, hg, hins, houts⟩ := h.bytes
  have hinputs : ∀ i ∈ psbt.inputs, Sorted i.map.pairs :=
    ((List.forall₂_and_left _ _).mp (hins.imp fun i t h => ⟨h.2.1, h⟩)).1
  have houtputs : ∀ o ∈ psbt.outputs, Sorted o.map.pairs :=
    ((List.forall₂_and_left _ _).mp (houts.imp fun o t h => ⟨h.2.1, h⟩)).1
  rcases List.mem_cons.mp hmap with rfl | hmap
  · exact hg.2.1
  · rcases List.mem_append.mp hmap with hmap | hmap
    · obtain ⟨i, hi, rfl⟩ := List.mem_map.mp hmap
      exact hinputs i hi
    · obtain ⟨o, ho, rfl⟩ := List.mem_map.mp hmap
      exact houtputs o ho

/-- The parser always ends. It accepts the texts of PSBTs and nothing else, and gives what
they describe. Lookups in a map that was read find what scans of it find. A slice is
shorter than the address space that it lies in. -/
theorem parse_exact (raw : Bytes) (hraw : raw.length < 2 ^ 32) :
    (∀ w r, parse raw ≠ .stop w r) ∧
    (∀ psbt r, parse raw = .ok psbt r ↔
      r = [] ∧ ∃ body, raw = MAGIC ++ body ∧ Describes psbt body) ∧
    ∀ psbt r, parse raw = .ok psbt r → ∀ map ∈ psbt.all_maps, ∀ key_type : U8,
      (∀ key_data, map.get key_type key_data = scan map.pairs key_type key_data) ∧
        map.iter_keys key_type = map.pairs.filter fun p => p.key_type = key_type := by
  refine ⟨parse_ends hraw, fun psbt r => parse_ok hraw, fun psbt r h map hmap key_type => ?_⟩
  obtain ⟨-, body, -, hdescribes⟩ := (parse_ok hraw).mp h
  have hsorted := sorted_of_mem_maps hdescribes hmap
  exact ⟨ParsedMap.get_eq_scan hsorted key_type, ParsedMap.iter_keys_eq_filter hsorted key_type⟩

/-- One input with an empty map, whose end is written as a longer number than needed. -/
def shortest : Bytes :=
  MAGIC ++ [0x01, 0x02, 0x04, 0x02, 0x00, 0x00, 0x00, 0x01, 0x04, 0x01, 0x01,
    0x01, 0x05, 0x01, 0x00, 0x01, 0xfb, 0x04, 0x02, 0x00, 0x00, 0x00, 0x00] ++ [0xfd, 0x00, 0x00]

theorem parse_exact_shortest : ∃ psbt body, shortest = MAGIC ++ body ∧ Describes psbt body ∧
    ∀ map ∈ psbt.all_maps, ∀ key_type key_data,
      map.get key_type key_data = scan map.pairs key_type key_data := by
  have hexact := parse_exact shortest (by decide)
  have hparse : ∃ psbt, parse shortest = .ok psbt [] := ⟨_, rfl⟩
  obtain ⟨psbt, h⟩ := hparse
  obtain ⟨-, body, hbody, hdescribes⟩ := (hexact.2.1 psbt []).mp h
  exact ⟨psbt, body, hbody, hdescribes, fun map hmap t => (hexact.2.2 psbt [] h map hmap t).1⟩

end Psbt

end Vanadium.Bitcoin
