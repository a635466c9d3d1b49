import Vanadium.Lib.LittleEndian
import Vanadium.Vm.Crypto

/-!
# AES in counter mode

The cipher XORs a message with the encryptions of successive counter blocks, so
that its two directions are the same and it fails only where the block function
does. It is only as good as its counters: a block that is encrypted twice gives
two pieces of text the same key. The upper twelve bytes of a counter block are
the number of the message and the lower four the number of the block in it, and
neither carries into the other as long as both are small enough.
-/

namespace Vanadium

open Lib

namespace AesCtr

/-! ## The stream -/

/-- The keystream of `blocks` blocks. -/
def keystream (key : AesKey) : ℕ → Vector U8 16 → Option Bytes
  | 0, _ => some []
  | blocks + 1, counter =>
      match key.encrypt_block counter with
      | none => none
      | some k => (keystream key blocks (increment_be_slice counter)).map (k.toList ++ ·)

theorem keystream_length {key : AesKey} :
    ∀ {blocks : ℕ} {counter : Vector U8 16} {ks : Bytes},
      keystream key blocks counter = some ks → ks.length = 16 * blocks := by
  intro blocks
  induction blocks with
  | zero => intro counter ks h; cases h; rfl
  | succ blocks ih =>
      intro counter ks h
      rw [keystream] at h
      split at h
      · cases h
      · obtain ⟨ks', h', rfl⟩ := Option.map_eq_some_iff.mp h
        rw [List.length_append, ih h', Vector.length_toList]
        omega

/-- The chunk loop XORs the keystream into the input. -/
theorem loop_eq {key : AesKey} :
    ∀ {blocks : ℕ} {input : Bytes} {counter : Vector U8 16} {output : Bytes},
      input.length ≤ 16 * blocks →
      process_with_counter.loop key blocks input counter output =
        (keystream key blocks counter).map fun ks =>
          output ++ List.zipWith (· ^^^ ·) input ks := by
  intro blocks
  induction blocks with
  | zero =>
      intro input counter output h
      have : input = [] := List.length_eq_zero_iff.mp (by omega)
      simp [process_with_counter.loop, keystream, this]
  | succ blocks ih =>
      intro input counter output h
      rw [process_with_counter.loop, keystream]
      cases key.encrypt_block counter with
      | none => rfl
      | some k =>
          simp only
          rw [ih (by rw [List.length_drop]; omega), Option.map_map]
          congr 1
          funext ks
          have hz : List.zipWith (· ^^^ ·) input (k.toList ++ ks) =
              List.zipWith (· ^^^ ·) (input.take 16) k.toList ++
                List.zipWith (· ^^^ ·) (input.drop 16) ks := by
            by_cases hlen : input.length ≤ 16
            · rw [List.take_of_length_le hlen, List.drop_of_length_le hlen,
                List.zipWith_nil_left, List.append_nil]
              refine List.ext_getElem? fun j => ?_
              rw [List.getElem?_zipWith, List.getElem?_zipWith]
              by_cases hj : j < 16
              · rw [List.getElem?_append_left (by simpa using hj)]
              · rw [List.getElem?_eq_none (l := input) (by omega)]
            · conv_lhs => rw [← List.take_append_drop 16 input]
              rw [List.zipWith_append (by simp; omega)]
          simp [Function.comp, hz]

theorem zipWith_xor_self : ∀ {a ks : Bytes}, a.length ≤ ks.length →
    List.zipWith (· ^^^ ·) (List.zipWith (· ^^^ ·) a ks) ks = a := by
  intro a
  induction a with
  | nil => intro ks _; rfl
  | cons b a ih =>
      intro ks h
      cases ks with
      | nil => simp at h
      | cons k ks =>
          rw [List.zipWith_cons_cons, List.zipWith_cons_cons,
            ih (by simpa using h), BitVec.xor_assoc, BitVec.xor_self, BitVec.xor_zero]

/-- What was encrypted is what is decrypted, whatever the nonce has become. -/
theorem decrypt_encrypt {aes : AesCtr} {plaintext payload : Bytes}
    {nonce : Vector U8 12} (h : (aes.encrypt plaintext).1 = some (nonce, payload)) :
    (AesCtr.new aes.key).decrypt nonce payload = some plaintext ∧
      payload.length = plaintext.length := by
  obtain ⟨c, hc, he⟩ := Option.map_eq_some_iff.mp h
  obtain ⟨rfl, rfl⟩ := Prod.mk.inj he
  unfold process_with_counter at hc
  split at hc
  · next hemp =>
      cases hc
      have : plaintext = [] := List.isEmpty_iff.mp hemp
      subst this
      exact ⟨rfl, rfl⟩
  · next hemp =>
      rw [loop_eq (by omega)] at hc
      obtain ⟨ks, hks, rfl⟩ := Option.map_eq_some_iff.mp hc
      have hlen : plaintext.length ≤ ks.length := by rw [keystream_length hks]; omega
      have hl : (List.zipWith (· ^^^ ·) plaintext ks).length = plaintext.length := by
        rw [List.length_zipWith]; omega
      refine ⟨?_, by rw [List.nil_append, hl]⟩
      rw [List.nil_append, decrypt, process_with_counter, if_neg, hl, loop_eq (by omega),
        new, hks, Option.map_some, List.nil_append, zipWith_xor_self hlen]
      rw [List.isEmpty_iff, ← List.length_eq_zero_iff, hl, List.length_eq_zero_iff,
        ← List.isEmpty_iff]
      exact hemp

/-- Where the block function does not fail, nor does the cipher. -/
theorem process_with_counter_total {key : AesKey} (h : ∀ b, (key.encrypt_block b).isSome)
    (input : Bytes) (counter : Vector U8 16) :
    ∃ output, process_with_counter key input counter = some output ∧
      output.length = input.length := by
  have hks : ∀ (blocks : ℕ) (counter : Vector U8 16), ∃ ks, keystream key blocks counter = some ks := by
    intro blocks
    induction blocks with
    | zero => exact fun _ => ⟨[], rfl⟩
    | succ blocks ih =>
        intro counter
        obtain ⟨k, hk⟩ := Option.isSome_iff_exists.mp (h counter)
        obtain ⟨ks, hks⟩ := ih (increment_be_slice counter)
        exact ⟨k.toList ++ ks, by rw [keystream, hk, hks]; rfl⟩
  rw [process_with_counter]
  split
  · next hemp =>
      exact ⟨[], rfl, by rw [List.isEmpty_iff.mp hemp]⟩
  · obtain ⟨ks, hks⟩ := hks ((input.length + 15) / 16) counter
    refine ⟨List.zipWith (· ^^^ ·) input ks, ?_, ?_⟩
    · rw [loop_eq (by omega), hks, Option.map_some, List.nil_append]
    · rw [List.length_zipWith, keystream_length hks]
      omega

/-! ## The blocks that are encrypted -/

/-- The counter blocks of a message, from its first one on. -/
def counters : ℕ → Vector U8 16 → List (Vector U8 16)
  | 0, _ => []
  | blocks + 1, counter => counter :: counters blocks (increment_be_slice counter)

theorem keystream_eq {key : AesKey} : ∀ {blocks : ℕ} {counter : Vector U8 16},
    keystream key blocks counter =
      ((counters blocks counter).mapM key.encrypt_block).map (·.flatMap Vector.toList) := by
  intro blocks
  induction blocks with
  | zero => intro counter; rfl
  | succ blocks ih =>
      intro counter
      rw [keystream, counters, List.mapM_cons, ih]
      cases key.encrypt_block counter with
      | none => rfl
      | some k =>
          cases (counters blocks (increment_be_slice counter)).mapM key.encrypt_block <;> rfl

/-- The blocks that are encrypted for a message. -/
def blocks (aes : AesCtr) (m : Bytes) : List (Vector U8 16) :=
  counters ((m.length + 15) / 16) (create_counter_block aes.nonce 0)

/-- The blocks of a message are encrypted one after the other, until one of them fails,
and nothing else is. -/
theorem encrypt_eq (aes : AesCtr) (m : Bytes) :
    (aes.encrypt m).1 = ((aes.blocks m).mapM aes.key.encrypt_block).map fun ks =>
      (aes.nonce, List.zipWith (· ^^^ ·) m (ks.flatMap Vector.toList)) := by
  rw [encrypt, process_with_counter, blocks]
  by_cases hemp : m.isEmpty
  · rw [List.isEmpty_iff.mp hemp]
    rfl
  · rw [if_neg hemp, loop_eq (by omega), keystream_eq, Option.map_map, Option.map_map]
    rfl

/-- The blocks of the messages of a history, in the order in which they are encrypted. -/
def historyBlocks : AesCtr → List Bytes → List (Vector U8 16)
  | _, [] => []
  | aes, m :: ms => aes.blocks m ++ historyBlocks (aes.encrypt m).2 ms

/-! ## Counters as numbers -/

/-- The number that a big-endian counter holds. -/
def value {n : ℕ} (counter : Vector U8 n) : ℕ := LittleEndian.read counter.toList.reverse

theorem go_length (l : Bytes) : (increment_be_slice.go l).length = l.length := by
  induction l with
  | nil => rfl
  | cons b l ih =>
      rw [increment_be_slice.go]
      split <;> simp [ih]

/-- The carry runs through all the bytes. -/
theorem read_go (l : Bytes) :
    LittleEndian.read (increment_be_slice.go l) = (LittleEndian.read l + 1) % 256 ^ l.length := by
  induction l with
  | nil => rfl
  | cons b l ih =>
      have hlt := LittleEndian.read_lt (b :: l)
      rw [LittleEndian.read_cons, List.length_cons] at hlt
      have hb := b.isLt
      rw [increment_be_slice.go, LittleEndian.read_cons, List.length_cons]
      by_cases hcarry : b + 1 = 0
      · have hb255 : b.toNat = 255 := by bv_omega
        have hzero : (b + 1).toNat = 0 := by rw [hcarry]; rfl
        have hsucc : 255 + 256 * LittleEndian.read l + 1 = 256 * (LittleEndian.read l + 1) := by
          omega
        rw [if_neg (not_not.mpr hcarry), LittleEndian.read_cons, ih, hzero, hb255, hsucc,
          Nat.pow_succ', Nat.mul_mod_mul_left, Nat.zero_add]
      · have hnot : b.toNat + 1 < 256 := by bv_omega
        have hsucc : (b + 1).toNat = b.toNat + 1 := by bv_omega
        have hle := LittleEndian.read_lt l
        rw [Nat.pow_succ'] at hlt ⊢
        rw [if_pos hcarry, LittleEndian.read_cons, hsucc, Nat.mod_eq_of_lt (by omega)]
        omega

theorem value_lt {n : ℕ} (counter : Vector U8 n) : value counter < 256 ^ n := by
  have h := LittleEndian.read_lt counter.toList.reverse
  rwa [List.length_reverse, Vector.length_toList] at h

theorem value_increment {n : ℕ} (counter : Vector U8 n) :
    value (increment_be_slice counter) = (value counter + 1) % 256 ^ n := by
  have hlen : (increment_be_slice.go counter.toList.reverse).reverse.length = n := by
    rw [List.length_reverse, go_length, List.length_reverse, Vector.length_toList]
  rw [value, increment_be_slice, array_toList_of_length hlen, List.reverse_reverse, read_go,
    List.length_reverse, Vector.length_toList]
  rfl

theorem value_new (key : AesKey) : value (new key).nonce = 0 := by
  rw [value, new, Vector.toList_replicate]
  rfl

theorem value_create (nonce : Vector U8 12) :
    value (create_counter_block nonce 0) = 2 ^ 32 * value nonce := by
  have hlen : (nonce.toList ++ to_be_bytes 0).length = 16 := by
    rw [List.length_append, Vector.length_toList]
    rfl
  have hzero : to_be_bytes 0 = [0, 0, 0, 0] := by decide
  rw [value, create_counter_block, array_toList_of_length hlen, List.reverse_append, hzero, value]
  simp [LittleEndian.read_cons]
  omega

/-- The counters of a message count up from the first one. -/
theorem value_counters : ∀ {blocks : ℕ} {counter : Vector U8 16},
    value counter + blocks ≤ 256 ^ 16 →
      (counters blocks counter).map value = (List.range blocks).map (value counter + ·) := by
  intro blocks
  induction blocks with
  | zero => intro counter _; rfl
  | succ blocks ih =>
      intro counter h
      rw [counters, List.map_cons, List.range_succ_eq_map, List.map_cons, List.map_map]
      congr 1
      cases blocks with
      | zero => rfl
      | succ blocks =>
          have hnext : value (increment_be_slice counter) = value counter + 1 := by
            rw [value_increment, Nat.mod_eq_of_lt (by omega)]
          rw [ih (by omega), hnext]
          refine List.map_congr_left fun j _ => ?_
          simp only [Function.comp]
          omega

/-- The counters of one message are different, and all of them have its nonce. -/
theorem value_blocks {aes : AesCtr} {m : Bytes} (hm : (m.length + 15) / 16 < 2 ^ 32) :
    (aes.blocks m).Nodup ∧ ∀ b ∈ aes.blocks m, value b / 2 ^ 32 = value aes.nonce := by
  have hnonce := value_lt aes.nonce
  have hmap : (aes.blocks m).map value =
      (List.range ((m.length + 15) / 16)).map (2 ^ 32 * value aes.nonce + ·) := by
    rw [blocks, value_counters (by rw [value_create]; omega), value_create]
  refine ⟨.of_map value ?_, fun b hb => ?_⟩
  · rw [hmap]
    exact List.nodup_range.map fun _ _ h => Nat.add_left_cancel h
  · have hmem := List.mem_map_of_mem (f := value) hb
    rw [hmap] at hmem
    obtain ⟨j, hj, hv⟩ := List.mem_map.mp hmem
    have := List.mem_range.mp hj
    omega

/-- In a history that does not exhaust the nonces, the later messages have later ones. -/
theorem value_historyBlocks : ∀ {ms : List Bytes} {aes : AesCtr},
    value aes.nonce + ms.length < 2 ^ 96 → (∀ m ∈ ms, (m.length + 15) / 16 < 2 ^ 32) →
      (aes.historyBlocks ms).Nodup ∧
        ∀ b ∈ aes.historyBlocks ms, value aes.nonce ≤ value b / 2 ^ 32 := by
  intro ms
  induction ms with
  | nil => intro aes _ _; simp [historyBlocks]
  | cons m ms ih =>
      intro aes hlen hms
      rw [List.length_cons] at hlen
      have hnext : value (aes.encrypt m).2.nonce = value aes.nonce + 1 := by
        rw [encrypt, value_increment, Nat.mod_eq_of_lt (by omega)]
      obtain ⟨hnodup, hnonce⟩ := @value_blocks aes m (hms m (by simp))
      obtain ⟨hnodup', hnonce'⟩ := @ih (aes.encrypt m).2 (by rw [hnext]; omega)
        fun m hm => hms m (List.mem_cons_of_mem _ hm)
      rw [hnext] at hnonce'
      rw [historyBlocks, List.nodup_append]
      refine ⟨⟨hnodup, hnodup', ?_⟩, ?_⟩
      · intro b hb b' hb' hbb
        have h₁ := hnonce b hb
        have h₂ := hnonce' b' hb'
        rw [← hbb, h₁] at h₂
        omega
      · intro b hb
        rcases List.mem_append.mp hb with hb | hb
        · exact (hnonce b hb).ge
        · exact (Nat.le_succ _).trans (hnonce' b hb)

/-- No block is encrypted twice in a history of encryptions, and every message is decrypted
from what its encryption gave, whatever the nonce was and has become. -/
theorem no_block_twice (key : AesKey) (ms : List Bytes) (hlen : ms.length < 2 ^ 96)
    (hms : ∀ m ∈ ms, (m.length + 15) / 16 < 2 ^ 32) :
    ((new key).historyBlocks ms).Nodup ∧
      (∀ (aes : AesCtr) (m : Bytes), aes.key = key →
        (aes.encrypt m).1 = ((aes.blocks m).mapM key.encrypt_block).map fun ks =>
          (aes.nonce, List.zipWith (· ^^^ ·) m (ks.flatMap Vector.toList))) ∧
      ∀ (aes aes' : AesCtr) (m : Bytes) (nonce : Vector U8 12) (c : Bytes), aes.key = key →
        aes'.key = key → (aes.encrypt m).1 = some (nonce, c) → aes'.decrypt nonce c = some m := by
  refine ⟨?_, ?_, ?_⟩
  · exact (value_historyBlocks (by rw [value_new, Nat.zero_add]; exact hlen) hms).1
  · intro aes m hkey
    rw [← hkey]
    exact encrypt_eq aes m
  · intro aes aes' m nonce c hkey hkey' h
    have hdec := (decrypt_encrypt h).1
    rw [decrypt, new, hkey] at hdec
    rw [decrypt, hkey']
    exact hdec

theorem no_block_twice_two :
    ((new ⟨some⟩).historyBlocks [[0x61], [0x62, 0x63]]).Nodup :=
  (no_block_twice ⟨some⟩ [[0x61], [0x62, 0x63]] (by decide) (by decide)).1

end AesCtr

end Vanadium
