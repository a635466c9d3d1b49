import Vanadium.AppSdk.BigNum

/-!
# What additions and subtractions of big numbers compute

The value of an array is that of its bytes read from the last one on. Each loop is
carried by one equation between values, in which the bytes that were not looked at
yet cancel out: what was written so far and the carry make up for what was added. At
the end only the carry out of the first byte is lost.

The assigning forms read and write the same array. They only write where they have
read already.
-/

namespace Vanadium.AppSdk.BigNum

open Lib

variable {N : ℕ}

/-! ## Values -/

/-- The number that the bytes from index `i` on represent. -/
def low (v : Vector U8 N) (i : ℕ) : ℕ := LittleEndian.read (v.toList.drop i).reverse

/-- The number that a big-endian array represents. -/
def value (a : BigNum N) : ℕ := low a.buffer 0

theorem low_end (v : Vector U8 N) : low v N = 0 := by
  rw [low, List.drop_of_length_le (by simp)]
  rfl

theorem read_concat (bytes : List U8) (b : U8) :
    LittleEndian.read (bytes ++ [b]) = LittleEndian.read bytes + 256 ^ bytes.length * b.toNat := by
  induction bytes with
  | nil => simp [LittleEndian.read]
  | cons c bytes ih =>
      rw [List.cons_append, LittleEndian.read_cons, LittleEndian.read_cons, ih, List.length_cons]
      ring

theorem low_eq (v : Vector U8 N) {i : ℕ} (hi : i < N) :
    low v i = low v (i + 1) + 256 ^ (N - (i + 1)) * v[i].toNat := by
  have hdrop : v.toList.drop i = v[i] :: v.toList.drop (i + 1) := by
    rw [List.drop_eq_getElem_cons (by simpa using hi), Vector.getElem_toList]
  rw [low, hdrop, List.reverse_cons, read_concat, List.length_reverse, List.length_drop,
    Vector.length_toList, low]

theorem low_set (v : Vector U8 N) {i : ℕ} (hi : i < N) (b : U8) :
    low (v.set i b) (i + 1) = low v (i + 1) := by
  rw [low, low, Vector.toList_set, List.drop_set_of_lt (by omega)]

theorem value_lt (a : BigNum N) : value a < 256 ^ N := by
  have h := LittleEndian.read_lt (a.buffer.toList.drop 0).reverse
  rwa [List.length_reverse, List.drop_zero, Vector.length_toList] at h

theorem value_injective : Function.Injective (value : BigNum N → ℕ) := by
  intro a b h
  have hwrite : ∀ v : Vector U8 N, v.toList.reverse = LittleEndian.write N (low v 0) := by
    intro v
    have h := LittleEndian.write_read v.toList.reverse
    rw [List.length_reverse, Vector.length_toList] at h
    rw [low, List.drop_zero, h]
  have hlist : a.buffer.toList.reverse = b.buffer.toList.reverse := by
    rw [hwrite, hwrite]
    exact congrArg _ h
  obtain ⟨a⟩ := a
  obtain ⟨b⟩ := b
  rw [BigNum.mk.injEq]
  exact Vector.toList_inj.mp (List.reverse_injective hlist)

/-! ## Addition -/

/-- What a turn writes, and what it carries. -/
theorem sum_split (x y : U8) {carry : BitVec 16} (hcarry : carry.toNat ≤ 1) :
    ((x.setWidth 16 + y.setWidth 16 + carry).setWidth 8).toNat +
        256 * ((x.setWidth 16 + y.setWidth 16 + carry) >>> 8).toNat =
      x.toNat + y.toNat + carry.toNat ∧
    ((x.setWidth 16 + y.setWidth 16 + carry) >>> 8).toNat ≤ 1 := by
  have hx := x.isLt
  have hy := y.isLt
  have hsum : (x.setWidth 16 + y.setWidth 16 + carry).toNat =
      x.toNat + y.toNat + carry.toNat := by
    rw [BitVec.toNat_add, BitVec.toNat_add, BitVec.toNat_setWidth, BitVec.toNat_setWidth]
    omega
  rw [BitVec.toNat_setWidth, BitVec.toNat_ushiftRight, hsum, Nat.shiftRight_eq_div_pow]
  omega

theorem add_loop (a b : Vector U8 N) {i : ℕ} (hi : i ≤ N) {carry : BitVec 16}
    (hcarry : carry.toNat ≤ 1) (result : Vector U8 N) :
    ∃ out, low (add.loop a b i hi carry result) 0 + out * 256 ^ N + low a i + low b i =
      low result i + 256 ^ (N - i) * carry.toNat + low a 0 + low b 0 := by
  induction i generalizing carry result with
  | zero =>
      refine ⟨carry.toNat, ?_⟩
      rw [add.loop, Nat.sub_zero]
      ring
  | succ i ih =>
      obtain ⟨hsplit, hcarry'⟩ := sum_split a[i] b[i] hcarry
      obtain ⟨out, h⟩ := ih (by omega) hcarry'
        (result.set i ((a[i].setWidth 16 + b[i].setWidth 16 + carry).setWidth 8))
      refine ⟨out, ?_⟩
      rw [@low_eq _ a i (by omega), @low_eq _ b i (by omega),
        @low_eq _ (result.set i _) i (by omega), low_set, Vector.getElem_set_self] at h
      have hpow : 256 ^ (N - i) = 256 ^ (N - (i + 1)) * 256 := by
        rw [← pow_succ]
        congr 1
        omega
      have hscaled := congrArg (256 ^ (N - (i + 1)) * ·) hsplit
      simp only [Nat.mul_add] at hscaled
      rw [hpow, Nat.mul_assoc] at h
      rw [add.loop]
      linarith

theorem value_add (a b : BigNum N) : value (add a b) = (value a + value b) % 256 ^ N := by
  have hzero : (0 : BitVec 16).toNat ≤ 1 := Nat.zero_le 1
  obtain ⟨out, h⟩ := add_loop a.buffer b.buffer le_rfl hzero (Vector.replicate N 0)
  have hlt : low (add a b).buffer 0 < 256 ^ N := value_lt (add a b)
  have hsum : low (add a b).buffer 0 + out * 256 ^ N = low a.buffer 0 + low b.buffer 0 := by
    simpa [low_end, add] using h
  show low (add a b).buffer 0 = (low a.buffer 0 + low b.buffer 0) % 256 ^ N
  rw [← hsum, Nat.add_mul_mod_self_right, Nat.mod_eq_of_lt hlt]

/-- A turn writes where it has read, and all bytes before that are as they were. -/
theorem add_assign_loop (a b : Vector U8 N) {i : ℕ} (hi : i ≤ N) (carry : BitVec 16)
    {buffer result : Vector U8 N} (hbefore : ∀ j (_ : j < N), j < i → buffer[j] = a[j])
    (hafter : ∀ j (_ : j < N), i ≤ j → buffer[j] = result[j]) :
    add_assign.loop b i hi carry buffer = add.loop a b i hi carry result := by
  induction i generalizing carry buffer result with
  | zero => exact Vector.ext fun j hj => hafter j hj (Nat.zero_le j)
  | succ i ih =>
      rw [add_assign.loop, add.loop, hbefore i (by omega) (by omega)]
      refine ih (by omega) _ (fun j hj hlt => ?_) fun j hj hle => ?_
      · rw [Vector.getElem_set_ne _ _ (by omega), hbefore j hj (by omega)]
      · rcases Nat.eq_or_lt_of_le hle with rfl | hlt
        · rw [Vector.getElem_set_self, Vector.getElem_set_self]
        · rw [Vector.getElem_set_ne _ _ (by omega), Vector.getElem_set_ne _ _ (by omega),
            hafter j hj (by omega)]

theorem add_assign_eq (a b : BigNum N) : add_assign a b = add a b :=
  congrArg BigNum.mk (add_assign_loop a.buffer b.buffer le_rfl 0 (fun _ _ _ => rfl)
    fun j hj hle => by omega)

/-! ## Subtraction -/

theorem sub_loop (a b : Vector U8 N) {i : ℕ} (hi : i ≤ N) {borrow : ℤ}
    (hborrow : borrow = 0 ∨ borrow = 1) (result : Vector U8 N) :
    ∃ out : ℤ, (low (sub.loop a b i hi borrow result) 0 : ℤ) + low a i + 256 ^ (N - i) * borrow +
      low b 0 = low result i + low b i + low a 0 + out * 256 ^ N := by
  induction i generalizing borrow result with
  | zero =>
      refine ⟨borrow, ?_⟩
      rw [sub.loop, Nat.sub_zero]
      ring
  | succ i ih =>
      have ha := a[i].isLt
      have hb := b[i].isLt
      have hpow : (256 : ℤ) ^ (N - i) = 256 ^ (N - (i + 1)) * 256 := by
        rw [← pow_succ]
        congr 1
        omega
      -- what is written, and what is borrowed from the next byte
      have hturn : ∀ (digit borrow' : ℤ), 0 ≤ digit → digit < 256 →
          digit + borrow = a[i].toNat - b[i].toNat + 256 * borrow' →
          borrow' = 0 ∨ borrow' = 1 → ∃ out : ℤ,
            (low (sub.loop a b i (by omega) borrow' (result.set i (BitVec.ofInt 8 digit))) 0 : ℤ) +
              low a (i + 1) + 256 ^ (N - (i + 1)) * borrow + low b 0 =
            low result (i + 1) + low b (i + 1) + low a 0 + out * 256 ^ N := by
        intro digit borrow' hpos hlt hsplit hborrow'
        obtain ⟨out, h⟩ := ih (by omega) hborrow' (result.set i (BitVec.ofInt 8 digit))
        refine ⟨out, ?_⟩
        have hdigit : ((BitVec.ofInt 8 digit).toNat : ℤ) = digit := by
          rw [BitVec.toNat_ofInt]
          omega
        rw [@low_eq _ a i (by omega), @low_eq _ b i (by omega),
          @low_eq _ (result.set i _) i (by omega), low_set, Vector.getElem_set_self, hpow] at h
        push_cast at h
        rw [hdigit] at h
        have hscaled := congrArg ((256 : ℤ) ^ (N - (i + 1)) * ·) hsplit
        simp only [mul_add, mul_sub] at hscaled
        linarith
      rw [sub.loop]
      split
      · next hdiff => exact hturn _ 0 hdiff (by omega) (by omega) (.inl rfl)
      · next hdiff => exact hturn _ 1 (by omega) (by omega) (by omega) (.inr rfl)

theorem value_sub (a b : BigNum N) :
    (value (sub a b) : ℤ) = ((value a : ℤ) - value b) % 256 ^ N := by
  obtain ⟨out, h⟩ := sub_loop a.buffer b.buffer le_rfl (.inl rfl) (Vector.replicate N 0)
  have hlt : low (sub a b).buffer 0 < 256 ^ N := value_lt (sub a b)
  have hdiff : (low (sub a b).buffer 0 : ℤ) + low b.buffer 0 =
      low a.buffer 0 + out * 256 ^ N := by
    simpa [low_end, sub] using h
  show (low (sub a b).buffer 0 : ℤ) = (low a.buffer 0 - low b.buffer 0) % 256 ^ N
  have hvalue : (low a.buffer 0 : ℤ) - low b.buffer 0 =
      low (sub a b).buffer 0 + 256 ^ N * (-out) := by linarith
  rw [hvalue, Int.add_mul_emod_self_left, Int.emod_eq_of_lt (by positivity) (by exact_mod_cast hlt)]

theorem sub_assign_loop (a b : Vector U8 N) {i : ℕ} (hi : i ≤ N) (borrow : ℤ)
    {buffer result : Vector U8 N} (hbefore : ∀ j (_ : j < N), j < i → buffer[j] = a[j])
    (hafter : ∀ j (_ : j < N), i ≤ j → buffer[j] = result[j]) :
    sub_assign.loop b i hi borrow buffer = sub.loop a b i hi borrow result := by
  induction i generalizing borrow buffer result with
  | zero => exact Vector.ext fun j hj => hafter j hj (Nat.zero_le j)
  | succ i ih =>
      have hset : ∀ (borrow' : ℤ) (byte : U8),
          sub_assign.loop b i (by omega) borrow' (buffer.set i byte) =
            sub.loop a b i (by omega) borrow' (result.set i byte) := by
        intro borrow' byte
        refine ih (by omega) _ (fun j hj hlt => ?_) fun j hj hle => ?_
        · rw [Vector.getElem_set_ne _ _ (by omega), hbefore j hj (by omega)]
        · rcases Nat.eq_or_lt_of_le hle with rfl | hlt
          · rw [Vector.getElem_set_self, Vector.getElem_set_self]
          · rw [Vector.getElem_set_ne _ _ (by omega), Vector.getElem_set_ne _ _ (by omega),
              hafter j hj (by omega)]
      rw [sub_assign.loop, sub.loop, hbefore i (by omega) (by omega), hset, hset]

theorem sub_assign_eq (a b : BigNum N) : sub_assign a b = sub a b :=
  congrArg BigNum.mk (sub_assign_loop a.buffer b.buffer le_rfl 0 (fun _ _ _ => rfl)
    fun j hj hle => by omega)

theorem sub_add_cancel (a b : BigNum N) : sub (add a b) b = a := by
  refine value_injective (Int.ofNat_inj.mp ?_)
  have hlt : (value a : ℤ) < 256 ^ N := by exact_mod_cast value_lt a
  rw [value_sub, value_add]
  push_cast
  rw [Int.emod_sub_emod, add_sub_cancel_right, Int.emod_eq_of_lt (by positivity) hlt]

/-- All forms compute the sum and the difference of the values, modulo the values that there
are. -/
theorem big_num_exact (N : ℕ) (a b : BigNum N) :
    (value (add a b) = (value a + value b) % 256 ^ N ∧
      add_owned a b = add a b ∧ add_other_owned a b = add a b ∧ add_both_owned a b = add a b ∧
        add_assign a b = add a b) ∧
    ((value (sub a b) : ℤ) = ((value a : ℤ) - value b) % 256 ^ N ∧
      sub_owned a b = sub a b ∧ sub_other_owned a b = sub a b ∧ sub_both_owned a b = sub a b ∧
        sub_assign a b = sub a b) ∧
    sub (add a b) b = a :=
  ⟨⟨value_add a b, rfl, rfl, rfl, add_assign_eq a b⟩,
    ⟨value_sub a b, rfl, rfl, rfl, sub_assign_eq a b⟩, sub_add_cancel a b⟩

end Vanadium.AppSdk.BigNum
