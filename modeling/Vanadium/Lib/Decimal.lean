import Mathlib

/-!
# Decimal numerals

A numeral is a non-empty run of digits without a leading zero, unless it is zero
itself. Every number has exactly one, the one that is printed. A reader that
takes digits as long as there are any reads a printed number back if no digit
comes after it.
-/

namespace Vanadium.Lib.Decimal

structure Numeral (digits : List Char) : Prop where
  digit : ∀ c ∈ digits, c.isDigit = true
  ne_nil : digits ≠ []
  no_leading_zero : digits.head? = some '0' → digits = ['0']

theorem isDigit_toNat {c : Char} (h : c.isDigit = true) : 48 ≤ c.toNat ∧ c.toNat < 58 := by
  have h' : c.val ≥ 48 ∧ c.val ≤ 57 := by simpa [Char.isDigit] using h
  have hlo : (48 : ℕ) ≤ c.val.toNat := h'.1
  have hhi : c.val.toNat ≤ 57 := h'.2
  exact ⟨hlo, Nat.lt_succ_of_le hhi⟩

theorem digitChar_sub {c : Char} (h : c.isDigit = true) :
    Nat.digitChar (c.toNat - '0'.toNat) = c := by
  obtain ⟨hlo, hhi⟩ := isDigit_toNat h
  have hc : c = Char.ofNat c.toNat := (Char.ofNat_toNat c).symm
  generalize c.toNat = k at *
  subst hc
  have : k = 48 ∨ k = 49 ∨ k = 50 ∨ k = 51 ∨ k = 52 ∨ k = 53 ∨ k = 54 ∨ k = 55 ∨ k = 56 ∨
    k = 57 := by omega
  rcases this with rfl | rfl | rfl | rfl | rfl | rfl | rfl | rfl | rfl | rfl <;> rfl

theorem digit_lt {c : Char} (h : c.isDigit = true) : c.toNat - '0'.toNat < 10 := by
  have := (isDigit_toNat h).2
  have h0 : '0'.toNat = 48 := rfl
  omega

theorem digit_pos {c : Char} (h : c.isDigit = true) (h0 : c ≠ '0') : 0 < c.toNat - '0'.toNat := by
  have hlo := (isDigit_toNat h).1
  have hzero : '0'.toNat = 48 := rfl
  have hne : c.toNat ≠ 48 := fun he => h0 (by
    rw [← Char.ofNat_toNat c, he])
  omega

/-- A numeral is the printed form of its value. -/
theorem Numeral.toDigits_ofDigitChars {digits : List Char} (h : Numeral digits) :
    Nat.toDigits 10 (Nat.ofDigitChars 10 digits 0) = digits ∧
      (digits ≠ ['0'] → 0 < Nat.ofDigitChars 10 digits 0) := by
  induction digits using List.reverseRecOn with
  | nil => exact absurd rfl h.ne_nil
  | append_singleton front c ih =>
      have hc : c.isDigit = true := h.digit c (by simp)
      have hval : Nat.ofDigitChars 10 (front ++ [c]) 0 =
          10 * Nat.ofDigitChars 10 front 0 + (c.toNat - '0'.toNat) := by
        rw [Nat.ofDigitChars_append, Nat.ofDigitChars_cons, Nat.ofDigitChars_nil]
      rw [hval]
      cases front with
      | nil =>
          rw [Nat.ofDigitChars_nil, Nat.mul_zero, Nat.zero_add,
            Nat.toDigits_of_lt_base (digit_lt hc), digitChar_sub hc]
          exact ⟨rfl, fun h0 => digit_pos hc fun he => h0 (by rw [he]; rfl)⟩
      | cons c' rest =>
          have hfront : Numeral (c' :: rest) := by
            refine ⟨fun d hd => h.digit d (List.mem_append_left _ hd), List.cons_ne_nil _ _,
              fun h0 => ?_⟩
            have := h.no_leading_zero h0
            simp at this
          have hne : c' :: rest ≠ ['0'] := by
            intro h0
            have := h.no_leading_zero (by rw [h0]; rfl)
            simp at this
          obtain ⟨hdigits, hpos⟩ := ih hfront
          have hpos := hpos hne
          rw [← Nat.toDigits_append_toDigits (by decide) hpos (digit_lt hc), hdigits,
            Nat.toDigits_of_lt_base (digit_lt hc), digitChar_sub hc]
          exact ⟨rfl, fun _ => by omega⟩

theorem head_toDigits {n : ℕ} (h : 0 < n) : (Nat.toDigits 10 n).head? ≠ some '0' := by
  induction n using Nat.strongRecOn with
  | ind n ih =>
      rw [Nat.toDigits_eq_if (by decide)]
      split
      · next hlt =>
          have : n = 1 ∨ n = 2 ∨ n = 3 ∨ n = 4 ∨ n = 5 ∨ n = 6 ∨ n = 7 ∨ n = 8 ∨ n = 9 := by omega
          rcases this with rfl | rfl | rfl | rfl | rfl | rfl | rfl | rfl | rfl <;> decide
      · next hge =>
          rw [List.head?_append_of_ne_nil _ Nat.toDigits_ne_nil]
          exact ih (n / 10) (by omega) (by omega)

/-- A printed number is a numeral. -/
theorem numeral_toDigits (n : ℕ) : Numeral (Nat.toDigits 10 n) where
  digit _ hc := Nat.isDigit_of_mem_toDigits (by decide) (by decide) hc
  ne_nil := Nat.toDigits_ne_nil
  no_leading_zero h := by
    rcases Nat.eq_zero_or_pos n with rfl | hpos
    · exact Nat.toDigits_zero 10
    · exact absurd h (head_toDigits hpos)

/-- A run of digits ends where the first other character stands. -/
theorem takeWhile_append {p : Char → Bool} {front rest : List Char}
    (hfront : ∀ c ∈ front, p c = true) (hrest : ∀ c, rest.head? = some c → p c = false) :
    (front ++ rest).takeWhile p = front ∧ (front ++ rest).dropWhile p = rest := by
  rw [List.takeWhile_append_of_pos hfront, List.dropWhile_append_of_pos hfront]
  cases rest with
  | nil => simp
  | cons c rest =>
      have hc := hrest c rfl
      simp [hc]

end Vanadium.Lib.Decimal
