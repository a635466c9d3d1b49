import Vanadium.Bip388.Grammar
import Vanadium.Lib.Decimal

/-!
# The parser reads the language

Construct by construct: the parser returns a value and a rest if and only if
what it consumed is a text of that value, and panics if and only if reading the
construct cuts a character. Only numbers end where something else begins, so
only for them it matters what comes next.
-/

namespace Vanadium.Bip388

open Lib

/-! ## Tokens -/

section
variable {s s' : Text}

theorem starts_with_iff {p : String} : starts_with p s = true ↔ ∃ t, s = p.toList ++ t := by
  rw [starts_with, List.isPrefixOf_iff_prefix]
  exact ⟨fun ⟨t, h⟩ => ⟨t, h.symm⟩, fun ⟨t, h⟩ => ⟨t, h.symm⟩⟩

@[simp] theorem starts_with_append (p : String) (t : Text) : starts_with p (p.toList ++ t) = true :=
  starts_with_iff.mpr ⟨t, rfl⟩

@[simp] theorem skip_apply (n : ℕ) : skip n s = .ok () (s.drop n) := rfl

theorem skip_append (p : String) (t : Text) : skip p.length (p.toList ++ t) = .ok () t := by
  rw [skip_apply, ← String.length_toList, List.drop_left]

theorem expect_ok {p : String} {u : Unit} : expect p s = .ok u s' ↔ s = p.toList ++ s' := by
  rw [expect, Exec.get_bind, Exec.reject_bind_ok, not_not, starts_with_iff]
  constructor
  · rintro ⟨⟨t, rfl⟩, h⟩
    rw [skip_append] at h
    cases h
    rfl
  · rintro rfl
    exact ⟨⟨s', rfl⟩, skip_append p s'⟩

/-- `s` does not begin with `c`. -/
abbrev Not (c : Char) (s : Text) : Prop := s.head? ≠ some c

/-- `s` does not begin with a digit. -/
def NoDigit (s : Text) : Prop := ∀ c, s.head? = some c → c.isDigit = false

theorem noDigit_cons {c : Char} (h : c.isDigit = false) : NoDigit (c :: s) := by
  intro c' hc
  cases hc
  exact h

theorem any_take_one {p : Char → Bool} : (s.take 1).any p = true ↔ ∃ c, s.head? = some c ∧ p c := by
  cases s with
  | nil => simp
  | cons c s => simp

/-- Numbers are read as they are printed. -/
theorem parse_number_up_to_ok {max num : U32} :
    parse_number_up_to max s = .ok num s' ↔
      s = decimal num ++ s' ∧ num.toNat ≤ max.toNat ∧ NoDigit s' := by
  rw [parse_number_up_to, Exec.get_bind, Exec.reject_bind_ok, Exec.reject_bind_ok,
    Exec.reject_bind_ok, Exec.reject_bind_ok, not_not, any_take_one]
  constructor
  · rintro ⟨⟨c, hc, hdigit⟩, hzero, hlt, hmax, h⟩
    cases h
    have hsplit := List.takeWhile_append_dropWhile (p := Char.isDigit) (l := s)
    have hnum : Decimal.Numeral (s.takeWhile Char.isDigit) := by
      refine ⟨fun d hd => List.mem_takeWhile_imp hd, ?_, fun h0 => ?_⟩
      · cases s with
        | nil => cases hc
        | cons c' s =>
            cases hc
            simp [hdigit]
      · cases s with
        | nil => cases hc
        | cons c' s =>
            cases hc
            rw [List.takeWhile_cons_of_pos hdigit] at h0 ⊢
            cases h0
            have hnext : ¬ (s.take 1).any Char.isDigit = true := fun ha =>
              hzero ⟨starts_with_iff.mpr ⟨s, rfl⟩, ha⟩
            cases s with
            | nil => rfl
            | cons c' s =>
                have hc' : c'.isDigit = false := by simpa using hnext
                simp [hc']
    have hval : (BitVec.ofNat 32 (Nat.ofDigitChars 10 (s.takeWhile Char.isDigit) 0)).toNat =
        Nat.ofDigitChars 10 (s.takeWhile Char.isDigit) 0 := by
      rw [BitVec.toNat_ofNat, Nat.mod_eq_of_lt (by omega)]
    refine ⟨?_, by rw [hval]; omega, fun c hc => ?_⟩
    · rw [decimal, hval, (hnum.toDigits_ofDigitChars).1, hsplit]
    · cases hd : s.dropWhile Char.isDigit with
      | nil => rw [hd] at hc; cases hc
      | cons c' rest =>
          rw [hd] at hc
          cases hc
          simpa [hd] using List.head?_dropWhile_not Char.isDigit s
  · rintro ⟨rfl, hmax, hrest⟩
    have hnum := Decimal.numeral_toDigits num.toNat
    obtain ⟨htake, hdrop⟩ := Decimal.takeWhile_append hnum.digit hrest
    have hhead : ∃ c rest, decimal num = c :: rest := by
      cases hd : decimal num with
      | nil => exact absurd hd hnum.ne_nil
      | cons c rest => exact ⟨c, rest, rfl⟩
    obtain ⟨c, rest, hc⟩ := hhead
    have hlt := num.isLt
    refine ⟨⟨c, by rw [hc]; rfl, hnum.digit c (by rw [← decimal, hc]; exact .head _)⟩, ?_, ?_, ?_, ?_⟩
    · rintro ⟨h0, hnext⟩
      obtain ⟨t, ht⟩ := starts_with_iff.mp h0
      have hzero : decimal num = ['0'] := by
        refine hnum.no_leading_zero ?_
        rw [← decimal, hc]
        rw [hc] at ht
        cases ht
        rfl
      rw [hzero] at hnext
      obtain ⟨c', hc', hdigit⟩ := any_take_one.mp hnext
      rw [hrest c' hc'] at hdigit
      cases hdigit
    · rw [decimal, htake, Nat.ofDigitChars_ten_toDigits]
      omega
    · rw [decimal, htake, Nat.ofDigitChars_ten_toDigits]
      omega
    · rw [decimal, htake, hdrop, Nat.ofDigitChars_ten_toDigits]
      have : BitVec.ofNat 32 num.toNat = num := BitVec.ofNat_toNat ..
      simp [this, bind, Exec.bind]

/-! ## Key expressions -/

theorem noDigit_apostrophe : NoDigit ('\'' :: s) := noDigit_cons (by decide)

theorem hardened_add {num : U32} (h : num.toNat ≤ (HARDENED_INDEX - 1).toNat) :
    HARDENED_INDEX ≤ num + HARDENED_INDEX ∧ num + HARDENED_INDEX - HARDENED_INDEX = num := by
  have hH : HARDENED_INDEX.toNat = 2 ^ 31 := rfl
  have hH' : (HARDENED_INDEX - 1).toNat = 2 ^ 31 - 1 := rfl
  refine ⟨?_, BitVec.add_sub_cancel _ _⟩
  rw [BitVec.le_def, BitVec.toNat_add]
  omega

theorem hardened_sub {num : U32} (h : HARDENED_INDEX ≤ num) :
    (num - HARDENED_INDEX).toNat ≤ (HARDENED_INDEX - 1).toNat ∧
      num - HARDENED_INDEX + HARDENED_INDEX = num := by
  have hH : HARDENED_INDEX.toNat = 2 ^ 31 := rfl
  have hH' : (HARDENED_INDEX - 1).toNat = 2 ^ 31 - 1 := rfl
  refine ⟨?_, BitVec.sub_add_cancel _ _⟩
  have := num.isLt
  rw [BitVec.le_def] at h
  rw [BitVec.toNat_sub]
  omega

theorem not_hardened {num : U32} :
    ¬ HARDENED_INDEX ≤ num ↔ num.toNat ≤ (HARDENED_INDEX - 1).toNat := by
  have hH : HARDENED_INDEX.toNat = 2 ^ 31 := rfl
  have hH' : (HARDENED_INDEX - 1).toNat = 2 ^ 31 - 1 := rfl
  rw [BitVec.le_def]
  omega

theorem parse_derivation_step_number_ok {num : U32} :
    parse_derivation_step_number s = .ok num s' ↔ s = step_text num ++ s' ∧
      (¬ HARDENED_INDEX ≤ num → NoDigit s' ∧ Not '\'' s') := by
  rw [parse_derivation_step_number, Exec.bind_ok]
  constructor
  · rintro ⟨num', s₁, hnum, h⟩
    obtain ⟨rfl, hmax, hnext⟩ := parse_number_up_to_ok.mp hnum
    rw [Exec.get_bind] at h
    split at h
    · next hq =>
        obtain ⟨t, rfl⟩ := starts_with_iff.mp hq
        have hpure : Outcome.ok (num' + HARDENED_INDEX) t = .ok num s' := h
        obtain ⟨rfl, rfl⟩ := Outcome.ok.inj hpure
        obtain ⟨hle, hsub⟩ := hardened_add hmax
        refine ⟨?_, fun hn => absurd hle hn⟩
        rw [step_text, if_pos hle, hsub]
        simp
    · next hq =>
        cases h
        have hle := not_hardened.mpr hmax
        refine ⟨by rw [step_text, if_neg hle], fun _ => ⟨hnext, fun hh => hq ?_⟩⟩
        obtain ⟨t, rfl⟩ : ∃ t, s' = '\'' :: t := List.head?_eq_some_iff.mp hh
        exact starts_with_iff.mpr ⟨t, rfl⟩
  · rintro ⟨rfl, hfollow⟩
    rw [step_text]
    split
    · next hle =>
        obtain ⟨hmax, hadd⟩ := hardened_sub hle
        refine ⟨num - HARDENED_INDEX, '\'' :: s',
          parse_number_up_to_ok.mpr ⟨by simp, hmax, noDigit_apostrophe⟩, ?_⟩
        have hq : starts_with "'" ('\'' :: s') = true := starts_with_iff.mpr ⟨s', rfl⟩
        rw [Exec.get_bind, if_pos hq, hadd]
        rfl
    · next hle =>
        obtain ⟨hdigit, hq⟩ := hfollow hle
        refine ⟨num, s', parse_number_up_to_ok.mpr ⟨rfl, not_hardened.mp hle, hdigit⟩, ?_⟩
        rw [Exec.get_bind, if_neg]
        · rfl
        · intro hh
          obtain ⟨t, rfl⟩ := starts_with_iff.mp hh
          exact hq rfl

theorem parse_derivation_suffix_ok {num1 num2 : U32} :
    parse_derivation_suffix s = .ok (num1, num2) s' ↔
      ∃ text, SuffixText num1 num2 text ∧ s = text ++ s' := by
  rw [parse_derivation_suffix, Exec.bind_ok]
  constructor
  · rintro ⟨_, s₁, hslash, h⟩
    obtain rfl := expect_ok.mp hslash
    rw [Exec.get_bind] at h
    split at h
    · next hstar =>
        obtain ⟨t, rfl⟩ := starts_with_iff.mp hstar
        cases h
        exact ⟨"/**".toList, .inl ⟨rfl, rfl, rfl⟩, rfl⟩
    · split at h
      · next hlt =>
          obtain ⟨t, rfl⟩ := starts_with_iff.mp hlt
          obtain ⟨_, s₂, hskip, h⟩ := Exec.bind_ok.mp h
          cases hskip
          obtain ⟨n1, s₃, h1, h⟩ := Exec.bind_ok.mp h
          obtain ⟨_, s₄, hsemi, h⟩ := Exec.bind_ok.mp h
          obtain ⟨n2, s₅, h2, h⟩ := Exec.bind_ok.mp h
          obtain ⟨_, s₆, hend, h⟩ := Exec.bind_ok.mp h
          cases h
          obtain ⟨ht, -⟩ := parse_derivation_step_number_ok.mp h1
          obtain rfl := expect_ok.mp hsemi
          obtain ⟨rfl, -⟩ := parse_derivation_step_number_ok.mp h2
          obtain rfl := expect_ok.mp hend
          refine ⟨_, .inr rfl, ?_⟩
          have ht' : t = step_text num1 ++ (";".toList ++ (step_text num2 ++ (">/*".toList ++ s'))) := ht
          rw [ht']
          simp
      · cases h
  · rintro ⟨text, ⟨rfl, rfl, rfl⟩ | rfl, rfl⟩
    · refine ⟨(), "**".toList ++ s', expect_ok.mpr rfl, ?_⟩
      rw [Exec.get_bind, if_pos (starts_with_append _ _)]
      rfl
    · refine ⟨(), '<' :: (step_text num1 ++ (";".toList ++ (step_text num2 ++ (">/*".toList ++ s')))),
        expect_ok.mpr (by simp), ?_⟩
      rw [Exec.get_bind, if_neg (by simp [starts_with]), if_pos (by simp [starts_with])]
      refine Exec.bind_ok.mpr ⟨(), _, rfl, Exec.bind_ok.mpr ⟨num1, _,
        parse_derivation_step_number_ok.mpr ⟨rfl, fun _ => ⟨noDigit_cons (by decide), by simp⟩⟩,
        Exec.bind_ok.mpr ⟨(), _, expect_ok.mpr rfl, Exec.bind_ok.mpr ⟨num2, _,
          parse_derivation_step_number_ok.mpr ⟨rfl, fun _ => ⟨noDigit_cons (by decide), by simp⟩⟩,
          Exec.bind_ok.mpr ⟨(), s', expect_ok.mpr rfl, rfl⟩⟩⟩⟩⟩

/-! The indices of a `musig`, up to its closing parenthesis. -/

theorem display_indices_cons {idx : U32} {key_indices : List U32} (h : key_indices ≠ []) :
    KeyExpression.display_indices (idx :: key_indices) =
      '@' :: decimal idx ++ ',' :: KeyExpression.display_indices key_indices := by
  cases key_indices with
  | nil => exact absurd rfl h
  | cons idx' key_indices => rfl

theorem le_allOnes (num : U32) : num.toNat ≤ (BitVec.allOnes 32).toNat := by
  rw [BitVec.toNat_allOnes]
  have := num.isLt
  omega

theorem musig_loop_ok {fuel : ℕ} {seen key_indices : List U32} (hfuel : s.length < fuel)
    (hseen : seen.Nodup) :
    parse_musig_key_expression.loop fuel seen s = .ok key_indices (')' :: s') ↔
      ∃ more, more ≠ [] ∧ key_indices = seen ++ more ∧ (seen ++ more).Nodup ∧
        s = KeyExpression.display_indices more ++ ')' :: s' := by
  induction fuel generalizing s seen with
  | zero => exact absurd hfuel (Nat.not_lt_zero _)
  | succ fuel ih =>
      rw [parse_musig_key_expression.loop, Exec.bind_ok]
      constructor
      · rintro ⟨_, s₁, hat, h⟩
        obtain ⟨idx, s₂, hidx, h⟩ := Exec.bind_ok.mp h
        obtain ⟨hnew, h⟩ := Exec.reject_bind_ok.mp h
        have hs := expect_ok.mp hat
        obtain ⟨hs₁, -, -⟩ := parse_number_up_to_ok.mp hidx
        have hseen' : (seen ++ [idx]).Nodup :=
          hseen.append (List.nodup_singleton idx) (List.disjoint_singleton.mpr hnew)
        rw [Exec.get_bind] at h
        split at h
        · next hcomma =>
            obtain ⟨s₃, rfl⟩ := starts_with_iff.mp hcomma
            have hlen : s₃.length < fuel := by
              rw [hs, hs₁] at hfuel
              simp at hfuel
              omega
            obtain ⟨more, hne, rfl, hnodup, rfl⟩ := (ih hlen hseen').mp h
            refine ⟨idx :: more, by simp, by simp, by simpa using hnodup, ?_⟩
            rw [hs, hs₁, display_indices_cons hne]
            simp
        · cases h
          refine ⟨[idx], by simp, rfl, hseen', ?_⟩
          rw [hs, hs₁]
          simp [KeyExpression.display_indices]
      · rintro ⟨more, hne, rfl, hnodup, rfl⟩
        cases more with
        | nil => exact absurd rfl hne
        | cons idx more =>
            have hnew : idx ∉ seen := fun hm => by
              have := List.disjoint_of_nodup_append hnodup hm
              simp at this
            have hseen' : (seen ++ [idx]).Nodup :=
              hseen.append (List.nodup_singleton idx) (List.disjoint_singleton.mpr hnew)
            cases more with
            | nil =>
                refine ⟨(), decimal idx ++ ')' :: s',
                  expect_ok.mpr (by simp [KeyExpression.display_indices]),
                  Exec.bind_ok.mpr ⟨idx, ')' :: s', parse_number_up_to_ok.mpr
                    ⟨rfl, le_allOnes idx, noDigit_cons (by decide)⟩, ?_⟩⟩
                rw [Exec.reject_bind_neg hnew, Exec.get_bind, if_neg (by simp [starts_with])]
                rfl
            | cons idx' more =>
                have hmore : idx' :: more ≠ [] := List.cons_ne_nil _ _
                rw [display_indices_cons hmore] at hfuel ⊢
                generalize hm : idx' :: more = more' at *
                refine ⟨(), decimal idx ++ ',' :: (KeyExpression.display_indices more' ++ ')' :: s'),
                  expect_ok.mpr (by simp), Exec.bind_ok.mpr ⟨idx, _, parse_number_up_to_ok.mpr
                    ⟨rfl, le_allOnes idx, noDigit_cons (by decide)⟩, ?_⟩⟩
                rw [Exec.reject_bind_neg hnew, Exec.get_bind, if_pos (by simp [starts_with])]
                refine (ih ?_ hseen').mpr ⟨more', hmore, by simp, by simpa using hnodup, rfl⟩
                simp at hfuel ⊢
                omega

theorem parse_musig_key_expression_ok {kp : KeyExpression} :
    parse_musig_key_expression ("musig(".toList ++ s) = .ok kp s' ↔
      ∃ key_indices suffix, kp.key_type = .musig key_indices ∧ 2 ≤ key_indices.length ∧
        key_indices.Nodup ∧ SuffixText kp.num1 kp.num2 suffix ∧
        s = KeyExpression.display_indices key_indices ++ ')' :: suffix ++ s' := by
  rw [parse_musig_key_expression, Exec.bind_ok]
  constructor
  · rintro ⟨_, s₁, hskip, h⟩
    cases hskip
    rw [Exec.get_bind] at h
    obtain ⟨key_indices, s₂, hloop, h⟩ := Exec.bind_ok.mp h
    obtain ⟨htwo, h⟩ := Exec.reject_bind_ok.mp h
    obtain ⟨_, s₃, hclose, h⟩ := Exec.bind_ok.mp h
    obtain ⟨⟨num1, num2⟩, s₄, hsuffix, h⟩ := Exec.bind_ok.mp h
    cases h
    obtain rfl := expect_ok.mp hclose
    obtain ⟨suffix, hs, rfl⟩ := parse_derivation_suffix_ok.mp hsuffix
    obtain ⟨more, -, rfl, hnodup, heq⟩ :=
      (musig_loop_ok (Nat.lt_succ_self _) List.nodup_nil).mp hloop
    refine ⟨_, suffix, rfl, not_lt.mp htwo, hnodup, hs, ?_⟩
    simpa using heq
  · rintro ⟨key_indices, suffix, htype, htwo, hnodup, hs, rfl⟩
    refine ⟨(), _, rfl, ?_⟩
    rw [Exec.get_bind]
    refine Exec.bind_ok.mpr ⟨key_indices, ')' :: (suffix ++ s'),
      (musig_loop_ok (Nat.lt_succ_self _) List.nodup_nil).mpr
        ⟨key_indices, ?_, rfl, hnodup, by simp⟩,
      Exec.reject_bind_ok.mpr ⟨by omega, Exec.bind_ok.mpr ⟨(), _, expect_ok.mpr rfl,
        Exec.bind_ok.mpr ⟨(kp.num1, kp.num2), s',
          parse_derivation_suffix_ok.mpr ⟨suffix, hs, rfl⟩, ?_⟩⟩⟩⟩
    · rintro rfl
      simp at htwo
    · rw [← htype]
      rfl

theorem SuffixText.head {num1 num2 : U32} {suffix : Text} (h : SuffixText num1 num2 suffix) :
    ∃ rest, suffix = '/' :: rest := by
  rcases h with ⟨-, -, rfl⟩ | rfl
  · exact ⟨_, rfl⟩
  · exact ⟨_, rfl⟩

theorem parse_key_expression_ok {ctx : ParseContext} {kp : KeyExpression} :
    parse_key_expression ctx s = .ok kp s' ↔ ∃ text, KeyText ctx kp text ∧ s = text ++ s' := by
  rw [parse_key_expression, Exec.get_bind]
  constructor
  · intro h
    split at h
    · next hmusig =>
        obtain ⟨s₁, rfl⟩ := starts_with_iff.mp hmusig
        obtain ⟨hallowed, h⟩ := Exec.reject_bind_ok.mp h
        obtain ⟨key_indices, suffix, htype, htwo, hnodup, hs, rfl⟩ :=
          parse_musig_key_expression_ok.mp h
        refine ⟨_, ⟨fragment "musig" (KeyExpression.display_indices key_indices), suffix, ?_, hs,
          rfl⟩, by simp [fragment]⟩
        rw [htype]
        exact ⟨by simpa using hallowed, htwo, hnodup, rfl⟩
    · obtain ⟨_, s₁, hat, h⟩ := Exec.bind_ok.mp h
      obtain ⟨key_index, s₂, hidx, h⟩ := Exec.bind_ok.mp h
      obtain ⟨⟨num1, num2⟩, s₃, hsuffix, h⟩ := Exec.bind_ok.mp h
      cases h
      obtain rfl := expect_ok.mp hat
      obtain ⟨rfl, -, -⟩ := parse_number_up_to_ok.mp hidx
      obtain ⟨suffix, hs, rfl⟩ := parse_derivation_suffix_ok.mp hsuffix
      exact ⟨_, ⟨'@' :: decimal key_index, suffix, rfl, hs, rfl⟩, by simp⟩
  · rintro ⟨_, ⟨origin, suffix, horigin, hs, rfl⟩, rfl⟩
    cases htype : kp.key_type with
    | plainKey key_index =>
        rw [htype] at horigin
        obtain rfl : origin = '@' :: decimal key_index := horigin
        obtain ⟨rest, hrest⟩ := hs.head
        rw [if_neg (by simp [starts_with])]
        refine Exec.bind_ok.mpr ⟨(), decimal key_index ++ (suffix ++ s'),
          expect_ok.mpr (by simp), Exec.bind_ok.mpr ⟨key_index, suffix ++ s',
            parse_number_up_to_ok.mpr ⟨rfl, le_allOnes _, ?_⟩,
            Exec.bind_ok.mpr ⟨(kp.num1, kp.num2), s',
              parse_derivation_suffix_ok.mpr ⟨suffix, hs, rfl⟩, ?_⟩⟩⟩
        · rw [hrest]
          exact noDigit_cons (by decide)
        · rw [← htype]
          rfl
    | musig key_indices =>
        rw [htype] at horigin
        obtain ⟨hallowed, htwo, hnodup, rfl⟩ := horigin
        have htext : fragment "musig" (KeyExpression.display_indices key_indices) ++ suffix ++ s' =
            "musig(".toList ++
              (KeyExpression.display_indices key_indices ++ ')' :: suffix ++ s') := by
          simp [fragment]
        rw [htext, if_pos (starts_with_append _ _)]
        exact Exec.reject_bind_ok.mpr ⟨by simpa using hallowed,
          parse_musig_key_expression_ok.mpr ⟨key_indices, suffix, htype, htwo, hnodup, hs, rfl⟩⟩

end

end Vanadium.Bip388
