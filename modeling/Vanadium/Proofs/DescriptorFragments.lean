import Vanadium.Proofs.DescriptorGrammar

/-!
# Fragments are read as they are written

The rules for reading a construct, and what follows for what may stand between
the parentheses of a fragment. Lists are read by loops that stop at the first
item they cannot read; the closing parenthesis, which has to come next, makes
sure that this was the end.
-/

namespace Vanadium.Bip388

open Lib

/-- `m` reads what `S` describes. -/
structure Reads {α : Type} (m : ParseResult α) (S : Syntax α) : Prop where
  ok : ∀ {s v s'}, m s = .ok v s' ↔ ∃ t, S.text v t ∧ s = t ++ s'
  panics : ∀ {s}, Exec.Panics m s ↔ S.cut s

/-- `m` reads what `S` describes, up to a closing parenthesis. -/
structure ReadsInside {α : Type} (m : ParseResult α) (S : Syntax α) : Prop where
  ok : ∀ {s v s'}, m s = .ok v (')' :: s') ↔ ∃ t, S.text v t ∧ s = t ++ ')' :: s'
  panics : ∀ {s}, Exec.Panics m s ↔ S.cut s

/-- `m` reads the fragment `name` with the arguments `S`. -/
structure ReadsFragment (name : String) (m : ParseResult DescriptorTemplate)
    (S : Syntax DescriptorTemplate) : Prop where
  ok : ∀ {s v s'}, m (name.toList ++ '(' :: s) = .ok v s' ↔ ∃ t, S.text v t ∧ s = t ++ ')' :: s'
  panics : ∀ {s}, Exec.Panics m (name.toList ++ '(' :: s) ↔ S.cut s

section
variable {α : Type} {m p : ParseResult α} {S : Syntax α} {s s' : Text}

theorem Reads.inside (h : Reads m S) : ReadsInside m S := ⟨h.ok, h.panics⟩

/-! ## What does not panic -/

theorem not_panics {m : ParseResult α} (h : Exec.Keeps True (fun _ => True) m) :
    ¬ Exec.Panics m s := (h trivial).not_panics

theorem keeps_skip (n : ℕ) : Exec.Keeps True (fun _ => True) (skip n) :=
  .modify fun _ _ => trivial

theorem keeps_expect (p : String) : Exec.Keeps True (fun _ => True) (expect p) :=
  .bind .get fun _ => .bind (.reject _ _) fun _ => keeps_skip _

theorem keeps_number (max : U32) : Exec.Keeps True (fun _ => True) (parse_number_up_to max) :=
  .bind .get fun _ => .bind (.reject _ _) fun _ => .bind (.reject _ _) fun _ =>
    .bind (.reject _ _) fun _ => .bind (.reject _ _) fun _ =>
      .bind (.modify fun _ _ => trivial) fun _ => .pure _

theorem keeps_step_number : Exec.Keeps True (fun _ => True) parse_derivation_step_number := by
  refine .bind (keeps_number _) fun _ => .bind .get fun _ => ?_
  split
  · exact .bind (keeps_skip _) fun _ => .pure _
  · exact .pure _

theorem keeps_suffix : Exec.Keeps True (fun _ => True) parse_derivation_suffix := by
  refine .bind (keeps_expect _) fun _ => .bind .get fun _ => ?_
  split
  · exact .bind (keeps_skip _) fun _ => .pure _
  · split
    · exact .bind (keeps_skip _) fun _ => .bind keeps_step_number fun _ =>
        .bind (keeps_expect _) fun _ => .bind keeps_step_number fun _ =>
          .bind (keeps_expect _) fun _ => .pure _
    · exact .throw _

theorem keeps_musig_loop (fuel : ℕ) (seen : List U32) :
    Exec.Keeps True (fun _ => True) (parse_musig_key_expression.loop fuel seen) := by
  induction fuel generalizing seen with
  | zero => exact .pure _
  | succ fuel ih =>
      refine .bind (keeps_expect _) fun _ => .bind (keeps_number _) fun idx =>
        .bind (.reject _ _) fun _ => .bind .get fun _ => ?_
      split
      · exact .bind (keeps_skip _) fun _ => ih _
      · exact .pure _

theorem keeps_key (ctx : ParseContext) :
    Exec.Keeps True (fun _ => True) (parse_key_expression ctx) := by
  refine .bind .get fun _ => ?_
  split
  · exact .bind (.reject _ _) fun _ => .bind (keeps_skip _) fun _ => .bind .get fun _ =>
      .bind (keeps_musig_loop _ _) fun _ => .bind (.reject _ _) fun _ =>
        .bind (keeps_expect _) fun _ => .bind keeps_suffix fun _ => .pure _
  · exact .bind (keeps_expect _) fun _ => .bind (keeps_number _) fun _ =>
      .bind keeps_suffix fun _ => .pure _

theorem keeps_keys_loop (ctx : ParseContext) (max_keys fuel : ℕ) (keys : List KeyExpression) :
    Exec.Keeps True (fun _ => True) (parse_threshold_kp_fragment.loop ctx max_keys fuel keys) := by
  induction fuel generalizing keys with
  | zero => exact .pure _
  | succ fuel ih =>
      refine .bind .get fun _ => ?_
      split
      · refine .bind (.reject _ _) fun _ =>
          .bind (.attempt (.bind (keeps_skip _) fun _ => keeps_key ctx)) fun key => ?_
        split
        · exact ih _
        · exact .throw _
        · exact .pure _
      · exact .pure _

/-! ## Parentheses -/

theorem fragment_bind (name : String) {f : Unit → ParseResult α} :
    (skip (name.length + 1) >>= f) (name.toList ++ '(' :: s) = f () s := by
  have h : skip (name.length + 1) (name.toList ++ '(' :: s) = .ok () s := by
    rw [skip_apply, ← String.length_toList]
    congr 1
    simp
  exact Exec.bind_apply_ok h

theorem panics_fragment (name : String) {f : Unit → ParseResult α} :
    Exec.Panics (skip (name.length + 1) >>= f) (name.toList ++ '(' :: s) ↔
      Exec.Panics (f ()) s := by
  rw [Exec.Panics, fragment_bind]
  rfl

theorem ReadsInside.close {name : String} {f : α → DescriptorTemplate} (h : ReadsInside p S) :
    ReadsFragment name (do
      skip (name.length + 1)
      let x ← p
      expect ")"
      pure (f x)) (built f S) where
  ok {s v s'} := by
    rw [fragment_bind, Exec.bind_ok]
    constructor
    · rintro ⟨x, s₁, hx, hclose⟩
      obtain ⟨_, s₂, he, hv⟩ := Exec.bind_ok.mp hclose
      cases hv
      obtain rfl := expect_ok.mp he
      obtain ⟨t, ht, rfl⟩ := h.ok.mp hx
      exact ⟨t, ⟨x, rfl, ht⟩, rfl⟩
    · rintro ⟨t, ⟨x, rfl, ht⟩, rfl⟩
      exact ⟨x, ')' :: s', h.ok.mpr ⟨t, ht, rfl⟩,
        Exec.bind_ok.mpr ⟨(), s', expect_ok.mpr rfl, rfl⟩⟩
  panics {s} := by
    rw [panics_fragment, Exec.panics_bind_left, h.panics]
    · rfl
    · exact fun x s₁ _ => not_panics (.bind (keeps_expect _) fun _ => .pure _)

end

theorem reads_key (ctx : ParseContext) : Reads (parse_key_expression ctx) (plain (KeyText ctx)) where
  ok := parse_key_expression_ok
  panics := iff_of_false (not_panics (keeps_key ctx)) not_false

theorem reads_number (max : U32) :
    ReadsInside (parse_number_up_to max)
      (plain fun num t => num.toNat ≤ max.toNat ∧ t = decimal num) where
  ok {s v s'} := by
    rw [parse_number_up_to_ok]
    constructor
    · rintro ⟨rfl, hmax, -⟩
      exact ⟨_, ⟨hmax, rfl⟩, rfl⟩
    · rintro ⟨_, ⟨hmax, rfl⟩, rfl⟩
      exact ⟨rfl, hmax, noDigit_cons (by decide)⟩
  panics := iff_of_false (not_panics (keeps_number max)) not_false

theorem reads_kp_fragment (name : String) (constructor : KeyExpression → DescriptorTemplate)
    (ctx : ParseContext) :
    ReadsFragment name (parse_kp_fragment name constructor ctx) (key_args constructor ctx) :=
  (reads_key ctx).inside.close

theorem reads_num_fragment (name : String) (max : U32)
    (constructor : U32 → DescriptorTemplate) :
    ReadsFragment name (parse_num_fragment name max constructor) (num_args max constructor) :=
  (reads_number max).close

/-! ## Hashes -/

theorem split_at_some {n : ℕ} {s front rest : Text} (h : split_at s n = some (front, rest)) :
    s = front ++ rest ∧ len front = n := by
  induction s, n using split_at.induct generalizing front rest with
  | case1 s =>
      rw [split_at] at h
      cases h
      exact ⟨rfl, rfl⟩
  | case2 n => cases h
  | case3 c s n hle ih =>
      rw [split_at, if_pos hle] at h
      obtain ⟨⟨front', rest'⟩, hs, heq⟩ := Option.map_eq_some_iff.mp h
      cases heq
      obtain ⟨rfl, hlen⟩ := ih hs
      refine ⟨rfl, ?_⟩
      rw [len, List.map_cons, List.sum_cons, ← len, hlen]
      omega
  | case4 c s n hgt =>
      rw [split_at, if_neg hgt] at h
      cases h

theorem split_at_len (front rest : Text) : split_at (front ++ rest) (len front) = some (front, rest) := by
  induction front with
  | nil => simp [len, split_at]
  | cons c front ih =>
      have hlen : len (c :: front) = c.utf8Size + len front := by
        rw [len, List.map_cons, List.sum_cons, ← len]
      have hpos := c.utf8Size_pos
      obtain ⟨n, hn⟩ : ∃ n, len (c :: front) = n + 1 :=
        ⟨len (c :: front) - 1, by omega⟩
      rw [hn, List.cons_append, split_at, if_pos (by omega)]
      have : n + 1 - c.utf8Size = len front := by omega
      rw [this, ih]
      rfl

theorem len_append (front rest : Text) : len (front ++ rest) = len front + len rest := by
  rw [len, List.map_append, List.sum_append, ← len, ← len]

theorem hex_digit_ascii {c : Char} {v : ℕ} (h : hex_digit c = some v) : c.utf8Size = 1 := by
  have hle : c.val ≤ 127 := by
    unfold hex_digit at h
    split at h
    · next hd =>
        have hlt := (Decimal.isDigit_toNat hd).2
        exact UInt32.le_iff_toNat_le.mpr (show c.toNat ≤ 127 by omega)
    · split at h
      · next hr => exact UInt32.le_trans hr.2 (by decide)
      · split at h
        · next hr => exact UInt32.le_trans hr.2 (by decide)
        · cases h
  exact Char.utf8Size_eq_one_iff.mpr hle

/-- Hexadecimal digits take a byte each. -/
theorem from_hex_len {t : Text} {bytes : Bytes} (h : from_hex t = some bytes) :
    len t = 2 * bytes.length ∧ t.length = 2 * bytes.length := by
  induction t using from_hex.induct generalizing bytes with
  | case1 =>
      cases h
      exact ⟨rfl, rfl⟩
  | case2 c => cases h
  | case3 c c' digits ih =>
      simp only [from_hex, Option.bind_eq_bind, Option.bind_eq_some_iff] at h
      obtain ⟨high, hhigh, low, hlow, bytes', hdigits, h⟩ := h
      cases h
      obtain ⟨hlen, hlength⟩ := ih hdigits
      have h₁ := hex_digit_ascii hhigh
      have h₂ := hex_digit_ascii hlow
      simp only [len, List.map_cons, List.sum_cons, List.length_cons] at hlen ⊢
      omega

theorem reads_hex_fragment (n : ℕ) (name : String)
    (constructor : Vector U8 n → DescriptorTemplate) :
    ReadsFragment name (parse_hex_fragment n name constructor) (hash_args n constructor) where
  ok {s v s'} := by
    rw [parse_hex_fragment, fragment_bind, Exec.get_bind]
    constructor
    · intro h
      obtain ⟨-, h⟩ := Exec.reject_bind_ok.mp h
      obtain ⟨⟨digits, rest⟩, hsplit, h⟩ := Exec.unwrap_bind_ok.mp h
      obtain ⟨bytes, hbytes, h⟩ := Exec.orElse_bind_ok.mp h
      obtain ⟨_, s₁, hset, h⟩ := Exec.bind_ok.mp h
      obtain ⟨_, s₂, hclose, h⟩ := Exec.bind_ok.mp h
      cases h
      cases hset
      obtain rfl := expect_ok.mp hclose
      obtain ⟨rfl, hlen⟩ := split_at_some hsplit
      obtain ⟨hlen', hlength⟩ := from_hex_len hbytes
      have hn : bytes.length = n := by omega
      refine ⟨digits, ⟨_, rfl, by omega, ?_⟩, rfl⟩
      rw [array_toList_of_length hn]
      exact hbytes
    · rintro ⟨t, ⟨hash, rfl, hlength, hhex⟩, rfl⟩
      obtain ⟨hlen, hlength'⟩ := from_hex_len hhex
      have hn : len t = 2 * n := by omega
      refine Exec.reject_bind_ok.mpr ⟨by rw [len_append]; omega, Exec.unwrap_bind_ok.mpr
        ⟨(t, ')' :: s'), by rw [← hn, split_at_len], Exec.orElse_bind_ok.mpr ⟨_, hhex,
          Exec.bind_ok.mpr ⟨(), _, rfl, Exec.bind_ok.mpr ⟨(), s', expect_ok.mpr rfl, ?_⟩⟩⟩⟩⟩
      rw [array_toList hash]
      rfl
  panics {s} := by
    rw [parse_hex_fragment, panics_fragment, Exec.Panics, Exec.get_bind, ← Exec.Panics,
      Exec.panics_reject_bind, not_lt]
    refine and_congr_right fun _ => ?_
    cases hsplit : split_at s (2 * n) with
    | none => exact ⟨fun _ => rfl, fun _ => ⟨s, rfl⟩⟩
    | some parts =>
        refine iff_of_false ?_ (by simp)
        rw [Exec.Panics, Exec.unwrap_bind_some rfl, ← Exec.Panics]
        exact not_panics (.bind (.orElse _ _) fun _ => .bind (.modify fun _ _ => trivial) fun _ =>
          .bind (keeps_expect _) fun _ => .pure _)

/-! ## Lists -/

section
variable {s s' : Text}

/-- The first comma is where an item begins. -/
theorem comma_bind {α : Type} {p : ParseResult α} (s : Text) :
    (skip 1 >>= fun _ => p) (',' :: s) = p s := rfl

theorem starts_with_comma (s : Text) : starts_with "," (',' :: s) = true :=
  starts_with_iff.mpr ⟨s, rfl⟩

theorem keys_loop_ok {ctx : ParseContext} {max_keys fuel : ℕ} {keys keys' : List KeyExpression}
    (hfuel : s.length < fuel) (hkeys : keys.length ≤ max_keys) :
    parse_threshold_kp_fragment.loop ctx max_keys fuel keys s = .ok keys' (')' :: s') ↔
      ∃ more t, keys' = keys ++ more ∧ keys'.length ≤ max_keys ∧
        Followed (KeyText ctx) more t ∧ s = t ++ ')' :: s' := by
  induction fuel generalizing s keys with
  | zero => exact absurd hfuel (Nat.not_lt_zero _)
  | succ fuel ih =>
      rw [parse_threshold_kp_fragment.loop, Exec.get_bind]
      constructor
      · intro h
        split at h
        · next hcomma =>
            obtain ⟨s₁, rfl⟩ := starts_with_iff.mp hcomma
            obtain ⟨hmax, h⟩ := Exec.reject_bind_ok.mp h
            rcases Exec.attempt_bind_ok.mp h with ⟨kp, s₂, hkp, h⟩ | ⟨e, s₂, -, h⟩
            · obtain ⟨kt, hkt, hs₁⟩ := parse_key_expression_ok.mp ((comma_bind s₁).symm.trans hkp)
              have hlen : s₂.length < fuel := by
                simp [hs₁] at hfuel
                omega
              obtain ⟨more, t, rfl, hle, hmore, rfl⟩ := (ih hlen (by simp; omega)).mp h
              exact ⟨kp :: more, _, by simp, hle, ⟨kt, t, hkt, hmore, rfl⟩, by simp [hs₁]⟩
            · cases e <;> cases h
        · cases h
          exact ⟨[], [], by simp, hkeys, rfl, rfl⟩
      · rintro ⟨more, t, rfl, hle, hmore, rfl⟩
        cases more with
        | nil =>
            obtain rfl : t = [] := hmore
            rw [if_neg (by simp [starts_with]), List.append_nil]
            rfl
        | cons kp more =>
            obtain ⟨kt, t', hkt, hmore, rfl⟩ := hmore
            have htext : ',' :: kt ++ t' ++ ')' :: s' = ',' :: (kt ++ (t' ++ ')' :: s')) := by simp
            rw [htext] at hfuel ⊢
            rw [if_pos (starts_with_comma _)]
            simp only [List.length_append, List.length_cons] at hle hfuel
            refine Exec.reject_bind_ok.mpr ⟨by omega, Exec.attempt_bind_ok.mpr (.inl
              ⟨kp, t' ++ ')' :: s', (comma_bind _).trans (parse_key_expression_ok.mpr ⟨kt, hkt, rfl⟩),
                (ih ?_ ?_).mpr ⟨more, t', by simp, by simp; omega, hmore, rfl⟩⟩)⟩
            · simp
              omega
            · simp
              omega

theorem reads_threshold_kp_fragment (name : String)
    (constructor : U32 → List KeyExpression → DescriptorTemplate) (ctx : ParseContext)
    (max_keys : ℕ) :
    ReadsFragment name (parse_threshold_kp_fragment name constructor ctx max_keys)
      (threshold_args constructor ctx max_keys) where
  ok {s v s'} := by
    rw [parse_threshold_kp_fragment, fragment_bind, Exec.bind_ok]
    constructor
    · rintro ⟨k, s₁, hk, h⟩
      rw [Exec.get_bind] at h
      obtain ⟨keys, s₂, hloop, h⟩ := Exec.bind_ok.mp h
      obtain ⟨htwo, h⟩ := Exec.reject_bind_ok.mp h
      obtain ⟨hquorum, h⟩ := Exec.reject_bind_ok.mp h
      obtain ⟨_, s₃, hclose, h⟩ := Exec.bind_ok.mp h
      cases h
      obtain rfl := expect_ok.mp hclose
      obtain ⟨more, t, rfl, hmax, hmore, rfl⟩ :=
        (keys_loop_ok (Nat.lt_succ_self _) (Nat.zero_le _)).mp hloop
      obtain ⟨rfl, -, -⟩ := parse_number_up_to_ok.mp hk
      rw [not_or, not_lt] at hquorum
      exact ⟨_, ⟨k, _, t, rfl, not_lt.mp htwo, hmax, hquorum.1, hquorum.2, hmore, rfl⟩,
        by simp⟩
    · rintro ⟨_, ⟨k, keys, t, rfl, htwo, hmax, hzero, hquorum, hkeys, rfl⟩, rfl⟩
      refine ⟨k, t ++ ')' :: s', parse_number_up_to_ok.mpr ⟨by simp, le_allOnes k, ?_⟩, ?_⟩
      · cases keys with
        | nil => exact absurd htwo (by simp)
        | cons kp keys =>
            obtain ⟨kt, t', -, -, rfl⟩ := hkeys
            exact noDigit_cons (by decide)
      · rw [Exec.get_bind]
        exact Exec.bind_ok.mpr ⟨keys, ')' :: s',
          (keys_loop_ok (Nat.lt_succ_self _) (Nat.zero_le _)).mpr ⟨keys, t, rfl, hmax, hkeys, rfl⟩,
          Exec.reject_bind_ok.mpr ⟨not_lt.mpr htwo, Exec.reject_bind_ok.mpr
            ⟨not_or.mpr ⟨hzero, not_lt.mpr hquorum⟩,
              Exec.bind_ok.mpr ⟨(), s', expect_ok.mpr rfl, rfl⟩⟩⟩⟩
  panics {s} := by
    rw [parse_threshold_kp_fragment, panics_fragment]
    refine iff_of_false (not_panics ?_) not_false
    exact .bind (keeps_number _) fun _ => .bind .get fun _ => .bind (keeps_keys_loop _ _ _ _)
      fun _ => .bind (.reject _ _) fun _ => .bind (.reject _ _) fun _ =>
        .bind (keeps_expect _) fun _ => .pure _

/-! ### Scripts -/

variable {p : ParseResult DescriptorTemplate} {S : Syntax DescriptorTemplate}

/-- What is left after some of the items, if the comma of the first one is there already. -/
theorem followed_cons {α : Type} {text : α → Text → Prop} {x : α} {xs : List α} {t : Text} :
    Followed text (x :: xs) (',' :: t) ↔
      ∃ t₁ t₂, text x t₁ ∧ Followed text xs t₂ ∧ t = t₁ ++ t₂ := by
  constructor
  · rintro ⟨t₁, t₂, h₁, h₂, heq⟩
    exact ⟨t₁, t₂, h₁, h₂, (List.cons.inj heq).2⟩
  · rintro ⟨t₁, t₂, h₁, h₂, rfl⟩
    exact ⟨t₁, t₂, h₁, h₂, rfl⟩

theorem subscripts_ok (h : Reads p S) {n : ℕ} {xs : List DescriptorTemplate} :
    parse_n_subscripts p (n + 1) s = .ok xs s' ↔
      ∃ t, (scripts S (n + 1)).text xs t ∧ s = t ++ ')' :: s' := by
  induction n generalizing s xs with
  | zero =>
      rw [parse_n_subscripts, Exec.bind_ok]
      constructor
      · rintro ⟨x, s₁, hx, hrest⟩
        obtain ⟨_, s₂, hclose, hv⟩ := Exec.bind_ok.mp hrest
        cases hv
        obtain rfl := expect_ok.mp hclose
        obtain ⟨t, ht, rfl⟩ := h.ok.mp hx
        exact ⟨t, ⟨rfl, followed_cons.mpr ⟨t, [], ht, rfl, by simp⟩⟩, rfl⟩
      · rintro ⟨t, ⟨hlen, ht⟩, rfl⟩
        obtain ⟨x, rfl⟩ := List.length_eq_one_iff.mp hlen
        obtain ⟨t₁, t₂, hx, rfl, rfl⟩ := followed_cons.mp ht
        exact ⟨x, ')' :: s', h.ok.mpr ⟨t₁, hx, by simp⟩,
          Exec.bind_ok.mpr ⟨(), s', expect_ok.mpr rfl, rfl⟩⟩
  | succ n ih =>
      rw [parse_n_subscripts, Exec.bind_ok]
      constructor
      · rintro ⟨x, s₁, hx, hrest⟩
        obtain ⟨_, s₂, hcomma, hrest⟩ := Exec.bind_ok.mp hrest
        obtain ⟨xs', s₃, hxs, hv⟩ := Exec.bind_ok.mp hrest
        cases hv
        obtain rfl := expect_ok.mp hcomma
        obtain ⟨t₁, ht₁, rfl⟩ := h.ok.mp hx
        obtain ⟨t₂, ⟨hlen, ht₂⟩, rfl⟩ := ih.mp hxs
        exact ⟨t₁ ++ ',' :: t₂, ⟨by simp [hlen], followed_cons.mpr ⟨t₁, _, ht₁, ht₂, rfl⟩⟩,
          by simp⟩
      · rintro ⟨t, ⟨hlen, ht⟩, rfl⟩
        cases xs with
        | nil => cases hlen
        | cons x xs =>
            obtain ⟨t₁, t₂, hx, hxs, rfl⟩ := followed_cons.mp ht
            have hlen' : xs.length = n + 1 := by simpa using hlen
            cases xs with
            | nil => cases hlen'
            | cons x' xs =>
                obtain ⟨t₃, t₄, hx', hxs', rfl⟩ := hxs
                exact ⟨x, ',' :: (t₃ ++ t₄) ++ ')' :: s', h.ok.mpr ⟨t₁, hx, by simp⟩,
                  Exec.bind_ok.mpr ⟨(), t₃ ++ t₄ ++ ')' :: s', expect_ok.mpr (by simp),
                    Exec.bind_ok.mpr ⟨x' :: xs, s', ih.mpr ⟨t₃ ++ t₄,
                      ⟨hlen', followed_cons.mpr ⟨t₃, t₄, hx', hxs', rfl⟩⟩, rfl⟩, rfl⟩⟩⟩

theorem subscripts_panics (h : Reads p S) {n : ℕ} :
    Exec.Panics (parse_n_subscripts p (n + 1)) s ↔ (scripts S (n + 1)).cut s := by
  induction n generalizing s with
  | zero =>
      rw [parse_n_subscripts, Exec.panics_bind_left, h.panics]
      · simp [scripts, CutAmong]
      · exact fun x s₁ _ => not_panics (.bind (keeps_expect _) fun _ => .pure _)
  | succ n ih =>
      rw [parse_n_subscripts, Exec.panics_bind, h.panics]
      have hrest : (∃ x s₁, p s = .ok x s₁ ∧ Exec.Panics (do
            expect ","
            let scripts ← parse_n_subscripts p (n + 1)
            pure (x :: scripts)) s₁) ↔
          ∃ x t s₂, S.text x t ∧ s = t ++ s₂ ∧ CutAmong S (n + 1) s₂ := by
        constructor
        · rintro ⟨x, s₁, hx, hp⟩
          obtain ⟨t, ht, rfl⟩ := h.ok.mp hx
          obtain ⟨_, s₂, hcomma, hp⟩ := (Exec.panics_bind_of_not
            (not_panics (keeps_expect _))).mp hp
          obtain rfl := expect_ok.mp hcomma
          refine ⟨x, t, _, ht, rfl, ih.mp ((Exec.panics_bind_left ?_).mp hp)⟩
          exact fun xs s₃ _ => not_panics (.pure _)
        · rintro ⟨x, t, s₂, ht, rfl, hcut⟩
          obtain ⟨s₃, rfl, hcut'⟩ := id hcut
          refine ⟨x, _, h.ok.mpr ⟨t, ht, rfl⟩, (Exec.panics_bind_of_not
            (not_panics (keeps_expect _))).mpr ⟨(), s₃, expect_ok.mpr rfl,
              Exec.panics_bind.mpr (.inl (ih.mpr hcut))⟩⟩
      rw [hrest]
      simp [scripts, CutAmong]

end

end Vanadium.Bip388
