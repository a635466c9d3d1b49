import Vanadium.Proofs.DescriptorFragments

/-!
# Descriptors are read as they are written

The fragments that contain descriptors, the table of all of them, and the
induction on the depth of the nesting. A fragment is found by its name, since no
name contains a parenthesis.
-/

namespace Vanadium.Bip388

open Lib

section
variable {p : ParseResult DescriptorTemplate} {S : Syntax DescriptorTemplate} {s s' : Text}

theorem length_of_text {n : ℕ} {xs : List DescriptorTemplate} {t : Text}
    (h : (scripts S n).text xs t) : xs.length = n := h.1

theorem reads_unary (h : Reads p S) (name : String)
    (constructor : DescriptorTemplate → DescriptorTemplate) :
    ReadsFragment name (parse_unary name p constructor) (unary_args constructor S) where
  ok {s v s'} := by
    rw [parse_unary, fragment_bind, Exec.bind_ok]
    constructor
    · rintro ⟨xs, s₁, hxs, hv⟩
      obtain ⟨t, ht, rfl⟩ := (subscripts_ok h).mp hxs
      obtain ⟨x, rfl⟩ := List.length_eq_one_iff.mp (length_of_text ht)
      cases hv
      exact ⟨t, ⟨x, rfl, ht⟩, rfl⟩
    · rintro ⟨t, ⟨x, rfl, ht⟩, rfl⟩
      exact ⟨[x], s', (subscripts_ok h).mpr ⟨t, ht, rfl⟩, rfl⟩
  panics {s} := by
    rw [parse_unary, panics_fragment, Exec.panics_bind_left, subscripts_panics h]
    · rfl
    · intro xs s₁ hxs
      obtain ⟨t, ht, rfl⟩ := (subscripts_ok h).mp hxs
      obtain ⟨x, rfl⟩ := List.length_eq_one_iff.mp (length_of_text ht)
      exact not_panics (.pure _)

theorem reads_binary (h : Reads p S) (name : String)
    (constructor : DescriptorTemplate → DescriptorTemplate → DescriptorTemplate) :
    ReadsFragment name (parse_binary name p constructor) (binary_args constructor S) where
  ok {s v s'} := by
    rw [parse_binary, fragment_bind, Exec.bind_ok]
    constructor
    · rintro ⟨xs, s₁, hxs, hv⟩
      obtain ⟨t, ht, rfl⟩ := (subscripts_ok h).mp hxs
      obtain ⟨x, y, rfl⟩ := List.length_eq_two.mp (length_of_text ht)
      cases hv
      exact ⟨t, ⟨x, y, rfl, ht⟩, rfl⟩
    · rintro ⟨t, ⟨x, y, rfl, ht⟩, rfl⟩
      exact ⟨[x, y], s', (subscripts_ok h).mpr ⟨t, ht, rfl⟩, rfl⟩
  panics {s} := by
    rw [parse_binary, panics_fragment, Exec.panics_bind_left, subscripts_panics h]
    · rfl
    · intro xs s₁ hxs
      obtain ⟨t, ht, rfl⟩ := (subscripts_ok h).mp hxs
      obtain ⟨x, y, rfl⟩ := List.length_eq_two.mp (length_of_text ht)
      exact not_panics (.pure _)

theorem reads_andor (h : Reads p S) : ReadsFragment "andor" (parse_andor p) (andor_args S) where
  ok {s v s'} := by
    rw [parse_andor]
    refine (Eq.congr_left (fragment_bind "andor")).trans ?_
    rw [Exec.bind_ok]
    constructor
    · rintro ⟨xs, s₁, hxs, hv⟩
      obtain ⟨t, ht, rfl⟩ := (subscripts_ok h).mp hxs
      obtain ⟨x, y, z, rfl⟩ := List.length_eq_three.mp (length_of_text ht)
      cases hv
      exact ⟨t, ⟨x, y, z, rfl, ht⟩, rfl⟩
    · rintro ⟨t, ⟨x, y, z, rfl, ht⟩, rfl⟩
      exact ⟨[x, y, z], s', (subscripts_ok h).mpr ⟨t, ht, rfl⟩, rfl⟩
  panics {s} := by
    rw [parse_andor]
    refine (panics_fragment "andor").trans ?_
    rw [Exec.panics_bind_left, subscripts_panics h]
    · rfl
    · intro xs s₁ hxs
      obtain ⟨t, ht, rfl⟩ := (subscripts_ok h).mp hxs
      obtain ⟨x, y, z, rfl⟩ := List.length_eq_three.mp (length_of_text ht)
      exact not_panics (.pure _)

/-! ## Thresholds of scripts -/

theorem thresh_loop_ok (h : Reads p S) {fuel : ℕ} {descs descs' : List DescriptorTemplate}
    (hfuel : s.length < fuel) :
    parse_thresh.loop p fuel descs s = .ok descs' (')' :: s') ↔
      ∃ more t, descs' = descs ++ more ∧ Followed S.text more t ∧ s = t ++ ')' :: s' := by
  induction fuel generalizing s descs with
  | zero => exact absurd hfuel (Nat.not_lt_zero _)
  | succ fuel ih =>
      rw [parse_thresh.loop, Exec.get_bind]
      constructor
      · intro hloop
        split at hloop
        · next hcomma =>
            obtain ⟨s₁, rfl⟩ := starts_with_iff.mp hcomma
            rcases Exec.attempt_bind_ok.mp hloop with ⟨x, s₂, hx, hrest⟩ | ⟨e, s₂, -, hrest⟩
            · obtain ⟨xt, hxt, hs₁⟩ := h.ok.mp ((comma_bind s₁).symm.trans hx)
              have hlen : s₂.length < fuel := by
                simp [hs₁] at hfuel
                omega
              obtain ⟨more, t, rfl, hmore, rfl⟩ := (ih hlen).mp hrest
              exact ⟨x :: more, _, by simp, ⟨xt, t, hxt, hmore, rfl⟩, by simp [hs₁]⟩
            · cases e <;> cases hrest
        · cases hloop
          exact ⟨[], [], by simp, rfl, rfl⟩
      · rintro ⟨more, t, rfl, hmore, rfl⟩
        cases more with
        | nil =>
            obtain rfl : t = [] := hmore
            rw [if_neg (by simp [starts_with]), List.append_nil]
            rfl
        | cons x more =>
            obtain ⟨xt, t', hxt, hmore, rfl⟩ := hmore
            have htext : ',' :: xt ++ t' ++ ')' :: s' = ',' :: (xt ++ (t' ++ ')' :: s')) := by simp
            rw [htext] at hfuel ⊢
            rw [if_pos (starts_with_comma _)]
            simp only [List.length_append, List.length_cons] at hfuel
            refine Exec.attempt_bind_ok.mpr (.inl ⟨x, t' ++ ')' :: s',
              (comma_bind _).trans (h.ok.mpr ⟨xt, hxt, rfl⟩),
              (ih ?_).mpr ⟨more, t', by simp, hmore, rfl⟩⟩)
            simp
            omega

/-- Whatever number of scripts have been read, the next one may cut. -/
theorem thresh_loop_panics (h : Reads p S) {fuel : ℕ} {descs : List DescriptorTemplate}
    (hfuel : s.length < fuel) :
    Exec.Panics (parse_thresh.loop p fuel descs) s ↔ ∃ n, CutAmong S n s := by
  induction fuel generalizing s descs with
  | zero => exact absurd hfuel (Nat.not_lt_zero _)
  | succ fuel ih =>
      rw [parse_thresh.loop, Exec.Panics, Exec.get_bind, ← Exec.Panics]
      split
      · next hcomma =>
          obtain ⟨s₁, rfl⟩ := starts_with_iff.mp hcomma
          have hfirst : Exec.Panics (skip 1 >>= fun _ => p) (",".toList ++ s₁) ↔ S.cut s₁ := h.panics
          rw [Exec.panics_attempt_bind, hfirst]
          constructor
          · rintro (hcut | ⟨x, s₂, hx, hp⟩ | ⟨e, s₂, -, s₃, hp⟩)
            · exact ⟨1, s₁, rfl, .inl hcut⟩
            · obtain ⟨xt, hxt, hs₁⟩ := h.ok.mp ((comma_bind s₁).symm.trans hx)
              have hlen : s₂.length < fuel := by
                simp [hs₁] at hfuel
                omega
              obtain ⟨n, hcut⟩ := (ih hlen).mp hp
              exact ⟨n + 1, s₁, rfl, .inr ⟨x, xt, s₂, hxt, hs₁, hcut⟩⟩
            · cases e <;> cases hp
          · rintro ⟨n, hcut⟩
            cases n with
            | zero => exact hcut.elim
            | succ n =>
                obtain ⟨s₂, heq, hcut⟩ := hcut
                obtain rfl : s₁ = s₂ := (List.cons.inj heq).2
                rcases hcut with hcut | ⟨x, xt, s₂, hxt, hs₁, hcut⟩
                · exact .inl hcut
                · have hlen : s₂.length < fuel := by
                    simp [hs₁] at hfuel
                    omega
                  exact .inr (.inl ⟨x, s₂, (comma_bind s₁).trans (h.ok.mpr ⟨xt, hxt, hs₁⟩),
                    (ih hlen).mpr ⟨n, hcut⟩⟩)
      · next hcomma =>
          refine iff_of_false (not_panics (.pure _)) ?_
          rintro ⟨n, hcut⟩
          cases n with
          | zero => exact hcut
          | succ n =>
              obtain ⟨s₂, rfl, -⟩ := hcut
              exact hcomma (starts_with_comma s₂)

theorem reads_thresh (h : Reads p S) : ReadsFragment "thresh" (parse_thresh p) (thresh_args S) where
  ok {s v s'} := by
    rw [parse_thresh]
    refine (Eq.congr_left (fragment_bind "thresh")).trans ?_
    rw [Exec.bind_ok]
    constructor
    · rintro ⟨k, s₁, hk, hrest⟩
      obtain ⟨_, s₂, hcomma, hrest⟩ := Exec.bind_ok.mp hrest
      obtain ⟨first, s₃, hfirst, hrest⟩ := Exec.bind_ok.mp hrest
      rw [Exec.get_bind] at hrest
      obtain ⟨descs, s₄, hloop, hrest⟩ := Exec.bind_ok.mp hrest
      obtain ⟨hzero, hrest⟩ := Exec.reject_bind_ok.mp hrest
      obtain ⟨hle, hrest⟩ := Exec.reject_bind_ok.mp hrest
      obtain ⟨_, s₅, hclose, hv⟩ := Exec.bind_ok.mp hrest
      cases hv
      obtain rfl := expect_ok.mp hclose
      obtain ⟨more, t, rfl, hmore, rfl⟩ := (thresh_loop_ok h (Nat.lt_succ_self _)).mp hloop
      obtain ⟨ft, hft, rfl⟩ := h.ok.mp hfirst
      obtain rfl := expect_ok.mp hcomma
      obtain ⟨rfl, -, -⟩ := parse_number_up_to_ok.mp hk
      exact ⟨_, ⟨k, _, _, rfl, hzero, not_lt.mp hle, ⟨ft, t, hft, hmore, rfl⟩, rfl⟩, by simp⟩
    · rintro ⟨_, ⟨k, descs, dt, rfl, hzero, hle, hdescs, rfl⟩, rfl⟩
      cases descs with
      | nil =>
          have hpos : k.toNat ≠ 0 := fun h0 => hzero (BitVec.eq_of_toNat_eq h0)
          simp at hle
          omega
      | cons first more =>
          obtain ⟨ft, t, hft, hmore, rfl⟩ := hdescs
          refine ⟨k, ',' :: (ft ++ (t ++ ')' :: s')),
            parse_number_up_to_ok.mpr ⟨by simp, le_allOnes k, noDigit_cons (by decide)⟩,
            Exec.bind_ok.mpr ⟨(), _, expect_ok.mpr rfl, Exec.bind_ok.mpr
              ⟨first, t ++ ')' :: s', h.ok.mpr ⟨ft, hft, rfl⟩, ?_⟩⟩⟩
          rw [Exec.get_bind]
          exact Exec.bind_ok.mpr ⟨first :: more, ')' :: s',
            (thresh_loop_ok h (Nat.lt_succ_self _)).mpr ⟨more, t, rfl, hmore, rfl⟩,
            Exec.reject_bind_ok.mpr ⟨hzero, Exec.reject_bind_ok.mpr ⟨not_lt.mpr hle,
              Exec.bind_ok.mpr ⟨(), s', expect_ok.mpr rfl, rfl⟩⟩⟩⟩
  panics {s} := by
    rw [parse_thresh]
    refine (panics_fragment "thresh").trans ?_
    have hend : ∀ (k : U32) (descs : List DescriptorTemplate) (s₁ : Text), ¬ Exec.Panics (do
        Exec.reject (k = 0) .invalidMultisigQuorum
        Exec.reject (k.toNat > descs.length) .threshExceedsScripts
        expect ")"
        pure (DescriptorTemplate.thresh k descs)) s₁ := fun k descs s₁ =>
      not_panics (.bind (.reject _ _) fun _ => .bind (.reject _ _) fun _ =>
        .bind (keeps_expect _) fun _ => .pure _)
    have hbody : ∀ (k : U32) (s₁ : Text), Exec.Panics (do
        let first ← p
        let rest ← Exec.get
        let descs ← parse_thresh.loop p (rest.length + 1) [first]
        Exec.reject (k = 0) .invalidMultisigQuorum
        Exec.reject (k.toNat > descs.length) .threshExceedsScripts
        expect ")"
        pure (DescriptorTemplate.thresh k descs)) s₁ ↔ ∃ n, CutAmong S n (',' :: s₁) := by
      intro k s₁
      rw [Exec.panics_bind, h.panics]
      constructor
      · rintro (hcut | ⟨first, s₂, hfirst, hp⟩)
        · exact ⟨1, s₁, rfl, .inl hcut⟩
        · rw [Exec.Panics, Exec.get_bind, ← Exec.Panics,
            Exec.panics_bind_left fun descs s₃ _ => hend k descs s₃,
            thresh_loop_panics h (Nat.lt_succ_self _)] at hp
          obtain ⟨n, hcut⟩ := hp
          obtain ⟨ft, hft, rfl⟩ := h.ok.mp hfirst
          exact ⟨n + 1, _, rfl, .inr ⟨first, ft, s₂, hft, rfl, hcut⟩⟩
      · rintro ⟨n, hcut⟩
        cases n with
        | zero => exact hcut.elim
        | succ n =>
            obtain ⟨s₂, heq, hcut⟩ := hcut
            obtain rfl : s₁ = s₂ := (List.cons.inj heq).2
            rcases hcut with hcut | ⟨first, ft, s₂, hft, rfl, hcut⟩
            · exact .inl hcut
            · refine .inr ⟨first, s₂, h.ok.mpr ⟨ft, hft, rfl⟩, ?_⟩
              rw [Exec.Panics, Exec.get_bind, ← Exec.Panics]
              exact Exec.panics_bind.mpr (.inl
                ((thresh_loop_panics h (Nat.lt_succ_self _)).mpr ⟨n, hcut⟩))
    rw [Exec.panics_bind_of_not (not_panics (keeps_number _))]
    constructor
    · rintro ⟨k, s₁, hk, hp⟩
      obtain ⟨_, s₂, hcomma, hp⟩ := (Exec.panics_bind_of_not (not_panics (keeps_expect _))).mp hp
      obtain ⟨n, hcut⟩ := (hbody k s₂).mp hp
      obtain rfl := expect_ok.mp hcomma
      obtain ⟨rfl, -, -⟩ := parse_number_up_to_ok.mp hk
      exact ⟨k, n, _, hcut, rfl⟩
    · rintro ⟨k, n, s₁, hcut, rfl⟩
      have hcomma : ∃ s₂, s₁ = ',' :: s₂ := by
        cases n with
        | zero => exact hcut.elim
        | succ n =>
            obtain ⟨s₂, rfl, -⟩ := hcut
            exact ⟨s₂, rfl⟩
      obtain ⟨s₂, rfl⟩ := hcomma
      exact ⟨k, ',' :: s₂, parse_number_up_to_ok.mpr ⟨rfl, le_allOnes k, noDigit_cons (by decide)⟩,
        (Exec.panics_bind_of_not (not_panics (keeps_expect _))).mpr
          ⟨(), s₂, expect_ok.mpr rfl, (hbody k s₂).mpr ⟨n, hcut⟩⟩⟩

/-! ## Taproot -/

variable {q : ParseResult TapTree} {T : Syntax TapTree}

theorem reads_tr (h : Reads q T) : ReadsFragment "tr" (parse_tr q) (tr_args T) where
  ok {s v s'} := by
    rw [parse_tr]
    refine (Eq.congr_left (fragment_bind "tr")).trans ?_
    rw [Exec.bind_ok]
    constructor
    · rintro ⟨kp, s₁, hkp, hrest⟩
      obtain ⟨kt, hkt, rfl⟩ := parse_key_expression_ok.mp hkp
      rw [Exec.get_bind] at hrest
      split at hrest
      · next hcomma =>
          obtain ⟨s₂, rfl⟩ := starts_with_iff.mp hcomma
          obtain ⟨tree, s₃, htree, hrest⟩ := Exec.bind_ok.mp ((comma_bind s₂).symm.trans hrest)
          obtain ⟨_, s₄, hclose, hv⟩ := Exec.bind_ok.mp ((Exec.pure_bind').symm.trans hrest)
          cases hv
          obtain rfl := expect_ok.mp hclose
          obtain ⟨tt, htt, rfl⟩ := h.ok.mp htree
          exact ⟨_, ⟨kp, kt, hkt, .inr ⟨tree, tt, rfl, htt, rfl⟩⟩, by simp⟩
      · obtain ⟨_, s₄, hclose, hv⟩ := Exec.bind_ok.mp ((Exec.pure_bind').symm.trans hrest)
        cases hv
        obtain rfl := expect_ok.mp hclose
        exact ⟨kt, ⟨kp, kt, hkt, .inl ⟨rfl, rfl⟩⟩, rfl⟩
    · rintro ⟨t, ⟨kp, kt, hkt, ⟨rfl, rfl⟩ | ⟨tree, tt, rfl, htt, rfl⟩⟩, rfl⟩
      · refine ⟨kp, ')' :: s', parse_key_expression_ok.mpr ⟨t, hkt, rfl⟩, ?_⟩
        rw [Exec.get_bind, if_neg (by simp [starts_with])]
        exact Exec.bind_ok.mpr ⟨none, ')' :: s', rfl,
          Exec.bind_ok.mpr ⟨(), s', expect_ok.mpr rfl, rfl⟩⟩
      · refine ⟨kp, ',' :: (tt ++ ')' :: s'), parse_key_expression_ok.mpr ⟨kt, hkt, by simp⟩, ?_⟩
        rw [Exec.get_bind, if_pos (starts_with_comma _)]
        exact (comma_bind _).trans (Exec.bind_ok.mpr ⟨tree, ')' :: s', h.ok.mpr ⟨tt, htt, rfl⟩,
          Exec.bind_ok.mpr ⟨some tree, ')' :: s', rfl,
            Exec.bind_ok.mpr ⟨(), s', expect_ok.mpr rfl, rfl⟩⟩⟩)
  panics {s} := by
    rw [parse_tr]
    refine (panics_fragment "tr").trans ?_
    rw [Exec.panics_bind_of_not (not_panics (keeps_key _))]
    have hend : ∀ (kp : KeyExpression) (tree : Option TapTree) (s₁ : Text), ¬ Exec.Panics (do
        let tree ← pure tree
        expect ")"
        pure (DescriptorTemplate.tr kp tree)) s₁ := fun kp tree s₁ =>
      not_panics (.bind (.pure _) fun _ => .bind (keeps_expect _) fun _ => .pure _)
    have hbody : ∀ (kp : KeyExpression) (s₁ : Text), Exec.Panics (do
        skip 1
        let tree ← q
        let tree ← pure (some tree)
        expect ")"
        pure (DescriptorTemplate.tr kp tree)) (',' :: s₁) ↔ T.cut s₁ := fun kp s₁ =>
      (Exec.panics_bind_left fun tree s₂ _ => hend kp (some tree) s₂).trans h.panics
    constructor
    · rintro ⟨kp, s₁, hkp, hp⟩
      obtain ⟨kt, hkt, rfl⟩ := parse_key_expression_ok.mp hkp
      rw [Exec.Panics, Exec.get_bind, ← Exec.Panics] at hp
      split at hp
      · next hcomma =>
          obtain ⟨s₂, rfl⟩ := starts_with_iff.mp hcomma
          exact ⟨kp, kt, s₂, hkt, rfl, (hbody kp s₂).mp hp⟩
      · exact absurd hp (hend kp none s₁)
    · rintro ⟨kp, kt, s₁, hkt, rfl, hcut⟩
      refine ⟨kp, ',' :: s₁, parse_key_expression_ok.mpr ⟨kt, hkt, rfl⟩, ?_⟩
      rw [Exec.Panics, Exec.get_bind, ← Exec.Panics, if_pos (starts_with_comma _)]
      exact (hbody kp s₁).mpr hcut

/-! ## The table -/

theorem ReadsFragment.guard {name : String} {c : Prop} [Decidable c] {allowed : Bool}
    {e : ParseError} {m : ParseResult DescriptorTemplate} (hc : c ↔ allowed = false)
    (h : allowed = true → ReadsFragment name m S) :
    ReadsFragment name (Exec.reject c e >>= fun _ => m) (guarded allowed S) where
  ok {s v s'} := by
    rw [Exec.reject_bind_ok, hc, Bool.not_eq_false]
    constructor
    · rintro ⟨ha, hm⟩
      obtain ⟨t, ht, rfl⟩ := (h ha).ok.mp hm
      exact ⟨t, ⟨ha, ht⟩, rfl⟩
    · rintro ⟨t, ⟨ha, ht⟩, rfl⟩
      exact ⟨ha, (h ha).ok.mpr ⟨t, ht, rfl⟩⟩
  panics {s} := by
    rw [Exec.panics_reject_bind, hc, Bool.not_eq_false]
    exact and_congr_right fun ha => (h ha).panics

/-- The two tables name the same fragments, and each is read as it is written. -/
theorem reads_fragments {P : ParseContext → ParseResult DescriptorTemplate}
    {S : ParseContext → Syntax DescriptorTemplate} (h : ∀ ctx, Reads (P ctx) (S ctx))
    (ht : Reads q T) (ctx : ParseContext) :
    List.Forall₂ (fun f a => f.1 = a.1 ∧ ReadsFragment f.1 f.2 a.2) (fragments P q ctx)
      (arguments S T ctx) := by
  have hwsh : ReadsFragment "wsh" (do
      Exec.reject (¬ ctx.wsh_allowed) .invalidScriptContext
      let inner_ctx ← Exec.orElse ctx.wsh_inner .invalidScriptContext
      parse_unary "wsh" (P inner_ctx) .wsh)
      (guarded ctx.wsh_inner.isSome (unary_args .wsh (S (ctx.wsh_inner.getD ctx)))) := by
    refine ReadsFragment.guard (by cases ctx <;> decide) fun hsome => ?_
    obtain ⟨inner_ctx, hctx⟩ := Option.isSome_iff_exists.mp hsome
    rw [hctx]
    exact reads_unary (h inner_ctx) "wsh" .wsh
  unfold fragments arguments
  refine .cons ⟨rfl, reads_threshold_kp_fragment _ _ _ _⟩ ?_
  refine .cons ⟨rfl, reads_threshold_kp_fragment _ _ _ _⟩ ?_
  refine .cons ⟨rfl, reads_threshold_kp_fragment _ _ _ _⟩ ?_
  refine .cons ⟨rfl, reads_threshold_kp_fragment _ _ _ _⟩ ?_
  refine .cons ⟨rfl, reads_thresh (h ctx)⟩ ?_
  refine .cons ⟨rfl, hwsh⟩ ?_
  refine .cons ⟨rfl, .guard (by simp) fun _ => reads_unary (h _) _ _⟩ ?_
  refine .cons ⟨rfl, .guard (by simp) fun _ => reads_kp_fragment _ _ _⟩ ?_
  refine .cons ⟨rfl, reads_kp_fragment _ _ _⟩ ?_
  refine .cons ⟨rfl, .guard (by simp) fun _ => reads_tr ht⟩ ?_
  refine .cons ⟨rfl, reads_kp_fragment _ _ _⟩ ?_
  refine .cons ⟨rfl, reads_kp_fragment _ _ _⟩ ?_
  refine .cons ⟨rfl, reads_kp_fragment _ _ _⟩ ?_
  refine .cons ⟨rfl, reads_num_fragment _ _ _⟩ ?_
  refine .cons ⟨rfl, reads_num_fragment _ _ _⟩ ?_
  refine .cons ⟨rfl, reads_hex_fragment _ _ _⟩ ?_
  refine .cons ⟨rfl, reads_hex_fragment _ _ _⟩ ?_
  refine .cons ⟨rfl, reads_hex_fragment _ _ _⟩ ?_
  refine .cons ⟨rfl, reads_hex_fragment _ _ _⟩ ?_
  refine .cons ⟨rfl, reads_andor (h ctx)⟩ ?_
  refine .cons ⟨rfl, reads_binary (h ctx) _ _⟩ ?_
  refine .cons ⟨rfl, reads_binary (h ctx) _ _⟩ ?_
  refine .cons ⟨rfl, reads_binary (h ctx) _ _⟩ ?_
  refine .cons ⟨rfl, reads_binary (h ctx) _ _⟩ ?_
  refine .cons ⟨rfl, reads_binary (h ctx) _ _⟩ ?_
  refine .cons ⟨rfl, reads_binary (h ctx) _ _⟩ ?_
  refine .cons ⟨rfl, reads_binary (h ctx) _ _⟩ ?_
  exact .nil

/-- A name is found where it is followed by a parenthesis, and only there. -/
theorem find_fragment {α : Type} {table : List (String × α)} {e : String × α}
    (hnodup : (table.map Prod.fst).Nodup) (hname : ∀ e ∈ table, '(' ∉ e.1.toList) :
    table.find? (fun e => starts_with (e.1 ++ "(") s) = some e ↔
      e ∈ table ∧ ∃ s₁, s = e.1.toList ++ '(' :: s₁ := by
  have hstarts : ∀ e : String × α, starts_with (e.1 ++ "(") s = true ↔
      ∃ s₁, s = e.1.toList ++ '(' :: s₁ := by
    intro e
    rw [starts_with_iff]
    simp
  have hfound : ∀ e, table.find? (fun e => starts_with (e.1 ++ "(") s) = some e →
      e ∈ table ∧ ∃ s₁, s = e.1.toList ++ '(' :: s₁ := by
    intro e h
    have hp := List.find?_some h
    exact ⟨List.mem_of_find?_eq_some h, (hstarts e).mp hp⟩
  constructor
  · exact hfound e
  · rintro ⟨hmem, s₁, hs⟩
    cases hfind : table.find? (fun e => starts_with (e.1 ++ "(") s) with
    | none => exact absurd ((hstarts e).mpr ⟨s₁, hs⟩) (List.find?_eq_none.mp hfind e hmem)
    | some e' =>
        obtain ⟨hmem', s₂, hs'⟩ := hfound e' hfind
        have heq : e'.1 = e.1 := by
          refine String.toList_inj.mp ?_
          have htake := congrArg (List.takeWhile (· ≠ '(')) (hs'.symm.trans hs)
          rwa [(Decimal.takeWhile_append (fun c hc => ?_) fun c hc => ?_).1,
            (Decimal.takeWhile_append (fun c hc => ?_) fun c hc => ?_).1] at htake
          · simpa using ne_of_mem_of_not_mem hc (hname e hmem)
          · cases hc
            simp
          · simpa using ne_of_mem_of_not_mem hc (hname e' hmem')
          · cases hc
            simp
        rw [List.inj_on_of_nodup_map hnodup hmem' hmem heq]

theorem exists_of_mem {α β : Type} {R : α → β → Prop} {l : List α} {l' : List β}
    (h : List.Forall₂ R l l') {a : α} (ha : a ∈ l) : ∃ b ∈ l', R a b := by
  induction h with
  | nil => cases ha
  | cons hab _ ih =>
      cases ha with
      | head => exact ⟨_, .head _, hab⟩
      | tail _ ha =>
          obtain ⟨b, hb, hr⟩ := ih ha
          exact ⟨b, .tail _ hb, hr⟩

theorem fragments_nodup (P : ParseContext → ParseResult DescriptorTemplate)
    (q : ParseResult TapTree) (ctx : ParseContext) :
    ((fragments P q ctx).map Prod.fst).Nodup := by
  simp [fragments]

/-- Names begin with a letter, and are without punctuation. -/
def IsName (name : Text) : Prop :=
  (∃ c rest, name = c :: rest ∧ c.isAlpha) ∧ '(' ∉ name ∧ ':' ∉ name ∧ '\'' ∉ name

theorem isName_of_mem {S : ParseContext → Syntax DescriptorTemplate} {ctx : ParseContext}
    {e : String × Syntax DescriptorTemplate} (he : e ∈ arguments S T ctx) : IsName e.1.toList := by
  revert e
  unfold arguments IsName
  simp

/-- Neither a brace nor a run of letters with a colon is what an inner descriptor
begins with. -/
structure Begins (s : Text) : Prop where
  not_brace : Not '{' s
  not_wrapped : ∀ w s₁, w ≠ [] → (∀ c ∈ w, c.isAlpha) → s ≠ w ++ ':' :: s₁

theorem IsName.begins {name : Text} (h : IsName name) (s : Text) : Begins (name ++ '(' :: s) := by
  obtain ⟨⟨c, rest, rfl, hc⟩, hparen, hcolon, -⟩ := h
  constructor
  · rintro hbrace
    cases hbrace
    simp at hc
  · intro w s₁ hw halpha heq
    rcases List.append_eq_append_iff.mp heq with ⟨more, hmore, hrest⟩ | ⟨more, hmore, hrest⟩
    · cases more with
      | nil => cases hrest
      | cons c' more =>
          cases hrest
          have := halpha '(' (by simp [hmore])
          simp at this
    · cases more with
      | nil => cases hrest
      | cons c' more =>
          cases hrest
          exact hcolon (by simp [hmore])

theorem begins_of_not_alpha {c : Char} (hc : c.isAlpha = false) (hbrace : c ≠ '{') (s : Text) :
    Begins (c :: s) := by
  constructor
  · simpa using hbrace
  · rintro w s₁ hw halpha heq
    cases w with
    | nil => exact hw rfl
    | cons c' w =>
        cases heq
        rw [halpha c (.head _)] at hc
        cases hc

theorem reads_inner {P : ParseContext → ParseResult DescriptorTemplate}
    {S : ParseContext → Syntax DescriptorTemplate} (h : ∀ ctx, Reads (P ctx) (S ctx))
    (ht : Reads q T) (ctx : ParseContext) :
    Reads (parse_inner_descriptor P q ctx) (inner_descriptors (arguments S T ctx)) := by
  have htable := reads_fragments h ht ctx
  have hname : ∀ f ∈ fragments P q ctx, IsName f.1.toList := by
    intro f hf
    obtain ⟨a, ha, heq, -⟩ := exists_of_mem htable hf
    exact heq ▸ isName_of_mem ha
  have hfound : ∀ f ∈ fragments P q ctx, ∀ s,
      parse_inner_descriptor P q ctx (f.1.toList ++ '(' :: s) = f.2 (f.1.toList ++ '(' :: s) := by
    intro f hf s
    have hfind := (find_fragment (fragments_nodup P q ctx) fun f hf => (hname f hf).2.1).mpr
      ⟨hf, s, rfl⟩
    rw [parse_inner_descriptor, Exec.get_bind]
    generalize hg : List.find? _ (fragments P q ctx) = found
    obtain rfl : found = some f := hg.symm.trans hfind
    rfl
  have hdigit : ∀ s, (∀ f ∈ fragments P q ctx, ∀ s₁, s ≠ f.1.toList ++ '(' :: s₁) →
      parse_inner_descriptor P q ctx s = (if starts_with "0" s then do
          skip 1
          pure .zero
        else if starts_with "1" s then do
          skip 1
          pure .one
        else Exec.throw .unrecognizedFragment) s := by
    intro s hs
    rw [parse_inner_descriptor, Exec.get_bind]
    generalize hg : List.find? _ (fragments P q ctx) = found
    cases found with
    | none => rfl
    | some f =>
        obtain ⟨hf, s₁, heq⟩ :=
          (find_fragment (fragments_nodup P q ctx) fun f hf => (hname f hf).2.1).mp hg
        exact absurd heq (hs f hf s₁)
  have hskip : ∀ (c : Char) (s : Text), c.isAlpha = false →
      ∀ f ∈ fragments P q ctx, ∀ s₁, c :: s ≠ f.1.toList ++ '(' :: s₁ := by
    intro c s hc f hf s₁ heq
    obtain ⟨c', rest, hrest, halpha⟩ := (hname f hf).1
    rw [hrest] at heq
    cases heq
    rw [halpha] at hc
    cases hc
  constructor
  · intro s v s'
    constructor
    · intro hrun
      by_cases hs : ∃ f ∈ fragments P q ctx, ∃ s₁, s = f.1.toList ++ '(' :: s₁
      · obtain ⟨f, hf, s₁, rfl⟩ := hs
        obtain ⟨a, ha, heq, hreads⟩ := exists_of_mem htable hf
        obtain ⟨t, htext, rfl⟩ := hreads.ok.mp ((hfound f hf s₁).symm.trans hrun)
        exact ⟨_, .inl ⟨a, ha, t, htext, rfl⟩, by simp [fragment, heq]⟩
      · rw [hdigit s fun f hf s₁ heq => hs ⟨f, hf, s₁, heq⟩] at hrun
        split at hrun
        · next h0 =>
            obtain ⟨s₁, rfl⟩ := starts_with_iff.mp h0
            cases hrun
            exact ⟨['0'], .inr (.inl ⟨rfl, rfl⟩), rfl⟩
        · split at hrun
          · next h1 =>
              obtain ⟨s₁, rfl⟩ := starts_with_iff.mp h1
              cases hrun
              exact ⟨['1'], .inr (.inr ⟨rfl, rfl⟩), rfl⟩
          · cases hrun
    · rintro ⟨t, ⟨a, ha, at_, htext, rfl⟩ | ⟨rfl, rfl⟩ | ⟨rfl, rfl⟩, rfl⟩
      · obtain ⟨f, hf, heq, hreads⟩ := exists_of_mem htable.flip ha
        have hs : fragment a.1 at_ ++ s' = f.1.toList ++ '(' :: (at_ ++ ')' :: s') := by
          simp [fragment, heq]
        rw [hs, hfound f hf]
        exact hreads.ok.mpr ⟨at_, htext, rfl⟩
      · refine (hdigit _ (hskip '0' s' (by decide))).trans ?_
        rw [if_pos (by simp [starts_with])]
        rfl
      · refine (hdigit _ (hskip '1' s' (by decide))).trans ?_
        rw [if_neg (by simp [starts_with]), if_pos (by simp [starts_with])]
        rfl
  · intro s
    constructor
    · intro hp
      by_cases hs : ∃ f ∈ fragments P q ctx, ∃ s₁, s = f.1.toList ++ '(' :: s₁
      · obtain ⟨f, hf, s₁, rfl⟩ := hs
        obtain ⟨a, ha, heq, hreads⟩ := exists_of_mem htable hf
        rw [Exec.Panics, hfound f hf, ← Exec.Panics] at hp
        exact ⟨a, ha, s₁, hreads.panics.mp hp, by rw [heq]⟩
      · rw [Exec.Panics, hdigit s fun f hf s₁ heq => hs ⟨f, hf, s₁, heq⟩, ← Exec.Panics] at hp
        split at hp
        · exact absurd hp (not_panics (.bind (keeps_skip _) fun _ => .pure _))
        · split at hp
          · exact absurd hp (not_panics (.bind (keeps_skip _) fun _ => .pure _))
          · exact absurd hp (not_panics (.throw _))
    · rintro ⟨a, ha, s₁, hcut, rfl⟩
      obtain ⟨f, hf, heq, hreads⟩ := exists_of_mem htable.flip ha
      rw [← heq, Exec.Panics, hfound f hf, ← Exec.Panics]
      exact hreads.panics.mpr hcut

/-! ## Wrappers -/

/-- An inner descriptor is not taken for wrappers or a tree. -/
structure BeginsWell (S : Syntax DescriptorTemplate) : Prop where
  text : ∀ {v t}, S.text v t → ∀ s', Begins (t ++ s')
  cut : ∀ {s}, S.cut s → Begins s

theorem inner_begins {S : ParseContext → Syntax DescriptorTemplate} {ctx : ParseContext} :
    BeginsWell (inner_descriptors (arguments S T ctx)) where
  text {v t} h s' := by
    rcases h with ⟨a, ha, at_, -, rfl⟩ | ⟨-, rfl⟩ | ⟨-, rfl⟩
    · simpa [fragment] using (isName_of_mem ha).begins (at_ ++ ')' :: s')
    · exact begins_of_not_alpha (by decide) (by decide) s'
    · exact begins_of_not_alpha (by decide) (by decide) s'
  cut {s} h := by
    obtain ⟨a, ha, s₁, -, rfl⟩ := h
    exact (isName_of_mem ha).begins s₁

theorem take_wrappers_some {w : Text} (hw : w ≠ []) (halpha : ∀ c ∈ w, c.isAlpha) :
    take_wrappers (w ++ ':' :: s) = .ok w s := by
  have htake : (w ++ ':' :: s).takeWhile Char.isAlpha = w :=
    (Decimal.takeWhile_append halpha (by simp)).1
  rw [take_wrappers, Exec.get_bind, htake, if_pos ⟨hw, by simp [starts_with]⟩]
  have hskip : skip (w.length + 1) (w ++ ':' :: s) = .ok () s := by
    rw [skip_apply]
    simp
  exact Exec.bind_apply_ok hskip

theorem take_wrappers_none (h : ∀ w s₁, w ≠ [] → (∀ c ∈ w, c.isAlpha) → s ≠ w ++ ':' :: s₁) :
    take_wrappers s = .ok [] s := by
  rw [take_wrappers, Exec.get_bind, if_neg]
  · rfl
  · rintro ⟨hne, hcolon⟩
    obtain ⟨s₁, hs₁⟩ := starts_with_iff.mp hcolon
    refine h _ s₁ hne (fun c hc => List.mem_takeWhile_imp hc) ?_
    calc s = s.takeWhile Char.isAlpha ++ s.drop (s.takeWhile Char.isAlpha).length :=
          (List.prefix_iff_eq_append.mp (List.takeWhile_prefix Char.isAlpha)).symm
      _ = s.takeWhile Char.isAlpha ++ ':' :: s₁ := by rw [hs₁]; rfl

theorem wrap_all_alpha {w : Text} {inner v : DescriptorTemplate} (h : wrap_all w inner = some v) :
    ∀ c ∈ w, c.isAlpha := by
  induction w generalizing v with
  | nil => simp
  | cons c w ih =>
      obtain ⟨v', hw, hc⟩ := Option.bind_eq_some_iff.mp h
      intro c' hmem
      cases hmem with
      | head =>
          unfold wrap at hc
          split at hc
          all_goals first | rfl | cases hc
      | tail _ hmem => exact ih hw c' hmem

theorem reads_wrapped {m : ParseResult DescriptorTemplate} (h : Reads m S) (hS : BeginsWell S) :
    Reads (do
      let wrappers ← take_wrappers
      let inner ← m
      Exec.orElse (wrap_all wrappers inner) .invalidSyntax) (wrapped S) := by
  have hend : ∀ w, ∀ s, Exec.Panics (m >>= fun inner =>
      Exec.orElse (wrap_all w inner) .invalidSyntax) s ↔ S.cut s := fun w s =>
    (Exec.panics_bind_left fun inner s₁ _ => not_panics (.orElse _ _)).trans h.panics
  constructor
  · intro s v s'
    constructor
    · intro hrun
      by_cases hw : ∃ w s₁, w ≠ [] ∧ (∀ c ∈ w, c.isAlpha) ∧ s = w ++ ':' :: s₁
      · obtain ⟨w, s₁, hne, halpha, rfl⟩ := hw
        rw [Exec.bind_apply_ok (take_wrappers_some hne halpha)] at hrun
        obtain ⟨inner, s₂, hinner, hv⟩ := Exec.bind_ok.mp hrun
        obtain ⟨hwrap, rfl⟩ := Exec.orElse_ok.mp hv
        obtain ⟨t, ht, rfl⟩ := h.ok.mp hinner
        exact ⟨w ++ ':' :: t, .inr ⟨w, inner, t, hne, ht, hwrap, rfl⟩, by simp⟩
      · have hnone := take_wrappers_none fun w s₁ hne halpha heq => hw ⟨w, s₁, hne, halpha, heq⟩
        rw [Exec.bind_apply_ok hnone] at hrun
        obtain ⟨inner, s₂, hinner, hv⟩ := Exec.bind_ok.mp hrun
        obtain ⟨hwrap, rfl⟩ := Exec.orElse_ok.mp hv
        obtain ⟨t, ht, rfl⟩ := h.ok.mp hinner
        cases hwrap
        exact ⟨t, .inl ht, rfl⟩
    · rintro ⟨t, ht | ⟨w, inner, it, hne, ht, hwrap, rfl⟩, rfl⟩
      · rw [Exec.bind_apply_ok (take_wrappers_none (hS.text ht s').not_wrapped)]
        exact Exec.bind_ok.mpr ⟨v, s', h.ok.mpr ⟨t, ht, rfl⟩, rfl⟩
      · rw [List.append_assoc, List.cons_append,
          Exec.bind_apply_ok (take_wrappers_some hne (wrap_all_alpha hwrap))]
        exact Exec.bind_ok.mpr ⟨inner, s', h.ok.mpr ⟨it, ht, rfl⟩,
          Exec.orElse_ok.mpr ⟨hwrap, rfl⟩⟩
  · intro s
    constructor
    · intro hp
      by_cases hw : ∃ w s₁, w ≠ [] ∧ (∀ c ∈ w, c.isAlpha) ∧ s = w ++ ':' :: s₁
      · obtain ⟨w, s₁, hne, halpha, rfl⟩ := hw
        rw [Exec.Panics, Exec.bind_apply_ok (take_wrappers_some hne halpha), ← Exec.Panics] at hp
        exact .inr ⟨w, s₁, hne, halpha, (hend w s₁).mp hp, rfl⟩
      · have hnone := take_wrappers_none fun w s₁ hne halpha heq => hw ⟨w, s₁, hne, halpha, heq⟩
        rw [Exec.Panics, Exec.bind_apply_ok hnone, ← Exec.Panics] at hp
        exact .inl ((hend [] s).mp hp)
    · rintro (hcut | ⟨w, s₁, hne, halpha, hcut, rfl⟩)
      · rw [Exec.Panics, Exec.bind_apply_ok (take_wrappers_none (hS.cut hcut).not_wrapped),
          ← Exec.Panics]
        exact (hend [] s).mpr hcut
      · rw [Exec.Panics, Exec.bind_apply_ok (take_wrappers_some hne halpha), ← Exec.Panics]
        exact (hend w s₁).mpr hcut

/-- Wrappers begin with a letter too. -/
theorem BeginsWell.wrapped_text (hS : BeginsWell S) {v : DescriptorTemplate} {t : Text}
    (h : (wrapped S).text v t) (s' : Text) : Not '{' (t ++ s') := by
  rcases h with h | ⟨w, inner, it, hne, -, hwrap, rfl⟩
  · exact (hS.text h s').not_brace
  · cases w with
    | nil => exact absurd rfl hne
    | cons c w =>
        have hc := wrap_all_alpha hwrap c (.head _)
        rintro hbrace
        cases hbrace
        simp at hc

theorem BeginsWell.wrapped_cut (hS : BeginsWell S) (h : (wrapped S).cut s) : Not '{' s := by
  rcases h with h | ⟨w, s₁, hne, halpha, -, rfl⟩
  · exact (hS.cut h).not_brace
  · cases w with
    | nil => exact absurd rfl hne
    | cons c w =>
        have hc := halpha c (.head _)
        rintro hbrace
        cases hbrace
        simp at hc

/-! ## Depth -/

theorem reads_tree {m : ParseResult DescriptorTemplate} (h : Reads m S) (hq : Reads q T)
    (htext : ∀ {v t}, S.text v t → ∀ s', Not '{' (t ++ s')) (hcut : ∀ {s}, S.cut s → Not '{' s) :
    Reads (do
      let input ← Exec.get
      if starts_with "\x7b" input then do
        skip 1
        let left ← q
        expect ","
        let right ← q
        expect "\x7d"
        pure (.branch left right)
      else do
        let desc ← m
        pure (TapTree.script desc)) (trees S T) := by
  have hbrace : ∀ {s}, Not '{' s → ¬ starts_with "\x7b" s = true := by
    intro s hs hstarts
    obtain ⟨s₁, rfl⟩ := starts_with_iff.mp hstarts
    exact hs rfl
  have hopen : ∀ s, starts_with "\x7b" ('{' :: s) = true := fun s => starts_with_iff.mpr ⟨s, rfl⟩
  have hskip : ∀ {f : Unit → ParseResult TapTree} {s}, (skip 1 >>= f) ('{' :: s) = f () s := rfl
  constructor
  · intro s tree s'
    rw [Exec.get_bind]
    constructor
    · intro hrun
      split at hrun
      · next hstarts =>
          obtain ⟨s₁, rfl⟩ := starts_with_iff.mp hstarts
          obtain ⟨left, s₂, hleft, hrun⟩ := Exec.bind_ok.mp (hskip.symm.trans hrun)
          obtain ⟨_, s₃, hcomma, hrun⟩ := Exec.bind_ok.mp hrun
          obtain ⟨right, s₄, hright, hrun⟩ := Exec.bind_ok.mp hrun
          obtain ⟨_, s₅, hclose, hv⟩ := Exec.bind_ok.mp hrun
          cases hv
          obtain rfl := expect_ok.mp hclose
          obtain ⟨rt, hrt, rfl⟩ := hq.ok.mp hright
          obtain rfl := expect_ok.mp hcomma
          obtain ⟨lt, hlt, rfl⟩ := hq.ok.mp hleft
          exact ⟨_, .inr ⟨left, right, lt, rt, rfl, hlt, hrt, rfl⟩, by simp⟩
      · obtain ⟨desc, s₁, hdesc, hv⟩ := Exec.bind_ok.mp hrun
        cases hv
        obtain ⟨t, ht, rfl⟩ := h.ok.mp hdesc
        exact ⟨t, .inl ⟨desc, rfl, ht⟩, rfl⟩
    · rintro ⟨t, ⟨desc, rfl, ht⟩ | ⟨left, right, lt, rt, rfl, hlt, hrt, rfl⟩, rfl⟩
      · rw [if_neg (hbrace (htext ht s'))]
        exact Exec.bind_ok.mpr ⟨desc, s', h.ok.mpr ⟨t, ht, rfl⟩, rfl⟩
      · have hs : '{' :: lt ++ ',' :: rt ++ ['}'] ++ s' =
            '{' :: (lt ++ ',' :: (rt ++ '}' :: s')) := by simp
        rw [hs, if_pos (hopen _)]
        exact hskip.trans (Exec.bind_ok.mpr ⟨left, _, hq.ok.mpr ⟨lt, hlt, rfl⟩,
          Exec.bind_ok.mpr ⟨(), _, expect_ok.mpr rfl, Exec.bind_ok.mpr ⟨right, _,
            hq.ok.mpr ⟨rt, hrt, rfl⟩, Exec.bind_ok.mpr ⟨(), s', expect_ok.mpr rfl, rfl⟩⟩⟩⟩)
  · intro s
    rw [Exec.Panics, Exec.get_bind, ← Exec.Panics]
    have hright : ∀ left s₁, Exec.Panics (do
        expect ","
        let right ← q
        expect "\x7d"
        pure (TapTree.branch left right)) s₁ ↔ ∃ s₂, s₁ = ',' :: s₂ ∧ T.cut s₂ := by
      intro left s₁
      have hend : ∀ s₂, Exec.Panics (do
          let right ← q
          expect "\x7d"
          pure (TapTree.branch left right)) s₂ ↔ T.cut s₂ := fun s₂ =>
        (Exec.panics_bind_left fun right s₃ _ =>
          not_panics (.bind (keeps_expect _) fun _ => .pure _)).trans hq.panics
      rw [Exec.panics_bind_of_not (not_panics (keeps_expect _))]
      constructor
      · rintro ⟨_, s₂, hcomma, hp⟩
        exact ⟨s₂, expect_ok.mp hcomma, (hend s₂).mp hp⟩
      · rintro ⟨s₂, rfl, hc⟩
        exact ⟨(), s₂, expect_ok.mpr rfl, (hend s₂).mpr hc⟩
    constructor
    · intro hp
      split at hp
      · next hstarts =>
          obtain ⟨s₁, rfl⟩ := starts_with_iff.mp hstarts
          refine .inr ⟨s₁, rfl, ?_⟩
          obtain ⟨_, _, hs, hp⟩ := (Exec.panics_bind_of_not (not_panics (keeps_skip 1))).mp hp
          cases hs
          rcases Exec.panics_bind.mp hp with hp | ⟨left, s₂, hleft, hp⟩
          · exact .inl (hq.panics.mp hp)
          · obtain ⟨s₃, rfl, hc⟩ := (hright left s₂).mp hp
            obtain ⟨lt, hlt, hs₁⟩ := hq.ok.mp hleft
            exact .inr ⟨left, lt, s₃, hlt, hs₁, hc⟩
      · exact .inl (h.panics.mp ((Exec.panics_bind_left fun desc s₁ _ =>
          not_panics (.pure _)).mp hp))
    · rintro (hc | ⟨s₁, rfl, hc⟩)
      · rw [if_neg (hbrace (hcut hc))]
        exact Exec.panics_bind.mpr (.inl (h.panics.mpr hc))
      · rw [if_pos (hopen s₁)]
        refine Exec.panics_bind.mpr (.inr ⟨(), s₁, rfl, Exec.panics_bind.mpr ?_⟩)
        rcases hc with hc | ⟨left, lt, s₂, hlt, rfl, hc⟩
        · exact .inl (hq.panics.mpr hc)
        · exact .inr ⟨left, ',' :: s₂, hq.ok.mpr ⟨lt, hlt, rfl⟩,
            (hright left _).mpr ⟨s₂, rfl, hc⟩⟩

theorem reads_nothing {α : Type} (e : ParseError) :
    Reads (Exec.throw e : ParseResult α) too_deep where
  ok := by simp [too_deep, plain]
  panics := iff_of_false (not_panics (.throw e)) not_false

theorem descriptors_begin {depth : ℕ} {ctx : ParseContext} :
    (∀ {v t}, (descriptors depth ctx).text v t → ∀ s', Not '{' (t ++ s')) ∧
      ∀ {s}, (descriptors depth ctx).cut s → Not '{' s := by
  cases depth with
  | zero => exact ⟨fun h => h.elim, fun h => h.elim⟩
  | succ depth => exact ⟨inner_begins.wrapped_text, inner_begins.wrapped_cut⟩

/-- The parser reads the language, however deep the nesting may go. -/
theorem reads_descriptors (depth : ℕ) :
    (∀ ctx, Reads (parse_descriptor depth ctx) (descriptors depth ctx)) ∧
      Reads (parse_tap_tree depth) (tap_trees depth) := by
  induction depth with
  | zero => exact ⟨fun ctx => reads_nothing _, reads_nothing _⟩
  | succ depth ih =>
      obtain ⟨hdesc, htree⟩ := ih
      exact ⟨fun ctx => reads_wrapped (reads_inner hdesc htree ctx) inner_begins,
        reads_tree (hdesc .taproot) htree descriptors_begin.1 descriptors_begin.2⟩

theorem from_str_ok {v : DescriptorTemplate} :
    from_str s = .ok v s' ↔ templates.text v s ∧ s' = [] := by
  rw [from_str, Exec.bind_ok]
  constructor
  · rintro ⟨v', s₁, hv, h⟩
    rw [Exec.get_bind] at h
    obtain ⟨hnil, h⟩ := Exec.reject_bind_ok.mp h
    cases h
    obtain rfl := not_not.mp hnil
    obtain ⟨t, ht, rfl⟩ := ((reads_descriptors _).1 _).ok.mp hv
    exact ⟨by rwa [List.append_nil], rfl⟩
  · rintro ⟨ht, rfl⟩
    exact ⟨v, [], ((reads_descriptors _).1 _).ok.mpr ⟨s, ht, by simp⟩, rfl⟩

theorem from_str_panics : Exec.Panics from_str s ↔ templates.cut s := by
  rw [from_str, Exec.panics_bind_left, ((reads_descriptors _).1 _).panics]
  · rfl
  · exact fun v s₁ _ => not_panics (.bind .get fun _ => .bind (.reject _ _) fun _ => .pure _)

end

end Vanadium.Bip388
