import Vanadium.Proofs.DescriptorReads

/-!
# Printing and parsing again

A template is printed as one of its texts, with one exception: hardened steps
are read with an apostrophe and printed without, as numbers that are too large
to be read. So a text comes back if and only if there is no apostrophe in it.

Whether there is one depends on the keys of the template only. `Honest` says
this of a syntax, and that everything else is printed as it may be read; all
that has to be followed through the language is this one property.
-/

namespace Vanadium.Bip388

open Lib

def KeyExpression.hardened (kp : KeyExpression) : Prop :=
  HARDENED_INDEX ≤ kp.num1 ∨ HARDENED_INDEX ≤ kp.num2

/-- None of the keys has a hardened step. -/
def Unhardened (keys : List KeyExpression) : Prop := ∀ kp ∈ keys, ¬ kp.hardened

@[simp] theorem unhardened_nil : Unhardened [] := by simp [Unhardened]

@[simp] theorem unhardened_append {keys keys' : List KeyExpression} :
    Unhardened (keys ++ keys') ↔ Unhardened keys ∧ Unhardened keys' := List.forall_mem_append

@[simp] theorem unhardened_cons {kp : KeyExpression} {keys : List KeyExpression} :
    Unhardened (kp :: keys) ↔ ¬ kp.hardened ∧ Unhardened keys := List.forall_mem_cons

namespace DescriptorTemplate

mutual

/-- The keys of a template, from left to right. -/
def keys : DescriptorTemplate → List KeyExpression
  | sh inner | wsh inner => inner.keys
  | pkh kp | wpkh kp | pk kp | pk_k kp | pk_h kp => [kp]
  | sortedmulti _ kps | sortedmulti_a _ kps | multi _ kps | multi_a _ kps => kps
  | tr kp tree => kp :: keys_tree tree
  | zero | one | older _ | after _ | sha256 _ | ripemd160 _ | hash256 _ | hash160 _ => []
  | andor x y z => x.keys ++ (y.keys ++ z.keys)
  | and_v x y | and_b x y | and_n x y => x.keys ++ y.keys
  | or_b x y | or_c x y | or_d x y | or_i x y => x.keys ++ y.keys
  | thresh _ descs => keys_scripts descs
  | a inner | s inner | c inner | t inner | d inner => inner.keys
  | v inner | j inner | n inner | l inner | u inner => inner.keys

def keys_scripts : List DescriptorTemplate → List KeyExpression
  | [] => []
  | desc :: descs => desc.keys ++ keys_scripts descs

def keys_tree : Option TapTree → List KeyExpression
  | none => []
  | some tree => keys_tap_tree tree

def keys_tap_tree : TapTree → List KeyExpression
  | .script desc => desc.keys
  | .branch left right => keys_tap_tree left ++ keys_tap_tree right

end

end DescriptorTemplate

open DescriptorTemplate (keys_scripts keys_tap_tree display_scripts display_tap_tree display_inner)

/-- The apostrophes in a text of `v` stand for hardened steps of its keys, what
is printed for `v` has none, and is a text of `v` if none is needed. -/
structure Honest {α : Type} (keys : α → List KeyExpression) (display : α → Text)
    (text : α → Text → Prop) : Prop where
  apostrophe : ∀ {v t}, text v t → ('\'' ∉ t ↔ Unhardened (keys v))
  display_plain : ∀ {v t}, text v t → '\'' ∉ display v
  printed : ∀ {v t}, text v t → Unhardened (keys v) → text v (display v)

/-! ## Keys -/

theorem decimal_plain (num : U32) : '\'' ∉ decimal num := fun h => by
  have := (Decimal.numeral_toDigits num.toNat).digit '\'' h
  simp at this

theorem step_plain (num : U32) : '\'' ∉ step_text num ↔ ¬ HARDENED_INDEX ≤ num := by
  rw [step_text]
  split
  · next h => simp [h]
  · next h => simp [h, decimal_plain]

theorem indices_plain (key_indices : List U32) :
    '\'' ∉ KeyExpression.display_indices key_indices := by
  induction key_indices with
  | nil => simp [KeyExpression.display_indices]
  | cons idx key_indices ih =>
      cases key_indices with
      | nil => simp [KeyExpression.display_indices, decimal_plain]
      | cons idx' key_indices =>
          rw [display_indices_cons (List.cons_ne_nil _ _)]
          simp [decimal_plain, ih]

theorem origin_plain {ctx : ParseContext} {key_type : KeyExpressionType} {origin : Text}
    (h : OriginText ctx key_type origin) : '\'' ∉ origin := by
  cases key_type with
  | plainKey key_index =>
      obtain rfl : origin = '@' :: decimal key_index := h
      simp [decimal_plain]
  | musig key_indices =>
      obtain ⟨-, -, -, rfl⟩ := h
      simp [fragment, indices_plain]

theorem suffix_plain {num1 num2 : U32} {suffix : Text} (h : SuffixText num1 num2 suffix) :
    '\'' ∉ suffix ↔ ¬ HARDENED_INDEX ≤ num1 ∧ ¬ HARDENED_INDEX ≤ num2 := by
  rcases h with ⟨rfl, rfl, rfl⟩ | rfl
  · simp [HARDENED_INDEX]
  · simp [step_plain]

theorem display_suffix_text {num1 num2 : U32} (h1 : ¬ HARDENED_INDEX ≤ num1)
    (h2 : ¬ HARDENED_INDEX ≤ num2) :
    SuffixText num1 num2 (KeyExpression.display_suffix num1 num2) := by
  rw [KeyExpression.display_suffix]
  split
  · next h => exact .inl ⟨h.1, h.2, rfl⟩
  · refine .inr ?_
    rw [step_text, if_neg h1, step_text, if_neg h2]

theorem display_suffix_plain (num1 num2 : U32) :
    '\'' ∉ KeyExpression.display_suffix num1 num2 := by
  rw [KeyExpression.display_suffix]
  split <;> simp [decimal_plain]

/-- A key is printed as its origin, and a suffix. -/
theorem display_origin {ctx : ParseContext} {kp : KeyExpression} {origin : Text}
    (h : OriginText ctx kp.key_type origin) :
    kp.display = origin ++ KeyExpression.display_suffix kp.num1 kp.num2 := by
  rw [KeyExpression.display]
  cases hk : kp.key_type with
  | plainKey key_index =>
      rw [hk] at h
      obtain rfl : origin = '@' :: decimal key_index := h
      simp
  | musig key_indices =>
      rw [hk] at h
      obtain ⟨-, -, -, rfl⟩ := h
      simp [fragment]

theorem honest_key (ctx : ParseContext) :
    Honest (fun kp => [kp]) KeyExpression.display (KeyText ctx) where
  apostrophe := by
    rintro kp _ ⟨origin, suffix, horigin, hsuffix, rfl⟩
    simp [origin_plain horigin, suffix_plain hsuffix, KeyExpression.hardened]
  display_plain := by
    rintro kp _ ⟨origin, suffix, horigin, hsuffix, rfl⟩
    rw [display_origin horigin]
    simp [origin_plain horigin, display_suffix_plain]
  printed := by
    rintro kp _ ⟨origin, suffix, horigin, hsuffix, rfl⟩ hkp
    have hkp : ¬ kp.hardened := hkp kp (.head _)
    rw [display_origin horigin]
    exact ⟨origin, _, horigin, display_suffix_text (fun h => hkp (.inl h)) fun h => hkp (.inr h),
      rfl⟩

/-! ## Lists -/

section
variable {α : Type} {keys : α → List KeyExpression} {display : α → Text} {text : α → Text → Prop}

theorem Honest.followed (h : Honest keys display text) :
    Honest (fun xs => xs.flatMap keys) (fun xs => xs.flatMap fun x => ',' :: display x)
      (Followed text) where
  apostrophe := by
    intro xs
    induction xs with
    | nil =>
        rintro _ rfl
        simp
    | cons x xs ih =>
        rintro _ ⟨t₁, t₂, hx, hxs, rfl⟩
        simp [h.apostrophe hx, ih hxs]
  display_plain := by
    intro xs
    induction xs with
    | nil => simp
    | cons x xs ih =>
        rintro _ ⟨t₁, t₂, hx, hxs, rfl⟩
        have := h.display_plain hx
        have := ih hxs
        simp_all
  printed := by
    intro xs
    induction xs with
    | nil =>
        rintro _ rfl -
        rfl
    | cons x xs ih =>
        rintro _ ⟨t₁, t₂, hx, hxs, rfl⟩ hkeys
        rw [List.flatMap_cons, unhardened_append] at hkeys
        exact ⟨_, _, h.printed hx hkeys.1, ih hxs hkeys.2, rfl⟩

end

/-! ## Fragments -/

theorem keys_scripts_eq (descs : List DescriptorTemplate) :
    keys_scripts descs = descs.flatMap DescriptorTemplate.keys := by
  induction descs with
  | nil => rfl
  | cons desc descs ih => rw [keys_scripts, ih, List.flatMap_cons]

theorem display_scripts_eq (descs : List DescriptorTemplate) :
    display_scripts descs = descs.flatMap fun desc => ',' :: desc.display := by
  induction descs with
  | nil => rfl
  | cons desc descs ih => rw [display_scripts, ih, List.flatMap_cons]

/-- The fragment `name` is honest about what is between its parentheses. -/
def HonestFragment (name : String) (S : Syntax DescriptorTemplate) : Prop :=
  ∀ {v args}, S.text v args → v.is_wrapper = false ∧ ∃ d, v.display = fragment name d ∧
    ('\'' ∉ args ↔ Unhardened v.keys) ∧ '\'' ∉ d ∧ (Unhardened v.keys → S.text v d)

abbrev HonestTemplates (S : Syntax DescriptorTemplate) : Prop :=
  Honest DescriptorTemplate.keys DescriptorTemplate.display S.text

section
variable {name : String} {S : Syntax DescriptorTemplate} {T : Syntax TapTree}

theorem HonestFragment.guard {allowed : Bool} (h : HonestFragment name S) :
    HonestFragment name (guarded allowed S) := by
  rintro v args ⟨ha, hv⟩
  obtain ⟨hw, d, hd, happ, hplain, hprinted⟩ := h hv
  exact ⟨hw, d, hd, happ, hplain, fun hk => ⟨ha, hprinted hk⟩⟩

theorem honest_key_args {constructor : KeyExpression → DescriptorTemplate} (ctx : ParseContext)
    (hc : ∀ kp, (constructor kp).is_wrapper = false ∧ (constructor kp).keys = [kp] ∧
      (constructor kp).display = fragment name kp.display) :
    HonestFragment name (key_args constructor ctx) := by
  rintro v args ⟨kp, rfl, hkp⟩
  obtain ⟨hw, hk, hd⟩ := hc kp
  rw [hk]
  exact ⟨hw, _, hd, (honest_key ctx).apostrophe hkp, (honest_key ctx).display_plain hkp,
    fun hu => ⟨kp, rfl, (honest_key ctx).printed hkp hu⟩⟩

theorem honest_num_args {max : U32} {constructor : U32 → DescriptorTemplate}
    (hc : ∀ num, (constructor num).is_wrapper = false ∧ (constructor num).keys = [] ∧
      (constructor num).display = fragment name (decimal num)) :
    HonestFragment name (num_args max constructor) := by
  rintro v args ⟨num, rfl, hmax, rfl⟩
  obtain ⟨hw, hk, hd⟩ := hc num
  refine ⟨hw, _, hd, ?_, decimal_plain num, fun _ => ⟨num, rfl, hmax, rfl⟩⟩
  simp [hk, decimal_plain]

theorem honest_threshold_args {constructor : U32 → List KeyExpression → DescriptorTemplate}
    (ctx : ParseContext) (max_keys : ℕ)
    (hc : ∀ k kps, (constructor k kps).is_wrapper = false ∧ (constructor k kps).keys = kps ∧
      (constructor k kps).display = display_threshold name k kps) :
    HonestFragment name (threshold_args constructor ctx max_keys) := by
  rintro v args ⟨k, kps, kt, rfl, htwo, hmax, hzero, hle, hkps, rfl⟩
  obtain ⟨hw, hk, hd⟩ := hc k kps
  have hlist := (honest_key ctx).followed
  have hkeys : kps.flatMap (fun kp => [kp]) = kps := by simp
  have happ := hlist.apostrophe hkps
  have hprinted := hlist.printed hkps
  rw [hkeys] at happ hprinted
  rw [hk]
  refine ⟨hw, _, hd, ?_, ?_, fun hu => ⟨k, kps, _, rfl, htwo, hmax, hzero, hle, hprinted hu, rfl⟩⟩
  · rw [List.mem_append, not_or, happ]
    simp [decimal_plain]
  · rw [List.mem_append, not_or]
    exact ⟨decimal_plain k, hlist.display_plain hkps⟩

/-- Arguments that are a fixed number of scripts. -/
theorem honest_scripts (h : HonestTemplates S) {n : ℕ} {xs : List DescriptorTemplate} {t d : Text}
    (ht : (scripts S n).text xs t) (hd : ',' :: d = display_scripts xs) :
    ('\'' ∉ t ↔ Unhardened (keys_scripts xs)) ∧ '\'' ∉ d ∧
      (Unhardened (keys_scripts xs) → (scripts S n).text xs d) := by
  have happ := h.followed.apostrophe ht.2
  have hplain := h.followed.display_plain ht.2
  have hprinted := h.followed.printed ht.2
  rw [← keys_scripts_eq] at happ hprinted
  rw [← display_scripts_eq, ← hd] at hplain hprinted
  refine ⟨?_, ?_, fun hu => ⟨ht.1, hprinted hu⟩⟩
  · rw [← happ]
    simp
  · simpa using hplain

theorem honest_unary_args (h : HonestTemplates S)
    {constructor : DescriptorTemplate → DescriptorTemplate}
    (hc : ∀ x, (constructor x).is_wrapper = false ∧ (constructor x).keys = x.keys ∧
      (constructor x).display = fragment name x.display) :
    HonestFragment name (unary_args constructor S) := by
  rintro v args ⟨x, rfl, hx⟩
  obtain ⟨hw, hk, hd⟩ := hc x
  obtain ⟨happ, hplain, hprinted⟩ := honest_scripts h hx (d := x.display) (by simp [display_scripts])
  have hkeys : keys_scripts [x] = (constructor x).keys := by simp [keys_scripts, hk]
  rw [hkeys] at happ hprinted
  exact ⟨hw, _, hd, happ, hplain, fun hu => ⟨x, rfl, hprinted hu⟩⟩

theorem honest_binary_args (h : HonestTemplates S)
    {constructor : DescriptorTemplate → DescriptorTemplate → DescriptorTemplate}
    (hc : ∀ x y, (constructor x y).is_wrapper = false ∧ (constructor x y).keys = x.keys ++ y.keys ∧
      (constructor x y).display = fragment name (x.display ++ ',' :: y.display)) :
    HonestFragment name (binary_args constructor S) := by
  rintro v args ⟨x, y, rfl, hxy⟩
  obtain ⟨hw, hk, hd⟩ := hc x y
  obtain ⟨happ, hplain, hprinted⟩ := honest_scripts h hxy (d := x.display ++ ',' :: y.display)
    (by simp [display_scripts])
  have hkeys : keys_scripts [x, y] = (constructor x y).keys := by simp [keys_scripts, hk]
  rw [hkeys] at happ hprinted
  exact ⟨hw, _, hd, happ, hplain, fun hu => ⟨x, y, rfl, hprinted hu⟩⟩

theorem honest_andor_args (h : HonestTemplates S) : HonestFragment "andor" (andor_args S) := by
  rintro v args ⟨x, y, z, rfl, hxyz⟩
  obtain ⟨happ, hplain, hprinted⟩ := honest_scripts h hxyz
    (d := x.display ++ ',' :: y.display ++ ',' :: z.display) (by simp [display_scripts])
  have hkeys : keys_scripts [x, y, z] = (DescriptorTemplate.andor x y z).keys := by
    simp [keys_scripts, DescriptorTemplate.keys]
  rw [hkeys] at happ hprinted
  exact ⟨rfl, _, by rw [DescriptorTemplate.display], happ, hplain,
    fun hu => ⟨x, y, z, rfl, hprinted hu⟩⟩

theorem honest_thresh_args (h : HonestTemplates S) : HonestFragment "thresh" (thresh_args S) := by
  rintro v args ⟨k, descs, dt, rfl, hzero, hle, hdescs, rfl⟩
  have happ := h.followed.apostrophe hdescs
  have hplain := h.followed.display_plain hdescs
  have hprinted := h.followed.printed hdescs
  rw [← keys_scripts_eq] at happ hprinted
  rw [← display_scripts_eq] at hplain hprinted
  have hkeys : (DescriptorTemplate.thresh k descs).keys = keys_scripts descs := by
    rw [DescriptorTemplate.keys]
  refine ⟨rfl, decimal k ++ display_scripts descs, by rw [DescriptorTemplate.display], ?_, ?_,
    fun hu => ⟨k, descs, _, rfl, hzero, hle, hprinted (hkeys ▸ hu), rfl⟩⟩
  · rw [hkeys, ← happ]
    simp [decimal_plain]
  · simp [decimal_plain, hplain]

theorem honest_tr_args (h : Honest keys_tap_tree display_tap_tree T.text) :
    HonestFragment "tr" (tr_args T) := by
  have hkey := honest_key .taproot
  rintro v args ⟨kp, kt, hkt, ⟨rfl, rfl⟩ | ⟨tree, tt, rfl, htt, rfl⟩⟩
  · refine ⟨rfl, kp.display, ?_, ?_, hkey.display_plain hkt, fun hu => ⟨kp, _, hkey.printed hkt ?_, .inl ⟨rfl, rfl⟩⟩⟩
    · simp [DescriptorTemplate.display, DescriptorTemplate.display_tree]
    · simpa [DescriptorTemplate.keys, DescriptorTemplate.keys_tree] using hkey.apostrophe hkt
    · simpa [DescriptorTemplate.keys, DescriptorTemplate.keys_tree] using hu
  · have hkeys : (DescriptorTemplate.tr kp (some tree)).keys = [kp] ++ keys_tap_tree tree := by
      rw [DescriptorTemplate.keys, DescriptorTemplate.keys_tree]
      rfl
    rw [hkeys]
    refine ⟨rfl, kp.display ++ ',' :: display_tap_tree tree, ?_, ?_, ?_, fun hu => ?_⟩
    · simp [DescriptorTemplate.display, DescriptorTemplate.display_tree]
    · rw [unhardened_append, ← hkey.apostrophe hkt, ← h.apostrophe htt]
      simp
    · simp [hkey.display_plain hkt, h.display_plain htt]
    · obtain ⟨hk, ht⟩ := unhardened_append.mp hu
      exact ⟨kp, _, hkey.printed hkt hk, .inr ⟨tree, _, rfl, h.printed htt ht, rfl⟩⟩

/-! ### Hashes -/

theorem hex_digit_digitChar {k : ℕ} (h : k < 16) : hex_digit (Nat.digitChar k) = some k := by
  revert k
  decide

theorem from_hex_encode (bytes : Bytes) : from_hex (hex_encode bytes) = some bytes := by
  induction bytes with
  | nil => rfl
  | cons b bytes ih =>
      have hb := b.isLt
      have hsplit : 16 * (b.toNat / 16) + b.toNat % 16 = b.toNat := Nat.div_add_mod ..
      rw [hex_encode, List.flatMap_cons, ← hex_encode]
      simp [from_hex, hex_digit_digitChar (show b.toNat / 16 < 16 by omega),
        hex_digit_digitChar (Nat.mod_lt b.toNat (by decide : 0 < 16)), ih, hsplit]

theorem from_hex_plain {t : Text} {bytes : Bytes} (h : from_hex t = some bytes) : '\'' ∉ t := by
  induction t using from_hex.induct generalizing bytes with
  | case1 => simp
  | case2 c => cases h
  | case3 c c' digits ih =>
      simp only [from_hex, Option.bind_eq_bind, Option.bind_eq_some_iff] at h
      obtain ⟨high, hhigh, low, hlow, bytes', hdigits, -⟩ := h
      have hnone : hex_digit '\'' = none := by decide
      simp only [List.mem_cons, not_or]
      refine ⟨?_, ?_, ih hdigits⟩
      · rintro rfl
        rw [hnone] at hhigh
        cases hhigh
      · rintro rfl
        rw [hnone] at hlow
        cases hlow

theorem honest_hash_args {n : ℕ} {constructor : Vector U8 n → DescriptorTemplate}
    (hc : ∀ hash, (constructor hash).is_wrapper = false ∧ (constructor hash).keys = [] ∧
      (constructor hash).display = fragment name (hex_encode hash.toList)) :
    HonestFragment name (hash_args n constructor) := by
  rintro v args ⟨hash, rfl, hlen, hhex⟩
  obtain ⟨hw, hk, hd⟩ := hc hash
  have hencode := from_hex_encode hash.toList
  refine ⟨hw, _, hd, ?_, from_hex_plain hencode, fun _ => ⟨hash, rfl, ?_, hencode⟩⟩
  · rw [hk]
    simp [from_hex_plain hhex]
  · rw [(from_hex_len hencode).2, Vector.length_toList]

/-! ## Descriptors -/

theorem honest_arguments {S : ParseContext → Syntax DescriptorTemplate}
    (h : ∀ ctx, HonestTemplates (S ctx)) (hT : Honest keys_tap_tree display_tap_tree T.text)
    (ctx : ParseContext) : ∀ e ∈ arguments S T ctx, HonestFragment e.1 e.2 := by
  unfold arguments
  simp only [List.forall_mem_cons, List.not_mem_nil, false_imp_iff, implies_true, and_true]
  refine ⟨honest_threshold_args ctx _ ?_, honest_threshold_args ctx _ ?_,
    honest_threshold_args ctx _ ?_, honest_threshold_args ctx _ ?_, honest_thresh_args (h ctx),
    HonestFragment.guard (honest_unary_args (h _) ?_),
    HonestFragment.guard (honest_unary_args (h _) ?_),
    HonestFragment.guard (honest_key_args ctx ?_), honest_key_args ctx ?_,
    HonestFragment.guard (honest_tr_args hT),
    honest_key_args ctx ?_, honest_key_args ctx ?_, honest_key_args ctx ?_,
    honest_num_args ?_, honest_num_args ?_, honest_hash_args ?_, honest_hash_args ?_,
    honest_hash_args ?_, honest_hash_args ?_, honest_andor_args (h ctx),
    honest_binary_args (h ctx) ?_, honest_binary_args (h ctx) ?_, honest_binary_args (h ctx) ?_,
    honest_binary_args (h ctx) ?_, honest_binary_args (h ctx) ?_, honest_binary_args (h ctx) ?_,
    honest_binary_args (h ctx) ?_⟩
  all_goals
    intros
    simp [DescriptorTemplate.is_wrapper, DescriptorTemplate.keys, DescriptorTemplate.display]

theorem honest_inner {S : ParseContext → Syntax DescriptorTemplate}
    (h : ∀ ctx, HonestTemplates (S ctx)) (hT : Honest keys_tap_tree display_tap_tree T.text)
    (ctx : ParseContext) : HonestTemplates (inner_descriptors (arguments S T ctx)) where
  apostrophe := by
    rintro v _ (⟨e, he, args, hv, rfl⟩ | ⟨rfl, rfl⟩ | ⟨rfl, rfl⟩)
    · obtain ⟨-, d, -, happ, -⟩ := honest_arguments h hT ctx e he hv
      rw [← happ]
      simp [fragment, (isName_of_mem he).2.2.2]
    · simp [DescriptorTemplate.keys]
    · simp [DescriptorTemplate.keys]
  display_plain := by
    rintro v _ (⟨e, he, args, hv, rfl⟩ | ⟨rfl, rfl⟩ | ⟨rfl, rfl⟩)
    · obtain ⟨-, d, hd, -, hplain, -⟩ := honest_arguments h hT ctx e he hv
      simp [hd, fragment, (isName_of_mem he).2.2.2, hplain]
    · simp [DescriptorTemplate.display]
    · simp [DescriptorTemplate.display]
  printed := by
    rintro v _ (⟨e, he, args, hv, rfl⟩ | ⟨rfl, rfl⟩ | ⟨rfl, rfl⟩) hu
    · obtain ⟨-, d, hd, -, -, hprinted⟩ := honest_arguments h hT ctx e he hv
      exact .inl ⟨e, he, d, hprinted hu, hd⟩
    · exact .inr (.inl ⟨rfl, rfl⟩)
    · exact .inr (.inr ⟨rfl, rfl⟩)

theorem inner_not_wrapper {S : ParseContext → Syntax DescriptorTemplate}
    (h : ∀ ctx, HonestTemplates (S ctx)) (hT : Honest keys_tap_tree display_tap_tree T.text)
    {ctx : ParseContext} {v : DescriptorTemplate} {t : Text}
    (hv : (inner_descriptors (arguments S T ctx)).text v t) : v.is_wrapper = false := by
  rcases hv with ⟨e, he, args, hv, -⟩ | ⟨rfl, -⟩ | ⟨rfl, -⟩
  · exact (honest_arguments h hT ctx e he hv).1
  · rfl
  · rfl

theorem wrap_some {c : Char} {inner v : DescriptorTemplate} (h : wrap c inner = some v) :
    v.is_wrapper = true ∧ v.keys = inner.keys ∧ v.display = c :: display_inner inner inner.display := by
  unfold wrap at h
  split at h
  all_goals cases h
  all_goals simp [DescriptorTemplate.is_wrapper, DescriptorTemplate.keys, DescriptorTemplate.display]

/-- Only the innermost wrapper is followed by a colon. -/
theorem wrap_all_some {w : Text} {inner v : DescriptorTemplate} (hw : w ≠ [])
    (hinner : inner.is_wrapper = false) (h : wrap_all w inner = some v) :
    v.is_wrapper = true ∧ v.keys = inner.keys ∧ v.display = w ++ ':' :: inner.display := by
  induction w generalizing v with
  | nil => exact absurd rfl hw
  | cons c w ih =>
      obtain ⟨v', hv', hc⟩ := Option.bind_eq_some_iff.mp h
      obtain ⟨hwrapper, hkeys, hdisplay⟩ := wrap_some hc
      rw [hkeys, hdisplay]
      cases w with
      | nil =>
          cases hv'
          simp [hwrapper, display_inner, hinner]
      | cons c' w =>
          obtain ⟨hwrapper', hkeys', hdisplay'⟩ := ih (List.cons_ne_nil _ _) hv'
          simp [hwrapper, hkeys', display_inner, hwrapper', hdisplay']

theorem honest_wrapped (h : HonestTemplates S)
    (hw : ∀ {v t}, S.text v t → v.is_wrapper = false) : HonestTemplates (wrapped S) where
  apostrophe := by
    rintro v _ (hv | ⟨w, inner, it, hne, hinner, hwrap, rfl⟩)
    · exact h.apostrophe hv
    · obtain ⟨-, hkeys, -⟩ := wrap_all_some hne (hw hinner) hwrap
      have hplain : '\'' ∉ w := fun hm => by
        have := wrap_all_alpha hwrap _ hm
        simp at this
      rw [hkeys, ← h.apostrophe hinner]
      simp [hplain]
  display_plain := by
    rintro v _ (hv | ⟨w, inner, it, hne, hinner, hwrap, rfl⟩)
    · exact h.display_plain hv
    · obtain ⟨-, -, hdisplay⟩ := wrap_all_some hne (hw hinner) hwrap
      have hplain : '\'' ∉ w := fun hm => by
        have := wrap_all_alpha hwrap _ hm
        simp at this
      simp [hdisplay, hplain, h.display_plain hinner]
  printed := by
    rintro v _ (hv | ⟨w, inner, it, hne, hinner, hwrap, rfl⟩) hu
    · exact .inl (h.printed hv hu)
    · obtain ⟨-, hkeys, hdisplay⟩ := wrap_all_some hne (hw hinner) hwrap
      exact .inr ⟨w, inner, _, hne, h.printed hinner (hkeys ▸ hu), hwrap, hdisplay⟩

theorem honest_trees (h : HonestTemplates S) (hT : Honest keys_tap_tree display_tap_tree T.text) :
    Honest keys_tap_tree display_tap_tree (trees S T).text where
  apostrophe := by
    rintro tree _ (⟨desc, rfl, hdesc⟩ | ⟨left, right, lt, rt, rfl, hleft, hright, rfl⟩)
    · exact h.apostrophe hdesc
    · rw [keys_tap_tree, unhardened_append, ← hT.apostrophe hleft, ← hT.apostrophe hright]
      simp
  display_plain := by
    rintro tree _ (⟨desc, rfl, hdesc⟩ | ⟨left, right, lt, rt, rfl, hleft, hright, rfl⟩)
    · exact h.display_plain hdesc
    · simp [display_tap_tree, hT.display_plain hleft, hT.display_plain hright]
  printed := by
    rintro tree _ (⟨desc, rfl, hdesc⟩ | ⟨left, right, lt, rt, rfl, hleft, hright, rfl⟩) hu
    · exact .inl ⟨desc, rfl, h.printed hdesc hu⟩
    · rw [keys_tap_tree, unhardened_append] at hu
      exact .inr ⟨left, right, _, _, rfl, hT.printed hleft hu.1, hT.printed hright hu.2, rfl⟩

theorem honest_nothing {α : Type} {keys : α → List KeyExpression} {display : α → Text} :
    Honest keys display (too_deep : Syntax α).text :=
  ⟨fun h => h.elim, fun h => h.elim, fun h => h.elim⟩

theorem honest_descriptors (depth : ℕ) : (∀ ctx, HonestTemplates (descriptors depth ctx)) ∧
    Honest keys_tap_tree display_tap_tree (tap_trees depth).text := by
  induction depth with
  | zero => exact ⟨fun _ => honest_nothing, honest_nothing⟩
  | succ depth ih =>
      obtain ⟨hdesc, htree⟩ := ih
      exact ⟨fun ctx => honest_wrapped (honest_inner hdesc htree ctx)
        (inner_not_wrapper hdesc htree), honest_trees (hdesc .taproot) htree⟩

/-! ## Templates -/

/-- Parsing `s` does not panic, and if it yields a template, that is what parsing
its printed form yields. -/
def RoundTrips (s : Text) : Prop :=
  ¬ Exec.Panics from_str s ∧ ∀ t s', from_str s = .ok t s' → from_str t.display = .ok t []

theorem from_str_display {t : DescriptorTemplate} {s s' : Text} (h : from_str s = .ok t s') :
    from_str t.display = .ok t [] ↔ '\'' ∉ s := by
  have hhonest := (honest_descriptors MAX_PARSE_DEPTH).1 .topLevel
  have ht := (from_str_ok.mp h).1
  constructor
  · intro hd
    have hd := (from_str_ok.mp hd).1
    rw [hhonest.apostrophe ht, ← hhonest.apostrophe hd]
    exact hhonest.display_plain ht
  · intro hs
    exact from_str_ok.mpr ⟨hhonest.printed ht ((hhonest.apostrophe ht).mp hs), rfl⟩

/-- The texts on which all is well: no hash is cut inside a character, and
templates are without hardened steps. -/
theorem from_str_round_trips_iff (s : Text) :
    RoundTrips s ↔ ¬ templates.cut s ∧ ∀ t, templates.text t s → '\'' ∉ s := by
  refine and_congr (not_congr from_str_panics) ⟨fun h t ht => ?_, fun h t s' hrun => ?_⟩
  · have hrun := from_str_ok.mpr ⟨ht, rfl⟩
    exact (from_str_display hrun).mp (h t [] hrun)
  · exact (from_str_display hrun).mpr (h t (from_str_ok.mp hrun).1)

/-- The step `0'` is printed as `2147483648`. The last two bytes of the other text are
one character, and the 40 digits end inside of it. -/
theorem from_str_hardened_and_cut :
    ¬ RoundTrips "wpkh(@0/<0';1>/*)".toList ∧
      ¬ RoundTrips "ripemd160(aaaaaaaaaaaaaaaaaaaaaaaaaaaaaaaaaaaaaaaé)".toList := by
  constructor
  · have h : from_str "wpkh(@0/<0';1>/*)".toList =
        .ok (.wpkh { key_type := .plainKey 0, num1 := 0x80000000, num2 := 1 }) [] := rfl
    rintro ⟨-, hround⟩
    exact absurd ((from_str_display h).mp (hround _ _ h)) (by simp)
  · rintro ⟨hpanic, -⟩
    exact hpanic ⟨_, rfl⟩

end

end Vanadium.Bip388
