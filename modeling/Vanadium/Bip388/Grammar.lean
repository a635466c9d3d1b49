import Vanadium.Bip388.Descriptor

/-!
# The language of descriptor templates

What a text says, told without a parser. A construct has a `Syntax`: the texts
of each of its values, and the inputs on which reading the construct takes a
slice that ends inside a character. Only the hash fragments take such slices, so
that for everything else this says how the reading gets to a hash fragment:
what stands before it has to be a complete beginning.

Fragments are a table here as they are in the parser, with a syntax for what is
between the parentheses. Most values have one text. The exceptions are the
derivation `/<0;1>/*`, which may be abbreviated, and the digits of hashes, which
may be upper case.
-/

namespace Vanadium.Bip388

structure Syntax (α : Type) where
  text : α → Text → Prop
  cut : Text → Prop

/-! ## Key expressions -/

/-- A hardened step is written with an apostrophe. -/
def step_text (num : U32) : Text :=
  if HARDENED_INDEX ≤ num then decimal (num - HARDENED_INDEX) ++ ['\''] else decimal num

/-- `text` is a derivation suffix for these two numbers. -/
def SuffixText (num1 num2 : U32) (text : Text) : Prop :=
  num1 = 0 ∧ num2 = 1 ∧ text = "/**".toList ∨
    text = "/<".toList ++ step_text num1 ++ [';'] ++ step_text num2 ++ ">/*".toList

/-- What comes before the suffix. -/
def OriginText (ctx : ParseContext) : KeyExpressionType → Text → Prop
  | .plainKey key_index, text => text = '@' :: decimal key_index
  | .musig key_indices, text =>
      ctx.musig_allowed ∧ 2 ≤ key_indices.length ∧ key_indices.Nodup ∧
        text = fragment "musig" (KeyExpression.display_indices key_indices)

def KeyText (ctx : ParseContext) (kp : KeyExpression) (text : Text) : Prop :=
  ∃ origin suffix, OriginText ctx kp.key_type origin ∧ SuffixText kp.num1 kp.num2 suffix ∧
    text = origin ++ suffix

/-! ## Lists -/

section
variable {α : Type}

/-- One after the other, a comma before each of them. -/
def Followed (text : α → Text → Prop) : List α → Text → Prop
  | [], t => t = []
  | x :: xs, t => ∃ t₁ t₂, text x t₁ ∧ Followed text xs t₂ ∧ t = ',' :: t₁ ++ t₂

/-- One of the first `n` items cuts. -/
def CutAmong (S : Syntax α) : ℕ → Text → Prop
  | 0, _ => False
  | n + 1, s => ∃ s₁, s = ',' :: s₁ ∧
      (S.cut s₁ ∨ ∃ x t s₂, S.text x t ∧ s₁ = t ++ s₂ ∧ CutAmong S n s₂)

/-- Exactly `n` items, a comma between each two. -/
def scripts (S : Syntax α) (n : ℕ) : Syntax (List α) where
  text xs t := xs.length = n ∧ Followed S.text xs (',' :: t)
  cut s := CutAmong S n (',' :: s)

end

/-! ## Arguments -/

/-- `constructor` applied to what `text` describes. -/
def built {α : Type} (constructor : α → DescriptorTemplate) (S : Syntax α) :
    Syntax DescriptorTemplate where
  text v t := ∃ x, v = constructor x ∧ S.text x t
  cut := S.cut

/-- Text that never cuts. -/
def plain {α : Type} (text : α → Text → Prop) : Syntax α where
  text := text
  cut _ := False

/-- Nothing, unless `allowed`. -/
def guarded {α : Type} (allowed : Bool) (S : Syntax α) : Syntax α where
  text v t := allowed ∧ S.text v t
  cut s := allowed ∧ S.cut s

def key_args (constructor : KeyExpression → DescriptorTemplate) (ctx : ParseContext) :
    Syntax DescriptorTemplate :=
  built constructor (plain (KeyText ctx))

def num_args (max : U32) (constructor : U32 → DescriptorTemplate) : Syntax DescriptorTemplate :=
  built constructor (plain fun num t => num.toNat ≤ max.toNat ∧ t = decimal num)

/-- The slice of `2 * n` bytes is taken if there are that many, whatever they are. -/
def hash_args (n : ℕ) (constructor : Vector U8 n → DescriptorTemplate) :
    Syntax DescriptorTemplate :=
  built constructor {
    text hash t := t.length = 2 * n ∧ from_hex t = some hash.toList
    cut s := 2 * n ≤ len s ∧ split_at s (2 * n) = none }

def threshold_args (constructor : U32 → List KeyExpression → DescriptorTemplate)
    (ctx : ParseContext) (max_keys : ℕ) : Syntax DescriptorTemplate :=
  plain fun v t => ∃ k keys kt, v = constructor k keys ∧ 2 ≤ keys.length ∧
    keys.length ≤ max_keys ∧ k ≠ 0 ∧ k.toNat ≤ keys.length ∧ Followed (KeyText ctx) keys kt ∧
    t = decimal k ++ kt

def unary_args (constructor : DescriptorTemplate → DescriptorTemplate)
    (S : Syntax DescriptorTemplate) : Syntax DescriptorTemplate where
  text v t := ∃ x, v = constructor x ∧ (scripts S 1).text [x] t
  cut := (scripts S 1).cut

def binary_args (constructor : DescriptorTemplate → DescriptorTemplate → DescriptorTemplate)
    (S : Syntax DescriptorTemplate) : Syntax DescriptorTemplate where
  text v t := ∃ x y, v = constructor x y ∧ (scripts S 2).text [x, y] t
  cut := (scripts S 2).cut

def andor_args (S : Syntax DescriptorTemplate) : Syntax DescriptorTemplate where
  text v t := ∃ x y z, v = .andor x y z ∧ (scripts S 3).text [x, y, z] t
  cut := (scripts S 3).cut

def thresh_args (S : Syntax DescriptorTemplate) : Syntax DescriptorTemplate where
  text v t := ∃ k descs dt, v = .thresh k descs ∧ k ≠ 0 ∧ k.toNat ≤ descs.length ∧
    Followed S.text descs dt ∧ t = decimal k ++ dt
  cut s := ∃ (k : U32) (n : ℕ) (s₁ : Text), CutAmong S n s₁ ∧ s = decimal k ++ s₁

def tr_args (T : Syntax TapTree) : Syntax DescriptorTemplate where
  text v t := ∃ kp kt, KeyText .taproot kp kt ∧ (v = .tr kp none ∧ t = kt ∨
    ∃ tree tt, v = .tr kp (some tree) ∧ T.text tree tt ∧ t = kt ++ ',' :: tt)
  cut s := ∃ kp kt s₁, KeyText .taproot kp kt ∧ s = kt ++ ',' :: s₁ ∧ T.cut s₁

/-! ## Fragments -/

/-- The fragments and what stands between their parentheses. -/
def arguments (S : ParseContext → Syntax DescriptorTemplate) (T : Syntax TapTree)
    (ctx : ParseContext) : List (String × Syntax DescriptorTemplate) :=
  [("sortedmulti_a", threshold_args .sortedmulti_a ctx MAX_KEYS_MULTI_A),
    ("sortedmulti", threshold_args .sortedmulti ctx MAX_KEYS_MULTI),
    ("multi_a", threshold_args .multi_a ctx MAX_KEYS_MULTI_A),
    ("multi", threshold_args .multi ctx MAX_KEYS_MULTI),
    ("thresh", thresh_args (S ctx)),
    ("wsh", guarded ctx.wsh_inner.isSome (unary_args .wsh (S (ctx.wsh_inner.getD ctx)))),
    ("sh", guarded ctx.sh_allowed (unary_args .sh (S .legacy))),
    ("wpkh", guarded ctx.wpkh_allowed (key_args .wpkh ctx)),
    ("pkh", key_args .pkh ctx),
    ("tr", guarded ctx.tr_allowed (tr_args T)),
    ("pk_k", key_args .pk_k ctx),
    ("pk_h", key_args .pk_h ctx),
    ("pk", key_args .pk ctx),
    ("older", num_args MAX_OLDER_AFTER .older),
    ("after", num_args MAX_OLDER_AFTER .after),
    ("sha256", hash_args 32 .sha256),
    ("hash256", hash_args 32 .hash256),
    ("ripemd160", hash_args 20 .ripemd160),
    ("hash160", hash_args 20 .hash160),
    ("andor", andor_args (S ctx)),
    ("and_b", binary_args .and_b (S ctx)),
    ("and_v", binary_args .and_v (S ctx)),
    ("and_n", binary_args .and_n (S ctx)),
    ("or_b", binary_args .or_b (S ctx)),
    ("or_c", binary_args .or_c (S ctx)),
    ("or_d", binary_args .or_d (S ctx)),
    ("or_i", binary_args .or_i (S ctx))]

/-- A descriptor that does not begin with wrappers. -/
def inner_descriptors (args : List (String × Syntax DescriptorTemplate)) :
    Syntax DescriptorTemplate where
  text v t :=
    (∃ e ∈ args, ∃ at_, e.2.text v at_ ∧ t = fragment e.1 at_) ∨
      v = .zero ∧ t = ['0'] ∨ v = .one ∧ t = ['1']
  cut s := ∃ e ∈ args, ∃ s₁, e.2.cut s₁ ∧ s = e.1.toList ++ '(' :: s₁

/-- Wrappers are letters before a colon. -/
def wrapped (S : Syntax DescriptorTemplate) : Syntax DescriptorTemplate where
  text v t := S.text v t ∨ ∃ wrappers inner it, wrappers ≠ [] ∧ S.text inner it ∧
    wrap_all wrappers inner = some v ∧ t = wrappers ++ ':' :: it
  cut s := S.cut s ∨ ∃ wrappers s₁, wrappers ≠ [] ∧ (∀ c ∈ wrappers, c.isAlpha) ∧ S.cut s₁ ∧
    s = wrappers ++ ':' :: s₁

/-- A script, or two trees in braces. -/
def trees (S : Syntax DescriptorTemplate) (T : Syntax TapTree) : Syntax TapTree where
  text tree t :=
    (∃ desc, tree = .script desc ∧ S.text desc t) ∨
      ∃ left right lt rt, tree = .branch left right ∧ T.text left lt ∧ T.text right rt ∧
        t = '{' :: lt ++ ',' :: rt ++ ['}']
  cut s := S.cut s ∨ ∃ s₁, s = '{' :: s₁ ∧
    (T.cut s₁ ∨ ∃ left lt s₂, T.text left lt ∧ s₁ = lt ++ ',' :: s₂ ∧ T.cut s₂)

/-- Nothing is nested deeper than this. -/
def too_deep {α : Type} : Syntax α := plain fun _ _ => False

mutual

def descriptors : ℕ → ParseContext → Syntax DescriptorTemplate
  | 0, _ => too_deep
  | depth + 1, ctx =>
      wrapped (inner_descriptors
        (arguments (descriptors depth) (tap_trees depth) ctx))

def tap_trees : ℕ → Syntax TapTree
  | 0 => too_deep
  | depth + 1 => trees (descriptors depth .taproot) (tap_trees depth)

end

/-- Descriptor templates. -/
def templates : Syntax DescriptorTemplate := descriptors MAX_PARSE_DEPTH .topLevel

end Vanadium.Bip388
