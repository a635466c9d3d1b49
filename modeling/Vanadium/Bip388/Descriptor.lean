import Vanadium.Common.ClientCommands
import Vanadium.Lib.Exec

/-!
# Descriptor templates

The model of `apps/bitcoin/bip388/src/lib.rs` up to the wallet policies: the
syntax trees of descriptor templates, the parser and the printer.

A parser is a computation on what is left of the text. Slices of a `str` are
taken at byte offsets, and a slice that ends inside a character is a panic.
Fragments are ASCII, so where the text has been looked at already an offset is a
number of characters.
-/

namespace Vanadium.Bip388

open Lib

def HARDENED_INDEX : U32 := 0x80000000

def MAX_OLDER_AFTER : U32 := 2147483647

def MAX_KEYS_MULTI : Nat := 20

def MAX_KEYS_MULTI_A : Nat := 999

def MAX_PARSE_DEPTH : Nat := 64

inductive ParseError where
  | emptyInput
  | trailingInput
  | invalidSyntax
  | invalidHex
  | invalidKey
  | numberOutOfRange
  | invalidLength
  | unrecognizedFragment
  | tooFewKeyExpressions
  | threshExceedsScripts
  | invalidKeyIndex
  | invalidTopLevelPolicy
  | formatError
  | invalidScriptContext
  | tooManyKeys
  | invalidMultisigQuorum
  | nestingTooDeep
  deriving DecidableEq, Repr

/-- Which descriptor the parser is in. -/
inductive ParseContext where
  | topLevel
  | legacy
  | segwit
  | wrappedSegwit
  | taproot
  deriving DecidableEq, Repr

namespace ParseContext

def musig_allowed (ctx : ParseContext) : Bool := ctx = taproot

def sh_allowed (ctx : ParseContext) : Bool := ctx = topLevel

def wpkh_allowed (ctx : ParseContext) : Bool := ctx = topLevel || ctx = legacy

def wsh_allowed (ctx : ParseContext) : Bool := ctx = topLevel || ctx = legacy

def tr_allowed (ctx : ParseContext) : Bool := ctx = topLevel

/-- The context inside of `wsh`, where that is allowed. -/
def wsh_inner : ParseContext → Option ParseContext
  | topLevel => some segwit
  | legacy => some wrappedSegwit
  | _ => none

end ParseContext

/-! ## Syntax trees -/

inductive KeyExpressionType where
  | plainKey (key_index : U32)
  | musig (key_indices : List U32)
  deriving DecidableEq, Repr

structure KeyExpression where
  key_type : KeyExpressionType
  num1 : U32
  num2 : U32
  deriving DecidableEq, Repr

mutual

inductive DescriptorTemplate where
  | sh (inner : DescriptorTemplate)
  | wsh (inner : DescriptorTemplate)
  | pkh (key : KeyExpression)
  | wpkh (key : KeyExpression)
  | sortedmulti (k : U32) (keys : List KeyExpression)
  | sortedmulti_a (k : U32) (keys : List KeyExpression)
  | tr (key : KeyExpression) (tree : Option TapTree)
  | zero
  | one
  | pk (key : KeyExpression)
  | pk_k (key : KeyExpression)
  | pk_h (key : KeyExpression)
  | older (n : U32)
  | after (n : U32)
  | sha256 (hash : Vector U8 32)
  | ripemd160 (hash : Vector U8 20)
  | hash256 (hash : Vector U8 32)
  | hash160 (hash : Vector U8 20)
  | andor (x y z : DescriptorTemplate)
  | and_v (x y : DescriptorTemplate)
  | and_b (x y : DescriptorTemplate)
  | and_n (x y : DescriptorTemplate)
  | or_b (x y : DescriptorTemplate)
  | or_c (x y : DescriptorTemplate)
  | or_d (x y : DescriptorTemplate)
  | or_i (x y : DescriptorTemplate)
  | thresh (k : U32) (scripts : List DescriptorTemplate)
  | multi (k : U32) (keys : List KeyExpression)
  | multi_a (k : U32) (keys : List KeyExpression)
  -- wrappers
  | a (inner : DescriptorTemplate)
  | s (inner : DescriptorTemplate)
  | c (inner : DescriptorTemplate)
  | t (inner : DescriptorTemplate)
  | d (inner : DescriptorTemplate)
  | v (inner : DescriptorTemplate)
  | j (inner : DescriptorTemplate)
  | n (inner : DescriptorTemplate)
  | l (inner : DescriptorTemplate)
  | u (inner : DescriptorTemplate)

inductive TapTree where
  | script (desc : DescriptorTemplate)
  | branch (left right : TapTree)

end

/-! ## Printing -/

abbrev Text := List Char

/-- `write!(f, "{}", n)` -/
def decimal (n : U32) : Text := Nat.toDigits 10 n.toNat

/-- `hex::encode` -/
def hex_encode (bytes : Bytes) : Text :=
  bytes.flatMap fun b => [Nat.digitChar (b.toNat / 16), Nat.digitChar (b.toNat % 16)]

namespace KeyExpression

/-- The derivation suffix: `/**` is short for `/<0;1>/*`. -/
def display_suffix (num1 num2 : U32) : Text :=
  if num1 = 0 ∧ num2 = 1 then "/**".toList
  else "/<".toList ++ decimal num1 ++ [';'] ++ decimal num2 ++ ">/*".toList

/-- `@i`, for each of them, separated by commas. -/
def display_indices : List U32 → Text
  | [] => []
  | [idx] => '@' :: decimal idx
  | idx :: key_indices => '@' :: decimal idx ++ ',' :: display_indices key_indices

def display (kp : KeyExpression) : Text :=
  match kp.key_type with
  | .plainKey key_index => '@' :: decimal key_index ++ display_suffix kp.num1 kp.num2
  | .musig key_indices =>
      "musig(".toList ++ display_indices key_indices ++ [')'] ++
        display_suffix kp.num1 kp.num2

end KeyExpression

/-- `name(args)` -/
def fragment (name : String) (args : Text) : Text := name.toList ++ '(' :: args ++ [')']

/-- `name(k,key,..)` -/
def display_threshold (name : String) (k : U32) (keys : List KeyExpression) : Text :=
  fragment name (decimal k ++ keys.flatMap fun kp => ',' :: kp.display)

namespace DescriptorTemplate

def is_wrapper : DescriptorTemplate → Bool
  | a _ | s _ | c _ | t _ | d _ | v _ | j _ | n _ | l _ | u _ => true
  | _ => false

/-- `write_display_wrapper`: what comes after the letter, given the text of the
inner descriptor. -/
def display_inner (inner : DescriptorTemplate) (text : Text) : Text :=
  if inner.is_wrapper then text else ':' :: text

mutual

def display : DescriptorTemplate → Text
  | sh inner => fragment "sh" inner.display
  | wsh inner => fragment "wsh" inner.display
  | pkh kp => fragment "pkh" kp.display
  | wpkh kp => fragment "wpkh" kp.display
  | sortedmulti k kps => display_threshold "sortedmulti" k kps
  | sortedmulti_a k kps => display_threshold "sortedmulti_a" k kps
  | tr kp tree => fragment "tr" (kp.display ++ display_tree tree)
  | zero => ['0']
  | one => ['1']
  | pk kp => fragment "pk" kp.display
  | pk_k kp => fragment "pk_k" kp.display
  | pk_h kp => fragment "pk_h" kp.display
  | older num => fragment "older" (decimal num)
  | after num => fragment "after" (decimal num)
  | sha256 hash => fragment "sha256" (hex_encode hash.toList)
  | ripemd160 hash => fragment "ripemd160" (hex_encode hash.toList)
  | hash256 hash => fragment "hash256" (hex_encode hash.toList)
  | hash160 hash => fragment "hash160" (hex_encode hash.toList)
  | andor x y z => fragment "andor" (x.display ++ ',' :: y.display ++ ',' :: z.display)
  | and_v x y => fragment "and_v" (x.display ++ ',' :: y.display)
  | and_b x y => fragment "and_b" (x.display ++ ',' :: y.display)
  | and_n x y => fragment "and_n" (x.display ++ ',' :: y.display)
  | or_b x y => fragment "or_b" (x.display ++ ',' :: y.display)
  | or_c x y => fragment "or_c" (x.display ++ ',' :: y.display)
  | or_d x y => fragment "or_d" (x.display ++ ',' :: y.display)
  | or_i x y => fragment "or_i" (x.display ++ ',' :: y.display)
  | thresh k descs => fragment "thresh" (decimal k ++ display_scripts descs)
  | multi k kps => display_threshold "multi" k kps
  | multi_a k kps => display_threshold "multi_a" k kps
  | a inner => 'a' :: display_inner inner inner.display
  | s inner => 's' :: display_inner inner inner.display
  | c inner => 'c' :: display_inner inner inner.display
  | t inner => 't' :: display_inner inner inner.display
  | d inner => 'd' :: display_inner inner inner.display
  | v inner => 'v' :: display_inner inner inner.display
  | j inner => 'j' :: display_inner inner inner.display
  | n inner => 'n' :: display_inner inner inner.display
  | l inner => 'l' :: display_inner inner inner.display
  | u inner => 'u' :: display_inner inner inner.display

/-- The scripts of `thresh`, each after a comma. -/
def display_scripts : List DescriptorTemplate → Text
  | [] => []
  | desc :: descs => ',' :: desc.display ++ display_scripts descs

/-- The tree of `tr`, after a comma, if there is one. -/
def display_tree : Option TapTree → Text
  | none => []
  | some tree => ',' :: display_tap_tree tree

def display_tap_tree : TapTree → Text
  | .script desc => desc.display
  | .branch left right =>
      '{' :: display_tap_tree left ++ ',' :: display_tap_tree right ++ ['}']

end

end DescriptorTemplate

/-! ## Parsing -/

/-- `ParseResult`: what is left of the input is the state. -/
abbrev ParseResult (α : Type) := Exec ParseError Text α

def starts_with (p : String) (input : Text) : Bool := p.toList.isPrefixOf input

/-- `&input[n..]`, where `n` characters have been looked at. -/
def skip (n : Nat) : ParseResult Unit := Exec.modify fun input => input.drop n

/-- `if !rest.starts_with(p) { return Err(InvalidSyntax) }`, and `&rest[p.len()..]`. -/
def expect (p : String) : ParseResult Unit := do
  let rest ← Exec.get
  Exec.reject (¬ starts_with p rest) .invalidSyntax
  skip p.length

/-- The digits are read as a `u32` first. -/
def parse_number_up_to (max : U32) : ParseResult U32 := do
  let input ← Exec.get
  Exec.reject (¬ (input.take 1).any Char.isDigit) .invalidSyntax
  -- leading zeros
  Exec.reject (starts_with "0" input ∧ ((input.drop 1).take 1).any Char.isDigit)
    .numberOutOfRange
  let num := Nat.ofDigitChars 10 (input.takeWhile Char.isDigit) 0
  Exec.reject (num ≥ 2 ^ 32) .numberOutOfRange
  Exec.reject (num > max.toNat) .numberOutOfRange
  Exec.set (input.dropWhile Char.isDigit)
  pure (BitVec.ofNat 32 num)

def parse_derivation_step_number : ParseResult U32 := do
  let num ← parse_number_up_to (HARDENED_INDEX - 1)
  let rest ← Exec.get
  if starts_with "'" rest then do
    skip 1
    pure (num + HARDENED_INDEX)
  else pure num

def parse_derivation_suffix : ParseResult (U32 × U32) := do
  expect "/"
  let rest ← Exec.get
  if starts_with "**" rest then do
    skip 2
    pure (0, 1)
  else if starts_with "<" rest then do
    skip 1
    let num1 ← parse_derivation_step_number
    expect ";"
    let num2 ← parse_derivation_step_number
    expect ">/*"
    pure (num1, num2)
  else Exec.throw .invalidSyntax

/-- The loop of `parse_musig_key_expression`. An iteration consumes a character. -/
def parse_musig_key_expression.loop : Nat → List U32 → ParseResult (List U32)
  | 0, key_indices => pure key_indices
  | fuel + 1, key_indices => do
      expect "@"
      let idx ← parse_number_up_to (BitVec.allOnes 32)
      Exec.reject (idx ∈ key_indices) .invalidKey
      let rest ← Exec.get
      if starts_with "," rest then do
        skip 1
        parse_musig_key_expression.loop fuel (key_indices ++ [idx])
      else pure (key_indices ++ [idx])

def parse_musig_key_expression : ParseResult KeyExpression := do
  skip 6
  let rest ← Exec.get
  let key_indices ← parse_musig_key_expression.loop (rest.length + 1) []
  Exec.reject (key_indices.length < 2) .tooFewKeyExpressions
  expect ")"
  let (num1, num2) ← parse_derivation_suffix
  pure { key_type := .musig key_indices, num1, num2 }

def parse_key_expression (ctx : ParseContext) : ParseResult KeyExpression := do
  let input ← Exec.get
  if starts_with "musig(" input then do
    Exec.reject (¬ ctx.musig_allowed) .invalidScriptContext
    parse_musig_key_expression
  else do
    expect "@"
    let key_index ← parse_number_up_to (BitVec.allOnes 32)
    let (num1, num2) ← parse_derivation_suffix
    pure { key_type := .plainKey key_index, num1, num2 }

/-! ### Fragments -/

/-- `name(key)` -/
def parse_kp_fragment (name : String) (constructor : KeyExpression → DescriptorTemplate)
    (ctx : ParseContext) : ParseResult DescriptorTemplate := do
  skip (name.length + 1)
  let kp ← parse_key_expression ctx
  expect ")"
  pure (constructor kp)

/-- `name(num)` -/
def parse_num_fragment (name : String) (max : U32) (constructor : U32 → DescriptorTemplate) :
    ParseResult DescriptorTemplate := do
  skip (name.length + 1)
  let num ← parse_number_up_to max
  expect ")"
  pure (constructor num)

/-- The text up to a byte offset and the rest, unless that is inside a character
or past the end. -/
def split_at : Text → Nat → Option (Text × Text)
  | input, 0 => some ([], input)
  | [], _ + 1 => none
  | c :: input, n + 1 =>
      if c.utf8Size ≤ n + 1 then
        (split_at input (n + 1 - c.utf8Size)).map fun (front, rest) => (c :: front, rest)
      else none

/-- `input.len()` -/
def len (input : Text) : Nat := (input.map Char.utf8Size).sum

def hex_digit (c : Char) : Option Nat :=
  if c.isDigit then some (c.toNat - '0'.toNat)
  else if 'a' ≤ c ∧ c ≤ 'f' then some (c.toNat - 'a'.toNat + 10)
  else if 'A' ≤ c ∧ c ≤ 'F' then some (c.toNat - 'A'.toNat + 10)
  else none

/-- `from_hex`, for a text of the right length. -/
def from_hex : Text → Option Bytes
  | [] => some []
  | [_] => none
  | c :: c' :: digits => do
      let high ← hex_digit c
      let low ← hex_digit c'
      let bytes ← from_hex digits
      pure (BitVec.ofNat 8 (16 * high + low) :: bytes)

/-- `name(<2 * n hex chars>)` -/
def parse_hex_fragment (n : Nat) (name : String)
    (constructor : Vector U8 n → DescriptorTemplate) : ParseResult DescriptorTemplate := do
  skip (name.length + 1)
  let rest ← Exec.get
  Exec.reject (len rest < 2 * n) .invalidLength
  let (digits, rest) ← Exec.unwrap (split_at rest (2 * n))
  let bytes ← Exec.orElse (from_hex digits) .invalidHex
  Exec.set rest
  expect ")"
  pure (constructor (array bytes 0 n))

def parse_hex20_fragment := parse_hex_fragment 20

def parse_hex32_fragment := parse_hex_fragment 32

/-- The loop of `parse_threshold_kp_fragment`. A key that cannot be parsed ends
it, and is left to whatever comes next. -/
def parse_threshold_kp_fragment.loop (ctx : ParseContext) (max_keys : Nat) :
    Nat → List KeyExpression → ParseResult (List KeyExpression)
  | 0, keys => pure keys
  | fuel + 1, keys => do
      let rest ← Exec.get
      if starts_with "," rest then do
        Exec.reject (keys.length ≥ max_keys) .tooManyKeys
        let key ← Exec.attempt do
          skip 1
          parse_key_expression ctx
        match key with
        | .ok kp => parse_threshold_kp_fragment.loop ctx max_keys fuel (keys ++ [kp])
        | .error .invalidScriptContext => Exec.throw .invalidScriptContext
        | .error _ => pure keys
      else pure keys

/-- `name(threshold,key,key,..)` -/
def parse_threshold_kp_fragment (name : String)
    (constructor : U32 → List KeyExpression → DescriptorTemplate) (ctx : ParseContext)
    (max_keys : Nat) : ParseResult DescriptorTemplate := do
  skip (name.length + 1)
  let threshold ← parse_number_up_to (BitVec.allOnes 32)
  let rest ← Exec.get
  let keys ← parse_threshold_kp_fragment.loop ctx max_keys (rest.length + 1) []
  Exec.reject (keys.length < 2) .tooFewKeyExpressions
  Exec.reject (threshold = 0 ∨ threshold.toNat > keys.length) .invalidMultisigQuorum
  expect ")"
  pure (constructor threshold keys)

/-! The fragments with descriptors in them are given the parser of those. -/

/-- `N` descriptors, separated by commas, and the closing parenthesis. -/
def parse_n_subscripts (parse_descriptor : ParseResult DescriptorTemplate) :
    Nat → ParseResult (List DescriptorTemplate)
  | 0 => do
      expect ")"
      pure []
  | 1 => do
      let desc ← parse_descriptor
      expect ")"
      pure [desc]
  | n + 2 => do
      let desc ← parse_descriptor
      expect ","
      let scripts ← parse_n_subscripts parse_descriptor (n + 1)
      pure (desc :: scripts)

/-- `name(x)` -/
def parse_unary (name : String) (parse_descriptor : ParseResult DescriptorTemplate)
    (constructor : DescriptorTemplate → DescriptorTemplate) : ParseResult DescriptorTemplate := do
  skip (name.length + 1)
  match ← parse_n_subscripts parse_descriptor 1 with
  | [script] => pure (constructor script)
  | _ => Exec.panic

/-- `name(x,y)` -/
def parse_binary (name : String) (parse_descriptor : ParseResult DescriptorTemplate)
    (constructor : DescriptorTemplate → DescriptorTemplate → DescriptorTemplate) :
    ParseResult DescriptorTemplate := do
  skip (name.length + 1)
  match ← parse_n_subscripts parse_descriptor 2 with
  | [x, y] => pure (constructor x y)
  | _ => Exec.panic

/-- `andor(x,y,z)` -/
def parse_andor (parse_descriptor : ParseResult DescriptorTemplate) :
    ParseResult DescriptorTemplate := do
  skip 6
  match ← parse_n_subscripts parse_descriptor 3 with
  | [x, y, z] => pure (.andor x y z)
  | _ => Exec.panic

/-- The loop of `parse_thresh`. -/
def parse_thresh.loop (parse_descriptor : ParseResult DescriptorTemplate) :
    Nat → List DescriptorTemplate → ParseResult (List DescriptorTemplate)
  | 0, scripts => pure scripts
  | fuel + 1, scripts => do
      let rest ← Exec.get
      if starts_with "," rest then do
        let script ← Exec.attempt do
          skip 1
          parse_descriptor
        match script with
        | .ok desc => parse_thresh.loop parse_descriptor fuel (scripts ++ [desc])
        | .error .nestingTooDeep => Exec.throw .nestingTooDeep
        | .error _ => pure scripts
      else pure scripts

def parse_thresh (parse_descriptor : ParseResult DescriptorTemplate) :
    ParseResult DescriptorTemplate := do
  skip 7
  let k ← parse_number_up_to (BitVec.allOnes 32)
  expect ","
  let first ← parse_descriptor
  let rest ← Exec.get
  let scripts ← parse_thresh.loop parse_descriptor (rest.length + 1) [first]
  Exec.reject (k = 0) .invalidMultisigQuorum
  Exec.reject (k.toNat > scripts.length) .threshExceedsScripts
  expect ")"
  pure (.thresh k scripts)

def parse_tr (parse_tap_tree : ParseResult TapTree) : ParseResult DescriptorTemplate := do
  skip 3
  let key_placeholder ← parse_key_expression .taproot
  let rest ← Exec.get
  let tree ← if starts_with "," rest then do
      skip 1
      let tree ← parse_tap_tree
      pure (some tree)
    else pure none
  expect ")"
  pure (.tr key_placeholder tree)

/-- The fragments, in the order in which `parse_inner_descriptor` looks for them. -/
def fragments (parse_descriptor : ParseContext → ParseResult DescriptorTemplate)
    (parse_tap_tree : ParseResult TapTree) (ctx : ParseContext) :
    List (String × ParseResult DescriptorTemplate) :=
  [("sortedmulti_a",
      parse_threshold_kp_fragment "sortedmulti_a" .sortedmulti_a ctx MAX_KEYS_MULTI_A),
    ("sortedmulti", parse_threshold_kp_fragment "sortedmulti" .sortedmulti ctx MAX_KEYS_MULTI),
    ("multi_a", parse_threshold_kp_fragment "multi_a" .multi_a ctx MAX_KEYS_MULTI_A),
    ("multi", parse_threshold_kp_fragment "multi" .multi ctx MAX_KEYS_MULTI),
    ("thresh", parse_thresh (parse_descriptor ctx)),
    ("wsh", do
      Exec.reject (¬ ctx.wsh_allowed) .invalidScriptContext
      let inner_ctx ← Exec.orElse ctx.wsh_inner .invalidScriptContext
      parse_unary "wsh" (parse_descriptor inner_ctx) .wsh),
    ("sh", do
      Exec.reject (¬ ctx.sh_allowed) .invalidScriptContext
      parse_unary "sh" (parse_descriptor .legacy) .sh),
    ("wpkh", do
      Exec.reject (¬ ctx.wpkh_allowed) .invalidScriptContext
      parse_kp_fragment "wpkh" .wpkh ctx),
    ("pkh", parse_kp_fragment "pkh" .pkh ctx),
    ("tr", do
      Exec.reject (¬ ctx.tr_allowed) .invalidScriptContext
      parse_tr parse_tap_tree),
    ("pk_k", parse_kp_fragment "pk_k" .pk_k ctx),
    ("pk_h", parse_kp_fragment "pk_h" .pk_h ctx),
    ("pk", parse_kp_fragment "pk" .pk ctx),
    ("older", parse_num_fragment "older" MAX_OLDER_AFTER .older),
    ("after", parse_num_fragment "after" MAX_OLDER_AFTER .after),
    ("sha256", parse_hex32_fragment "sha256" .sha256),
    ("hash256", parse_hex32_fragment "hash256" .hash256),
    ("ripemd160", parse_hex20_fragment "ripemd160" .ripemd160),
    ("hash160", parse_hex20_fragment "hash160" .hash160),
    ("andor", parse_andor (parse_descriptor ctx)),
    ("and_b", parse_binary "and_b" (parse_descriptor ctx) .and_b),
    ("and_v", parse_binary "and_v" (parse_descriptor ctx) .and_v),
    ("and_n", parse_binary "and_n" (parse_descriptor ctx) .and_n),
    ("or_b", parse_binary "or_b" (parse_descriptor ctx) .or_b),
    ("or_c", parse_binary "or_c" (parse_descriptor ctx) .or_c),
    ("or_d", parse_binary "or_d" (parse_descriptor ctx) .or_d),
    ("or_i", parse_binary "or_i" (parse_descriptor ctx) .or_i)]

def parse_inner_descriptor (parse_descriptor : ParseContext → ParseResult DescriptorTemplate)
    (parse_tap_tree : ParseResult TapTree) (ctx : ParseContext) :
    ParseResult DescriptorTemplate := do
  let input ← Exec.get
  match (fragments parse_descriptor parse_tap_tree ctx).find?
      fun (name, _) => starts_with (name ++ "(") input with
  | some (_, parse) => parse
  | none =>
      if starts_with "0" input then do
        skip 1
        pure .zero
      else if starts_with "1" input then do
        skip 1
        pure .one
      else Exec.throw .unrecognizedFragment

/-- A run of letters and a colon is a prefix of wrappers. -/
def take_wrappers : ParseResult Text := do
  let input ← Exec.get
  let wrappers := input.takeWhile Char.isAlpha
  if wrappers ≠ [] ∧ starts_with ":" (input.drop wrappers.length) then do
    skip (wrappers.length + 1)
    pure wrappers
  else pure []

def wrap : Char → DescriptorTemplate → Option DescriptorTemplate
  | 'a', desc => some (.a desc)
  | 's', desc => some (.s desc)
  | 'c', desc => some (.c desc)
  | 't', desc => some (.t desc)
  | 'd', desc => some (.d desc)
  | 'v', desc => some (.v desc)
  | 'j', desc => some (.j desc)
  | 'n', desc => some (.n desc)
  | 'l', desc => some (.l desc)
  | 'u', desc => some (.u desc)
  | _, _ => none

/-- The last letter is the innermost wrapper. -/
def wrap_all : Text → DescriptorTemplate → Option DescriptorTemplate
  | [], desc => some desc
  | wrapper :: wrappers, desc => (wrap_all wrappers desc).bind (wrap wrapper)

mutual

/-- The depth is counted down: nothing is left of it at `MAX_PARSE_DEPTH`. -/
def parse_descriptor : Nat → ParseContext → ParseResult DescriptorTemplate
  | 0, _ => Exec.throw .nestingTooDeep
  | depth + 1, ctx => do
      let wrappers ← take_wrappers
      let inner ← parse_inner_descriptor (parse_descriptor depth) (parse_tap_tree depth) ctx
      Exec.orElse (wrap_all wrappers inner) .invalidSyntax

def parse_tap_tree : Nat → ParseResult TapTree
  | 0 => Exec.throw .nestingTooDeep
  | depth + 1 => do
      let input ← Exec.get
      if starts_with "\x7b" input then do
        skip 1
        let left ← parse_tap_tree depth
        expect ","
        let right ← parse_tap_tree depth
        expect "\x7d"
        pure (.branch left right)
      else do
        let desc ← parse_descriptor depth .taproot
        pure (.script desc)

end

/-- `parse_descriptor_template` -/
def from_str : ParseResult DescriptorTemplate := do
  let descriptor ← parse_descriptor MAX_PARSE_DEPTH .topLevel
  let rest ← Exec.get
  Exec.reject (rest ≠ []) .trailingInput
  pure descriptor

end Vanadium.Bip388
