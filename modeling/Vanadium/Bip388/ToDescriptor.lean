import Vanadium.Bip388.WalletPolicy

/-!
# Descriptors

The model of `to_descriptor` in `apps/bitcoin/bip388/src/lib.rs`, which prints a
template with its keys filled in. It is a printer of its own, and does not use the
one of templates. The state is the text that has been written.

How an extended public key is displayed is for the library to say.
-/

namespace Vanadium.Bip388

open Lib

/-! ## Key information -/

/-- `ChildNumber`, as it is displayed. -/
def display_step (step : U32) : Text :=
  if step.toNat < 2 ^ 31 then decimal step
  else Nat.toDigits 10 (step.toNat - 2 ^ 31) ++ ['\'']

def KeyOrigin.display (origin : KeyOrigin) : Text :=
  hex_encode (to_be_bytes origin.fingerprint) ++
    origin.derivation_path.flatMap fun step => '/' :: display_step step

def KeyInformation.display {X : Type} (display_xpub : X → Text) (key_info : KeyInformation X) :
    Text :=
  match key_info.origin_info with
  | some origin_info => '[' :: origin_info.display ++ ']' :: display_xpub key_info.pubkey
  | none => display_xpub key_info.pubkey

/-! ## Writing -/

abbrev Writer := Exec ParseError Text Unit

def push_str (t : Text) : Writer := Exec.modify (· ++ t)

/-- The comma before everything but the first. -/
def push_comma (i : Nat) : Writer := if i > 0 then push_str [','] else pure ()

section
variable {X : Type} (display_xpub : X → Text) (key_information : List (KeyInformation X))
variable (is_change : Bool) (address_index : U32)

/-- The steps after a key. -/
def steps (kp : KeyExpression) : Text :=
  let change_step := if is_change then kp.num2 else kp.num1
  '/' :: decimal change_step ++ '/' :: decimal address_index

def write_key_infos : Nat → List U32 → Writer
  | _, [] => pure ()
  | i, key_index :: key_indices => do
      push_comma i
      let key_info ← Exec.orElse key_information[key_index.toNat]? .invalidKeyIndex
      push_str (key_info.display display_xpub)
      write_key_infos (i + 1) key_indices

def write_key_expression (kp : KeyExpression) : Writer :=
  match kp.key_type with
  | .plainKey key_index => do
      let key_info ← Exec.orElse key_information[key_index.toNat]? .invalidKeyIndex
      push_str (key_info.display display_xpub ++ steps is_change address_index kp)
  | .musig key_indices => do
      push_str "musig(".toList
      write_key_infos display_xpub key_information 0 key_indices
      push_str (')' :: steps is_change address_index kp)

def write_key_expressions : Nat → List KeyExpression → Writer
  | _, [] => pure ()
  | i, kp :: kps => do
      push_comma i
      write_key_expression display_xpub key_information is_change address_index kp
      write_key_expressions (i + 1) kps

end

/-- `name(`, what is written in between, and `)`. -/
def write_fragment (name : String) (args : Writer) : Writer := do
  push_str (name.toList ++ ['('])
  args
  push_str [')']

def write_wrapper (name : Char) (inner : DescriptorTemplate) (write_inner : Writer) : Writer := do
  push_str [name]
  if inner.is_wrapper then pure () else push_str [':']
  write_inner

namespace DescriptorTemplate

section
variable {X : Type} (display_xpub : X → Text) (key_information : List (KeyInformation X))
variable (is_change : Bool) (address_index : U32)

/-- A fragment with one key. -/
def write_one_key (name : String) (kp : KeyExpression) : Writer :=
  write_fragment name
    (write_key_expression display_xpub key_information is_change address_index kp)

/-- A fragment with a threshold and keys. -/
def write_threshold (name : String) (threshold : U32) (kps : List KeyExpression) : Writer := do
  push_str (name.toList ++ '(' :: decimal threshold ++ [','])
  write_key_expressions display_xpub key_information is_change address_index 0 kps
  push_str [')']

mutual

def write_to : DescriptorTemplate → Writer
  | sh inner => write_fragment "sh" inner.write_to
  | wsh inner => write_fragment "wsh" inner.write_to
  | pkh kp => write_one_key display_xpub key_information is_change address_index "pkh" kp
  | wpkh kp => write_one_key display_xpub key_information is_change address_index "wpkh" kp
  | sortedmulti k kps =>
      write_threshold display_xpub key_information is_change address_index "sortedmulti" k kps
  | sortedmulti_a k kps =>
      write_threshold display_xpub key_information is_change address_index "sortedmulti_a" k kps
  | tr kp tree => write_fragment "tr" do
      write_key_expression display_xpub key_information is_change address_index kp
      write_tree tree
  | zero => push_str ['0']
  | one => push_str ['1']
  | pk kp => write_one_key display_xpub key_information is_change address_index "pk" kp
  | pk_k kp => write_one_key display_xpub key_information is_change address_index "pk_k" kp
  | pk_h kp => write_one_key display_xpub key_information is_change address_index "pk_h" kp
  | older num => push_str (fragment "older" (decimal num))
  | after num => push_str (fragment "after" (decimal num))
  | sha256 hash => write_fragment "sha256" (push_str (hex_encode hash.toList))
  | ripemd160 hash => write_fragment "ripemd160" (push_str (hex_encode hash.toList))
  | hash256 hash => write_fragment "hash256" (push_str (hex_encode hash.toList))
  | hash160 hash => write_fragment "hash160" (push_str (hex_encode hash.toList))
  | andor x y z => write_fragment "andor" do
      x.write_to
      push_str [',']
      y.write_to
      push_str [',']
      z.write_to
  | and_v x y => write_fragment "and_v" do
      x.write_to
      push_str [',']
      y.write_to
  | and_b x y => write_fragment "and_b" do
      x.write_to
      push_str [',']
      y.write_to
  | and_n x y => write_fragment "and_n" do
      x.write_to
      push_str [',']
      y.write_to
  | or_b x z => write_fragment "or_b" do
      x.write_to
      push_str [',']
      z.write_to
  | or_c x z => write_fragment "or_c" do
      x.write_to
      push_str [',']
      z.write_to
  | or_d x z => write_fragment "or_d" do
      x.write_to
      push_str [',']
      z.write_to
  | or_i x z => write_fragment "or_i" do
      x.write_to
      push_str [',']
      z.write_to
  | thresh k sub_templates => do
      push_str ("thresh(".toList ++ decimal k)
      write_scripts sub_templates
      push_str [')']
  | multi k kps =>
      write_threshold display_xpub key_information is_change address_index "multi" k kps
  | multi_a k kps =>
      write_threshold display_xpub key_information is_change address_index "multi_a" k kps
  | a inner => write_wrapper 'a' inner inner.write_to
  | s inner => write_wrapper 's' inner inner.write_to
  | c inner => write_wrapper 'c' inner inner.write_to
  | t inner => write_wrapper 't' inner inner.write_to
  | d inner => write_wrapper 'd' inner inner.write_to
  | v inner => write_wrapper 'v' inner inner.write_to
  | j inner => write_wrapper 'j' inner inner.write_to
  | n inner => write_wrapper 'n' inner inner.write_to
  | l inner => write_wrapper 'l' inner inner.write_to
  | u inner => write_wrapper 'u' inner inner.write_to

def write_scripts : List DescriptorTemplate → Writer
  | [] => pure ()
  | template :: sub_templates => do
      push_str [',']
      template.write_to
      write_scripts sub_templates

def write_tree : Option TapTree → Writer
  | none => pure ()
  | some tree => do
      push_str [',']
      write_tap_tree tree

def write_tap_tree : TapTree → Writer
  | .script desc => desc.write_to
  | .branch left right => do
      push_str ['{']
      write_tap_tree left
      push_str [',']
      write_tap_tree right
      push_str ['}']

end

/-- What was written to an empty text. -/
def to_descriptor {σ : Type} (t : DescriptorTemplate) : Exec ParseError σ Text :=
  Exec.zoom (fun _ => []) (fun _ s => s) id do
    t.write_to display_xpub key_information is_change address_index
    Exec.get

end

end DescriptorTemplate

end Vanadium.Bip388
