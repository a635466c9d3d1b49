import Vanadium.Common.Ux
import Vanadium.Lib.Exec

/-!
# Reading a serialized value

The model of the `Deserializable` half of `common/src/ux/codec.rs`, and of what
the derive macro in `macros/src` makes of the types of screens. A deserializer
takes a value off the front of a slice; the slice is the state here, and the
rest of it is what is left.

Allocations are taken to succeed where the message bounds them. A vector is
different: its capacity is the count in front of it, which is whatever the
message says, so what the allocator has left is a parameter.
-/

namespace Vanadium

open Lib

abbrev Deserializer (α : Type) := Exec String Bytes α

namespace Deserializer

variable {α : Type}

/-- The first byte, or the error of a slice that has none. -/
def first (too_short : String) : Deserializer U8 := do
  match ← Exec.get with
  | byte :: rest =>
      Exec.set rest
      pure byte
  | [] => Exec.throw too_short

def bool : Deserializer Bool := do
  let byte ← first "slice too short for bool"
  if byte = 0 then pure false
  else if byte = 1 then pure true
  else Exec.throw "invalid boolean value"

def u8 : Deserializer U8 := first "slice too short for u8"

def u16 : Deserializer (BitVec 16) := do
  match ← Exec.get with
  | b1 :: b2 :: rest =>
      Exec.set rest
      pure (b1 ++ b2)
  | _ => Exec.throw "slice too short for u16"

def u32 : Deserializer U32 := do
  match ← Exec.get with
  | b1 :: b2 :: b3 :: b4 :: rest =>
      Exec.set rest
      pure (from_be_bytes b1 b2 b3 b4)
  | _ => Exec.throw "slice too short for u32"

/-- `String::from_utf8` -/
def from_utf8 (bytes : Bytes) : Option String :=
  String.fromUTF8? ⟨(bytes.map UInt8.ofBitVec).toArray⟩

def string : Deserializer String := do
  let len ← u16
  let rest ← Exec.get
  Exec.reject (rest.length < len.toNat) "slice too short for string"
  Exec.set (rest.drop len.toNat)
  Exec.orElse (from_utf8 (rest.take len.toNat)) "invalid utf8"

def option (value : Deserializer α) : Deserializer (Option α) := do
  let tag ← first "slice too short for Option tag"
  if tag = 0 then pure none
  else if tag = 1 then do
    let value ← value
    pure (some value)
  else Exec.throw "invalid Option tag"

/-- `isize::MAX` of the device. -/
def isize_max : Nat := 2 ^ 31 - 1

/-- `n` elements of the given size fit into one allocation, which the allocator
has. -/
def Fits (heap n size_of : Nat) : Prop := n * size_of ≤ isize_max ∧ n * size_of ≤ heap

instance (heap n size_of : Nat) : Decidable (Fits heap n size_of) :=
  inferInstanceAs (Decidable (_ ∧ _))

def items (item : Deserializer α) : Nat → Deserializer (List α)
  | 0 => pure []
  | n + 1 => do
      let first ← item
      let rest ← items item n
      pure (first :: rest)

/-- `Vec::with_capacity` for the announced number of elements, then that many
elements. -/
def vec (heap size_of : Nat) (item : Deserializer α) : Deserializer (List α) := do
  let len ← u32
  Exec.assert (Fits heap len.toNat size_of)
  items item len.toNat

/-- Nothing may be left over. -/
def full (value : Deserializer α) : Deserializer α := do
  let value ← value
  let rest ← Exec.get
  Exec.reject (rest ≠ []) "extra bytes remaining after deserialization"
  pure value

/-! ## What the macro derives

An enumeration is a tag, the number of the variant, and the variant's fields; a
structure is its fields. -/

def icon : Deserializer Icon := do
  let tag ← first "Icon slice to short for tag"
  match tag.toNat with
  | 0 => pure .none
  | 1 => pure .success
  | 2 => pure .failure
  | 3 => pure .confirm
  | 4 => pure .reject
  | 5 => pure .processing
  | _ => Exec.throw "unknown tag"

def nav_info : Deserializer NavInfo := do
  let tag ← first "NavInfo slice to short for tag"
  match tag.toNat with
  | 0 => do
      let has_back_button ← bool
      let has_page_indicator ← bool
      let quit_text ← option string
      pure { has_back_button, has_page_indicator, quit_text }
  | _ => Exec.throw "unknown tag"

def navigation_info : Deserializer NavigationInfo := do
  let active_page ← u32
  let n_pages ← u32
  let skip_text ← option string
  let nav_info ← nav_info
  pure { active_page, n_pages, skip_text, nav_info }

def tag_value : Deserializer TagValue := do
  let tag ← string
  let value ← string
  pure { tag, value }

/-- `size_of::<TagValue>()`: two strings of three words. -/
def SIZE_OF_TAG_VALUE : Nat := 24

def page_content (heap : Nat) : Deserializer PageContent := do
  let tag ← first "PageContent slice to short for tag"
  match tag.toNat with
  | 0 => do
      let text ← string
      let subtext ← string
      pure (.textSubtext text subtext)
  | 1 => do
      let list ← vec heap SIZE_OF_TAG_VALUE tag_value
      pure (.tagValueList list)
  | 2 => do
      let text ← string
      let button_text ← string
      pure (.confirmationButton text button_text)
  | 3 => do
      let text ← string
      let long_press_text ← string
      pure (.confirmationLongPress text long_press_text)
  | _ => Exec.throw "unknown tag"

def page_content_info (heap : Nat) : Deserializer PageContentInfo := do
  let title ← option string
  let top_right_icon ← icon
  let page_content ← page_content heap
  pure { title, top_right_icon, page_content }

def page (heap : Nat) : Deserializer Ux.Page := do
  let tag ← first "Page slice to short for tag"
  match tag.toNat with
  | 0 => do
      let text ← string
      pure (.spinner text)
  | 1 => do
      let icon ← icon
      let text ← string
      pure (.info icon text)
  | 2 => do
      let title ← string
      let text ← string
      let confirm ← string
      let reject ← string
      pure (.confirmReject title text confirm reject)
  | 3 => do
      let navigation_info ← option navigation_info
      let page_content_info ← page_content_info heap
      pure (.genericPage navigation_info page_content_info)
  | 4 => do
      let description ← string
      pure (.home description)
  | _ => Exec.throw "unknown tag"

def step : Deserializer Ux.Step := do
  let tag ← first "Step slice to short for tag"
  match tag.toNat with
  | 0 => do
      let pos ← u8
      let text ← string
      let subtext ← string
      let style ← u8
      pure (.textSubtext pos text subtext style)
  | 1 => do
      let pos ← u8
      let text ← option string
      let subtext ← option string
      let icon ← icon
      let style ← u8
      pure (.centeredInfo pos text subtext icon style)
  | _ => Exec.throw "unknown tag"

end Deserializer

end Vanadium
