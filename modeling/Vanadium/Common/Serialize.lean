import Vanadium.Common.Codec
import Vanadium.Common.Manifest

/-!
# Writing a serialized value

The model of the `Serializable` half of `common/src/ux/codec.rs`, of what the derive
macro makes of the types of screens, and of the wrapped types that the build script
of the V-App SDK makes its functions from.

A value has a length that it declares and the bytes that it writes. The buffer is
made for the length, and the bytes fill it.
-/

namespace Vanadium

open Lib

/-- What a value declares and writes. There are no bytes where it panics instead. -/
structure Written where
  len : ℕ
  bytes : Option Bytes
  deriving DecidableEq

namespace Written

/-- One field after the other. -/
def andThen (a b : Written) : Written where
  len := a.len + b.len
  bytes := do
    let front ← a.bytes
    let back ← b.bytes
    pure (front ++ back)

instance : Append Written := ⟨andThen⟩

def of (bytes : Bytes) : Written := ⟨bytes.length, some bytes⟩

end Written

/-- `get_serialized_length` and `serialize` -/
abbrev Serializer (α : Type) := α → Written

namespace Serializer

variable {α : Type}

def bool : Serializer Bool := fun b => .of [if b then 1 else 0]

def u8 : Serializer U8 := fun byte => .of [byte]

def u16 : Serializer (BitVec 16) := fun v =>
  .of [(v >>> 8).setWidth 8, (v &&& 0xFF).setWidth 8]

def u32 : Serializer U32 := fun v =>
  .of [(v >>> 24).setWidth 8, ((v >>> 16) &&& 0xFF).setWidth 8, ((v >>> 8) &&& 0xFF).setWidth 8,
    (v &&& 0xFF).setWidth 8]

/-- A length of 16 bits, or "slice too long". -/
def str : Serializer String := fun s =>
  if (as_bytes s).length < 2 ^ 16 then
    u16 (BitVec.ofNat 16 (as_bytes s).length) ++ .of (as_bytes s)
  else { len := 2 + (as_bytes s).length, bytes := none }

def option (value : Serializer α) : Serializer (Option α)
  | some v => .of [1] ++ value v
  | none => .of [0]

/-- One item after the other. -/
def items (item : Serializer α) : Serializer (List α)
  | [] => .of []
  | v :: vs => item v ++ items item vs

/-- A length of 32 bits, or "slice too long". -/
def slice (item : Serializer α) : Serializer (List α) := fun vs =>
  if vs.length < 2 ^ 32 then u32 (BitVec.ofNat 32 vs.length) ++ items item vs
  else { len := 4 + (items item vs).len, bytes := none }

/-! ## What the macro derives -/

def icon : Serializer Icon
  | .none => .of [0]
  | .success => .of [1]
  | .failure => .of [2]
  | .confirm => .of [3]
  | .reject => .of [4]
  | .processing => .of [5]

def nav_info : Serializer NavInfo := fun ni =>
  .of [0] ++ bool ni.has_back_button ++ bool ni.has_page_indicator ++ option str ni.quit_text

def navigation_info : Serializer NavigationInfo := fun ni =>
  u32 ni.active_page ++ u32 ni.n_pages ++ option str ni.skip_text ++ nav_info ni.nav_info

def tag_value : Serializer TagValue := fun t => str t.tag ++ str t.value

def page_content : Serializer PageContent
  | .textSubtext text subtext => .of [0] ++ str text ++ str subtext
  | .tagValueList list => .of [1] ++ slice tag_value list
  | .confirmationButton text button_text => .of [2] ++ str text ++ str button_text
  | .confirmationLongPress text long_press_text => .of [3] ++ str text ++ str long_press_text

def page_content_info : Serializer PageContentInfo := fun info =>
  option str info.title ++ icon info.top_right_icon ++ page_content info.page_content

def page : Serializer Ux.Page
  | .spinner text => .of [0] ++ str text
  | .info icon' text => .of [1] ++ icon icon' ++ str text
  | .confirmReject title text confirm reject =>
      .of [2] ++ str title ++ str text ++ str confirm ++ str reject
  | .genericPage navigation_info' page_content_info' =>
      .of [3] ++ option navigation_info navigation_info' ++ page_content_info page_content_info'
  | .home description => .of [4] ++ str description

def step : Serializer Ux.Step
  | .textSubtext pos text subtext style => .of [0] ++ u8 pos ++ str text ++ str subtext ++ u8 style
  | .centeredInfo pos text subtext icon' style =>
      .of [1] ++ u8 pos ++ option str text ++ option str subtext ++ icon icon' ++ u8 style

end Serializer

/-! ## Wrapped types

A field is known when the SDK is built, or it is an argument of the function that
the build script makes; that has a name there, and a value here. -/

inductive MaybeConst (α : Type) where
  | const (value : α)
  | runtime (arg : α)
  deriving DecidableEq

/-- What the function writes: bytes that are known, or what the argument writes. -/
inductive SerializedPart where
  | static (bytes : Bytes)
  | runtime (arg : Written)
  deriving DecidableEq

structure WrappedNavInfo where
  has_back_button : MaybeConst Bool
  has_page_indicator : MaybeConst Bool
  quit_text : Option (MaybeConst String)

structure WrappedNavigationInfo where
  active_page : MaybeConst U32
  n_pages : MaybeConst U32
  skip_text : Option (MaybeConst String)
  nav_info : WrappedNavInfo

inductive WrappedPageContent where
  | textSubtext (text subtext : MaybeConst String)
  | tagValueList (list : MaybeConst (List TagValue))
  | confirmationButton (text button_text : MaybeConst String)
  | confirmationLongPress (text long_press_text : MaybeConst String)

structure WrappedPageContentInfo where
  title : Option (MaybeConst String)
  top_right_icon : MaybeConst Icon
  page_content : WrappedPageContent

inductive WrappedPage where
  | spinner (text : MaybeConst String)
  | info (icon : MaybeConst Icon) (text : MaybeConst String)
  | confirmReject (title text confirm reject : MaybeConst String)
  | genericPage (navigation_info : Option WrappedNavigationInfo)
      (page_content_info : WrappedPageContentInfo)
  | home (description : MaybeConst String)

inductive WrappedStep where
  | textSubtext (pos : MaybeConst U8) (text subtext : MaybeConst String) (style : MaybeConst U8)
  | centeredInfo (pos : MaybeConst U8) (text subtext : Option (MaybeConst String))
      (icon : MaybeConst Icon) (style : MaybeConst U8)

/-- `serialize_wrapped` -/
abbrev WrappedSerializer (α : Type) := α → List SerializedPart

namespace WrappedSerializer

variable {α : Type}

/-- A constant that cannot be written ends the build. -/
def maybe_const (value : Serializer α) : WrappedSerializer (MaybeConst α)
  | .const v => [.static ((value v).bytes.getD [])]
  | .runtime v => [.runtime (value v)]

/-- The length of a constant is cut to 16 bits. -/
def maybe_const_str : WrappedSerializer (MaybeConst String)
  | .const s =>
      [.static ((Serializer.u16 (BitVec.ofNat 16 (as_bytes s).length)).bytes.getD [] ++ as_bytes s)]
  | .runtime s => [.runtime (Serializer.str s)]

def option (value : WrappedSerializer α) : WrappedSerializer (Option α)
  | some v => .static [1] :: value v
  | none => [.static [0]]

def nav_info : WrappedSerializer WrappedNavInfo := fun ni =>
  [.static [0]] ++ maybe_const Serializer.bool ni.has_back_button ++
    maybe_const Serializer.bool ni.has_page_indicator ++ option maybe_const_str ni.quit_text

def navigation_info : WrappedSerializer WrappedNavigationInfo := fun ni =>
  maybe_const Serializer.u32 ni.active_page ++ maybe_const Serializer.u32 ni.n_pages ++
    option maybe_const_str ni.skip_text ++ nav_info ni.nav_info

def page_content : WrappedSerializer WrappedPageContent
  | .textSubtext text subtext =>
      [.static [0]] ++ maybe_const_str text ++ maybe_const_str subtext
  | .tagValueList list =>
      [.static [1]] ++ maybe_const (Serializer.slice Serializer.tag_value) list
  | .confirmationButton text button_text =>
      [.static [2]] ++ maybe_const_str text ++ maybe_const_str button_text
  | .confirmationLongPress text long_press_text =>
      [.static [3]] ++ maybe_const_str text ++ maybe_const_str long_press_text

def page_content_info : WrappedSerializer WrappedPageContentInfo := fun info =>
  option maybe_const_str info.title ++ maybe_const Serializer.icon info.top_right_icon ++
    page_content info.page_content

def page : WrappedSerializer WrappedPage
  | .spinner text => [.static [0]] ++ maybe_const_str text
  | .info icon text => [.static [1]] ++ maybe_const Serializer.icon icon ++ maybe_const_str text
  | .confirmReject title text confirm reject =>
      [.static [2]] ++ maybe_const_str title ++ maybe_const_str text ++
        maybe_const_str confirm ++ maybe_const_str reject
  | .genericPage navigation_info' page_content_info' =>
      [.static [3]] ++ option navigation_info navigation_info' ++
        page_content_info page_content_info'
  | .home description => [.static [4]] ++ maybe_const_str description

def step : WrappedSerializer WrappedStep
  | .textSubtext pos text subtext style =>
      [.static [0]] ++ maybe_const Serializer.u8 pos ++ maybe_const_str text ++
        maybe_const_str subtext ++ maybe_const Serializer.u8 style
  | .centeredInfo pos text subtext icon style =>
      [.static [1]] ++ maybe_const Serializer.u8 pos ++ option maybe_const_str text ++
        option maybe_const_str subtext ++ maybe_const Serializer.icon icon ++
          maybe_const Serializer.u8 style

end WrappedSerializer

/-- `make_object_maker`: the parts in a row, in a buffer for all their lengths. -/
def make_object : List SerializedPart → Written
  | [] => .of []
  | .static bytes :: parts => .of bytes ++ make_object parts
  | .runtime arg :: parts => arg ++ make_object parts

end Vanadium
