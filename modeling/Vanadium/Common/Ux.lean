import Vanadium.Common.ClientCommands

/-!
# Screens and events

The data of `common/src/ux/types.rs`: what a V-App asks the device to show, and
what the device tells it about the user.
-/

namespace Vanadium

/-! ## Events -/

inductive Action where
  | confirm
  | reject
  | quit
  | skip
  | previousPage
  | nextPage
  | titleBack
  | topRight
  deriving DecidableEq, Repr

def Action.toU8 : Action → U8
  | .confirm => 0
  | .reject => 1
  | .quit => 2
  | .skip => 3
  | .previousPage => 4
  | .nextPage => 5
  | .titleBack => 6
  | .topRight => 7

inductive EventCode where
  | ticker
  | action
  | unknown
  deriving DecidableEq, Repr

def EventCode.toU32 : EventCode → U32
  | .ticker => 0
  | .action => 1
  | .unknown => 0xFFFFFFFF

def EventCode.from (value : U32) : EventCode :=
  match value.toNat with
  | 0 => .ticker
  | 1 => .action
  | _ => .unknown

/-- The union `EventData`, as its 16 bytes. -/
abbrev EventData := Vector U8 16

def EventData.default : EventData := Vector.replicate 16 0

/-- `event_data.action = action` -/
def EventData.set_action (data : EventData) (action : Action) : EventData :=
  data.set 0 action.toU8

/-! ## Screens -/

inductive Icon where
  | none
  | success
  | failure
  | confirm
  | reject
  | processing
  deriving DecidableEq, Repr

/-- `NavInfo::NavWithButtons` -/
structure NavInfo where
  has_back_button : Bool
  has_page_indicator : Bool
  quit_text : Option String
  deriving DecidableEq, Repr

structure NavigationInfo where
  active_page : U32
  n_pages : U32
  skip_text : Option String
  nav_info : NavInfo
  deriving DecidableEq, Repr

structure TagValue where
  tag : String
  value : String
  deriving DecidableEq, Repr

inductive PageContent where
  | textSubtext (text subtext : String)
  | tagValueList (list : List TagValue)
  | confirmationButton (text button_text : String)
  | confirmationLongPress (text long_press_text : String)
  deriving DecidableEq, Repr

structure PageContentInfo where
  title : Option String
  top_right_icon : Icon
  page_content : PageContent
  deriving DecidableEq, Repr

namespace Ux

inductive Page where
  | spinner (text : String)
  | info (icon : Icon) (text : String)
  | confirmReject (title text confirm reject : String)
  | genericPage (navigation_info : Option NavigationInfo) (page_content_info : PageContentInfo)
  | home (description : String)
  deriving DecidableEq, Repr

inductive Step where
  | textSubtext (pos : U8) (text subtext : String) (style : U8)
  | centeredInfo (pos : U8) (text subtext : Option String) (icon : Icon) (style : U8)
  deriving DecidableEq, Repr

end Ux

end Vanadium
