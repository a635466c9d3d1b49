import Vanadium.Common.Memory
import Vanadium.Common.Ux
import Vanadium.Vm.Crypto

/-!
# The screen and the one pending event

The model of `vm/src/handlers/lib/ecall/ux_handler.rs`. Drawing is the Ledger
SDK's business; what is kept of it is the screen a page handle stands for. The
callbacks run when the SDK processes a touch or a button, and leave what they
make of it in `last_event`, where the V-App's next poll finds it.
-/

namespace Vanadium

open Lib

/-- `LedgerHashContextError` -/
inductive LedgerHashContextError where
  | invalidHashId
  | unsupportedHashId
  deriving DecidableEq, Repr

inductive CommEcallError where
  | exit (code : U32)
  | panic
  | invalidParameters (msg : String)
  | genericError (msg : String)
  | overflow
  | hashError (e : LedgerHashContextError)
  | messageDeserializationError (e : MessageDeserializationError)
  | invalidResponse (msg : String)
  | cpuError (msg : String)
  | memoryError (e : MemoryError)
  | interruptError (e : InterruptError)
  | unhandledEcall
  deriving DecidableEq, Repr

/-- `target_os`: the first two have buttons and steps, the others a touch
screen and pages. -/
inductive TargetOs where
  | nanox
  | nanosplus
  | stax
  | flex
  | apex_p
  deriving DecidableEq, Repr, Inhabited

def TargetOs.has_pages : TargetOs → Bool
  | .nanox | .nanosplus => false
  | .stax | .flex | .apex_p => true

inductive Screen where
  | page (page : Ux.Page)
  | step (step : Ux.Step)
  deriving DecidableEq, Repr

/-- The handler, and beside it the static `LAST_EVENT`. -/
structure UxHandler where
  cur_page : U8
  /-- What the page handle or the step handle stands for. -/
  handle : Option Screen
  last_event : Option (EventCode × EventData)

namespace UxHandler

def new (last_event : Option (EventCode × EventData)) : UxHandler :=
  { cur_page := 0, handle := none, last_event }

/-! ## The pending event -/

def get_last_event (ux : UxHandler) : Option (EventCode × EventData) × UxHandler :=
  (ux.last_event, { ux with last_event := none })

/-- A new event replaces a pending ticker; with any other event pending it is
dropped. -/
def store_new_event (ux : UxHandler) (event_code : EventCode) (event_data : EventData) :
    UxHandler :=
  match ux.last_event with
  | none => { ux with last_event := some (event_code, event_data) }
  | some (.ticker, _) => { ux with last_event := some (event_code, event_data) }
  | some _ => ux

def TOKEN_CONFIRM : U8 := 1
def TOKEN_CONFIRM_REJECT : U8 := 2
def TOKEN_QUIT : U8 := 3
def TOKEN_SKIP : U8 := 4
def TOKEN_NAVIGATION : U8 := 5
def TOKEN_TITLE : U8 := 6
def TOKEN_TOPRIGHT : U8 := 7

/-- What a touch means; a navigation is relative to the current page. -/
def touch_action (ux : UxHandler) (token index : U8) : Option Action :=
  if token = TOKEN_CONFIRM then some .confirm
  else if token = TOKEN_CONFIRM_REJECT ∧ index = 0 then some .confirm
  else if token = TOKEN_CONFIRM_REJECT ∧ index = 1 then some .reject
  else if token = TOKEN_QUIT then some .quit
  else if token = TOKEN_SKIP then some .skip
  else if token = TOKEN_NAVIGATION then
    let diff : Int := index.toNat - ux.cur_page.toNat
    if diff = -1 then some .previousPage
    else if diff = 1 then some .nextPage
    else none
  else if token = TOKEN_TITLE then some .titleBack
  else if token = TOKEN_TOPRIGHT then some .topRight
  else none

def store_action (ux : UxHandler) (action : Option Action) : UxHandler :=
  match action with
  | some action => ux.store_new_event .action (EventData.default.set_action action)
  | none => ux

def layout_touch_callback (ux : UxHandler) (token index : U8) : UxHandler :=
  ux.store_action (ux.touch_action token index)

def button_action (button_event : Nat) : Option Action :=
  match button_event with
  | 0 => some .previousPage
  | 1 => some .nextPage
  | 4 => some .confirm
  | _ => none

def step_button_callback (ux : UxHandler) (button_event : Nat) : UxHandler :=
  ux.store_action (button_action button_event)

/-! ## Drawing -/

/-- `CString::new(string)?` -/
def alloc_cstring (string : Option String) : Exec CommEcallError UxHandler Unit :=
  Exec.reject ((string.getD "").toList.contains '\x00')
    (.invalidParameters "CString contains a null byte")

def alloc_cstrings : List (Option String) → Exec CommEcallError UxHandler Unit
  | [] => pure ()
  | string :: strings => do
      alloc_cstring string
      alloc_cstrings strings

def release_handle : Exec CommEcallError UxHandler Unit :=
  Exec.modify fun ux => { ux with handle := none }

/-- The current page is set before the page numbers are checked. -/
def set_navigation (ni : NavigationInfo) : Exec CommEcallError UxHandler Unit := do
  Exec.modify fun ux => { ux with cur_page := ni.active_page.setWidth 8 }
  Exec.reject (ni.n_pages > 255 ∨ ni.active_page ≥ ni.n_pages)
    (.invalidParameters "Invalid navigation info")
  alloc_cstrings [ni.skip_text, ni.nav_info.quit_text]

def content_strings (info : PageContentInfo) : List (Option String) :=
  match info.page_content with
  | .textSubtext text subtext => [info.title, some text, some subtext]
  | .tagValueList list => list.flatMap (fun t => [some t.tag, some t.value]) ++ [info.title]
  | .confirmationButton text button_text => [info.title, some text, some button_text]
  | .confirmationLongPress text long_press_text =>
      [info.title, some text, some long_press_text]

/-- The texts of a page, and the page numbers of one with a navigation bar. -/
def prepare_page : Ux.Page → Exec CommEcallError UxHandler Unit
  | .spinner text => alloc_cstrings [some text]
  | .info _ text => alloc_cstrings [some text]
  | .confirmReject title text confirm reject =>
      alloc_cstrings [some title, some text, some confirm, some reject]
  | .genericPage navigation_info page_content_info => do
      match navigation_info with
      | some ni => set_navigation ni
      | none => pure ()
      alloc_cstrings (content_strings page_content_info)
  | .home description => alloc_cstrings [some description]

def show_page (os : TargetOs) (page : Ux.Page) : Exec CommEcallError UxHandler Unit :=
  if os.has_pages then do
    release_handle
    prepare_page page
    Exec.modify fun ux => { ux with handle := some (.page page) }
  else Exec.throw .unhandledEcall

def step_strings : Ux.Step → List (Option String)
  | .textSubtext _ text subtext _ => [some text, some subtext]
  | .centeredInfo _ text subtext _ _ => [text, subtext]

def show_step (os : TargetOs) (step : Ux.Step) : Exec CommEcallError UxHandler Unit :=
  if os.has_pages then Exec.throw .unhandledEcall
  else do
    release_handle
    alloc_cstrings (step_strings step)
    Exec.modify fun ux => { ux with handle := some (.step step) }

end UxHandler

end Vanadium
