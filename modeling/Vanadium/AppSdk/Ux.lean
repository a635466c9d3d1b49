import Vanadium.Common.Serialize

/-!
# Reviews

The model of the page reviews of `app-sdk/src/ux.rs`, and of the functions for their
pages that `build.rs` makes. Showing a page and polling an event are ECALLs; they
are parameters, and so is the state that they work on.

The loops of a review go on until the user answers. They have fuel here, and a
review that runs out of it is one that still waits.
-/

namespace Vanadium.AppSdk

open Lib

/-! ## How pairs are packed -/

structure PageLayoutMetrics where
  tag_chars_per_line : ℕ
  tag_line_height_px : U32
  value_chars_per_line : ℕ
  value_line_height_px : U32
  pair_padding_px : U32
  content_height_px : U32

/-- An unsupported device is a panic. -/
def get_page_layout_metrics (device : U32) : Option PageLayoutMetrics :=
  match device.toNat with
  -- the native target, and Stax
  | 0 | 0x2c970060 => some {
      tag_chars_per_line := 20
      tag_line_height_px := 28
      value_chars_per_line := 17
      value_line_height_px := 40
      pair_padding_px := 20
      content_height_px := 448 }
  -- Flex
  | 0x2c970070 => some {
      tag_chars_per_line := 20
      tag_line_height_px := 32
      value_chars_per_line := 17
      value_line_height_px := 40
      pair_padding_px := 20
      content_height_px := 376 }
  -- Apex_p
  | 0x2c970080 => some {
      tag_chars_per_line := 25
      tag_line_height_px := 18
      value_chars_per_line := 17
      value_line_height_px := 28
      pair_padding_px := 16
      content_height_px := 264 }
  | _ => none

/-- The lines that a text of `len` bytes takes. -/
def lines (len chars_per_line : ℕ) : U32 :=
  BitVec.ofNat 32 (max ((len + chars_per_line - 1) / chars_per_line) 1)

def estimate_pair_height (metrics : PageLayoutMetrics) (pair : TagValue) : U32 :=
  let tag_lines := lines (as_bytes pair.tag).length metrics.tag_chars_per_line
  let value_lines := lines (as_bytes pair.value).length metrics.value_chars_per_line
  tag_lines * metrics.tag_line_height_px + value_lines * metrics.value_line_height_px +
    metrics.pair_padding_px

/-- The inner loop of `compute_pair_page_ranges`: given the pairs from `end_` on, and
the height of those before it. -/
def compute_pair_page_ranges.fill (metrics : PageLayoutMetrics) :
    List TagValue → ℕ → U32 → ℕ
  | [], end_, _ => end_
  | pair :: pairs, end_, height =>
      let next_height := estimate_pair_height metrics pair
      if height + next_height > metrics.content_height_px then end_
      else fill metrics pairs (end_ + 1) (height + next_height)

/-- The outer loop. Each range takes at least one pair. -/
def compute_pair_page_ranges.loop (metrics : PageLayoutMetrics) (pairs : List TagValue) :
    ℕ → ℕ → List (ℕ × ℕ)
  | 0, _ => []
  | fuel + 1, start =>
      match pairs.drop start with
      | [] => []
      | pair :: rest =>
          let end_ := fill metrics rest (start + 1) (estimate_pair_height metrics pair)
          (start, end_) :: loop metrics pairs fuel end_

def compute_pair_page_ranges (metrics : PageLayoutMetrics) (pairs : List TagValue) :
    List (ℕ × ℕ) :=
  compute_pair_page_ranges.loop metrics pairs pairs.length 0

/-- `&pairs[start..end]` -/
def pair_chunk (pairs : List TagValue) (range : ℕ × ℕ) : List TagValue :=
  (pairs.take range.2).drop range.1

/-! ## The pages of a review -/

/-- What all of them have in common. -/
def review_pairs_page (active_page n_pages : U32) (has_back_button : Bool)
    (page_content : WrappedPageContent) : WrappedPage :=
  .genericPage
    (some {
      active_page := .runtime active_page
      n_pages := .runtime n_pages
      skip_text := none
      nav_info := {
        has_back_button := .const has_back_button
        has_page_indicator := .const true
        quit_text := some (.const "Reject") } })
    { title := none, top_right_icon := .const .none, page_content }

def make_page_review_pairs_intro (active_page n_pages : U32) (intro_text intro_subtext : String) :
    Written :=
  make_object (WrappedSerializer.page (review_pairs_page active_page n_pages false
    (.textSubtext (.runtime intro_text) (.runtime intro_subtext))))

def make_page_review_pairs_content (active_page n_pages : U32) (pairs : List TagValue) : Written :=
  make_object (WrappedSerializer.page (review_pairs_page active_page n_pages true
    (.tagValueList (.runtime pairs))))

def make_page_review_pairs_final_longpress (active_page n_pages : U32)
    (final_text final_button_text : String) : Written :=
  make_object (WrappedSerializer.page (review_pairs_page active_page n_pages true
    (.confirmationLongPress (.runtime final_text) (.runtime final_button_text))))

def make_page_review_pairs_final_confirmationbutton (active_page n_pages : U32)
    (final_text final_button_text : String) : Written :=
  make_object (WrappedSerializer.page (review_pairs_page active_page n_pages true
    (.confirmationButton (.runtime final_text) (.runtime final_button_text))))

/-- The arguments of `review_pairs`. -/
structure Review where
  intro_text : String
  intro_subtext : String
  pairs : List TagValue
  final_text : String
  final_button_text : String
  long_press : Bool

namespace Review

variable (r : Review) (metrics : PageLayoutMetrics)

def pair_page_ranges : List (ℕ × ℕ) := compute_pair_page_ranges metrics r.pairs

/-- The introduction, the pages of pairs and the last page. -/
def n_pages : U32 := 2 + BitVec.ofNat 32 (r.pair_page_ranges metrics).length

/-- `next_page`. A page of pairs that there is no range for is a panic. -/
def next_page (next_page_index : ℕ) : Option Bytes :=
  let index := BitVec.ofNat 32 next_page_index
  if next_page_index = (r.n_pages metrics - 1).toNat then
    if r.long_press then
      (make_page_review_pairs_final_longpress index (r.n_pages metrics) r.final_text
        r.final_button_text).bytes
    else
      (make_page_review_pairs_final_confirmationbutton index (r.n_pages metrics) r.final_text
        r.final_button_text).bytes
  else do
    let range ← (r.pair_page_ranges metrics)[next_page_index - 1]?
    (make_page_review_pairs_content index (r.n_pages metrics) (pair_chunk r.pairs range)).bytes

def first_page : Option Bytes :=
  (make_page_review_pairs_intro 0 (r.n_pages metrics) r.intro_text r.intro_subtext).bytes

end Review

/-! ## The review -/

inductive Event where
  | ticker
  | action (action : Action)
  | unknown (raw : EventData)
  deriving DecidableEq

/-- What the events lead to: a page to be shown, or the answer. -/
inductive Next where
  | page (active_page : ℕ)
  | answer (confirmed : Bool)
  deriving DecidableEq

section
variable {E σ : Type} (show_page : Bytes → Exec E σ Unit) (get_event : Exec E σ Event)

/-- The inner loop. -/
def process_events (n_pages active_page : ℕ) : ℕ → Exec E σ Next
  | 0 => Exec.stop .hang
  | fuel + 1 => do
      match ← get_event with
      | .action .previousPage =>
          if active_page > 0 then pure (.page (active_page - 1))
          else process_events n_pages active_page fuel
      | .action .nextPage =>
          if active_page + 1 < n_pages then pure (.page (active_page + 1))
          else process_events n_pages active_page fuel
      | .action .quit => pure (.answer false)
      | .action .confirm => pure (.answer true)
      | _ => process_events n_pages active_page fuel

/-- The next page is made after the current one is shown, unless it has been made before. -/
def make_next_page (r : Review) (metrics : PageLayoutMetrics) (active_page : ℕ)
    (serialized_pages : List Bytes) : Exec E σ (List Bytes) :=
  if active_page + 1 < (r.n_pages metrics).toNat ∧ serialized_pages.length = active_page + 1 then do
    let next_page ← Exec.unwrap (r.next_page metrics (active_page + 1))
    pure (serialized_pages ++ [next_page])
  else pure serialized_pages

def Next.follow (show_from : ℕ → Exec E σ Bool) : Next → Exec E σ Bool
  | .page active_page => show_from active_page
  | .answer confirmed => pure confirmed

/-- The outer loop. -/
def page_review_loop (r : Review) (metrics : PageLayoutMetrics) :
    ℕ → ℕ → List Bytes → Exec E σ Bool
  | 0, _, _ => Exec.stop .hang
  | fuel + 1, active_page, serialized_pages => do
      let page ← Exec.unwrap serialized_pages[active_page]?
      show_page page
      let serialized_pages ← make_next_page r metrics active_page serialized_pages
      let next ← process_events get_event (r.n_pages metrics).toNat active_page fuel
      next.follow fun active_page =>
        page_review_loop r metrics fuel active_page serialized_pages

/-- `__page_review_pairs` -/
def page_review_pairs (device : U32) (r : Review) (fuel : ℕ) : Exec E σ Bool := do
  let metrics ← Exec.unwrap (get_page_layout_metrics device)
  let first_page ← Exec.unwrap (r.first_page metrics)
  page_review_loop show_page get_event r metrics fuel 0 [first_page]

end

end Vanadium.AppSdk
