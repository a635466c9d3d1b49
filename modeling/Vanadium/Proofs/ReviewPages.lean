import Vanadium.Proofs.PairPacking
import Vanadium.Proofs.UxCodec
import Vanadium.Vm.Ecall

/-!
# Pages that the VM shows

The VM takes a page if it is at most 512 bytes long. The pages of a review are shown
exactly if no pair is too long for a page of its own, the texts before and after the
pairs are not too long either, and what else the VM asks for is met.
-/

namespace Vanadium.AppSdk

open Lib

/-! ## The pages, and what the VM makes of them -/

/-- A page of a review. -/
def review_page (active_page n_pages : U32) (has_back_button : Bool) (page_content : PageContent) :
    Ux.Page :=
  .genericPage
    (some {
      active_page, n_pages, skip_text := none
      nav_info := { has_back_button, has_page_indicator := true, quit_text := some "Reject" } })
    { title := none, top_right_icon := .none, page_content }

variable {active_page n_pages : U32} {has_back_button : Bool}

theorem make_review_page {content : WrappedPageContent} (h : content.Writable) :
    make_object (WrappedSerializer.page
      (review_pairs_page active_page n_pages has_back_button content)) =
        Serializer.page (review_page active_page n_pages has_back_button content.plain) := by
  refine make_page ⟨?_, ?_, h⟩
  · rintro ni ⟨⟩
    refine ⟨?_, ?_⟩
    · rintro text ⟨⟩
    · rintro text ⟨⟩
      rfl
  · rintro text ⟨⟩

theorem review_page_len (content : PageContent) :
    (Serializer.page (review_page active_page n_pages has_back_button content)).len =
      25 + (Serializer.page_content content).len := by
  simp only [review_page, Serializer.page, Serializer.page_content_info, Serializer.option,
    Serializer.navigation_info, Serializer.nav_info, Serializer.icon, Serializer.u32,
    Serializer.bool, Written.append_len, Written.of, List.length_cons, List.length_nil,
    Serializer.str_len]
  have hreject : (as_bytes "Reject").length = 6 := rfl
  omega

/-- The lengths of all the texts, and of what comes before each of them. -/
def content_len : PageContent → ℕ
  | .textSubtext text subtext => 5 + (as_bytes text).length + (as_bytes subtext).length
  | .tagValueList list => 5 + (list.map pair_len).sum
  | .confirmationButton text button_text =>
      5 + (as_bytes text).length + (as_bytes button_text).length
  | .confirmationLongPress text long_press_text =>
      5 + (as_bytes text).length + (as_bytes long_press_text).length

theorem items_len (list : List TagValue) :
    (Serializer.items Serializer.tag_value list).len = (list.map pair_len).sum := by
  induction list with
  | nil => rfl
  | cons pair list ih =>
      rw [Serializer.items, Written.append_len, ih, List.map_cons, List.sum_cons,
        Serializer.tag_value, Written.append_len, Serializer.str_len, Serializer.str_len, pair_len]
      omega

theorem page_content_len (content : PageContent) :
    (Serializer.page_content content).len = content_len content := by
  cases content with
  | tagValueList list =>
      have hslice : (Serializer.slice Serializer.tag_value list).len =
          4 + (list.map pair_len).sum := by
        rw [← items_len]
        unfold Serializer.slice
        split
        · rfl
        · rfl
      rw [Serializer.page_content, Written.append_len, hslice, content_len, ← Nat.add_assoc]
      rfl
  | textSubtext | confirmationButton | confirmationLongPress =>
      simp only [Serializer.page_content, Written.append_len, Serializer.str_len, content_len,
        Written.of, List.length_singleton]
      omega

/-! What can be written at all. -/

theorem isSome_append {a b : Written} (ha : a.bytes.isSome) (hb : b.bytes.isSome) :
    (a ++ b).bytes.isSome := by
  obtain ⟨front, hfront⟩ := Option.isSome_iff_exists.mp ha
  obtain ⟨back, hback⟩ := Option.isSome_iff_exists.mp hb
  exact Option.isSome_iff_exists.mpr ⟨_, Written.append_bytes.mpr ⟨_, _, hfront, hback, rfl⟩⟩

theorem isSome_str {s : String} (h : (as_bytes s).length < 2 ^ 16) :
    (Serializer.str s).bytes.isSome := by
  rw [Serializer.str_bytes h]
  rfl

theorem isSome_items {list : List TagValue} (h : ∀ pair ∈ list, pair_len pair < 2 ^ 16) :
    (Serializer.items Serializer.tag_value list).bytes.isSome := by
  induction list with
  | nil => rfl
  | cons pair list ih =>
      rw [List.forall_mem_cons] at h
      have hpair := h.1
      unfold pair_len at hpair
      exact isSome_append (isSome_append (isSome_str (by omega)) (isSome_str (by omega))) (ih h.2)

theorem pair_len_le_sum {pair : TagValue} {list : List TagValue} (h : pair ∈ list) :
    pair_len pair ≤ (list.map pair_len).sum :=
  List.single_le_sum (fun _ _ => Nat.zero_le _) _ (List.mem_map_of_mem h)

theorem length_le_sum (list : List TagValue) : list.length ≤ (list.map pair_len).sum := by
  induction list with
  | nil => exact Nat.le_refl 0
  | cons pair list ih =>
      rw [List.length_cons, List.map_cons, List.sum_cons, pair_len]
      omega

theorem isSome_page_content {content : PageContent} (h : content_len content < 2 ^ 16) :
    (Serializer.page_content content).bytes.isSome := by
  cases content with
  | tagValueList list =>
      simp only [content_len] at h
      have hlist := length_le_sum list
      rw [Serializer.page_content, Serializer.slice, if_pos (by omega)]
      refine isSome_append rfl (isSome_append rfl (isSome_items fun pair hpair => ?_))
      have := pair_len_le_sum hpair
      omega
  | textSubtext | confirmationButton | confirmationLongPress =>
      simp only [content_len] at h
      exact isSome_append (isSome_append rfl (isSome_str (by omega))) (isSome_str (by omega))

theorem isSome_review_page {content : PageContent} (h : content_len content < 2 ^ 16) :
    (Serializer.page (review_page active_page n_pages has_back_button content)).bytes.isSome :=
  isSome_append (isSome_append rfl (isSome_append rfl rfl))
    (isSome_append (isSome_append rfl rfl) (isSome_page_content h))

/-! A reader that has no room for the pairs panics. -/

/-- `read` takes what `w` writes, and panics. -/
def PanicsOn {α : Type} (read : Deserializer α) (w : Written) : Prop :=
  ∀ bytes, w.bytes = some bytes → ∀ rest, Exec.Panics read (bytes ++ rest)

theorem PanicsOn.after {α β : Type} {a b : Written} {v : α} {read : Deserializer α}
    {f : α → Deserializer β} (h : ReadsBack read a v) (hf : PanicsOn (f v) b) :
    PanicsOn (read >>= f) (a ++ b) := by
  intro bytes hbytes rest
  obtain ⟨front, back, hfront, hback, rfl⟩ := Written.append_bytes.mp hbytes
  rw [List.append_assoc]
  exact Exec.panics_bind.mpr (.inr ⟨v, _, h front hfront _, hf back hback rest⟩)

theorem PanicsOn.left {α β : Type} {a : Written} {read : Deserializer α} {f : α → Deserializer β}
    (h : PanicsOn read a) : PanicsOn (read >>= f) a :=
  fun bytes hbytes rest => Exec.panics_bind.mpr (.inl (h bytes hbytes rest))

theorem PanicsOn.vec {α : Type} {read : Deserializer α} {write : Serializer α} {vs : List α}
    {heap size_of : ℕ} (h : ¬ Deserializer.Fits heap vs.length size_of) :
    PanicsOn (Deserializer.vec heap size_of read) (Serializer.slice write vs) := by
  unfold Serializer.slice
  split
  · next hlen =>
      refine PanicsOn.after (ReadsBack.u32 _) fun bytes hb rest => ?_
      have hnat : (BitVec.ofNat 32 vs.length).toNat = vs.length := Nat.mod_eq_of_lt hlen
      rw [hnat]
      refine Exec.panics_bind.mpr (.inl ?_)
      rw [Exec.assert, if_neg h]
      exact ⟨_, rfl⟩
  · intro bytes hb
    cases hb

theorem review_page_panics {content : PageContent} {heap : ℕ} (h : ¬ content.RoomFor heap) :
    PanicsOn (Deserializer.page heap)
      (Serializer.page (review_page active_page n_pages has_back_button content)) := by
  cases content with
  | tagValueList list =>
      have hcontent : PanicsOn (Deserializer.page_content heap)
          (Serializer.page_content (.tagValueList list)) :=
        .after (.first _ 1) (.left (.vec h))
      rw [review_page, Serializer.page, Written.append_assoc]
      refine .after (.first _ 3) (.after (.option fun ni _ => .navigation_info ni) (.left ?_))
      unfold Serializer.page_content_info
      rw [Written.append_assoc]
      exact .after (.option fun _ _ => .string _) (.after (.icon _) (.left hcontent))
  | textSubtext | confirmationButton | confirmationLongPress => exact absurd trivial h

/-! ## The VM -/

open CommEcallHandler (MAX_UX_PAGE_LEN)

/-- `handle_show_page`, for a page that has been copied out of the V-App. -/
def show_page_local (sdk : Sdk) (page_local : Bytes) : Exec CommEcallError UxHandler Unit := do
  Exec.reject (page_local.length > MAX_UX_PAGE_LEN) (.invalidParameters "page_len is too large")
  let page ← Exec.zoom (fun _ => page_local) (fun _ s => s)
    (fun _ => .invalidParameters "Failed to deserialize page") (Deserializer.page sdk.heap).full
  UxHandler.show_page sdk.os page

/-- That is all that is left to do once the page has been read. -/
theorem handle_show_page_eq {M : Type} [PagedMemory M] {sdk : Sdk} {page_ptr : GuestPointer}
    {bytes : Bytes} {s s₁ : CommEcallHandler × Cpu M} (hlen : bytes.length ≤ MAX_UX_PAGE_LEN)
    (hread : CommEcallHandler.read_guest page_ptr bytes.length s = .ok bytes s₁) :
    CommEcallHandler.handle_show_page sdk page_ptr bytes.length s =
      (CommEcallHandler.on_ux (show_page_local sdk bytes) >>= fun _ => pure 1) s₁ := by
  rw [CommEcallHandler.handle_show_page, Exec.reject_bind_neg (by omega), Exec.bind_apply_ok hread]
  have hlen' : ¬ bytes.length > MAX_UX_PAGE_LEN := by omega
  unfold CommEcallHandler.on_ux CommEcallHandler.on_handler show_page_local
    CommEcallHandler.deserialize_full
  simp only [bind, Exec.bind, Exec.zoom, Exec.reject, if_neg hlen', Exec.exec_pure_apply]
  cases (Deserializer.page sdk.heap).full bytes with
  | ok page rest => rfl
  | err e rest => rfl
  | stop w rest => rfl

/-- No text with a null character can be shown. -/
def Drawable (text : String) : Prop := '\x00' ∉ text.toList

instance (text : String) : Decidable (Drawable text) := inferInstanceAs (Decidable (_ ∉ _))

theorem alloc_cstrings_ok {texts : List (Option String)} {ux ux' : UxHandler} :
    UxHandler.alloc_cstrings texts ux = .ok () ux' ↔
      (∀ text ∈ texts, Drawable (text.getD "")) ∧ ux' = ux := by
  induction texts with
  | nil => simp [UxHandler.alloc_cstrings, eq_comm]
  | cons text texts ih =>
      rw [UxHandler.alloc_cstrings, UxHandler.alloc_cstring, Exec.reject_bind_ok, ih,
        List.forall_mem_cons, and_assoc, Drawable, List.contains_iff_mem]

/-- The texts of a page of a review. -/
def content_texts : PageContent → List String
  | .textSubtext text subtext => [text, subtext]
  | .tagValueList list => list.flatMap fun pair => [pair.tag, pair.value]
  | .confirmationButton text button_text => [text, button_text]
  | .confirmationLongPress text long_press_text => [text, long_press_text]

theorem content_strings_drawable (content : PageContent) :
    (∀ text ∈ UxHandler.content_strings
        { title := none, top_right_icon := .none, page_content := content },
      Drawable (text.getD "")) ↔ ∀ text ∈ content_texts content, Drawable text := by
  have hnone : Drawable "" := by simp [Drawable]
  cases content with
  | tagValueList list =>
      simp only [UxHandler.content_strings, content_texts, List.forall_mem_append,
        List.forall_mem_flatMap, List.forall_mem_cons, List.not_mem_nil, false_imp_iff,
        implies_true, and_true, Option.getD_some, Option.getD_none, hnone]
  | textSubtext | confirmationButton | confirmationLongPress =>
      simp [UxHandler.content_strings, content_texts, hnone]

/-- What the VM asks of a page of a review: to be short, that there is room for its
pairs, at most 255 pages, and texts that can be drawn. -/
structure Showable (sdk : Sdk) (active_page n_pages : U32) (content : PageContent) : Prop where
  short : content_len content ≤ 487
  room : content.RoomFor sdk.heap
  pages : n_pages ≤ 255
  active : active_page < n_pages
  texts : ∀ text ∈ content_texts content, Drawable text

theorem show_review_page {os : TargetOs} (hos : os.has_pages) (content : PageContent)
    (ux : UxHandler) :
    (∃ ux', UxHandler.show_page os (review_page active_page n_pages has_back_button content) ux =
      .ok () ux') ↔ n_pages ≤ 255 ∧ active_page < n_pages ∧
        ∀ text ∈ content_texts content, Drawable text := by
  have hnav : ∀ text ∈ [none, some "Reject"], Drawable (text.getD "") := by decide
  have hprepare (ux : UxHandler) :
      UxHandler.prepare_page (review_page active_page n_pages has_back_button content) ux =
        (Exec.reject (n_pages > 255 ∨ active_page ≥ n_pages)
          (.invalidParameters "Invalid navigation info") >>= fun _ =>
            UxHandler.alloc_cstrings [none, some "Reject"] >>= fun _ =>
              UxHandler.alloc_cstrings (UxHandler.content_strings
                { title := none, top_right_icon := .none, page_content := content }))
          { ux with cur_page := active_page.setWidth 8 } := by
    have hsequence : UxHandler.prepare_page (review_page active_page n_pages has_back_button content)
        ux = (UxHandler.set_navigation _ >>= fun _ => UxHandler.alloc_cstrings _) ux := rfl
    rw [hsequence, UxHandler.set_navigation, Exec.bind_bind, Exec.modify_bind, Exec.bind_bind]
  rw [UxHandler.show_page, if_pos hos, ← content_strings_drawable, UxHandler.release_handle,
    Exec.modify_bind]
  constructor
  · rintro ⟨ux', h⟩
    obtain ⟨_, ux₁, hrun, -⟩ := Exec.bind_ok.mp h
    rw [hprepare] at hrun
    obtain ⟨hpages, hrun⟩ := Exec.reject_bind_ok.mp hrun
    obtain ⟨_, ux₂, -, htexts⟩ := Exec.bind_ok.mp hrun
    rw [not_or] at hpages
    exact ⟨BitVec.not_lt.mp hpages.1, BitVec.not_le.mp hpages.2, (alloc_cstrings_ok.mp htexts).1⟩
  · rintro ⟨hpages, hactive, htexts⟩
    have hrun (ux : UxHandler) :
        UxHandler.prepare_page (review_page active_page n_pages has_back_button content) ux =
          .ok () { ux with cur_page := active_page.setWidth 8 } := by
      rw [hprepare, Exec.reject_bind_neg
        (not_or.mpr ⟨BitVec.not_lt.mpr hpages, BitVec.not_le.mpr hactive⟩),
        Exec.bind_apply_ok (alloc_cstrings_ok.mpr ⟨hnav, rfl⟩)]
      exact alloc_cstrings_ok.mpr ⟨htexts, rfl⟩
    exact ⟨_, Exec.bind_apply_ok (hrun _)⟩

/-- The VM shows a page of a review exactly if it meets that. -/
theorem show_page_local_iff {sdk : Sdk} (hos : sdk.os.has_pages) {content : PageContent}
    {bytes : Bytes} (hbytes : (Serializer.page
      (review_page active_page n_pages has_back_button content)).bytes = some bytes)
    (ux : UxHandler) : (∃ ux', show_page_local sdk bytes ux = .ok () ux') ↔
      Showable sdk active_page n_pages content := by
  have hlen : bytes.length = 25 + content_len content := by
    rw [Serializer.exact_page _ bytes hbytes, review_page_len, page_content_len]
  have hmax : MAX_UX_PAGE_LEN = 512 := rfl
  constructor
  · rintro ⟨ux', h⟩
    obtain ⟨hshort, h⟩ := Exec.reject_bind_ok.mp h
    have hroom : content.RoomFor sdk.heap := by
      by_contra hno
      have hpanics := review_page_panics hno bytes hbytes []
      rw [List.append_nil] at hpanics
      obtain ⟨page, ux₁, hread, -⟩ := Exec.bind_ok.mp h
      obtain ⟨rest, hread, -⟩ := Exec.zoom_ok.mp hread
      obtain ⟨page, rest, hpage, -⟩ := Exec.bind_ok.mp hread
      obtain ⟨s, hpanic⟩ := hpanics
      cases hpage.symm.trans hpanic
    have hread := (ReadsBack.page (p := review_page active_page n_pages has_back_button content)
      hroom).full hbytes
    rw [Exec.bind_apply_ok (Exec.zoom_ok.mpr ⟨[], hread, rfl⟩)] at h
    obtain ⟨hpages, hactive, htexts⟩ := (show_review_page hos content ux).mp ⟨ux', h⟩
    exact ⟨by omega, hroom, hpages, hactive, htexts⟩
  · intro h
    have hshort := h.short
    have hread := (ReadsBack.page (p := review_page active_page n_pages has_back_button content)
      h.room).full hbytes
    obtain ⟨ux', hshow⟩ := (show_review_page hos content ux).mpr ⟨h.pages, h.active, h.texts⟩
    refine ⟨ux', ?_⟩
    rw [show_page_local, Exec.reject_bind_neg (by omega),
      Exec.bind_apply_ok (Exec.zoom_ok.mpr ⟨[], hread, rfl⟩)]
    exact hshow

/-! ## The review -/

/-- It returned, or it still waits: it has neither failed nor panicked. -/
def Proceeds {E σ α : Type} (o : Outcome E σ α) : Prop :=
  (∃ a s, o = .ok a s) ∨ ∃ s, o = .stop .hang s

section
variable {E σ α β : Type}

theorem Proceeds.bind {m : Exec E σ α} {f : α → Exec E σ β} {s : σ} (h : Proceeds (m s))
    (hf : ∀ a s', m s = .ok a s' → Proceeds (f a s')) : Proceeds ((m >>= f) s) := by
  rcases h with ⟨a, s', hrun⟩ | ⟨s', hrun⟩
  · rw [Exec.bind_apply_ok hrun]
    exact hf a s' hrun
  · exact .inr ⟨s', Exec.bind_apply_stop hrun⟩

variable {get_event : Exec E σ Event} (hevent : ∀ s, Proceeds (get_event s))
include hevent

/-- The events end in an answer or on a neighbouring page. -/
theorem process_events_proceeds (n active fuel : ℕ) (s : σ) :
    Proceeds (process_events get_event n active fuel s) := by
  induction fuel generalizing s with
  | zero => exact .inr ⟨s, rfl⟩
  | succ fuel ih =>
      unfold process_events
      refine (hevent s).bind fun event s' _ => ?_
      split
      · split
        · exact .inl ⟨_, _, rfl⟩
        · exact ih s'
      · split
        · exact .inl ⟨_, _, rfl⟩
        · exact ih s'
      · exact .inl ⟨_, _, rfl⟩
      · exact .inl ⟨_, _, rfl⟩
      · exact ih s'

omit hevent in
theorem process_events_page {n active fuel j : ℕ} {s s' : σ}
    (h : process_events get_event n active fuel s = .ok (.page j) s') :
    j < active ∨ j = active + 1 ∧ j < n := by
  induction fuel generalizing s with
  | zero => cases h
  | succ fuel ih =>
      unfold process_events at h
      obtain ⟨event, s₁, -, h⟩ := Exec.bind_ok.mp h
      split at h
      · split at h
        · cases h
          omega
        · exact ih h
      · split at h
        · cases h
          omega
        · exact ih h
      · cases h
      · cases h
      · exact ih h

omit hevent in
/-- The page after the current one has been made then, if there is one. -/
theorem make_next_page_spec {show_page : Bytes → Exec E σ Unit} {r : Review}
    {metrics : PageLayoutMetrics}
    (hmake : ∀ i < (r.n_pages metrics).toNat, i ≠ 0 → ∃ bytes, r.next_page metrics i = some bytes ∧
      ∀ s, Proceeds (show_page bytes s)) {active : ℕ} {pages : List Bytes}
    (hpages : ∀ page ∈ pages, ∀ s, Proceeds (show_page page s)) (hactive : active < pages.length)
    (hlen : pages.length ≤ (r.n_pages metrics).toNat) (s : σ) :
    Proceeds ((make_next_page r metrics active pages : Exec E σ (List Bytes)) s) ∧
      ∀ pages' s', (make_next_page r metrics active pages : Exec E σ (List Bytes)) s =
        .ok pages' s' → (∀ page ∈ pages', ∀ s, Proceeds (show_page page s)) ∧
          active < pages'.length ∧ pages'.length ≤ (r.n_pages metrics).toNat ∧
            (active + 1 < (r.n_pages metrics).toNat → active + 1 < pages'.length) := by
  unfold make_next_page
  split
  · next hnew =>
      obtain ⟨bytes, hbytes, hshow⟩ := hmake (active + 1) hnew.1 (by omega)
      rw [hbytes, Exec.unwrap_bind_some rfl]
      refine ⟨.inl ⟨_, _, rfl⟩, fun pages' s' hrun => ?_⟩
      cases hrun
      rw [List.forall_mem_append, List.forall_mem_singleton, List.length_append,
        List.length_singleton]
      exact ⟨⟨hpages, hshow⟩, by omega, by omega, by omega⟩
  · next hold =>
      refine ⟨.inl ⟨_, _, rfl⟩, fun pages' s' hrun => ?_⟩
      cases hrun
      exact ⟨hpages, hactive, hlen, by omega⟩

/-- If all pages can be made and shown, the review proceeds. -/
theorem page_review_proceeds {show_page : Bytes → Exec E σ Unit} {r : Review}
    {metrics : PageLayoutMetrics}
    (hmake : ∀ i < (r.n_pages metrics).toNat, i ≠ 0 → ∃ bytes, r.next_page metrics i = some bytes ∧
      ∀ s, Proceeds (show_page bytes s)) (fuel active : ℕ) (pages : List Bytes) (s : σ)
    (hpages : ∀ page ∈ pages, ∀ s, Proceeds (show_page page s)) (hactive : active < pages.length)
    (hlen : pages.length ≤ (r.n_pages metrics).toNat) :
    Proceeds (page_review_loop show_page get_event r metrics fuel active pages s) := by
  induction fuel generalizing active pages s with
  | zero => exact .inr ⟨s, rfl⟩
  | succ fuel ih =>
      unfold page_review_loop
      rw [List.getElem?_eq_getElem hactive, Exec.unwrap_bind_some rfl]
      refine (hpages _ (List.getElem_mem hactive) s).bind fun _ s₁ _ => ?_
      have hmade := make_next_page_spec hmake hpages hactive hlen s₁
      refine hmade.1.bind fun pages' s₂ hrun => ?_
      obtain ⟨hpages', hactive', hlen', hnext⟩ := hmade.2 pages' s₂ hrun
      refine (process_events_proceeds hevent _ _ _ s₂).bind fun next s₃ hturn => ?_
      cases next with
      | page j =>
          have hj := process_events_page hturn
          exact ih j pages' s₃ hpages' (by omega) hlen'
      | answer confirmed => exact .inl ⟨_, _, rfl⟩

end

namespace Review

variable {r : Review} {metrics : PageLayoutMetrics} {sdk : Sdk} {i : ℕ}

/-- The pages in order. -/
def page (r : Review) (metrics : PageLayoutMetrics) (i : ℕ) : Option Bytes :=
  if i = 0 then r.first_page metrics else r.next_page metrics i

/-- What is on them. -/
def content (r : Review) (metrics : PageLayoutMetrics) (i : ℕ) : Option PageContent :=
  if i = 0 then some (.textSubtext r.intro_text r.intro_subtext)
  else if i = (r.n_pages metrics - 1).toNat then
    if r.long_press then some (.confirmationLongPress r.final_text r.final_button_text)
    else some (.confirmationButton r.final_text r.final_button_text)
  else (r.pair_page_ranges metrics)[i - 1]?.map fun range =>
    .tagValueList (pair_chunk r.pairs range)

theorem page_eq (r : Review) (metrics : PageLayoutMetrics) (i : ℕ) :
    r.page metrics i = (r.content metrics i).bind fun content => (Serializer.page
      (review_page (BitVec.ofNat 32 i) (r.n_pages metrics) (i ≠ 0) content)).bytes := by
  unfold page content
  split
  · next h =>
      subst h
      exact congrArg Written.bytes (make_review_page ⟨trivial, trivial⟩)
  · next h =>
      have hback : decide (i ≠ 0) = true := decide_eq_true h
      rw [hback]
      unfold next_page
      split
      · split
        · exact congrArg Written.bytes (make_review_page ⟨trivial, trivial⟩)
        · exact congrArg Written.bytes (make_review_page ⟨trivial, trivial⟩)
      · cases (r.pair_page_ranges metrics)[i - 1]? with
        | none => rfl
        | some range =>
            refine congrArg Written.bytes
              (@make_review_page _ _ _ (.tagValueList (.runtime _)) ?_)
            trivial

/-- All texts of a review. -/
def texts (r : Review) : List String :=
  [r.intro_text, r.intro_subtext, r.final_text, r.final_button_text] ++
    r.pairs.flatMap fun pair => [pair.tag, pair.value]

/-- The pages are shown, and the review goes on until it is answered. -/
structure Shown (sdk : Sdk) (metrics : PageLayoutMetrics) (device : U32) (r : Review) : Prop where
  pages : ∀ i < (r.n_pages metrics).toNat, ∃ bytes, r.page metrics i = some bytes ∧
    bytes.length ≤ MAX_UX_PAGE_LEN ∧ ∀ ux, ∃ ux', show_page_local sdk bytes ux = .ok () ux'
  flow : ∀ get_event : Exec CommEcallError UxHandler Event, (∀ ux, Proceeds (get_event ux)) →
    ∀ fuel ux, Proceeds (page_review_pairs (show_page_local sdk) get_event device r fuel ux)

/-- No pair is too long for a page of its own, the other texts have room on theirs,
nothing in them cannot be drawn, there are at most 255 pages, and the VM has room for
the pairs of each. -/
structure Reviewable (sdk : Sdk) (metrics : PageLayoutMetrics) (r : Review) : Prop where
  intro : (as_bytes r.intro_text).length + (as_bytes r.intro_subtext).length ≤ 482
  pairs : ∀ pair ∈ r.pairs, (as_bytes pair.tag).length + (as_bytes pair.value).length ≤ 478
  final : (as_bytes r.final_text).length + (as_bytes r.final_button_text).length ≤ 482
  texts : ∀ text ∈ r.texts, Drawable text
  count : (r.pair_page_ranges metrics).length ≤ 253
  room : ∀ range ∈ r.pair_page_ranges metrics,
    Deserializer.Fits sdk.heap (range.2 - range.1) Deserializer.SIZE_OF_TAG_VALUE

theorem shown_page_iff (hos : sdk.os.has_pages) :
    (∃ bytes, r.page metrics i = some bytes ∧ bytes.length ≤ MAX_UX_PAGE_LEN ∧
      ∀ ux, ∃ ux', show_page_local sdk bytes ux = .ok () ux') ↔
    ∃ content, r.content metrics i = some content ∧
      Showable sdk (BitVec.ofNat 32 i) (r.n_pages metrics) content := by
  rw [page_eq]
  constructor
  · rintro ⟨bytes, hbytes, -, hshow⟩
    obtain ⟨content, hcontent, hbytes⟩ := Option.bind_eq_some_iff.mp hbytes
    exact ⟨content, hcontent, (show_page_local_iff hos hbytes (.new none)).mp (hshow _)⟩
  · rintro ⟨content, hcontent, h⟩
    have hshort := h.short
    obtain ⟨bytes, hbytes⟩ := Option.isSome_iff_exists.mp
      (isSome_review_page (by omega : content_len content < 2 ^ 16))
    refine ⟨bytes, Option.bind_eq_some_iff.mpr ⟨content, hcontent, hbytes⟩, ?_,
      (show_page_local_iff hos hbytes · |>.mpr h)⟩
    have hlen : bytes.length = 25 + content_len content := by
      rw [Serializer.exact_page _ bytes hbytes, review_page_len, page_content_len]
    have hmax : MAX_UX_PAGE_LEN = 512 := rfl
    omega

/-- The three kinds of pages. -/
theorem content_first : r.content metrics 0 = some (.textSubtext r.intro_text r.intro_subtext) :=
  rfl

theorem content_pairs (hpairs : r.pairs.length < 2 ^ 31) {j : ℕ} {range : ℕ × ℕ}
    (h : (r.pair_page_ranges metrics)[j]? = some range) :
    r.content metrics (j + 1) = some (.tagValueList (pair_chunk r.pairs range)) := by
  have hj := (List.getElem?_eq_some_iff.mp h).1
  have hn := @n_pages_toNat metrics r hpairs
  have hlast : (r.n_pages metrics - 1).toNat = (r.n_pages metrics).toNat - 1 := by
    rw [BitVec.toNat_sub_of_le (by rw [BitVec.le_def, hn]; show 1 ≤ _; omega)]
    rfl
  rw [content, if_neg (by omega), if_neg (by omega), Nat.add_sub_cancel, h]
  rfl

/-- The last page. -/
def final (r : Review) : PageContent :=
  if r.long_press then .confirmationLongPress r.final_text r.final_button_text
  else .confirmationButton r.final_text r.final_button_text

theorem content_last (hpairs : r.pairs.length < 2 ^ 31) :
    r.content metrics ((r.pair_page_ranges metrics).length + 1) = some r.final := by
  have hn := @n_pages_toNat metrics r hpairs
  have hlast : (r.n_pages metrics - 1).toNat = (r.n_pages metrics).toNat - 1 := by
    rw [BitVec.toNat_sub_of_le (by rw [BitVec.le_def, hn]; show 1 ≤ _; omega)]
    rfl
  rw [content, if_neg (by omega), if_pos (by omega), final]
  split
  · rfl
  · rfl

theorem content_len_final (r : Review) : content_len r.final =
    5 + (as_bytes r.final_text).length + (as_bytes r.final_button_text).length := by
  unfold final
  split
  · rfl
  · rfl

theorem content_texts_final (r : Review) :
    content_texts r.final = [r.final_text, r.final_button_text] := by
  unfold final
  split
  · rfl
  · rfl

/-- All pages can be shown exactly if the review is reviewable. -/
theorem showable_iff (hm : Roomy metrics) (hpairs : r.pairs.length < 2 ^ 31) :
    (∀ i < (r.n_pages metrics).toNat, ∃ content, r.content metrics i = some content ∧
      Showable sdk (BitVec.ofNat 32 i) (r.n_pages metrics) content) ↔
    Reviewable sdk metrics r := by
  have hn := @n_pages_toNat metrics r hpairs
  constructor
  · intro h
    obtain ⟨c, hc, hfirst⟩ := h 0 (by omega)
    cases hc
    obtain ⟨c, hc, hlast⟩ := h ((r.pair_page_ranges metrics).length + 1) (by omega)
    cases (content_last hpairs).symm.trans hc
    have hpage {range : ℕ × ℕ} (hrange : range ∈ r.pair_page_ranges metrics) :
        ∃ i, Showable sdk i (r.n_pages metrics) (.tagValueList (pair_chunk r.pairs range)) := by
      obtain ⟨j, hj⟩ := List.mem_iff_getElem?.mp hrange
      have hlt := (List.getElem?_eq_some_iff.mp hj).1
      obtain ⟨c, hc, hshow⟩ := h (j + 1) (by omega)
      cases (content_pairs hpairs hj).symm.trans hc
      exact ⟨_, hshow⟩
    have hpair {pair : TagValue} (hmem : pair ∈ r.pairs) :
        pair_len pair ≤ 482 ∧ Drawable pair.tag ∧ Drawable pair.value := by
      obtain ⟨range, hrange, hin⟩ := @mem_pair_chunk metrics _ _ hmem
      obtain ⟨i, hshow⟩ := hpage hrange
      have hshort := hshow.short
      have hle := pair_len_le_sum hin
      have htexts (text : String) (ht : text ∈ [pair.tag, pair.value]) : Drawable text :=
        hshow.texts text (List.mem_flatMap.mpr ⟨pair, hin, ht⟩)
      simp only [content_len] at hshort
      exact ⟨by omega, htexts _ (by simp), htexts _ (by simp)⟩
    have hshort := hfirst.short
    have hshort' := hlast.short
    rw [content_len_final] at hshort'
    simp only [content_len] at hshort
    refine ⟨by omega, fun pair hmem => ?_, by omega, ?_, ?_, fun range hrange => ?_⟩
    · have hle := (hpair hmem).1
      unfold pair_len at hle
      omega
    · have hfinal := hlast.texts
      rw [content_texts_final] at hfinal
      refine List.forall_mem_append.mpr ⟨?_, fun text ht => ?_⟩
      · have hintro := hfirst.texts
        simp only [content_texts, List.forall_mem_cons] at hintro hfinal ⊢
        exact ⟨hintro.1, hintro.2.1, hfinal⟩
      · obtain ⟨pair, hmem, ht⟩ := List.mem_flatMap.mp ht
        have hdraw := (hpair hmem).2
        simp only [List.mem_cons, List.not_mem_nil, or_false] at ht
        rcases ht with rfl | rfl
        · exact hdraw.1
        · exact hdraw.2
    · have hle : (r.n_pages metrics).toNat ≤ 255 := hfirst.pages
      omega
    · obtain ⟨i, hshow⟩ := hpage hrange
      obtain ⟨pair, rest, -, hchunk, hlen⟩ := pair_chunk_of_mem hrange
      rw [hlen, ← hchunk]
      exact hshow.room
  · intro h i hi
    have hcount := h.count
    have hactive : BitVec.ofNat 32 i < r.n_pages metrics := by
      rw [BitVec.lt_def, BitVec.toNat_ofNat]
      omega
    have hpages : r.n_pages metrics ≤ 255 := by
      rw [BitVec.le_def, hn]
      show _ ≤ 255
      omega
    obtain ⟨htexts, hpair_texts⟩ := List.forall_mem_append.mp h.texts
    simp only [List.forall_mem_cons] at htexts
    have hintro := h.intro
    have hfinal := h.final
    rcases Nat.eq_zero_or_pos i with rfl | hpos
    · refine ⟨_, content_first, ?_, trivial, hpages, hactive, ?_⟩
      · simp only [content_len]
        omega
      · simp only [content_texts, List.forall_mem_cons]
        exact ⟨htexts.1, htexts.2.1, by simp⟩
    · rcases Nat.lt_or_ge (r.pair_page_ranges metrics).length i with hlast | hrange
      · obtain rfl : i = (r.pair_page_ranges metrics).length + 1 := by omega
        refine ⟨_, content_last hpairs, ?_, ?_, hpages, hactive, ?_⟩
        · rw [content_len_final]
          omega
        · unfold Review.final
          split
          · trivial
          · trivial
        · rw [content_texts_final]
          simp only [List.forall_mem_cons]
          exact htexts.2.2
      · obtain ⟨j, rfl⟩ : ∃ j, i = j + 1 := ⟨i - 1, by omega⟩
        have hj := List.getElem?_eq_getElem (by omega : j < (r.pair_page_ranges metrics).length)
        have hmem := List.mem_of_getElem? hj
        obtain ⟨pair, rest, hdrop, hchunk, hlen⟩ := pair_chunk_of_mem hmem
        refine ⟨_, content_pairs hpairs hj, ?_, ?_, hpages, hactive, ?_⟩
        · have hsum := chunk_len_le hm (fun pair hp => ?_) hmem
          · simp only [content_len]
            omega
          · have hp := h.pairs pair hp
            unfold pair_len
            omega
        · have hroom := h.room _ hmem
          rw [hlen, ← hchunk] at hroom
          exact hroom
        · intro text ht
          obtain ⟨pair, hin, ht⟩ := List.mem_flatMap.mp ht
          have hin : pair ∈ r.pairs := List.mem_of_mem_take (List.mem_of_mem_drop hin)
          exact hpair_texts text (List.mem_flatMap.mpr ⟨pair, hin, ht⟩)

/-- What the V-App learns of its device. -/
def device (os : TargetOs) : U32 :=
  CommEcallHandler.pack_u16 CommEcallHandler.VENDOR_ID (CommEcallHandler.PRODUCT_ID os)

theorem has_pages_of_metrics {os : TargetOs}
    (h : get_page_layout_metrics (device os) = some metrics) : os.has_pages := by
  cases os with
  | nanox | nanosplus => cases h
  | stax | flex | apex_p => rfl

theorem Shown.reviewable (h : Shown sdk metrics (device sdk.os) r)
    (hmetrics : get_page_layout_metrics (device sdk.os) = some metrics)
    (hpairs : r.pairs.length < 2 ^ 31) : Reviewable sdk metrics r :=
  (showable_iff (roomy_of_device hmetrics) hpairs).mp fun i hi =>
    (shown_page_iff (has_pages_of_metrics hmetrics)).mp (h.pages i hi)

/-- The pages of a review are shown, and it goes on until it is answered, exactly if
the review is reviewable. -/
theorem shown_iff (hmetrics : get_page_layout_metrics (device sdk.os) = some metrics)
    (hpairs : r.pairs.length < 2 ^ 31) :
    Shown sdk metrics (device sdk.os) r ↔ Reviewable sdk metrics r := by
  refine ⟨fun h => h.reviewable hmetrics hpairs, fun h => ?_⟩
  have h (i : ℕ) (hi : i < (r.n_pages metrics).toNat) :=
    (shown_page_iff (has_pages_of_metrics hmetrics)).mpr
      ((showable_iff (roomy_of_device hmetrics) hpairs).mpr h i hi)
  refine ⟨h, fun get_event hevent fuel ux => ?_⟩
  have hn := @n_pages_toNat metrics r hpairs
  have hshow {i : ℕ} (hi : i < (r.n_pages metrics).toNat) : ∃ bytes, r.page metrics i =
      some bytes ∧ ∀ ux, Proceeds (show_page_local sdk bytes ux) := by
    obtain ⟨bytes, hbytes, -, hok⟩ := h i hi
    exact ⟨bytes, hbytes, fun ux => .inl ⟨(), hok ux⟩⟩
  obtain ⟨first, hfirst, hok⟩ := hshow (by omega : 0 < (r.n_pages metrics).toNat)
  have hfirst : r.first_page metrics = some first := hfirst
  rw [page_review_pairs, Exec.unwrap_bind_some hmetrics, Exec.unwrap_bind_some hfirst]
  refine page_review_proceeds hevent (fun i hi hne => ?_) fuel 0 [first] ux ?_ (by simp) ?_
  · obtain ⟨bytes, hbytes, hok⟩ := hshow hi
    rw [page, if_neg hne] at hbytes
    exact ⟨bytes, hbytes, hok⟩
  · simpa using hok
  · rw [List.length_singleton]
    omega

/-- One pair, on Stax. -/
def sdk_of (heap : ℕ) : Sdk := { (default : Sdk) with os := .stax, heap }

def stax : PageLayoutMetrics where
  tag_chars_per_line := 20
  tag_line_height_px := 28
  value_chars_per_line := 17
  value_line_height_px := 40
  pair_padding_px := 20
  content_height_px := 448

def with_value (value : String) : Review where
  intro_text := "Review"
  intro_subtext := ""
  pairs := [{ tag := "To", value }]
  final_text := "Confirm"
  final_button_text := "Yes"
  long_press := true

theorem shown_alice : Shown (sdk_of (2 ^ 16)) stax (device .stax) (with_value "Alice") := by
  refine (@shown_iff _ stax (sdk_of (2 ^ 16)) rfl (by decide)).mpr ⟨?_, ?_, ?_, ?_, ?_, ?_⟩
  all_goals decide +kernel

/-- With the tag, this is one byte more than there is room for. -/
def long_value : String := String.ofList (List.replicate 477 'a')

theorem value_le_of_shown {value : String}
    (h : Shown (sdk_of (2 ^ 16)) stax (device .stax) (with_value value)) :
    (as_bytes value).length ≤ 476 := by
  have hpair : (as_bytes "To").length + (as_bytes value).length ≤ 478 :=
    (@Shown.reviewable _ stax (sdk_of (2 ^ 16)) h rfl (show 1 < 2 ^ 31 by decide)).pairs
      { tag := "To", value } (.head _)
  have htag : (as_bytes "To").length = 2 := rfl
  omega

theorem not_shown_long : ¬ ∀ (sdk : Sdk) (metrics : PageLayoutMetrics) (r : Review),
    get_page_layout_metrics (device sdk.os) = some metrics → r.pairs.length < 2 ^ 31 →
      Shown sdk metrics (device sdk.os) r := by
  intro h
  have hshort := value_le_of_shown (h (sdk_of (2 ^ 16)) stax (with_value long_value) rfl
    (show 1 < 2 ^ 31 by decide))
  have hlen : (as_bytes long_value).length = 477 := by decide +kernel
  omega

end Review

end Vanadium.AppSdk
