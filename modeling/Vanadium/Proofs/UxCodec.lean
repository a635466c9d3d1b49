import Vanadium.Common.Serialize
import Vanadium.Proofs.WalletPolicy

/-!
# Screens that are read back

What a screen writes is read back as that screen, as long as the reader has room for
the pairs on it. The functions that the build script makes write what the screen
itself writes, as long as the constants in them could be written.
-/

namespace Vanadium

open Lib

/-! ## What is written -/

namespace Written

theorem append_len (a b : Written) : (a ++ b).len = a.len + b.len := rfl

theorem append_bytes {a b : Written} {bytes : Bytes} : (a ++ b).bytes = some bytes ↔
    ∃ front back, a.bytes = some front ∧ b.bytes = some back ∧ bytes = front ++ back := by
  show (a.bytes.bind fun front => b.bytes.bind fun back => some (front ++ back)) = some bytes ↔ _
  simp only [Option.bind_eq_some_iff, Option.some.injEq]
  constructor
  · rintro ⟨front, hfront, back, hback, rfl⟩
    exact ⟨front, back, hfront, hback, rfl⟩
  · rintro ⟨front, back, hfront, hback, rfl⟩
    exact ⟨front, hfront, back, hback, rfl⟩

theorem append_assoc (a b c : Written) : a ++ b ++ c = a ++ (b ++ c) := by
  obtain ⟨la, ba⟩ := a
  obtain ⟨lb, bb⟩ := b
  obtain ⟨lc, bc⟩ := c
  show Written.mk _ _ = Written.mk _ _
  rw [Written.mk.injEq]
  refine ⟨Nat.add_assoc .., ?_⟩
  cases ba with
  | none => rfl
  | some x =>
      cases bb with
      | none => rfl
      | some y =>
          cases bc with
          | none => rfl
          | some z => exact congrArg some (List.append_assoc x y z)

theorem of_append (x y : Bytes) : of x ++ of y = of (x ++ y) := by
  show Written.mk _ _ = Written.mk _ _
  rw [Written.mk.injEq]
  exact ⟨List.length_append.symm, rfl⟩

theorem nil_append (a : Written) : of [] ++ a = a := by
  obtain ⟨l, b⟩ := a
  show Written.mk _ _ = Written.mk _ _
  rw [Written.mk.injEq]
  refine ⟨Nat.zero_add l, ?_⟩
  cases b <;> rfl

theorem append_nil (a : Written) : a ++ of [] = a := by
  obtain ⟨l, b⟩ := a
  show Written.mk _ _ = Written.mk _ _
  rw [Written.mk.injEq]
  refine ⟨rfl, ?_⟩
  cases b with
  | none => rfl
  | some x => exact congrArg some (List.append_nil x)

/-- As many bytes are written as are declared. -/
def Exact (w : Written) : Prop := ∀ bytes, w.bytes = some bytes → bytes.length = w.len

theorem Exact.of (bytes : Bytes) : Exact (of bytes) := by
  intro bytes' h
  cases h
  rfl

theorem Exact.append {a b : Written} (ha : a.Exact) (hb : b.Exact) : (a ++ b).Exact := by
  intro bytes h
  obtain ⟨front, back, hfront, hback, rfl⟩ := append_bytes.mp h
  rw [List.length_append, ha front hfront, hb back hback]
  rfl

theorem Exact.eq_of {w : Written} (h : w.Exact) {bytes : Bytes} (hw : w.bytes = some bytes) :
    w = .of bytes := by
  obtain ⟨len, b⟩ := w
  cases hw
  rw [Written.of, h bytes rfl]

end Written

namespace Serializer

variable {α : Type}

theorem exact_str (s : String) : (str s).Exact := by
  unfold str
  split
  · exact (Written.Exact.of _).append (.of _)
  · intro bytes h
    cases h

theorem str_len (s : String) : (str s).len = 2 + (as_bytes s).length := by
  unfold str
  split
  · rfl
  · rfl

theorem str_bytes {s : String} (h : (as_bytes s).length < 2 ^ 16) :
    (str s).bytes = some ((u16 (BitVec.ofNat 16 (as_bytes s).length)).bytes.getD [] ++
      as_bytes s) := by
  rw [str, if_pos h]
  rfl

theorem exact_option {value : Serializer α} (h : ∀ v, (value v).Exact) (o : Option α) :
    (option value o).Exact := by
  cases o with
  | none => exact .of _
  | some v => exact (Written.Exact.of _).append (h v)

theorem exact_items {item : Serializer α} (h : ∀ v, (item v).Exact) (vs : List α) :
    (items item vs).Exact := by
  induction vs with
  | nil => exact .of _
  | cons v vs ih => exact (h v).append ih

theorem exact_slice {item : Serializer α} (h : ∀ v, (item v).Exact) (vs : List α) :
    (slice item vs).Exact := by
  unfold slice
  split
  · exact (Written.Exact.of _).append (exact_items h vs)
  · intro bytes h'
    cases h'

theorem exact_tag_value (t : TagValue) : (tag_value t).Exact :=
  (exact_str _).append (exact_str _)

theorem exact_icon (i : Icon) : (icon i).Exact := by
  cases i <;> exact .of _

theorem exact_nav_info (ni : NavInfo) : (nav_info ni).Exact :=
  (((Written.Exact.of _).append (.of _)).append (.of _)).append (exact_option exact_str _)

theorem exact_navigation_info (ni : NavigationInfo) : (navigation_info ni).Exact :=
  (((Written.Exact.of _).append (.of _)).append (exact_option exact_str _)).append
    (exact_nav_info _)

theorem exact_page_content (content : PageContent) : (page_content content).Exact := by
  cases content with
  | tagValueList list => exact (Written.Exact.of _).append (exact_slice exact_tag_value _)
  | textSubtext | confirmationButton | confirmationLongPress =>
      exact ((Written.Exact.of _).append (exact_str _)).append (exact_str _)

theorem exact_page_content_info (info : PageContentInfo) : (page_content_info info).Exact :=
  ((exact_option exact_str _).append (exact_icon _)).append (exact_page_content _)

/-- A page declares the number of bytes that it writes. -/
theorem exact_page (p : Ux.Page) : (page p).Exact := by
  cases p with
  | spinner | home => exact (Written.Exact.of _).append (exact_str _)
  | info => exact ((Written.Exact.of _).append (exact_icon _)).append (exact_str _)
  | confirmReject =>
      exact ((((Written.Exact.of _).append (exact_str _)).append (exact_str _)).append
        (exact_str _)).append (exact_str _)
  | genericPage =>
      exact ((Written.Exact.of _).append (exact_option exact_navigation_info _)).append
        (exact_page_content_info _)

end Serializer

/-! ## Reading back -/

/-- `read` takes what `w` writes off the front, and makes `v` of it. -/
def ReadsBack {α : Type} (read : Deserializer α) (w : Written) (v : α) : Prop :=
  ∀ bytes, w.bytes = some bytes → ∀ rest, read (bytes ++ rest) = .ok v rest

namespace ReadsBack

variable {α β : Type} {a b : Written} {v : α} {u : β}

theorem value (v : α) : ReadsBack (Pure.pure v : Deserializer α) (.of []) v := by
  intro bytes h rest
  cases h
  rfl

theorem bind {read : Deserializer α} {f : α → Deserializer β} (h : ReadsBack read a v)
    (hf : ReadsBack (f v) b u) : ReadsBack (read >>= f) (a ++ b) u := by
  intro bytes hbytes rest
  obtain ⟨front, back, hfront, hback, rfl⟩ := Written.append_bytes.mp hbytes
  rw [List.append_assoc, Exec.bind_apply_ok (h front hfront _)]
  exact hf back hback rest

/-- The last field. -/
theorem last {read : Deserializer α} {f : α → β} (h : ReadsBack read a v) :
    ReadsBack (read >>= fun v => Pure.pure (f v)) a (f v) := by
  have hall : ReadsBack (read >>= fun v => Pure.pure (f v)) (a ++ .of []) (f v) :=
    h.bind (value (f v))
  rwa [Written.append_nil] at hall

theorem first (message : String) (byte : U8) :
    ReadsBack (Deserializer.first message) (.of [byte]) byte := by
  intro bytes h rest
  cases h
  rfl

theorem bool (c : Bool) : ReadsBack Deserializer.bool (Serializer.bool c) c := by
  intro bytes h rest
  cases h
  cases c <;> rfl

theorem low_byte {n : ℕ} {mask v : BitVec n} (h : ∀ i < 8, mask.getLsbD i = true) :
    (v &&& mask).setWidth 8 = v.setWidth 8 := by
  ext i hi
  simp [BitVec.getElem_setWidth, h i hi]

theorem u16 (v : BitVec 16) : ReadsBack Deserializer.u16 (Serializer.u16 v) v := by
  have hv : (v >>> 8).setWidth 8 ++ (v &&& 0xFF).setWidth 8 = v := by
    rw [low_byte (by decide)]
    ext i hi
    simp only [BitVec.getElem_append, BitVec.getElem_setWidth, BitVec.getLsbD_ushiftRight]
    grind
  intro bytes h rest
  cases h
  exact congrArg (Outcome.ok · rest) hv

theorem u32 (v : U32) : ReadsBack Deserializer.u32 (Serializer.u32 v) v := by
  have hv : (v >>> 24).setWidth 8 ++ ((v >>> 16) &&& 0xFF).setWidth 8 ++
      ((v >>> 8) &&& 0xFF).setWidth 8 ++ (v &&& 0xFF).setWidth 8 = v := by
    rw [low_byte (by decide), low_byte (by decide), low_byte (by decide)]
    ext i hi
    simp only [BitVec.getElem_append, BitVec.getElem_setWidth, BitVec.getLsbD_ushiftRight]
    grind
  intro bytes h rest
  cases h
  exact congrArg (Outcome.ok · rest) hv

theorem string (s : String) : ReadsBack Deserializer.string (Serializer.str s) s := by
  unfold Serializer.str
  split
  · next hlen =>
      refine (u16 _).bind fun bytes h rest => ?_
      cases h
      have hnat : (BitVec.ofNat 16 (as_bytes s).length).toNat = (as_bytes s).length :=
        Nat.mod_eq_of_lt hlen
      rw [hnat, Exec.get_bind, Exec.reject_bind_neg (by simp), Exec.set_bind, List.drop_left,
        List.take_left, Bip388.from_utf8_as_bytes]
      rfl
  · intro bytes h
    cases h

theorem option {read : Deserializer α} {write : Serializer α} {o : Option α}
    (h : ∀ v ∈ o, ReadsBack read (write v) v) :
    ReadsBack (Deserializer.option read) (Serializer.option write o) o := by
  cases o with
  | none =>
      intro bytes hb rest
      cases hb
      rfl
  | some v => exact (first _ 1).bind (h v rfl).last

theorem items {read : Deserializer α} {write : Serializer α} {vs : List α}
    (h : ∀ v ∈ vs, ReadsBack read (write v) v) :
    ReadsBack (Deserializer.items read vs.length) (Serializer.items write vs) vs := by
  induction vs with
  | nil => exact value []
  | cons v vs ih =>
      exact (h v List.mem_cons_self).bind (ih fun v hv => h v (.tail _ hv)).last

/-- The reader reserves room for all of the items before it reads the first. -/
theorem vec {read : Deserializer α} {write : Serializer α} {vs : List α} {heap size_of : ℕ}
    (h : ∀ v ∈ vs, ReadsBack read (write v) v)
    (hroom : Deserializer.Fits heap vs.length size_of) :
    ReadsBack (Deserializer.vec heap size_of read) (Serializer.slice write vs) vs := by
  unfold Serializer.slice
  split
  · next hlen =>
      refine (u32 _).bind fun bytes hb rest => ?_
      have hnat : (BitVec.ofNat 32 vs.length).toNat = vs.length := Nat.mod_eq_of_lt hlen
      rw [hnat, Exec.assert_bind_pos hroom]
      exact items h bytes hb rest
  · intro bytes hb
    cases hb

theorem tag_value (t : TagValue) :
    ReadsBack Deserializer.tag_value (Serializer.tag_value t) t :=
  (string _).bind (string _).last

theorem icon (i : Icon) : ReadsBack Deserializer.icon (Serializer.icon i) i := by
  intro bytes h rest
  cases i <;> cases h <;> rfl

theorem nav_info (ni : NavInfo) : ReadsBack Deserializer.nav_info (Serializer.nav_info ni) ni := by
  unfold Serializer.nav_info
  simp only [Written.append_assoc]
  exact (first _ 0).bind ((bool _).bind ((bool _).bind (option fun _ _ => string _).last))

theorem navigation_info (ni : NavigationInfo) :
    ReadsBack Deserializer.navigation_info (Serializer.navigation_info ni) ni := by
  unfold Serializer.navigation_info
  simp only [Written.append_assoc]
  exact (u32 _).bind ((u32 _).bind ((option fun _ _ => string _).bind (nav_info _).last))

end ReadsBack

/-- The reader has room for the pairs, if there are any. -/
def PageContent.RoomFor (heap : ℕ) : PageContent → Prop
  | .tagValueList list => Deserializer.Fits heap list.length Deserializer.SIZE_OF_TAG_VALUE
  | .textSubtext _ _ | .confirmationButton _ _ | .confirmationLongPress _ _ => True

def Ux.Page.RoomFor (heap : ℕ) : Ux.Page → Prop
  | .genericPage _ content => content.page_content.RoomFor heap
  | .spinner _ | .info _ _ | .confirmReject _ _ _ _ | .home _ => True

namespace ReadsBack

variable {heap : ℕ}

theorem page_content {content : PageContent} (h : content.RoomFor heap) :
    ReadsBack (Deserializer.page_content heap) (Serializer.page_content content) content := by
  cases content with
  | textSubtext text subtext =>
      rw [Serializer.page_content, Written.append_assoc]
      exact (first _ 0).bind ((string text).bind (string subtext).last)
  | tagValueList list => exact (first _ 1).bind (vec (fun t _ => tag_value t) h).last
  | confirmationButton text button_text =>
      rw [Serializer.page_content, Written.append_assoc]
      exact (first _ 2).bind ((string text).bind (string button_text).last)
  | confirmationLongPress text long_press_text =>
      rw [Serializer.page_content, Written.append_assoc]
      exact (first _ 3).bind ((string text).bind (string long_press_text).last)

theorem page_content_info {info : PageContentInfo} (h : info.page_content.RoomFor heap) :
    ReadsBack (Deserializer.page_content_info heap) (Serializer.page_content_info info) info := by
  unfold Serializer.page_content_info
  rw [Written.append_assoc]
  exact (option fun _ _ => string _).bind ((icon _).bind (page_content h).last)

theorem page {p : Ux.Page} (h : p.RoomFor heap) :
    ReadsBack (Deserializer.page heap) (Serializer.page p) p := by
  cases p with
  | spinner text => exact (first _ 0).bind (string text).last
  | info i text =>
      rw [Serializer.page, Written.append_assoc]
      exact (first _ 1).bind ((icon i).bind (string text).last)
  | confirmReject title text confirm reject =>
      rw [Serializer.page]
      simp only [Written.append_assoc]
      exact (first _ 2).bind ((string title).bind ((string text).bind ((string confirm).bind
        (string reject).last)))
  | genericPage ni info =>
      rw [Serializer.page, Written.append_assoc]
      exact (first _ 3).bind ((option fun ni _ => navigation_info ni).bind
        (page_content_info h).last)
  | home description => exact (first _ 4).bind (string description).last

/-- Nothing is left over. -/
theorem full {read : Deserializer α} {w : Written} {v : α} (h : ReadsBack read w v)
    {bytes : Bytes} (hw : w.bytes = some bytes) : read.full bytes = .ok v [] := by
  have hrun := h bytes hw []
  rw [List.append_nil] at hrun
  rw [Deserializer.full, Exec.bind_apply_ok hrun]
  rfl

end ReadsBack

/-! ## What the build script makes -/

theorem make_object_append (ps qs : List SerializedPart) :
    make_object (ps ++ qs) = make_object ps ++ make_object qs := by
  induction ps with
  | nil => exact (Written.nil_append _).symm
  | cons part ps ih =>
      cases part with
      | static bytes => rw [List.cons_append, make_object, make_object, ih, Written.append_assoc]
      | runtime arg => rw [List.cons_append, make_object, make_object, ih, Written.append_assoc]

theorem make_object_static (bytes : Bytes) : make_object [.static bytes] = .of bytes :=
  Written.append_nil _

theorem make_object_cons_static (bytes : Bytes) (ps : List SerializedPart) :
    make_object (.static bytes :: ps) = .of bytes ++ make_object ps := rfl

/-- What the field is, once the arguments are known. -/
def MaybeConst.value {α : Type} : MaybeConst α → α
  | .const v => v
  | .runtime v => v

/-- The field is an argument, or it can be written. -/
def MaybeConst.Writable {α : Type} (write : Serializer α) : MaybeConst α → Prop
  | .const v => (write v).bytes.isSome
  | .runtime _ => True

theorem make_maybe_const {α : Type} {write : Serializer α} (h : ∀ v, (write v).Exact)
    {m : MaybeConst α} (hm : m.Writable write) :
    make_object (WrappedSerializer.maybe_const write m) = write m.value := by
  cases m with
  | const v =>
      obtain ⟨bytes, hbytes⟩ := Option.isSome_iff_exists.mp hm
      rw [WrappedSerializer.maybe_const, make_object_static, hbytes]
      exact ((h v).eq_of hbytes).symm
  | runtime v => exact Written.append_nil _

theorem make_maybe_const_str {m : MaybeConst String} (hm : m.Writable Serializer.str) :
    make_object (WrappedSerializer.maybe_const_str m) = Serializer.str m.value := by
  cases m with
  | const s =>
      have hlen : (as_bytes s).length < 2 ^ 16 := by
        by_contra hlong
        rw [MaybeConst.Writable, Serializer.str, if_neg hlong] at hm
        cases hm
      rw [WrappedSerializer.maybe_const_str, make_object_static]
      exact ((Serializer.exact_str s).eq_of (Serializer.str_bytes hlen)).symm
  | runtime s => exact Written.append_nil _

theorem make_option {α β : Type} {wrapped : WrappedSerializer α} {write : Serializer β}
    {f : α → β} {o : Option α} (h : ∀ v ∈ o, make_object (wrapped v) = write (f v)) :
    make_object (WrappedSerializer.option wrapped o) = Serializer.option write (o.map f) := by
  cases o with
  | none => exact Written.append_nil _
  | some v => exact congrArg (Written.of [1] ++ ·) (h v rfl)

/-- The page that the function stands for. -/
def WrappedNavInfo.plain (ni : WrappedNavInfo) : NavInfo where
  has_back_button := ni.has_back_button.value
  has_page_indicator := ni.has_page_indicator.value
  quit_text := ni.quit_text.map MaybeConst.value

def WrappedNavigationInfo.plain (ni : WrappedNavigationInfo) : NavigationInfo where
  active_page := ni.active_page.value
  n_pages := ni.n_pages.value
  skip_text := ni.skip_text.map MaybeConst.value
  nav_info := ni.nav_info.plain

def WrappedPageContent.plain : WrappedPageContent → PageContent
  | .textSubtext text subtext => .textSubtext text.value subtext.value
  | .tagValueList list => .tagValueList list.value
  | .confirmationButton text button_text => .confirmationButton text.value button_text.value
  | .confirmationLongPress text long_press_text =>
      .confirmationLongPress text.value long_press_text.value

def WrappedPageContentInfo.plain (info : WrappedPageContentInfo) : PageContentInfo where
  title := info.title.map MaybeConst.value
  top_right_icon := info.top_right_icon.value
  page_content := info.page_content.plain

def WrappedPage.plain : WrappedPage → Ux.Page
  | .spinner text => .spinner text.value
  | .info icon text => .info icon.value text.value
  | .confirmReject title text confirm reject =>
      .confirmReject title.value text.value confirm.value reject.value
  | .genericPage ni content => .genericPage (ni.map WrappedNavigationInfo.plain) content.plain
  | .home description => .home description.value

/-- All constants in it can be written. -/
def WrappedNavigationInfo.Writable (ni : WrappedNavigationInfo) : Prop :=
  (∀ text ∈ ni.skip_text, text.Writable Serializer.str) ∧
    ∀ text ∈ ni.nav_info.quit_text, text.Writable Serializer.str

def WrappedPageContent.Writable : WrappedPageContent → Prop
  | .textSubtext text subtext => text.Writable Serializer.str ∧ subtext.Writable Serializer.str
  | .tagValueList list => list.Writable (Serializer.slice Serializer.tag_value)
  | .confirmationButton text button_text =>
      text.Writable Serializer.str ∧ button_text.Writable Serializer.str
  | .confirmationLongPress text long_press_text =>
      text.Writable Serializer.str ∧ long_press_text.Writable Serializer.str

def WrappedPageContentInfo.Writable (info : WrappedPageContentInfo) : Prop :=
  (∀ text ∈ info.title, text.Writable Serializer.str) ∧ info.page_content.Writable

def WrappedPage.Writable : WrappedPage → Prop
  | .spinner text | .info _ text | .home text => text.Writable Serializer.str
  | .confirmReject title text confirm reject => title.Writable Serializer.str ∧
      text.Writable Serializer.str ∧ confirm.Writable Serializer.str ∧
        reject.Writable Serializer.str
  | .genericPage ni content =>
      (∀ navigation ∈ ni, WrappedNavigationInfo.Writable navigation) ∧ content.Writable

theorem make_bool (m : MaybeConst Bool) :
    make_object (WrappedSerializer.maybe_const Serializer.bool m) = Serializer.bool m.value :=
  make_maybe_const (fun _ => .of _) (by cases m <;> trivial)

theorem make_u32 (m : MaybeConst U32) :
    make_object (WrappedSerializer.maybe_const Serializer.u32 m) = Serializer.u32 m.value :=
  make_maybe_const (fun _ => .of _) (by cases m <;> trivial)

theorem make_icon (m : MaybeConst Icon) :
    make_object (WrappedSerializer.maybe_const Serializer.icon m) = Serializer.icon m.value := by
  refine make_maybe_const Serializer.exact_icon ?_
  cases m with
  | const i => cases i <;> rfl
  | runtime i => trivial

theorem make_texts {o : Option (MaybeConst String)}
    (h : ∀ text ∈ o, text.Writable Serializer.str) :
    make_object (WrappedSerializer.option WrappedSerializer.maybe_const_str o) =
      Serializer.option Serializer.str (o.map MaybeConst.value) :=
  make_option fun text ht => make_maybe_const_str (h text ht)

theorem make_nav_info {ni : WrappedNavInfo}
    (h : ∀ text ∈ ni.quit_text, text.Writable Serializer.str) :
    make_object (WrappedSerializer.nav_info ni) = Serializer.nav_info ni.plain := by
  simp only [WrappedSerializer.nav_info, make_object_append, make_object_static, make_bool,
    make_texts h]
  rfl

theorem make_navigation_info {ni : WrappedNavigationInfo} (h : ni.Writable) :
    make_object (WrappedSerializer.navigation_info ni) = Serializer.navigation_info ni.plain := by
  simp only [WrappedSerializer.navigation_info, make_object_append, make_u32, make_texts h.1,
    make_nav_info h.2]
  rfl

theorem make_page_content {content : WrappedPageContent} (h : content.Writable) :
    make_object (WrappedSerializer.page_content content) =
      Serializer.page_content content.plain := by
  cases content with
  | tagValueList list =>
      have hslice := Serializer.exact_slice Serializer.exact_tag_value
      simp only [WrappedSerializer.page_content, make_object_append, make_object_static,
        make_maybe_const hslice h]
      rfl
  | textSubtext | confirmationButton | confirmationLongPress =>
      simp only [WrappedSerializer.page_content, make_object_append, make_object_static,
        make_maybe_const_str h.1, make_maybe_const_str h.2]
      rfl

theorem make_page_content_info {info : WrappedPageContentInfo} (h : info.Writable) :
    make_object (WrappedSerializer.page_content_info info) =
      Serializer.page_content_info info.plain := by
  simp only [WrappedSerializer.page_content_info, make_object_append, make_icon, make_texts h.1,
    make_page_content h.2]
  rfl

/-- The function that is made for a page writes what the page itself writes. -/
theorem make_page {p : WrappedPage} (h : p.Writable) :
    make_object (WrappedSerializer.page p) = Serializer.page p.plain := by
  cases p with
  | spinner text | home text =>
      have h : text.Writable Serializer.str := h
      simp only [WrappedSerializer.page, make_object_append, make_object_static,
        make_maybe_const_str h]
      rfl
  | info icon text =>
      have h : text.Writable Serializer.str := h
      simp only [WrappedSerializer.page, make_object_append, make_object_static, make_icon,
        make_maybe_const_str h]
      rfl
  | confirmReject title text confirm reject =>
      obtain ⟨htitle, htext, hconfirm, hreject⟩ := h
      simp only [WrappedSerializer.page, make_object_append, make_object_static,
        make_maybe_const_str htitle, make_maybe_const_str htext, make_maybe_const_str hconfirm,
        make_maybe_const_str hreject]
      rfl
  | genericPage ni info =>
      have hni := make_option (f := WrappedNavigationInfo.plain) (o := ni) fun ni hmem =>
        make_navigation_info (h.1 ni hmem)
      simp only [WrappedSerializer.page, make_object_append, make_object_static, hni,
        make_page_content_info h.2]
      rfl

end Vanadium
