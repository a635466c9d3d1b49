import Vanadium.Proofs.Keeps
import Vanadium.Vm.Ecall

/-!
# What memory keeps, an ECALL keeps

An ECALL reads what it likes, and writes through its output pointers only. So
it keeps what lookups keep, provided that the segments of its output pointers
may be overwritten. It does not panic either, unless it is one of three:
`unguarded`.
-/

namespace Vanadium

open Lib

variable {M : Type} {quiet : Prop}

/-! ## Parsing and drawing

Of a parser and of a screen only panics are of interest. The one place where a
parser can panic is the capacity of a vector. -/

namespace Deserializer

variable {α : Type}

theorem keeps_first (e : String) : Exec.Keeps quiet (fun _ => True) (first e) := by
  refine Exec.Keeps.get.bind fun slice => ?_
  split
  · exact (Exec.Keeps.modify fun _ _ => trivial).bind fun _ => .pure _
  · exact .throw _

theorem keeps_bool : Exec.Keeps quiet (fun _ => True) bool := by
  refine (keeps_first _).bind fun byte => ?_
  split
  · exact .pure _
  · split
    · exact .pure _
    · exact .throw _

theorem keeps_u16 : Exec.Keeps quiet (fun _ => True) u16 := by
  refine Exec.Keeps.get.bind fun slice => ?_
  split
  · exact (Exec.Keeps.modify fun _ _ => trivial).bind fun _ => .pure _
  · exact .throw _

theorem keeps_u32 : Exec.Keeps quiet (fun _ => True) u32 := by
  refine Exec.Keeps.get.bind fun slice => ?_
  split
  · exact (Exec.Keeps.modify fun _ _ => trivial).bind fun _ => .pure _
  · exact .throw _

theorem keeps_string : Exec.Keeps quiet (fun _ => True) string :=
  keeps_u16.bind fun _ => Exec.Keeps.get.bind fun _ => (Exec.Keeps.reject _ _).bind fun _ =>
    (Exec.Keeps.modify fun _ _ => trivial).bind fun _ => .orElse _ _

theorem keeps_option {value : Deserializer α} (h : Exec.Keeps quiet (fun _ => True) value) :
    Exec.Keeps quiet (fun _ => True) (option value) := by
  refine (keeps_first _).bind fun tag => ?_
  split
  · exact .pure _
  · split
    · exact h.bind fun _ => .pure _
    · exact .throw _

theorem keeps_items {item : Deserializer α} (h : Exec.Keeps quiet (fun _ => True) item) :
    ∀ n, Exec.Keeps quiet (fun _ => True) (items item n)
  | 0 => .pure _
  | n + 1 => h.bind fun _ => (keeps_items h n).bind fun _ => .pure _

theorem keeps_full {value : Deserializer α} (h : Exec.Keeps quiet (fun _ => True) value) :
    Exec.Keeps quiet (fun _ => True) value.full :=
  h.bind fun _ => Exec.Keeps.get.bind fun _ => (Exec.Keeps.reject _ _).bind fun _ => .pure _

theorem keeps_icon : Exec.Keeps quiet (fun _ => True) icon := by
  refine (keeps_first _).bind fun tag => ?_
  split
  case h_7 => exact .throw _
  all_goals exact .pure _

theorem keeps_nav_info : Exec.Keeps quiet (fun _ => True) nav_info := by
  refine (keeps_first _).bind fun tag => ?_
  split
  · exact keeps_bool.bind fun _ => keeps_bool.bind fun _ =>
      (keeps_option keeps_string).bind fun _ => .pure _
  · exact .throw _

theorem keeps_navigation_info : Exec.Keeps quiet (fun _ => True) navigation_info :=
  keeps_u32.bind fun _ => keeps_u32.bind fun _ => (keeps_option keeps_string).bind fun _ =>
    keeps_nav_info.bind fun _ => .pure _

theorem keeps_tag_value : Exec.Keeps quiet (fun _ => True) tag_value :=
  keeps_string.bind fun _ => keeps_string.bind fun _ => .pure _

/-- Two texts, and something made of them. -/
theorem keeps_texts (f : String → String → α) :
    Exec.Keeps quiet (fun _ => True) (do
      let text ← string
      let subtext ← string
      pure (f text subtext)) :=
  keeps_string.bind fun _ => keeps_string.bind fun _ => .pure _

/-- How many pairs a content announces, if it is a list of pairs. -/
def announced_by_content : Deserializer U32 := do
  let tag ← first "PageContent slice to short for tag"
  Exec.reject (tag ≠ 1) "unknown tag"
  u32

/-- How many pairs a page announces, if its content is a list of pairs. -/
def announced : Deserializer U32 := do
  let tag ← first "Page slice to short for tag"
  Exec.reject (tag ≠ 3) "unknown tag"
  let _ ← option navigation_info
  let _ ← option string
  let _ ← icon
  announced_by_content

theorem page_content_keepsAt {heap : ℕ} {slice : Bytes}
    (h : quiet → ∀ n rest, announced_by_content slice = .ok n rest →
      Fits heap n.toNat SIZE_OF_TAG_VALUE) :
    Exec.KeepsAt quiet (fun _ => True) (page_content heap) slice := by
  refine Exec.KeepsAt.bind (keeps_first _ trivial) fun tag s₁ htag => ?_
  split
  · exact keeps_texts _ trivial
  · next hone =>
      refine Exec.KeepsAt.bind (J := fun _ => True) ?_ fun _ _ _ => Exec.Keeps.pure _ trivial
      refine Exec.KeepsAt.bind (keeps_u32 trivial) fun n s₂ hn => ?_
      have hannounced : announced_by_content slice = .ok n s₂ :=
        Exec.bind_ok.mpr ⟨tag, s₁, htag, Exec.reject_bind_ok.mpr
          ⟨fun hne => hne (BitVec.eq_of_toNat_eq hone), hn⟩⟩
      exact ((Exec.Keeps.assert fun hq => h hq n s₂ hannounced).bind
        fun _ => keeps_items keeps_tag_value _) trivial
  · exact keeps_texts _ trivial
  · exact keeps_texts _ trivial
  · exact Exec.Keeps.throw _ trivial

/-- Parsing a page does not panic if the pairs it announces can be allocated. -/
theorem page_keepsAt {heap : ℕ} {slice : Bytes}
    (h : quiet → ∀ n rest, announced slice = .ok n rest →
      Fits heap n.toNat SIZE_OF_TAG_VALUE) :
    Exec.KeepsAt quiet (fun _ => True) (page heap) slice := by
  refine Exec.KeepsAt.bind (keeps_first _ trivial) fun tag s₁ htag => ?_
  split
  · exact (keeps_string.bind fun _ => .pure _) trivial
  · exact (keeps_icon.bind fun _ => keeps_string.bind fun _ => .pure _) trivial
  · exact (keeps_string.bind fun _ => keeps_string.bind fun _ => keeps_string.bind fun _ =>
      keeps_string.bind fun _ => .pure _) trivial
  · next hthree =>
      refine Exec.KeepsAt.bind (keeps_option keeps_navigation_info trivial) fun nav s₂ hnav => ?_
      refine Exec.KeepsAt.bind (J := fun _ => True) ?_ fun _ _ _ => Exec.Keeps.pure _ trivial
      refine Exec.KeepsAt.bind (keeps_option keeps_string trivial) fun title s₃ htitle => ?_
      refine Exec.KeepsAt.bind (keeps_icon trivial) fun icon s₄ hicon => ?_
      refine Exec.KeepsAt.bind (page_content_keepsAt fun hq n rest hn => h hq n rest ?_)
        fun _ _ _ => Exec.Keeps.pure _ trivial
      refine Exec.bind_ok.mpr ⟨tag, s₁, htag, Exec.reject_bind_ok.mpr
        ⟨fun hne => hne (BitVec.eq_of_toNat_eq hthree), ?_⟩⟩
      exact Exec.bind_ok.mpr ⟨nav, s₂, hnav, Exec.bind_ok.mpr ⟨title, s₃, htitle,
        Exec.bind_ok.mpr ⟨icon, s₄, hicon, hn⟩⟩⟩
  · exact (keeps_string.bind fun _ => .pure _) trivial
  · exact Exec.Keeps.throw _ trivial

/-- And it does if they cannot. -/
theorem page_panics {heap : ℕ} {slice rest : Bytes} {n : U32}
    (hn : announced slice = .ok n rest) (h : ¬ Fits heap n.toNat SIZE_OF_TAG_VALUE) :
    Exec.Panics (page heap) slice := by
  obtain ⟨tag, s₁, htag, hpage⟩ := Exec.bind_ok.mp hn
  obtain ⟨hthree, hinfo⟩ := Exec.reject_bind_ok.mp hpage
  obtain ⟨nav, s₂, hnav, hinfo⟩ := Exec.bind_ok.mp hinfo
  obtain ⟨title, s₃, htitle, hinfo⟩ := Exec.bind_ok.mp hinfo
  obtain ⟨icon, s₄, hicon, hcontent⟩ := Exec.bind_ok.mp hinfo
  obtain ⟨tag', s₅, htag', hcontent⟩ := Exec.bind_ok.mp hcontent
  obtain ⟨hone, hn⟩ := Exec.reject_bind_ok.mp hcontent
  rw [not_not.mp hthree] at htag
  rw [not_not.mp hone] at htag'
  have hvec : Exec.Panics (vec heap SIZE_OF_TAG_VALUE tag_value) s₅ := by
    refine Exec.panics_bind.mpr (.inr ⟨n, rest, hn, Exec.panics_bind.mpr (.inl ⟨rest, ?_⟩)⟩)
    rw [Exec.assert, if_neg h]
    rfl
  have hcontent : Exec.Panics (page_content heap) s₄ :=
    Exec.panics_bind.mpr (.inr ⟨1, s₅, htag', Exec.panics_bind.mpr (.inl hvec)⟩)
  have hinfo : Exec.Panics (page_content_info heap) s₂ :=
    Exec.panics_bind.mpr (.inr ⟨title, s₃, htitle, Exec.panics_bind.mpr (.inr ⟨icon, s₄, hicon,
      Exec.panics_bind.mpr (.inl hcontent)⟩)⟩)
  exact Exec.panics_bind.mpr (.inr ⟨3, s₁, htag, Exec.panics_bind.mpr (.inr ⟨nav, s₂, hnav,
    Exec.panics_bind.mpr (.inl hinfo)⟩)⟩)

theorem keeps_step : Exec.Keeps quiet (fun _ => True) step := by
  refine (keeps_first _).bind fun tag => ?_
  split
  · exact (keeps_first _).bind fun _ => keeps_string.bind fun _ => keeps_string.bind fun _ =>
      (keeps_first _).bind fun _ => .pure _
  · exact (keeps_first _).bind fun _ => (keeps_option keeps_string).bind fun _ =>
      (keeps_option keeps_string).bind fun _ => keeps_icon.bind fun _ =>
        (keeps_first _).bind fun _ => .pure _
  · exact .throw _

end Deserializer

namespace UxHandler

theorem keeps_alloc_cstrings :
    ∀ strings, Exec.Keeps quiet (fun _ => True) (alloc_cstrings strings)
  | [] => .pure _
  | _ :: strings => (Exec.Keeps.reject _ _).bind fun _ => keeps_alloc_cstrings strings

theorem keeps_modify (f : UxHandler → UxHandler) :
    Exec.Keeps quiet (fun _ => True) (Exec.modify f : Exec CommEcallError UxHandler Unit) :=
  .modify fun _ _ => trivial

theorem keeps_show_page (os : TargetOs) (page : Ux.Page) :
    Exec.Keeps quiet (fun _ => True) (show_page os page) := by
  rw [show_page]
  split
  · refine (keeps_modify _).bind fun _ => Exec.Keeps.bind ?_ fun _ => keeps_modify _
    cases page with
    | genericPage navigation_info info =>
        cases navigation_info with
        | none => exact (Exec.Keeps.pure _).bind fun _ => keeps_alloc_cstrings _
        | some ni =>
            refine Exec.Keeps.bind ?_ fun _ => keeps_alloc_cstrings _
            exact (keeps_modify _).bind fun _ => (Exec.Keeps.reject _ _).bind fun _ =>
              keeps_alloc_cstrings _
    | spinner | info | confirmReject | home => exact keeps_alloc_cstrings _
  · exact .throw _

theorem keeps_show_step (os : TargetOs) (step : Ux.Step) :
    Exec.Keeps quiet (fun _ => True) (show_step os step) := by
  rw [show_step]
  split
  · exact .throw _
  · exact (keeps_modify _).bind fun _ => (keeps_alloc_cstrings _).bind fun _ => keeps_modify _

end UxHandler

/-! ## The ECALLs

What an ECALL reads it may read from the code. What it writes it writes to its
output pointers, and nothing is lost if those are in segments that may be
overwritten. -/

namespace CommEcallHandler

variable {cpu₀ : Cpu M} {I : Cpu.Segment → M → Prop} {α : Type}

/-- The processor's part of the state is `Cpu.Kept`. -/
def Spared (cpu₀ : Cpu M) (I : Cpu.Segment → M → Prop) (s : CommEcallHandler × Cpu M) : Prop :=
  Cpu.Kept cpu₀ I s.2

/-- And what is reserved stays so. -/
def Steady (cpu₀ : Cpu M) (I : Cpu.Segment → M → Prop) (reserved : Option U32)
    (s : CommEcallHandler × Cpu M) : Prop :=
  Spared cpu₀ I s ∧ s.2.reservation_addr = reserved

variable {reserved : Option U32}

theorem keeps_on_handler {m : Exec CommEcallError CommEcallHandler α}
    (h : Exec.Keeps quiet (fun _ => True) m) :
    Exec.Keeps quiet (Steady cpu₀ I reserved) (on_handler m : Ecall M α) :=
  h.zoom (fun _ _ => trivial) fun _ _ hs _ => hs

theorem keeps_map_err (e : CommEcallError) {m : Ecall M α}
    (h : Exec.Keeps quiet (Steady cpu₀ I reserved) m) :
    Exec.Keeps quiet (Steady cpu₀ I reserved) (map_err e m) :=
  h.zoom (fun _ hs => hs) fun _ _ _ ht => ht

theorem keeps_interrupt (message : Bytes) {J : Comm → Prop} (hJ : ∀ c, J c) :
    Exec.Keeps quiet J (interrupt message) := by
  intro c _
  constructor
  · exact fun _ c' _ => hJ c'
  · intro w c' h _
    unfold interrupt at h
    split at h
    · cases h; rfl
    · cases h
    · cases h

theorem keeps_exchange (message : Bytes) :
    Exec.Keeps quiet (Steady cpu₀ I reserved) (exchange message : Ecall M Bytes) :=
  keeps_on_handler ((keeps_interrupt message fun _ => trivial).zoom (fun _ _ => trivial)
    fun _ _ _ _ => trivial)

/-- Whoever asked for the segment of a pointer knows which one it is. -/
theorem keeps_get_segment_bind (ptr : GuestPointer) {f : Cpu.Segment → Ecall M α}
    (hf : ∀ seg, cpu₀.owner ptr = some seg → Exec.Keeps quiet (Steady cpu₀ I reserved) (f seg)) :
    Exec.Keeps quiet (Steady cpu₀ I reserved) (get_segment ptr >>= f) := by
  refine Exec.Keeps.bind_of (P := fun seg => cpu₀.owner ptr = some seg) ?_ ?_ hf
  · exact (Cpu.keeps_get_segment (J := fun cpu => Cpu.Kept cpu₀ I cpu ∧
      cpu.reservation_addr = reserved) ptr).zoom (fun _ hs => hs) fun _ _ _ ht => ht
  · intro s seg s' h hs
    obtain ⟨cpu, hcpu, rfl⟩ := Exec.zoom_ok.mp h
    obtain ⟨howner, rfl⟩ := Cpu.get_segment_owner hcpu
    exact (congrFun (Cpu.Kept.owner hs.1) ptr).symm.trans howner

theorem keeps_on_segment {seg : Cpu.Segment} {access : Exec MemoryError (MemorySegment M) α}
    (h : ∀ start size, Exec.Keeps quiet (MemorySegment.Fixed start size (I seg)) access) :
    Exec.Keeps quiet (Steady cpu₀ I reserved) (on_segment seg access) :=
  (h _ _).zoom (fun _ hs => hs.1 seg) fun _ _ hs hseg =>
    ⟨Cpu.Kept.set_segment hs.1 hseg, (Cpu.set_segment_reservation ..).trans hs.2⟩

variable [PagedMemory M]

/-- The segment of a pointer, if it has one, may be overwritten. -/
def MayWrite (cpu₀ : Cpu M) (I : Cpu.Segment → M → Prop) (ptr : GuestPointer) : Prop :=
  ∀ s, cpu₀.owner ptr = some s → Overwritable (I s)

section
variable (hmem : Cpu.MemoryKept quiet I)
include hmem

theorem keeps_write_segment {seg : Cpu.Segment} (hseg : Overwritable (I seg))
    (ptr : GuestPointer) (buffer : Bytes) :
    Exec.Keeps quiet (Steady cpu₀ I reserved)
      (on_segment seg (MemorySegment.write_buffer (M := M) ptr buffer)) :=
  keeps_on_segment fun _ _ =>
    MemorySegment.keeps_write_buffer (hmem.get_page seg) hseg ptr buffer

theorem keeps_write_guest {ptr : GuestPointer} (h : MayWrite cpu₀ I ptr) (buffer : Bytes) :
    Exec.Keeps quiet (Steady cpu₀ I reserved) (write_guest ptr buffer : Ecall M Unit) :=
  keeps_get_segment_bind ptr fun seg hseg => keeps_write_segment hmem (h seg hseg) ptr buffer

theorem keeps_read_segment (seg : Cpu.Segment) (ptr : GuestPointer) (len : ℕ) :
    Exec.Keeps quiet (Steady cpu₀ I reserved)
      (on_segment seg (MemorySegment.read_buffer (M := M) ptr len)) :=
  keeps_on_segment fun _ _ => MemorySegment.keeps_read_buffer (hmem.get_page seg) ptr len

theorem keeps_read_guest (ptr : GuestPointer) (len : ℕ) :
    Exec.Keeps quiet (Steady cpu₀ I reserved) (read_guest ptr len : Ecall M Bytes) :=
  keeps_get_segment_bind ptr fun seg _ => keeps_read_segment hmem seg ptr len

theorem keeps_send_buffer (buffer : GuestPointer) (size : ℕ) (buffer_type : BufferType) :
    Exec.Keeps quiet (Steady cpu₀ I reserved) (handle_send_buffer buffer size buffer_type : Ecall M Unit) := by
  have hloop : ∀ (fuel : ℕ) (seg : Cpu.Segment) (message : ℕ → Bytes → Bytes)
      (max_chunk : ℕ) (g_ptr : U32) (size : ℕ), Exec.Keeps quiet (Steady cpu₀ I reserved)
        (handle_send_buffer.loop (M := M) seg message max_chunk fuel g_ptr size) := by
    intro fuel
    induction fuel with
    | zero => exact fun _ _ _ _ _ => .pure _
    | succ fuel ih =>
        intro seg message max_chunk g_ptr size
        rw [handle_send_buffer.loop]
        split
        · exact .pure _
        · exact (keeps_read_segment hmem _ _ _).bind fun _ => (keeps_exchange _).bind fun _ =>
            ih _ _ _ _ _
  rw [handle_send_buffer]
  split
  · exact (keeps_exchange _).bind fun _ => .pure _
  · exact (Exec.Keeps.reject _ _).bind fun _ => keeps_get_segment_bind _ fun _ _ =>
      hloop _ _ _ _ _ _

theorem keeps_xrecv {buffer : GuestPointer} (h : MayWrite cpu₀ I buffer)
    (max_size : U32) :
    Exec.Keeps quiet (Steady cpu₀ I reserved) (handle_xrecv buffer max_size : Ecall M ℕ) := by
  have hexpect : ∀ (remaining : Option U32) (max_size announced : U32),
      Exec.Keeps quiet (Steady cpu₀ I reserved)
        (handle_xrecv.expect remaining max_size announced : Ecall M U32) := by
    intro remaining max_size announced
    cases remaining with
    | none => exact (Exec.Keeps.reject _ _).bind fun _ => .pure _
    | some r => exact (Exec.Keeps.reject _ _).bind fun _ => .pure _
  have hloop : ∀ (fuel : ℕ) {seg : Cpu.Segment}, Overwritable (I seg) →
      ∀ (remaining : Option U32) (g_ptr : U32) (total : ℕ), Exec.Keeps quiet (Steady cpu₀ I reserved)
        (handle_xrecv.loop (M := M) seg max_size fuel remaining g_ptr total) := by
    intro fuel
    induction fuel with
    | zero => exact fun _ _ _ _ => .hang
    | succ fuel ih =>
        intro seg hseg remaining g_ptr total
        rw [handle_xrecv.loop]
        split
        · exact .pure _
        · exact (keeps_exchange _).bind fun _ => (Exec.Keeps.ofExcept _ _).bind fun _ =>
            (hexpect _ _ _).bind fun _ => (keeps_write_segment hmem hseg _ _).bind fun _ =>
              (Exec.Keeps.reject _ _).bind fun _ => ih hseg _ _ _
  refine keeps_get_segment_bind buffer fun seg hseg => Exec.Keeps.get.bind fun _ => ?_
  exact hloop _ (h seg hseg) _ _ _

/-- Without a slot of that number and size nothing is written. -/
theorem storage_read_keepsAt {slot_index : U32} {buffer : GuestPointer} {size : ℕ}
    {s : CommEcallHandler × Cpu M}
    (h : size = STORAGE_SLOT_SIZE ∧ slot_index < s.1.n_storage_slots ∧
      slot_index < MAX_STORAGE_SLOTS → MayWrite cpu₀ I buffer) (hs : Steady cpu₀ I reserved s) :
    Exec.KeepsAt quiet (Steady cpu₀ I reserved) (handle_storage_read slot_index buffer size) s := by
  refine (Exec.Keeps.get hs).bind fun t t' hget => ?_
  cases hget
  dsimp only
  split
  · exact Exec.Keeps.pure _ hs
  · next hsize =>
      split
      · exact Exec.Keeps.pure _ hs
      · next hslot =>
          rw [not_or, ge_iff_le, ge_iff_le, BitVec.not_le, BitVec.not_le] at hslot
          have hptr := h ⟨not_not.mp hsize, hslot⟩
          have hlt : slot_index.toNat < 4 := hslot.2
          cases find_by_hash s.1.storage s.1.vapp_hash with
          | none => exact Exec.Keeps.pure _ hs
          | some vapp_index =>
              exact ((Exec.Keeps.orElse _ _).bind fun entry =>
                (Exec.Keeps.unwrap fun _ => by simp [hlt]).bind fun _ =>
                  (keeps_write_guest hmem hptr _).bind fun _ => Exec.Keeps.pure _) hs

theorem keeps_storage_write (slot_index : U32) (buffer : GuestPointer) (size : ℕ) :
    Exec.Keeps quiet (Steady cpu₀ I reserved) (handle_storage_write slot_index buffer size : Ecall M U32) := by
  refine Exec.Keeps.get.bind fun s => ?_
  dsimp only
  split
  · exact .pure _
  · split
    · exact .pure _
    · split
      · exact .pure _
      · exact (keeps_read_guest hmem _ _).bind fun _ => (Exec.Keeps.orElse _ _).bind fun _ =>
          (keeps_on_handler (.modify fun _ _ => trivial)).bind fun _ => .pure _

theorem keeps_bn_modm (sdk : Sdk) {r : GuestPointer} (h : MayWrite cpu₀ I r)
    (n : GuestPointer) (len : ℕ) (m : GuestPointer) (m_len : ℕ) :
    Exec.Keeps quiet (Steady cpu₀ I reserved) (handle_bn_modm sdk r n len m m_len : Ecall M Unit) :=
  (Exec.Keeps.reject _ _).bind fun _ => (keeps_read_guest hmem _ _).bind fun _ =>
    (keeps_read_guest hmem _ _).bind fun _ => (Exec.Keeps.orElse _ _).bind fun _ =>
      keeps_write_guest hmem h _

theorem keeps_bn_binary (op : Bytes → Bytes → Bytes → Option Bytes) (failed : String)
    {r : GuestPointer} (h : MayWrite cpu₀ I r) (a b m : GuestPointer) (len : ℕ) :
    Exec.Keeps quiet (Steady cpu₀ I reserved) (bn_binary op failed r a b m len : Ecall M Unit) :=
  (Exec.Keeps.reject _ _).bind fun _ => (keeps_read_guest hmem _ _).bind fun _ =>
    (keeps_read_guest hmem _ _).bind fun _ => (keeps_read_guest hmem _ _).bind fun _ =>
      (Exec.Keeps.orElse _ _).bind fun _ => keeps_write_guest hmem h _

theorem keeps_bn_modinv_prime (sdk : Sdk) {r : GuestPointer}
    (h : MayWrite cpu₀ I r) (a p : GuestPointer) (len : ℕ) :
    Exec.Keeps quiet (Steady cpu₀ I reserved) (handle_bn_modinv_prime sdk r a p len : Ecall M Unit) :=
  (Exec.Keeps.reject _ _).bind fun _ => (keeps_read_guest hmem _ _).bind fun _ =>
    (keeps_read_guest hmem _ _).bind fun _ => (Exec.Keeps.orElse _ _).bind fun _ =>
      keeps_write_guest hmem h _

theorem keeps_bn_powm (sdk : Sdk) {r : GuestPointer} (h : MayWrite cpu₀ I r)
    (a e : GuestPointer) (len_e : ℕ) (m : GuestPointer) (len : ℕ) :
    Exec.Keeps quiet (Steady cpu₀ I reserved) (handle_bn_powm sdk r a e len_e m len : Ecall M Unit) :=
  (Exec.Keeps.reject _ _).bind fun _ => (Exec.Keeps.reject _ _).bind fun _ =>
    (keeps_read_guest hmem _ _).bind fun _ => (keeps_read_guest hmem _ _).bind fun _ =>
      (keeps_read_guest hmem _ _).bind fun _ => (Exec.Keeps.orElse _ _).bind fun _ =>
        keeps_write_guest hmem h _

theorem keeps_hash_init (sdk : Sdk) (hash_identifier : U32) {ctx : GuestPointer}
    (h : MayWrite cpu₀ I ctx) :
    Exec.Keeps quiet (Steady cpu₀ I reserved) (handle_hash_init sdk hash_identifier ctx : Ecall M Unit) :=
  (Exec.Keeps.ofExcept _ _).bind fun _ => (keeps_read_guest hmem _ _).bind fun _ =>
    (Exec.Keeps.orElse _ _).bind fun _ => keeps_write_guest hmem h _

/-- An empty update writes nothing. -/
theorem keeps_hash_update (sdk : Sdk) (hash_identifier : U32) {ctx : GuestPointer}
    (data : GuestPointer) {data_len : ℕ} (h : data_len ≠ 0 → MayWrite cpu₀ I ctx) :
    Exec.Keeps quiet (Steady cpu₀ I reserved)
      (handle_hash_update sdk hash_identifier ctx data data_len : Ecall M Unit) := by
  have hloop : ∀ (fuel : ℕ) (seg : Cpu.Segment) (ctx : Bytes) (ptr : U32) (remaining : ℕ),
      Exec.Keeps quiet (Steady cpu₀ I reserved)
        (handle_hash_update.loop (M := M) sdk seg fuel ctx ptr remaining) := by
    intro fuel
    induction fuel with
    | zero => exact fun _ _ _ _ => .pure _
    | succ fuel ih =>
        intro seg ctx ptr remaining
        rw [handle_hash_update.loop]
        split
        · exact .pure _
        · exact (keeps_read_segment hmem _ _ _).bind fun _ => (Exec.Keeps.orElse _ _).bind
            fun _ => ih _ _ _ _
  refine (Exec.Keeps.ofExcept _ _).bind fun _ => ?_
  split
  · exact .pure _
  · next hlen =>
      exact (keeps_read_guest hmem _ _).bind fun _ => keeps_get_segment_bind _ fun _ _ =>
        (hloop _ _ _ _ _).bind fun _ => keeps_write_guest hmem (h hlen) _

theorem keeps_hash_digest (hq : ¬ quiet) (sdk : Sdk) (hash_identifier : U32)
    (ctx : GuestPointer) {digest : GuestPointer} (h : MayWrite cpu₀ I digest) :
    Exec.Keeps quiet (Steady cpu₀ I reserved)
      (handle_hash_digest sdk hash_identifier ctx digest : Ecall M Unit) :=
  (Exec.Keeps.ofExcept _ _).bind fun _ => (keeps_read_guest hmem _ _).bind fun _ =>
    (Exec.Keeps.orElse _ _).bind fun _ => (Exec.Keeps.ofExcept _ _).bind fun _ =>
      (Exec.Keeps.assert fun hp => absurd hp hq).bind fun _ => keeps_write_guest hmem h _

omit hmem [PagedMemory M] in
theorem keeps_reject_curve (curve : U32) :
    Exec.Keeps quiet (Steady cpu₀ I reserved) (reject_curve curve : Ecall M Unit) :=
  .reject _ _

theorem keeps_derive_hd_node (sdk : Sdk) (curve : U32) (path : GuestPointer) (path_len : ℕ)
    {private_key chain_code : GuestPointer} (h : MayWrite cpu₀ I private_key)
    (h' : MayWrite cpu₀ I chain_code) :
    Exec.Keeps quiet (Steady cpu₀ I reserved)
      (handle_derive_hd_node sdk curve path path_len private_key chain_code : Ecall M Unit) := by
  have hpath : Exec.Keeps quiet (Steady cpu₀ I reserved) (read_path path path_len : Ecall M Bytes) := by
    rw [read_path]
    split
    · exact keeps_read_guest hmem _ _
    · exact .pure _
  exact (keeps_reject_curve _).bind fun _ => (Exec.Keeps.reject _ _).bind fun _ =>
    hpath.bind fun _ => (keeps_write_guest hmem h _).bind fun _ => keeps_write_guest hmem h' _

omit hmem [PagedMemory M] in
theorem keeps_get_master_fingerprint (sdk : Sdk) (curve : U32) :
    Exec.Keeps quiet (Steady cpu₀ I reserved) (handle_get_master_fingerprint sdk curve : Ecall M U32) :=
  (keeps_reject_curve _).bind fun _ => (Exec.Keeps.orElse _ _).bind fun _ =>
    (Exec.Keeps.reject _ _).bind fun _ => .pure _

omit hmem [PagedMemory M] in
theorem keeps_unwrap_ok (hq : ¬ quiet) {m : Ecall M α}
    (h : Exec.Keeps quiet (Steady cpu₀ I reserved) m) :
    Exec.Keeps quiet (Steady cpu₀ I reserved) (unwrap_ok m) := by
  refine fun s hs => ⟨fun a s' hrun => ?_, fun _ _ _ hp => absurd hp hq⟩
  rw [unwrap_ok] at hrun
  split at hrun
  · cases hrun
  · exact (h hs).ok hrun

theorem keeps_derive_slip21_node (hq : ¬ quiet) (sdk : Sdk) (labels : GuestPointer) (labels_len : ℕ)
    {out : GuestPointer} (h : MayWrite cpu₀ I out) :
    Exec.Keeps quiet (Steady cpu₀ I reserved)
      (handle_derive_slip21_node sdk labels labels_len out : Ecall M U32) :=
  (Exec.Keeps.reject _ _).bind fun _ => (keeps_read_guest hmem _ _).bind fun _ =>
    (Exec.Keeps.orElse _ _).bind fun _ =>
      (keeps_unwrap_ok hq (keeps_write_guest hmem h _)).bind fun _ => .pure _

omit hmem [PagedMemory M] in
theorem keeps_point_result (failed : String) (r : EcResult) :
    Exec.Keeps quiet (Steady cpu₀ I reserved) (point_result failed r : Ecall M Bytes) := by
  cases r with
  | point W => exact .pure _
  | infinite => exact .pure _
  | error => exact .throw _

theorem keeps_ecfp_add_point (sdk : Sdk) (curve : U32) {r : GuestPointer}
    (h : MayWrite cpu₀ I r) (p q : GuestPointer) :
    Exec.Keeps quiet (Steady cpu₀ I reserved) (handle_ecfp_add_point sdk curve r p q : Ecall M U32) :=
  (keeps_reject_curve _).bind fun _ => (keeps_read_guest hmem _ _).bind fun _ =>
    (keeps_read_guest hmem _ _).bind fun _ => (keeps_point_result _ _).bind fun _ =>
      (keeps_write_guest hmem h _).bind fun _ => .pure _

theorem keeps_ecfp_scalar_mult (sdk : Sdk) (curve : U32) {r : GuestPointer}
    (h : MayWrite cpu₀ I r) (p k : GuestPointer) (k_len : ℕ) :
    Exec.Keeps quiet (Steady cpu₀ I reserved)
      (handle_ecfp_scalar_mult sdk curve r p k k_len : Ecall M U32) := by
  refine (keeps_reject_curve _).bind fun _ => (Exec.Keeps.reject _ _).bind fun _ =>
    (keeps_read_guest hmem _ _).bind fun _ => ?_
  split
  · exact (keeps_write_guest hmem h _).bind fun _ => .pure _
  · exact (keeps_read_guest hmem _ _).bind fun _ => (keeps_point_result _ _).bind fun _ =>
      (keeps_write_guest hmem h _).bind fun _ => .pure _

theorem keeps_get_random_bytes (sdk : Sdk) {buffer : GuestPointer}
    (h : MayWrite cpu₀ I buffer) (size : ℕ) :
    Exec.Keeps quiet (Steady cpu₀ I reserved) (handle_get_random_bytes sdk buffer size : Ecall M U32) := by
  rw [handle_get_random_bytes]
  split
  · exact .pure _
  · exact (Exec.Keeps.reject _ _).bind fun _ => (Exec.Keeps.reject _ _).bind fun _ =>
      keeps_get_segment_bind _ fun _ hseg => Exec.Keeps.get.bind fun _ =>
        (keeps_on_handler (.modify fun _ _ => trivial)).bind fun _ =>
          (keeps_write_segment hmem (h _ hseg) _ _).bind fun _ => .pure _

theorem keeps_ecdsa_sign (sdk : Sdk) (curve mode hash_id : U32)
    (privkey msg_hash : GuestPointer) {signature : GuestPointer}
    (h : MayWrite cpu₀ I signature) :
    Exec.Keeps quiet (Steady cpu₀ I reserved)
      (handle_ecdsa_sign sdk curve mode hash_id privkey msg_hash signature : Ecall M ℕ) :=
  (keeps_reject_curve _).bind fun _ => (Exec.Keeps.reject _ _).bind fun _ =>
    (Exec.Keeps.reject _ _).bind fun _ => (keeps_read_guest hmem _ _).bind fun _ =>
      (keeps_read_guest hmem _ _).bind fun _ => (Exec.Keeps.orElse _ _).bind fun _ =>
        (Exec.Keeps.reject _ _).bind fun _ => (keeps_write_guest hmem h _).bind fun _ => .pure _

theorem keeps_ecdsa_verify (sdk : Sdk) (curve : U32) (pubkey msg_hash signature : GuestPointer)
    (signature_len : ℕ) :
    Exec.Keeps quiet (Steady cpu₀ I reserved)
      (handle_ecdsa_verify sdk curve pubkey msg_hash signature signature_len : Ecall M U32) :=
  (keeps_reject_curve _).bind fun _ => (Exec.Keeps.reject _ _).bind fun _ =>
    (keeps_read_guest hmem _ _).bind fun _ => (keeps_read_guest hmem _ _).bind fun _ =>
      (keeps_read_guest hmem _ _).bind fun _ => .pure _

theorem keeps_schnorr_sign (sdk : Sdk) (curve mode hash_id : U32)
    (privkey msg : GuestPointer) (msg_len : ℕ) {signature : GuestPointer}
    (entropy : GuestPointer) (h : MayWrite cpu₀ I signature) :
    Exec.Keeps quiet (Steady cpu₀ I reserved)
      (handle_schnorr_sign sdk curve mode hash_id privkey msg msg_len signature entropy :
        Ecall M ℕ) := by
  have hentropy (mode : U32) :
      Exec.Keeps quiet (Steady cpu₀ I reserved) (read_entropy mode entropy : Ecall M _) := by
    rw [read_entropy]
    split
    · exact .pure _
    · exact (keeps_read_guest hmem _ _).bind fun _ => .pure _
  exact (keeps_reject_curve _).bind fun _ => (Exec.Keeps.reject _ _).bind fun _ =>
    (Exec.Keeps.reject _ _).bind fun _ => (Exec.Keeps.reject _ _).bind fun _ =>
      (keeps_read_guest hmem _ _).bind fun _ => (keeps_read_guest hmem _ _).bind fun _ =>
        (hentropy _).bind fun _ => (Exec.Keeps.orElse _ _).bind fun _ =>
          (Exec.Keeps.reject _ _).bind fun _ => (keeps_write_guest hmem h _).bind fun _ => .pure _

theorem keeps_schnorr_verify (sdk : Sdk) (curve mode hash_id : U32)
    (pubkey msg : GuestPointer) (msg_len : ℕ) (signature : GuestPointer) (signature_len : ℕ) :
    Exec.Keeps quiet (Steady cpu₀ I reserved)
      (handle_schnorr_verify sdk curve mode hash_id pubkey msg msg_len signature signature_len :
        Ecall M U32) :=
  (keeps_reject_curve _).bind fun _ => (Exec.Keeps.reject _ _).bind fun _ =>
    (Exec.Keeps.reject _ _).bind fun _ => (Exec.Keeps.reject _ _).bind fun _ =>
      (Exec.Keeps.reject _ _).bind fun _ => (keeps_read_guest hmem _ _).bind fun _ =>
        (keeps_read_guest hmem _ _).bind fun _ => (keeps_read_guest hmem _ _).bind fun _ =>
          .pure _

/-- Without a stored event nothing is written. -/
theorem get_event_keepsAt {event_data_ptr : GuestPointer} {s : CommEcallHandler × Cpu M}
    (h : s.1.ux_handler.last_event ≠ none → MayWrite cpu₀ I event_data_ptr)
    (hs : Steady cpu₀ I reserved s) :
    Exec.KeepsAt quiet (Steady cpu₀ I reserved) (handle_get_event event_data_ptr) s := by
  have hset (handler : CommEcallHandler) :
      Exec.Keeps quiet (Steady cpu₀ I reserved) (on_handler (Exec.set handler) : Ecall M Unit) :=
    keeps_on_handler (.modify (f := fun _ => handler) fun _ _ => trivial)
  refine (Exec.Keeps.get hs).bind fun t t' hget => ?_
  cases hget
  dsimp only
  cases hevent : s.1.ux_handler.last_event with
  | some event =>
      have hlast : s.1.ux_handler.get_last_event.1 = some event := hevent
      rw [hlast]
      have hptr := h (by rw [hevent]; exact Option.some_ne_none event)
      exact ((hset _).bind fun _ =>
        (keeps_write_guest hmem hptr _).bind fun _ => Exec.Keeps.pure _) hs
  | none =>
      have hlast : s.1.ux_handler.get_last_event.1 = none := hevent
      rw [hlast]
      refine ((hset _).bind fun _ => ?_) hs
      dsimp only
      split
      · exact (hset _).bind fun _ => .pure _
      · exact .hang

omit hmem [PagedMemory M] in
theorem keeps_on_ux {m : Exec CommEcallError UxHandler α}
    (h : Exec.Keeps quiet (fun _ => True) m) :
    Exec.Keeps quiet (Steady cpu₀ I reserved) (on_ux m : Ecall M α) :=
  keeps_on_handler (h.zoom (fun _ _ => trivial) fun _ _ _ _ => trivial)

omit hmem [PagedMemory M] in
theorem keeps_deserialize_full {value : Deserializer α}
    (h : Exec.Keeps quiet (fun _ => True) value) (bytes : Bytes) (failed : String) :
    Exec.Keeps quiet (Steady cpu₀ I reserved) (deserialize_full value bytes failed : Ecall M α) :=
  (Deserializer.keeps_full h).zoom (fun _ _ => trivial) fun _ _ hs _ => hs

theorem keeps_show_page (hq : ¬ quiet) (sdk : Sdk) (page_ptr : GuestPointer) (page_len : ℕ) :
    Exec.Keeps quiet (Steady cpu₀ I reserved) (handle_show_page sdk page_ptr page_len : Ecall M U32) :=
  (Exec.Keeps.reject _ _).bind fun _ => (keeps_read_guest hmem _ _).bind fun _ =>
    (keeps_deserialize_full (fun _ _ => Deserializer.page_keepsAt fun hp => absurd hp hq) _ _).bind fun _ =>
      (keeps_on_ux (UxHandler.keeps_show_page _ _)).bind fun _ => .pure _

theorem keeps_show_step (sdk : Sdk) (step_ptr : GuestPointer) (step_len : ℕ) :
    Exec.Keeps quiet (Steady cpu₀ I reserved) (handle_show_step sdk step_ptr step_len : Ecall M U32) :=
  (Exec.Keeps.reject _ _).bind fun _ => (keeps_read_guest hmem _ _).bind fun _ =>
    (keeps_deserialize_full Deserializer.keeps_step _ _).bind fun _ =>
      (keeps_on_ux (UxHandler.keeps_show_step _ _)).bind fun _ => .pure _

omit hmem [PagedMemory M] in
theorem keeps_get_device_property (sdk : Sdk) (property : U32) :
    Exec.Keeps quiet (Steady cpu₀ I reserved) (handle_get_device_property sdk property : Ecall M U32) := by
  rw [handle_get_device_property]
  split
  · exact .pure _
  · exact .pure _
  · exact .pure _
  · exact .throw _

end

/-! ## The dispatcher -/

/-- The pointers an ECALL writes through. An empty update and no random bytes
are no writes; neither are a slot that does not exist and an event that did not
happen. -/
def outputs (h : CommEcallHandler) (a : RegNum → U32) (ecall_code : ℕ) : List GuestPointer :=
  match ecall_code with
  | ECALL_XRECV | ECALL_MODM | ECALL_ADDM | ECALL_SUBM | ECALL_MULTM | ECALL_POWM
  | ECALL_MODINV_PRIME => [a A0]
  | ECALL_GET_EVENT => if h.ux_handler.last_event.isSome then [a A0] else []
  | ECALL_GET_RANDOM_BYTES => if (a A1).toNat = 0 then [] else [a A0]
  | ECALL_STORAGE_READ =>
      if (a A2).toNat = STORAGE_SLOT_SIZE ∧ a A0 < h.n_storage_slots ∧ a A0 < MAX_STORAGE_SLOTS
      then [a A1] else []
  | ECALL_HASH_INIT | ECALL_ECFP_ADD_POINT | ECALL_ECFP_SCALAR_MULT => [a A1]
  | ECALL_HASH_UPDATE => if (a A3).toNat = 0 then [] else [a A1]
  | ECALL_HASH_DIGEST | ECALL_DERIVE_SLIP21_KEY => [a A2]
  | ECALL_DERIVE_HD_NODE => [a A3, a A4]
  | ECALL_ECDSA_SIGN => [a A5]
  | ECALL_SCHNORR_SIGN => [a A6]
  | _ => []

omit [PagedMemory M] in
theorem keeps_set_A0 (value : U32) :
    Exec.Keeps quiet (Steady cpu₀ I reserved) (set_A0 value : Ecall M Unit) :=
  .modify fun _ h => ⟨Cpu.Kept.of_segments h.1 fun _ => Cpu.set_reg_segment .., h.2⟩

omit [PagedMemory M] in
theorem keeps_ret {m : Ecall M U32} (h : Exec.Keeps quiet (Steady cpu₀ I reserved) m) :
    Exec.Keeps quiet (Steady cpu₀ I reserved) (ret m) :=
  h.bind fun _ => keeps_set_A0 _

omit [PagedMemory M] in
theorem keeps_ret_one {m : Ecall M Unit} (h : Exec.Keeps quiet (Steady cpu₀ I reserved) m) :
    Exec.Keeps quiet (Steady cpu₀ I reserved) (ret_one m) :=
  h.bind fun _ => keeps_set_A0 _

omit [PagedMemory M] in
theorem keeps_ret_len {m : Ecall M ℕ} (h : Exec.Keeps quiet (Steady cpu₀ I reserved) m) :
    Exec.Keeps quiet (Steady cpu₀ I reserved) (ret_len m) :=
  h.bind fun _ => keeps_set_A0 _

/-- The ECALLs in which a value of the V-App can make the VM panic. -/
def unguarded : List ℕ := [ECALL_HASH_DIGEST, ECALL_DERIVE_SLIP21_KEY, ECALL_SHOW_PAGE]

/-- An ECALL whose output pointers may be written keeps everything, and does
not panic if it is one that checks what it is given. -/
theorem handle_code_steady (hmem : Cpu.MemoryKept quiet I) {sdk : Sdk} {a : RegNum → U32}
    {ecall_code : ℕ} {s : CommEcallHandler × Cpu M} (hq : quiet → ecall_code ∉ unguarded)
    (h : ∀ p ∈ outputs s.1 a ecall_code, MayWrite cpu₀ I p) (hs : Steady cpu₀ I reserved s) :
    Exec.KeepsAt quiet (Steady cpu₀ I reserved) (handle_code sdk a ecall_code) s := by
  unfold handle_code
  split
  · exact Exec.Keeps.throw _ hs
  · exact ((keeps_map_err _ (keeps_send_buffer hmem _ _ _)).bind fun _ => Exec.Keeps.throw _) hs
  · exact keeps_map_err _ (keeps_send_buffer hmem _ _ _) hs
  · exact keeps_ret_len (keeps_map_err _ (keeps_xrecv hmem (h _ (.head _)) _)) hs
  · exact keeps_ret_one (keeps_map_err _ (keeps_send_buffer hmem _ _ _)) hs
  · -- get_event
    have hkept : Exec.KeepsAt quiet (Steady cpu₀ I reserved) (handle_get_event (a A0)) s :=
      get_event_keepsAt hmem (fun hne => h _ (by
        simp [outputs, Option.isSome_iff_ne_none.mpr hne])) hs
    exact hkept.bind fun _ _ hrun => keeps_set_A0 _ (hkept.ok hrun)
  · -- storage_read
    have hkept : Exec.KeepsAt quiet (Steady cpu₀ I reserved)
        (handle_storage_read (a A0) (a A1) (a A2).toNat) s :=
      storage_read_keepsAt hmem (fun hslot => h _ (by
        simp only [outputs, if_pos hslot, List.mem_singleton])) hs
    exact hkept.bind fun _ _ hrun => keeps_set_A0 _ (hkept.ok hrun)
  · exact keeps_ret (keeps_storage_write hmem _ _ _) hs
  · exact keeps_ret_one ((keeps_show_page hmem (fun hp => hq hp (by decide)) _ _ _).bind
      fun _ => .pure _) hs
  · exact keeps_ret_one (keeps_map_err _ ((keeps_show_step hmem _ _ _).bind fun _ => .pure _)) hs
  · exact keeps_ret (keeps_map_err _ (keeps_get_device_property _ _)) hs
  · exact keeps_ret_one (keeps_bn_modm hmem _ (h _ (.head _)) _ _ _ _) hs
  · exact keeps_ret_one (keeps_bn_binary hmem _ _ (h _ (.head _)) _ _ _ _) hs
  · exact keeps_ret_one (keeps_map_err _ (keeps_bn_binary hmem _ _ (h _ (.head _)) _ _ _ _)) hs
  · exact keeps_ret_one (keeps_bn_binary hmem _ _ (h _ (.head _)) _ _ _ _) hs
  · exact keeps_ret_one (keeps_bn_modinv_prime hmem _ (h _ (.head _)) _ _ _) hs
  · exact keeps_ret_one (keeps_bn_powm hmem _ (h _ (.head _)) _ _ _ _ _) hs
  · exact keeps_map_err _ (keeps_hash_init hmem _ _ (h _ (.head _))) hs
  · refine keeps_map_err _ (keeps_hash_update hmem _ _ _ fun hlen => h _ ?_) hs
    simp only [outputs, if_neg hlen, List.mem_singleton]
  · exact keeps_map_err _ (keeps_hash_digest hmem (fun hp => hq hp (by decide)) _ _ _
      (h _ (.head _))) hs
  · exact keeps_ret_one (keeps_derive_hd_node hmem _ _ _ _ (h _ (.head _))
      (h _ (.tail _ (.head _)))) hs
  · exact keeps_ret (keeps_get_master_fingerprint _ _) hs
  · exact keeps_ret (keeps_derive_slip21_node hmem (fun hp => hq hp (by decide)) _ _ _
      (h _ (.head _))) hs
  · exact keeps_ret (keeps_ecfp_add_point hmem _ _ (h _ (.head _)) _ _) hs
  · exact keeps_ret (keeps_ecfp_scalar_mult hmem _ _ (h _ (.head _)) _ _ _) hs
  · -- get_random_bytes
    rcases Nat.eq_zero_or_pos (a A1).toNat with hsize | hsize
    · rw [handle_get_random_bytes, if_pos hsize]
      exact keeps_ret (.pure _) hs
    · refine keeps_ret (keeps_get_random_bytes hmem _ (h _ ?_) _) hs
      simp only [outputs, if_neg (Nat.ne_of_gt hsize), List.mem_singleton]
  · exact keeps_ret_len (keeps_ecdsa_sign hmem _ _ _ _ _ _ (h _ (.head _))) hs
  · exact keeps_ret (keeps_ecdsa_verify hmem _ _ _ _ _ _) hs
  · exact keeps_ret_len (keeps_schnorr_sign hmem _ _ _ _ _ _ _ _ (h _ (.head _))) hs
  · exact keeps_ret (keeps_schnorr_verify hmem _ _ _ _ _ _ _ _ _) hs
  · exact Exec.Keeps.throw _ hs

theorem handle_code_keepsAt (hmem : Cpu.MemoryKept quiet I) {sdk : Sdk} {a : RegNum → U32}
    {ecall_code : ℕ} {s : CommEcallHandler × Cpu M} (hq : quiet → ecall_code ∉ unguarded)
    (h : ∀ p ∈ outputs s.1 a ecall_code, MayWrite cpu₀ I p) (hs : Spared cpu₀ I s) :
    Exec.KeepsAt quiet (Spared cpu₀ I) (handle_code sdk a ecall_code) s := by
  have hsteady : Exec.KeepsAt quiet (Steady cpu₀ I s.2.reservation_addr)
      (handle_code sdk a ecall_code) s := handle_code_steady hmem hq h ⟨hs, rfl⟩
  exact ⟨fun _ _ hrun => (hsteady.ok hrun).1, hsteady.stop⟩

/-- No ECALL takes part in the tracking of the reservation. -/
theorem handle_code_reservation {sdk : Sdk} {a : RegNum → U32} {ecall_code : ℕ}
    {s s' : CommEcallHandler × Cpu M} (h : handle_code sdk a ecall_code s = .ok () s') :
    s'.2.reservation_addr = s.2.reservation_addr :=
  ((handle_code_steady .bounds False.elim (fun _ _ _ _ _ _ _ _ => trivial)
    ⟨fun _ => ⟨rfl, rfl, trivial⟩, rfl⟩).ok h).2

end CommEcallHandler

end Vanadium
