import Vanadium.Proofs.PageService
import Vanadium.Proofs.Segments

/-!
# Three views of a section

The manifest counts the pages of a section, the client cuts the section's data
into pages, and the device computes a page and an offset for every address. The
three agree on every section that leaves out the last page of the address
space; the client does not survive one that does not, since the address of the
page after it is not one of 32 bits.
-/

namespace Vanadium

open Lib Lib.Exec Dialogue
open Client (VAppEngine)
open Client.VAppEngine (Serves)

/-- The client that keeps `seg` as its section `kind`; the tags it may have for the
code are those of its pages, as preloading leaves them. -/
structure Honest (dev : Device) (kind : SectionKind) (vapp_hash : HashOutput 32)
    (seg : Client.MemorySegment) (e : VAppEngine) : Prop where
  segment : e.segment kind = seg
  tags : kind = .code → ∀ code_hmacs, e.code_hmacs = some code_hmacs →
    code_hmacs.length = seg.content.data.length ∧
      ∀ i (hi : i < code_hmacs.length), dev.compute_code_page_hmac
        (dev.get_vapp_auth_key vapp_hash) vapp_hash (BitVec.ofNat 32 i)
        (leafOf dev.sha256 seg.content.data i) = some code_hmacs[i]

/-- The next exchange is accepted, whichever it is: a request for any of the `n`
pages, or, if they are more than one, a commit of any page in the cache. -/
structure Accepts {E : Type} (dev : Device) (n : ℕ) (m : OutsourcedMemory E) (e : VAppEngine) :
    Prop where
  get_page : ∀ i : U32, i.toNat < n → ∃ dialogue page page_hash m',
    Talks (OutsourcedMemory.load_page dev i) m (asked dialogue) (page, page_hash) m' ∧
      Serves dev.sha256 e dialogue e
  commit_page : 2 ≤ n → m.section_kind ≠ .code → ∀ (s : ℕ) (c : CachedPage),
    m.cached_pages[s]? = some c → c.valid = true → ∃ dialogue m' e',
      Talks (OutsourcedMemory.commit_page_at dev s) m (asked dialogue) () m' ∧
        Serves dev.sha256 e dialogue e'

/-- The client's segment is the section from `start` to `end_` with the content
`data`, in the manifest's eyes and in the device's. -/
structure LinesUp (dev : Device) (start end_ : U32) (data : Bytes) (seg : Client.MemorySegment) :
    Prop where
  /-- The pages of the data are those the manifest counts. -/
  n_pages : (Client.MemorySegment.pages start end_ data data.length start).map List.length =
    some (Manifest.n_pages start end_).toNat
  /-- With the padding they are those the device's proofs are for. -/
  n_pages_adjusted : seg.content.data.length =
    OutsourcedMemory.n_pages_adjusted (Manifest.n_pages start end_).toNat
  /-- The page and the offset the device computes lead to the byte of the address. -/
  byte : ∀ (M : Type) (vm : MemorySegment M), vm.start_address = start →
    vm.size = end_ - start → ∀ a, vm.contains a = true →
      (vm.page_index a).toNat < (Manifest.n_pages start end_).toNat ∧
        ∃ page, seg.content.data[(vm.page_index a).toNat]? = some page ∧
          page.getD (13 + vm.offset a) 0 = data.getD (a.toNat - start.toNat) 0
  /-- Along every run with the honest client, every exchange is accepted. -/
  accepted : ∀ (E : Type) [PageEvictionStrategy E] (comm : Comm) (max_pages_in_cache : ℕ)
    (kind : SectionKind) (aes_ctr : AesCtr) (eviction_strategy : E) (vapp_hash : HashOutput 32)
    (e : VAppEngine) (accesses : List Access), (∀ b, (aes_ctr.key.encrypt_block b).isSome) →
    Honest dev kind vapp_hash seg e →
    (∀ a ∈ accesses, a.page_index.toNat < (Manifest.n_pages start end_).toNat) →
    OutsourcedMemory.Together dev (OutsourcedMemory.run dev accesses)
      (OutsourcedMemory.new comm max_pages_in_cache (kind == .code) kind
        (Manifest.n_pages start end_) seg.get_content_root aes_ctr eviction_strategy vapp_hash) e
      fun _ m' e' => Accepts dev (Manifest.n_pages start end_).toNat m' e'

namespace OutsourcedMemory

variable {E : Type} {dev : Device} {m : OutsourcedMemory E} {e : VAppEngine} {d n : ℕ}

theorem InSync.accepts (h : InSync dev n d m e) : Accepts dev n m e where
  get_page i hi := by
    have hle : n ≤ 2 ^ d := by
      rw [← h.adjusted]
      exact le_checked_next_power_of_two n
    obtain ⟨dialogue, page, hasher, htalks, hserves⟩ := h.load_page (i := i) (by omega)
    exact ⟨dialogue, page, _, _, htalks, hserves⟩
  commit_page htwo hkind s c hc hv := by
    have hd : 0 < d := by
      refine Nat.pos_of_ne_zero ?_
      rintro rfl
      have hle := le_checked_next_power_of_two n
      have hone : checked_next_power_of_two n = 2 ^ 0 := h.adjusted
      omega
    obtain ⟨dialogue, m', e', htalks, hserves, -⟩ := h.commit_page_at hd hkind hc hv
    exact ⟨dialogue, m', e', htalks, hserves⟩

/-- At the start nothing is cached, and the device has the client's root. -/
theorem InSync.new {seg : Client.MemorySegment} {comm : Comm} {max_pages_in_cache : ℕ}
    {kind : SectionKind} {n_pages : U32} {aes_ctr : AesCtr} {eviction_strategy : E}
    {vapp_hash : HashOutput 32} (haes : ∀ b, (aes_ctr.key.encrypt_block b).isSome)
    (hb : Built dev.sha256 seg.content)
    (hsize : seg.content.data.length = n_pages_adjusted n_pages.toNat)
    (hrecord : ∀ x ∈ seg.content.data, ∃ page : Page,
      x = Client.get_serialized_page page.toList none)
    (h : Honest dev kind vapp_hash seg e) :
    InSync dev n_pages.toNat (Nat.clog 2 n_pages.toNat)
      (OutsourcedMemory.new comm max_pages_in_cache (kind == .code) kind n_pages
        seg.get_content_root aes_ctr eviction_strategy vapp_hash) e := by
  have hslot : ∀ (j : ℕ) (c : CachedPage), (List.replicate max_pages_in_cache
      CachedPage.default)[j]? = some c → c.valid = false := by
    intro j c hj
    rw [List.getElem?_replicate] at hj
    split at hj
    · cases hj; rfl
    · cases hj
  exact {
    n_pages := rfl
    adjusted := rfl
    aes := haes
    built := by
      show Built _ (e.segment kind).content
      rw [h.segment]
      exact hb
    size := by
      show (e.segment kind).content.data.length = _
      rw [h.segment, hsize]
      rfl
    root := by
      show _ = (e.segment kind).get_content_root
      rw [h.segment]
      rfl
    record := by
      show ∀ x ∈ (e.segment kind).content.data, _
      rw [h.segment]
      intro x hx
      obtain ⟨page, hpage⟩ := hrecord x hx
      exact ⟨(none, page), hpage, fun _ => rfl⟩
    slot := fun j c hj hv => by
      rw [hslot j c hj] at hv
      cases hv
    unique := fun j j' c c' hj _ hv => by
      rw [hslot j c hj] at hv
      cases hv
    readonly := fun hc => by
      obtain rfl : kind = .code := hc
      rfl
    tags := fun hc code_hmacs htable i hi => by
      obtain ⟨hlen, htags⟩ := h.tags hc code_hmacs htable
      have hi' : i.toNat < code_hmacs.length := by
        rw [hlen, hsize]
        exact hi
      refine ⟨code_hmacs[i.toNat], List.getElem?_eq_getElem hi', ?_⟩
      have := htags i.toNat hi'
      rw [BitVec.ofNat_toNat, BitVec.setWidth_eq] at this
      show dev.compute_code_page_hmac _ _ _ (leafOf _ (e.segment kind).content.data _) = _
      rw [h.segment]
      exact this }

end OutsourcedMemory

/-! ## The section -/

section
variable {dev : Device} {start end_ : U32} {data : Bytes}

theorem section_end (hend : end_.toNat = start.toNat + data.length) :
    start + BitVec.ofNat 32 data.length = end_ := by
  refine BitVec.eq_of_toNat_eq ?_
  have := end_.isLt
  rw [BitVec.toNat_add, BitVec.toNat_ofNat]
  omega

theorem LinesUp.new (hend : end_.toNat = start.toNat + data.length) (hne : data ≠ [])
    {seg : Client.MemorySegment}
    (h : Client.MemorySegment.new dev.sha256 start data = some seg) :
    LinesUp dev start end_ data seg := by
  obtain rfl := section_end hend
  have hpos := List.length_pos_of_ne_nil hne
  have hend' := (start + BitVec.ofNat 32 data.length).isLt
  have hlt : start < start + BitVec.ofNat 32 data.length := by
    rw [BitVec.lt_def, hend]
    omega
  obtain ⟨hb, hsize⟩ := Client.MemorySegment.new_ok h (by omega) hlt
  have hcount := Manifest.n_pages_toNat hlt
  refine ⟨?_, hsize, ?_, ?_⟩
  · obtain ⟨ps, hps, -⟩ := Client.MemorySegment.new_cases h
    have hlen := Client.MemorySegment.pages_length hend (Nat.le_refl _) hps
    rw [if_pos (by omega), ← hcount] at hlen
    rw [hps, Option.map_some, hlen]
  · intro M vm hvm hvmsize a ha
    obtain ⟨hlo, hhi⟩ := MemorySegment.contains_iff.mp ha
    have hidx := MemorySegment.page_index_toNat hlo
    have hoff := MemorySegment.offset_eq hlo
    rw [hvm] at hlo hidx hoff
    rw [hvm, hvmsize, BitVec.add_comm start, BitVec.sub_add_cancel, hend] at hhi
    obtain ⟨page, hpage, hbyte⟩ := Client.MemorySegment.new_getD h hend hlo hhi
    have hidx' : (vm.page_index a).toNat = a.toNat / 256 - start.toNat / 256 := by omega
    have hoff' : vm.offset a = a.toNat % 256 := by omega
    refine ⟨by omega, _, hidx' ▸ hpage, ?_⟩
    rw [hoff', Client.get_serialized_page, getD_append (by rw [List.length_replicate]), hbyte]
  · intro E _ comm max_pages_in_cache kind aes_ctr eviction_strategy vapp_hash e accesses haes
      hhonest hrange
    have hsync : OutsourcedMemory.InSync dev
        (Manifest.n_pages start (start + BitVec.ofNat 32 data.length)).toNat _
        (OutsourcedMemory.new comm max_pages_in_cache (kind == .code) kind
          (Manifest.n_pages start (start + BitVec.ofNat 32 data.length)) seg.get_content_root
          aes_ctr eviction_strategy vapp_hash) e :=
      .new haes hb hsize (Client.MemorySegment.new_record h hend) hhonest
    refine (hsync.run fun a ha => ?_).mono fun _ m' e' h' => h'.accepts
    exact Nat.lt_of_lt_of_le (hrange a ha) (le_checked_next_power_of_two _)

/-- The manifest counts at least a page, also for an empty section. -/
theorem Manifest.n_pages_pos (start end_ : U32) : 0 < (Manifest.n_pages start end_).toNat := by
  have hlt := (page_start (end_ - 1) - page_start start).isLt
  have hpage : (BitVec.ofNat 32 PAGE_SIZE).toNat = 256 := rfl
  have hone : (1 : U32).toNat = 1 := rfl
  rw [Manifest.n_pages, BitVec.toNat_add, BitVec.toNat_udiv, hpage, hone]
  omega

/-- The client has no page for an empty section. -/
theorem LinesUp.nonempty {seg : Client.MemorySegment} (h : LinesUp dev start end_ data seg) :
    data ≠ [] := by
  rintro rfl
  have hcount := h.n_pages
  have hpos := Manifest.n_pages_pos start end_
  rw [List.length_nil, Client.MemorySegment.pages] at hcount
  split at hcount
  · rw [Option.map_some, List.length_nil] at hcount
    have := Option.some.inj hcount
    omega
  · cases hcount

/-- The three views agree on a section exactly if it has a byte and ends before the
last page of the address space. -/
theorem section_lines_up_iff (hend : end_.toNat = start.toNat + data.length) :
    (∃ seg, Client.MemorySegment.new dev.sha256 start data = some seg ∧
      LinesUp dev start end_ data seg) ↔ start < end_ ∧ end_.toNat ≤ 2 ^ 32 - PAGE_SIZE := by
  have hlt : start < end_ ↔ data ≠ [] := by
    rw [BitVec.lt_def, hend, ← List.length_pos_iff]
    omega
  have hend' : (start + BitVec.ofNat 32 data.length).toNat = start.toNat + data.length := by
    rw [section_end hend, hend]
  rw [hlt, hend]
  constructor
  · rintro ⟨seg, h, hlines⟩
    have hne := hlines.nonempty
    exact ⟨hne, (Client.MemorySegment.new_isSome_iff hend' hne).mp ⟨seg, h⟩⟩
  · rintro ⟨hne, hlast⟩
    obtain ⟨seg, h⟩ := (Client.MemorySegment.new_isSome_iff hend' hne).mpr hlast
    exact ⟨seg, h, .new hend hne h⟩

namespace LastPage

def device : Device where
  sha256 _ := Vector.replicate 32 0
  hmac_sha256 _ _ := none
  auth_key := Vector.replicate 32 0

/-- Half a page of stack at the end of the address space. -/
def manifest : Manifest where
  manifest_version := 1
  vapp_name := "a"
  vapp_version := "1"
  entrypoint := 0
  code_start := 0
  code_end := 0x100
  code_merkle_root := Vector.replicate 32 0
  data_start := 0x1000
  data_end := 0x1100
  data_merkle_root := Vector.replicate 32 0
  stack_start := 0xffffff00
  stack_end := 0xffffff80
  stack_merkle_root := Vector.replicate 32 0
  n_storage_slots := 0

end LastPage

/-- Two bytes of a section that starts in the middle of a page. -/
theorem section_lines_up_iff_two_bytes : ∃ seg,
    Client.MemorySegment.new LastPage.device.sha256 0x10080 [0x82, 0x80] = some seg ∧
      LinesUp LastPage.device 0x10080 0x10082 [0x82, 0x80] seg :=
  (section_lines_up_iff (by decide)).mpr ⟨by decide, by decide⟩

/-- The manifest is accepted and counts one page for the stack, the device has a
segment for it, and the client panics. -/
theorem section_in_last_page_panics :
    LastPage.manifest.validate = .ok () ∧
      LastPage.manifest.n_stack_pages = 1 ∧
      (MemorySegment.new LastPage.manifest.stack_start
        (LastPage.manifest.stack_end - LastPage.manifest.stack_start) ()).isOk = true ∧
      Client.MemorySegment.new LastPage.device.sha256 LastPage.manifest.stack_start
        (List.replicate (LastPage.manifest.stack_end - LastPage.manifest.stack_start).toNat 0) =
          none := by
  refine ⟨?_, by decide, by decide, ?_⟩
  · decide +kernel
  · decide +kernel

end

end Vanadium
