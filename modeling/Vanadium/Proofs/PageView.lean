import Vanadium.Proofs.FailedLookup

/-!
# What a memory shows

The contents of a memory, and of a segment over it, as far as they can be told
from outside: what lookups hand out, as long as the memory can be trusted. A
lookup changes none of it, whether it returns or fails, and a page that is
written through a reference changes in that one place.
-/

namespace Vanadium

open Lib

/-- What a memory stands for, as far as one can tell from outside: `Shows m n cur`
says that lookups below `n` hand out the pages `cur` as long as the memory can
be trusted. No lookup changes that. -/
class PageView (M : Type) [PagedMemory M] where
  Trusted : M → Prop
  Shows : M → ℕ → (U32 → Page) → Prop
  get_page {m m' : M} {n : ℕ} {cur : U32 → Page} {i : U32} {r : PagedMemory.PageRef M} :
    Shows m n cur → i.toNat < n → PagedMemory.get_page i m = .ok r m' →
      Shows m' n cur ∧ (Trusted m' → PagedMemory.deref m' r = cur i)
  get_page_fails {m m' : M} {n : ℕ} {cur : U32 → Page} {i : U32} :
    Shows m n cur → Exec.Fails (PagedMemory.get_page i) m m' → Shows m' n cur
  trusted {m m' : M} {i : U32} {r : PagedMemory.PageRef M} :
    PagedMemory.get_page i m = .ok r m' → Trusted m' → Trusted m
  /-- The last lookup returned, and what is written is not forgotten. -/
  Live : M → Prop
  live {m m' : M} {i : U32} {r : PagedMemory.PageRef M} :
    Live m → PagedMemory.get_page i m = .ok r m' →
      Live m' ∧ ∀ page, Live (PagedMemory.deref_mut m' r page) ∧
        (Trusted (PagedMemory.deref_mut m' r page) → Trusted m')
  deref_mut {m m' : M} {n : ℕ} {cur : U32 → Page} {i : U32} {r : PagedMemory.PageRef M} :
    Shows m n cur → Live m → i.toNat < n → PagedMemory.get_page i m = .ok r m' →
      ∀ f : Page → Page, Shows (PagedMemory.deref_mut m' r (f (PagedMemory.deref m' r))) n
        (Function.update cur i (f (cur i)))

theorem VecMemory.get_page_cases {m m' : VecMemory} {i : U32} :
    (∀ r, PagedMemory.get_page i m = .ok r m' → r = i.toNat ∧ m' = m) ∧
      (Exec.Fails (PagedMemory.get_page i) m m' → m' = m) := by
  have hget : PagedMemory.get_page i m = if i.toNat < m.pages.length then
      Outcome.ok i.toNat m else .err MemoryError.pageNotFound m := rfl
  constructor
  · intro r h
    rw [hget] at h
    split at h
    · cases h; exact ⟨rfl, rfl⟩
    · cases h
  · rintro (⟨e, h⟩ | h) <;> rw [hget] at h <;> split at h <;> cases h
    rfl

instance : PageView VecMemory where
  Trusted _ := True
  Shows m n cur := LawfulPagedMemory.Holds m n cur
  get_page {m m' n cur i r} h hi hget := by
    obtain ⟨r', m₁, hget', hpage, hm, -⟩ := LawfulPagedMemory.get_page h hi
    cases hget'.symm.trans hget
    exact ⟨hm, fun _ => hpage⟩
  get_page_fails h hget := by
    rw [VecMemory.get_page_cases.2 hget]
    exact h
  trusted _ _ := trivial
  Live _ := True
  live _ _ := ⟨trivial, fun _ => ⟨trivial, fun _ => trivial⟩⟩
  deref_mut {m m' n cur i r} h _ hi hget f := by
    obtain ⟨r', m₁, hget', hpage, -, hwrite⟩ := LawfulPagedMemory.get_page h hi
    cases hget'.symm.trans hget
    rw [hpage]
    exact ((hwrite trivial).2 _).2

/-- The memory of the VM is trusted while no two of the messages it hashed
collide. -/
@[reducible] def OutsourcedMemory.pageView {E : Type} [PageEvictionStrategy E] (dev : Device)
    {S : Set Bytes} (hS : CollisionFree dev.sha256 S) (key : AesKey) :
    @PageView (OutsourcedMemory E) (OutsourcedMemory.pagedMemory dev) :=
  let _ := OutsourcedMemory.pagedMemory (E := E) dev
  { Trusted := fun m => ∀ x ∈ m.hasher.digested, x ∈ S
    Shows := fun m n cur => OutsourcedMemory.Shows dev S key n cur m
    get_page := fun h hi hget => h.get_page hS hi hget
    get_page_fails := fun h hget => h.get_page_fails hS hget
    trusted := fun hget h x hx => h x (OutsourcedMemory.get_page_digested hget hx)
    Live := fun m => OutsourcedMemory.LastValid m ∧ m.is_readonly = false
    live := fun h hget => by
      obtain ⟨hl, hro, c, hc, -⟩ := h.1.get_page hget
      exact ⟨⟨hl, hro.trans h.2⟩, fun page => ⟨⟨hl.deref_mut hc page, hro.trans h.2⟩, id⟩⟩
    deref_mut := fun h hlive hi hget f => h.deref_mut hS hlive.1 hlive.2 hi hget f }

variable {M : Type} [PagedMemory M] [PageView M]

namespace MemorySegment

variable {seg seg' seg₁ : MemorySegment M} {mem : U32 → U8} {a w : U32}

/-- The segment shows the bytes `mem` at its addresses. -/
def Shows (seg : MemorySegment M) (mem : U32 → U8) : Prop :=
  ∃ n cur, PageView.Shows seg.paged_memory n cur ∧
    ∀ a, seg.contains a = true → (seg.page_index a).toNat < n ∧
      mem a = (cur (seg.page_index a)).toList.getD (seg.offset a) 0

/-- The same addresses, and every content that `seg` shows. -/
structure Same (seg seg' : MemorySegment M) : Prop where
  start : seg'.start_address = seg.start_address
  size : seg'.size = seg.size
  shows : ∀ mem, seg.Shows mem → seg'.Shows mem

theorem Same.refl (seg : MemorySegment M) : Same seg seg := ⟨rfl, rfl, fun _ h => h⟩

theorem Same.trans (h : Same seg seg₁) (h' : Same seg₁ seg') : Same seg seg' :=
  ⟨h'.start.trans h.start, h'.size.trans h.size, fun mem hm => h'.shows mem (h.shows mem hm)⟩

theorem Same.contains (h : Same seg seg') (a : U32) : seg'.contains a = seg.contains a := by
  unfold MemorySegment.contains
  rw [h.start, h.size]

/-- A lookup for an address of the segment. -/
theorem Same.lookup (hin : seg.contains a = true) {m' : M}
    (h : (∃ r, PagedMemory.get_page (seg.page_index a) seg.paged_memory = .ok r m') ∨
      Exec.Fails (PagedMemory.get_page (seg.page_index a)) seg.paged_memory m') :
    Same seg { seg with paged_memory := m' } := by
  refine ⟨rfl, rfl, fun mem ⟨n, cur, hshows, hmem⟩ => ⟨n, cur, ?_, hmem⟩⟩
  rcases h with ⟨r, hget⟩ | hget
  · exact (PageView.get_page hshows (hmem a hin).1 hget).1
  · exact PageView.get_page_fails hshows hget

theorem locate_preserves (hin : seg.contains a = true) :
    Exec.Preserves (Same seg) (locate (M := M) a w) := by
  refine fun s hs => ⟨fun r s' h => ?_, fun s' h => ?_⟩
  · obtain ⟨-, -, -, -, m', hget, rfl⟩ := locate_inv (show locate a w s = .ok (r.1, r.2) s' from h)
    exact hs.trans (.lookup ((hs.contains a).trans hin) (.inl ⟨_, hget⟩))
  · obtain ⟨s₀, s₁, hget, h⟩ := (Exec.bind_fails.mp h).resolve_left (Exec.Infallible.get _ _)
    cases hget
    rcases Exec.bind_fails.mp h with h | ⟨_, s₁, h₁, h⟩
    · rw [(Exec.reject_fails.mp h).2]
      exact hs
    obtain ⟨-, rfl⟩ := Exec.reject_ok.mp h₁
    rcases Exec.bind_fails.mp h with h | ⟨_, s₂, h₂, h⟩
    · rw [(Exec.reject_fails.mp h).2]
      exact hs
    obtain ⟨-, rfl⟩ := Exec.reject_ok.mp h₂
    rcases Exec.bind_fails.mp h with h | ⟨_, s₃, -, h⟩
    · obtain ⟨m', hget, rfl⟩ := Exec.zoom_fails.mp h
      exact hs.trans (.lookup ((hs.contains a).trans hin) (.inr hget))
    · exact absurd h (Exec.Infallible.pure _ _ _)

omit [PageView M] in
theorem read_page_preserves {I : MemorySegment M → Prop} (page : PagedMemory.PageRef M)
    (offset n : ℕ) : Exec.Preserves I (read_page page offset n) :=
  Exec.Preserves.get.bind fun _ => (Exec.Preserves.assert _).bind fun _ => .pure _

omit [PageView M] in
theorem write_page_infallible (page : PagedMemory.PageRef M) (offset : ℕ) (bytes : Bytes) :
    Exec.Infallible (write_page page offset bytes) :=
  Exec.Infallible.get.bind fun _ => (Exec.Infallible.assert _).bind fun _ => .set _

theorem read_u8_preserves (hin : seg.contains a = true) :
    Exec.Preserves (Same seg) (read_u8 (M := M) a) :=
  (locate_preserves hin).bind fun _ => (read_page_preserves _ _ _).bind fun _ => .pure _

theorem read_u16_preserves (hin : seg.contains a = true) :
    Exec.Preserves (Same seg) (read_u16 (M := M) a) :=
  (locate_preserves hin).bind fun _ => (read_page_preserves _ _ _).bind fun _ => .pure _

theorem read_u32_preserves (hin : seg.contains a = true) :
    Exec.Preserves (Same seg) (read_u32 (M := M) a) :=
  (locate_preserves hin).bind fun _ => (read_page_preserves _ _ _).bind fun _ => .pure _

/-- A store that fails has failed to find its page. -/
theorem write_u8_failsIn (hin : seg.contains a = true) (v : U8) :
    Exec.FailsIn (Same seg) (write_u8 (M := M) a v) :=
  (locate_preserves hin).failsIn.bind_last fun _ => write_page_infallible _ _ _

theorem write_u16_failsIn (hin : seg.contains a = true) (v : BitVec 16) :
    Exec.FailsIn (Same seg) (write_u16 (M := M) a v) :=
  (locate_preserves hin).failsIn.bind_last fun _ => write_page_infallible _ _ _

theorem write_u32_failsIn (hin : seg.contains a = true) (v : U32) :
    Exec.FailsIn (Same seg) (write_u32 (M := M) a v) :=
  (locate_preserves hin).failsIn.bind_last fun _ => write_page_infallible _ _ _

/-- The bytes shown are those that are read. -/
theorem Shows.read_u8 (h : seg.Shows mem) (hin : seg.contains a = true) {v : U8}
    (hread : MemorySegment.read_u8 a seg = .ok v seg')
    (htrust : PageView.Trusted seg'.paged_memory) : v = mem a := by
  obtain ⟨n, cur, hshows, hmem⟩ := h
  obtain ⟨⟨r, off⟩, seg₁, hloc, hread⟩ := Exec.bind_ok.mp hread
  obtain ⟨-, -, -, rfl, m', hget, rfl⟩ := locate_inv hloc
  obtain ⟨b, seg₂, hpage, hread⟩ := Exec.bind_ok.mp hread
  rw [read_page, Exec.get_bind] at hpage
  obtain ⟨-, hpage⟩ := Exec.assert_bind_ok.mp hpage
  cases hpage
  cases hread
  rw [(hmem a hin).2, (PageView.get_page hshows (hmem a hin).1 hget).2 htrust,
    List.getD_eq_getElem?_getD, List.getD_eq_getElem?_getD,
    List.getElem?_take_of_lt Nat.one_pos, List.getElem?_drop, Nat.add_zero]

end MemorySegment

end Vanadium
