import Vanadium.Common.Memory
import Mathlib

/-!
# A segment is an array of bytes

The accesses of a segment compute a page and an offset. Over a paged memory
that behaves as an array of pages, an aligned access inside the segment stays
in one page, and so the segment behaves as an array of bytes.
-/

namespace Vanadium

open Lib

/-- A paged memory that behaves as an array of pages. `Holds m n cur` says that
`m` stands for the pages `cur 0`, .., `cur (n - 1)`; every one of them is handed
out, and what is written through the reference is there from then on, unless
the memory is one that is not written. -/
class LawfulPagedMemory (M : Type) [PagedMemory M] where
  Holds : M → ℕ → (U32 → Page) → Prop
  Writable : M → Prop
  get_page {m : M} {n : ℕ} {cur : U32 → Page} {i : U32} :
    Holds m n cur → i.toNat < n → ∃ r m', PagedMemory.get_page i m = .ok r m' ∧
      PagedMemory.deref m' r = cur i ∧ Holds m' n cur ∧
        (Writable m → Writable m' ∧ ∀ page, Writable (PagedMemory.deref_mut m' r page) ∧
          Holds (PagedMemory.deref_mut m' r page) n (Function.update cur i page))

/-- Pages in a vector. -/
instance : LawfulPagedMemory VecMemory where
  Holds m n cur := ∀ i : U32, i.toNat < n → m.pages[i.toNat]? = some (cur i)
  Writable _ := True
  get_page {m n cur i} h hi := by
    have hm := h i hi
    obtain ⟨hlt, -⟩ := List.getElem?_eq_some_iff.mp hm
    refine ⟨i.toNat, m, if_pos hlt, ?_, h, fun _ => ⟨trivial, fun page => ⟨trivial, ?_⟩⟩⟩
    · show m.pages.getD i.toNat _ = cur i
      rw [List.getD_eq_getElem?_getD, hm, Option.getD_some]
    · intro j hj
      show (m.pages.set i.toNat page)[j.toNat]? = _
      by_cases hij : j = i
      · rw [hij, List.getElem?_set_self hlt, Function.update_self]
      · have hne : i.toNat ≠ j.toNat := fun he => hij (BitVec.eq_of_toNat_eq he.symm)
        rw [List.getElem?_set_ne hne, h j hj, Function.update_of_ne hij]

namespace MemorySegment

variable {M : Type}

theorem contains_iff {seg : MemorySegment M} {a : U32} : seg.contains a = true ↔
    seg.start_address.toNat ≤ a.toNat ∧ a.toNat < (seg.start_address + seg.size).toNat := by
  rw [contains, Bool.and_eq_true, decide_eq_true_iff, decide_eq_true_iff]
  rfl

/-- All `w` bytes from `a` on are in the segment. -/
def Spans (seg : MemorySegment M) (a : U32) (w : ℕ) : Prop :=
  ∀ k < w, seg.contains (a + BitVec.ofNat 32 k) = true

/-- An access that does not cross a page if it is aligned. -/
structure Natural (a : U32) (w : ℕ) : Prop where
  width : w = 1 ∨ w = 2 ∨ w = 4
  aligned : a.toNat % w = 0

namespace Natural

variable {a : U32} {w : ℕ}

theorem toNat_add (h : Natural a w) {k : ℕ} (hk : k < w) :
    (a + BitVec.ofNat 32 k).toNat = a.toNat + k := by
  have := a.isLt
  rw [BitVec.toNat_add, BitVec.toNat_ofNat]
  rcases h.width with rfl | rfl | rfl <;> have := h.aligned <;> omega

theorem bounds (h : Natural a w) {seg : MemorySegment M} (hs : seg.Spans a w) :
    seg.start_address.toNat ≤ a.toNat ∧
      a.toNat + w ≤ (seg.start_address + seg.size).toNat := by
  have hw : 0 < w := by rcases h.width with rfl | rfl | rfl <;> decide
  have h0 := contains_iff.mp (hs 0 hw)
  have h1 := contains_iff.mp (hs (w - 1) (by omega))
  rw [h.toNat_add (by omega)] at h0 h1
  omega

end Natural

/-- The address relative to the first page. -/
theorem relative_toNat {seg : MemorySegment M} {a : U32}
    (h : seg.start_address.toNat ≤ a.toNat) :
    (a - page_start seg.start_address).toNat =
      a.toNat - seg.start_address.toNat / 256 * 256 := by
  have := a.isLt
  rw [BitVec.toNat_sub, page_start_toNat]
  omega

theorem page_index_toNat {seg : MemorySegment M} {a : U32}
    (h : seg.start_address.toNat ≤ a.toNat) :
    (seg.page_index a).toNat = (a.toNat - seg.start_address.toNat / 256 * 256) / 256 := by
  rw [page_index, BitVec.toNat_udiv, relative_toNat h, PAGE_SIZE_toNat]

theorem offset_eq {seg : MemorySegment M} {a : U32}
    (h : seg.start_address.toNat ≤ a.toNat) :
    seg.offset a = (a.toNat - seg.start_address.toNat / 256 * 256) % 256 := by
  rw [offset, BitVec.toNat_umod, relative_toNat h, PAGE_SIZE_toNat]

/-- The bytes of an aligned access are next to each other in one page. -/
theorem Natural.same_page {seg : MemorySegment M} {a : U32} {w : ℕ} (h : Natural a w)
    (hle : seg.start_address.toNat ≤ a.toNat) {k : ℕ} (hk : k < w) :
    seg.page_index (a + BitVec.ofNat 32 k) = seg.page_index a ∧
      seg.offset (a + BitVec.ofNat 32 k) = seg.offset a + k ∧
      seg.offset a + w ≤ PAGE_SIZE := by
  have hk' : seg.start_address.toNat ≤ (a + BitVec.ofNat 32 k).toNat := by
    rw [h.toNat_add hk]
    omega
  have ha := h.aligned
  have hidx : (seg.page_index (a + BitVec.ofNat 32 k)).toNat = (seg.page_index a).toNat := by
    rw [page_index_toNat hk', page_index_toNat hle, h.toNat_add hk]
    rcases h.width with rfl | rfl | rfl <;> omega
  refine ⟨BitVec.eq_of_toNat_eq hidx, ?_, ?_⟩
  · rw [offset_eq hk', offset_eq hle, h.toNat_add hk]
    rcases h.width with rfl | rfl | rfl <;> omega
  · show seg.offset a + w ≤ 256
    rw [offset_eq hle]
    rcases h.width with rfl | rfl | rfl <;> omega

variable [PagedMemory M]

/-- What the checks of an access that was located say. -/
theorem locate_inv {seg seg' : MemorySegment M} {a w : U32} {r : PagedMemory.PageRef M} {off : ℕ}
    (h : locate a w seg = .ok (r, off) seg') :
    seg.start_address.toNat ≤ a.toNat ∧
      a.toNat ≤ (seg.start_address + seg.size - w).toNat ∧ a.toNat % w.toNat = 0 ∧
      off = seg.offset a ∧ ∃ m', PagedMemory.get_page (seg.page_index a) seg.paged_memory =
        .ok r m' ∧ seg' = { seg with paged_memory := m' } := by
  rw [locate, Exec.get_bind] at h
  obtain ⟨hbounds, h⟩ := Exec.reject_bind_ok.mp h
  obtain ⟨halign, h⟩ := Exec.reject_bind_ok.mp h
  obtain ⟨page, seg₁, hget, h⟩ := Exec.bind_ok.mp h
  cases h
  obtain ⟨m', hm', rfl⟩ := Exec.zoom_ok.mp hget
  rw [not_or] at hbounds
  exact ⟨BitVec.not_lt.mp hbounds.1, BitVec.not_lt.mp hbounds.2, not_not.mp halign, rfl, m', hm',
    rfl⟩

variable [LawfulPagedMemory M]

/-- The segment holds the bytes `mem` at its addresses. -/
def Holds (seg : MemorySegment M) (mem : U32 → U8) : Prop :=
  ∃ n cur, LawfulPagedMemory.Holds seg.paged_memory n cur ∧
    ∀ a, seg.contains a = true → (seg.page_index a).toNat < n ∧
      mem a = (cur (seg.page_index a)).toList.getD (seg.offset a) 0

def Writable (seg : MemorySegment M) : Prop :=
  LawfulPagedMemory.Writable seg.paged_memory

/-- The byte at an address, where the pages are in a vector. -/
def bytes (seg : MemorySegment VecMemory) (a : U32) : U8 :=
  (PagedMemory.deref seg.paged_memory (seg.page_index a).toNat).toList.getD (seg.offset a) 0

/-- Every address of the segment has a page. -/
def Backed (seg : MemorySegment VecMemory) : Prop :=
  ∀ a, seg.contains a = true → (seg.page_index a).toNat < seg.paged_memory.pages.length

theorem Backed.holds {seg : MemorySegment VecMemory} (h : seg.Backed) : seg.Holds seg.bytes := by
  refine ⟨seg.paged_memory.pages.length,
    fun i => PagedMemory.deref seg.paged_memory i.toNat, fun i hi => ?_, fun a ha => ⟨h a ha, rfl⟩⟩
  rw [List.getElem?_eq_getElem hi]
  exact congrArg some (List.getD_eq_getElem _ _ hi).symm

/-- It is enough that there are as many pages as the size takes. -/
theorem Backed.of_size {seg : MemorySegment VecMemory} (hstart : seg.start_address.toNat % 256 = 0)
    (h : (seg.start_address + seg.size).toNat ≤
      seg.start_address.toNat + 256 * seg.paged_memory.pages.length) : seg.Backed := by
  intro a ha
  obtain ⟨hlo, hhi⟩ := contains_iff.mp ha
  rw [page_index_toNat hlo]
  omega

variable {seg : MemorySegment M} {mem : U32 → U8} {a : U32} {w : ℕ}

/-- An access returned the value `v` and left the bytes of the segment alone. -/
def Reads {α : Type} (seg : MemorySegment M) (mem : U32 → U8)
    (access : Exec MemoryError (MemorySegment M) α) (v : α) : Prop :=
  ∃ m', access seg = .ok v { seg with paged_memory := m' } ∧
    Holds { seg with paged_memory := m' } mem ∧
      (seg.Writable → Writable { seg with paged_memory := m' })

/-- An access replaced the bytes `mem` by `mem'`. -/
def Writes (seg : MemorySegment M) (mem' : U32 → U8)
    (access : Exec MemoryError (MemorySegment M) Unit) : Prop :=
  ∃ m', access seg = .ok () { seg with paged_memory := m' } ∧
    Holds { seg with paged_memory := m' } mem' ∧ Writable { seg with paged_memory := m' }

/-- The page is found, and it is the one the bytes are in. -/
theorem locate_ok (h : seg.Holds mem) (ha : Natural a w) (hs : seg.Spans a w) :
    ∃ r m' n cur, locate a (BitVec.ofNat 32 w) seg =
        .ok (r, seg.offset a) { seg with paged_memory := m' } ∧
      PagedMemory.deref m' r = cur (seg.page_index a) ∧
      LawfulPagedMemory.Holds m' n cur ∧
      (∀ b, seg.contains b = true → (seg.page_index b).toNat < n ∧
        mem b = (cur (seg.page_index b)).toList.getD (seg.offset b) 0) ∧
      (seg.Writable → LawfulPagedMemory.Writable m' ∧ ∀ page,
        LawfulPagedMemory.Writable (PagedMemory.deref_mut m' r page) ∧
          LawfulPagedMemory.Holds (PagedMemory.deref_mut m' r page) n
            (Function.update cur (seg.page_index a) page)) := by
  obtain ⟨n, cur, hm, hmem⟩ := h
  have hw : 0 < w := by rcases ha.width with rfl | rfl | rfl <;> decide
  have hw4 : (BitVec.ofNat 32 w).toNat = w := by
    rcases ha.width with rfl | rfl | rfl <;> rfl
  have hin : seg.contains a = true := by simpa using hs 0 hw
  obtain ⟨r, m', hget, hpage, hm', hwrite⟩ :=
    LawfulPagedMemory.get_page hm (hmem a hin).1
  refine ⟨r, m', n, cur, ?_, hpage, hm', hmem, hwrite⟩
  obtain ⟨hlo, hhi⟩ := ha.bounds hs
  have hbounds : ¬ (a < seg.start_address ∨
      a > seg.start_address + seg.size - BitVec.ofNat 32 w) := by
    have hsub : (seg.start_address + seg.size - BitVec.ofNat 32 w).toNat =
        (seg.start_address + seg.size).toNat - w := by
      have := (seg.start_address + seg.size).isLt
      rw [BitVec.toNat_sub, hw4]
      omega
    rintro (hlt | hgt)
    · exact absurd (show a.toNat < seg.start_address.toNat from hlt) (by omega)
    · have : (seg.start_address + seg.size - BitVec.ofNat 32 w).toNat < a.toNat := hgt
      omega
  have halign : ¬ a.toNat % (BitVec.ofNat 32 w).toNat ≠ 0 := by
    rw [hw4]
    exact not_not_intro ha.aligned
  have hpm : get_page (seg.page_index a) seg = .ok r { seg with paged_memory := m' } := by
    rw [get_page, Exec.zoom_ok]
    exact ⟨m', hget, rfl⟩
  rw [locate, Exec.get_bind, Exec.reject_bind_neg hbounds, Exec.reject_bind_neg halign,
    Exec.bind_apply_ok hpm]
  rfl

/-- Every load is an aligned access followed by a function of its bytes. -/
theorem read_bytes_ok (h : seg.Holds mem) (ha : Natural a w) (hs : seg.Spans a w) :
    ∃ bytes : Bytes, (∀ k < w, bytes.getD k 0 = mem (a + BitVec.ofNat 32 k)) ∧
      ∀ {α : Type} (f : Bytes → α), Reads seg mem (do
        let (page, offset) ← locate a (BitVec.ofNat 32 w)
        let b ← read_page page offset w
        pure (f b)) (f bytes) := by
  obtain ⟨r, m', n, cur, hloc, hpage, hm', hmem, hwrite⟩ := locate_ok h ha hs
  have hw : 0 < w := by rcases ha.width with rfl | rfl | rfl <;> decide
  have hfit := (ha.same_page (ha.bounds hs).1 hw).2.2
  refine ⟨((cur (seg.page_index a)).toList.drop (seg.offset a)).take w, ?_,
    fun f => ⟨m', ?_, ⟨n, cur, hm', hmem⟩, fun hwr => (hwrite hwr).1⟩⟩
  · intro k hk
    obtain ⟨hidx, hoff, -⟩ := ha.same_page (ha.bounds hs).1 hk
    rw [(hmem _ (hs k hk)).2, hidx, hoff, List.getD_eq_getElem?_getD,
      List.getD_eq_getElem?_getD, List.getElem?_take_of_lt hk, List.getElem?_drop]
  · have hread : read_page r (seg.offset a) w { seg with paged_memory := m' } =
        .ok (((cur (seg.page_index a)).toList.drop (seg.offset a)).take w)
          { seg with paged_memory := m' } := by
      rw [read_page, Exec.get_bind, hpage, Exec.assert_bind_pos hfit]
      rfl
    rw [Exec.bind_apply_ok hloc]
    dsimp only
    rw [Exec.bind_apply_ok hread]
    rfl

theorem read_u8_ok (h : seg.Holds mem) (hs : seg.Spans a 1) :
    Reads seg mem (read_u8 a) (mem a) := by
  obtain ⟨bytes, hbytes, hread⟩ := read_bytes_ok h ⟨.inl rfl, Nat.mod_one _⟩ hs
  have h0 := hbytes 0 (by decide)
  rw [BitVec.add_zero] at h0
  rw [← h0]
  exact hread fun b => b.getD 0 0

theorem read_u16_ok (h : seg.Holds mem) (ha : a.toNat % 2 = 0) (hs : seg.Spans a 2) :
    Reads seg mem (read_u16 a) (mem (a + 1) ++ mem a) := by
  obtain ⟨bytes, hbytes, hread⟩ := read_bytes_ok h ⟨.inr (.inl rfl), ha⟩ hs
  have h0 := hbytes 0 (by decide)
  have h1 : bytes.getD 1 0 = mem (a + 1) := hbytes 1 (by decide)
  rw [BitVec.add_zero] at h0
  rw [← h0, ← h1]
  exact hread fun b => b.getD 1 0 ++ b.getD 0 0

theorem read_u32_ok (h : seg.Holds mem) (ha : a.toNat % 4 = 0) (hs : seg.Spans a 4) :
    Reads seg mem (read_u32 a) (mem (a + 3) ++ mem (a + 2) ++ mem (a + 1) ++ mem a) := by
  obtain ⟨bytes, hbytes, hread⟩ := read_bytes_ok h ⟨.inr (.inr rfl), ha⟩ hs
  have h0 := hbytes 0 (by decide)
  have h1 : bytes.getD 1 0 = mem (a + 1) := hbytes 1 (by decide)
  have h2 : bytes.getD 2 0 = mem (a + 2) := hbytes 2 (by decide)
  have h3 : bytes.getD 3 0 = mem (a + 3) := hbytes 3 (by decide)
  rw [BitVec.add_zero] at h0
  rw [← h0, ← h1, ← h2, ← h3]
  exact hread fun b => b.getD 3 0 ++ b.getD 2 0 ++ b.getD 1 0 ++ b.getD 0 0

theorem write_bytes_getD {old new : List U8} {off : ℕ} {bytes : Bytes} {o : ℕ}
    (hlen : old.length = 256) (hfit : off + bytes.length ≤ 256)
    (hnew : new = old.take off ++ bytes ++ old.drop (off + bytes.length)) :
    new.length = 256 ∧ new.getD o 0 =
      if off ≤ o ∧ o < off + bytes.length then bytes.getD (o - off) 0 else old.getD o 0 := by
  subst hnew
  have htake : (old.take off).length = off := by rw [List.length_take]; omega
  refine ⟨by rw [List.length_append, List.length_append, htake, List.length_drop]; omega, ?_⟩
  simp only [List.getD_eq_getElem?_getD, List.append_assoc]
  by_cases h1 : o < off
  · rw [if_neg (by omega), List.getElem?_append_left (by omega), List.getElem?_take_of_lt h1]
  · rw [List.getElem?_append_right (by omega), htake]
    by_cases h2 : o < off + bytes.length
    · rw [if_pos ⟨by omega, h2⟩, List.getElem?_append_left (by omega)]
    · rw [if_neg (by omega), List.getElem?_append_right (by omega), List.getElem?_drop,
        show off + bytes.length + (o - off - bytes.length) = o by omega]

/-- An aligned store of `w` bytes. -/
theorem write_bytes_ok (h : seg.Holds mem) (hwr : seg.Writable) (ha : Natural a w)
    (hs : seg.Spans a w) {bytes : Bytes} (hlen : bytes.length = w) :
    Writes seg (fun b => bytes.getD (b - a).toNat (mem b)) (do
      let (page, offset) ← locate a (BitVec.ofNat 32 w)
      write_page page offset bytes) := by
  obtain ⟨r, m', n, cur, hloc, hpage, hm', hmem, hwrite⟩ := locate_ok h ha hs
  have hw : 0 < w := by rcases ha.width with rfl | rfl | rfl <;> decide
  have hfit : seg.offset a + w ≤ 256 := (ha.same_page (ha.bounds hs).1 hw).2.2
  obtain ⟨-, hdm⟩ := hwrite hwr
  obtain ⟨hwr', hholds'⟩ := hdm (array ((cur (seg.page_index a)).toList.take (seg.offset a) ++
    bytes ++ (cur (seg.page_index a)).toList.drop (seg.offset a + bytes.length)) 0 PAGE_SIZE)
  refine ⟨_, ?_, ⟨n, _, hholds', ?_⟩, hwr'⟩
  · rw [Exec.bind_apply_ok hloc]
    dsimp only
    rw [write_page, Exec.get_bind, hpage, Exec.assert_bind_pos (by rw [hlen]; exact hfit)]
    rfl
  · intro b hb
    refine ⟨(hmem b hb).1, ?_⟩
    have hlo := (ha.bounds hs).1
    have hblo : seg.start_address.toNat ≤ b.toNat := (contains_iff.mp hb).1
    have hoa := offset_eq hlo
    have hob := offset_eq hblo
    have hia := page_index_toNat hlo
    have hib := page_index_toNat hblo
    have hsub : (b - a).toNat = (2 ^ 32 - a.toNat + b.toNat) % 2 ^ 32 := BitVec.toNat_sub b a
    have := a.isLt
    have := b.isLt
    obtain ⟨hnewlen, hnewget⟩ := write_bytes_getD (o := seg.offset b)
      (cur (seg.page_index a)).length_toList (by rw [hlen]; exact hfit) rfl
    show bytes.getD (b - a).toNat (mem b) =
      (Function.update cur _ _ (seg.page_index b)).toList.getD (seg.offset b) 0
    by_cases hidx : seg.page_index b = seg.page_index a
    · have hnat : (seg.page_index b).toNat = (seg.page_index a).toNat := by rw [hidx]
      rw [hidx, Function.update_self, array_toList_of_length hnewlen, hnewget]
      split
      · next hin =>
          rw [show (b - a).toNat = seg.offset b - seg.offset a by omega,
            List.getD_eq_getElem _ _ (by omega), List.getD_eq_getElem _ _ (by omega)]
      · next hout =>
          have hfar : bytes.length ≤ (b - a).toNat := by omega
          rw [(hmem b hb).2, hidx, List.getD_eq_getElem?_getD,
            List.getElem?_eq_none hfar, Option.getD_none]
    · rw [Function.update_of_ne hidx, ← (hmem b hb).2]
      have hfar : bytes.length ≤ (b - a).toNat := by
        by_contra hnear
        have hk : b = a + BitVec.ofNat 32 (b - a).toNat := by
          rw [BitVec.ofNat_toNat, BitVec.setWidth_eq, BitVec.add_comm, BitVec.sub_add_cancel]
        apply hidx
        rw [hk]
        exact (ha.same_page (ha.bounds hs).1 (by omega)).1
      rw [List.getD_eq_getElem?_getD, List.getElem?_eq_none hfar, Option.getD_none]

theorem write_u8_ok (h : seg.Holds mem) (hwr : seg.Writable) (hs : seg.Spans a 1) (v : U8) :
    Writes seg (fun b => [v].getD (b - a).toNat (mem b)) (write_u8 a v) :=
  write_bytes_ok h hwr ⟨.inl rfl, Nat.mod_one _⟩ hs rfl

theorem write_u16_ok (h : seg.Holds mem) (hwr : seg.Writable) (ha : a.toNat % 2 = 0)
    (hs : seg.Spans a 2) (v : BitVec 16) :
    Writes seg (fun b => [v.extractLsb' 0 8, v.extractLsb' 8 8].getD (b - a).toNat (mem b))
      (write_u16 a v) :=
  write_bytes_ok h hwr ⟨.inr (.inl rfl), ha⟩ hs rfl

theorem write_u32_ok (h : seg.Holds mem) (hwr : seg.Writable) (ha : a.toNat % 4 = 0)
    (hs : seg.Spans a 4) (v : U32) :
    Writes seg (fun b => [v.extractLsb' 0 8, v.extractLsb' 8 8, v.extractLsb' 16 8,
      v.extractLsb' 24 8].getD (b - a).toNat (mem b)) (write_u32 a v) :=
  write_bytes_ok h hwr ⟨.inr (.inr rfl), ha⟩ hs rfl

end MemorySegment

end Vanadium
