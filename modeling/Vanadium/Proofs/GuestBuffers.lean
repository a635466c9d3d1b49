import Vanadium.Lib.ByteMap
import Vanadium.Proofs.Keeps
import Vanadium.Proofs.PageView

/-!
# Buffers in the guest's memory

`read_buffer` and `write_buffer` go through a segment page by page. Over a
memory that shows the bytes `mem`, reading returns the range of `mem`, and
writing leaves the memory showing `mem` with the range replaced. A write that
fails in the middle has replaced a first part of the range.
-/

namespace Vanadium

open Lib
open Lib.ByteMap (load store)

namespace MemorySegment

variable {M : Type} {seg seg' seg₁ : MemorySegment M} {mem : U32 → U8} {a b cur : U32}

/-! ## One page -/

/-- Bytes that are in one page are next to each other there. -/
theorem in_page {k : ℕ} (hlo : seg.start_address.toNat ≤ cur.toNat)
    (hblo : seg.start_address.toNat ≤ b.toNat) (hfit : seg.offset cur + k ≤ PAGE_SIZE) :
    (cur.toNat ≤ b.toNat ∧ b.toNat < cur.toNat + k) ↔
      seg.page_index b = seg.page_index cur ∧ seg.offset cur ≤ seg.offset b ∧
        seg.offset b < seg.offset cur + k := by
  have hpage : PAGE_SIZE = 256 := rfl
  have hoa := offset_eq hlo
  have hob := offset_eq hblo
  have hia := page_index_toNat hlo
  have hib := page_index_toNat hblo
  constructor
  · rintro ⟨h1, h2⟩
    have hidx : (seg.page_index b).toNat = (seg.page_index cur).toNat := by omega
    exact ⟨BitVec.eq_of_toNat_eq hidx, by omega, by omega⟩
  · rintro ⟨hidx, h1, h2⟩
    have hnat : (seg.page_index b).toNat = (seg.page_index cur).toNat := by rw [hidx]
    omega

/-- The addresses of a range that does not wrap. -/
theorem add_toNat {n k : ℕ} (hfit : cur.toNat + n < 2 ^ 32) (hk : k ≤ n) :
    (cur + BitVec.ofNat 32 k).toNat = cur.toNat + k := by
  rw [BitVec.toNat_add, BitVec.toNat_ofNat]
  omega

/-- The page that `write_page` leaves. -/
def splice (offset : ℕ) (bytes : Bytes) (old : Page) : Page :=
  array (old.toList.take offset ++ bytes ++ old.toList.drop (offset + bytes.length)) 0 PAGE_SIZE

/-- The bytes at the segment's addresses after a write to one of its pages. -/
theorem splice_getD {pages : U32 → Page}
    (hmem : ∀ b, seg.contains b = true →
      mem b = (pages (seg.page_index b)).toList.getD (seg.offset b) 0)
    (hin : seg.contains cur = true) {chunk : Bytes}
    (hfit : seg.offset cur + chunk.length ≤ PAGE_SIZE) (hb : seg.contains b = true) :
    store mem cur chunk b = (Function.update pages (seg.page_index cur)
      (splice (seg.offset cur) chunk (pages (seg.page_index cur)))
        (seg.page_index b)).toList.getD (seg.offset b) 0 := by
  have hlo := (contains_iff.mp hin).1
  have hblo : seg.start_address.toNat ≤ b.toNat := (contains_iff.mp hb).1
  have hrange := in_page hlo hblo hfit
  have hpage : PAGE_SIZE = 256 := rfl
  have hcur := cur.isLt
  -- pages end at multiples of 256, so no range in one wraps
  have hwrap : cur.toNat + chunk.length ≤ 2 ^ 32 := by
    rw [offset_eq hlo] at hfit
    omega
  obtain ⟨hlen, hgetD⟩ := write_bytes_getD (o := seg.offset b)
    (pages (seg.page_index cur)).length_toList hfit rfl
  by_cases hidx : seg.page_index b = seg.page_index cur
  · rw [hidx, Function.update_self, splice, array_toList_of_length hlen, hgetD]
    split
    · next hoffs =>
        obtain ⟨h1, h2⟩ := hrange.mpr ⟨hidx, hoffs⟩
        have hnat : (seg.page_index b).toNat = (seg.page_index cur).toNat := by rw [hidx]
        have hsub : (b - cur).toNat = seg.offset b - seg.offset cur := by
          rw [BitVec.toNat_sub, offset_eq hlo, offset_eq hblo]
          rw [page_index_toNat hlo, page_index_toNat hblo] at hnat
          omega
        rw [store, hsub, List.getD_eq_getElem _ _ (by omega), List.getD_eq_getElem _ _ (by omega)]
    · next hoffs =>
        rw [ByteMap.store_outside hwrap, hmem b hb, hidx]
        by_contra hout
        exact hoffs (hrange.mp ⟨by omega, by omega⟩).2
  · rw [Function.update_of_ne hidx, ← hmem b hb, ByteMap.store_outside hwrap]
    by_contra hout
    exact hidx (hrange.mp ⟨by omega, by omega⟩).1

/-- A range that stays in one page. -/
theorem page_load {pages : U32 → Page}
    (hmem : ∀ b, seg.contains b = true →
      mem b = (pages (seg.page_index b)).toList.getD (seg.offset b) 0)
    {n : ℕ} (hlo : seg.start_address.toNat ≤ cur.toNat)
    (hhi : cur.toNat + n ≤ (seg.start_address + seg.size).toNat)
    (hfit : seg.offset cur + n ≤ PAGE_SIZE) :
    ((pages (seg.page_index cur)).toList.drop (seg.offset cur)).take n = load mem cur n := by
  have hend := (seg.start_address + seg.size).isLt
  have hlen := (pages (seg.page_index cur)).length_toList
  refine List.ext_getElem (by simp; omega) fun j hj hj' => ?_
  rw [ByteMap.length_load] at hj'
  have hjnat := @add_toNat cur n j (by omega) (by omega)
  have hjin : seg.contains (cur + BitVec.ofNat 32 j) = true := contains_iff.mpr (by omega)
  obtain ⟨hidx, hoff, -⟩ := (in_page hlo (contains_iff.mp hjin).1 hfit).mp (by omega)
  have hoffj : seg.offset (cur + BitVec.ofNat 32 j) = seg.offset cur + j := by
    have hnat : (seg.page_index (cur + BitVec.ofNat 32 j)).toNat =
      (seg.page_index cur).toNat := by rw [hidx]
    rw [page_index_toNat hlo, page_index_toNat (contains_iff.mp hjin).1] at hnat
    rw [offset_eq hlo, offset_eq (contains_iff.mp hjin).1]
    omega
  simp only [load, List.getElem_map, List.getElem_range, List.getElem_take, List.getElem_drop]
  rw [hmem _ hjin, hidx, hoffj, List.getD_eq_getElem _ _ (by omega)]

variable [PagedMemory M]

theorem write_page_inv {page : PagedMemory.PageRef M} {offset : ℕ} {bytes : Bytes} {u : Unit}
    (h : write_page page offset bytes seg = .ok u seg') :
    offset + bytes.length ≤ PAGE_SIZE ∧
      seg' = { seg with
        paged_memory := PagedMemory.deref_mut seg.paged_memory page
          (splice offset bytes (PagedMemory.deref seg.paged_memory page)) } := by
  rw [write_page, Exec.get_bind] at h
  obtain ⟨hfit, h⟩ := Exec.assert_bind_ok.mp h
  cases h
  exact ⟨hfit, rfl⟩

theorem read_page_inv {page : PagedMemory.PageRef M} {offset n : ℕ} {bytes : Bytes}
    (h : read_page page offset n seg = .ok bytes seg') :
    offset + n ≤ PAGE_SIZE ∧ seg' = seg ∧
      bytes = ((PagedMemory.deref seg.paged_memory page).toList.drop offset).take n := by
  rw [read_page, Exec.get_bind] at h
  obtain ⟨hfit, h⟩ := Exec.assert_bind_ok.mp h
  cases h
  exact ⟨hfit, rfl, rfl⟩

variable [PageView M]

theorem Shows.write (h : seg.Shows mem) (hlive : PageView.Live seg.paged_memory)
    (hin : seg.contains cur = true) {chunk : Bytes}
    (hfit : seg.offset cur + chunk.length ≤ PAGE_SIZE) {m' : M} {r : PagedMemory.PageRef M}
    (hget : PagedMemory.get_page (seg.page_index cur) seg.paged_memory = .ok r m') :
    Shows { seg with
        paged_memory := PagedMemory.deref_mut m' r
          (splice (seg.offset cur) chunk (PagedMemory.deref m' r)) } (store mem cur chunk) := by
  obtain ⟨n, pages, hshows, hmem⟩ := h
  exact ⟨n, _, PageView.deref_mut hshows hlive (hmem cur hin).1 hget
    (splice (seg.offset cur) chunk),
    fun b hb => ⟨(hmem b hb).1, splice_getD (fun c hc => (hmem c hc).2) hin hfit hb⟩⟩

theorem Shows.read (h : seg.Shows mem) {n : ℕ} (hlo : seg.start_address.toNat ≤ cur.toNat)
    (hhi : cur.toNat + n ≤ (seg.start_address + seg.size).toNat) (hn : 0 < n)
    (hfit : seg.offset cur + n ≤ PAGE_SIZE) {m' : M} {r : PagedMemory.PageRef M}
    (hget : PagedMemory.get_page (seg.page_index cur) seg.paged_memory = .ok r m')
    (htrust : PageView.Trusted m') :
    ((PagedMemory.deref m' r).toList.drop (seg.offset cur)).take n = load mem cur n := by
  obtain ⟨k, pages, hshows, hmem⟩ := h
  have hin : seg.contains cur = true := contains_iff.mpr ⟨hlo, by omega⟩
  rw [(PageView.get_page hshows (hmem cur hin).1 hget).2 htrust]
  exact page_load (fun b hb => (hmem b hb).2) hlo hhi hfit

/-! ## Buffers -/

/-- `seg'` shows what `seg` shows, with `bytes` from `a` on. -/
structure Wrote (seg : MemorySegment M) (a : U32) (bytes : Bytes) (seg' : MemorySegment M) :
    Prop where
  start : seg'.start_address = seg.start_address
  size : seg'.size = seg.size
  shows : ∀ mem, seg.Shows mem → seg'.Shows (store mem a bytes)

theorem Same.wrote (h : Same seg seg') (a : U32) : Wrote seg a [] seg' := ⟨h.start, h.size, h.shows⟩

theorem Wrote.append {xs ys : Bytes} (h : Wrote seg a xs seg₁)
    (h' : Wrote seg₁ (a + BitVec.ofNat 32 xs.length) ys seg')
    (hfit : xs.length + ys.length ≤ 2 ^ 32) : Wrote seg a (xs ++ ys) seg' := by
  refine ⟨h'.start.trans h.start, h'.size.trans h.size, fun mem hmem => ?_⟩
  rw [← ByteMap.store_append hfit]
  exact h'.shows _ (h.shows mem hmem)

/-- The bytes of `seg'` up to which a call came, and whether it got further. -/
structure Written (seg : MemorySegment M) (a : U32) (bytes : Bytes) (seg' : MemorySegment M) :
    Prop extends Wrote seg a bytes seg' where
  live : PageView.Live seg'.paged_memory
  trusted : PageView.Trusted seg'.paged_memory → PageView.Trusted seg.paged_memory

theorem write_chunk {page : PagedMemory.PageRef M} {chunk : Bytes} {u : Unit}
    (hlive : PageView.Live seg.paged_memory) (hin : seg.contains cur = true)
    (hget : get_page (seg.page_index cur) seg = .ok page seg₁)
    (hwrite : write_page page (seg.offset cur) chunk seg₁ = .ok u seg') :
    Written seg cur chunk seg' := by
  obtain ⟨m', hlookup, rfl⟩ := Exec.zoom_ok.mp hget
  obtain ⟨hfit, rfl⟩ := write_page_inv hwrite
  obtain ⟨hlive', hdm⟩ := PageView.live hlive hlookup
  exact {
    start := rfl
    size := rfl
    shows := fun mem hmem => hmem.write hlive hin hfit hlookup
    live := (hdm _).1
    trusted := fun h => PageView.trusted hlookup ((hdm _).2 h) }

theorem write_buffer_loop_inv : ∀ (fuel : ℕ) {cur : U32} {buffer : Bytes}
    {seg : MemorySegment M}, PageView.Live seg.paged_memory → buffer.length ≤ fuel →
    seg.start_address.toNat ≤ cur.toNat →
    cur.toNat + buffer.length ≤ (seg.start_address + seg.size).toNat →
    (∀ u seg', write_buffer.loop fuel cur buffer seg = .ok u seg' → Written seg cur buffer seg') ∧
      ∀ seg', Exec.Fails (write_buffer.loop fuel cur buffer) seg seg' →
        ∃ k, Wrote seg cur (buffer.take k) seg' := by
  intro fuel
  induction fuel with
  | zero =>
      intro cur buffer seg hlive hfuel hlo hhi
      obtain rfl : buffer = [] := List.length_eq_zero_iff.mp (by omega)
      refine ⟨fun u seg' h => ?_, fun seg' h => absurd h (Exec.Infallible.pure _ _ _)⟩
      cases h
      exact ⟨(Same.refl seg).wrote cur, hlive, id⟩
  | succ fuel ih =>
      intro cur buffer seg hlive hfuel hlo hhi
      have hend := (seg.start_address + seg.size).isLt
      rw [write_buffer.loop]
      split
      · next hnil =>
          obtain rfl : buffer = [] := List.length_eq_zero_iff.mp hnil
          refine ⟨fun u seg' h => ?_, fun seg' h => absurd h (Exec.Infallible.pure _ _ _)⟩
          cases h
          exact ⟨(Same.refl seg).wrote cur, hlive, id⟩
      · next hpos =>
          have hin : seg.contains cur = true := contains_iff.mpr ⟨hlo, by omega⟩
          have hoff : seg.offset cur < PAGE_SIZE := offset_lt seg cur
          -- the rest is written after the first page
          have hrest {k : ℕ} (hk : k = min (PAGE_SIZE - seg.offset cur) buffer.length)
              {seg₁ : MemorySegment M} (hfirst : Written seg cur (buffer.take k) seg₁) :=
            @ih (cur + BitVec.ofNat 32 k) (buffer.drop k) seg₁ hfirst.live
              (by rw [List.length_drop]; omega)
              (by rw [hfirst.start, add_toNat (n := buffer.length) (by omega) (by omega)]; omega)
              (by rw [hfirst.start, hfirst.size, List.length_drop,
                add_toNat (n := buffer.length) (by omega) (by omega)]; omega)
          have hlen {k : ℕ} (hk : k = min (PAGE_SIZE - seg.offset cur) buffer.length) :
              (buffer.take k).length = k := by rw [List.length_take]; omega
          constructor
          · intro u seg' h
            rw [Exec.get_bind] at h
            obtain ⟨page, seg₁, hget, h⟩ := Exec.bind_ok.mp h
            obtain ⟨_, seg₂, hwrite, h⟩ := Exec.bind_ok.mp h
            have hfirst := write_chunk hlive hin hget hwrite
            have hsecond := (hrest rfl hfirst).1 u seg' h
            rw [← List.take_append_drop (min (PAGE_SIZE - seg.offset cur) buffer.length) buffer]
            refine ⟨hfirst.toWrote.append ?_ ?_, hsecond.live,
              fun ht => hfirst.trusted (hsecond.trusted ht)⟩
            · rw [hlen rfl]
              exact hsecond.toWrote
            · rw [hlen rfl, List.length_drop]
              omega
          · intro seg' h
            obtain ⟨seg₀, _, hget, h⟩ :=
              (Exec.bind_fails.mp h).resolve_left (Exec.Infallible.get _ _)
            cases hget
            rcases Exec.bind_fails.mp h with h | ⟨page, seg₁, hget, h⟩
            · obtain ⟨m', hlookup, rfl⟩ := Exec.zoom_fails.mp h
              exact ⟨0, (Same.lookup hin (.inr hlookup)).wrote cur⟩
            obtain ⟨_, seg₂, hwrite, h⟩ :=
              (Exec.bind_fails.mp h).resolve_left (write_page_infallible _ _ _ _ _)
            have hfirst := write_chunk hlive hin hget hwrite
            obtain ⟨j, hsecond⟩ := (hrest rfl hfirst).2 seg' h
            refine ⟨min (PAGE_SIZE - seg.offset cur) buffer.length + j, ?_⟩
            rw [List.take_add]
            refine hfirst.toWrote.append ?_ ?_
            · rw [hlen rfl]
              exact hsecond
            · rw [hlen rfl, List.length_take, List.length_drop]
              omega

omit [PagedMemory M] [PageView M] in
/-- What the bounds check says, for a length that fits a machine word. -/
theorem check_range_ok {u : Unit} {n : ℕ} (hn : n < 2 ^ 32) :
    check_range a n seg = .ok u seg' ↔ seg' = seg ∧ a.toNat + n < 2 ^ 32 ∧
      seg.start_address.toNat ≤ a.toNat ∧ a.toNat + n ≤ (seg.start_address + seg.size).toNat := by
  have hnat : (BitVec.ofNat 32 n).toNat = n := by
    rw [BitVec.toNat_ofNat, Nat.mod_eq_of_lt hn]
  rw [check_range, Exec.get_bind, Exec.reject_bind_ok, Exec.reject_ok, hnat, not_or,
    BitVec.not_lt, BitVec.not_lt, BitVec.le_def, BitVec.le_def, BitVec.toNat_add a, hnat]
  constructor
  · rintro ⟨h1, ⟨h2, h3⟩, rfl⟩
    rw [Nat.mod_eq_of_lt (by omega)] at h3
    exact ⟨rfl, by omega, h2, h3⟩
  · rintro ⟨rfl, h1, h2, h3⟩
    rw [Nat.mod_eq_of_lt h1]
    exact ⟨by omega, ⟨h2, h3⟩, rfl⟩

omit [PagedMemory M] [PageView M] in
theorem check_range_fails {n : ℕ} (h : Exec.Fails (check_range (M := M) a n) seg seg') :
    seg' = seg := by
  obtain ⟨_, _, hget, h⟩ := (Exec.bind_fails.mp h).resolve_left (Exec.Infallible.get _ _)
  cases hget
  rcases Exec.bind_fails.mp h with h | ⟨_, _, hrej, h⟩
  · exact (Exec.reject_fails.mp h).2
  · obtain ⟨-, rfl⟩ := Exec.reject_ok.mp hrej
    exact (Exec.reject_fails.mp h).2

theorem write_buffer_ok {buffer : Bytes} {u : Unit} (hlive : PageView.Live seg.paged_memory)
    (hlen : buffer.length < 2 ^ 32) (h : write_buffer a buffer seg = .ok u seg') :
    a.toNat + buffer.length < 2 ^ 32 ∧ Written seg a buffer seg' := by
  obtain ⟨_, seg₁, hcheck, hloop⟩ := Exec.bind_ok.mp h
  obtain ⟨rfl, hwrap, hlo, hhi⟩ := (check_range_ok hlen).mp hcheck
  exact ⟨hwrap, (write_buffer_loop_inv _ hlive (Nat.le_refl _) hlo hhi).1 u seg' hloop⟩

theorem write_buffer_fails {buffer : Bytes} (hlive : PageView.Live seg.paged_memory)
    (hlen : buffer.length < 2 ^ 32) (h : Exec.Fails (write_buffer a buffer) seg seg') :
    ∃ k, a.toNat + (buffer.take k).length ≤ 2 ^ 32 ∧ Wrote seg a (buffer.take k) seg' := by
  rcases Exec.bind_fails.mp h with hcheck | ⟨_, seg₁, hcheck, hloop⟩
  · obtain rfl := check_range_fails hcheck
    exact ⟨0, a.isLt.le, (Same.refl seg').wrote a⟩
  · obtain ⟨rfl, hwrap, hlo, hhi⟩ := (check_range_ok hlen).mp hcheck
    obtain ⟨k, hk⟩ := (write_buffer_loop_inv _ hlive (Nat.le_refl _) hlo hhi).2 seg' hloop
    exact ⟨k, by rw [List.length_take]; omega, hk⟩

/-! Reading. -/

/-- `seg'` shows what `seg` shows, and `bytes` are those from `a` on. -/
structure ReadFrom (seg : MemorySegment M) (a : U32) (n : ℕ) (bytes : Bytes)
    (seg' : MemorySegment M) : Prop where
  same : Same seg seg'
  length : bytes.length = n
  live : PageView.Live seg.paged_memory → PageView.Live seg'.paged_memory
  trusted : PageView.Trusted seg'.paged_memory → PageView.Trusted seg.paged_memory
  bytes : PageView.Trusted seg'.paged_memory → ∀ mem, seg.Shows mem → bytes = load mem a n

theorem ReadFrom.refl (seg : MemorySegment M) (a : U32) : ReadFrom seg a 0 [] seg :=
  ⟨.refl _, rfl, id, id, fun _ _ _ => rfl⟩

theorem ReadFrom.append {m n : ℕ} {xs ys : Bytes} (h : ReadFrom seg a m xs seg₁)
    (h' : ReadFrom seg₁ (a + BitVec.ofNat 32 m) n ys seg') :
    ReadFrom seg a (m + n) (xs ++ ys) seg' where
  same := h.same.trans h'.same
  length := by rw [List.length_append, h.length, h'.length]
  live hl := h'.live (h.live hl)
  trusted ht := h.trusted (h'.trusted ht)
  bytes ht mem hmem := by
    rw [ByteMap.load_add, ← h.bytes (h'.trusted ht) mem hmem,
      ← h'.bytes ht mem (h.same.shows mem hmem)]

theorem read_buffer_loop_inv : ∀ (fuel : ℕ) {cur : U32} {remaining : ℕ} {buffer bytes : Bytes}
    {seg seg' : MemorySegment M}, remaining ≤ fuel → seg.start_address.toNat ≤ cur.toNat →
    cur.toNat + remaining ≤ (seg.start_address + seg.size).toNat →
    read_buffer.loop fuel cur remaining buffer seg = .ok bytes seg' →
      ∃ rest, bytes = buffer ++ rest ∧ ReadFrom seg cur remaining rest seg' := by
  intro fuel
  induction fuel with
  | zero =>
      intro cur remaining buffer bytes seg seg' hfuel hlo hhi h
      obtain rfl : remaining = 0 := by omega
      cases h
      exact ⟨[], (List.append_nil _).symm, .refl _ _⟩
  | succ fuel ih =>
      intro cur remaining buffer bytes seg seg' hfuel hlo hhi h
      have hend := (seg.start_address + seg.size).isLt
      rw [read_buffer.loop] at h
      split at h
      · next hzero =>
          subst hzero
          cases h
          exact ⟨[], (List.append_nil _).symm, .refl _ _⟩
      · next hpos =>
          rw [Exec.get_bind] at h
          obtain ⟨page, seg₁, hget, h⟩ := Exec.bind_ok.mp h
          obtain ⟨chunk, seg₂, hread, h⟩ := Exec.bind_ok.mp h
          obtain ⟨m', hlookup, rfl⟩ := Exec.zoom_ok.mp hget
          obtain ⟨hfit, rfl, rfl⟩ := read_page_inv hread
          have hoff : seg.offset cur < PAGE_SIZE := offset_lt seg cur
          have hin : seg.contains cur = true := contains_iff.mpr ⟨hlo, by omega⟩
          have hfirst : ReadFrom seg cur (min (PAGE_SIZE - seg.offset cur) remaining) _
              { seg with paged_memory := m' } :=
            ⟨.lookup hin (.inl ⟨_, hlookup⟩), by
              rw [List.length_take, List.length_drop, Vector.length_toList]; omega,
              fun hl => (PageView.live hl hlookup).1, PageView.trusted hlookup,
              fun ht mem hmem => hmem.read hlo (by omega) (by omega) hfit hlookup ht⟩
          have hnat := @add_toNat cur remaining _ (by omega)
            (Nat.min_le_right (PAGE_SIZE - seg.offset cur) remaining)
          obtain ⟨rest, rfl, hrest⟩ := ih (by omega) (by dsimp only; omega)
            (by dsimp only; omega) h
          refine ⟨_ ++ rest, List.append_assoc _ _ _, ?_⟩
          have := hfirst.append hrest
          rwa [Nat.add_sub_cancel' (Nat.min_le_right _ _)] at this

theorem read_buffer_ok {n : ℕ} {bytes : Bytes} (hn : n < 2 ^ 32)
    (h : read_buffer a n seg = .ok bytes seg') :
    a.toNat + n < 2 ^ 32 ∧ ReadFrom seg a n bytes seg' := by
  obtain ⟨_, seg₁, hcheck, hloop⟩ := Exec.bind_ok.mp h
  obtain ⟨rfl, hwrap, hlo, hhi⟩ := (check_range_ok hn).mp hcheck
  obtain ⟨rest, rfl, hrest⟩ := read_buffer_loop_inv _ (Nat.le_refl _) hlo hhi hloop
  exact ⟨hwrap, hrest⟩

end MemorySegment

end Vanadium
