import Vanadium.Proofs.GuestBuffers

/-!
# A segment against its bytes

`Segments.lean` says what the aligned accesses do over a memory that behaves
as an array of pages. Here are the buffers: the loop cuts a range at the page
boundaries, and what it reads or writes is the range, however many pages that
crosses. Together they say that a segment and an array of bytes cannot be told
apart.
-/

namespace Vanadium

open Lib
open Lib.ByteMap (load store)

namespace MemorySegment

variable {M : Type} [PagedMemory M] [LawfulPagedMemory M]
variable {seg : MemorySegment M} {mem : U32 → U8} {a b cur : U32}

/-- The `n` bytes from `a` on are addresses of the segment. -/
def Inside (seg : MemorySegment M) (a : U32) (n : ℕ) : Prop :=
  seg.start_address.toNat ≤ a.toNat ∧ a.toNat + n ≤ seg.start_address.toNat + seg.size.toNat

/-- One byte after the other. -/
def read_each : ℕ → U32 → Exec MemoryError (MemorySegment M) Bytes
  | 0, _ => pure []
  | n + 1, address => do
      let b ← read_u8 address
      let rest ← read_each n (address + 1)
      pure (b :: rest)

/-! ## Accesses in sequence -/

theorem Reads.bind {α β : Type} {access : Exec MemoryError (MemorySegment M) α}
    {f : α → Exec MemoryError (MemorySegment M) β} {v : α} {r : β}
    (h : Reads seg mem access v)
    (hf : ∀ m', Holds { seg with paged_memory := m' } mem →
      (seg.Writable → Writable { seg with paged_memory := m' }) →
        Reads { seg with paged_memory := m' } mem (f v) r) :
    Reads seg mem (access >>= f) r := by
  obtain ⟨m₁, hrun, hholds, hwr⟩ := h
  obtain ⟨m₂, hrun', hholds', hwr'⟩ := hf m₁ hholds hwr
  exact ⟨m₂, by rw [Exec.bind_apply_ok hrun, hrun'], hholds', fun h => hwr' (hwr h)⟩

theorem Reads.pure {α : Type} (h : seg.Holds mem) (v : α) : Reads seg mem (Pure.pure v) v :=
  ⟨seg.paged_memory, rfl, h, id⟩

theorem Writes.bind {α : Type} {access : Exec MemoryError (MemorySegment M) Unit}
    {f : Unit → Exec MemoryError (MemorySegment M) α} {mem' : U32 → U8} {r : α}
    (h : Writes seg mem' access)
    (hf : ∀ m', Holds { seg with paged_memory := m' } mem' →
      Writable { seg with paged_memory := m' } →
        Reads { seg with paged_memory := m' } mem' (f ()) r) :
    ∃ m', (access >>= f) seg = .ok r { seg with paged_memory := m' } := by
  obtain ⟨m₁, hrun, hholds, hwr⟩ := h
  obtain ⟨m₂, hrun', -⟩ := hf m₁ hholds hwr
  exact ⟨m₂, by rw [Exec.bind_apply_ok hrun, hrun']⟩

theorem Writes.trans {access : Exec MemoryError (MemorySegment M) Unit}
    {f : Unit → Exec MemoryError (MemorySegment M) Unit} {mem₁ mem₂ : U32 → U8}
    (h : Writes seg mem₁ access)
    (hf : ∀ m', Holds { seg with paged_memory := m' } mem₁ →
      Writable { seg with paged_memory := m' } →
        Writes { seg with paged_memory := m' } mem₂ (f ())) :
    Writes seg mem₂ (access >>= f) := by
  obtain ⟨m₁, hrun, hholds, hwr⟩ := h
  obtain ⟨m₂, hrun', hrest⟩ := hf m₁ hholds hwr
  exact ⟨m₂, by rw [Exec.bind_apply_ok hrun, hrun'], hrest⟩

/-! ## One page -/

theorem read_chunk (h : seg.Holds mem) {n : ℕ} (hlo : seg.start_address.toNat ≤ cur.toNat)
    (hhi : cur.toNat + n ≤ (seg.start_address + seg.size).toNat) (hn : 0 < n)
    (hfit : seg.offset cur + n ≤ PAGE_SIZE) :
    Reads seg mem (do
      let page ← get_page (seg.page_index cur)
      read_page page (seg.offset cur) n) (load mem cur n) := by
  obtain ⟨k, pages, hm, hmem⟩ := h
  have hin : seg.contains cur = true := contains_iff.mpr ⟨hlo, by omega⟩
  obtain ⟨r, m', hget, hpage, hm', hwr⟩ := LawfulPagedMemory.get_page hm (hmem cur hin).1
  refine ⟨m', ?_, ⟨k, pages, hm', hmem⟩, fun h => (hwr h).1⟩
  have hrun : get_page (seg.page_index cur) seg = .ok r { seg with paged_memory := m' } := by
    rw [get_page, Exec.zoom_ok]
    exact ⟨m', hget, rfl⟩
  rw [Exec.bind_apply_ok hrun, read_page, Exec.get_bind, Exec.assert_bind_pos hfit, hpage,
    page_load (fun b hb => (hmem b hb).2) hlo hhi hfit]
  rfl

theorem write_chunk_ok (h : seg.Holds mem) (hw : seg.Writable) (chunk : Bytes)
    (hlo : seg.start_address.toNat ≤ cur.toNat)
    (hhi : cur.toNat + chunk.length ≤ (seg.start_address + seg.size).toNat)
    (hn : 0 < chunk.length) (hfit : seg.offset cur + chunk.length ≤ PAGE_SIZE) :
    Writes seg (store mem cur chunk) (do
      let page ← get_page (seg.page_index cur)
      write_page page (seg.offset cur) chunk) := by
  obtain ⟨k, pages, hm, hmem⟩ := h
  have hin : seg.contains cur = true := contains_iff.mpr ⟨hlo, by omega⟩
  obtain ⟨r, m', hget, hpage, hm', hwr⟩ := LawfulPagedMemory.get_page hm (hmem cur hin).1
  obtain ⟨hw', hdm⟩ := (hwr hw).2 (splice (seg.offset cur) chunk (pages (seg.page_index cur)))
  refine ⟨_, ?_, ⟨k, _, hdm, fun b hb => ⟨(hmem b hb).1,
    splice_getD (fun c hc => (hmem c hc).2) hin hfit hb⟩⟩, hw'⟩
  have hrun : get_page (seg.page_index cur) seg = .ok r { seg with paged_memory := m' } := by
    rw [get_page, Exec.zoom_ok]
    exact ⟨m', hget, rfl⟩
  rw [Exec.bind_apply_ok hrun, write_page, Exec.get_bind, Exec.assert_bind_pos hfit, hpage]
  rfl

/-! ## The loops -/

theorem read_buffer_loop_ok : ∀ (fuel : ℕ) {cur : U32} {remaining : ℕ} {buffer : Bytes}
    {seg : MemorySegment M}, seg.Holds mem → remaining ≤ fuel →
    seg.start_address.toNat ≤ cur.toNat →
    cur.toNat + remaining ≤ (seg.start_address + seg.size).toNat →
      Reads seg mem (read_buffer.loop fuel cur remaining buffer)
        (buffer ++ load mem cur remaining) := by
  intro fuel
  induction fuel with
  | zero =>
      intro cur remaining buffer seg h hfuel hlo hhi
      obtain rfl : remaining = 0 := by omega
      rw [ByteMap.load_zero, List.append_nil]
      exact .pure h _
  | succ fuel ih =>
      intro cur remaining buffer seg h hfuel hlo hhi
      have hend := (seg.start_address + seg.size).isLt
      rw [read_buffer.loop]
      split
      · next hzero =>
          rw [hzero, ByteMap.load_zero, List.append_nil]
          exact .pure h _
      · next hpos =>
          have hoff : seg.offset cur < PAGE_SIZE := offset_lt seg cur
          obtain ⟨n, hn⟩ : ∃ n, n = min (PAGE_SIZE - seg.offset cur) remaining := ⟨_, rfl⟩
          have hnat := @add_toNat cur remaining n (by omega) (by omega)
          have hfirst := read_chunk (n := n) h hlo (by omega) (by omega) (by omega)
          obtain ⟨m', hrun, hrest⟩ := hfirst.bind
            (f := fun bytes => read_buffer.loop fuel (cur + BitVec.ofNat 32 n) (remaining - n)
              (buffer ++ bytes))
            fun m' hm' _ => ih hm' (by omega) (by dsimp only; omega) (by dsimp only; omega)
          refine ⟨m', ?_, hrest⟩
          rw [Exec.get_bind, ← hn, ← Exec.bind_bind, hrun, List.append_assoc,
            ← ByteMap.load_add, Nat.add_sub_cancel' (by omega)]

theorem write_buffer_loop_ok : ∀ (fuel : ℕ) {cur : U32} {buffer : Bytes} {mem : U32 → U8}
    {seg : MemorySegment M}, seg.Holds mem → seg.Writable → buffer.length ≤ fuel →
    seg.start_address.toNat ≤ cur.toNat →
    cur.toNat + buffer.length ≤ (seg.start_address + seg.size).toNat →
      Writes seg (store mem cur buffer) (write_buffer.loop fuel cur buffer) := by
  intro fuel
  induction fuel with
  | zero =>
      intro cur buffer mem seg h hw hfuel hlo hhi
      obtain rfl : buffer = [] := List.length_eq_zero_iff.mp (by omega)
      exact ⟨seg.paged_memory, rfl, h, hw⟩
  | succ fuel ih =>
      intro cur buffer mem seg h hw hfuel hlo hhi
      have hend := (seg.start_address + seg.size).isLt
      rw [write_buffer.loop]
      split
      · next hnil =>
          obtain rfl : buffer = [] := List.length_eq_zero_iff.mp hnil
          exact ⟨seg.paged_memory, rfl, h, hw⟩
      · next hpos =>
          have hoff : seg.offset cur < PAGE_SIZE := offset_lt seg cur
          obtain ⟨n, hn⟩ : ∃ n, n = min (PAGE_SIZE - seg.offset cur) buffer.length := ⟨_, rfl⟩
          have hlen : (buffer.take n).length = n := by rw [List.length_take]; omega
          have hnat := @add_toNat cur buffer.length n (by omega) (by omega)
          have hfirst := write_chunk_ok h hw (buffer.take n) hlo (by omega) (by omega)
            (by omega)
          obtain ⟨m', hrun, hrest⟩ := hfirst.trans
            (f := fun _ => write_buffer.loop fuel (cur + BitVec.ofNat 32 n) (buffer.drop n))
            fun m' hm' hw' => ih hm' hw' (by rw [List.length_drop]; omega) (by dsimp only; omega)
              (by rw [List.length_drop]; dsimp only; omega)
          -- two writes next to each other are one
          have hstore : store (store mem cur (buffer.take n)) (cur + BitVec.ofNat 32 n)
              (buffer.drop n) = store mem cur buffer := by
            have happ := @ByteMap.store_append 32 U8 mem cur (buffer.take n) (buffer.drop n)
              (by rw [hlen, List.length_drop]; omega)
            rwa [hlen, List.take_append_drop] at happ
          rw [hstore] at hrest
          refine ⟨m', ?_, hrest⟩
          rw [Exec.get_bind, ← hn, ← Exec.bind_bind, hrun]

/-! ## The accesses -/

variable {n : ℕ}

omit [PagedMemory M] [LawfulPagedMemory M] in
/-- The end of a segment that does not touch the top of the address space. -/
theorem end_toNat (hend : seg.start_address.toNat + seg.size.toNat < 2 ^ 32) :
    (seg.start_address + seg.size).toNat = seg.start_address.toNat + seg.size.toNat := by
  rw [BitVec.toNat_add, Nat.mod_eq_of_lt hend]

omit [PagedMemory M] [LawfulPagedMemory M] in
theorem Inside.spans (hend : seg.start_address.toNat + seg.size.toNat < 2 ^ 32)
    (h : seg.Inside a n) : seg.Spans a n := by
  intro k hk
  obtain ⟨hlo, hhi⟩ := h
  have hnat := @add_toNat a n k (by omega) hk.le
  rw [contains_iff, end_toNat hend]
  omega

omit [PagedMemory M] [LawfulPagedMemory M] in
theorem check_range_inside (hend : seg.start_address.toNat + seg.size.toNat < 2 ^ 32)
    (h : seg.Inside a n) : check_range a n seg = .ok () seg := by
  obtain ⟨hlo, hhi⟩ := h
  rw [check_range_ok (by omega), end_toNat hend]
  exact ⟨rfl, by omega, hlo, hhi⟩

theorem read_buffer_reads (hend : seg.start_address.toNat + seg.size.toNat < 2 ^ 32)
    (hmem : seg.Holds mem) (h : seg.Inside a n) :
    Reads seg mem (read_buffer a n) (load mem a n) := by
  obtain ⟨m', hrun, hrest⟩ := @read_buffer_loop_ok _ _ _ mem n a n [] seg hmem (Nat.le_refl _)
    h.1 (by rw [end_toNat hend]; exact h.2)
  refine ⟨m', ?_, hrest⟩
  rw [read_buffer, Exec.bind_apply_ok (check_range_inside hend h), hrun]
  rfl

theorem write_buffer_writes {buffer : Bytes}
    (hend : seg.start_address.toNat + seg.size.toNat < 2 ^ 32) (hmem : seg.Holds mem)
    (hw : seg.Writable) (h : seg.Inside a buffer.length) :
    Writes seg (store mem a buffer) (write_buffer a buffer) := by
  obtain ⟨m', hrun, hrest⟩ := write_buffer_loop_ok _ hmem hw (Nat.le_refl _) h.1
    (by rw [end_toNat hend]; exact h.2)
  refine ⟨m', ?_, hrest⟩
  rw [write_buffer, Exec.bind_apply_ok (check_range_inside hend h), hrun]

theorem read_each_reads : ∀ (n : ℕ) {a : U32} {seg : MemorySegment M},
    seg.start_address.toNat + seg.size.toNat < 2 ^ 32 → seg.Holds mem → seg.Inside a n →
      Reads seg mem (read_each n a) (load mem a n) := by
  intro n
  induction n with
  | zero =>
      intro a seg _ hmem _
      exact .pure hmem _
  | succ n ih =>
      intro a seg hend hmem h
      have hfirst := read_u8_ok hmem (a := a) (Inside.spans hend ⟨h.1, by have := h.2; omega⟩)
      have hnat : (a + 1).toNat = a.toNat + 1 :=
        @add_toNat a (n + 1) 1 (by have := h.2; omega) (by omega)
      rw [read_each, show n + 1 = 1 + n by omega, ByteMap.load_add]
      refine hfirst.bind fun m₁ hm₁ _ => ?_
      have hin : Inside { seg with paged_memory := m₁ } (a + 1) n :=
        ⟨by dsimp only; have := h.1; omega, by dsimp only; have := h.2; omega⟩
      refine Reads.bind (ih (by exact hend) hm₁ hin) fun m₂ hm₂ _ => ?_
      have hone : load mem a 1 = [mem a] := by simp [load]
      rw [hone]
      exact .pure hm₂ _

omit [LawfulPagedMemory M] in
theorem locate_unaligned {w : U32} (hw : 0 < w.toNat)
    (hend : seg.start_address.toNat + seg.size.toNat < 2 ^ 32) (h : seg.Inside a w.toNat)
    (ha : a.toNat % w.toNat ≠ 0) : locate a w seg = .err .unalignedAddress seg := by
  obtain ⟨hlo, hhi⟩ := h
  have hsub : (seg.start_address + seg.size - w).toNat =
      seg.start_address.toNat + seg.size.toNat - w.toNat := by
    rw [BitVec.toNat_sub, end_toNat hend]
    omega
  have hbounds : ¬ (a < seg.start_address ∨ a > seg.start_address + seg.size - w) := by
    rw [not_or, BitVec.not_lt, gt_iff_lt, BitVec.not_lt, BitVec.le_def, BitVec.le_def, hsub]
    omega
  rw [locate, Exec.get_bind, Exec.reject_bind_neg hbounds, Exec.reject_bind_pos ha]

/-! ## The segment and the array -/

/-- The segment behaves as the bytes `mem`: what the accesses return, and what
it holds afterwards. -/
structure Bytewise (seg : MemorySegment M) (mem : U32 → U8) : Prop where
  byte : ∀ b, seg.Inside b 1 → Reads seg mem (read_u8 b) (mem b)
  write_buffer : ∀ a buffer, seg.Inside a buffer.length →
    Writes seg (store mem a buffer) (write_buffer a buffer)
  written : ∀ a buffer, seg.Inside a buffer.length → ∀ b, seg.Inside b 1 →
    ∃ m', (MemorySegment.write_buffer a buffer >>= fun _ => read_u8 b) seg =
      .ok (if a.toNat ≤ b.toNat ∧ b.toNat < a.toNat + buffer.length then
        buffer.getD (b.toNat - a.toNat) 0 else mem b) { seg with paged_memory := m' }
  read_buffer : ∀ a n, seg.Inside a n →
    ∃ bytes, Reads seg mem (read_buffer a n) bytes ∧ Reads seg mem (read_each n a) bytes
  half : ∀ a, seg.Inside a 2 → a.toNat % 2 = 0 →
    ∃ lo hi, Reads seg mem (read_u8 a) lo ∧ Reads seg mem (read_u8 (a + 1)) hi ∧
      Reads seg mem (read_u16 a) (hi ++ lo)
  word : ∀ a, seg.Inside a 4 → a.toNat % 4 = 0 →
    ∃ b₀ b₁ b₂ b₃, Reads seg mem (read_u8 a) b₀ ∧ Reads seg mem (read_u8 (a + 1)) b₁ ∧
      Reads seg mem (read_u8 (a + 2)) b₂ ∧ Reads seg mem (read_u8 (a + 3)) b₃ ∧
        Reads seg mem (read_u32 a) (b₃ ++ b₂ ++ b₁ ++ b₀)
  unaligned_half : ∀ a, seg.Inside a 2 → a.toNat % 2 ≠ 0 →
    read_u16 a seg = .err .unalignedAddress seg
  unaligned_word : ∀ a, seg.Inside a 4 → a.toNat % 4 ≠ 0 →
    read_u32 a seg = .err .unalignedAddress seg

omit [PagedMemory M] [LawfulPagedMemory M] in
/-- A byte of a range. -/
theorem Inside.byte (hend : seg.start_address.toNat + seg.size.toNat < 2 ^ 32)
    (h : seg.Inside a n) {k : ℕ} (hk : k < n) : seg.Inside (a + BitVec.ofNat 32 k) 1 := by
  obtain ⟨hlo, hhi⟩ := h
  have hnat := @add_toNat a n k (by omega) hk.le
  unfold Inside
  omega

theorem store_getD {buffer : Bytes} (hfit : a.toNat + buffer.length < 2 ^ 32) (b : U32) :
    store mem a buffer b = if a.toNat ≤ b.toNat ∧ b.toNat < a.toNat + buffer.length then
      buffer.getD (b.toNat - a.toNat) 0 else mem b := by
  split
  · next h =>
      have hsub : (b - a).toNat = b.toNat - a.toNat := by rw [BitVec.toNat_sub]; omega
      rw [store, hsub, List.getD_eq_getElem _ _ (by omega), List.getD_eq_getElem _ _ (by omega)]
  · next h => exact ByteMap.store_outside hfit.le (by omega)

/-- A segment that does not touch the top of the address space behaves as the
bytes it holds. -/
theorem bytewise (hend : seg.start_address.toNat + seg.size.toNat < 2 ^ 32)
    (hmem : seg.Holds mem) (hw : seg.Writable) : seg.Bytewise mem where
  byte b h := read_u8_ok hmem (h.spans hend)
  write_buffer a buffer h := write_buffer_writes hend hmem hw h
  written a buffer h b hb := by
    obtain ⟨m', hrun⟩ := (write_buffer_writes hend hmem hw h).bind (f := fun _ => read_u8 b)
      fun m' hm' _ => read_u8_ok hm' (hb.spans hend)
    refine ⟨m', hrun.trans ?_⟩
    rw [store_getD (by have := h.2; omega)]
  read_buffer a n h := ⟨_, read_buffer_reads hend hmem h, read_each_reads n hend hmem h⟩
  half a h ha :=
    ⟨mem a, mem (a + 1), read_u8_ok hmem (Inside.spans hend ⟨h.1, by have := h.2; omega⟩),
      read_u8_ok hmem (Inside.spans hend (h.byte hend (show 1 < 2 by omega))),
      read_u16_ok hmem ha (h.spans hend)⟩
  word a h ha :=
    ⟨mem a, mem (a + 1), mem (a + 2), mem (a + 3),
      read_u8_ok hmem (Inside.spans hend ⟨h.1, by have := h.2; omega⟩),
      read_u8_ok hmem (Inside.spans hend (h.byte hend (show 1 < 4 by omega))),
      read_u8_ok hmem (Inside.spans hend (h.byte hend (show 2 < 4 by omega))),
      read_u8_ok hmem (Inside.spans hend (h.byte hend (show 3 < 4 by omega))),
      read_u32_ok hmem ha (h.spans hend)⟩
  unaligned_half a h ha := by
    rw [read_u16, Exec.bind_apply_err (locate_unaligned (by decide) hend h ha)]
  unaligned_word a h ha := by
    rw [read_u32, Exec.bind_apply_err (locate_unaligned (by decide) hend h ha)]

/-- A segment across a page boundary. -/
theorem bytewise_128 : ∃ seg, new 128 256 (VecMemory.new 2) = .ok seg ∧ seg.Bytewise seg.bytes := by
  refine ⟨{ start_address := 128, size := 256, paged_memory := VecMemory.new 2 }, rfl,
    bytewise (by decide) (Backed.holds fun a ha => ?_) trivial⟩
  obtain ⟨hlo, hhi⟩ := contains_iff.mp ha
  have hlo' : 128 ≤ a.toNat := hlo
  have hhi' : a.toNat < 384 := hhi
  rw [page_index_toNat hlo]
  show (a.toNat - 128 / 256 * 256) / 256 < (List.replicate 2 _).length
  rw [List.length_replicate]
  omega

/-- Two bytes can be read one by one where they cannot be read at once. -/
theorem read_u16_refused_at_1 : ∃ seg, new 0 256 (VecMemory.new 1) = .ok seg ∧ seg.Inside 1 2 ∧
    (∃ s, read_u8 1 seg = .ok 0 s) ∧ (∃ s, read_u8 2 seg = .ok 0 s) ∧
      read_u16 1 seg = .err .unalignedAddress seg := by
  refine ⟨{ start_address := 0, size := 256, paged_memory := VecMemory.new 1 }, rfl,
    ⟨by decide, by decide⟩, ⟨_, rfl⟩, ⟨_, rfl⟩, rfl⟩

end MemorySegment

end Vanadium
