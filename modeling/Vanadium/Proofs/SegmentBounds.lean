import Vanadium.Common.CheckedMemory
import Vanadium.Proofs.SegmentBuffers

/-!
# The bounds of a segment

A segment should answer for exactly the ranges that lie in it. Its checks are
written with `u32` sums and differences that are exact for most segments: the
end of one that reaches the top of the address space wraps to zero, and in one
that ends below address 4 the last address of a word lies below zero and wraps
to the top. Everywhere else the checks say what they should, and a build that
checks its arithmetic computes the same.
-/

namespace Vanadium

open Lib
open Lib.ByteMap (load store)

namespace MemorySegment

variable {M : Type} {seg : MemorySegment M} {a w : U32} {n : ℕ}

/-- A call returned where it may, and was refused where it may not. -/
structure Answers {α : Type} (seg : MemorySegment M) (allowed : Prop)
    (access : Exec MemoryError (MemorySegment M) α) : Prop where
  returns : allowed → ∃ v seg', access seg = .ok v seg'
  refuses : ¬ allowed → ∃ e, access seg = .err e seg

/-- There is a page for every address of the segment. -/
def Served [PagedMemory M] [LawfulPagedMemory M] (seg : MemorySegment M) : Prop :=
  ∃ n cur, LawfulPagedMemory.Holds seg.paged_memory n cur ∧
    ∀ a, seg.Inside a 1 → (seg.page_index a).toNat < n

/-- The segment answers for exactly the ranges that lie in it, and no address
it computes wraps: a build with overflow checks computes the same. -/
structure Exact [PagedMemory M] (seg : MemorySegment M) : Prop where
  contains : ∀ a, seg.contains a = true ↔ seg.Inside a 1
  read_u8 : ∀ a, Answers seg (seg.Inside a 1) (read_u8 a)
  read_u16 : ∀ a, Answers seg (seg.Inside a 2 ∧ a.toNat % 2 = 0) (read_u16 a)
  read_u32 : ∀ a, Answers seg (seg.Inside a 4 ∧ a.toNat % 4 = 0) (read_u32 a)
  write_u8 : ∀ a v, Answers seg (seg.Inside a 1) (write_u8 a v)
  write_u16 : ∀ a v, Answers seg (seg.Inside a 2 ∧ a.toNat % 2 = 0) (write_u16 a v)
  write_u32 : ∀ a v, Answers seg (seg.Inside a 4 ∧ a.toNat % 4 = 0) (write_u32 a v)
  read_buffer : ∀ a (len : U32), Answers seg (seg.Inside a len.toNat) (read_buffer a len.toNat)
  write_buffer : ∀ a buffer, buffer.length < 2 ^ 32 →
    Answers seg (seg.Inside a buffer.length) (write_buffer a buffer)
  contains_checked : ∀ a, Checked.contains a seg = .ok (seg.contains a) seg
  locate_checked : ∀ a, ∀ w ∈ [1, 2, 4], Checked.locate a w seg = locate a w seg
  read_buffer_checked : ∀ a (len : U32),
    Checked.read_buffer a len.toNat seg = MemorySegment.read_buffer a len.toNat seg
  write_buffer_checked : ∀ a buffer, buffer.length < 2 ^ 32 →
    Checked.write_buffer a buffer seg = MemorySegment.write_buffer a buffer seg

/-- The end of the segment is an address, and a word below it begins at one. -/
structure Roomy (seg : MemorySegment M) : Prop where
  low : 4 ≤ seg.start_address.toNat + seg.size.toNat
  high : seg.start_address.toNat + seg.size.toNat < 2 ^ 32

namespace Roomy

/-- The last address at which an access of `w` bytes may begin. -/
theorem last_toNat (h : seg.Roomy) (hw : w.toNat ≤ 4) :
    (seg.start_address + seg.size - w).toNat =
      seg.start_address.toNat + seg.size.toNat - w.toNat := by
  have := h.low
  have := h.high
  rw [BitVec.toNat_sub, end_toNat h.high]
  omega

theorem locate_outside [PagedMemory M] (h : seg.Roomy) (hw : w.toNat ≤ 4)
    (hout : ¬ seg.Inside a w.toNat) : locate a w seg = .err .addressOutOfBounds seg := by
  have hlow := h.low
  have hbounds : a < seg.start_address ∨ a > seg.start_address + seg.size - w := by
    rw [gt_iff_lt, BitVec.lt_def, BitVec.lt_def, h.last_toNat hw]
    unfold Inside at hout
    omega
  rw [locate, Exec.get_bind, Exec.reject_bind_pos hbounds]

theorem locate_refuses [PagedMemory M] (h : seg.Roomy) (hpos : 0 < w.toNat) (hw : w.toNat ≤ 4)
    (hout : ¬ (seg.Inside a w.toNat ∧ a.toNat % w.toNat = 0)) :
    ∃ e, locate a w seg = .err e seg := by
  by_cases hin : seg.Inside a w.toNat
  · exact ⟨_, locate_unaligned hpos h.high hin fun ha => hout ⟨hin, ha⟩⟩
  · exact ⟨_, h.locate_outside hw hin⟩

/-- An access is answered if it succeeds where it should. -/
theorem answers [PagedMemory M] {α : Type} (h : seg.Roomy) (hpos : 0 < w.toNat)
    (hw : w.toNat ≤ 4) {f : PagedMemory.PageRef M × ℕ → Exec MemoryError (MemorySegment M) α}
    (hok : seg.Inside a w.toNat → a.toNat % w.toNat = 0 →
      ∃ v seg', (locate a w >>= f) seg = .ok v seg') :
    Answers seg (seg.Inside a w.toNat ∧ a.toNat % w.toNat = 0) (locate a w >>= f) where
  returns hin := hok hin.1 hin.2
  refuses hout := by
    obtain ⟨e, he⟩ := h.locate_refuses hpos hw hout
    exact ⟨e, Exec.bind_apply_err he⟩

theorem check_range_outside (h : seg.Roomy) (hn : n < 2 ^ 32) (hout : ¬ seg.Inside a n) :
    ∃ e, check_range a n seg = .err e seg := by
  have hnat : (BitVec.ofNat 32 n).toNat = n := by
    rw [BitVec.toNat_ofNat, Nat.mod_eq_of_lt hn]
  rw [check_range, Exec.get_bind]
  by_cases hwrap : a.toNat + (BitVec.ofNat 32 n).toNat ≥ 2 ^ 32
  · exact ⟨_, Exec.reject_bind_pos hwrap⟩
  · rw [Exec.reject_bind_neg hwrap]
    refine ⟨.addressOutOfBounds, ?_⟩
    rw [Exec.reject, if_pos]
    · rfl
    · have hend := end_toNat h.high
      rw [gt_iff_lt, BitVec.lt_def, BitVec.lt_def, hend, BitVec.toNat_add, hnat,
        Nat.mod_eq_of_lt (by omega)]
      unfold Inside at hout
      omega

theorem contains_iff (h : seg.Roomy) : seg.contains a = true ↔ seg.Inside a 1 := by
  rw [MemorySegment.contains_iff, end_toNat h.high]
  unfold Inside
  omega

/-- The bytes in the pages. -/
theorem holds [PagedMemory M] [LawfulPagedMemory M] (h : seg.Roomy) (hs : seg.Served) :
    ∃ mem, seg.Holds mem := by
  obtain ⟨n, cur, hcur, hpages⟩ := hs
  exact ⟨fun b => (cur (seg.page_index b)).toList.getD (seg.offset b) 0, n, cur, hcur,
    fun b hb => ⟨hpages b (h.contains_iff.mp hb), rfl⟩⟩

end Roomy

/-! ## Checked arithmetic -/

namespace Checked

variable {x y : U32}

theorem plus_bind {α : Type} {f : U32 → Exec MemoryError (MemorySegment M) α}
    (h : x.toNat + y.toNat < 2 ^ 32) : (plus x y >>= f) seg = f (x + y) seg := by
  rw [plus, Exec.bind_bind, Exec.assert_bind_pos h]
  rfl

theorem minus_bind {α : Type} {f : U32 → Exec MemoryError (MemorySegment M) α}
    (h : y.toNat ≤ x.toNat) : (minus x y >>= f) seg = f (x - y) seg := by
  rw [minus, Exec.bind_bind, Exec.assert_bind_pos h]
  rfl

theorem contains_eq (h : seg.Roomy) (a : U32) : contains a seg = .ok (seg.contains a) seg := by
  rw [contains, Exec.get_bind, MemorySegment.contains]
  split
  · next hlt =>
      have hge : ¬ a ≥ seg.start_address := BitVec.not_le.mpr hlt
      simp [hge]
  · next hge =>
      have hge' : a ≥ seg.start_address := BitVec.not_lt.mp hge
      rw [plus_bind h.high]
      simp [hge']

theorem page_start_le : (page_start a).toNat ≤ a.toNat := by
  rw [page_start_toNat]
  omega

/-- The relative address of what is not below the segment. -/
theorem relative_bind {α : Type} {f : U32 → Exec MemoryError (MemorySegment M) α}
    (h : seg.start_address.toNat ≤ a.toNat) :
    (minus a (page_start seg.start_address) >>= f) seg =
      f (a - page_start seg.start_address) seg :=
  minus_bind (page_start_le.trans h)

theorem locate_eq [PagedMemory M] (h : seg.Roomy) (hw : w.toNat ≤ 4) : locate a w seg =
    MemorySegment.locate a w seg := by
  rw [locate, MemorySegment.locate, Exec.get_bind, Exec.get_bind]
  by_cases hlt : a < seg.start_address
  · rw [Exec.reject_bind_pos hlt, Exec.reject_bind_pos (.inl hlt)]
  · have hlow := h.low
    rw [Exec.reject_bind_neg hlt, plus_bind h.high,
      minus_bind (by rw [end_toNat h.high]; omega)]
    by_cases hgt : a > seg.start_address + seg.size - w
    · rw [Exec.reject_bind_pos hgt, Exec.reject_bind_pos (.inr hgt)]
    · rw [Exec.reject_bind_neg hgt, Exec.reject_bind_neg (not_or.mpr ⟨hlt, hgt⟩)]
      refine Exec.bind_congr_ok fun _ seg' hal => ?_
      obtain ⟨-, rfl⟩ := Exec.reject_ok.mp hal
      rw [relative_bind (BitVec.not_lt.mp hlt)]
      rfl

theorem check_range_eq (h : seg.Roomy) : check_range a n seg = MemorySegment.check_range a n seg := by
  rw [check_range, MemorySegment.check_range, Exec.get_bind, Exec.get_bind]
  refine Exec.bind_congr_ok fun _ seg' hwrap => ?_
  obtain ⟨-, rfl⟩ := Exec.reject_ok.mp hwrap
  by_cases hlt : a < seg'.start_address
  · rw [Exec.reject_bind_pos hlt, Exec.reject, if_pos (.inl hlt)]
    rfl
  · rw [Exec.reject_bind_neg hlt, plus_bind h.high]
    by_cases hgt : a + BitVec.ofNat 32 n > seg'.start_address + seg'.size
    · rw [Exec.reject, if_pos hgt, Exec.reject, if_pos (.inr hgt)]
    · rw [Exec.reject, if_neg hgt, Exec.reject, if_neg (not_or.mpr ⟨hlt, hgt⟩)]

theorem read_buffer_loop_eq [PagedMemory M] : ∀ (fuel : ℕ) {cur : U32} {remaining : ℕ}
    {buffer : Bytes} {seg : MemorySegment M}, seg.Roomy → seg.start_address.toNat ≤ cur.toNat →
    cur.toNat + remaining ≤ seg.start_address.toNat + seg.size.toNat →
      read_buffer.loop fuel cur remaining buffer seg =
        MemorySegment.read_buffer.loop fuel cur remaining buffer seg := by
  intro fuel
  induction fuel with
  | zero =>
      intro cur remaining buffer seg _ _ _
      rfl
  | succ fuel ih =>
      intro cur remaining buffer seg h hlo hhi
      have hhigh := h.high
      rw [read_buffer.loop, MemorySegment.read_buffer.loop]
      split
      · rfl
      · next hpos =>
          rw [Exec.get_bind, Exec.get_bind, relative_bind hlo]
          refine Exec.bind_congr_ok fun page seg₁ hget => ?_
          obtain ⟨m', -, rfl⟩ := Exec.zoom_ok.mp hget
          refine Exec.bind_congr_ok fun bytes seg₂ hread => ?_
          obtain ⟨-, rfl, -⟩ := read_page_inv hread
          have hnat := @add_toNat cur remaining _ (by omega)
            (Nat.min_le_right (PAGE_SIZE - seg.offset cur) remaining)
          rw [← MemorySegment.offset, plus_bind (by rw [BitVec.toNat_add] at hnat; omega)]
          exact ih ⟨h.low, h.high⟩ (by dsimp only; omega) (by dsimp only; omega)

theorem write_buffer_loop_eq [PagedMemory M] : ∀ (fuel : ℕ) {cur : U32} {buffer : Bytes}
    {seg : MemorySegment M}, seg.Roomy → seg.start_address.toNat ≤ cur.toNat →
    cur.toNat + buffer.length ≤ seg.start_address.toNat + seg.size.toNat →
      write_buffer.loop fuel cur buffer seg =
        MemorySegment.write_buffer.loop fuel cur buffer seg := by
  intro fuel
  induction fuel with
  | zero =>
      intro cur buffer seg _ _ _
      rfl
  | succ fuel ih =>
      intro cur buffer seg h hlo hhi
      have hhigh := h.high
      rw [write_buffer.loop, MemorySegment.write_buffer.loop]
      split
      · rfl
      · next hpos =>
          rw [Exec.get_bind, Exec.get_bind, relative_bind hlo]
          refine Exec.bind_congr_ok fun page seg₁ hget => ?_
          obtain ⟨m', -, rfl⟩ := Exec.zoom_ok.mp hget
          refine Exec.bind_congr_ok fun _ seg₂ hwrite => ?_
          obtain ⟨-, rfl⟩ := write_page_inv hwrite
          have hnat := @add_toNat cur buffer.length _ (by omega)
            (Nat.min_le_right (PAGE_SIZE - seg.offset cur) buffer.length)
          rw [← MemorySegment.offset, plus_bind (by rw [BitVec.toNat_add] at hnat; omega)]
          exact ih ⟨h.low, h.high⟩ (by dsimp only; omega)
            (by rw [List.length_drop]; dsimp only; omega)

end Checked

/-! ## When the bounds are exact -/

variable [PagedMemory M]

theorem Reads.returns [LawfulPagedMemory M] {α : Type} {mem : U32 → U8} {v : α}
    {access : Exec MemoryError (MemorySegment M) α} (h : Reads seg mem access v) :
    ∃ v seg', access seg = .ok v seg' := by
  obtain ⟨m', hrun, -⟩ := h
  exact ⟨v, _, hrun⟩

theorem Writes.returns [LawfulPagedMemory M] {mem : U32 → U8}
    {access : Exec MemoryError (MemorySegment M) Unit} (h : Writes seg mem access) :
    ∃ v seg', access seg = .ok v seg' := by
  obtain ⟨m', hrun, -⟩ := h
  exact ⟨(), _, hrun⟩

omit [PagedMemory M] in
/-- Every byte is at an address of its alignment. -/
theorem Answers.of_byte {α : Type} {access : Exec MemoryError (MemorySegment M) α}
    (h : Answers seg (seg.Inside a 1 ∧ a.toNat % 1 = 0) access) :
    Answers seg (seg.Inside a 1) access where
  returns hin := h.returns ⟨hin, Nat.mod_one _⟩
  refuses hout := h.refuses fun hin => hout hin.1

omit [PagedMemory M] in
/-- A range is looked at page by page once it passed the check. -/
theorem Roomy.answers_range {α : Type} (h : seg.Roomy) (hn : n < 2 ^ 32)
    {loop : Unit → Exec MemoryError (MemorySegment M) α}
    (hok : seg.Inside a n → ∃ v seg', (check_range a n >>= loop) seg = .ok v seg') :
    Answers seg (seg.Inside a n) (check_range a n >>= loop) where
  returns := hok
  refuses hout := by
    obtain ⟨e, he⟩ := h.check_range_outside hn hout
    exact ⟨e, Exec.bind_apply_err he⟩

theorem Roomy.exact [LawfulPagedMemory M] (h : seg.Roomy) (hs : seg.Served)
    (hw : seg.Writable) : seg.Exact := by
  obtain ⟨mem, hmem⟩ := h.holds hs
  have hspans {a : U32} {n : ℕ} (hin : seg.Inside a n) : seg.Spans a n := hin.spans h.high
  exact {
    contains := fun a => h.contains_iff
    read_u8 := fun a => .of_byte <| h.answers (w := 1) (by decide) (by decide)
      fun hin _ => (read_u8_ok hmem (hspans hin)).returns
    read_u16 := fun a => h.answers (w := 2) (by decide) (by decide)
      fun hin ha => (read_u16_ok hmem ha (hspans hin)).returns
    read_u32 := fun a => h.answers (w := 4) (by decide) (by decide)
      fun hin ha => (read_u32_ok hmem ha (hspans hin)).returns
    write_u8 := fun a v => .of_byte <| h.answers (w := 1) (by decide) (by decide)
      fun hin _ => (write_u8_ok hmem hw (hspans hin) v).returns
    write_u16 := fun a v => h.answers (w := 2) (by decide) (by decide)
      fun hin ha => (write_u16_ok hmem hw ha (hspans hin) v).returns
    write_u32 := fun a v => h.answers (w := 4) (by decide) (by decide)
      fun hin ha => (write_u32_ok hmem hw ha (hspans hin) v).returns
    read_buffer := fun a len => h.answers_range len.isLt
      fun hin => (read_buffer_reads h.high hmem hin).returns
    write_buffer := fun a buffer hlen => h.answers_range hlen
      fun hin => (write_buffer_writes h.high hmem hw hin).returns
    contains_checked := Checked.contains_eq h
    locate_checked := fun a w hmem => Checked.locate_eq h (by
      simp only [List.mem_cons, List.not_mem_nil, or_false] at hmem
      rcases hmem with rfl | rfl | rfl <;> decide)
    read_buffer_checked := fun a len => by
      rw [Checked.read_buffer, read_buffer]
      rw [Exec.bind_congr_left (Checked.check_range_eq h)]
      refine Exec.bind_congr_ok fun _ seg' hcheck => ?_
      obtain ⟨rfl, -, hlo, hhi⟩ := (check_range_ok len.isLt).mp hcheck
      exact Checked.read_buffer_loop_eq _ h hlo (by rwa [end_toNat h.high] at hhi)
    write_buffer_checked := fun a buffer hlen => by
      rw [Checked.write_buffer, write_buffer]
      rw [Exec.bind_congr_left (Checked.check_range_eq h)]
      refine Exec.bind_congr_ok fun _ seg' hcheck => ?_
      obtain ⟨rfl, -, hlo, hhi⟩ := (check_range_ok hlen).mp hcheck
      exact Checked.write_buffer_loop_eq _ h hlo (by rwa [end_toNat h.high] at hhi) }

/-- In a segment that ends below address 4 the last address of a word does not exist. -/
theorem Checked.locate_panics (hhigh : seg.start_address.toNat + seg.size.toNat < 2 ^ 32)
    (hlow : seg.start_address.toNat + seg.size.toNat < 4) :
    Checked.locate seg.start_address 4 seg = .stop .panic seg := by
  have hend : ¬ (4 : U32).toNat ≤ (seg.start_address + seg.size).toNat := by
    rw [end_toNat hhigh]
    exact Nat.not_le_of_lt hlow
  rw [Checked.locate, Exec.get_bind, Exec.reject_bind_neg (BitVec.lt_irrefl _),
    Checked.plus_bind hhigh, Checked.minus, Exec.bind_bind]
  refine Exec.bind_apply_stop ?_
  rw [Exec.assert, if_neg hend]
  rfl

theorem Exact.roomy (h : seg.Exact) (hsize : 0 < seg.size.toNat)
    (htop : seg.start_address.toNat + seg.size.toNat ≤ 2 ^ 32) : seg.Roomy := by
  have hhigh : seg.start_address.toNat + seg.size.toNat < 2 ^ 32 := by
    -- the first address is in the segment, and so below its end
    have hfirst := contains_iff.mp ((h.contains seg.start_address).mpr ⟨Nat.le_refl _, by omega⟩)
    have hend : (seg.start_address + seg.size).toNat =
        (seg.start_address.toNat + seg.size.toNat) % 2 ^ 32 := BitVec.toNat_add _ _
    omega
  refine ⟨?_, hhigh⟩
  by_contra hlow
  have hword : ¬ (seg.Inside seg.start_address 4 ∧ seg.start_address.toNat % 4 = 0) := by
    rintro ⟨⟨-, hin⟩, -⟩
    omega
  obtain ⟨e, he⟩ := (h.read_u32 seg.start_address).refuses hword
  have hpanic := (h.locate_checked seg.start_address 4 (by simp)).symm.trans
    (Checked.locate_panics hhigh (by omega))
  rw [MemorySegment.read_u32, Exec.bind_apply_stop hpanic] at he
  cases he

/-- A segment answers for exactly its ranges, and computes their addresses
without wrapping, if and only if it ends above its words and below the top. -/
theorem exact_iff [LawfulPagedMemory M] {start size : U32} {m : M}
    (hnew : new start size m = .ok seg) (hs : seg.Served) (hw : seg.Writable) :
    seg.Exact ↔ 4 ≤ start.toNat + size.toNat ∧ start.toNat + size.toNat < 2 ^ 32 := by
  rw [new] at hnew
  split at hnew
  · cases hnew
  split at hnew
  · cases hnew
  split at hnew
  · cases hnew
  next hzero _ htop =>
    cases hnew
    have hpos : 0 < size.toNat := Nat.pos_of_ne_zero fun h0 => hzero (BitVec.eq_of_toNat_eq h0)
    have hpred : (size - 1).toNat = size.toNat - 1 := by
      rw [BitVec.toNat_sub_of_le (by rw [BitVec.le_def]; exact hpos)]
      rfl
    constructor
    · intro h
      have hroomy := h.roomy hpos (by dsimp only; omega)
      exact ⟨hroomy.low, hroomy.high⟩
    · rintro ⟨hlow, hhigh⟩
      exact Roomy.exact ⟨hlow, hhigh⟩ hs hw

theorem exact_iff_page : ∃ seg, new 0 256 (VecMemory.new 1) = .ok seg ∧
    (seg.Exact ↔ 4 ≤ (0 : U32).toNat + (256 : U32).toNat ∧
      (0 : U32).toNat + (256 : U32).toNat < 2 ^ 32) := by
  refine ⟨{ start_address := 0, size := 256, paged_memory := VecMemory.new 1 }, rfl,
    exact_iff rfl ⟨1, fun _ => Vector.replicate PAGE_SIZE 0, fun i hi => ?_, fun a ha => ?_⟩ trivial⟩
  · rw [Nat.lt_one_iff.mp hi]
    rfl
  · obtain ⟨hlo, hhi⟩ := ha
    have hhi' : a.toNat + 1 ≤ 256 := hhi
    rw [page_index_toNat hlo]
    show (a.toNat - 0 / 256 * 256) / 256 < 1
    omega

/-- A word is read from a segment of one byte, and the segment of the topmost
page does not contain its own first address. -/
theorem inexact_bounds :
    (∃ seg s, new 0 1 (VecMemory.new 1) = .ok seg ∧ ¬ seg.Inside 0 4 ∧
      read_u32 0 seg = .ok 0 s) ∧
    ∃ seg, new 0xFFFFFF00 256 (VecMemory.new 1) = .ok seg ∧ seg.Inside 0xFFFFFF00 1 ∧
      seg.contains 0xFFFFFF00 = false :=
  ⟨⟨{ start_address := 0, size := 1, paged_memory := VecMemory.new 1 }, _, rfl,
      fun h => absurd h.2 (by decide), rfl⟩,
    { start_address := 0xFFFFFF00, size := 256, paged_memory := VecMemory.new 1 }, rfl,
    ⟨by decide, by decide⟩, rfl⟩

end MemorySegment

end Vanadium
