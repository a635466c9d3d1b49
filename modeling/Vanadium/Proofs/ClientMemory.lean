import Vanadium.Client.Memory
import Vanadium.Proofs.Accumulator

/-!
# The client's segments have the pages the manifest announces

The manifest's page count is a formula over the segment's bounds and the
client's is the length of a loop; they agree, and the loop's pages are whole.
-/

namespace Vanadium

open Lib

theorem le_checked_next_power_of_two (n : ℕ) : n ≤ checked_next_power_of_two n :=
  Nat.le_pow_clog (by omega) n

theorem Manifest.n_pages_toNat {start end_ : U32} (h : start < end_) :
    (Manifest.n_pages start end_).toNat =
      (end_.toNat - 1) / 256 - start.toNat / 256 + 1 := by
  have h' : start.toNat < end_.toNat := h
  have := end_.isLt
  have h1 : (1 : U32).toNat = 1 := rfl
  have he : (end_ - 1).toNat = end_.toNat - 1 := by
    rw [BitVec.toNat_sub, h1]
    omega
  unfold n_pages
  rw [BitVec.toNat_add, BitVec.toNat_udiv, BitVec.toNat_sub, page_start_toNat,
    page_start_toNat, he, PAGE_SIZE_toNat, h1]
  omega

namespace Client.MemorySegment

section
variable {start end_ : U32} {data : Bytes}

/-- A turn of the loop makes one page, with the data at its addresses. A turn that
would run past the end of the address space panics. -/
theorem pages_turn (hend : end_.toNat = start.toNat + data.length) {fuel : ℕ} {cur : U32}
    {ps : List Bytes} (hcur : start.toNat ≤ cur.toNat) (hlt : cur.toNat < end_.toNat)
    (h : pages start end_ data (fuel + 1) cur = some ps) :
    ∃ (next : U32) (page : Page) (rest : List Bytes),
      next.toNat = cur.toNat / 256 * 256 + 256 ∧ pages start end_ data fuel next = some rest ∧
      ps = get_serialized_page page.toList none :: rest ∧
      ∀ a, cur.toNat ≤ a → a < next.toNat → a < end_.toNat →
        page.toList.getD (a % 256) 0 = data.getD (a - start.toNat) 0 := by
  have := end_.isLt
  have hcur' := cur.isLt
  rw [pages, if_neg (show ¬ cur ≥ end_ from Nat.not_le.mpr hlt)] at h
  simp only at h
  obtain ⟨next, hnext⟩ : ∃ next, next = page_start cur + BitVec.ofNat 32 PAGE_SIZE := ⟨_, rfl⟩
  obtain ⟨stop, hstop⟩ : ∃ stop, stop = if next ≤ end_ then next else end_ := ⟨_, rfl⟩
  rw [← hnext, ← hstop] at h
  cases hslice : slice data (cur - start).toNat (stop - start).toNat with
  | none => rw [hslice] at h; cases h
  | some content =>
      rw [hslice] at h
      obtain ⟨rest, hrest, rfl⟩ := Option.map_eq_some_iff.mp h
      rw [slice] at hslice
      split at hslice
      · next hrange =>
          cases hslice
          have hpage : (page_start cur).toNat = cur.toNat / 256 * 256 := page_start_toNat cur
          have hoff : (cur - page_start cur).toNat = cur.toNat % 256 := by
            rw [BitVec.toNat_sub, hpage]
            omega
          rw [BitVec.toNat_sub, BitVec.toNat_sub] at hrange
          have hnext' : next.toNat = cur.toNat / 256 * 256 + 256 := by
            rw [hnext, BitVec.toNat_add, page_start_toNat, PAGE_SIZE_toNat]
            refine Nat.mod_eq_of_lt ?_
            by_contra hover
            -- the next page would start at 0, and the slice to it is out of range
            have hzero : next = 0 := by
              refine BitVec.eq_of_toNat_eq ?_
              have h0 : (0 : U32).toNat = 0 := rfl
              rw [hnext, BitVec.toNat_add, page_start_toNat, PAGE_SIZE_toNat, h0]
              omega
            have hle : (0 : U32) ≤ end_ := Nat.zero_le _
            have h0 : (0 : U32).toNat = 0 := rfl
            rw [hstop, hzero, if_pos hle, h0] at hrange
            omega
          have hstop' : stop.toNat = min next.toNat end_.toNat := by
            rw [hstop]
            split
            · next hle =>
                have hle' : next.toNat ≤ end_.toNat := hle
                omega
            · next hgt =>
                have hgt' : end_.toNat < next.toNat := Nat.lt_of_not_le hgt
                omega
          have hstop'' : (stop - start).toNat = stop.toNat - start.toNat := by
            rw [BitVec.toNat_sub]
            omega
          have hfirst : (cur - start).toNat = cur.toNat - start.toNat := by
            rw [BitVec.toNat_sub]
            omega
          have hrem : (next - stop).toNat = next.toNat - stop.toNat := by
            rw [BitVec.toNat_sub]
            omega
          obtain ⟨content, hcontent⟩ : ∃ content, content =
              List.replicate (cur - page_start cur).toNat 0 ++
              (data.drop (cur - start).toNat).take ((stop - start).toNat - (cur - start).toNat) ++
                List.replicate (next - stop).toNat 0 := ⟨_, rfl⟩
          have hlen : content.length = PAGE_SIZE := by
            have hsize : PAGE_SIZE = 256 := rfl
            rw [hcontent]
            simp only [List.length_append, List.length_replicate, List.length_take,
              List.length_drop]
            omega
          refine ⟨next, array content 0 PAGE_SIZE, rest, hnext', hrest, ?_, ?_⟩
          · rw [array_toList_of_length hlen, hcontent]
          · intro a ha1 ha2 ha3
            rw [array_toList_of_length hlen, hcontent, List.append_assoc,
              List.getD_append_right _ _ _ _ (by rw [List.length_replicate, hoff]; omega),
              List.length_replicate, hoff, List.getD_append _ _ _ _ (by
                rw [List.length_take, List.length_drop]; omega),
              List.getD_eq_getElem?_getD, List.getD_eq_getElem?_getD,
              List.getElem?_take_of_lt (by omega), List.getElem?_drop, hfirst]
            congr 2
            omega
      · cases hslice

/-- What holds of no pages, and of one page more, holds of the pages of the loop. -/
theorem pages_induct (hend : end_.toNat = start.toNat + data.length)
    {motive : U32 → List Bytes → Prop}
    (done : ∀ cur : U32, end_.toNat ≤ cur.toNat → motive cur [])
    (turn : ∀ (cur next : U32) (page : Page) (rest : List Bytes), start.toNat ≤ cur.toNat →
      cur.toNat < end_.toNat → next.toNat = cur.toNat / 256 * 256 + 256 →
      (∀ a, cur.toNat ≤ a → a < next.toNat → a < end_.toNat →
        page.toList.getD (a % 256) 0 = data.getD (a - start.toNat) 0) →
      motive next rest → motive cur (get_serialized_page page.toList none :: rest)) :
    ∀ {fuel : ℕ} {cur : U32} {ps : List Bytes}, start.toNat ≤ cur.toNat →
      pages start end_ data fuel cur = some ps → motive cur ps := by
  intro fuel
  induction fuel with
  | zero =>
      intro cur ps _ h
      rw [pages] at h
      split at h
      · next hge =>
          cases h
          exact done cur hge
      · cases h
  | succ fuel ih =>
      intro cur ps hcur h
      by_cases hlt : cur.toNat < end_.toNat
      · obtain ⟨next, page, rest, hnext, hrest, rfl, hbytes⟩ := pages_turn hend hcur hlt h
        exact turn cur next page rest hcur hlt hnext hbytes (ih (by omega) hrest)
      · rw [pages, if_pos (show cur ≥ end_ from Nat.le_of_not_lt hlt)] at h
        cases h
        exact done cur (Nat.le_of_not_lt hlt)

variable {fuel : ℕ} {cur : U32} {ps : List Bytes}

/-- Every page is one in the clear. -/
theorem pages_record (hend : end_.toNat = start.toNat + data.length)
    (hcur : start.toNat ≤ cur.toNat) (h : pages start end_ data fuel cur = some ps) :
    ∀ x ∈ ps, ∃ page : Page, x = get_serialized_page page.toList none := by
  refine pages_induct hend (motive := fun _ ps => ∀ x ∈ ps, ∃ page : Page,
    x = get_serialized_page page.toList none)
    (fun _ _ x hx => absurd hx List.not_mem_nil) (fun _ _ page _ _ _ _ _ ih x hx => ?_) hcur h
  rcases List.mem_cons.mp hx with rfl | hx
  · exact ⟨page, rfl⟩
  · exact ih x hx

/-- One page for every page the data touches. -/
theorem pages_length (hend : end_.toNat = start.toNat + data.length)
    (hcur : start.toNat ≤ cur.toNat) (h : pages start end_ data fuel cur = some ps) :
    ps.length = if cur.toNat < end_.toNat then
      (end_.toNat - 1) / 256 - cur.toNat / 256 + 1 else 0 := by
  refine pages_induct hend (motive := fun cur ps => ps.length = if cur.toNat < end_.toNat then
    (end_.toNat - 1) / 256 - cur.toNat / 256 + 1 else 0) ?_ ?_ hcur h
  · intro cur hge
    rw [if_neg (by omega)]
    rfl
  · intro cur next page rest _ hlt hnext _ ih
    rw [List.length_cons, ih, hnext, if_pos hlt]
    split <;> omega

/-- The last page of the address space is not reached. -/
theorem pages_end (hend : end_.toNat = start.toNat + data.length)
    (hcur : start.toNat ≤ cur.toNat) (h : pages start end_ data fuel cur = some ps) :
    cur.toNat < end_.toNat → end_.toNat ≤ 2 ^ 32 - PAGE_SIZE := by
  refine pages_induct hend (motive := fun cur _ => cur.toNat < end_.toNat →
    end_.toNat ≤ 2 ^ 32 - PAGE_SIZE) (fun cur hge hlt => by omega) ?_ hcur h
  intro cur next page rest _ hlt hnext _ ih _
  have hsize : PAGE_SIZE = 256 := rfl
  have hnext' := next.isLt
  by_cases hmore : next.toNat < end_.toNat
  · exact ih hmore
  · omega

/-- The byte of an address is in the page the address is in. -/
theorem pages_getD (hend : end_.toNat = start.toNat + data.length)
    (hcur : start.toNat ≤ cur.toNat) (h : pages start end_ data fuel cur = some ps) :
    ∀ a, cur.toNat ≤ a → a < end_.toNat →
      ∃ page : Page, ps[a / 256 - cur.toNat / 256]? = some (get_serialized_page page.toList none) ∧
        page.toList.getD (a % 256) 0 = data.getD (a - start.toNat) 0 := by
  refine pages_induct hend (motive := fun cur ps => ∀ a, cur.toNat ≤ a → a < end_.toNat →
    ∃ page : Page, ps[a / 256 - cur.toNat / 256]? = some (get_serialized_page page.toList none) ∧
      page.toList.getD (a % 256) 0 = data.getD (a - start.toNat) 0)
    (fun cur hge a ha ha' => by omega) ?_ hcur h
  intro cur next page rest _ hlt hnext hbytes ih a ha ha'
  by_cases hfirst : a < next.toNat
  · refine ⟨page, ?_, hbytes a ha hfirst ha'⟩
    rw [show a / 256 - cur.toNat / 256 = 0 by omega, List.getElem?_cons_zero]
  · obtain ⟨page', hpage', hbyte⟩ := ih a (by omega) ha'
    refine ⟨page', ?_, hbyte⟩
    rw [show a / 256 - cur.toNat / 256 = (a / 256 - next.toNat / 256) + 1 by omega,
      List.getElem?_cons_succ, hpage']

/-- Up to there, the loop makes all the pages. -/
theorem pages_total (hend : end_.toNat = start.toNat + data.length)
    (hlast : end_.toNat ≤ 2 ^ 32 - PAGE_SIZE) : ∀ {fuel : ℕ} {cur : U32},
      start.toNat ≤ cur.toNat → end_.toNat ≤ cur.toNat + fuel →
      ∃ ps, pages start end_ data fuel cur = some ps := by
  have hsize : PAGE_SIZE = 256 := rfl
  intro fuel
  induction fuel with
  | zero =>
      intro cur _ hfuel
      exact ⟨[], by rw [pages, if_pos (show cur ≥ end_ from hfuel)]⟩
  | succ fuel ih =>
      intro cur hcur hfuel
      rw [pages]
      split
      · exact ⟨[], rfl⟩
      · next hlt =>
          have hlt' : cur.toNat < end_.toNat := Nat.lt_of_not_le hlt
          have hcur' := cur.isLt
          obtain ⟨next, hnext⟩ : ∃ next, next = page_start cur + BitVec.ofNat 32 PAGE_SIZE :=
            ⟨_, rfl⟩
          have hnext' : next.toNat = cur.toNat / 256 * 256 + 256 := by
            rw [hnext, BitVec.toNat_add, page_start_toNat, PAGE_SIZE_toNat]
            omega
          obtain ⟨rest, hrest⟩ := @ih next (by omega) (by omega)
          simp only [← hnext]
          have hslice : slice data (cur - start).toNat
              ((if next ≤ end_ then next else end_) - start).toNat ≠ none := by
            rw [slice, if_pos]
            · exact Option.some_ne_none _
            · rw [BitVec.toNat_sub, BitVec.toNat_sub]
              split
              · next hle =>
                  have hle' : next.toNat ≤ end_.toNat := hle
                  omega
              · next hgt =>
                  have hgt' : end_.toNat < next.toNat := Nat.lt_of_not_le hgt
                  omega
          split
          · next hnone => exact absurd hnone hslice
          · rw [hrest, Option.map_some]
            exact ⟨_, rfl⟩

end

section
variable {sha256 : Bytes → HashOutput 32} {start : U32} {data : Bytes} {seg : MemorySegment}

/-- A segment is the pages of its data, and empty ones up to a power of two. -/
theorem new_cases (h : new sha256 start data = some seg) :
    ∃ ps, pages start (start + BitVec.ofNat 32 data.length) data data.length start = some ps ∧
      MerkleAccumulator.new sha256 (ps ++ List.replicate
        (checked_next_power_of_two ps.length - ps.length) empty_page) = some seg.content ∧
      seg.content.data = ps ++ List.replicate
        (checked_next_power_of_two ps.length - ps.length) empty_page := by
  unfold new at h
  simp only [Option.bind_eq_bind, Option.bind_eq_some_iff, Option.pure_def,
    Option.some.injEq] at h
  obtain ⟨ps, hps, content, hnew, rfl⟩ := h
  exact ⟨ps, hps, hnew, (new_isTree sha256 hnew).1⟩

/-- A segment has the padded number of pages, and the root of their tree. -/
theorem new_ok (h : new sha256 start data = some seg) (hdata : data.length < 2 ^ 32)
    (hlt : start < start + BitVec.ofNat 32 data.length) :
    Built sha256 seg.content ∧ seg.content.data.length = checked_next_power_of_two
      (Manifest.n_pages start (start + BitVec.ofNat 32 data.length)).toNat := by
  have hlt' : start.toNat < (start + BitVec.ofNat 32 data.length).toNat := hlt
  have hend : (start + BitVec.ofNat 32 data.length).toNat = start.toNat + data.length := by
    have hn : (BitVec.ofNat 32 data.length).toNat = data.length := by
      rw [BitVec.toNat_ofNat, Nat.mod_eq_of_lt hdata]
    rw [BitVec.toNat_add, hn] at hlt' ⊢
    have := start.isLt
    omega
  obtain ⟨ps, hps, hnew, hcontent⟩ := new_cases h
  have hcount := pages_length hend (Nat.le_refl _) hps
  rw [if_pos hlt', ← Manifest.n_pages_toNat hlt] at hcount
  refine ⟨.new hnew, ?_⟩
  have hle := le_checked_next_power_of_two ps.length
  rw [hcontent, List.length_append, List.length_replicate, ← hcount]
  omega

/-- The constructor panics for a segment that reaches the last page of the address
space, and for no other. -/
theorem new_isSome_iff (hend : (start + BitVec.ofNat 32 data.length).toNat =
    start.toNat + data.length) (hne : data ≠ []) : (∃ seg, new sha256 start data = some seg) ↔
      start.toNat + data.length ≤ 2 ^ 32 - PAGE_SIZE := by
  have hpos := List.length_pos_of_ne_nil hne
  constructor
  · rintro ⟨seg, h⟩
    obtain ⟨ps, hps, -⟩ := new_cases h
    rw [← hend]
    exact pages_end hend (Nat.le_refl _) hps (by omega)
  · intro hlast
    obtain ⟨ps, hps⟩ : ∃ ps, pages start _ data data.length start = some ps :=
      pages_total hend (by omega) (Nat.le_refl _) (by omega)
    have hle := le_checked_next_power_of_two ps.length
    have hcount : has_valid_leaf_count (ps ++ List.replicate
        (checked_next_power_of_two ps.length - ps.length) empty_page).length = true := by
      rw [List.length_append, List.length_replicate, Nat.add_sub_cancel' hle]
      exact has_valid_leaf_count_two_pow _
    refine ⟨⟨MerkleAccumulator.build_tree sha256 ⟨ps ++ List.replicate
      (checked_next_power_of_two ps.length - ps.length) empty_page, #[]⟩⟩, ?_⟩
    unfold new
    simp only [hps, MerkleAccumulator.new, if_pos hcount, Option.bind_eq_bind, Option.bind_some,
      Option.pure_def]

theorem new_record (h : new sha256 start data = some seg)
    (hend : (start + BitVec.ofNat 32 data.length).toNat = start.toNat + data.length) :
    ∀ x ∈ seg.content.data, ∃ page : Page, x = get_serialized_page page.toList none := by
  obtain ⟨ps, hps, -, hcontent⟩ := new_cases h
  rw [hcontent]
  intro x hx
  rcases List.mem_append.mp hx with hx | hx
  · exact pages_record hend (Nat.le_refl _) hps x hx
  · obtain ⟨-, rfl⟩ := List.mem_replicate.mp hx
    exact ⟨Vector.replicate PAGE_SIZE 0, by rw [empty_page, Vector.toList_replicate]⟩

theorem new_getD (h : new sha256 start data = some seg)
    (hend : (start + BitVec.ofNat 32 data.length).toNat = start.toNat + data.length) {a : ℕ}
    (ha : start.toNat ≤ a) (ha' : a < start.toNat + data.length) :
    ∃ page : Page, seg.content.data[a / 256 - start.toNat / 256]? =
        some (get_serialized_page page.toList none) ∧
      page.toList.getD (a % 256) 0 = data.getD (a - start.toNat) 0 := by
  obtain ⟨ps, hps, -, hcontent⟩ := new_cases h
  obtain ⟨page, hpage, hbyte⟩ := pages_getD hend (Nat.le_refl _) hps a ha (by omega)
  refine ⟨page, ?_, hbyte⟩
  rw [hcontent, List.getElem?_append_left (List.getElem?_eq_some_iff.mp hpage).1, hpage]

end

end Client.MemorySegment

end Vanadium
