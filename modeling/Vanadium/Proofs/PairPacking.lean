import Vanadium.AppSdk.Ux

/-!
# Pairs that share a page

A review packs its pairs by the height that they will have on the screen. Every pair
is on one of the pages. The heights are estimates from the lengths, and the other way
round they bound them: on all devices, what is written of the pairs of a page is at
most 482 bytes, unless it is a single pair.
-/

namespace Vanadium.AppSdk

open Lib compute_pair_page_ranges

/-! ## Packing -/

variable {metrics : PageLayoutMetrics} {pairs : List TagValue}

theorem fill_cons (metrics : PageLayoutMetrics) (pair : TagValue) (pairs : List TagValue) (end_ : ℕ)
    (height : U32) : fill metrics (pair :: pairs) end_ height =
      if height + estimate_pair_height metrics pair > metrics.content_height_px then end_
      else fill metrics pairs (end_ + 1) (height + estimate_pair_height metrics pair) := rfl

theorem fill_eq (metrics : PageLayoutMetrics) (pairs : List TagValue) (end_ : ℕ) (height : U32) :
    fill metrics pairs end_ height = end_ + fill metrics pairs 0 height := by
  induction pairs generalizing end_ height with
  | nil => rfl
  | cons pair pairs ih =>
      rw [fill_cons, fill_cons]
      split
      · rfl
      · rw [ih (end_ + 1), ih (0 + 1)]
        omega

theorem fill_le (metrics : PageLayoutMetrics) (pairs : List TagValue) (height : U32) :
    fill metrics pairs 0 height ≤ pairs.length := by
  induction pairs generalizing height with
  | nil => exact Nat.zero_le _
  | cons pair pairs ih =>
      rw [fill_cons]
      split
      · exact Nat.zero_le _
      · rw [fill_eq, List.length_cons]
        have := ih (height + estimate_pair_height metrics pair)
        omega

/-- The pairs below the first one of a page. -/
def below (metrics : PageLayoutMetrics) (pair : TagValue) (rest : List TagValue) : List TagValue :=
  rest.take (fill metrics rest 0 (estimate_pair_height metrics pair))

/-- A range is what one turn of the outer loop takes. -/
theorem loop_mem {fuel start : ℕ} {range : ℕ × ℕ} (h : range ∈ loop metrics pairs fuel start) :
    ∃ pair rest, pairs.drop range.1 = pair :: rest ∧
      range.2 = range.1 + 1 + fill metrics rest 0 (estimate_pair_height metrics pair) := by
  induction fuel generalizing start with
  | zero => cases h
  | succ fuel ih =>
      unfold loop at h
      split at h
      · cases h
      · next pair rest hdrop =>
          rcases List.mem_cons.mp h with rfl | h
          · exact ⟨pair, rest, hdrop, fill_eq ..⟩
          · exact ih h

theorem pair_chunk_of_mem {range : ℕ × ℕ} (h : range ∈ compute_pair_page_ranges metrics pairs) :
    ∃ pair rest, pairs.drop range.1 = pair :: rest ∧
      pair_chunk pairs range = pair :: below metrics pair rest ∧
      range.2 - range.1 = (pair :: below metrics pair rest).length := by
  obtain ⟨pair, rest, hdrop, hend⟩ := loop_mem h
  have hle := fill_le metrics rest (estimate_pair_height metrics pair)
  refine ⟨pair, rest, hdrop, ?_, ?_⟩
  · have hlen : range.2 - range.1 =
        fill metrics rest 0 (estimate_pair_height metrics pair) + 1 := by omega
    rw [pair_chunk, List.drop_take, hdrop, hlen, List.take_succ_cons]
    rfl
  · rw [List.length_cons, below, List.length_take]
    omega

/-- Each pair is in a range. -/
theorem loop_covers {fuel start i : ℕ} (hfuel : pairs.length ≤ start + fuel) (hstart : start ≤ i)
    (hi : i < pairs.length) :
    ∃ range ∈ loop metrics pairs fuel start, range.1 ≤ i ∧ i < range.2 := by
  induction fuel generalizing start with
  | zero => omega
  | succ fuel ih =>
      unfold loop
      split
      · next hdrop =>
          have := List.drop_eq_nil_iff.mp hdrop
          omega
      · next pair rest hdrop =>
          have hend := fill_eq metrics rest (start + 1) (estimate_pair_height metrics pair)
          by_cases hlt : i < fill metrics rest (start + 1) (estimate_pair_height metrics pair)
          · exact ⟨_, List.mem_cons_self, hstart, hlt⟩
          · obtain ⟨range, hmem, hrange⟩ := @ih (fill metrics rest (start + 1)
              (estimate_pair_height metrics pair)) (by omega) (by omega)
            exact ⟨range, .tail _ hmem, hrange⟩

theorem mem_pair_chunk {pair : TagValue} (h : pair ∈ pairs) :
    ∃ range ∈ compute_pair_page_ranges metrics pairs, pair ∈ pair_chunk pairs range := by
  obtain ⟨i, hi, rfl⟩ := List.mem_iff_getElem.mp h
  obtain ⟨range, hmem, hstart, hend⟩ :=
    @loop_covers metrics pairs _ _ _ (by omega : pairs.length ≤ 0 + pairs.length) (Nat.zero_le i) hi
  refine ⟨range, hmem, List.mem_iff_getElem?.mpr ⟨i - range.1, ?_⟩⟩
  rw [pair_chunk, List.getElem?_drop, List.getElem?_take, if_pos (by omega),
    Nat.add_sub_cancel' hstart, List.getElem?_eq_getElem hi]

theorem loop_length_le (metrics : PageLayoutMetrics) (pairs : List TagValue) (fuel start : ℕ) :
    (loop metrics pairs fuel start).length ≤ fuel := by
  induction fuel generalizing start with
  | zero => exact Nat.zero_le _
  | succ fuel ih =>
      unfold loop
      split
      · exact Nat.zero_le _
      · exact Nat.succ_le_succ (ih _)

theorem Review.n_pages_toNat {r : Review} (hpairs : r.pairs.length < 2 ^ 31) :
    (r.n_pages metrics).toNat = 2 + (r.pair_page_ranges metrics).length := by
  have hle := loop_length_le metrics r.pairs r.pairs.length 0
  have hranges : (r.pair_page_ranges metrics).length ≤ r.pairs.length := hle
  rw [Review.n_pages, BitVec.toNat_add, BitVec.toNat_ofNat]
  show (2 + _ % 2 ^ 32) % 2 ^ 32 = _
  omega

/-! ## Heights

On every device a line is so high, and a page so low, that what is written of the
pairs whose heights add up to a page is at most 482 bytes. -/

/-- What is written of a pair. -/
def pair_len (pair : TagValue) : ℕ := 4 + (as_bytes pair.tag).length + (as_bytes pair.value).length

/-- A page of 482 bytes is no lower than what is written on it. -/
structure Roomy (metrics : PageLayoutMetrics) : Prop where
  tag_chars : 0 < metrics.tag_chars_per_line
  value_chars : 0 < metrics.value_chars_per_line
  tag : metrics.tag_chars_per_line * metrics.content_height_px.toNat ≤
    482 * metrics.tag_line_height_px.toNat
  value : metrics.value_chars_per_line * metrics.content_height_px.toNat ≤
    482 * metrics.value_line_height_px.toNat
  padding : 4 * metrics.content_height_px.toNat ≤ 482 * metrics.pair_padding_px.toNat
  tag_height : metrics.tag_line_height_px.toNat < 2 ^ 8
  value_height : metrics.value_line_height_px.toNat < 2 ^ 8
  padding_height : metrics.pair_padding_px.toNat < 2 ^ 8
  content_height : 0 < metrics.content_height_px.toNat ∧ metrics.content_height_px.toNat < 2 ^ 16

theorem roomy_of_device {device : U32} (h : get_page_layout_metrics device = some metrics) :
    Roomy metrics := by
  unfold get_page_layout_metrics at h
  split at h
  · cases h; constructor <;> decide
  · cases h; constructor <;> decide
  · cases h; constructor <;> decide
  · cases h; constructor <;> decide
  · cases h

theorem lines_spec {len chars : ℕ} (hchars : 0 < chars) (hlen : len < 2 ^ 10) :
    len ≤ chars * (lines len chars).toNat ∧ (lines len chars).toNat ≤ len + 1 := by
  have hdiv : (len + chars - 1) / chars ≤ len + 1 := by
    refine Nat.div_le_of_le_mul ?_
    have := Nat.le_mul_of_pos_left (len + 1) hchars
    rw [Nat.mul_add]
    have := Nat.le_mul_of_pos_left len hchars
    omega
  have hmul : len ≤ chars * ((len + chars - 1) / chars) := by
    have hmod := Nat.div_add_mod (len + chars - 1) chars
    have hlt := Nat.mod_lt (len + chars - 1) hchars
    omega
  have hlines : (lines len chars).toNat = max ((len + chars - 1) / chars) 1 :=
    Nat.mod_eq_of_lt (by omega)
  rw [hlines]
  refine ⟨hmul.trans (Nat.mul_le_mul_left _ (Nat.le_max_left ..)), by omega⟩

/-- The height of a pair that is not too long. -/
theorem estimate_spec (hm : Roomy metrics) {pair : TagValue} (h : pair_len pair ≤ 482) :
    (estimate_pair_height metrics pair).toNat < 2 ^ 20 ∧
      pair_len pair * metrics.content_height_px.toNat ≤
        482 * (estimate_pair_height metrics pair).toNat := by
  unfold pair_len at h ⊢
  obtain ⟨htag, htag'⟩ := lines_spec hm.tag_chars (by omega : (as_bytes pair.tag).length < 2 ^ 10)
  obtain ⟨hvalue, hvalue'⟩ :=
    lines_spec hm.value_chars (by omega : (as_bytes pair.value).length < 2 ^ 10)
  have htag_px := Nat.mul_le_mul
    (htag'.trans (by omega : (as_bytes pair.tag).length + 1 ≤ 2 ^ 9)) hm.tag_height.le
  have hvalue_px := Nat.mul_le_mul
    (hvalue'.trans (by omega : (as_bytes pair.value).length + 1 ≤ 2 ^ 9)) hm.value_height.le
  have hpadding := hm.padding_height
  have hheight : (estimate_pair_height metrics pair).toNat =
      (lines (as_bytes pair.tag).length metrics.tag_chars_per_line).toNat *
        metrics.tag_line_height_px.toNat +
      (lines (as_bytes pair.value).length metrics.value_chars_per_line).toNat *
        metrics.value_line_height_px.toNat + metrics.pair_padding_px.toNat := by
    rw [estimate_pair_height, BitVec.toNat_add, BitVec.toNat_add, BitVec.toNat_mul,
      BitVec.toNat_mul]
    omega
  rw [hheight]
  refine ⟨by omega, ?_⟩
  -- each of the three parts pays for its share of the bytes
  have h1 := Nat.mul_le_mul_left (lines (as_bytes pair.tag).length
    metrics.tag_chars_per_line).toNat hm.tag
  have h2 := Nat.mul_le_mul_left (lines (as_bytes pair.value).length
    metrics.value_chars_per_line).toNat hm.value
  have h3 := Nat.mul_le_mul_right metrics.content_height_px.toNat htag
  have h4 := Nat.mul_le_mul_right metrics.content_height_px.toNat hvalue
  have h5 := hm.padding
  linarith

/-- The heights of pairs, one below the other. -/
def heights (metrics : PageLayoutMetrics) (pairs : List TagValue) : ℕ :=
  (pairs.map fun pair => (estimate_pair_height metrics pair).toNat).sum

/-- What is put below something else is no higher than what was left of the page. -/
theorem fill_heights (hm : Roomy metrics) (hpairs : ∀ p ∈ pairs, pair_len p ≤ 482) {height : U32}
    (hheight : height.toNat < 2 ^ 20) : fill metrics pairs 0 height = 0 ∨
      height.toNat + heights metrics (pairs.take (fill metrics pairs 0 height)) ≤
        metrics.content_height_px.toNat := by
  induction pairs generalizing height with
  | nil => exact .inl rfl
  | cons pair pairs ih =>
      rw [List.forall_mem_cons] at hpairs
      obtain ⟨hsmall, -⟩ := estimate_spec hm hpairs.1
      have hsum : (height + estimate_pair_height metrics pair).toNat =
          height.toNat + (estimate_pair_height metrics pair).toNat := by
        rw [BitVec.toNat_add]
        omega
      rw [fill_cons]
      split
      · exact .inl rfl
      · next hfits =>
          have hfits : height.toNat + (estimate_pair_height metrics pair).toNat ≤
              metrics.content_height_px.toNat := by
            rw [← hsum]
            exact BitVec.not_lt.mp hfits
          have hcontent := hm.content_height
          rw [fill_eq, Nat.zero_add, Nat.add_comm 1, List.take_succ_cons, heights, List.map_cons,
            List.sum_cons]
          right
          rcases ih hpairs.2 (by omega : (height + estimate_pair_height metrics pair).toNat < 2 ^ 20)
            with hzero | hrest
          · rw [hzero, List.take_zero, List.map_nil, List.sum_nil]
            exact hfits
          · rw [hsum, heights] at hrest
            omega

theorem len_le_heights (hm : Roomy metrics) (hpairs : ∀ p ∈ pairs, pair_len p ≤ 482) :
    (pairs.map pair_len).sum * metrics.content_height_px.toNat ≤ 482 * heights metrics pairs := by
  induction pairs with
  | nil => simp [heights]
  | cons pair pairs ih =>
      rw [List.forall_mem_cons] at hpairs
      have hpair := (estimate_spec hm hpairs.1).2
      have hrest := ih hpairs.2
      rw [heights, List.map_cons, List.sum_cons, List.map_cons, List.sum_cons, Nat.add_mul,
        Nat.mul_add]
      exact Nat.add_le_add hpair hrest

/-- If no pair is too long for a page of its own, no page is too long. -/
theorem chunk_len_le (hm : Roomy metrics) (hpairs : ∀ p ∈ pairs, pair_len p ≤ 482) {range : ℕ × ℕ}
    (h : range ∈ compute_pair_page_ranges metrics pairs) :
    ((pair_chunk pairs range).map pair_len).sum ≤ 482 := by
  obtain ⟨pair, rest, hdrop, hchunk, -⟩ := pair_chunk_of_mem h
  have hmem (p : TagValue) (hp : p ∈ pair :: rest) : pair_len p ≤ 482 :=
    hpairs p (List.drop_subset _ _ (hdrop ▸ hp))
  have hpair := hmem pair List.mem_cons_self
  rw [hchunk]
  rcases fill_heights hm (fun p hp => hmem p (.tail _ hp)) (estimate_spec hm hpair).1
    with hzero | hfits
  · simpa [below, hzero] using hpair
  · have hlen := @len_le_heights metrics (pair :: below metrics pair rest) hm fun p hp =>
      hmem p ((List.mem_cons.mp hp).elim (fun h => h ▸ List.mem_cons_self)
        fun hp => .tail _ (List.mem_of_mem_take hp))
    have hall : heights metrics (pair :: below metrics pair rest) ≤
        metrics.content_height_px.toNat := by
      rw [heights, List.map_cons, List.sum_cons]
      exact hfits
    exact Nat.le_of_mul_le_mul_right (hlen.trans (Nat.mul_le_mul_left _ hall)) hm.content_height.1

end Vanadium.AppSdk
