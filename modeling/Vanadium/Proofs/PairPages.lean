import Vanadium.Proofs.PairPacking

/-!
# The pages of the pairs

The ranges that the pairs are packed into tile the list of them: they follow each
other without a gap, from its start to its end, and none is empty. So each pair is on
one page of the review, and on one only. A page of several pairs is not higher than
the screen, and one more pair would not have been.

Heights are 32-bit numbers, and the model lets them wrap around. Next to it stands
the computation with the checks of a debug build, which gives up where a number does
not fit. It never does for the devices that there are, for texts below 16 MiB. It
would for a device with a line of 2³¹ pixels.
-/

namespace Vanadium.AppSdk

open Lib compute_pair_page_ranges

/-! ## With checks -/

namespace Checked

def add (a b : U32) : Option U32 := if a.toNat + b.toNat < 2 ^ 32 then some (a + b) else none

def mul (a b : U32) : Option U32 := if a.toNat * b.toNat < 2 ^ 32 then some (a * b) else none

/-- Lengths have 32 bits on the device. There is no division by zero. -/
def lines (len chars_per_line : ℕ) : Option U32 :=
  if 0 < chars_per_line ∧ len + chars_per_line < 2 ^ 32 then
    some (AppSdk.lines len chars_per_line)
  else none

def estimate_pair_height (metrics : PageLayoutMetrics) (pair : TagValue) : Option U32 := do
  let tag_lines ← lines (as_bytes pair.tag).length metrics.tag_chars_per_line
  let value_lines ← lines (as_bytes pair.value).length metrics.value_chars_per_line
  let tag_height ← mul tag_lines metrics.tag_line_height_px
  let value_height ← mul value_lines metrics.value_line_height_px
  let height ← add tag_height value_height
  add height metrics.pair_padding_px

def fill (metrics : PageLayoutMetrics) : List TagValue → ℕ → U32 → Option ℕ
  | [], end_, _ => some end_
  | pair :: pairs, end_, height => do
      let next_height ← estimate_pair_height metrics pair
      let sum ← add height next_height
      if sum > metrics.content_height_px then some end_
      else fill metrics pairs (end_ + 1) sum

def loop (metrics : PageLayoutMetrics) (pairs : List TagValue) : ℕ → ℕ → Option (List (ℕ × ℕ))
  | 0, _ => some []
  | fuel + 1, start =>
      match pairs.drop start with
      | [] => some []
      | pair :: rest => do
          let height ← estimate_pair_height metrics pair
          let end_ ← fill metrics rest (start + 1) height
          let ranges ← loop metrics pairs fuel end_
          some ((start, end_) :: ranges)

def compute_pair_page_ranges (metrics : PageLayoutMetrics) (pairs : List TagValue) :
    Option (List (ℕ × ℕ)) :=
  loop metrics pairs pairs.length 0

end Checked

/-! ## Exact heights -/

def exact_lines (len chars_per_line : ℕ) : ℕ := max ((len + chars_per_line - 1) / chars_per_line) 1

def exact_height (metrics : PageLayoutMetrics) (pair : TagValue) : ℕ :=
  exact_lines (as_bytes pair.tag).length metrics.tag_chars_per_line *
      metrics.tag_line_height_px.toNat +
    exact_lines (as_bytes pair.value).length metrics.value_chars_per_line *
      metrics.value_line_height_px.toNat +
    metrics.pair_padding_px.toNat

/-- The texts are shorter than 16 MiB. -/
def Short (pair : TagValue) : Prop :=
  (as_bytes pair.tag).length < 2 ^ 24 ∧ (as_bytes pair.value).length < 2 ^ 24

/-- The height of the longest pair that is short. -/
def max_height (metrics : PageLayoutMetrics) : ℕ :=
  exact_lines (2 ^ 24 - 1) metrics.tag_chars_per_line * metrics.tag_line_height_px.toNat +
    exact_lines (2 ^ 24 - 1) metrics.value_chars_per_line * metrics.value_line_height_px.toNat +
    metrics.pair_padding_px.toNat

/-- Lines have a width, and numbers have room for two heights, or for one and the screen. -/
structure Sane (metrics : PageLayoutMetrics) : Prop where
  tag_chars : 0 < metrics.tag_chars_per_line
  value_chars : 0 < metrics.value_chars_per_line
  tag_len : metrics.tag_chars_per_line + (2 ^ 24 - 1) < 2 ^ 32
  value_len : metrics.value_chars_per_line + (2 ^ 24 - 1) < 2 ^ 32
  heights : 2 * max_height metrics < 2 ^ 32
  content : metrics.content_height_px.toNat + max_height metrics < 2 ^ 32

theorem sane_of_device {device : U32} {metrics : PageLayoutMetrics}
    (h : get_page_layout_metrics device = some metrics) : Sane metrics := by
  unfold get_page_layout_metrics at h
  split at h
  · cases h; constructor <;> decide
  · cases h; constructor <;> decide
  · cases h; constructor <;> decide
  · cases h; constructor <;> decide
  · cases h

section
variable {metrics : PageLayoutMetrics} {pair : TagValue}

theorem exact_lines_mono {len len' chars : ℕ} (h : len ≤ len') :
    exact_lines len chars ≤ exact_lines len' chars :=
  max_le_max (Nat.div_le_div_right (by omega)) le_rfl

theorem exact_height_le (h : Short pair) : exact_height metrics pair ≤ max_height metrics := by
  unfold exact_height max_height
  have htag := Nat.mul_le_mul_right metrics.tag_line_height_px.toNat
    (@exact_lines_mono _ _ metrics.tag_chars_per_line (Nat.le_sub_one_of_lt h.1))
  have hvalue := Nat.mul_le_mul_right metrics.value_line_height_px.toNat
    (@exact_lines_mono _ _ metrics.value_chars_per_line (Nat.le_sub_one_of_lt h.2))
  omega

theorem lines_exact {len chars : ℕ} (hchars : 0 < chars) (h : len + chars < 2 ^ 32) :
    Checked.lines len chars = some (lines len chars) ∧
      (lines len chars).toNat = exact_lines len chars := by
  have hle : (len + chars - 1) / chars ≤ len + chars - 1 := Nat.div_le_self _ _
  refine ⟨if_pos ⟨hchars, h⟩, Nat.mod_eq_of_lt ?_⟩
  omega

theorem mul_exact {a b : U32} (h : a.toNat * b.toNat < 2 ^ 32) :
    Checked.mul a b = some (a * b) ∧ (a * b).toNat = a.toNat * b.toNat :=
  ⟨if_pos h, by rw [BitVec.toNat_mul, Nat.mod_eq_of_lt h]⟩

theorem add_exact {a b : U32} (h : a.toNat + b.toNat < 2 ^ 32) :
    Checked.add a b = some (a + b) ∧ (a + b).toNat = a.toNat + b.toNat :=
  ⟨if_pos h, by rw [BitVec.toNat_add, Nat.mod_eq_of_lt h]⟩

/-- The height of a short pair is computed without an overflow. -/
theorem estimate_exact (hs : Sane metrics) (h : Short pair) :
    Checked.estimate_pair_height metrics pair = some (estimate_pair_height metrics pair) ∧
      (estimate_pair_height metrics pair).toNat = exact_height metrics pair := by
  have hheight : exact_height metrics pair < 2 ^ 32 := by
    have := @exact_height_le metrics pair h
    have := hs.heights
    omega
  unfold exact_height at hheight ⊢
  have htag_len := hs.tag_len
  have hvalue_len := hs.value_len
  obtain ⟨htag_short, hvalue_short⟩ := h
  obtain ⟨htag, htag'⟩ := lines_exact hs.tag_chars
    (by omega : (as_bytes pair.tag).length + metrics.tag_chars_per_line < 2 ^ 32)
  obtain ⟨hvalue, hvalue'⟩ := lines_exact hs.value_chars
    (by omega : (as_bytes pair.value).length + metrics.value_chars_per_line < 2 ^ 32)
  rw [← htag', ← hvalue'] at hheight ⊢
  obtain ⟨htag_px, htag_px'⟩ := @mul_exact
    (lines (as_bytes pair.tag).length metrics.tag_chars_per_line) metrics.tag_line_height_px
    (by omega)
  obtain ⟨hvalue_px, hvalue_px'⟩ := @mul_exact
    (lines (as_bytes pair.value).length metrics.value_chars_per_line)
    metrics.value_line_height_px (by omega)
  rw [← htag_px', ← hvalue_px'] at hheight ⊢
  obtain ⟨hsum, hsum'⟩ := add_exact (Nat.lt_of_add_right_lt hheight)
  rw [← hsum'] at hheight ⊢
  obtain ⟨hpadded, hpadded'⟩ := add_exact hheight
  refine ⟨?_, hpadded'⟩
  simp only [Checked.estimate_pair_height, htag, hvalue, htag_px, hvalue_px, hsum, hpadded,
    Option.bind_eq_bind, Option.bind_some]
  rfl

/-- A height that there is room for another one next to. -/
def Modest (metrics : PageLayoutMetrics) (height : U32) : Prop :=
  height.toNat ≤ max_height metrics ∨ height.toNat ≤ metrics.content_height_px.toNat

theorem modest_estimate (hs : Sane metrics) (h : Short pair) :
    Modest metrics (estimate_pair_height metrics pair) :=
  .inl ((estimate_exact hs h).2.trans_le (exact_height_le h))

/-- One more pair is no overflow. -/
theorem next_exact (hs : Sane metrics) (h : Short pair) {height : U32}
    (hheight : Modest metrics height) :
    Checked.add height (estimate_pair_height metrics pair) =
        some (height + estimate_pair_height metrics pair) ∧
      (height + estimate_pair_height metrics pair).toNat =
        height.toNat + exact_height metrics pair := by
  have hestimate := (estimate_exact hs h).2
  have hle := @exact_height_le metrics pair h
  have hheights := hs.heights
  have hcontent := hs.content
  rw [← hestimate] at hle ⊢
  refine add_exact ?_
  rcases hheight with hheight | hheight <;> omega

/-- The heights of pairs, one below the other. -/
def total (metrics : PageLayoutMetrics) (pairs : List TagValue) : ℕ :=
  (pairs.map (exact_height metrics)).sum

variable {pairs : List TagValue}

theorem fill_exact (hs : Sane metrics) (hpairs : ∀ p ∈ pairs, Short p) (end_ : ℕ) {height : U32}
    (hheight : Modest metrics height) :
    Checked.fill metrics pairs end_ height = some (fill metrics pairs end_ height) := by
  induction pairs generalizing end_ height with
  | nil => rfl
  | cons pair pairs ih =>
      obtain ⟨hpair, hpairs⟩ := List.forall_mem_cons.mp hpairs
      rw [Checked.fill, (estimate_exact hs hpair).1, fill_cons]
      simp only [Option.bind_eq_bind, Option.bind_some, (next_exact hs hpair hheight).1]
      split
      · rfl
      · next hfits => exact ih hpairs _ (.inr (BitVec.not_lt.mp hfits))

/-- What is put below a height still fits, if it is anything, and what comes next does not. -/
theorem fill_greedy (hs : Sane metrics) (hpairs : ∀ p ∈ pairs, Short p) {height : U32}
    (hheight : Modest metrics height) :
    (fill metrics pairs 0 height = 0 ∨
      height.toNat + total metrics (pairs.take (fill metrics pairs 0 height)) ≤
        metrics.content_height_px.toNat) ∧
    ∀ next ∈ pairs[fill metrics pairs 0 height]?,
      metrics.content_height_px.toNat < height.toNat +
        total metrics (pairs.take (fill metrics pairs 0 height)) + exact_height metrics next := by
  induction pairs generalizing height with
  | nil => exact ⟨.inl rfl, fun next h => by simp at h⟩
  | cons pair pairs ih =>
      obtain ⟨hpair, hpairs⟩ := List.forall_mem_cons.mp hpairs
      have hsum := (next_exact hs hpair hheight).2
      rw [fill_cons]
      split
      · next hfull =>
          refine ⟨.inl rfl, fun next h => ?_⟩
          rw [List.getElem?_cons_zero, Option.mem_some_iff] at h
          have hlt := BitVec.lt_def.mp hfull
          rw [hsum, h] at hlt
          simpa [total] using hlt
      · next hfits =>
          have hfits := BitVec.not_lt.mp hfits
          obtain ⟨htake, hnext⟩ := ih hpairs (.inr hfits)
          rw [fill_eq, Nat.zero_add, Nat.add_comm 1, List.take_succ_cons, List.getElem?_cons_succ,
            total, List.map_cons, List.sum_cons, ← total]
          rw [hsum] at htake hnext
          refine ⟨.inr ?_, fun next h => ?_⟩
          · rcases htake with hzero | htake
            · have hle := BitVec.le_def.mp hfits
              rw [hsum] at hle
              rw [hzero]
              simpa [total] using hle
            · omega
          · have := hnext next h
            omega

/-! ## Ranges -/

/-- Ranges that follow each other, from one index to another. -/
inductive Tiles : ℕ → ℕ → List (ℕ × ℕ) → Prop where
  | nil (start : ℕ) : Tiles start start []
  | cons {start mid stop : ℕ} {ranges : List (ℕ × ℕ)} (h : start < mid)
      (hs : Tiles mid stop ranges) : Tiles start stop ((start, mid) :: ranges)

theorem Tiles.le {start stop : ℕ} {ranges : List (ℕ × ℕ)} (h : Tiles start stop ranges) :
    start ≤ stop := by
  induction h with
  | nil => exact le_rfl
  | cons h _ ih => exact h.le.trans ih

/-- The index lies in the range. -/
def Within (i : ℕ) (range : ℕ × ℕ) : Prop := range.1 ≤ i ∧ i < range.2

theorem Tiles.start_le {start stop i k : ℕ} {ranges : List (ℕ × ℕ)} (h : Tiles start stop ranges)
    {range : ℕ × ℕ} (hk : ranges[k]? = some range) (hi : Within i range) : start ≤ i := by
  induction h generalizing k with
  | nil => simp at hk
  | cons h _ ih =>
      cases k with
      | zero =>
          rw [List.getElem?_cons_zero, Option.some_inj] at hk
          rw [← hk] at hi
          exact hi.1
      | succ k => exact h.le.trans (ih hk)

/-- An index lies in one range, and in one only. -/
theorem Tiles.exists_unique {start stop i : ℕ} {ranges : List (ℕ × ℕ)}
    (h : Tiles start stop ranges) (hstart : start ≤ i) (hstop : i < stop) :
    ∃! k : ℕ, ∃ range, ranges[k]? = some range ∧ Within i range := by
  induction h with
  | nil => omega
  | @cons start mid stop ranges hlt hs ih =>
      by_cases hi : i < mid
      · refine ⟨0, ⟨(start, mid), rfl, hstart, hi⟩, fun k ⟨range, hk, hwithin⟩ => ?_⟩
        cases k with
        | zero => rfl
        | succ k =>
            have := hs.start_le hk hwithin
            omega
      · obtain ⟨k, hk, hunique⟩ := ih (by omega) hstop
        refine ⟨k + 1, hk, fun k' ⟨range, hk', hwithin⟩ => ?_⟩
        cases k' with
        | zero =>
            rw [List.getElem?_cons_zero, Option.some_inj] at hk'
            rw [← hk'] at hwithin
            exact absurd hwithin.2 hi
        | succ k' => exact congrArg Nat.succ (hunique k' ⟨range, hk', hwithin⟩)

theorem loop_tiles {fuel start : ℕ} (hfuel : pairs.length ≤ start + fuel)
    (hstart : start ≤ pairs.length) : Tiles start pairs.length (loop metrics pairs fuel start) := by
  induction fuel generalizing start with
  | zero =>
      obtain rfl : start = pairs.length := by omega
      exact .nil _
  | succ fuel ih =>
      unfold loop
      split
      · next hdrop =>
          have hle := List.drop_eq_nil_iff.mp hdrop
          obtain rfl : start = pairs.length := by omega
          exact .nil _
      · next pair rest hdrop =>
          have hend := fill_eq metrics rest (start + 1) (estimate_pair_height metrics pair)
          have hle := fill_le metrics rest (estimate_pair_height metrics pair)
          have hlen := congrArg List.length hdrop
          rw [List.length_drop, List.length_cons] at hlen
          exact .cons (by omega) (ih (by omega) (by omega))

theorem loop_exact (hs : Sane metrics) (hpairs : ∀ p ∈ pairs, Short p) (fuel start : ℕ) :
    Checked.loop metrics pairs fuel start = some (loop metrics pairs fuel start) := by
  induction fuel generalizing start with
  | zero => rfl
  | succ fuel ih =>
      cases hdrop : pairs.drop start with
      | nil => rw [Checked.loop, loop, hdrop]
      | cons pair rest =>
          have hmem : ∀ p ∈ pair :: rest, Short p :=
            fun p hp => hpairs p (List.drop_subset _ _ (hdrop ▸ hp))
          obtain ⟨hpair, hrest⟩ := List.forall_mem_cons.mp hmem
          rw [Checked.loop, loop, hdrop]
          simp only [(estimate_exact hs hpair).1, Option.bind_eq_bind, Option.bind_some,
            fill_exact hs hrest (start + 1) (modest_estimate hs hpair), ih]

/-- The pairs of a range fit on the screen, unless it is one pair, and no pair more does. -/
structure Filled (metrics : PageLayoutMetrics) (pairs : List TagValue) (range : ℕ × ℕ) : Prop where
  fits : range.2 = range.1 + 1 ∨
    total metrics (pair_chunk pairs range) ≤ metrics.content_height_px.toNat
  greedy : ∀ next ∈ pairs[range.2]?,
    metrics.content_height_px.toNat < total metrics (pair_chunk pairs range) +
      exact_height metrics next

theorem filled_of_mem (hs : Sane metrics) (hpairs : ∀ p ∈ pairs, Short p) {range : ℕ × ℕ}
    (h : range ∈ compute_pair_page_ranges metrics pairs) : Filled metrics pairs range := by
  obtain ⟨pair, rest, hdrop, hend⟩ := loop_mem h
  obtain ⟨pair', rest', hdrop', hchunk, -⟩ := pair_chunk_of_mem h
  obtain ⟨rfl, rfl⟩ := List.cons.inj (hdrop.symm.trans hdrop')
  have hmem : ∀ p ∈ pair :: rest, Short p :=
    fun p hp => hpairs p (List.drop_subset _ _ (hdrop ▸ hp))
  obtain ⟨hpair, hrest⟩ := List.forall_mem_cons.mp hmem
  obtain ⟨htake, hnext⟩ := fill_greedy hs hrest (modest_estimate hs hpair)
  rw [(estimate_exact hs hpair).2] at htake hnext
  have htotal : total metrics (pair_chunk pairs range) = exact_height metrics pair +
      total metrics (below metrics pair rest) := by
    rw [hchunk, total, List.map_cons, List.sum_cons, ← total]
  refine ⟨?_, fun next h => ?_⟩
  · rcases htake with hzero | htake
    · exact .inl (by rw [hend, hzero])
    · exact .inr (htotal ▸ htake)
  · rw [htotal]
    refine hnext next ?_
    rw [hend, Nat.add_assoc, ← List.getElem?_drop, hdrop, Nat.add_comm 1,
      List.getElem?_cons_succ] at h
    exact h

end

/-! ## The pages of a review -/

namespace Review

/-- What page `k + 1` of a review is made of: the pairs of range `k`. -/
def PageOf (r : Review) (metrics : PageLayoutMetrics) (k i : ℕ) : Prop :=
  ∃ range, (r.pair_page_ranges metrics)[k]? = some range ∧ Within i range ∧
    r.next_page metrics (k + 1) = (make_page_review_pairs_content (BitVec.ofNat 32 (k + 1))
      (r.n_pages metrics) (pair_chunk r.pairs range)).bytes

variable {r : Review} {metrics : PageLayoutMetrics}

theorem next_page_of_range (hlen : r.pairs.length < 2 ^ 31) {k : ℕ} {range : ℕ × ℕ}
    (hk : (r.pair_page_ranges metrics)[k]? = some range) :
    r.next_page metrics (k + 1) = (make_page_review_pairs_content (BitVec.ofNat 32 (k + 1))
      (r.n_pages metrics) (pair_chunk r.pairs range)).bytes := by
  obtain ⟨hlt, -⟩ := List.getElem?_eq_some_iff.mp hk
  have hn := @n_pages_toNat metrics r hlen
  have hle : (r.pair_page_ranges metrics).length ≤ r.pairs.length := loop_length_le ..
  have hlast : (r.n_pages metrics - 1).toNat = (r.pair_page_ranges metrics).length + 1 := by
    rw [BitVec.toNat_sub, hn]
    show (2 ^ 32 - 1 + _) % _ = _
    omega
  rw [next_page, if_neg (by omega), Nat.add_sub_cancel, hk]
  rfl

/-- Where no height overflows, the ranges tile the list of the pairs. Each page is filled, and
each pair is on one page. -/
theorem pair_pages_tile (metrics : PageLayoutMetrics) (r : Review) (hs : Sane metrics)
    (hpairs : ∀ p ∈ r.pairs, Short p) :
    Checked.compute_pair_page_ranges metrics r.pairs = some (r.pair_page_ranges metrics) ∧
      Tiles 0 r.pairs.length (r.pair_page_ranges metrics) ∧
        (∀ range ∈ r.pair_page_ranges metrics, Filled metrics r.pairs range) ∧
          (r.pairs.length < 2 ^ 31 →
            (r.n_pages metrics).toNat = (r.pair_page_ranges metrics).length + 2 ∧
              ∀ i < r.pairs.length, ∃! k, r.PageOf metrics k i) := by
  have htiles : Tiles 0 r.pairs.length (r.pair_page_ranges metrics) :=
    loop_tiles (by omega) (Nat.zero_le _)
  refine ⟨loop_exact hs hpairs _ _, htiles, fun range h => filled_of_mem hs hpairs h,
    fun hlen => ⟨(n_pages_toNat hlen).trans (Nat.add_comm _ _), fun i hi => ?_⟩⟩
  obtain ⟨k, ⟨range, hk, hwithin⟩, hunique⟩ := htiles.exists_unique (Nat.zero_le i) hi
  refine ⟨k, ⟨range, hk, hwithin, next_page_of_range hlen hk⟩, ?_⟩
  intro k' ⟨range', hk', hwithin', _⟩
  exact hunique k' ⟨range', hk', hwithin'⟩

def two_pairs : Review where
  intro_text := "Review"
  intro_subtext := ""
  pairs := [{ tag := "To", value := "Alice" }, { tag := "Amount", value := "1" }]
  final_text := "Confirm"
  final_button_text := "Yes"
  long_press := true

theorem two_pairs_short : ∀ p ∈ two_pairs.pairs, Short p := by
  simp only [two_pairs, List.forall_mem_cons, Short]
  decide

theorem two_pairs_tile : ∃ metrics, get_page_layout_metrics 0x2c970060 = some metrics ∧
    Tiles 0 2 (two_pairs.pair_page_ranges metrics) := by
  have hdevice : ∃ metrics, get_page_layout_metrics 0x2c970060 = some metrics := ⟨_, rfl⟩
  obtain ⟨metrics, h⟩ := hdevice
  exact ⟨metrics, h, (pair_pages_tile metrics two_pairs (sane_of_device h) two_pairs_short).2.1⟩

/-- A screen whose lines have 2³¹ pixels. -/
def tall : PageLayoutMetrics where
  tag_chars_per_line := 1
  tag_line_height_px := 0x80000000
  value_chars_per_line := 1
  value_line_height_px := 0
  pair_padding_px := 0
  content_height_px := 0

theorem tall_overflows : ¬ ∀ (metrics : PageLayoutMetrics) (r : Review),
    0 < metrics.tag_chars_per_line → 0 < metrics.value_chars_per_line →
      (∀ p ∈ r.pairs, Short p) →
        Checked.compute_pair_page_ranges metrics r.pairs = some (r.pair_page_ranges metrics) := by
  intro h
  have hsome := h tall two_pairs (by decide) (by decide) two_pairs_short
  have hnone : Checked.compute_pair_page_ranges tall two_pairs.pairs = none := by decide +kernel
  rw [hnone] at hsome
  cases hsome

end Review

end Vanadium.AppSdk
