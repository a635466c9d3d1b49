import Mathlib

/-!
# Binary search

The search of the Rust library in a slice: it halves the range in which the
answer lies until one element is left, and looks at that one. What it looks for
is given by a function that says on which side of it an element is. If the
elements are in the order that this function supposes, then the search finds
what is there, and otherwise the place where it would be.
-/

namespace Vanadium.Lib.BinarySearch

variable {α : Type}

/-- The turns of the loop, at most as many as the range is long. -/
def narrow (f : ℕ → Ordering) : ℕ → ℕ → ℕ → ℕ
  | 0, base, _ => base
  | fuel + 1, base, size =>
      if size ≤ 1 then base
      else
        let half := size / 2
        let mid := base + half
        narrow f fuel (if f mid = .gt then base else mid) (size - half)

/-- What is known once one element is left. -/
def answer (base : ℕ) : Ordering → Except ℕ ℕ
  | .eq => .ok base
  | .lt => .error (base + 1)
  | .gt => .error base

/-- `binary_search_by`: the index of an element that was looked for, or the one where it
would be put. -/
def search (l : List α) (f : α → Ordering) : Except ℕ ℕ :=
  match l with
  | [] => .error 0
  | first :: _ =>
      let base := narrow (fun i => f (l.getD i first)) l.length 0 l.length
      answer base (f (l.getD base first))

/-- `partition_point` -/
def partition_point (l : List α) (pred : α → Bool) : ℕ :=
  match search l fun a => if pred a then .lt else .gt with
  | .ok i => i
  | .error i => i

/-- Elements before what is looked for come first, and elements after it last. -/
structure Ordered (f : α → Ordering) (l : List α) : Prop where
  lt : l.Pairwise fun a b => f b = .lt → f a = .lt
  gt : l.Pairwise fun a b => f a = .gt → f b = .gt

/-- `base` is the last index that is not after what is looked for, if there is one. -/
structure Last (f : ℕ → Ordering) (base size n : ℕ) : Prop where
  size_pos : 0 < size
  le : base + size ≤ n
  start : base = 0 ∨ f base ≠ .gt
  after : ∀ i, base + size ≤ i → i < n → f i = .gt

theorem narrow_last {f : ℕ → Ordering} {n : ℕ}
    (hmono : ∀ i j, i < j → j < n → f i = .gt → f j = .gt) :
    ∀ {fuel base size : ℕ}, size ≤ fuel → Last f base size n →
      Last f (narrow f fuel base size) 1 n := by
  intro fuel
  induction fuel with
  | zero =>
      intro base size hfuel h
      have := h.size_pos
      omega
  | succ fuel ih =>
      intro base size hfuel h
      have hpos := h.size_pos
      have hle := h.le
      rw [narrow]
      by_cases hsize : size ≤ 1
      · rw [if_pos hsize]
        obtain rfl : size = 1 := by omega
        exact h
      · rw [if_neg hsize]
        refine ih (by omega) ?_
        by_cases hmid : f (base + size / 2) = .gt
        · rw [if_pos hmid]
          refine ⟨by omega, by omega, h.start, fun i hi hn => ?_⟩
          by_cases hin : base + size ≤ i
          · exact h.after i hin hn
          · by_cases heq : i = base + size / 2
            · rw [heq]
              exact hmid
            · exact hmono _ i (by omega) hn hmid
        · rw [if_neg hmid]
          exact ⟨by omega, by omega, .inr hmid, fun i hi hn => h.after i (by omega) hn⟩

/-- What the search says. -/
def Found (l : List α) (f : α → Ordering) : Except ℕ ℕ → Prop
  | .ok i => ∃ a, l[i]? = some a ∧ f a = .eq
  | .error i => i ≤ l.length ∧ (∀ a ∈ l.take i, f a = .lt) ∧ ∀ a ∈ l.drop i, f a = .gt

theorem search_found {l : List α} {f : α → Ordering} (h : Ordered f l) :
    Found l f (search l f) := by
  cases l with
  | nil => exact ⟨Nat.le_refl 0, by simp, by simp⟩
  | cons first rest =>
      have hget {i : ℕ} (hi : i < (first :: rest).length) :
          (first :: rest).getD i first = (first :: rest)[i] := by
        rw [List.getD_eq_getElem?_getD, List.getElem?_eq_getElem hi, Option.getD_some]
      generalize hl : first :: rest = l at h hget
      have hgt : ∀ i j, i < j → j < l.length →
          f (l.getD i first) = .gt → f (l.getD j first) = .gt := by
        intro i j hij hj hi
        rw [hget (by omega)] at hi
        rw [hget hj]
        exact List.pairwise_iff_getElem.mp h.gt i j _ hj hij hi
      have hpos : 0 < l.length := by rw [← hl]; simp
      have hlast := narrow_last hgt (Nat.le_refl l.length)
        ⟨hpos, by omega, .inl rfl, fun i hi hn => by omega⟩
      have hsearch : search l f = answer (narrow (fun i => f (l.getD i first)) l.length 0 l.length)
          (f (l.getD (narrow (fun i => f (l.getD i first)) l.length 0 l.length) first)) := by
        rw [← hl]
        rfl
      rw [hsearch]
      generalize narrow (fun i => f (l.getD i first)) l.length 0 l.length = base at hlast
      have hbase : base < l.length := by have := hlast.le; omega
      have hafter : ∀ a ∈ l.drop (base + 1), f a = .gt := by
        intro a ha
        obtain ⟨i, hi, rfl⟩ := List.mem_iff_getElem.mp ha
        rw [List.length_drop] at hi
        have hgti := hlast.after (base + 1 + i) (by omega) (by omega)
        rw [hget (by omega)] at hgti
        rw [List.getElem_drop]
        exact hgti
      rw [hget hbase]
      cases hf : f l[base] with
      | eq => exact ⟨l[base], List.getElem?_eq_getElem hbase, hf⟩
      | lt =>
          refine ⟨hbase, fun a ha => ?_, hafter⟩
          obtain ⟨i, hi, rfl⟩ := List.mem_iff_getElem.mp ha
          rw [List.length_take] at hi
          rw [List.getElem_take]
          by_cases hib : i = base
          · subst hib
            exact hf
          · exact List.pairwise_iff_getElem.mp h.lt i base (by omega) hbase (by omega) hf
      | gt =>
          have hzero : base = 0 := by
            rcases hlast.start with hzero | hne
            · exact hzero
            · rw [hget hbase] at hne
              exact absurd hf hne
          subst hzero
          refine ⟨Nat.zero_le _, by simp, fun a ha => ?_⟩
          rw [List.drop_zero] at ha
          obtain ⟨i, hi, rfl⟩ := List.mem_iff_getElem.mp ha
          by_cases hi0 : i = 0
          · subst hi0
            exact hf
          · exact List.pairwise_iff_getElem.mp h.gt 0 i _ hi (by omega) hf

/-- If there is at most one element that is looked for, the search is a scan. -/
theorem search_eq_find {l : List α} {f : α → Ordering} (h : Ordered f l)
    (hunique : l.Pairwise fun a b => f a = .eq → f b ≠ .eq) :
    ((search l f).toOption.bind fun i => l[i]?) = l.find? fun a => f a = .eq := by
  have hfound := search_found h
  cases hs : search l f with
  | ok i =>
      rw [hs] at hfound
      obtain ⟨a, ha, hf⟩ := hfound
      have hone : ∀ b ∈ l, f b = .eq → b = a := by
        intro b hb hfb
        obtain ⟨j, hj, rfl⟩ := List.mem_iff_getElem.mp hb
        obtain ⟨hi, rfl⟩ := List.getElem?_eq_some_iff.mp ha
        rcases Nat.lt_trichotomy i j with hij | rfl | hij
        · exact absurd hfb (List.pairwise_iff_getElem.mp hunique i j hi hj hij hf)
        · rfl
        · exact absurd hf (List.pairwise_iff_getElem.mp hunique j i hj hi hij hfb)
      cases hfind : l.find? fun a => f a = .eq with
      | none =>
          have := List.find?_eq_none.mp hfind a (List.mem_of_getElem? ha)
          simp [hf] at this
      | some b =>
          have hfb : f b = .eq := by simpa using List.find?_some hfind
          rw [hone b (List.mem_of_find?_eq_some hfind) hfb]
          exact ha
  | error i =>
      rw [hs] at hfound
      obtain ⟨-, hlt, hgt⟩ := hfound
      refine (List.find?_eq_none.mpr fun a ha => ?_).symm
      rw [← List.take_append_drop i l] at ha
      rcases List.mem_append.mp ha with ha | ha
      · simp [hlt a ha]
      · simp [hgt a ha]

/-- Where `pred` holds first, the partition point is where it ends. -/
theorem partition_point_spec {l : List α} {pred : α → Bool}
    (h : l.Pairwise fun a b => pred b = true → pred a = true) :
    (∀ a ∈ l.take (partition_point l pred), pred a = true) ∧
      ∀ a ∈ l.drop (partition_point l pred), pred a = false := by
  have hordered : Ordered (fun a => if pred a then Ordering.lt else .gt) l := by
    refine ⟨h.imp fun {a b} hab hb => ?_, h.imp fun {a b} hab ha => ?_⟩
    · simp only [ite_eq_left_iff, Bool.not_eq_true, reduceCtorEq, imp_false,
        Bool.not_eq_false] at hb ⊢
      exact hab hb
    · simp only [ite_eq_right_iff, reduceCtorEq, imp_false] at ha ⊢
      exact fun hb => ha (hab hb)
  have hfound := search_found hordered
  unfold partition_point
  cases hs : search l fun a => if pred a then Ordering.lt else .gt with
  | ok i =>
      rw [hs] at hfound
      obtain ⟨a, -, hf⟩ := hfound
      cases hp : pred a <;> simp [hp] at hf
  | error i =>
      rw [hs] at hfound
      obtain ⟨-, hlt, hgt⟩ := hfound
      exact ⟨fun a ha => by simpa using hlt a ha, fun a ha => by simpa using hgt a ha⟩

/-- In a list that is sorted by a key, two partitions delimit the elements with one key. -/
theorem slice_eq_filter {β : Type} [LinearOrder β] {l : List α} (key : α → β)
    (h : l.Pairwise fun a b => key a ≤ key b) (k : β) :
    (l.drop (partition_point l fun a => key a < k)).take
        (partition_point (l.drop (partition_point l fun a => key a < k)) fun a => key a = k) =
      l.filter fun a => key a = k := by
  obtain ⟨hbefore, hafter⟩ := @partition_point_spec _ l (fun a => decide (key a < k))
    (h.imp fun {a b} hab hb => by
      simp only [decide_eq_true_eq] at hb ⊢
      exact lt_of_le_of_lt hab hb)
  generalize partition_point l (fun a => decide (key a < k)) = start at hbefore hafter
  have hge : ∀ a ∈ l.drop start, k ≤ key a := fun a ha => by simpa using hafter a ha
  have hsorted : (l.drop start).Pairwise fun a b => key a ≤ key b :=
    h.sublist (List.drop_sublist start l)
  obtain ⟨hin, hout⟩ := @partition_point_spec _ (l.drop start) (fun a => decide (key a = k))
    (hsorted.imp_of_mem fun {a b} ha hb hab hk => by
      simp only [decide_eq_true_eq] at hk ⊢
      exact le_antisymm (hk ▸ hab) (hge a ha))
  generalize partition_point (l.drop start) (fun a => decide (key a = k)) = n at hin hout
  have hnone : (l.take start).filter (fun a => key a = k) = [] := by
    refine List.filter_eq_nil_iff.mpr fun a ha => ?_
    have hlt : key a < k := by simpa using hbefore a ha
    simp [ne_of_lt hlt]
  have hrest : ((l.drop start).drop n).filter (fun a => key a = k) = [] :=
    List.filter_eq_nil_iff.mpr fun a ha => by simp [hout a ha]
  conv_rhs => rw [← List.take_append_drop start l, ← List.take_append_drop n (l.drop start)]
  rw [List.filter_append, List.filter_append, hnone, hrest, List.filter_eq_self.mpr hin,
    List.append_nil, List.nil_append]

end Vanadium.Lib.BinarySearch
