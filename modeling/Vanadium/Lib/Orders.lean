import Mathlib

/-!
# The orders of a list, one after the other

The orders of a list of different elements are listed with those first that begin with
its first element. If the list is ascending, this is the lexicographic order, and there
is a way to come from one order to the next that looks at this order only: what can
still be advanced behind the first element is; and when it cannot, because it is
descending, the least element behind that is greater than the first one takes its place,
and the rest begins again, ascending.
-/

namespace Vanadium.Lib.Orders

variable {α : Type} [LinearOrder α]

/-- The orders of a list of `n` elements. -/
def orders : ℕ → List α → List (List α)
  | 0, _ => [[]]
  | n + 1, s => s.flatMap fun a => (orders n (s.erase a)).map (a :: ·)

theorem mem_orders {n : ℕ} {s l : List α} (h : s.length = n) : l ∈ orders n s ↔ l.Perm s := by
  induction n generalizing s l with
  | zero =>
      obtain rfl := List.length_eq_zero_iff.mp h
      simp [orders]
  | succ n ih =>
      have herase : ∀ a ∈ s, (s.erase a).length = n := by
        intro a ha
        rw [List.length_erase_of_mem ha, h]
        rfl
      simp only [orders, List.mem_flatMap, List.mem_map]
      refine ⟨?_, fun hperm => ?_⟩
      · rintro ⟨a, ha, l', hl', rfl⟩
        exact (((ih (herase a ha)).mp hl').cons a).trans (List.perm_cons_erase ha).symm
      · cases l with
        | nil =>
            rw [← hperm.nil_eq] at h
            cases h
        | cons a l' =>
            have ha : a ∈ s := hperm.mem_iff.mp List.mem_cons_self
            refine ⟨a, ha, l', (ih (herase a ha)).mpr ?_, rfl⟩
            exact (hperm.trans (List.perm_cons_erase ha)).cons_inv

theorem nodup_orders {n : ℕ} {s : List α} (h : s.Nodup) : (orders n s).Nodup := by
  induction n generalizing s with
  | zero => exact List.nodup_singleton []
  | succ n ih =>
      rw [orders, List.nodup_flatMap]
      refine ⟨fun a _ => (ih (h.erase a)).map (List.cons_injective), ?_⟩
      refine h.imp fun {a b} hne l hl hl' => ?_
      obtain ⟨x, _, rfl⟩ := List.mem_map.mp hl
      obtain ⟨y, _, hy⟩ := List.mem_map.mp hl'
      exact hne (List.cons.inj hy).1.symm

theorem length_orders {n : ℕ} {s : List α} (h : s.length = n) :
    (orders n s).length = n.factorial := by
  induction n generalizing s with
  | zero => rfl
  | succ n ih =>
      have hblock : ∀ a ∈ s, ((orders n (s.erase a)).map (a :: ·)).length = n.factorial := by
        intro a ha
        rw [List.length_map, ih (by rw [List.length_erase_of_mem ha, h]; rfl)]
      rw [orders, List.length_flatMap, List.map_congr_left hblock, List.map_const',
        List.sum_replicate, h, smul_eq_mul, Nat.factorial_succ]

/-- The next order. -/
def advance : List α → Option (List α)
  | [] => none
  | a :: l =>
      match advance l with
      | some l' => some (a :: l')
      | none =>
          match l.reverse.dropWhile (· < a) with
          | [] => none
          | b :: greater => some (b :: (l.reverse.takeWhile (· < a) ++ a :: greater))

/-- A descending order is the last one. -/
theorem advance_reverse {s : List α} (h : s.Pairwise (· < ·)) : advance s.reverse = none := by
  induction s using List.reverseRecOn with
  | nil => rfl
  | append_singleton s a ih =>
      obtain ⟨hs, _, hlast⟩ := List.pairwise_append.mp h
      have hless : ∀ x ∈ s, decide (x < a) = true := fun x hx =>
        decide_eq_true (hlast x hx a (List.mem_singleton_self a))
      rw [List.reverse_append, List.reverse_singleton, List.singleton_append, advance, ih hs,
        List.reverse_reverse, List.dropWhile_eq_nil_iff.mpr hless]

/-- From the last order that begins with `a` to the first one that begins with the element
after it. -/
theorem advance_block {p q : List α} {a b : α} (h : (p ++ a :: b :: q).Pairwise (· < ·)) :
    advance (a :: (p ++ b :: q).reverse) = some (b :: (p ++ a :: q)) := by
  obtain ⟨hp, hq, hcross⟩ := List.pairwise_append.mp h
  obtain ⟨ha, hq⟩ := List.pairwise_cons.mp hq
  have hsorted : (p ++ b :: q).Pairwise (· < ·) :=
    List.pairwise_append.mpr ⟨hp, hq, fun x hx y hy => hcross x hx y (List.mem_cons_of_mem a hy)⟩
  have hless : ∀ x ∈ p, decide (x < a) = true := fun x hx =>
    decide_eq_true (hcross x hx a List.mem_cons_self)
  have hnot : decide (b < a) = false := decide_eq_false (ha b List.mem_cons_self).asymm
  rw [advance, advance_reverse hsorted, List.reverse_reverse,
    List.dropWhile_append_of_pos hless, List.takeWhile_append_of_pos hless,
    List.dropWhile_cons_of_neg (by simp [hnot]), List.takeWhile_cons_of_neg (by simp [hnot])]
  simp

theorem advance_cons {a : α} {l l' : List α} (h : advance l = some l') :
    advance (a :: l) = some (a :: l') := by
  rw [advance, h]

theorem erase_middle {p q : List α} {a : α} (h : (p ++ a :: q).Pairwise (· < ·)) :
    (p ++ a :: q).erase a = p ++ q := by
  have hnot : a ∉ p := fun ha =>
    ((List.pairwise_append.mp h).2.2 a ha a List.mem_cons_self).false
  rw [List.erase_append_right _ hnot, List.erase_cons_head]

/-- The orders that begin with an element of the middle. -/
theorem block_chain {n : ℕ} {p q : List α} {a : α} (h : (p ++ a :: q).Pairwise (· < ·))
    (hrest : (orders n (p ++ q)).IsChain (fun l l' => advance l = some l') ∧
      (orders n (p ++ q)).head? = some (p ++ q) ∧
      (orders n (p ++ q)).getLast? = some (p ++ q).reverse) :
    ((orders n ((p ++ a :: q).erase a)).map (a :: ·)).IsChain (fun l l' => advance l = some l') ∧
      ((orders n ((p ++ a :: q).erase a)).map (a :: ·)).head? = some (a :: (p ++ q)) ∧
      ((orders n ((p ++ a :: q).erase a)).map (a :: ·)).getLast? =
        some (a :: (p ++ q).reverse) := by
  obtain ⟨hchain, hhead, hlast⟩ := hrest
  rw [erase_middle h]
  refine ⟨List.isChain_map_of_isChain (a :: ·) (fun _ _ hstep => advance_cons hstep) hchain, ?_, ?_⟩
  · rw [List.head?_map, hhead]
    rfl
  · rw [List.getLast?_map, hlast]
    rfl

/-- Each order is followed by the one that it is advanced to; the first is ascending, the last
descending. -/
theorem orders_chain {n : ℕ} {s : List α} (hn : s.length = n) (h : s.Pairwise (· < ·)) :
    (orders n s).IsChain (fun l l' => advance l = some l') ∧
      (orders n s).head? = some s ∧ (orders n s).getLast? = some s.reverse := by
  induction n generalizing s with
  | zero =>
      obtain rfl := List.length_eq_zero_iff.mp hn
      exact ⟨List.isChain_singleton [], rfl, rfl⟩
  | succ n ih =>
      -- the blocks of the last elements
      have hsuffix : ∀ q p a, s = p ++ a :: q →
          ((a :: q).flatMap fun a => (orders n (s.erase a)).map (a :: ·)).IsChain
            (fun l l' => advance l = some l') ∧
          ((a :: q).flatMap fun a => (orders n (s.erase a)).map (a :: ·)).head? =
            some (a :: (p ++ q)) ∧
          ((a :: q).flatMap fun a => (orders n (s.erase a)).map (a :: ·)).getLast? =
            some s.reverse := by
        intro q
        induction q with
        | nil =>
            intro p a hs
            subst hs
            have hsorted := (List.pairwise_append.mp h).1
            have hlength : (p ++ []).length = n := by simpa using hn
            have hblock := block_chain h (ih hlength (by rwa [List.append_nil]))
            rw [List.flatMap_cons, List.flatMap_nil, List.append_nil]
            refine ⟨hblock.1, hblock.2.1, ?_⟩
            rw [hblock.2.2]
            simp
        | cons b q ihq =>
            intro p a hs
            obtain ⟨hchain, hhead, hlast⟩ := ihq (p ++ [a]) b (by rw [hs]; simp)
            have hsorted : (p ++ b :: q).Pairwise (· < ·) := by
              rw [hs] at h
              refine h.sublist ?_
              exact (List.Sublist.refl p).append (List.sublist_cons_self a (b :: q))
            have hlength : (p ++ b :: q).length = n := by
              rw [hs] at hn
              simp only [List.length_append, List.length_cons] at hn ⊢
              omega
            have hblock := block_chain (hs ▸ h) (ih hlength hsorted)
            rw [← hs] at hblock
            rw [List.flatMap_cons]
            refine ⟨List.isChain_append.mpr ⟨hblock.1, hchain, ?_⟩, ?_, ?_⟩
            · intro x hx y hy
              rw [hblock.2.2] at hx
              rw [hhead] at hy
              cases hx
              cases hy
              rw [advance_block (hs ▸ h)]
              simp
            · rw [List.head?_append, hblock.2.1]
              rfl
            · rw [List.getLast?_append, hlast]
              rfl
      cases s with
      | nil => cases hn
      | cons a q => exact hsuffix q [] a rfl

/-! ## One element of each -/

section

variable {β γ : Type}

/-- The ways to take one element of each list. -/
def choices : List (List β) → List (List β)
  | [] => [[]]
  | l :: ls => l.flatMap fun x => (choices ls).map (x :: ·)

theorem mem_choices {ls : List (List β)} {c : List β} :
    c ∈ choices ls ↔ List.Forall₂ (fun x l => x ∈ l) c ls := by
  induction ls generalizing c with
  | nil => rw [choices, List.mem_singleton, List.forall₂_nil_right_iff]
  | cons l ls ih =>
      simp only [choices, List.mem_flatMap, List.mem_map, List.forall₂_cons_right_iff, ih]
      exact ⟨fun ⟨x, hx, c', hc', h⟩ => ⟨x, c', hx, hc', h.symm⟩,
        fun ⟨x, c', hx, hc', h⟩ => ⟨x, hx, c', hc', h.symm⟩⟩

theorem nodup_choices {ls : List (List β)} (h : ∀ l ∈ ls, l.Nodup) : (choices ls).Nodup := by
  induction ls with
  | nil => exact List.nodup_singleton []
  | cons l ls ih =>
      obtain ⟨hl, hls⟩ := List.forall_mem_cons.mp h
      rw [choices, List.nodup_flatMap]
      refine ⟨fun x _ => (ih hls).map List.cons_injective, hl.imp fun {x y} hne c hc hc' => ?_⟩
      obtain ⟨_, _, rfl⟩ := List.mem_map.mp hc
      obtain ⟨_, _, hy⟩ := List.mem_map.mp hc'
      exact hne (List.cons.inj hy).1.symm

theorem length_choices (ls : List (List β)) :
    (choices ls).length = (ls.map List.length).prod := by
  induction ls with
  | nil => rfl
  | cons l ls ih => simp [choices, ih]

/-- A loop over a list that does not fail. -/
theorem mapM_eq_some {f : β → Option γ} {g : β → γ} {l : List β}
    (h : ∀ x ∈ l, f x = some (g x)) : l.mapM f = some (l.map g) := by
  induction l with
  | nil => rfl
  | cons x l ih =>
      obtain ⟨hx, hl⟩ := List.forall_mem_cons.mp h
      rw [List.mapM_cons, hx, ih hl]
      rfl

theorem mapM_eq_none {f : β → Option γ} {l : List β} {x : β} (hx : x ∈ l) (h : f x = none) :
    l.mapM f = none := by
  induction l with
  | nil => cases hx
  | cons y l ih =>
      rw [List.mapM_cons]
      rcases List.mem_cons.mp hx with rfl | hx
      · rw [h]
        rfl
      · rw [ih hx]
        cases f y <;> rfl

end

end Vanadium.Lib.Orders
