import Vanadium.Bip388.Enumerate
import Vanadium.Lib.Orders

/-!
# The orders of the iterator

The iterator looks for the last place where an order ascends, and for the last element
that is greater than the one there. Behind that place the order descends, so that this
is the least such element, and what it does is to go on to the next order.
-/

namespace Vanadium.Bip388.Cleartext

open Lib Orders

/-! ## The last index -/

theorem rfind_succ (n : ℕ) (p : ℕ → Bool) :
    rfind (n + 1) p = if p n then some n else rfind n p := by
  rw [rfind, List.range_succ, List.reverse_append, List.reverse_singleton, List.singleton_append]
  cases hp : p n with
  | true => rw [List.find?_cons_of_pos hp, if_pos rfl]
  | false =>
      rw [List.find?_cons_of_neg (by simp [hp]), if_neg (by simp)]
      rfl

theorem rfind_eq_none {n : ℕ} {p : ℕ → Bool} : rfind n p = none ↔ ∀ k < n, p k = false := by
  simp only [rfind, List.find?_eq_none, List.mem_reverse, List.mem_range, Bool.not_eq_true]

theorem rfind_eq_some {n i : ℕ} {p : ℕ → Bool} :
    rfind n p = some i ↔ i < n ∧ p i = true ∧ ∀ k < n, i < k → p k = false := by
  induction n with
  | zero => simp [rfind]
  | succ n ih =>
      rw [rfind_succ]
      cases hp : p n with
      | true =>
          rw [if_pos rfl]
          refine ⟨fun h => ?_, fun ⟨hi, _, hlast⟩ => ?_⟩
          · cases h
            exact ⟨Nat.lt_succ_self i, hp, fun k hk hik => by omega⟩
          · rcases Nat.lt_or_ge i n with hlt | hge
            · rw [hlast n (Nat.lt_succ_self n) hlt] at hp
              cases hp
            · have heq : i = n := by omega
              rw [heq]
      | false =>
          rw [if_neg (by simp), ih]
          refine ⟨fun ⟨hi, hpi, hlast⟩ => ⟨by omega, hpi, fun k hk hik => ?_⟩,
            fun ⟨hi, hpi, hlast⟩ => ⟨?_, hpi, fun k hk hik => hlast k (by omega) hik⟩⟩
          · rcases Nat.lt_or_ge k n with hlt | hge
            · exact hlast k hlt hik
            · rw [show k = n by omega]
              exact hp
          · have hne : i ≠ n := by
              rintro rfl
              rw [hp] at hpi
              cases hpi
            omega

/-! ## One step -/

/-- The last place where an order ascends. -/
def pivot (l : List ℕ) : Option ℕ :=
  rfind (l.length - 1) fun k => l.getD k 0 < l.getD (k + 1) 0

/-- The last element that is greater than the `i`-th. -/
def target (l : List ℕ) (i : ℕ) : Option ℕ := rfind l.length fun j => l.getD i 0 < l.getD j 0

def exchange (l : List ℕ) (i j : ℕ) : List ℕ :=
  (swap l i j).take (i + 1) ++ ((swap l i j).drop (i + 1)).reverse

theorem pivot_none_iff {l : List ℕ} : pivot l = none ↔ l.Pairwise (· ≥ ·) := by
  rw [pivot, rfind_eq_none, ← List.isChain_iff_pairwise]
  induction l with
  | nil => simp
  | cons a l ih =>
      cases l with
      | nil => simp
      | cons b l =>
          rw [List.isChain_cons_cons, ← ih]
          simp only [List.length_cons, Nat.add_sub_cancel, decide_eq_false_iff_not, not_lt]
          refine ⟨fun h => ⟨h 0 (by omega), fun k hk => h (k + 1) (by omega)⟩,
            fun ⟨h₀, h⟩ k hk => ?_⟩
          cases k with
          | zero => exact h₀
          | succ k => exact h k (by omega)

theorem pivot_cons {a i : ℕ} {l : List ℕ} (h : pivot l = some i) :
    pivot (a :: l) = some (i + 1) := by
  obtain ⟨hi, hp, hlast⟩ := rfind_eq_some.mp h
  refine rfind_eq_some.mpr ⟨by simp only [List.length_cons]; omega, hp, fun k hk hik => ?_⟩
  obtain ⟨k, rfl⟩ : ∃ k', k = k' + 1 := ⟨k - 1, by omega⟩
  simp only [List.length_cons] at hk
  exact hlast k (by omega) (by omega)

theorem target_cons {a i j : ℕ} {l : List ℕ} (h : target l i = some j) :
    target (a :: l) (i + 1) = some (j + 1) := by
  obtain ⟨hj, hp, hlast⟩ := rfind_eq_some.mp h
  refine rfind_eq_some.mpr ⟨by simp only [List.length_cons]; omega, hp, fun k hk hjk => ?_⟩
  obtain ⟨k, rfl⟩ : ∃ k', k = k' + 1 := ⟨k - 1, by omega⟩
  simp only [List.length_cons] at hk
  exact hlast k (by omega) (by omega)

theorem exchange_cons (a i j : ℕ) (l : List ℕ) :
    exchange (a :: l) (i + 1) (j + 1) = a :: exchange l i j := by
  simp [exchange, swap]

/-- What comes to the front of a descending rest, and how the rest begins again. -/
theorem exchange_front {a b : ℕ} {smaller greater : List ℕ} (ha : a < b)
    (hsmaller : ∀ x ∈ smaller, x < a) :
    target (a :: (greater.reverse ++ b :: smaller.reverse)) 0 = some (greater.length + 1) ∧
      exchange (a :: (greater.reverse ++ b :: smaller.reverse)) 0 (greater.length + 1) =
        b :: (smaller ++ a :: greater) := by
  have hb : (greater.reverse ++ b :: smaller.reverse).getD greater.length 0 = b := by
    simp [List.getD_eq_getElem?_getD]
  refine ⟨rfind_eq_some.mpr ⟨by simp, ?_, fun k hk hlt => ?_⟩, ?_⟩
  · simp only [List.getD_cons_zero, List.getD_cons_succ, hb, decide_eq_true_eq]
    exact ha
  · obtain ⟨m, rfl⟩ : ∃ m, k = greater.length + 1 + (m + 1) :=
      ⟨k - (greater.length + 1) - 1, by omega⟩
    have hm : m < smaller.reverse.length := by
      simp only [List.length_cons, List.length_append, List.length_reverse] at hk ⊢
      omega
    have hget : (greater.reverse ++ b :: smaller.reverse).getD (greater.length + (m + 1)) 0 =
        smaller.reverse[m] := by
      rw [List.getD_eq_getElem?_getD, List.getElem?_append_right (by simp), List.length_reverse,
        Nat.add_sub_cancel_left, List.getElem?_cons_succ, List.getElem?_eq_getElem hm]
      rfl
    rw [show greater.length + 1 + (m + 1) = greater.length + (m + 1) + 1 by omega]
    simp only [List.getD_cons_zero, List.getD_cons_succ, hget, decide_eq_false_iff_not, not_lt]
    exact (hsmaller _ (List.mem_reverse.mp (List.getElem_mem hm))).le
  · have hset : (greater.reverse ++ b :: smaller.reverse).set greater.length a =
        greater.reverse ++ a :: smaller.reverse := by
      rw [List.set_append_right _ _ (by simp), List.length_reverse, Nat.sub_self]
      rfl
    simp only [exchange, swap, List.set_cons_zero, List.getD_cons_zero, List.getD_cons_succ, hb,
      List.set_cons_succ, hset, List.take_succ_cons, List.take_zero, List.drop_succ_cons,
      List.drop_zero, List.reverse_append, List.reverse_cons, List.reverse_reverse,
      List.append_assoc, List.singleton_append]

/-- The step of the iterator goes on to the next order. -/
theorem advance_eq {l : List ℕ} (h : l.Nodup) :
    (pivot l = none → advance l = none) ∧
      ∀ i, pivot l = some i → ∃ j, target l i = some j ∧ advance l = some (exchange l i j) := by
  induction l with
  | nil => exact ⟨fun _ => rfl, fun i hi => by cases hi⟩
  | cons a l ih =>
      obtain ⟨ha, hl⟩ := List.nodup_cons.mp h
      obtain ⟨ihnone, ihsome⟩ := ih hl
      cases hpivot : pivot l with
      | some i =>
          obtain ⟨j, hj, hadvance⟩ := ihsome i hpivot
          rw [pivot_cons hpivot]
          refine ⟨fun hnone => (by cases hnone), fun i' hi' => ?_⟩
          cases hi'
          exact ⟨j + 1, target_cons hj, by rw [advance_cons hadvance, exchange_cons]⟩
      | none =>
          have hdesc := pivot_none_iff.mp hpivot
          have hsplit :=
            List.takeWhile_append_dropWhile (p := fun x => decide (x < a)) (l := l.reverse)
          have hsmaller : ∀ x ∈ l.reverse.takeWhile (· < a), x < a := fun x hx => by
            simpa using List.mem_takeWhile_imp (p := fun x => decide (x < a)) hx
          rw [advance, ihnone hpivot]
          cases hdrop : l.reverse.dropWhile (· < a) with
          | nil =>
              rw [hdrop, List.append_nil] at hsplit
              have hless : ∀ x ∈ l, x < a := fun x hx => by
                rw [hsplit] at hsmaller
                exact hsmaller x (List.mem_reverse.mpr hx)
              have hdesc' : (a :: l).Pairwise (· ≥ ·) :=
                List.pairwise_cons.mpr ⟨fun x hx => (hless x hx).le, hdesc⟩
              refine ⟨fun _ => rfl, fun i hi => ?_⟩
              rw [pivot_none_iff.mpr hdesc'] at hi
              cases hi
          | cons b greater =>
              rw [hdrop] at hsplit
              have hb : ¬ decide (b < a) = true := by
                have hhead := List.head?_dropWhile_not (fun x => decide (x < a)) l.reverse
                rw [hdrop] at hhead
                simpa using hhead
              have hbl : b ∈ l := List.mem_reverse.mp (by rw [← hsplit]; simp)
              have hab : a < b := by
                have hne : b ≠ a := by
                  rintro rfl
                  exact ha hbl
                have hge : ¬ b < a := by simpa using hb
                omega
              have heq : l = greater.reverse ++ b :: (l.reverse.takeWhile (· < a)).reverse := by
                have hreverse := congrArg List.reverse hsplit
                simpa using hreverse.symm
              obtain ⟨htarget, hexchange⟩ :=
                @exchange_front a b _ greater hab hsmaller
              rw [← heq] at htarget hexchange
              refine ⟨fun hnone => ?_, fun i hi => ?_⟩
              · have hge := (List.pairwise_cons.mp (pivot_none_iff.mp hnone)).1 b hbl
                exact absurd hab (not_lt.mpr hge)
              · -- behind the first element the order does not ascend
                have hi0 : i = 0 := by
                  by_contra hne
                  obtain ⟨k, rfl⟩ : ∃ k, i = k + 1 := ⟨i - 1, by omega⟩
                  obtain ⟨hk, hp, _⟩ := rfind_eq_some.mp hi
                  simp only [List.length_cons] at hk
                  have hnot := rfind_eq_none.mp hpivot k (by omega)
                  simp only [List.getD_cons_succ] at hp
                  rw [hnot] at hp
                  cases hp
                subst hi0
                exact ⟨_, htarget, by rw [hexchange]⟩

/-! ## All of them -/

theorem next_eq_none {it : PermutationIter} (hdone : it.done = false) (hfirst : it.first = false)
    (h : it.current.Nodup) (hlast : advance it.current = none) :
    it.next = some (none, { it with done := true }) := by
  have hpivot : (rfind (it.current.length - 1) fun k =>
      decide (it.current.getD k 0 < it.current.getD (k + 1) 0)) = pivot it.current := rfl
  simp only [PermutationIter.next, hdone, hfirst, Bool.false_eq_true, if_false, hpivot]
  cases hp : pivot it.current with
  | none => rfl
  | some i =>
      obtain ⟨j, _, hadvance⟩ := (advance_eq h).2 i hp
      rw [hlast] at hadvance
      cases hadvance

theorem next_eq_some {it : PermutationIter} {order : List ℕ} (hdone : it.done = false)
    (hfirst : it.first = false) (h : it.current.Nodup) (hstep : advance it.current = some order) :
    it.next = some (some order, { it with current := order }) := by
  have hpivot : (rfind (it.current.length - 1) fun k =>
      decide (it.current.getD k 0 < it.current.getD (k + 1) 0)) = pivot it.current := rfl
  simp only [PermutationIter.next, hdone, hfirst, Bool.false_eq_true, if_false, hpivot]
  cases hp : pivot it.current with
  | none =>
      rw [(advance_eq h).1 hp] at hstep
      cases hstep
  | some i =>
      obtain ⟨j, hj, hadvance⟩ := (advance_eq h).2 i hp
      rw [hstep] at hadvance
      cases hadvance
      have htarget : (rfind it.current.length fun j =>
        decide (it.current.getD i 0 < it.current.getD j 0)) = some j := hj
      simp only [htarget, Option.bind_eq_bind, Option.bind_some]
      rfl

/-- What follows an order. -/
theorem items_chain {rest : List (List ℕ)} {it : PermutationIter} (hdone : it.done = false)
    (hfirst : it.first = false)
    (hchain : (it.current :: rest).IsChain fun l l' => advance l = some l')
    (hlast : ∀ l ∈ (it.current :: rest).getLast?, advance l = none)
    (hnodup : ∀ l ∈ it.current :: rest, l.Nodup) :
    PermutationIter.items (rest.length + 1) it = some rest := by
  induction rest generalizing it with
  | nil =>
      have hnone : advance it.current = none := hlast _ rfl
      rw [PermutationIter.items,
        next_eq_none hdone hfirst (hnodup _ List.mem_cons_self) hnone]
      rfl
  | cons order rest ih =>
      obtain ⟨hstep, hchain⟩ := List.isChain_cons_cons.mp hchain
      have hrest := @ih { it with current := order } hdone hfirst hchain
        (fun l hl => hlast l (by rw [List.getLast?_cons_cons]; exact hl))
        (fun l hl => hnodup l (List.mem_cons_of_mem _ hl))
      rw [List.length_cons, PermutationIter.items,
        next_eq_some hdone hfirst (hnodup _ List.mem_cons_self) hstep]
      simp only [Option.bind_eq_bind, Option.bind_some, hrest]
      rfl

/-- A loop over the iterator sees every order once; over that of no elements, it sees nothing. -/
theorem orders_eq {n : ℕ} (h : 0 < n) :
    PermutationIter.orders n = some (Orders.orders n (List.range n)) := by
  have hlength : (List.range n).length = n := List.length_range
  obtain ⟨hchain, hhead, hlast⟩ := orders_chain hlength List.pairwise_lt_range
  have hcount := length_orders hlength
  have hmem : ∀ l ∈ Orders.orders n (List.range n), l.Nodup := fun l hl =>
    ((mem_orders hlength).mp hl).nodup_iff.mpr List.nodup_range
  rw [PermutationIter.orders, ← hcount]
  cases horders : Orders.orders n (List.range n) with
  | nil =>
      rw [horders] at hhead
      cases hhead
  | cons order rest =>
      rw [horders] at hchain hhead hlast hmem
      cases hhead
      have hnext : (PermutationIter.new n).next =
          some (some (List.range n), { PermutationIter.new n with first := false }) := by
        have hdone : (PermutationIter.new n).done = false := by
          simp [PermutationIter.new]
          omega
        simp only [PermutationIter.next, hdone, Bool.false_eq_true, if_false]
        rfl
      have hrest := @items_chain rest
        { PermutationIter.new n with first := false } (by
          simp [PermutationIter.new]
          omega) rfl hchain (fun l hl => by
            have hl' : l ∈ some (List.range n).reverse := hlast ▸ hl
            cases hl'
            exact advance_reverse List.pairwise_lt_range) hmem
      rw [List.length_cons, PermutationIter.items, hnext]
      simp only [Option.bind_eq_bind, Option.bind_some, hrest]
      rfl

end Vanadium.Bip388.Cleartext
