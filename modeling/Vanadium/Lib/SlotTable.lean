import Mathlib

/-!
# Tables with a key in every entry

A table has a fixed number of slots, some of which hold an entry, and every entry has a
key. As long as no two entries have the same key, the table is a map from keys to
entries, with room for as many keys as there are slots. What is done to a slot is then
something that is done to the map.
-/

namespace Vanadium.Lib.SlotTable

variable {n : ℕ} {α κ : Type} [DecidableEq κ] (key : α → κ)

/-- The first slot with an entry of the key. -/
def find (v : Fin n → Option α) (k : κ) : Option (Fin n) :=
  (List.finRange n).find? fun i => (v i).any fun a => key a = k

def lookup (v : Fin n → Option α) (k : κ) : Option α := (find key v k).bind v

def Distinct (v : Fin n → Option α) : Prop :=
  ∀ i j a b, v i = some a → v j = some b → key a = key b → i = j

variable {key} {v v' : Fin n → Option α} {i : Fin n} {a : α} {k : κ}

theorem find_some (h : find key v k = some i) : ∃ a, v i = some a ∧ key a = k := by
  have hany := List.find?_some h
  rw [Option.any_eq_true] at hany
  obtain ⟨a, ha, hk⟩ := hany
  exact ⟨a, ha, of_decide_eq_true hk⟩

theorem find_none : find key v k = none ↔ ∀ i a, v i = some a → key a ≠ k := by
  rw [find, List.find?_eq_none]
  refine ⟨fun h i a ha hk => h i (List.mem_finRange i) ?_, fun h i _ hany => ?_⟩
  · rw [ha]
    exact decide_eq_true hk
  · obtain ⟨a, ha, hk⟩ := (Option.any_eq_true _ _).mp hany
    exact h i a ha (of_decide_eq_true hk)

theorem Distinct.find_eq (h : Distinct key v) (ha : v i = some a) : find key v (key a) = some i := by
  cases hfind : find key v (key a) with
  | none => exact absurd rfl (find_none.mp hfind i a ha)
  | some j =>
      obtain ⟨b, hb, hk⟩ := find_some hfind
      rw [h i j a b ha hb hk.symm]

theorem Distinct.lookup_eq_some (h : Distinct key v) :
    lookup key v k = some a ↔ ∃ i, v i = some a ∧ key a = k := by
  refine ⟨fun hlookup => ?_, fun ⟨i, ha, hk⟩ => ?_⟩
  · obtain ⟨i, hfind, ha⟩ := Option.bind_eq_some_iff.mp hlookup
    obtain ⟨b, hb, hk⟩ := find_some hfind
    rw [ha] at hb
    cases hb
    exact ⟨i, ha, hk⟩
  · subst hk
    rw [lookup, h.find_eq ha, Option.bind_some, ha]

theorem lookup_eq_none : lookup key v k = none ↔ ∀ i a, v i = some a → key a ≠ k := by
  rw [← find_none, lookup]
  refine ⟨fun h => ?_, fun h => by rw [h, Option.bind_none]⟩
  cases hfind : find key v k with
  | none => rfl
  | some i =>
      obtain ⟨a, ha, _⟩ := find_some hfind
      rw [hfind, Option.bind_some, ha] at h
      cases h

/-- An entry is put into a slot: the key gets it, if no other slot has the key and the slot had
no other key. -/
theorem Distinct.put (h : Distinct key v) (hslot : ∀ b, v i = some b → key b = key a)
    (hkey : ∀ j b, v j = some b → key b = key a → j = i) :
    Distinct key (Function.update v i (some a)) ∧
      lookup key (Function.update v i (some a)) =
        Function.update (lookup key v) (key a) (some a) := by
  have hentry : ∀ j b, Function.update v i (some a) j = some b ↔
      (j = i ∧ b = a) ∨ (j ≠ i ∧ v j = some b) := by
    intro j b
    by_cases hj : j = i
    · rw [hj, Function.update_self]
      simp [eq_comm]
    · rw [Function.update_of_ne hj]
      simp [hj]
  have hdistinct : Distinct key (Function.update v i (some a)) := by
    intro j j' b b' hb hb' hk
    rcases (hentry j b).mp hb with ⟨rfl, rfl⟩ | ⟨_, hj⟩
    · rcases (hentry j' b').mp hb' with ⟨rfl, rfl⟩ | ⟨_, hj'⟩
      · rfl
      · exact (hkey j' b' hj' hk.symm).symm
    · rcases (hentry j' b').mp hb' with ⟨rfl, rfl⟩ | ⟨_, hj'⟩
      · exact hkey j b hj hk
      · exact h j j' b b' hj hj' hk
  refine ⟨hdistinct, funext fun k => Option.ext fun b => ?_⟩
  rw [hdistinct.lookup_eq_some]
  by_cases hk : k = key a
  · subst hk
    rw [Function.update_self, Option.some_inj]
    refine ⟨fun ⟨j, hb, hkb⟩ => ?_, fun hb => ⟨i, (hentry i b).mpr (.inl ⟨rfl, hb.symm⟩), by rw [hb]⟩⟩
    rcases (hentry j b).mp hb with ⟨_, rfl⟩ | ⟨hj, hb⟩
    · rfl
    · exact absurd (hkey j b hb hkb) hj
  · rw [Function.update_of_ne hk, h.lookup_eq_some]
    refine ⟨fun ⟨j, hb, hkb⟩ => ?_, fun ⟨j, hb, hkb⟩ => ⟨j, (hentry j b).mpr (.inr ⟨?_, hb⟩), hkb⟩⟩
    · rcases (hentry j b).mp hb with ⟨_, rfl⟩ | ⟨_, hb⟩
      · exact absurd hkb.symm hk
      · exact ⟨j, hb, hkb⟩
    · rintro rfl
      exact hk (hkb.symm.trans (hslot b hb))

/-- Entries are taken away. -/
theorem Distinct.shrink (h : Distinct key v) (hv : ∀ i, v' i = v i ∨ v' i = none) :
    Distinct key v' ∧ ∀ k, lookup key v' k = lookup key v k ∨ lookup key v' k = none := by
  have hsub : ∀ {i a}, v' i = some a → v i = some a := by
    intro i a ha
    rcases hv i with heq | hnone
    · rwa [heq] at ha
    · rw [hnone] at ha
      cases ha
  have hdistinct : Distinct key v' := fun i j a b ha hb => h i j a b (hsub ha) (hsub hb)
  refine ⟨hdistinct, fun k => ?_⟩
  cases hlookup : lookup key v' k with
  | none => exact .inr rfl
  | some a =>
      obtain ⟨i, ha, hk⟩ := hdistinct.lookup_eq_some.mp hlookup
      exact .inl (h.lookup_eq_some.mpr ⟨i, hsub ha, hk⟩).symm

/-- A slot is emptied. -/
theorem Distinct.remove (h : Distinct key v) (ha : v i = some a) :
    Distinct key (Function.update v i none) ∧
      lookup key (Function.update v i none) = Function.update (lookup key v) (key a) none := by
  have hsub : ∀ j, Function.update v i none j = v j ∨ Function.update v i none j = none := by
    intro j
    by_cases hj : j = i
    · rw [hj, Function.update_self]
      exact .inr rfl
    · exact .inl (Function.update_of_ne hj _ _)
  obtain ⟨hdistinct, _⟩ := h.shrink hsub
  refine ⟨hdistinct, funext fun k => ?_⟩
  by_cases hk : k = key a
  · subst hk
    rw [Function.update_self, lookup_eq_none]
    intro j b hb hkb
    by_cases hj : j = i
    · rw [hj, Function.update_self] at hb
      cases hb
    · rw [Function.update_of_ne hj] at hb
      exact hj (h j i b a hb ha hkb)
  · rw [Function.update_of_ne hk]
    refine Option.ext fun b => ?_
    rw [hdistinct.lookup_eq_some, h.lookup_eq_some]
    refine ⟨fun ⟨j, hb, hkb⟩ => ?_, fun ⟨j, hb, hkb⟩ => ⟨j, ?_, hkb⟩⟩
    · rcases hsub j with heq | hnone
      · exact ⟨j, heq ▸ hb, hkb⟩
      · rw [hnone] at hb
        cases hb
    · have hj : j ≠ i := by
        rintro rfl
        rw [ha] at hb
        cases hb
        exact hk hkb.symm
      rw [Function.update_of_ne hj, hb]

/-- There are as many keys as full slots. -/
theorem Distinct.ncard_keys (h : Distinct key v) :
    {k | lookup key v k ≠ none}.ncard = {i | v i ≠ none}.ncard := by
  have hsome : ∀ i ∈ {i | v i ≠ none}, ∃ a, v i = some a := fun i hi =>
    Option.ne_none_iff_exists'.mp hi
  choose entry hentry using hsome
  refine (Set.ncard_congr (fun i hi => key (entry i hi)) (fun i hi => ?_)
    (fun i j hi hj hk => ?_) fun k hk => ?_).symm
  · have hlookup := h.lookup_eq_some.mpr ⟨i, hentry i hi, rfl⟩
    exact fun hnone => (by rw [hlookup] at hnone; cases hnone)
  · exact h i j _ _ (hentry i hi) (hentry j hj) hk
  · obtain ⟨a, ha⟩ := Option.ne_none_iff_exists'.mp hk
    obtain ⟨i, hi, hk⟩ := h.lookup_eq_some.mp ha
    have hne : v i ≠ none := by
      rw [hi]
      exact Option.some_ne_none a
    refine ⟨i, hne, ?_⟩
    have hsame := (hentry i hne).symm.trans hi
    rw [Option.some_inj.mp hsame, hk]

end Vanadium.Lib.SlotTable
