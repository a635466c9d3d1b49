import Vanadium.Bitcoin.UnsignedTx

/-!
# Lock times

An input may require a height, a time, or either of the two. A transaction has one
lock time for all of its inputs: a height if every input that requires anything can
do with one, and a time if not and every such input can do with that. The value
that is there for the case that no input requires anything is for that case only.

The code takes the maximum with that value in all cases, and gives up where there
are heights and times.
-/

namespace Vanadium.Bitcoin

open Lib

/-! ## What is prescribed -/

def Input.required_height (input : Input) : Option ℕ :=
  input.required_height_locktime.map BitVec.toNat

def Input.required_time (input : Input) : Option ℕ :=
  input.required_time_locktime.map BitVec.toNat

/-- A height that an input can do with. -/
def Input.height (input : Input) : Option ℕ := input.required_height.filter (· < 500000000)

/-- A time that an input can do with. -/
def Input.time (input : Input) : Option ℕ := input.required_time.filter (500000000 ≤ ·)

namespace Psbt

variable (psbt : Psbt)

def heights : List ℕ := psbt.inputs.filterMap Input.required_height

def times : List ℕ := psbt.inputs.filterMap Input.required_time

/-- The inputs that require a lock time. -/
def constraining : List Input :=
  psbt.inputs.filter fun input => input.required_height.isSome || input.required_time.isSome

def AllowsHeight : Prop := ∀ input ∈ psbt.constraining, input.height.isSome

def AllowsTime : Prop := ∀ input ∈ psbt.constraining, input.time.isSome

instance : Decidable psbt.AllowsHeight :=
  inferInstanceAs (Decidable (∀ input ∈ psbt.constraining, input.height.isSome))

instance : Decidable psbt.AllowsTime :=
  inferInstanceAs (Decidable (∀ input ∈ psbt.constraining, input.time.isSome))

def fallback : ℕ := (psbt.fallback_locktime.getD 0).toNat

/-- The lock time, unless no kind satisfies all inputs. -/
def prescribed : Option ℕ :=
  if psbt.constraining = [] then some psbt.fallback
  else if psbt.AllowsHeight then (psbt.constraining.filterMap Input.height).max?
  else if psbt.AllowsTime then (psbt.constraining.filterMap Input.time).max?
  else none

end Psbt

/-! ## Two kinds of requirements -/

section
variable {α : Type} {f g : α → Option ℕ} {l : List α} {c : α → Bool} {p : ℕ → Bool}

theorem filterMap_of_allowed
    (hc : ∀ a, c a = true ↔ (f a).isSome ∨ (g a).isSome)
    (h : ∀ a ∈ l.filter c, ((f a).filter p).isSome) :
    (l.filter c).filterMap (fun a => (f a).filter p) = l.filterMap f := by
  rw [List.filterMap_filter]
  refine List.filterMap_congr fun a ha => ?_
  split
  · next hca =>
      obtain ⟨v, hv⟩ := Option.isSome_iff_exists.mp (h a (List.mem_filter.mpr ⟨ha, hca⟩))
      rw [hv, (Option.filter_eq_some_iff.mp hv).1]
  · next hca =>
      rw [hc, not_or] at hca
      exact (Option.not_isSome_iff_eq_none.mp hca.1).symm

theorem allowed_iff
    (hc : ∀ a, c a = true ↔ (f a).isSome ∨ (g a).isSome) (hg : l.filterMap g = []) :
    (∀ a ∈ l.filter c, ((f a).filter p).isSome) ↔ ∀ v ∈ l.filterMap f, p v := by
  constructor
  · intro h v hv
    obtain ⟨a, ha, hfa⟩ := List.mem_filterMap.mp hv
    have hca : c a = true := (hc a).mpr (.inl (by rw [hfa]; rfl))
    obtain ⟨w, hw⟩ := Option.isSome_iff_exists.mp (h a (List.mem_filter.mpr ⟨ha, hca⟩))
    rw [hfa] at hw
    obtain ⟨hvw, hpw⟩ := Option.filter_eq_some_iff.mp hw
    cases hvw
    exact hpw
  · intro h a ha
    obtain ⟨ha, hca⟩ := List.mem_filter.mp ha
    have hga := List.filterMap_eq_nil_iff.mp hg a ha
    rw [hc, hga] at hca
    obtain ⟨v, hv⟩ := Option.isSome_iff_exists.mp (hca.resolve_right (by simp))
    rw [hv, Option.filter_some, if_pos (h v (List.mem_filterMap.mpr ⟨a, ha, hv⟩))]
    rfl

theorem not_allowed
    (hc : ∀ a, c a = true ↔ (f a).isSome ∨ (g a).isSome) (hf : l.filterMap f = [])
    (hg : l.filterMap g ≠ []) : ¬ ∀ a ∈ l.filter c, ((f a).filter p).isSome := by
  intro h
  obtain ⟨v, hv⟩ := List.exists_mem_of_ne_nil _ hg
  obtain ⟨a, ha, hga⟩ := List.mem_filterMap.mp hv
  have hca : c a = true := (hc a).mpr (.inr (by rw [hga]; rfl))
  have := h a (List.mem_filter.mpr ⟨ha, hca⟩)
  rw [List.filterMap_eq_nil_iff.mp hf a ha] at this
  simp at this

end

/-! ## What the code computes -/

theorem toNat_u32_max (a b : U32) : (u32_max a b).toNat = max a.toNat b.toNat := by
  unfold u32_max
  split
  · next h => exact (max_eq_right h).symm
  · next h => exact (max_eq_left (le_of_not_ge h)).symm

/-- The first requirement of a list and those that follow. -/
theorem foldl_raise (l : List (Option U32)) (req : Option U32) :
    (l.foldl raise req).map BitVec.toNat =
      ((req.map BitVec.toNat).toList ++ l.filterMap (Option.map BitVec.toNat)).max? := by
  induction l generalizing req with
  | nil => cases req <;> rfl
  | cons o l ih =>
      rw [List.foldl_cons, ih]
      cases o with
      | none => rfl
      | some v =>
          cases req with
          | none => rfl
          | some m =>
              simp only [raise, Option.map_some, Option.toList_some, List.cons_append,
                List.nil_append, List.max?_cons', toNat_u32_max]
              rfl

namespace Psbt

variable (psbt : Psbt)

theorem requirements_eq :
    psbt.requirements.1.map BitVec.toNat = psbt.heights.max? ∧
      psbt.requirements.2.map BitVec.toNat = psbt.times.max? := by
  have hfoldl : ∀ {step : Option U32 × Option U32 → Input → Option U32 × Option U32},
      (∀ h t inp, step (h, t) inp =
        (raise h inp.required_height_locktime, raise t inp.required_time_locktime)) →
      ∀ (l : List Input) (h t : Option U32), l.foldl step (h, t) =
        ((l.map fun inp => inp.required_height_locktime).foldl raise h,
          (l.map fun inp => inp.required_time_locktime).foldl raise t) := by
    intro step hstep l
    induction l with
    | nil => intro h t; rfl
    | cons input l ih =>
        intro h t
        rw [List.foldl_cons, hstep]
        exact ih _ _
  unfold requirements
  rw [hfoldl (fun _ _ _ => rfl) psbt.inputs none none, foldl_raise, foldl_raise, List.filterMap_map, List.filterMap_map]
  exact ⟨rfl, rfl⟩

/-- The lock time, in terms of the largest requirements. -/
def locked (fallback : ℕ) : Option ℕ → Option ℕ → Option ℕ
  | some _, some _ => none
  | some h, none => if 500000000 ≤ h then none else some (max fallback h)
  | none, some t => if t < 500000000 then none else some (max fallback t)
  | none, none => some fallback

theorem lock_time_eq :
    psbt.lock_time.toOption.map BitVec.toNat =
      locked psbt.fallback psbt.heights.max? psbt.times.max? := by
  obtain ⟨hh, ht⟩ := psbt.requirements_eq
  rw [← hh, ← ht]
  unfold lock_time
  rcases psbt.requirements with ⟨_ | h, _ | t⟩
  · rfl
  · show _ = if t.toNat < LOCKTIME_THRESHOLD.toNat then none else _
    simp only [BitVec.lt_def]
    split
    · rfl
    · exact congrArg some (toNat_u32_max _ _)
  · show _ = if LOCKTIME_THRESHOLD.toNat ≤ h.toNat then none else _
    simp only [BitVec.le_def]
    split
    · rfl
    · exact congrArg some (toNat_u32_max _ _)
  · rfl

/-! ## When the two agree -/

theorem constraining_iff (input : Input) :
    (input.required_height.isSome || input.required_time.isSome) = true ↔
      input.required_height.isSome ∨ input.required_time.isSome := by
  rw [Bool.or_eq_true]

theorem constraining_iff' (input : Input) :
    (input.required_height.isSome || input.required_time.isSome) = true ↔
      input.required_time.isSome ∨ input.required_height.isSome := by
  rw [constraining_iff, or_comm]

theorem constraining_eq_nil : psbt.constraining = [] ↔ psbt.heights = [] ∧ psbt.times = [] := by
  rw [constraining, heights, times, List.filterMap_eq_nil_iff, List.filterMap_eq_nil_iff,
    List.filter_eq_nil_iff, ← forall₂_and]
  refine forall₂_congr fun input _ => ?_
  rw [constraining_iff, not_or, Option.not_isSome_iff_eq_none, Option.not_isSome_iff_eq_none]

theorem prescribed_eq :
    psbt.prescribed =
      if psbt.heights = [] ∧ psbt.times = [] then some psbt.fallback
      else if psbt.AllowsHeight then psbt.heights.max?
      else if psbt.AllowsTime then psbt.times.max?
      else none := by
  unfold prescribed
  rw [if_congr psbt.constraining_eq_nil rfl rfl]
  split
  · rfl
  · split
    · next h => exact congrArg List.max? (filterMap_of_allowed constraining_iff h)
    · split
      · next h => exact congrArg List.max? (filterMap_of_allowed constraining_iff' h)
      · rfl

/-- There is nothing to choose, and the value for the case of no requirements is not larger than
what is required. -/
def Unambiguous : Prop :=
  (psbt.heights = [] ∧ psbt.times = []) ∨
  (psbt.heights ≠ [] ∧ psbt.times ≠ [] ∧ ¬ psbt.AllowsHeight ∧ ¬ psbt.AllowsTime) ∨
  (psbt.heights ≠ [] ∧ psbt.times = [] ∧
    ∃ h ∈ psbt.heights, 500000000 ≤ h ∨ psbt.fallback ≤ h) ∨
  (psbt.heights = [] ∧ psbt.times ≠ [] ∧
    ((∀ t ∈ psbt.times, t < 500000000) ∨
      (∀ t ∈ psbt.times, 500000000 ≤ t) ∧ ∃ t ∈ psbt.times, psbt.fallback ≤ t))

theorem allowsHeight_iff (h : psbt.times = []) :
    psbt.AllowsHeight ↔ ∀ h ∈ psbt.heights, h < 500000000 := by
  refine (allowed_iff (p := (· < 500000000)) constraining_iff h).trans ?_
  simp only [decide_eq_true_eq]
  rfl

theorem allowsTime_iff (h : psbt.heights = []) :
    psbt.AllowsTime ↔ ∀ t ∈ psbt.times, 500000000 ≤ t := by
  refine (allowed_iff (p := (500000000 ≤ ·)) constraining_iff' h).trans ?_
  simp only [decide_eq_true_eq]
  rfl

theorem lock_time_iff :
    psbt.lock_time.toOption.map BitVec.toNat = psbt.prescribed ↔ psbt.Unambiguous := by
  rw [lock_time_eq, prescribed_eq, Unambiguous]
  rcases hh : psbt.heights.max? with _ | h
  · have hheights := List.max?_eq_none_iff.mp hh
    rcases ht : psbt.times.max? with _ | t
    · have htimes := List.max?_eq_none_iff.mp ht
      simp [locked, hheights, htimes]
    · -- there are only times
      obtain ⟨hmem, hmax⟩ := List.max?_eq_some_iff.mp ht
      have htimes := List.ne_nil_of_mem hmem
      have hheight : ¬ psbt.AllowsHeight := not_allowed constraining_iff hheights htimes
      have hlarge : (∃ t ∈ psbt.times, psbt.fallback ≤ t) ↔ psbt.fallback ≤ t :=
        ⟨fun ⟨t', ht', hle⟩ => hle.trans (hmax t' ht'), fun hle => ⟨t, hmem, hle⟩⟩
      have hsmall : (∀ t ∈ psbt.times, t < 500000000) ↔ t < 500000000 :=
        ⟨fun hall => hall t hmem, fun hlt t' ht' => (hmax t' ht').trans_lt hlt⟩
      simp only [hheights, htimes, hheight, locked, hlarge, hsmall, ← psbt.allowsTime_iff hheights]
      by_cases htime : psbt.AllowsTime
      · have hge := (psbt.allowsTime_iff hheights).mp htime t hmem
        simp [htime, htimes, hge.not_gt]
      · by_cases hlt : t < 500000000
        · simp [htime, hlt, htimes]
        · simp [htime, hlt]
  · obtain ⟨hmem, hmax⟩ := List.max?_eq_some_iff.mp hh
    have hheights := List.ne_nil_of_mem hmem
    rcases ht : psbt.times.max? with _ | t
    · -- there are only heights
      have htimes := List.max?_eq_none_iff.mp ht
      have htime : ¬ psbt.AllowsTime := not_allowed constraining_iff' htimes hheights
      have hsmall : psbt.AllowsHeight ↔ h < 500000000 := by
        rw [psbt.allowsHeight_iff htimes]
        exact ⟨fun hall => hall h hmem, fun hlt h' hh' => (hmax h' hh').trans_lt hlt⟩
      have hlarge : (∃ h ∈ psbt.heights, 500000000 ≤ h ∨ psbt.fallback ≤ h) ↔
          500000000 ≤ h ∨ psbt.fallback ≤ h :=
        ⟨fun ⟨h', hh', hle⟩ => hle.imp (fun hle => hle.trans (hmax h' hh'))
          fun hle => hle.trans (hmax h' hh'), fun hle => ⟨h, hmem, hle⟩⟩
      simp only [hheights, htimes, htime, locked, hlarge, hsmall]
      by_cases hlt : h < 500000000
      · simp [hlt, not_le.mpr hlt, hheights]
      · simp [hlt, not_lt.mp hlt, hheights]
    · -- there are heights and times
      have htimes := List.ne_nil_of_mem (List.max?_eq_some_iff.mp ht).1
      simp only [hheights, htimes, locked]
      by_cases hheight : psbt.AllowsHeight
      · simp [hheight]
      · by_cases htime : psbt.AllowsTime
        · simp [hheight, htime]
        · simp [hheight, htime, hheights, htimes]

end Psbt

/-! ## The transaction -/

def Input.Complete (input : Input) : Prop :=
  input.previous_txid.isSome ∧ input.output_index.isSome

def Output.Complete (output : Output) : Prop := output.amount.isSome ∧ output.script.isSome

namespace Psbt

variable (psbt : Psbt)

/-- Nothing but a lock time is missing for a transaction. -/
def Complete : Prop :=
  (∀ input ∈ psbt.inputs, input.Complete) ∧ ∀ output ∈ psbt.outputs, output.Complete

end Psbt

theorem mapM'_except {ε α β : Type} {f : α → Except ε β} {l : List α} :
    (∃ l', l.mapM' f = .ok l') ↔ ∀ a ∈ l, ∃ b, f a = .ok b := by
  induction l with
  | nil => exact ⟨fun _ => by simp, fun _ => ⟨[], rfl⟩⟩
  | cons a l ih =>
      rw [List.forall_mem_cons, ← ih, List.mapM'_cons]
      rcases hb : f a with e | b
      · refine ⟨fun ⟨l', h⟩ => ?_, fun ⟨⟨b, h⟩, _⟩ => ?_⟩
        · cases h
        · cases h
      · rcases hl : l.mapM' f with e | l'
        · refine ⟨fun ⟨l', h⟩ => ?_, fun ⟨_, l', h⟩ => ?_⟩
          · cases h
          · cases h
        · exact ⟨fun _ => ⟨⟨b, rfl⟩, l', rfl⟩, fun _ => ⟨b :: l', rfl⟩⟩

theorem Input.tx_in_ok {input : Input} : (∃ i, input.tx_in = .ok i) ↔ input.Complete := by
  unfold Input.tx_in Input.Complete
  rcases input.previous_txid with _ | txid <;> rcases input.output_index with _ | vout <;> simp

theorem Output.tx_out_ok {output : Output} : (∃ o, output.tx_out = .ok o) ↔ output.Complete := by
  unfold Output.tx_out Output.Complete
  rcases output.amount with _ | value <;> rcases output.script with _ | script <;> simp

namespace Psbt

variable (psbt : Psbt)

instance : Decidable psbt.Complete :=
  inferInstanceAs (Decidable ((∀ input ∈ psbt.inputs, _ ∧ _) ∧ ∀ output ∈ psbt.outputs, _ ∧ _))

/-- A transaction is built exactly if there is a lock time and nothing else is missing. -/
theorem build_unsigned_tx_lock_time :
    psbt.build_unsigned_tx.toOption.map Transaction.lock_time =
      if psbt.Complete then psbt.lock_time.toOption else none := by
  unfold build_unsigned_tx
  rcases psbt.lock_time with e | lock_time
  · exact (ite_self none).symm
  · split
    · next hcomplete =>
        obtain ⟨ins, hins⟩ := mapM'_except.mpr fun input hi =>
          Input.tx_in_ok.mpr (hcomplete.1 input hi)
        obtain ⟨outs, houts⟩ := mapM'_except.mpr fun output ho =>
          Output.tx_out_ok.mpr (hcomplete.2 output ho)
        rw [hins, houts]
        rfl
    · next hcomplete =>
        rcases hins : psbt.inputs.mapM' Input.tx_in with e | ins
        · rfl
        · rcases houts : psbt.outputs.mapM' Output.tx_out with e | outs
          · rfl
          · refine absurd ⟨fun input hi => ?_, fun output ho => ?_⟩ hcomplete
            · exact Input.tx_in_ok.mp (mapM'_except.mp ⟨ins, hins⟩ input hi)
            · exact Output.tx_out_ok.mp (mapM'_except.mp ⟨outs, houts⟩ output ho)

/-- The transaction that is built has the lock time that is prescribed, and there is none exactly
if none is prescribed or something else is missing. -/
def LockTimeRight : Prop :=
  psbt.build_unsigned_tx.toOption.map (fun tx => tx.lock_time.toNat) =
    if psbt.Complete then psbt.prescribed else none

theorem build_unsigned_tx_prescribed_iff :
    psbt.LockTimeRight ↔ (psbt.Complete → psbt.Unambiguous) := by
  have hmap : psbt.build_unsigned_tx.toOption.map (fun tx => tx.lock_time.toNat) =
      (psbt.build_unsigned_tx.toOption.map Transaction.lock_time).map BitVec.toNat := by
    rw [Option.map_map]
    rfl
  rw [LockTimeRight, hmap, build_unsigned_tx_lock_time]
  by_cases hcomplete : psbt.Complete
  · rw [if_pos hcomplete, if_pos hcomplete, psbt.lock_time_iff, imp_iff_right hcomplete]
  · simp [hcomplete]

/-- An input without an amount that can do with a height of 100, and with a time. -/
def either_kind : Bytes :=
  MAGIC ++
    [0x01, 0x02, 0x04, 0x02, 0x00, 0x00, 0x00, 0x01, 0x04, 0x01, 0x01, 0x01, 0x05, 0x01, 0x00,
      0x01, 0xfb, 0x04, 0x02, 0x00, 0x00, 0x00, 0x00] ++
    [0x01, 0x0e, 0x20] ++ List.replicate 32 0x11 ++ [0x01, 0x0f, 0x04, 0x00, 0x00, 0x00, 0x00] ++
    [0x01, 0x11, 0x04, 0x00, 0x10, 0x5e, 0x5f, 0x01, 0x12, 0x04, 0x64, 0x00, 0x00, 0x00, 0x00]

def lock_times (bytes : Bytes) : Option (Option ℕ × Option ℕ) :=
  match Psbt.parse bytes with
  | .ok psbt _ =>
      some (psbt.build_unsigned_tx.toOption.map fun tx => tx.lock_time.toNat,
        if psbt.Complete then psbt.prescribed else none)
  | _ => none

/-- The height satisfies all inputs, but there is no transaction. -/
theorem either_kind_fails : ¬ ∀ (bytes : Bytes) (psbt : Psbt) (rest : Bytes),
    Psbt.parse bytes = .ok psbt rest → psbt.LockTimeRight := by
  intro hall
  have htimes : lock_times either_kind = some (none, some 100) := by decide +kernel
  unfold lock_times at htimes
  split at htimes
  · next psbt rest hparse =>
      obtain ⟨hbuilt, hprescribed⟩ := Prod.mk.inj (Option.some.inj htimes)
      have hright : LockTimeRight psbt := hall _ psbt rest hparse
      cases hbuilt.symm.trans (hright.trans hprescribed)
  · cases htimes

end Psbt

end Vanadium.Bitcoin
