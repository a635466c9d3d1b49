import Vanadium.Proofs.InputAmounts

/-!
# Fees and amounts

The amounts of a PSBT are numbers of 64 bits that the host chooses, and there are
as many as it likes. The analysis adds them up in 64 bits, and the amounts of an
account in 64 bits with a sign. What is displayed are the true sums if none of
these leaves its range, which the analysis does not check.
-/

namespace Vanadium.Bitcoin

open Lib Bip388

/-! ## Movements -/

/-- What an input or an output does: an account spends, an account receives, or an amount goes
elsewhere. -/
inductive Movement where
  | spend (account : ℕ) (amount : U64)
  | change (account : ℕ) (amount : U64)
  | pay (amount : U64)

namespace Movement

def input : Movement → ℕ
  | spend _ amount => amount.toNat
  | _ => 0

def output : Movement → ℕ
  | spend _ _ => 0
  | change _ amount => amount.toNat
  | pay amount => amount.toNat

def external : Movement → ℕ
  | pay amount => amount.toNat
  | _ => 0

/-- What account `a` puts in. -/
def taken (a : ℕ) : Movement → ℕ
  | spend account amount => if account = a then amount.toNat else 0
  | _ => 0

/-- What account `a` puts in, less what it gets back. -/
def net (a : ℕ) : Movement → ℤ
  | spend account amount => if account = a then amount.toNat else 0
  | change account amount => if account = a then -amount.toNat else 0
  | pay _ => 0

/-- The account, if there is one, is among the first `n`. -/
def Below (n : ℕ) : Movement → Prop
  | spend account _ => account < n
  | change account _ => account < n
  | pay _ => True

end Movement

def total (f : Movement → ℕ) (ms : List Movement) : ℕ := (ms.map f).sum

def net_total (a : ℕ) (ms : List Movement) : ℤ := (ms.map (Movement.net a)).sum

def Input.movement {T : Type} (tx : Transactions T) (input : Input) : Option Movement := do
  let coords ← input.coordinates
  let out ← input.prevout tx
  some (.spend coords.1.toNat out.value)

def Output.movement (output : Output) : Option Movement :=
  match output.coordinates with
  | some coords => output.amount.map (.change coords.1.toNat)
  | none => output.amount.map .pay

def Psbt.movements {T : Type} (tx : Transactions T) (psbt : Psbt) : List Movement :=
  psbt.inputs.filterMap (Input.movement tx) ++ psbt.outputs.filterMap Output.movement

/-! ## Sums in the machine -/

/-- The sums that the analysis keeps. -/
structure Totals where
  spent : List U64
  ins : U64
  outs : U64

def Totals.zero (n : ℕ) : Totals := { spent := List.replicate n 0, ins := 0, outs := 0 }

def Totals.step (t : Totals) : Movement → Totals
  | .spend account amount =>
      { t with spent := t.spent.modify account (· + amount), ins := t.ins + amount }
  | .change account amount =>
      { t with spent := t.spent.modify account (· - amount), outs := t.outs + amount }
  | .pay amount => { t with outs := t.outs + amount }

def Tally.totals (tally : Tally) : Totals where
  spent := tally.account_spent_amounts
  ins := tally.inputs_total_amount
  outs := tally.outputs_total_amount

theorem total_concat (f : Movement → ℕ) (ms : List Movement) (m : Movement) :
    total f (ms ++ [m]) = total f ms + f m := by
  simp [total]

theorem net_total_concat (a : ℕ) (ms : List Movement) (m : Movement) :
    net_total a (ms ++ [m]) = net_total a ms + m.net a := by
  simp [net_total]

theorem modify_map_range {α : Type} (n a : ℕ) (f : ℕ → α) (g : α → α) :
    ((List.range n).map f).modify a g =
      (List.range n).map fun b => if a = b then g (f b) else f b := by
  refine List.ext_getElem? fun b => ?_
  rw [List.getElem?_modify, List.getElem?_map, List.getElem?_map]
  by_cases hb : b < n
  · rw [List.getElem?_range hb]
    by_cases hab : a = b <;> simp [hab]
  · simp [hb]

/-- Every sum is the true one up to multiples of 2^64. -/
theorem foldl_step (n : ℕ) (ms : List Movement) :
    ms.foldl Totals.step (Totals.zero n) =
      { spent := (List.range n).map fun a => BitVec.ofInt 64 (net_total a ms)
        ins := BitVec.ofNat 64 (total Movement.input ms)
        outs := BitVec.ofNat 64 (total Movement.output ms) } := by
  induction ms using List.reverseRecOn with
  | nil =>
      have hspent : List.replicate n (0 : U64) =
          (List.range n).map fun a => BitVec.ofInt 64 (net_total a []) := by
        simp [net_total, List.map_const']
      rw [List.foldl_nil, Totals.zero, hspent]
      rfl
  | append_singleton ms m ih =>
      rw [List.foldl_append, List.foldl_cons, List.foldl_nil, ih]
      simp only [total_concat, net_total_concat, BitVec.ofInt_add, BitVec.ofNat_add]
      cases m with
      | spend account amount =>
          simp only [Totals.step, modify_map_range, Movement.input, Movement.output, Movement.net]
          refine Totals.mk.injEq .. ▸ ⟨List.map_congr_left fun b _ => ?_, ?_, ?_⟩
          · split <;> simp
          · simp
          · simp
      | change account amount =>
          simp only [Totals.step, modify_map_range, Movement.input, Movement.output, Movement.net]
          refine Totals.mk.injEq .. ▸ ⟨List.map_congr_left fun b _ => ?_, ?_, ?_⟩
          · split <;> simp [BitVec.sub_eq_add_neg, BitVec.ofInt_neg]
          · simp
          · simp
      | pay amount => simp [Totals.step, Movement.input, Movement.output, Movement.net]

/-! ## When the sums are right -/

/-- The sums are the true ones. -/
def Agrees (n : ℕ) (t : Totals) (ms : List Movement) : Prop :=
  t.ins.toNat = total Movement.input ms ∧ t.outs.toNat = total Movement.output ms ∧
    ∀ a < n, (t.spent.getD a 0).toInt = net_total a ms

/-- No sum leaves its range. -/
structure Bounded (n : ℕ) (ms : List Movement) : Prop where
  ins : total Movement.input ms < 2 ^ 64
  outs : total Movement.output ms < 2 ^ 64
  taken : ∀ a < n, total (Movement.taken a) ms < 2 ^ 63
  net : ∀ a < n, -2 ^ 63 ≤ net_total a ms

theorem toInt_ofInt_eq {z : ℤ} :
    (BitVec.ofInt 64 z).toInt = z ↔ -2 ^ 63 ≤ z ∧ z < 2 ^ 63 := by
  constructor
  · intro h
    have hle := BitVec.le_toInt (BitVec.ofInt 64 z)
    have hlt := BitVec.toInt_lt (x := BitVec.ofInt 64 z)
    rw [h] at hle hlt
    exact ⟨hle, hlt⟩
  · intro ⟨hle, hlt⟩
    rw [BitVec.toInt_ofInt]
    exact Int.bmod_eq_of_le (by omega) (by omega)

theorem agrees_foldl {n : ℕ} {ms : List Movement} :
    Agrees n (ms.foldl Totals.step (Totals.zero n)) ms ↔
      total Movement.input ms < 2 ^ 64 ∧ total Movement.output ms < 2 ^ 64 ∧
        ∀ a < n, -2 ^ 63 ≤ net_total a ms ∧ net_total a ms < 2 ^ 63 := by
  rw [foldl_step, Agrees]
  simp only [BitVec.toNat_ofNat, Nat.mod_eq_iff_lt (show 2 ^ 64 ≠ 0 by decide)]
  refine and_congr_right fun _ => and_congr_right fun _ => forall₂_congr fun a ha => ?_
  rw [List.getD_eq_getElem?_getD, List.getElem?_map, List.getElem?_range ha]
  exact toInt_ofInt_eq

theorem total_append (f : Movement → ℕ) (ms ms' : List Movement) :
    total f (ms ++ ms') = total f ms + total f ms' := by
  simp [total]

theorem net_total_append (a : ℕ) (ms ms' : List Movement) :
    net_total a (ms ++ ms') = net_total a ms + net_total a ms' := by
  simp [net_total]

theorem total_take_le (f : Movement → ℕ) (ms : List Movement) (k : ℕ) :
    total f (ms.take k) ≤ total f ms := by
  conv_rhs => rw [← List.take_append_drop k ms, total_append]
  exact Nat.le_add_right _ _

theorem net_total_le (a : ℕ) (ms : List Movement) :
    net_total a ms ≤ total (Movement.taken a) ms := by
  induction ms with
  | nil => simp [net_total, total]
  | cons m ms ih =>
      have hm : m.net a ≤ m.taken a := by
        cases m with
        | spend account amount => simp only [Movement.net, Movement.taken]; split <;> omega
        | change account amount => simp only [Movement.net, Movement.taken]; split <;> omega
        | pay amount => simp [Movement.net, Movement.taken]
      simp only [net_total, total, List.map_cons, List.sum_cons] at ih ⊢
      rw [Nat.cast_add]
      omega

/-- Inputs only take from an account. -/
theorem net_total_inputs {a : ℕ} {ms : List Movement} (h : ∀ m ∈ ms, m.output = 0) :
    net_total a ms = total (Movement.taken a) ms := by
  induction ms with
  | nil => simp [net_total, total]
  | cons m ms ih =>
      rw [List.forall_mem_cons] at h
      have hm : m.net a = m.taken a := by
        have h0 := h.1
        cases m with
        | spend account amount => simp only [Movement.net, Movement.taken]; split <;> omega
        | change account amount =>
            simp only [Movement.output] at h0
            simp [Movement.net, Movement.taken, h0]
        | pay amount => simp [Movement.net, Movement.taken]
      have hms := ih h.2
      simp only [net_total, total, List.map_cons, List.sum_cons] at hms ⊢
      rw [Nat.cast_add]
      omega

/-- Outputs only give to one. -/
theorem net_total_outputs {a : ℕ} {ms : List Movement} (h : ∀ m ∈ ms, m.input = 0) :
    total (Movement.taken a) ms = 0 ∧ net_total a ms ≤ 0 := by
  induction ms with
  | nil => simp [net_total, total]
  | cons m ms ih =>
      rw [List.forall_mem_cons] at h
      have hm : m.taken a = 0 ∧ m.net a ≤ 0 := by
        have h0 := h.1
        cases m with
        | spend account amount =>
            simp only [Movement.input] at h0
            simp [Movement.net, Movement.taken, h0]
        | change account amount =>
            refine ⟨rfl, ?_⟩
            simp only [Movement.net]
            split <;> omega
        | pay amount => simp [Movement.net, Movement.taken]
      have hms := ih h.2
      simp only [net_total, total, List.map_cons, List.sum_cons] at hms ⊢
      omega

/-- The sums are right all the way exactly if none of them leaves its range. The amounts of an
account are largest after the inputs and smallest at the end. -/
theorem agrees_iff_bounded {n : ℕ} {ins outs : List Movement} (hins : ∀ m ∈ ins, m.output = 0)
    (houts : ∀ m ∈ outs, m.input = 0) :
    (∀ k, Agrees n (((ins ++ outs).take k).foldl Totals.step (Totals.zero n))
      ((ins ++ outs).take k)) ↔ Bounded n (ins ++ outs) := by
  simp only [agrees_foldl]
  have htaken : ∀ a, total (Movement.taken a) (ins ++ outs) = net_total a ins := by
    intro a
    rw [total_append, (net_total_outputs houts).1, Nat.add_zero, net_total_inputs hins]
  constructor
  · intro h
    have hall := h (ins ++ outs).length
    have hmid := h ins.length
    rw [List.take_length] at hall
    rw [List.take_left] at hmid
    refine ⟨hall.1, hall.2.1, fun a ha => ?_, fun a ha => (hall.2.2 a ha).1⟩
    have := (hmid.2.2 a ha).2
    have := htaken a
    omega
  · intro h k
    refine ⟨(total_take_le _ _ k).trans_lt h.ins, (total_take_le _ _ k).trans_lt h.outs,
      fun a ha => ⟨?_, ?_⟩⟩
    · by_cases hk : k ≤ ins.length
      · rw [List.take_append_of_le_length hk,
          net_total_inputs fun m hm => hins m (List.mem_of_mem_take hm)]
        omega
      · have hnet := h.net a ha
        rw [← List.take_append_drop k (ins ++ outs), net_total_append] at hnet
        have hdrop : ∀ m ∈ (ins ++ outs).drop k, m.input = 0 := by
          intro m hm
          rw [List.drop_append, List.drop_eq_nil_of_le (by omega), List.nil_append] at hm
          exact houts m (List.mem_of_mem_drop hm)
        have := (net_total_outputs (a := a) hdrop).2
        omega
    · have := net_total_le a ((ins ++ outs).take k)
      have := total_take_le (Movement.taken a) (ins ++ outs) k
      have := h.taken a ha
      omega

/-! ## The analysis adds movements up -/

section
variable {X T : Type} {sdk : Sdk X} {tx : Transactions T}

theorem tally_totals_spend (tally : Tally) (account_id : U32) (c : WalletPolicyCoordinates)
    (out : TxOut) (unverified : Bool) :
    (tally.spend account_id c out unverified).totals =
      tally.totals.step (.spend account_id.toNat out.value) := rfl

theorem analyze_inputs_totals {accounts : List (WalletPolicy X)}
    {inputs : List (Input × U32 × WalletPolicyCoordinates)} {tally tally' : Tally} {ui ui' : Ui}
    (hcoords : ∀ e ∈ inputs, e.1.coordinates = some e.2)
    (h : analyze_inputs sdk tx accounts inputs tally ui = .ok tally' ui') :
    ∃ ms : List Movement, (inputs.map Prod.fst).map (Input.movement tx) = ms.map some ∧
      tally'.totals = ms.foldl Totals.step tally.totals ∧
      ∀ m ∈ ms, m.Below accounts.length ∧ m.output = 0 := by
  obtain ⟨checked, hchecked, rfl⟩ := analyze_inputs_ok h
  clear h
  induction hchecked generalizing tally with
  | nil => exact ⟨[], rfl, rfl, by simp⟩
  | @cons e c inputs checked hcheck _ ih =>
      obtain ⟨version, hcheck⟩ := hcheck
      rw [List.forall_mem_cons] at hcoords
      obtain ⟨ms, hms, htotals, hbelow⟩ :=
        @ih (tally.spend e.2.1 e.2.2 c.1 c.2) hcoords.2
      have hmovement : e.1.movement tx = some (.spend e.2.1.toNat c.1.value) := by
        unfold Input.movement
        rw [hcoords.1, hcheck.prevout]
        rfl
      refine ⟨.spend e.2.1.toNat c.1.value :: ms, ?_, htotals, ?_⟩
      · rw [List.map_cons, List.map_cons, hmovement, hms, List.map_cons]
      · rw [List.forall_mem_cons]
        obtain ⟨policy, hpolicy, -⟩ := hcheck.account
        exact ⟨⟨(List.getElem?_eq_some_iff.mp hpolicy).1, rfl⟩, hbelow⟩

theorem analyze_outputs_totals {n_accounts : ℕ} {names : List (Vector U8 33 × Name)} :
    ∀ {outputs : List (Output × Option (U32 × WalletPolicyCoordinates))} {output_index : ℕ}
      {tally tally' : Tally} {ui ui' : Ui},
      (∀ e ∈ outputs, e.1.coordinates = e.2) →
      analyze_outputs sdk n_accounts names output_index outputs tally ui = .ok tally' ui' →
        ∃ ms : List Movement, (outputs.map Prod.fst).map Output.movement = ms.map some ∧
          tally'.totals = ms.foldl Totals.step tally.totals ∧
          ∀ m ∈ ms, m.Below n_accounts ∧ m.input = 0 := by
  intro outputs
  induction outputs with
  | nil =>
      intro output_index tally tally' ui ui' _ h
      cases h
      exact ⟨[], rfl, rfl, by simp⟩
  | cons output outputs ih =>
      intro output_index tally tally' ui ui' hcoords h
      obtain ⟨output, coords⟩ := output
      rw [analyze_outputs] at h
      obtain ⟨tally₁, ui₁, hfirst, h⟩ := Exec.bind_ok.mp h
      rw [List.forall_mem_cons] at hcoords
      obtain ⟨ms, hms, htotals, hbelow⟩ := ih hcoords.2 h
      have hcoord : output.coordinates = coords := hcoords.1
      have hmovement : ∃ m, output.movement = some m ∧ tally₁.totals = tally.totals.step m ∧
          m.Below n_accounts ∧ m.input = 0 := by
        unfold Output.movement
        rw [hcoord]
        obtain ⟨amount, script, hamount, -, hcases⟩ := analyze_output_ok hfirst
        rw [hamount]
        rcases hcases with ⟨account_id, c, rfl, hid, rfl⟩ | ⟨rfl, name, _, _, _, _, _, rfl⟩
        · exact ⟨.change account_id.toNat amount, rfl, rfl, hid, rfl⟩
        · exact ⟨.pay amount, rfl, rfl, trivial, rfl⟩
      obtain ⟨m, hm, hstep, hm_below⟩ := hmovement
      refine ⟨m :: ms, ?_, ?_, ?_⟩
      · rw [List.map_cons, List.map_cons, hm, hms, List.map_cons]
      · rw [htotals, hstep, List.foldl_cons]
      · rw [List.forall_mem_cons]
        exact ⟨hm_below, hbelow⟩

end

/-! ## What is displayed -/

/-- `format_amount` of any number. -/
def exact_amount (n : ℕ) : String :=
  toString (n / SATS_PER_BTC) ++ "." ++ pad8 (n % SATS_PER_BTC) ++ " " ++ COIN_TICKER

/-- What is shown for accounts with these names that spend these amounts. -/
def exact_pairs (accounts : List (Option String × ℤ)) : List TagValue :=
  accounts.flatMap (fun (name, spent) =>
    if 0 ≤ spent then
      [⟨"Spend from", account_description name⟩,
        ⟨"Amount", if 0 < spent then exact_amount spent.toNat else "0 (self-transfer)"⟩]
    else []) ++
  accounts.flatMap fun (name, spent) =>
    if spent < 0 then
      [⟨"Send to", account_description name⟩, ⟨"Amount", exact_amount (-spent).toNat⟩]
    else []

theorem spend_pairs_eq (name : Option String) (v : U64) :
    spend_pairs name v = if 0 ≤ v.toInt then
      [⟨"Spend from", account_description name⟩,
        ⟨"Amount", if 0 < v.toInt then exact_amount v.toInt.toNat else "0 (self-transfer)"⟩]
      else [] := by
  have hv : 0 < v.toInt → v.toInt.toNat = v.toNat := by
    have := v.isLt
    rw [BitVec.toInt_eq_toNat_cond]
    split <;> omega
  unfold spend_pairs
  by_cases hpos : 0 < v.toInt
  · rw [if_pos hpos, if_pos hpos, hv hpos]
    rfl
  · rw [if_neg hpos, if_neg hpos]

theorem receive_pairs_eq (name : Option String) (v : U64) :
    receive_pairs name v = if v.toInt < 0 then
      [⟨"Send to", account_description name⟩, ⟨"Amount", exact_amount (-v.toInt).toNat⟩]
      else [] := by
  unfold receive_pairs
  split
  · next hneg =>
      have hv : (-v.toInt).toNat = (-v).toNat := by
        have := v.isLt
        rw [BitVec.toInt_eq_toNat_cond] at hneg ⊢
        rw [BitVec.toNat_neg]
        split at hneg <;> omega
      rw [hv]
      rfl
  · rfl

theorem account_pairs_eq {X : Type} (summary : TransactionSummary X) :
    account_pairs summary = exact_pairs
      (summary.account_names.zip (summary.account_spent_amounts.map BitVec.toInt)) := by
  have hzip : summary.account_names.zip (summary.account_spent_amounts.map BitVec.toInt) =
      (summary.account_names.zip summary.account_spent_amounts).map (Prod.map id BitVec.toInt) := by
    rw [← List.zip_map, List.map_id]
  rw [hzip, exact_pairs, List.flatMap_map, List.flatMap_map]
  simp only [account_pairs, spend_pairs_eq, receive_pairs_eq, Prod.map, id]

/-! ## A transaction -/

/-- What accounts put in is what leaves them and the fee. -/
theorem sum_net_total {n : ℕ} {ms : List Movement} (h : ∀ m ∈ ms, m.Below n) :
    ∑ a ∈ Finset.range n, net_total a ms =
      total Movement.external ms + (total Movement.input ms - total Movement.output ms : ℤ) := by
  induction ms with
  | nil => simp [net_total, total]
  | cons m ms ih =>
      rw [List.forall_mem_cons] at h
      have hm : ∑ a ∈ Finset.range n, m.net a = m.external + (m.input - m.output : ℤ) := by
        have hbelow := h.1
        cases m with
        | spend account amount =>
            simp [Movement.net, Movement.external, Movement.input, Movement.output,
              Finset.sum_ite_eq, Finset.mem_range.mpr hbelow]
        | change account amount =>
            simp [Movement.net, Movement.external, Movement.input, Movement.output,
              Finset.sum_ite_eq, Finset.mem_range.mpr hbelow]
        | pay amount => simp [Movement.net, Movement.external, Movement.input, Movement.output]
      have hms := ih h.2
      have hcons : ∀ a, net_total a (m :: ms) = m.net a + net_total a ms := fun a => rfl
      simp only [hcons, Finset.sum_add_distrib, hm, hms]
      simp only [total, List.map_cons, List.sum_cons, Nat.cast_add]
      omega

section
variable {X T : Type} [Xpub X] {sdk : Sdk X} {tx : Transactions T} {psbt : Psbt}

/-- The amounts, the accounts and the fee of a PSBT are accounted for by what is displayed. -/
structure Accounted (tx : Transactions T) (psbt : Psbt) (summary : TransactionSummary X) :
    Prop where
  sums : ∀ k, Agrees summary.accounts.length
    (((psbt.movements tx).take k).foldl Totals.step (Totals.zero summary.accounts.length))
    ((psbt.movements tx).take k)
  enough : total Movement.output (psbt.movements tx) ≤ total Movement.input (psbt.movements tx)
  fee : fee_pair summary = ⟨"Fee", toString (total Movement.input (psbt.movements tx) -
    total Movement.output (psbt.movements tx)) ++ " " ++ COIN_TICKER⟩
  accounts : account_pairs summary = exact_pairs (summary.account_names.zip
    ((List.range summary.accounts.length).map fun a => net_total a (psbt.movements tx)))
  balance : ∑ a ∈ Finset.range summary.accounts.length, net_total a (psbt.movements tx) =
    total Movement.external (psbt.movements tx) +
      (total Movement.input (psbt.movements tx) - total Movement.output (psbt.movements tx) : ℤ)

theorem filterMap_eq_of_map {α β : Type} {f : α → Option β} {l : List α} {l' : List β}
    (h : l.map f = l'.map some) : l.filterMap f = l' := by
  have hid : (l.map f).filterMap id = l' := by
    rw [h, List.filterMap_map]
    simp
  rwa [List.filterMap_map] at hid

/-- Every input and every output of an accepted PSBT is a movement, and the sums are those of
the movements, in the machine. -/
theorem analyze_transaction_totals {analysis : Analysis X} {ui ui' : Ui}
    (h : analyze_transaction sdk tx psbt ui = .ok analysis ui') :
    ∃ ins outs : List Movement, psbt.inputs.map (Input.movement tx) = ins.map some ∧
      psbt.outputs.map Output.movement = outs.map some ∧
      (∀ m ∈ ins, m.Below analysis.summary.accounts.length ∧ m.output = 0) ∧
      (∀ m ∈ outs, m.Below analysis.summary.accounts.length ∧ m.input = 0) ∧
      (⟨analysis.summary.account_spent_amounts, analysis.summary.inputs_total_amount,
        analysis.summary.outputs_total_amount⟩ : Totals) =
        (ins ++ outs).foldl Totals.step (Totals.zero analysis.summary.accounts.length) ∧
      ¬ analysis.summary.inputs_total_amount < analysis.summary.outputs_total_amount := by
  obtain ⟨names, out_coords, tally, tally', ha⟩ := analyze_transaction_ok h
  obtain ⟨_, _, hinputs⟩ := ha.inputs
  obtain ⟨_, _, houtputs⟩ := ha.outputs
  obtain ⟨ins, hins, htotals, hins'⟩ := analyze_inputs_totals
    (fun e he => (List.forall₂_iff_zip.mp ha.input_coordinates).2 he) hinputs
  obtain ⟨outs, houts, htotals', houts'⟩ := analyze_outputs_totals
    (fun e he => (List.forall₂_iff_zip.mp ha.output_coordinates).2 he) houtputs
  rw [List.map_fst_zip ha.input_coordinates.length_eq.le] at hins
  rw [List.map_fst_zip ha.output_coordinates.length_eq.le] at houts
  refine ⟨ins, outs, hins, houts, hins', houts', ?_, ?_⟩
  · rw [ha.account_spent_amounts, ha.inputs_total_amount, ha.outputs_total_amount,
      List.foldl_append]
    exact htotals'.trans (congrArg (outs.foldl Totals.step) htotals)
  · rw [ha.inputs_total_amount, ha.outputs_total_amount]
    exact ha.enough

end

namespace Copies

/-- A key is its encoding. -/
local instance : Xpub (Vector U8 78) where
  encode := id
  decode bytes := if bytes.length = 78 then some (array bytes 0 78) else none

def totals (bytes : Bytes) : Option (ℕ × ℕ) :=
  (analyzed bytes).map fun (psbt, _) =>
    (total Movement.input (psbt.movements tx), total Movement.output (psbt.movements tx))

end Copies

end Vanadium.Bitcoin
