import Vanadium.Bitcoin.PolicyReserve
import Vanadium.Lib.View
import Vanadium.Proofs.DescriptorPrompt
import Vanadium.Proofs.DescriptorReads
import Vanadium.Proofs.OutputNames
import Vanadium.Proofs.PolicyCodec

/-!
# Announcements taken at their word

A policy in a message says how many keys it has and how long their paths are, and
the decoder reserves room for so many elements before it has read one. Nothing
relates the number to what is left of the message. The decoder ends as it should
on the messages whose arrays announce no more elements than there are bytes after
them, as long as the allocator has room for these.
-/

namespace Vanadium.Bitcoin

open Lib Bip388

/-! ## What is read is what was read before -/

namespace Reserving

variable {α β : Type} {X : Type} [Xpub X] {cbor : Minicbor} {reserve : ℕ → ℕ → Reserving Unit}
  {heap size_of_key : ℕ}

/-- Without steps and reservations, `m` is `n`. -/
abbrev Reads (m : Reserving α) (n : Decoder α) : Prop := Exec.Shows CborInput.rest m n

theorem reads_step (item : Decoder α) : Reads (step item) item := by
  intro s
  rw [step]
  cases h : item s.rest with
  | ok a rest =>
      rw [Exec.bind_apply_ok (Exec.zoom_ok.mpr ⟨rest, h, rfl⟩)]
      rfl
  | err e rest =>
      rw [Exec.bind_apply_err (Exec.zoom_err.mpr ⟨e, rest, h, rfl, rfl⟩)]
      rfl
  | stop w rest =>
      have hzoom : Exec.zoom CborInput.rest (fun rest s => { s with rest }) id item s =
          (.stop w { s with rest } : Outcome CborError CborInput α) := by
        rw [Exec.zoom, h]
      rw [Exec.bind_apply_stop hzoom]
      rfl

theorem reads_items {item : Reserving α} {item' : Decoder α} (h : Reads item item') (n : ℕ) :
    Reads (items item n) (Minicbor.items item' n) := by
  induction n with
  | zero => exact .pure _
  | succ n ih => exact h.bind fun _ => ih.bind fun _ => .pure _

theorem reads_entries {entry0 : Reserving α} {entry1 : Reserving β} {entry0' : Decoder α}
    {entry1' : Decoder β} (h0 : Reads entry0 entry0') (h1 : Reads entry1 entry1') (n : ℕ)
    (value0 : Option α) (value1 : Option β) :
    Reads (entries cbor entry0 entry1 n value0 value1)
      (cbor.entries entry0' entry1' n value0 value1) := by
  induction n generalizing value0 value1 with
  | zero => exact .pure _
  | succ n ih =>
      refine (reads_step _).bind fun key => ?_
      split
      · exact h0.bind fun _ => ih _ _
      · split
        · exact h1.bind fun _ => ih _ _
        · exact (reads_step _).bind fun _ => ih _ _

theorem reads_vec {item : Reserving α} {item' : Decoder α} (h : Reads item item') (size_of : ℕ) :
    Reads (vec cbor announce size_of item) (cbor.definite_array >>= Minicbor.items item') :=
  (reads_step _).bind fun m => Exec.Shows.unseen (fun _ => ⟨_, rfl, rfl⟩) (reads_items h m)

theorem reads_key_origin : Reads (decode_key_origin cbor announce) cbor.decode_key_origin :=
  (reads_step _).bind fun n =>
    (reads_entries (reads_step _) (reads_vec (reads_step _) _) n _ _).bind fun _ =>
      (Exec.Shows.orElse _ _).bind fun _ => (Exec.Shows.orElse _ _).bind fun _ => .pure _

theorem reads_key_information :
    Reads (decode_key_information cbor announce : Reserving (KeyInformation X))
      cbor.decode_key_information :=
  (reads_step _).bind fun n =>
    (reads_entries ((reads_step _).bind fun _ => .orElse _ _) reads_key_origin n _ _).bind
      fun _ => (Exec.Shows.orElse _ _).bind fun _ => .pure _

omit [Xpub X] in
/-- What is made of a template does not look at the state. -/
theorem new_view {σ τ : Type} (f : σ → τ) (template : String) (keys : List (KeyInformation X))
    (s : σ) : (WalletPolicy.new template keys s).view f = WalletPolicy.new template keys (f s) := by
  unfold WalletPolicy.new
  split
  · split <;> rfl
  · rfl
  · rfl

omit [Xpub X] in
theorem new_stops_iff {σ : Type} {template : String} {keys : List (KeyInformation X)}
    (hm : InMemory template keys) (s : σ) :
    (∃ why s', WalletPolicy.new template keys s = .stop why s') ↔
      templates.cut template.toList := by
  rw [← from_str_panics]
  unfold WalletPolicy.new Exec.Panics
  split
  · next h =>
      rw [dif_pos hm]
      simp [h]
  · next h => simp [h]
  · next why t h =>
      cases why with
      | panic => simp [h]
      | hang => exact absurd h (prompt_from_str _ _)

omit [Xpub X] in
theorem reads_new (template : String) (keys : List (KeyInformation X)) :
    Reads (Exec.zoom id (fun s _ => s) (fun _ => .message "invalid wallet policy")
        (WalletPolicy.new template keys))
      (Exec.zoom id (fun s _ => s) (fun _ => .message "invalid wallet policy")
        (WalletPolicy.new template keys)) := by
  intro s
  have hview := new_view CborInput.rest template keys s
  unfold Exec.zoom
  dsimp only [id]
  rw [← hview]
  cases WalletPolicy.new template keys s <;> rfl

/-- Where nothing is reserved, the decoder is the one of the codec. -/
theorem reads_policy : Reads (decode_policy cbor announce size_of_key : Reserving (WalletPolicy X))
    cbor.decode_policy := by
  refine .bind_bind ((reads_step _).bind fun n => .bind_bind (.bind (reads_entries (reads_step _)
    (reads_vec reads_key_information _) n _ _) fun _ => .bind_bind ((Exec.Shows.orElse _ _).bind
      fun template => .bind_bind ((Exec.Shows.orElse _ _).bind fun keys => ?_))))
  exact reads_new template keys

/-! ## Steps

An item that is read is gone from the input, so `steps` and the length of what is
left never add up to more than they did. -/

/-- With `n` bytes to start from. -/
def Counted (n : ℕ) (s : CborInput) : Prop :=
  s.steps ≤ n ∧ ∀ r ∈ s.reserved, r.remaining ≤ n

/-- A run from `s` takes at least `d` steps if it returns, and then returns a value
with `P`. Where `quiet` holds, it returns or fails. -/
structure PacedAt (quiet : Prop) (n d : ℕ) (P : α → Prop) (m : Reserving α) (s : CborInput) :
    Prop where
  ok : ∀ ⦃a s'⦄, m s = .ok a s' → s.steps + d ≤ s'.steps ∧
    s'.steps + s'.rest.length ≤ n ∧ P a
  counted : Counted n (m s).state
  stop : quiet → ∀ why s', m s ≠ .stop why s'

def Paced (quiet : Prop) (n d : ℕ) (P : α → Prop) (m : Reserving α) : Prop :=
  ∀ ⦃s⦄, s.steps + s.rest.length ≤ n → Counted n s → PacedAt quiet n d P m s

variable {quiet : Prop} {n d d' : ℕ} {P : α → Prop} {Q : β → Prop}

theorem PacedAt.bind {m : Reserving α} {f : α → Reserving β} {s : CborInput}
    (hm : PacedAt quiet n d P m s)
    (hf : ∀ a s', s.steps + d ≤ s'.steps → s'.steps + s'.rest.length ≤ n → Counted n s' → P a →
      PacedAt quiet n 0 Q (f a) s') : PacedAt quiet n d Q (m >>= f) s := by
  cases hrun : m s with
  | ok a t =>
      obtain ⟨hsteps, hrest, ha⟩ := hm.ok hrun
      have hcount := hm.counted
      rw [hrun] at hcount
      have hnext := hf a t hsteps hrest hcount ha
      refine ⟨fun b s' h => ?_, ?_, fun hq why s' h => ?_⟩
      · rw [Exec.bind_apply_ok hrun] at h
        obtain ⟨hsteps', hrest', hb⟩ := hnext.ok h
        exact ⟨by omega, hrest', hb⟩
      · rw [Exec.bind_apply_ok hrun]
        exact hnext.counted
      · rw [Exec.bind_apply_ok hrun] at h
        exact hnext.stop hq why s' h
  | err e t =>
      have hcount := hm.counted
      rw [hrun] at hcount
      refine ⟨fun b s' h => ?_, ?_, fun hq why s' h => ?_⟩
      · rw [Exec.bind_apply_err hrun] at h
        cases h
      · rw [Exec.bind_apply_err hrun]
        exact hcount
      · rw [Exec.bind_apply_err hrun] at h
        cases h
  | stop w t =>
      have hcount := hm.counted
      rw [hrun] at hcount
      refine ⟨fun b s' h => ?_, ?_, fun hq why s' h => hm.stop hq w t hrun⟩
      · rw [Exec.bind_apply_stop hrun] at h
        cases h
      · rw [Exec.bind_apply_stop hrun]
        exact hcount

theorem Paced.bind {m : Reserving α} {f : α → Reserving β} (hm : Paced quiet n d P m)
    (hf : ∀ a, P a → Paced quiet n 0 Q (f a)) : Paced quiet n d Q (m >>= f) :=
  fun _ hs hc => (hm hs hc).bind fun a _ _ hs' hc' ha => hf a ha hs' hc'

theorem Paced.mono {P' : α → Prop} {m : Reserving α} (hm : Paced quiet n d P m) (hd : d' ≤ d)
    (hP : ∀ a, P a → P' a) : Paced quiet n d' P' m := by
  refine fun s hs hc => ⟨fun a s' h => ?_, (hm hs hc).counted, (hm hs hc).stop⟩
  obtain ⟨hsteps, hrest, ha⟩ := (hm hs hc).ok h
  exact ⟨by omega, hrest, hP a ha⟩

theorem Paced.pure {a : α} (h : P a) : Paced quiet n 0 P (Pure.pure a : Reserving α) := by
  refine fun _ hs hc => ⟨fun _ _ h' => ?_, hc, fun _ _ _ h' => ?_⟩
  · cases h'
    exact ⟨le_rfl, hs, h⟩
  · cases h'

theorem Paced.orElse {o : Option α} (h : ∀ a ∈ o, P a) (e : CborError) :
    Paced quiet n 0 P (Exec.orElse o e : Reserving α) := by
  cases o with
  | none =>
      refine fun _ _ hc => ⟨fun _ _ h' => ?_, hc, fun _ _ _ h' => ?_⟩
      · cases h'
      · cases h'
  | some a => exact .pure (h a rfl)

theorem Paced.items {item : Reserving α} (h : Paced quiet n 1 P item) (k : ℕ) :
    Paced quiet n 0 (fun l : List α => l.length ≤ n ∧ ∀ a ∈ l, P a) (items item k) := by
  -- by induction, the length is the number of steps that were taken since `s`
  have hlength : ∀ s : CborInput, s.steps + s.rest.length ≤ n → Counted n s →
      PacedAt quiet n 0 (fun l : List α => s.steps + l.length ≤ n ∧ ∀ a ∈ l, P a)
        (Reserving.items item k) s := by
    induction k with
    | zero =>
        intro s hs hc
        exact Paced.pure (P := fun l : List α => s.steps + l.length ≤ n ∧ ∀ a ∈ l, P a)
          ⟨by simpa using hc.1, by simp⟩ hs hc
    | succ k ih =>
        intro s hs hc
        have hrest (a : α) (s' : CborInput) (hsteps : s.steps + 1 ≤ s'.steps)
            (hs' : s'.steps + s'.rest.length ≤ n) (hc' : Counted n s') (ha : P a) :
            PacedAt quiet n 0 (fun l : List α => s.steps + l.length ≤ n ∧ ∀ a ∈ l, P a)
              (Reserving.items item k >>= fun rest => Pure.pure (a :: rest)) s' := by
          refine (ih s' hs' hc').bind fun l t _ ht hct hl => Paced.pure ?_ ht hct
          refine ⟨?_, List.forall_mem_cons.mpr ⟨ha, hl.2⟩⟩
          rw [List.length_cons]
          have := hl.1
          omega
        have hall := (h hs hc).bind hrest
        refine ⟨fun l s' hrun => ?_, hall.counted, hall.stop⟩
        obtain ⟨hsteps, hs', hl⟩ := hall.ok hrun
        exact ⟨by omega, hs', hl⟩
  refine fun s hs hc => ⟨fun l s' hrun => ?_, (hlength s hs hc).counted, (hlength s hs hc).stop⟩
  obtain ⟨hsteps, hs', hl⟩ := (hlength s hs hc).ok hrun
  exact ⟨hsteps, hs', by omega, hl.2⟩

theorem Paced.entries {entry0 : Reserving α} {entry1 : Reserving β}
    (hu8 : Paced quiet n 1 (fun _ => True) (step cbor.decode_u8))
    (hskip : Paced quiet n 1 (fun _ => True) (step cbor.skip))
    (h0 : Paced quiet n 1 P entry0) (h1 : Paced quiet n 1 Q entry1) (k : ℕ) {value0 : Option α}
    {value1 : Option β} (hv0 : ∀ a ∈ value0, P a) (hv1 : ∀ b ∈ value1, Q b) :
    Paced quiet n 0 (fun v : Option α × Option β => (∀ a ∈ v.1, P a) ∧ ∀ b ∈ v.2, Q b)
      (entries cbor entry0 entry1 k value0 value1) := by
  induction k generalizing value0 value1 with
  | zero => exact .pure ⟨hv0, hv1⟩
  | succ k ih =>
      refine (hu8.bind fun key _ => ?_).mono (Nat.zero_le 1) fun _ h => h
      split
      · exact (h0.bind fun a ha => ih (by simpa using ha) hv1).mono (Nat.zero_le _) fun _ h => h
      · split
        · exact (h1.bind fun b hb => ih hv0 (by simpa using hb)).mono (Nat.zero_le _) fun _ h => h
        · exact (hskip.bind fun _ _ => ih hv0 hv1).mono (Nat.zero_le _) fun _ h => h

end Reserving

/-! What the library promises: an item is at least one byte, and a string is in
the input. -/

namespace Minicbor

def Advances {α : Type} (item : Decoder α) : Prop :=
  ∀ input, (∃ a rest, item input = .ok a rest ∧ rest.length < input.length) ∨
    ∃ e rest, item input = .err e rest

structure Progresses (cbor : Minicbor) : Prop where
  u8 : Advances cbor.decode_u8
  u32 : Advances cbor.decode_u32
  str : Advances cbor.decode_str
  bytes : Advances cbor.decode_bytes
  array : Advances cbor.decode_array
  map : Advances cbor.decode_map
  skip : Advances cbor.skip
  str_length : ∀ ⦃input s rest⦄, cbor.decode_str input = .ok s rest →
    (as_bytes s).length ≤ input.length

/-- What comes after an item need not take anything. -/
def Goes {α : Type} (item : Decoder α) : Prop :=
  ∀ input, (∃ a rest, item input = .ok a rest ∧ rest.length ≤ input.length) ∨
    ∃ e rest, item input = .err e rest

variable {α β : Type}

theorem Advances.goes {item : Decoder α} (h : Advances item) : Goes item := fun input =>
  (h input).imp_left fun ⟨a, rest, hrun, hlt⟩ => ⟨a, rest, hrun, hlt.le⟩

theorem Advances.bind {item : Decoder α} {f : α → Decoder β} (h : Advances item)
    (hf : ∀ a, Goes (f a)) : Advances (item >>= f) := by
  intro input
  rcases h input with ⟨a, rest, hrun, hlt⟩ | ⟨e, rest, hrun⟩
  · rw [Exec.bind_apply_ok hrun]
    rcases hf a rest with ⟨b, rest', hb, hle⟩ | ⟨e, rest', he⟩
    · exact .inl ⟨b, rest', hb, hle.trans_lt hlt⟩
    · exact .inr ⟨e, rest', he⟩
  · exact .inr ⟨e, rest, Exec.bind_apply_err hrun⟩

theorem Goes.bind {item : Decoder α} {f : α → Decoder β} (h : Goes item)
    (hf : ∀ a, Goes (f a)) : Goes (item >>= f) := by
  intro input
  rcases h input with ⟨a, rest, hrun, hle⟩ | ⟨e, rest, hrun⟩
  · rw [Exec.bind_apply_ok hrun]
    rcases hf a rest with ⟨b, rest', hb, hle'⟩ | ⟨e, rest', he⟩
    · exact .inl ⟨b, rest', hb, hle'.trans hle⟩
    · exact .inr ⟨e, rest', he⟩
  · exact .inr ⟨e, rest, Exec.bind_apply_err hrun⟩

theorem Goes.pure (a : α) : Goes (Pure.pure a : Decoder α) :=
  fun input => .inl ⟨a, input, rfl, le_rfl⟩

theorem Advances.throw (e : CborError) : Advances (Exec.throw e : Decoder α) :=
  fun input => .inr ⟨e, input, rfl⟩

theorem Goes.orElse (o : Option α) (e : CborError) : Goes (Exec.orElse o e : Decoder α) := by
  cases o with
  | none => exact (Advances.throw e).goes
  | some a => exact .pure a

theorem Goes.reject (c : Prop) [Decidable c] (e : CborError) :
    Goes (Exec.reject c e : Decoder Unit) := by
  unfold Exec.reject
  split
  · exact (Advances.throw e).goes
  · exact .pure ()

variable {cbor : Minicbor}

theorem Progresses.definite_map (h : cbor.Progresses) : Advances cbor.definite_map :=
  h.map.bind fun _ => .orElse _ _

theorem Progresses.definite_array (h : cbor.Progresses) : Advances cbor.definite_array :=
  h.array.bind fun _ => .orElse _ _

end Minicbor

namespace Reserving

variable {α β : Type} {X : Type} [Xpub X] {cbor : Minicbor} {reserve : ℕ → ℕ → Reserving Unit}
  {heap size_of_key n : ℕ} {quiet : Prop} {P : α → Prop}

open Minicbor (Advances Progresses)

theorem paced_step {item : Decoder α} (h : Advances item)
    (hP : ∀ ⦃input a rest⦄, item input = .ok a rest → input.length ≤ n → P a) :
    Paced quiet n 1 P (step item) := by
  intro s hs hc
  rcases h s.rest with ⟨a, rest, hrun, hlt⟩ | ⟨e, rest, hrun⟩
  · have hstep : step item s = .ok a { s with rest, steps := s.steps + 1 } := by
      rw [step, Exec.bind_apply_ok (Exec.zoom_ok.mpr ⟨rest, hrun, rfl⟩)]
      rfl
    have hle : s.steps + 1 + rest.length ≤ n := by omega
    refine ⟨fun a' s' h' => ?_, ?_, fun _ why s' h' => ?_⟩
    · rw [hstep] at h'
      cases h'
      exact ⟨le_rfl, hle, hP hrun (by omega)⟩
    · rw [hstep]
      exact ⟨by show s.steps + 1 ≤ n; omega, hc.2⟩
    · rw [hstep] at h'
      cases h'
  · have hstep : step item s = .err e { s with rest } := by
      rw [step, Exec.bind_apply_err (Exec.zoom_err.mpr ⟨e, rest, hrun, rfl, rfl⟩)]
      rfl
    refine ⟨fun a' s' h' => ?_, ?_, fun _ why s' h' => ?_⟩
    · rw [hstep] at h'
      cases h'
    · rw [hstep]
      exact hc
    · rw [hstep] at h'
      cases h'

theorem paced_step' {item : Decoder α} (h : Advances item) :
    Paced quiet n 1 (fun _ => True) (step item) :=
  paced_step h fun _ _ _ _ _ => trivial

theorem paced_announce (m size_of : ℕ) :
    Paced quiet n 0 (fun _ => True) (announce m size_of) := by
  intro s hs hc
  refine ⟨fun u s' h => ?_, ⟨hc.1, List.forall_mem_cons.mpr ⟨?_, hc.2⟩⟩, fun _ _ _ h => ?_⟩
  · cases h
    exact ⟨le_rfl, hs, trivial⟩
  · show s.rest.length ≤ n
    omega
  · cases h

theorem paced_with_capacity (m size_of : ℕ) :
    Paced False n 0 (fun _ => True) (with_capacity heap m size_of) := by
  refine (paced_announce m size_of).bind fun _ _ s hs hc => ?_
  refine ⟨fun u s' h => ?_, ?_, fun hq => hq.elim⟩
  · obtain ⟨-, rfl⟩ := Exec.assert_ok.mp h
    exact ⟨le_rfl, hs, trivial⟩
  · unfold Exec.assert
    split
    · exact hc
    · exact hc

section
variable (h : cbor.Progresses)
  (hreserve : ∀ m size_of, Paced quiet n 0 (fun _ => True) (reserve m size_of))
include h hreserve

theorem paced_vec {item : Reserving α} (hitem : Paced quiet n 1 P item) (size_of : ℕ) :
    Paced quiet n 1 (fun l : List α => l.length ≤ n ∧ ∀ a ∈ l, P a)
      (vec cbor reserve size_of item) :=
  (paced_step' h.definite_array).bind fun m _ =>
    (hreserve m size_of).bind fun _ _ => hitem.items m

theorem paced_key_origin : Paced quiet n 1 (fun o : KeyOrigin => o.derivation_path.length ≤ n)
    (decode_key_origin cbor reserve) := by
  refine (paced_step' h.definite_map).bind fun k _ => ?_
  refine (Paced.entries (paced_step' h.u8) (paced_step' h.skip) (paced_step' h.u32)
    (paced_vec h hreserve (paced_step' h.u32) _) k (by simp) (by simp)).bind fun v hv => ?_
  refine (Paced.orElse hv.1 _).bind fun fingerprint _ => ?_
  exact (Paced.orElse hv.2 _).bind fun path hpath => .pure hpath.1

theorem paced_key_information : Paced quiet n 1
    (fun key : KeyInformation X => ∀ o ∈ key.origin_info, o.derivation_path.length ≤ n)
    (decode_key_information cbor reserve) := by
  refine (paced_step' h.definite_map).bind fun k _ => ?_
  have hpubkey : Paced quiet n 1 (fun _ => True) (step cbor.decode_bytes >>= fun bytes =>
      (Exec.orElse (Xpub.decode bytes) (.message "invalid xpub") : Reserving X)) :=
    (paced_step' h.bytes).bind fun _ _ => .orElse (fun _ _ => trivial) _
  refine (Paced.entries (paced_step' h.u8) (paced_step' h.skip) hpubkey
    (paced_key_origin h hreserve) k (by simp) (by simp)).bind fun v hv => ?_
  exact (Paced.orElse hv.1 _).bind fun pubkey _ => .pure hv.2

theorem paced_fields : Paced quiet n 1
    (fun v : String × List (KeyInformation X) => (as_bytes v.1).length ≤ n ∧ v.2.length ≤ n ∧
      ∀ key ∈ v.2, ∀ o ∈ key.origin_info, o.derivation_path.length ≤ n)
    (decode_fields cbor reserve size_of_key) := by
  refine (paced_step' h.definite_map).bind fun k _ => ?_
  have hstr : Paced quiet n 1 (fun s => (as_bytes s).length ≤ n) (step cbor.decode_str) :=
    paced_step h.str fun _ _ _ hrun hle => (h.str_length hrun).trans hle
  refine (Paced.entries (paced_step' h.u8) (paced_step' h.skip) hstr
    (paced_vec h hreserve (paced_key_information h hreserve) _) k (by simp) (by simp)).bind
      fun v hv => ?_
  refine (Paced.orElse hv.1 _).bind fun template htemplate => ?_
  exact (Paced.orElse hv.2 _).bind fun keys hkeys => .pure ⟨htemplate, hkeys⟩

end

/-! ## Reservations

Whether the allocator has room decides whether the decoder goes on, and nothing
else does: as long as it has, the decoder does what it does without reserving. -/

def AllFit (heap : ℕ) (reserved : List Reservation) : Prop :=
  ∀ r ∈ reserved, Deserializer.Fits heap r.capacity r.size_of

/-- `m` reserves what `m'` announces. -/
def Follows (heap : ℕ) (m m' : Reserving α) : Prop :=
  ∀ s, ∃ new, (m' s).state.reserved = new ++ s.reserved ∧ (AllFit heap new → m s = m' s) ∧
    (¬ AllFit heap new → Exec.Panics m s)

theorem Follows.same {m : Reserving α} (h : ∀ s, (m s).state.reserved = s.reserved) :
    Follows heap m m :=
  fun s => ⟨[], h s, fun _ => rfl, fun hnot => absurd (by simp [AllFit]) hnot⟩

theorem Follows.pure (a : α) : Follows heap (Pure.pure a) (Pure.pure a) := .same fun _ => rfl

theorem Follows.orElse (o : Option α) (e : CborError) :
    Follows heap (Exec.orElse o e) (Exec.orElse o e) := by
  cases o with
  | none => exact .same fun _ => rfl
  | some a => exact .pure a

theorem Follows.bind {m m' : Reserving α} {f f' : α → Reserving β} (h : Follows heap m m')
    (hf : ∀ a, Follows heap (f a) (f' a)) : Follows heap (m >>= f) (m' >>= f') := by
  intro s
  obtain ⟨new, hlog, hfit, hnot⟩ := h s
  have hpanics (hbad : ¬ AllFit heap new) : Exec.Panics (m >>= f) s :=
    Exec.panics_bind.mpr (.inl (hnot hbad))
  cases hrun : m' s with
  | ok a t =>
      rw [hrun] at hlog
      obtain ⟨new', hlog', hfit', hnot'⟩ := hf a t
      refine ⟨new' ++ new, ?_, fun hall => ?_, fun hbad => ?_⟩
      · rw [Exec.bind_apply_ok hrun, hlog', List.append_assoc]
        exact congrArg (new' ++ ·) hlog
      · have hboth := List.forall_mem_append.mp hall
        rw [Exec.bind_apply_ok hrun, Exec.bind_apply_ok ((hfit hboth.2).trans hrun),
          hfit' hboth.1]
      · by_cases hnew : AllFit heap new
        · have hnew' : ¬ AllFit heap new' := fun h' => hbad (List.forall_mem_append.mpr ⟨h', hnew⟩)
          exact Exec.panics_bind.mpr (.inr ⟨a, t, (hfit hnew).trans hrun, hnot' hnew'⟩)
        · exact hpanics hnew
  | err e t =>
      rw [hrun] at hlog
      refine ⟨new, ?_, fun hall => ?_, hpanics⟩
      · rw [Exec.bind_apply_err hrun]
        exact hlog
      · rw [Exec.bind_apply_err hrun, Exec.bind_apply_err ((hfit hall).trans hrun)]
  | stop w t =>
      rw [hrun] at hlog
      refine ⟨new, ?_, fun hall => ?_, hpanics⟩
      · rw [Exec.bind_apply_stop hrun]
        exact hlog
      · rw [Exec.bind_apply_stop hrun, Exec.bind_apply_stop ((hfit hall).trans hrun)]

theorem follows_step (item : Decoder α) : Follows heap (step item) (step item) := by
  refine .same fun s => ?_
  rw [step]
  cases h : Exec.zoom CborInput.rest (fun rest s => { s with rest }) id item s with
  | ok a t =>
      rw [Exec.bind_apply_ok h]
      obtain ⟨rest, -, rfl⟩ := Exec.zoom_ok.mp h
      rfl
  | err e t =>
      rw [Exec.bind_apply_err h]
      obtain ⟨e', rest, -, -, rfl⟩ := Exec.zoom_err.mp h
      rfl
  | stop w t =>
      rw [Exec.bind_apply_stop h]
      unfold Exec.zoom at h
      split at h <;> cases h
      rfl

theorem follows_items {item item' : Reserving α} (h : Follows heap item item') (k : ℕ) :
    Follows heap (items item k) (items item' k) := by
  induction k with
  | zero => exact .pure _
  | succ k ih => exact h.bind fun _ => ih.bind fun _ => .pure _

theorem follows_entries {entry0 entry0' : Reserving α} {entry1 entry1' : Reserving β}
    (h0 : Follows heap entry0 entry0') (h1 : Follows heap entry1 entry1') (k : ℕ)
    (value0 : Option α) (value1 : Option β) :
    Follows heap (entries cbor entry0 entry1 k value0 value1)
      (entries cbor entry0' entry1' k value0 value1) := by
  induction k generalizing value0 value1 with
  | zero => exact .pure _
  | succ k ih =>
      refine (follows_step _).bind fun key => ?_
      split
      · exact h0.bind fun _ => ih _ _
      · split
        · exact h1.bind fun _ => ih _ _
        · exact (follows_step _).bind fun _ => ih _ _

theorem follows_reserve (m size_of : ℕ) :
    Follows heap (with_capacity heap m size_of) (announce m size_of) := by
  intro s
  refine ⟨[⟨m, size_of, s.rest.length⟩], rfl, fun h => ?_, fun h => ?_⟩
  · have h : Deserializer.Fits heap (m % 2 ^ 32) size_of := h _ List.mem_cons_self
    rw [with_capacity, announce, Exec.modify_bind, Exec.assert, if_pos h]
    rfl
  · rw [AllFit, List.forall_mem_singleton] at h
    have h : ¬ Deserializer.Fits heap (m % 2 ^ 32) size_of := h
    refine Exec.panics_bind.mpr (.inr ⟨(), _, rfl, ?_⟩)
    rw [Exec.assert, if_neg h]
    exact ⟨_, rfl⟩

theorem follows_vec {item item' : Reserving α} (h : Follows heap item item') (size_of : ℕ) :
    Follows heap (vec cbor (with_capacity heap) size_of item) (vec cbor announce size_of item') :=
  (follows_step _).bind fun m => (follows_reserve m size_of).bind fun _ => follows_items h m

theorem follows_key_origin :
    Follows heap (decode_key_origin cbor (with_capacity heap)) (decode_key_origin cbor announce) :=
  (follows_step _).bind fun k =>
    (follows_entries (follows_step _) (follows_vec (follows_step _) _) k _ _).bind fun _ =>
      (Follows.orElse _ _).bind fun _ => (Follows.orElse _ _).bind fun _ => .pure _

theorem follows_key_information :
    Follows heap (decode_key_information cbor (with_capacity heap) : Reserving (KeyInformation X))
      (decode_key_information cbor announce) :=
  (follows_step _).bind fun k =>
    (follows_entries ((follows_step _).bind fun _ => .orElse _ _) follows_key_origin k _ _).bind
      fun _ => (Follows.orElse _ _).bind fun _ => .pure _

theorem follows_fields : Follows heap
    (decode_fields cbor (with_capacity heap) size_of_key :
      Reserving (String × List (KeyInformation X)))
    (decode_fields cbor announce size_of_key) :=
  (follows_step _).bind fun k =>
    (follows_entries (follows_step _) (follows_vec follows_key_information _) k _ _).bind fun _ =>
      (Follows.orElse _ _).bind fun _ => (Follows.orElse _ _).bind fun _ => .pure _

/-! ## The decoder -/

variable {bytes : Bytes}

/-- What is promised of the decoder, for the bytes of a message. -/
structure Decodes (X : Type) [Xpub X] (cbor : Minicbor) (heap size_of_key : ℕ) (bytes : Bytes) :
    Prop where
  /-- It returns a policy or an error. -/
  returns : ∀ why s, (decode_policy cbor (with_capacity heap) size_of_key :
    Reserving (WalletPolicy X)) (.start bytes) ≠ .stop why s
  /-- The capacity is the number that the array announces. -/
  exact : ∀ r ∈ ((decode_policy cbor (with_capacity heap) size_of_key :
    Reserving (WalletPolicy X)) (.start bytes)).state.reserved, r.capacity = r.announced
  /-- It is not more than the input has bytes left. -/
  ahead : ∀ r ∈ ((decode_policy cbor (with_capacity heap) size_of_key :
    Reserving (WalletPolicy X)) (.start bytes)).state.reserved, r.capacity ≤ r.remaining
  steps : ((decode_policy cbor (with_capacity heap) size_of_key :
    Reserving (WalletPolicy X)) (.start bytes)).state.steps ≤ bytes.length

/-- No array announces more elements than there are bytes after its head, or than
there is room for, and the template is not cut inside a character. -/
structure Modest (X : Type) [Xpub X] (cbor : Minicbor) (heap size_of_key : ℕ) (bytes : Bytes) :
    Prop where
  announced : ∀ r ∈ announced cbor X size_of_key bytes, r.announced ≤ r.remaining ∧
    Deserializer.Fits heap r.announced r.size_of
  template : ∀ t ∈ template cbor X size_of_key bytes, ¬ templates.cut t.toList

omit [Xpub X] in
theorem still_new (v : String × List (KeyInformation X)) :
    Exec.Still (Exec.zoom id (fun s _ => s) (fun _ => .message "invalid wallet policy")
      (WalletPolicy.new v.1 v.2) : Reserving (WalletPolicy X)) := by
  intro s
  have hview := new_view (fun _ : CborInput => s) v.1 v.2 s
  unfold Exec.zoom
  dsimp only [id]
  rw [← hview]
  cases WalletPolicy.new v.1 v.2 s <;> rfl

/-- What the decoder reserves and how many steps it takes is settled when the fields
have been read. -/
theorem policy_state (reserve : ℕ → ℕ → Reserving Unit) (s : CborInput) :
    ((decode_policy cbor reserve size_of_key : Reserving (WalletPolicy X)) s).state =
      ((decode_fields cbor reserve size_of_key :
        Reserving (String × List (KeyInformation X))) s).state :=
  Exec.state_bind still_new s

/-- Whether it stops is settled by the fields and the template. -/
theorem policy_stops_iff {reserve : ℕ → ℕ → Reserving Unit} {s : CborInput}
    (hm : ∀ t keys s', (decode_fields cbor reserve size_of_key :
      Reserving (String × List (KeyInformation X))) s = .ok (t, keys) s' → InMemory t keys) :
    (∃ why s', (decode_policy cbor reserve size_of_key : Reserving (WalletPolicy X)) s =
        .stop why s') ↔
      (∃ why s', (decode_fields cbor reserve size_of_key :
        Reserving (String × List (KeyInformation X))) s = .stop why s') ∨
      ∃ t keys s', (decode_fields cbor reserve size_of_key :
        Reserving (String × List (KeyInformation X))) s = .ok (t, keys) s' ∧
          templates.cut t.toList := by
  rw [decode_policy]
  cases hrun : (decode_fields cbor reserve size_of_key :
      Reserving (String × List (KeyInformation X))) s with
  | ok v s' =>
      obtain ⟨t, keys⟩ := v
      rw [Exec.bind_apply_ok hrun]
      have hcall : (∃ why s₁, (Exec.zoom id (fun s _ => s)
          (fun _ => .message "invalid wallet policy") (WalletPolicy.new t keys) :
            Reserving (WalletPolicy X)) s' = .stop why s₁) ↔ templates.cut t.toList := by
        rw [← new_stops_iff (hm t keys s' hrun) s']
        unfold Exec.zoom
        dsimp only [id]
        cases WalletPolicy.new t keys s' <;> simp
      refine hcall.trans ⟨fun h => .inr ⟨t, keys, s', rfl, h⟩, ?_⟩
      rintro (⟨why, s₁, h⟩ | ⟨t', keys', s₁, h, hcut⟩)
      · cases h
      · cases h
        exact hcut
  | err e s' =>
      rw [Exec.bind_apply_err hrun]
      simp
  | stop w s' =>
      rw [Exec.bind_apply_stop hrun]
      simp

/-- The fields of a message that is in memory are in memory. -/
theorem in_memory_fields {reserve : ℕ → ℕ → Reserving Unit} {quiet : Prop} {s s' : CborInput}
    {t : String} {keys : List (KeyInformation X)} (hbytes : n < 2 ^ 32)
    (hpaced : PacedAt quiet n 1
      (fun v : String × List (KeyInformation X) => (as_bytes v.1).length ≤ n ∧ v.2.length ≤ n ∧
        ∀ key ∈ v.2, ∀ o ∈ key.origin_info, o.derivation_path.length ≤ n)
      (decode_fields cbor reserve size_of_key) s)
    (hrun : (decode_fields cbor reserve size_of_key :
      Reserving (String × List (KeyInformation X))) s = .ok (t, keys) s') : InMemory t keys := by
  obtain ⟨-, -, ht, hkeys, hpaths⟩ := hpaced.ok hrun
  have hlt {k : ℕ} (h : k ≤ n) : k < 2 ^ 64 := by omega
  exact ⟨hlt ht, hlt hkeys, fun key hkey o ho => hlt (hpaths key hkey o ho)⟩

/-- The decoder does what it should exactly on the messages that are modest. -/
theorem decodes_iff (hcbor : cbor.Progresses) (hbytes : bytes.length < 2 ^ 32) :
    Decodes X cbor heap size_of_key bytes ↔ Modest X cbor heap size_of_key bytes := by
  have hstart : (CborInput.start bytes).steps + (CborInput.start bytes).rest.length ≤
      bytes.length := by simp [CborInput.start]
  have hcount : Counted bytes.length (.start bytes) := by simp [Counted, CborInput.start]
  have hpaced : PacedAt False bytes.length 1 _
      (decode_fields cbor (with_capacity heap) size_of_key :
        Reserving (String × List (KeyInformation X))) (.start bytes) :=
    paced_fields hcbor paced_with_capacity hstart hcount
  have hquiet : PacedAt True bytes.length 1 _ (decode_fields cbor announce size_of_key :
      Reserving (String × List (KeyInformation X))) (.start bytes) :=
    paced_fields hcbor paced_announce hstart hcount
  have hstops := policy_stops_iff fun t keys s' => in_memory_fields hbytes hpaced
  have hfollows : Follows heap _ (decode_fields cbor announce size_of_key :
    Reserving (String × List (KeyInformation X))) := follows_fields
  obtain ⟨new, hlog, hfit, hnot⟩ := hfollows (.start bytes)
  obtain rfl : new = announced cbor X size_of_key bytes := by
    rw [announced, hlog]
    simp [CborInput.start]
  have hreserved (hall : AllFit heap (announced cbor X size_of_key bytes)) :
      ((decode_policy cbor (with_capacity heap) size_of_key : Reserving (WalletPolicy X))
        (.start bytes)).state.reserved = announced cbor X size_of_key bytes := by
    rw [policy_state, hfit hall]
    rfl
  constructor
  · intro h
    have hno := mt hstops.mpr fun ⟨why, s, hrun⟩ => h.returns why s hrun
    rw [not_or] at hno
    -- there was room for everything, or the decoder would have panicked
    have hall : AllFit heap (announced cbor X size_of_key bytes) := by
      by_contra hbad
      obtain ⟨s, hrun⟩ := hnot hbad
      exact hno.1 ⟨_, s, hrun⟩
    refine ⟨fun r hr => ?_, fun t ht hcut => ?_⟩
    · have hroom := hall r hr
      rw [← hreserved hall] at hr
      rw [h.exact r hr] at hroom
      exact ⟨h.exact r hr ▸ h.ahead r hr, hroom⟩
    · rw [Option.mem_def, template] at ht
      split at ht
      · next t' keys s hrun =>
          cases ht
          exact hno.2 ⟨t, keys, s, (hfit hall).trans hrun, hcut⟩
      · cases ht
      · cases ht
  · intro h
    -- the message is no longer than the capacity of a vector may be
    have hexact (r : Reservation) (hr : r ∈ announced cbor X size_of_key bytes) :
        r.capacity = r.announced := by
      have hle := (h.announced r hr).1
      have hremaining := hquiet.counted.2 r hr
      exact Nat.mod_eq_of_lt (by omega)
    have hall : AllFit heap (announced cbor X size_of_key bytes) := by
      intro r hr
      rw [hexact r hr]
      exact (h.announced r hr).2
    refine ⟨fun why s hrun => ?_, ?_, ?_, ?_⟩
    · rcases hstops.mp ⟨why, s, hrun⟩ with ⟨why, s, hrun⟩ | ⟨t, keys, s, hrun, hcut⟩
      · rw [hfit hall] at hrun
        exact hquiet.stop trivial why s hrun
      · rw [hfit hall] at hrun
        refine h.template t ?_ hcut
        rw [template, hrun]
        rfl
    · rw [hreserved hall]
      exact hexact
    · rw [hreserved hall]
      intro r hr
      rw [hexact r hr]
      exact (h.announced r hr).1
    · rw [policy_state]
      exact hpaced.counted.1

end Reserving

/-! ### Two messages -/

namespace Minicbor

theorem take_cases (k : ℕ) (input : Bytes) :
    take k input = .ok (input.take k) (input.drop k) ∨ take k input = .err .other input := by
  unfold take
  by_cases h : input.length < k
  · exact .inr (Exec.reject_bind_pos h)
  · exact .inl (Exec.reject_bind_neg h)

theorem goes_take (k : ℕ) : Goes (take k) := by
  intro input
  rcases take_cases k input with h | h
  · exact .inl ⟨_, _, h, by simp⟩
  · exact .inr ⟨_, _, h⟩

theorem advances_take {k : ℕ} (hk : 0 < k) : Advances (take k) := by
  intro input
  by_cases h : input.length < k
  · exact .inr ⟨_, _, Exec.reject_bind_pos h⟩
  · refine .inl ⟨_, _, Exec.reject_bind_neg h, ?_⟩
    rw [List.length_drop]
    omega

theorem goes_number (k : ℕ) : Goes (number k) := (goes_take k).bind fun _ => .pure _

theorem advances_head (major : ℕ) : Advances (read_head major) := by
  refine (advances_take Nat.one_pos).bind fun first => (Goes.reject _ _).bind fun _ => ?_
  have hnumber := goes_number
  split_ifs
  · exact .pure _
  · exact hnumber 1
  · exact hnumber 2
  · exact hnumber 4
  · exact hnumber 8
  · exact .pure _
  · exact (Advances.throw _).goes

theorem advances_definite (major : ℕ) : Advances (definite major) :=
  (advances_head major).bind fun _ => .orElse _ _

theorem rfc8949_progresses : rfc8949.Progresses where
  u8 := (advances_definite 0).bind fun _ => (Goes.reject _ _).bind fun _ => .pure _
  u32 := (advances_definite 0).bind fun _ => (Goes.reject _ _).bind fun _ => .pure _
  str := (advances_definite 3).bind fun n => (goes_take n).bind fun _ => .orElse _ _
  bytes := (advances_definite 2).bind goes_take
  array := advances_head 4
  map := advances_head 5
  skip := .throw _
  str_length := by
    intro input s rest h
    obtain ⟨n, rest₁, hn, h⟩ := Exec.bind_ok.mp h
    obtain ⟨bytes, rest₂, htake, h⟩ := Exec.bind_ok.mp h
    obtain ⟨hs, -⟩ := Exec.orElse_ok.mp h
    have hrest : rest₁.length ≤ input.length := by
      rcases advances_definite 3 input with ⟨_, _, hrun, hlt⟩ | ⟨_, _, hrun⟩
      · cases hn.symm.trans hrun
        exact hlt.le
      · cases hn.symm.trans hrun
    rw [as_bytes_of_from_utf8 hs]
    rcases take_cases n rest₁ with hrun | hrun
    · cases htake.symm.trans hrun
      rw [List.length_take]
      omega
    · cases htake.symm.trans hrun

/-- A key is its encoding. -/
local instance : Xpub (Vector U8 78) where
  encode := id
  decode bytes := if bytes.length = 78 then some (array bytes 0 78) else none

/-- A policy whose key has a path of three steps. -/
def modest_bytes : Bytes := rfc8949.encode_policy (single_key 3 (by decide))

theorem decodes_3_steps : Reserving.Decodes (Vector U8 78) rfc8949 (2 ^ 16) 128 modest_bytes := by
  refine (Reserving.decodes_iff rfc8949_progresses (by decide +kernel)).mpr ⟨?_, ?_⟩
  · decide +kernel
  · have htemplate : Reserving.template rfc8949 (Vector U8 78) 128 modest_bytes =
        some (single_key 3 (by decide)).descriptor_template_raw := by decide +kernel
    intro t ht hcut
    obtain rfl := Option.some.inj (htemplate.symm.trans ht)
    obtain ⟨rest, hparsed⟩ := (single_key 3 (by decide)).parsed
    obtain ⟨s, hpanic⟩ := from_str_panics.mpr hcut
    cases hparsed.symm.trans hpanic

/-- A map, the key of its second entry, and the head of an array of `2 ^ 31 - 1` keys. -/
def greedy_bytes : Bytes := [0xa1, 0x01, 0x9a, 0x7f, 0xff, 0xff, 0xff]

/-- The capacity of the vector overflows. -/
theorem greedy_panics : ¬ ∀ (cbor : Minicbor), cbor.Progresses → ∀ heap size_of_key bytes,
    bytes.length < 2 ^ 32 → Reserving.Decodes (Vector U8 78) cbor heap size_of_key bytes := by
  intro h
  have hdecodes := h rfc8949 rfc8949_progresses (2 ^ 31 - 1) 128 greedy_bytes (by decide)
  have hstop : ∃ s, (Reserving.decode_policy rfc8949 (Reserving.with_capacity (2 ^ 31 - 1)) 128 :
      Reserving (WalletPolicy (Vector U8 78))) (.start greedy_bytes) = .stop .panic s := ⟨_, rfl⟩
  obtain ⟨s, hrun⟩ := hstop
  exact hdecodes.returns _ s hrun

end Minicbor

end Vanadium.Bitcoin
