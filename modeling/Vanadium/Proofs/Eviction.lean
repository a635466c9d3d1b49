import Vanadium.Lib.Recency
import Vanadium.Vm.Evict

/-!
# Which page is evicted

A page cache calls the methods of its eviction strategy as pages come and go:
it loads a page that it does not have into a slot that is free, it finds a page
in its slot, it asks for a victim when no slot is free, and it gives up slots.
Over every such run, the strategies choose the victim they are named after.

The strategies remember one number for each slot. It is the reading of a clock
that counts their calls, and as long as the clock does not wrap it puts the
slots in the order in which they were loaded or used.
-/

namespace Vanadium

open Lib

/-! ## The page cache -/

/-- What a page cache does, with the page in the slot. -/
inductive CacheEvent where
  | access (slot_index : ℕ) (page_index : U32)
  | load (slot_index : ℕ) (page_index : U32)
  | victim
  | invalidate (slot_index : ℕ) (page_index : U32)
  deriving DecidableEq, Repr

/-- The pages in the slots. -/
abbrev Slots := List (Option U32)

namespace CacheEvent

/-- The slot is loaded. -/
def loads (s : ℕ) : CacheEvent → Bool
  | .load t _ => t == s
  | _ => false

/-- The slot is used: its page is loaded or found there. -/
def uses (s : ℕ) : CacheEvent → Bool
  | .load t _ | .access t _ => t == s
  | _ => false

/-- The cache after an event, if it is one that can happen. -/
def step (slots : Slots) : CacheEvent → Option Slots
  | .access s p => if slots[s]? = some (some p) then some slots else none
  | .load s p =>
      if slots[s]? = some none ∧ some p ∉ slots then some (slots.set s (some p)) else none
  | .victim => if none ∉ slots then some slots else none
  | .invalidate s p => if slots[s]? = some (some p) then some (slots.set s none) else none

/-- The call of the strategy. -/
def notify {E : Type} [PageEvictionStrategy E] (e : E) : CacheEvent → Option E
  | .access s p => PageEvictionStrategy.on_access e s p
  | .load s p => PageEvictionStrategy.on_load e s p
  | .victim => (PageEvictionStrategy.choose_victim e).map Prod.snd
  | .invalidate s p => PageEvictionStrategy.on_invalidate e s p

end CacheEvent

/-- The cache of `n` slots after a run. -/
def cacheAfter (n : ℕ) (es : List CacheEvent) : Option Slots :=
  es.foldlM CacheEvent.step (List.replicate n none)

/-- A strategy after the calls of a run. -/
def strategyAfter {E : Type} [PageEvictionStrategy E] (e : E) (es : List CacheEvent) : Option E :=
  es.foldlM CacheEvent.notify e

/-- When a slot was last loaded, and when it was last used. -/
def lastLoad (es : List CacheEvent) (s : ℕ) : ℕ := lastTime (CacheEvent.loads s) es

def lastUse (es : List CacheEvent) (s : ℕ) : ℕ := lastTime (CacheEvent.uses s) es

section
variable {es : List CacheEvent} {s t : ℕ} {p : U32} {n : ℕ} {slots : Slots}

theorem cacheAfter_append {e : CacheEvent} {slots' : Slots} :
    cacheAfter n (es ++ [e]) = some slots' ↔
      ∃ slots, cacheAfter n es = some slots ∧ e.step slots = some slots' := by
  simp [cacheAfter, List.foldlM_append, Option.bind_eq_some_iff]

theorem strategyAfter_append {E : Type} [PageEvictionStrategy E] {e₀ e : E} {ev : CacheEvent}
    (h : strategyAfter e₀ es = some e) : strategyAfter e₀ (es ++ [ev]) = ev.notify e := by
  rw [strategyAfter] at h ⊢
  simp [List.foldlM_append, h]

@[simp] theorem lastUse_access : lastUse (es ++ [.access s p]) s = es.length + 1 :=
  lastTime_append_of_pos (by simp [CacheEvent.uses])

@[simp] theorem lastUse_load : lastUse (es ++ [.load s p]) s = es.length + 1 :=
  lastTime_append_of_pos (by simp [CacheEvent.uses])

@[simp] theorem lastLoad_load : lastLoad (es ++ [.load s p]) s = es.length + 1 :=
  lastTime_append_of_pos (by simp [CacheEvent.loads])

theorem lastUse_of_ne {e : CacheEvent} (h : e.uses s = false) :
    lastUse (es ++ [e]) s = lastUse es s :=
  lastTime_append_of_neg h

theorem lastLoad_of_ne {e : CacheEvent} (h : e.loads s = false) :
    lastLoad (es ++ [e]) s = lastLoad es s :=
  lastTime_append_of_neg h

theorem cacheAfter_length : ∀ {es : List CacheEvent} {slots : Slots},
    cacheAfter n es = some slots → slots.length = n := by
  intro es
  induction es using List.reverseRecOn with
  | nil =>
      intro slots h
      rw [← Option.some.inj h, List.length_replicate]
  | append_singleton es e ih =>
      intro slots' h
      obtain ⟨slots, hslots, hstep⟩ := cacheAfter_append.mp h
      rw [← ih hslots]
      cases e <;> simp only [CacheEvent.step] at hstep <;> split at hstep <;>
        simp at hstep <;> rw [← hstep] <;> simp

end

/-! ## The smallest time -/

/-- One turn of the loops that look for a victim. -/
def older (best : U32 × Option ℕ) (e : Option U32 × ℕ) : U32 × Option ℕ :=
  match e.1 with
  | some time => if time < best.1 then (time, some e.2) else best
  | none => best

theorem oldest_eq (times : List (Option U32)) :
    oldest times = (times.zipIdx.foldl older (u32_max, none)).2 := rfl

/-- `out` is the smallest of `best` and the times from index `k` on. -/
structure Oldest (times : List (Option U32)) (k : ℕ) (best out : U32 × Option ℕ) : Prop where
  le : out.1 ≤ best.1
  min : ∀ {i : ℕ} {t : U32}, times[i]? = some (some t) → out.1 ≤ t
  found : out = best ∨ ∃ i : ℕ, out.2 = some (k + i) ∧ times[i]? = some (some out.1)

theorem foldl_older : ∀ (times : List (Option U32)) (k : ℕ) (best : U32 × Option ℕ),
    Oldest times k best ((times.zipIdx k).foldl older best)
  | [], k, best => ⟨BitVec.le_refl _, by simp, .inl rfl⟩
  | e :: times, k, best => by
      have ih := foldl_older times (k + 1) (older best (e, k))
      rw [List.zipIdx_cons, List.foldl_cons]
      -- after the first slot the best is at most what it was, and at most its time
      have hfirst : (older best (e, k)).1 ≤ best.1 ∧ (∀ t, e = some t → (older best (e, k)).1 ≤ t) ∧
          (older best (e, k) = best ∨ older best (e, k) = ((older best (e, k)).1, some k) ∧
            e = some (older best (e, k)).1) := by
        unfold older
        cases e with
        | none => exact ⟨BitVec.le_refl _, by simp, .inl rfl⟩
        | some t =>
            dsimp only
            split
            · next hlt => exact ⟨BitVec.le_of_lt hlt, by simp, .inr ⟨rfl, rfl⟩⟩
            · next hge => exact ⟨BitVec.le_refl _, by simpa using hge, .inl rfl⟩
      obtain ⟨hle, hmin, hcases⟩ := hfirst
      refine ⟨BitVec.le_trans ih.le hle, ?_, ?_⟩
      · intro i t hi
        cases i with
        | zero =>
            rw [List.getElem?_cons_zero] at hi
            exact BitVec.le_trans ih.le (hmin t (Option.some.inj hi))
        | succ i =>
            rw [List.getElem?_cons_succ] at hi
            exact ih.min hi
      · rcases ih.found with hout | ⟨i, hi, ht⟩
        · rw [hout]
          rcases hcases with hbest | ⟨hk, he⟩
          · exact .inl hbest
          · refine .inr ⟨0, by rw [hk]; rfl, ?_⟩
            rw [List.getElem?_cons_zero, ← he]
        · exact .inr ⟨i + 1, by rw [hi]; congr 1; omega, by rwa [List.getElem?_cons_succ]⟩

/-- The time of a slot, as a number. -/
def timeAt (times : List (Option U32)) (s : ℕ) : Option ℕ := (times[s]?.join).map BitVec.toNat

theorem timeAt_eq_some {times : List (Option U32)} {s x : ℕ} :
    timeAt times s = some x ↔ ∃ t, times[s]? = some (some t) ∧ t.toNat = x := by
  simp [timeAt, Option.map_eq_some_iff, Option.join_eq_some_iff]

/-- The smallest time is found, if there is one below the largest number. -/
theorem oldest_spec {times : List (Option U32)} {s x : ℕ} (h : timeAt times s = some x)
    (hx : x < 2 ^ 32 - 1) : ∃ v y, oldest times = some v ∧ timeAt times v = some y ∧
      ∀ {t z}, timeAt times t = some z → y ≤ z := by
  obtain ⟨t, ht, rfl⟩ := timeAt_eq_some.mp h
  have hfold := foldl_older times 0 (u32_max, none)
  rw [oldest_eq]
  generalize times.zipIdx.foldl older (u32_max, none) = out at hfold
  have hlt : out.1.toNat < 2 ^ 32 - 1 := Nat.lt_of_le_of_lt (hfold.min ht) hx
  rcases hfold.found with hbest | ⟨v, hv, htime⟩
  · rw [hbest] at hlt
    exact absurd hlt (by decide)
  · refine ⟨v, out.1.toNat, by rw [hv, Nat.zero_add], timeAt_eq_some.mpr ⟨_, htime, rfl⟩, ?_⟩
    intro u z hz
    obtain ⟨t', ht', rfl⟩ := timeAt_eq_some.mp hz
    exact hfold.min ht'

/-! ## LRU -/

/-- The page in a slot. -/
def pageAt (slots : Slots) (s : ℕ) : Option U32 := slots[s]?.join

theorem pageAt_eq_some {slots : Slots} {s : ℕ} {p : U32} :
    pageAt slots s = some p ↔ slots[s]? = some (some p) := Option.join_eq_some_iff

theorem toNat_tick {c : U32} {k : ℕ} (h : c.toNat ≤ k) (hk : k + 1 < 2 ^ 32 - 1) :
    (c + 1).toNat = c.toNat + 1 := by
  rw [BitVec.toNat_add]
  exact Nat.mod_eq_of_lt (by have : (1 : U32).toNat = 1 := rfl; omega)

namespace LruEvictionStrategy

/-- The counters of the slots in use. -/
def stamp (slots : Slots) (e : LruEvictionStrategy) (s : ℕ) : Option ℕ :=
  if (pageAt slots s).isSome then timeAt (e.usage_counters.map some) s else none

theorem stamp_eq_some {slots : Slots} {e : LruEvictionStrategy} {s x : ℕ} :
    stamp slots e s = some x ↔
      (∃ p, slots[s]? = some (some p)) ∧ ∃ t, e.usage_counters[s]? = some t ∧ t.toNat = x := by
  unfold stamp
  split
  · next h =>
      obtain ⟨p, hp⟩ := Option.isSome_iff_exists.mp h
      rw [timeAt_eq_some]
      simp [pageAt_eq_some.mp hp]
  · next h =>
      simp only [← pageAt_eq_some, ← Option.isSome_iff_exists, h, false_and, reduceCtorEq,
        Bool.false_eq_true]

/-- The counters are in the order of the last uses. -/
structure Ages (n : ℕ) (es : List CacheEvent) (slots : Slots) (e : LruEvictionStrategy) : Prop where
  length : e.usage_counters.length = n
  clock : e.global_counter.toNat ≤ es.length
  stamps : Stamps (stamp slots e) (lastUse es) e.global_counter.toNat es.length

variable {n : ℕ} {es : List CacheEvent} {slots slots' : Slots} {e : LruEvictionStrategy}
  {s : ℕ} {p : U32}

theorem Ages.new (n : ℕ) : Ages n [] (List.replicate n none) (new n) where
  length := List.length_replicate
  clock := Nat.le_refl _
  stamps := .empty fun s => by
    rw [Option.eq_none_iff_forall_ne_some]
    intro x hx
    obtain ⟨⟨p, hp⟩, -⟩ := stamp_eq_some.mp hx
    simp [List.getElem?_replicate] at hp

/-- A use of a slot that holds a page from then on. -/
theorem Ages.touch (h : Ages n es slots e) {ev : CacheEvent} (hlen : es.length + 1 < 2 ^ 32 - 1)
    (hs : s < n) (hpage : slots'[s]? = some (some p))
    (hother : ∀ t, t ≠ s → slots'[t]? = slots[t]?) (huse : lastUse (es ++ [ev]) s = es.length + 1)
    (huses : ∀ t, t ≠ s → ev.uses t = false) :
    ∃ e', e.touch s = some e' ∧ Ages n (es ++ [ev]) slots' e' := by
  have htick := toNat_tick h.clock hlen
  have hlt : s < e.usage_counters.length := by rw [h.length]; exact hs
  refine ⟨_, if_pos hlt, ?_⟩
  refine ⟨by rw [List.length_set, h.length], ?_, ?_⟩
  · rw [htick, List.length_append]
    exact Nat.succ_le_succ h.clock
  · rw [htick, List.length_append]
    refine h.stamps.touch (s := s) ?_ huse fun {t x} hne ht => ?_
    · rw [stamp_eq_some]
      exact ⟨⟨p, hpage⟩, _, List.getElem?_set_self hlt, htick⟩
    · obtain ⟨hp, c, hc, hx⟩ := stamp_eq_some.mp ht
      rw [hother t hne] at hp
      rw [List.getElem?_set_ne (Ne.symm hne)] at hc
      exact ⟨stamp_eq_some.mpr ⟨hp, c, hc, hx⟩, lastUse_of_ne (huses t hne)⟩

theorem Ages.step (h : Ages n es slots e) (hslots : slots.length = n) {ev : CacheEvent}
    (hstep : ev.step slots = some slots') (hlen : es.length + 1 < 2 ^ 32 - 1) :
    ∃ e', ev.notify e = some e' ∧ Ages n (es ++ [ev]) slots' e' := by
  have hnow : es.length ≤ (es ++ [ev]).length := by simp
  cases ev with
  | access s p =>
      simp only [CacheEvent.step] at hstep
      split at hstep
      · next hp =>
          cases hstep
          obtain ⟨hs, -⟩ := List.getElem?_eq_some_iff.mp hp
          exact h.touch hlen (by rw [← hslots]; exact hs) hp (fun _ _ => rfl) lastUse_access
            fun t hne => by simpa [CacheEvent.uses] using Ne.symm hne
      · cases hstep
  | load s p =>
      simp only [CacheEvent.step] at hstep
      split at hstep
      · next hp =>
          cases hstep
          obtain ⟨hs, -⟩ := List.getElem?_eq_some_iff.mp hp.1
          exact h.touch hlen (by rw [← hslots]; exact hs) (List.getElem?_set_self hs)
            (fun t hne => List.getElem?_set_ne (Ne.symm hne)) lastUse_load
            fun t hne => by simpa [CacheEvent.uses] using Ne.symm hne
      · cases hstep
  | victim =>
      simp only [CacheEvent.step] at hstep
      split at hstep
      · cases hstep
        exact ⟨e, rfl, h.length, h.clock.trans hnow,
          h.stamps.mono (fun hs => ⟨hs, lastUse_of_ne rfl⟩) (Nat.le_refl _) hnow⟩
      · cases hstep
  | invalidate s p =>
      simp only [CacheEvent.step] at hstep
      split at hstep
      · next hp =>
          cases hstep
          obtain ⟨hs, -⟩ := List.getElem?_eq_some_iff.mp hp
          refine ⟨_, if_pos (by rw [h.length, ← hslots]; exact hs),
            by rw [List.length_set]; exact h.length, h.clock.trans hnow,
            h.stamps.mono (fun {t x} ht => ?_) (Nat.le_refl _) hnow⟩
          obtain ⟨⟨q, hq⟩, c, hc, hx⟩ := stamp_eq_some.mp ht
          have hne : s ≠ t := by
            intro hst
            rw [← hst, List.getElem?_set_self hs] at hq
            cases hq
          rw [List.getElem?_set_ne hne] at hq hc
          exact ⟨stamp_eq_some.mpr ⟨⟨q, hq⟩, c, hc, hx⟩, lastUse_of_ne rfl⟩
      · cases hstep

/-- The strategy after a run. -/
theorem ages_of_run {n : ℕ} : ∀ {es : List CacheEvent} {slots : Slots},
    cacheAfter n es = some slots → es.length < 2 ^ 32 - 1 →
      ∃ e, strategyAfter (new n) es = some e ∧ Ages n es slots e := by
  intro es
  induction es using List.reverseRecOn with
  | nil =>
      intro slots h _
      rw [← Option.some.inj h]
      exact ⟨_, rfl, .new n⟩
  | append_singleton es ev ih =>
      intro slots' h hlen
      rw [List.length_append] at hlen
      obtain ⟨slots, hslots, hstep⟩ := cacheAfter_append.mp h
      obtain ⟨e, he, hages⟩ := ih hslots (by omega)
      obtain ⟨e', he', hages'⟩ := hages.step (cacheAfter_length hslots) hstep hlen
      exact ⟨e', by rw [strategyAfter_append he, he'], hages'⟩

/-- A full cache of at least one slot has a victim: the one whose last use is oldest. -/
theorem Ages.victim (h : Ages n es slots e) (hslots : slots.length = n) (hn : 0 < n)
    (hfull : none ∉ slots) (hlen : es.length < 2 ^ 32 - 1) :
    (∃ p, slots[e.choose_victim]? = some (some p)) ∧
      ∀ s < n, s ≠ e.choose_victim → lastUse es e.choose_victim < lastUse es s := by
  have hpage {s : ℕ} (hs : s < n) : ∃ p, slots[s]? = some (some p) := by
    rw [← hslots] at hs
    cases hp : slots[s] with
    | none => exact absurd (hp ▸ List.getElem_mem hs) hfull
    | some p => exact ⟨p, by rw [List.getElem?_eq_getElem hs, hp]⟩
  have hstamp {s : ℕ} (hs : s < n) : ∃ x, stamp slots e s = some x := by
    have hs' : s < e.usage_counters.length := by rw [h.length]; exact hs
    exact ⟨_, stamp_eq_some.mpr ⟨hpage hs, _, List.getElem?_eq_getElem hs', rfl⟩⟩
  have htime {s x : ℕ} (hs : timeAt (e.usage_counters.map some) s = some x) :
      s < n ∧ stamp slots e s = some x := by
    obtain ⟨t, ht, hx⟩ := timeAt_eq_some.mp hs
    rw [List.getElem?_map, Option.map_eq_some_iff] at ht
    obtain ⟨c, hc, ht⟩ := ht
    cases ht
    obtain ⟨hlt, -⟩ := List.getElem?_eq_some_iff.mp hc
    rw [h.length] at hlt
    exact ⟨hlt, stamp_eq_some.mpr ⟨hpage hlt, _, hc, hx⟩⟩
  have hback {s x : ℕ} (hs : stamp slots e s = some x) :
      timeAt (e.usage_counters.map some) s = some x := by
    unfold stamp at hs
    split at hs
    · exact hs
    · cases hs
  obtain ⟨x, hx⟩ := hstamp hn
  obtain ⟨v, y, hv, hy, hmin⟩ := oldest_spec (hback hx)
    (by have := h.stamps.stamp_le hx; have := h.clock; omega)
  obtain ⟨hvn, hvy⟩ := htime hy
  have hvictim : e.choose_victim = v := by
    rw [choose_victim, hv]
    rfl
  rw [hvictim]
  refine ⟨hpage hvn, fun s hs hne => ?_⟩
  obtain ⟨z, hz⟩ := hstamp hs
  exact h.stamps.oldest hvy (fun hu => hmin (hback hu)) hne hz

end LruEvictionStrategy

/-! ## 2Q -/

namespace TwoQEvictionStrategy

/-- The slots of the queue A1. -/
def inA1 : PageState → Bool
  | .a1 _ => true
  | _ => false

def stampA1 (e : TwoQEvictionStrategy) (s : ℕ) : Option ℕ := timeAt (e.states.map a1_time) s

def stampAm (e : TwoQEvictionStrategy) (s : ℕ) : Option ℕ := timeAt (e.states.map am_time) s

theorem stampA1_eq_some {e : TwoQEvictionStrategy} {s x : ℕ} :
    stampA1 e s = some x ↔ ∃ t, e.states[s]? = some (.a1 t) ∧ t.toNat = x := by
  rw [stampA1, timeAt_eq_some]
  refine exists_congr fun t => and_congr_left fun _ => ?_
  rw [List.getElem?_map, Option.map_eq_some_iff]
  refine ⟨fun ⟨q, hq, ht⟩ => ?_, fun h => ⟨_, h, rfl⟩⟩
  cases q with
  | a1 => cases ht; exact hq
  | free | am => cases ht

theorem stampAm_eq_some {e : TwoQEvictionStrategy} {s x : ℕ} :
    stampAm e s = some x ↔ ∃ t, e.states[s]? = some (.am t) ∧ t.toNat = x := by
  rw [stampAm, timeAt_eq_some]
  refine exists_congr fun t => and_congr_left fun _ => ?_
  rw [List.getElem?_map, Option.map_eq_some_iff]
  refine ⟨fun ⟨q, hq, ht⟩ => ?_, fun h => ⟨_, h, rfl⟩⟩
  cases q with
  | am => cases ht; exact hq
  | free | a1 => cases ht

/-- The queues are those of the cache: every page is in one of them, none of the
pages is in the ghost queue, and the times put A1 in the order of the loads and Am in
the order of the uses. -/
structure Queues (n a1_max a1out_max : ℕ) (es : List CacheEvent) (slots : Slots)
    (e : TwoQEvictionStrategy) : Prop where
  length : e.states.length = n
  max_eq : e.a1_max_size = a1_max
  ghost_max_eq : e.a1out_max_size = a1out_max
  free : ∀ s : ℕ, e.states[s]? = some PageState.free ↔ slots[s]? = some none
  count : e.a1_size = e.states.countP inA1
  distinct : ∀ {s t : ℕ} {p : U32}, slots[s]? = some (some p) → slots[t]? = some (some p) → s = t
  ghosts : e.a1out.Nodup
  ghosts_le : e.a1out.length ≤ a1out_max
  ghost : ∀ {s : ℕ} {p : U32}, slots[s]? = some (some p) → p ∉ e.a1out
  clock : e.global_counter.toNat ≤ es.length
  fifo : Stamps (stampA1 e) (lastLoad es) e.global_counter.toNat es.length
  lru : Stamps (stampAm e) (lastUse es) e.global_counter.toNat es.length

variable {n a1_max a1out_max : ℕ} {es : List CacheEvent} {slots slots' : Slots}
  {e e₀ : TwoQEvictionStrategy} {s : ℕ} {p : U32}

theorem Queues.new (hmax : a1_max < n) : ∃ e₀, new n a1_max a1out_max = some e₀ ∧
    Queues n a1_max a1out_max [] (List.replicate n none) e₀ := by
  refine ⟨_, if_neg (Nat.not_le_of_lt hmax), ?_⟩
  exact {
    length := List.length_replicate
    max_eq := rfl
    ghost_max_eq := rfl
    free := fun s => by simp [List.getElem?_replicate]
    count := by simp [List.countP_replicate, inA1]
    distinct := fun hs => by simp [List.getElem?_replicate] at hs
    ghosts := List.nodup_nil
    ghosts_le := Nat.zero_le _
    ghost := fun hs => by simp [List.getElem?_replicate] at hs
    clock := Nat.le_refl _
    fifo := .empty fun s => by
      rw [Option.eq_none_iff_forall_ne_some]
      intro x hx
      obtain ⟨t, ht, -⟩ := stampA1_eq_some.mp hx
      simp [List.getElem?_replicate] at ht
    lru := .empty fun s => by
      rw [Option.eq_none_iff_forall_ne_some]
      intro x hx
      obtain ⟨t, ht, -⟩ := stampAm_eq_some.mp hx
      simp [List.getElem?_replicate] at ht }

/-- A slot with a page is in one of the queues. -/
theorem Queues.queued (h : Queues n a1_max a1out_max es slots e) (hslots : slots.length = n)
    (hp : slots[s]? = some (some p)) :
    (∃ t, e.states[s]? = some (.a1 t)) ∨ ∃ t, e.states[s]? = some (.am t) := by
  obtain ⟨hlt, -⟩ := List.getElem?_eq_some_iff.mp hp
  have hlt' : s < e.states.length := by rw [h.length, ← hslots]; exact hlt
  have hstate := List.getElem?_eq_getElem hlt'
  cases hq : e.states[s] with
  | free =>
      have hfree := (h.free s).mp (hstate.trans (congrArg some hq))
      rw [hp] at hfree
      cases hfree
  | a1 t => exact .inl ⟨t, hstate.trans (congrArg some hq)⟩
  | am t => exact .inr ⟨t, hstate.trans (congrArg some hq)⟩

/-- Writing one slot's state. -/
theorem set_state {q : PageState} (hs : s < e.states.length) {t : ℕ} {q' : PageState}
    (h : (e.states.set s q)[t]? = some q') : (t = s ∧ q' = q) ∨ (t ≠ s ∧ e.states[t]? = some q') := by
  by_cases hts : t = s
  · rw [hts, List.getElem?_set_self hs] at h
    cases h
    exact .inl ⟨hts, rfl⟩
  · rw [List.getElem?_set_ne (Ne.symm hts)] at h
    exact .inr ⟨hts, h⟩

theorem Queues.access (h : Queues n a1_max a1out_max es slots e) (hslots : slots.length = n)
    (hlen : es.length + 1 < 2 ^ 32 - 1) (hp : slots[s]? = some (some p)) :
    ∃ e', e.on_access s = some e' ∧ Queues n a1_max a1out_max (es ++ [.access s p]) slots e' := by
  have htick := toNat_tick h.clock hlen
  have hclock : (e.global_counter + 1).toNat ≤ (es ++ [CacheEvent.access s p]).length := by
    rw [htick, List.length_append]
    exact Nat.succ_le_succ h.clock
  have hnow : es.length ≤ (es ++ [CacheEvent.access s p]).length := by simp
  have hload (t : ℕ) : lastLoad (es ++ [.access s p]) t = lastLoad es t := lastLoad_of_ne rfl
  have huse {t : ℕ} (hne : t ≠ s) : lastUse (es ++ [.access s p]) t = lastUse es t :=
    lastUse_of_ne (by simpa [CacheEvent.uses] using Ne.symm hne)
  obtain ⟨t₀, ht₀⟩ | ⟨t₀, ht₀⟩ := h.queued hslots hp
  · -- A1 is in the order of the loads
    refine ⟨{ e with global_counter := e.global_counter + 1 }, by simp [on_access, ht₀], ?_⟩
    exact { h with
      clock := hclock
      fifo := h.fifo.mono (fun ht => ⟨ht, hload _⟩) (by rw [htick]; omega) hnow
      lru := h.lru.mono (fun {t x} ht => by
        refine ⟨ht, huse fun hts => ?_⟩
        obtain ⟨c, hc, -⟩ := stampAm_eq_some.mp ht
        rw [hts, ht₀] at hc
        cases hc) (by rw [htick]; omega) hnow }
  · obtain ⟨hs, -⟩ := List.getElem?_eq_some_iff.mp ht₀
    refine ⟨_, by simp only [on_access, ht₀]; rfl, ?_⟩
    exact {
      length := by rw [List.length_set]; exact h.length
      max_eq := h.max_eq
      ghost_max_eq := h.ghost_max_eq
      free := fun t => by
        by_cases hts : t = s
        · rw [hts, List.getElem?_set_self hs, hp]
          simp
        · rw [List.getElem?_set_ne (Ne.symm hts)]
          exact h.free t
      count := by
        rw [List.countP_set hs, (List.getElem?_eq_some_iff.mp ht₀).2]
        simpa [inA1] using h.count
      distinct := h.distinct
      ghosts := h.ghosts
      ghosts_le := h.ghosts_le
      ghost := h.ghost
      clock := hclock
      fifo := h.fifo.mono (fun {t x} ht => by
        obtain ⟨c, hc, hx⟩ := stampA1_eq_some.mp ht
        rcases set_state hs hc with ⟨-, hq⟩ | ⟨-, hq⟩
        · cases hq
        · exact ⟨stampA1_eq_some.mpr ⟨c, hq, hx⟩, hload t⟩) (by rw [htick]; omega) hnow
      lru := by
        rw [htick, List.length_append]
        refine h.lru.touch (s := s) (stampAm_eq_some.mpr ⟨_, List.getElem?_set_self hs, htick⟩)
          lastUse_access fun {t x} hne ht => ?_
        obtain ⟨c, hc, hx⟩ := stampAm_eq_some.mp ht
        rcases set_state hs hc with ⟨hts, -⟩ | ⟨-, hq⟩
        · exact absurd hts hne
        · exact ⟨stampAm_eq_some.mpr ⟨c, hq, hx⟩, huse hne⟩ }

/-- A page takes a free slot. -/
theorem set_page {s : ℕ} {q : Option U32} (hs : s < slots.length) {t : ℕ} {p : U32}
    (h : (slots.set s q)[t]? = some (some p)) :
    (t = s ∧ q = some p) ∨ (t ≠ s ∧ slots[t]? = some (some p)) := by
  by_cases hts : t = s
  · rw [hts, List.getElem?_set_self hs] at h
    exact .inl ⟨hts, Option.some.inj h⟩
  · rw [List.getElem?_set_ne (Ne.symm hts)] at h
    exact .inr ⟨hts, h⟩

theorem Queues.load (h : Queues n a1_max a1out_max es slots e) (hslots : slots.length = n)
    (hlen : es.length + 1 < 2 ^ 32 - 1) (hfree : slots[s]? = some none) (hnew : some p ∉ slots) :
    ∃ e', e.on_load s p = some e' ∧
      Queues n a1_max a1out_max (es ++ [.load s p]) (slots.set s (some p)) e' := by
  have htick := toNat_tick h.clock hlen
  have hclock : (e.global_counter + 1).toNat ≤ (es ++ [CacheEvent.load s p]).length := by
    rw [htick, List.length_append]
    exact Nat.succ_le_succ h.clock
  have hnow : es.length ≤ (es ++ [CacheEvent.load s p]).length := by simp
  have hload {t : ℕ} (hne : t ≠ s) : lastLoad (es ++ [.load s p]) t = lastLoad es t :=
    lastLoad_of_ne (by simpa [CacheEvent.loads] using Ne.symm hne)
  have huse {t : ℕ} (hne : t ≠ s) : lastUse (es ++ [.load s p]) t = lastUse es t :=
    lastUse_of_ne (by simpa [CacheEvent.uses] using Ne.symm hne)
  obtain ⟨hs, -⟩ := List.getElem?_eq_some_iff.mp hfree
  have hs' : s < e.states.length := by rw [h.length, ← hslots]; exact hs
  have hstate : e.states[s] = .free :=
    (List.getElem?_eq_some_iff.mp ((h.free s).mpr hfree)).2
  -- what does not depend on the queue the page goes to
  have hfreeIff {q : PageState} (hq : q ≠ .free) (t : ℕ) :
      (e.states.set s q)[t]? = some .free ↔ (slots.set s (some p))[t]? = some none := by
    by_cases hts : t = s
    · rw [hts, List.getElem?_set_self hs', List.getElem?_set_self hs]
      simpa using hq
    · rw [List.getElem?_set_ne (Ne.symm hts), List.getElem?_set_ne (Ne.symm hts)]
      exact h.free t
  have hdistinct {t u : ℕ} {q : U32} (ht : (slots.set s (some p))[t]? = some (some q))
      (hu : (slots.set s (some p))[u]? = some (some q)) : t = u := by
    rcases set_page hs ht with ⟨htq, hqt⟩ | ⟨-, ht⟩
    · rcases set_page hs hu with ⟨huq, -⟩ | ⟨-, hu⟩
      · exact htq.trans huq.symm
      · exact absurd (Option.some.inj hqt ▸ List.mem_of_getElem? hu) hnew
    · rcases set_page hs hu with ⟨-, hqu⟩ | ⟨-, hu⟩
      · exact absurd (Option.some.inj hqu ▸ List.mem_of_getElem? ht) hnew
      · exact h.distinct ht hu
  rw [on_load]
  simp only [hs', if_true]
  split
  · next pos hpos =>
      have herase : e.a1out.eraseIdx pos = e.a1out.erase p := by
        have hidx : e.a1out.idxOf? p = some pos := hpos
        rw [List.erase_eq_eraseIdx, hidx]
      refine ⟨_, rfl, ?_⟩
      exact {
        length := by rw [List.length_set]; exact h.length
        max_eq := h.max_eq
        ghost_max_eq := h.ghost_max_eq
        free := hfreeIff (by simp)
        count := by
          rw [List.countP_set hs', hstate]
          simpa [inA1] using h.count
        distinct := hdistinct
        ghosts := by dsimp only; rw [herase]; exact h.ghosts.erase p
        ghosts_le := by
          dsimp only
          rw [herase]
          exact (List.length_erase_le).trans h.ghosts_le
        ghost := fun {t q} ht => by
          dsimp only
          rw [herase, h.ghosts.mem_erase_iff]
          rintro ⟨hne, hmem⟩
          rcases set_page hs ht with ⟨-, hq⟩ | ⟨-, ht⟩
          · exact hne (Option.some.inj hq).symm
          · exact h.ghost ht hmem
        clock := hclock
        fifo := h.fifo.mono (fun {t x} ht => by
          obtain ⟨c, hc, hx⟩ := stampA1_eq_some.mp ht
          rcases set_state hs' hc with ⟨-, hq⟩ | ⟨hne, hq⟩
          · cases hq
          · exact ⟨stampA1_eq_some.mpr ⟨c, hq, hx⟩, hload hne⟩) (by rw [htick]; omega) hnow
        lru := by
          rw [htick, List.length_append]
          refine h.lru.touch (s := s)
            (stampAm_eq_some.mpr ⟨_, List.getElem?_set_self hs', htick⟩)
            lastUse_load fun {t x} hne ht => ?_
          obtain ⟨c, hc, hx⟩ := stampAm_eq_some.mp ht
          rcases set_state hs' hc with ⟨hts, -⟩ | ⟨-, hq⟩
          · exact absurd hts hne
          · exact ⟨stampAm_eq_some.mpr ⟨c, hq, hx⟩, huse hne⟩ }
  · next hpos =>
      have hnot : p ∉ e.a1out := by
        intro hmem
        have := List.findIdx?_eq_none_iff.mp hpos p hmem
        simp at this
      refine ⟨_, rfl, ?_⟩
      exact {
        length := by rw [List.length_set]; exact h.length
        max_eq := h.max_eq
        ghost_max_eq := h.ghost_max_eq
        free := hfreeIff (by simp)
        count := by
          rw [List.countP_set hs', hstate]
          simpa [inA1] using h.count
        distinct := hdistinct
        ghosts := h.ghosts
        ghosts_le := h.ghosts_le
        ghost := fun {t q} ht => by
          rcases set_page hs ht with ⟨-, hq⟩ | ⟨-, ht⟩
          · cases hq
            exact hnot
          · exact h.ghost ht
        clock := hclock
        fifo := by
          rw [htick, List.length_append]
          refine h.fifo.touch (s := s)
            (stampA1_eq_some.mpr ⟨_, List.getElem?_set_self hs', htick⟩)
            lastLoad_load fun {t x} hne ht => ?_
          obtain ⟨c, hc, hx⟩ := stampA1_eq_some.mp ht
          rcases set_state hs' hc with ⟨hts, -⟩ | ⟨-, hq⟩
          · exact absurd hts hne
          · exact ⟨stampA1_eq_some.mpr ⟨c, hq, hx⟩, hload hne⟩
        lru := h.lru.mono (fun {t x} ht => by
          obtain ⟨c, hc, hx⟩ := stampAm_eq_some.mp ht
          rcases set_state hs' hc with ⟨-, hq⟩ | ⟨hne, hq⟩
          · cases hq
          · exact ⟨stampAm_eq_some.mpr ⟨c, hq, hx⟩, huse hne⟩) (by rw [htick]; omega) hnow }

/-- The ghost queue after a page of A1 was given up. -/
theorem ghosts_push {ghosts : List U32} {m : ℕ} (hm : 1 ≤ m) (hnodup : ghosts.Nodup)
    (hle : ghosts.length ≤ m) (hp : p ∉ ghosts) :
    ((if ghosts.length = m then ghosts.tail else ghosts) ++ [p]).Nodup ∧
      ((if ghosts.length = m then ghosts.tail else ghosts) ++ [p]).length ≤ m ∧
        ∀ q ∉ ghosts, q ≠ p →
          q ∉ (if ghosts.length = m then ghosts.tail else ghosts) ++ [p] := by
  have hsub : (if ghosts.length = m then ghosts.tail else ghosts).Sublist ghosts := by
    split
    · exact List.tail_sublist _
    · exact List.Sublist.refl _
  have hlt : (if ghosts.length = m then ghosts.tail else ghosts).length < m := by
    split
    · rw [List.length_tail]
      omega
    · omega
  refine ⟨?_, ?_, ?_⟩
  · rw [List.nodup_append]
    exact ⟨hnodup.sublist hsub, List.nodup_singleton p, fun a ha b hb hab =>
      hp (hsub.subset (by rw [← List.mem_singleton.mp hb, ← hab]; exact ha))⟩
  · rw [List.length_append]
    exact hlt
  · intro q hq hne hmem
    rcases List.mem_append.mp hmem with hmem | hmem
    · exact hq (hsub.subset hmem)
    · exact hne (List.mem_singleton.mp hmem)

theorem Queues.invalidate (h : Queues n a1_max a1out_max es slots e) (hslots : slots.length = n)
    (hghost : 1 ≤ a1out_max) (hp : slots[s]? = some (some p)) :
    ∃ e', e.on_invalidate s p = some e' ∧
      Queues n a1_max a1out_max (es ++ [.invalidate s p]) (slots.set s none) e' := by
  have hnow : es.length ≤ (es ++ [CacheEvent.invalidate s p]).length := by simp
  obtain ⟨hs, -⟩ := List.getElem?_eq_some_iff.mp hp
  have hs' : s < e.states.length := by rw [h.length, ← hslots]; exact hs
  have hold {t : ℕ} {q : U32} (ht : (slots.set s none)[t]? = some (some q)) :
      t ≠ s ∧ slots[t]? = some (some q) := by
    rcases set_page hs ht with ⟨-, hq⟩ | ht
    · cases hq
    · exact ht
  have hfreeIff (t : ℕ) :
      (e.states.set s .free)[t]? = some .free ↔ (slots.set s none)[t]? = some none := by
    by_cases hts : t = s
    · simp [hts, List.getElem?_set_self hs', List.getElem?_set_self hs]
    · rw [List.getElem?_set_ne (Ne.symm hts), List.getElem?_set_ne (Ne.symm hts)]
      exact h.free t
  have hfifo : Stamps (fun t => timeAt ((e.states.set s .free).map a1_time) t)
      (lastLoad (es ++ [.invalidate s p])) e.global_counter.toNat
      (es ++ [CacheEvent.invalidate s p]).length := by
    refine h.fifo.mono (fun {t x} ht => ?_) (Nat.le_refl _) hnow
    have ht' : stampA1 { e with states := e.states.set s .free } t = some x := ht
    obtain ⟨c, hc, hx⟩ := stampA1_eq_some.mp ht'
    rcases set_state hs' hc with ⟨-, hq⟩ | ⟨-, hq⟩
    · cases hq
    · exact ⟨stampA1_eq_some.mpr ⟨c, hq, hx⟩, lastLoad_of_ne rfl⟩
  have hlru : Stamps (fun t => timeAt ((e.states.set s .free).map am_time) t)
      (lastUse (es ++ [.invalidate s p])) e.global_counter.toNat
      (es ++ [CacheEvent.invalidate s p]).length := by
    refine h.lru.mono (fun {t x} ht => ?_) (Nat.le_refl _) hnow
    have ht' : stampAm { e with states := e.states.set s .free } t = some x := ht
    obtain ⟨c, hc, hx⟩ := stampAm_eq_some.mp ht'
    rcases set_state hs' hc with ⟨-, hq⟩ | ⟨-, hq⟩
    · cases hq
    · exact ⟨stampAm_eq_some.mpr ⟨c, hq, hx⟩, lastUse_of_ne rfl⟩
  obtain ⟨t₀, ht₀⟩ | ⟨t₀, ht₀⟩ := h.queued hslots hp
  · have hstate := (List.getElem?_eq_some_iff.mp ht₀).2
    have hone : 0 < e.a1_size := by
      rw [h.count, List.countP_pos_iff]
      exact ⟨_, List.mem_of_getElem? ht₀, rfl⟩
    obtain ⟨hnodup, hle, hmem⟩ :=
      ghosts_push hghost h.ghosts h.ghosts_le (h.ghost hp)
    refine ⟨_, by simp only [on_invalidate, ht₀, Nat.ne_of_gt hone, if_false]; rfl, ?_⟩
    rw [← h.ghost_max_eq] at hnodup hle hmem
    have hle := hle.trans (Nat.le_of_eq h.ghost_max_eq)
    exact {
      length := by rw [List.length_set]; exact h.length
      max_eq := h.max_eq
      ghost_max_eq := h.ghost_max_eq
      free := hfreeIff
      count := by
        rw [List.countP_set hs', hstate, h.count]
        simp [inA1]
      distinct := fun ht hu => h.distinct (hold ht).2 (hold hu).2
      ghosts := hnodup
      ghosts_le := hle
      ghost := fun {t q} ht => hmem q (h.ghost (hold ht).2) fun hq => by
        subst hq
        exact (hold ht).1 (h.distinct (hold ht).2 hp)
      clock := h.clock.trans hnow
      fifo := hfifo
      lru := hlru }
  · have hstate := (List.getElem?_eq_some_iff.mp ht₀).2
    refine ⟨_, by simp only [on_invalidate, ht₀]; rfl, ?_⟩
    exact {
      length := by rw [List.length_set]; exact h.length
      max_eq := h.max_eq
      ghost_max_eq := h.ghost_max_eq
      free := hfreeIff
      count := by
        rw [List.countP_set hs', hstate, h.count]
        simp [inA1]
      distinct := fun ht hu => h.distinct (hold ht).2 (hold hu).2
      ghosts := h.ghosts
      ghosts_le := h.ghosts_le
      ghost := fun ht => h.ghost (hold ht).2
      clock := h.clock.trans hnow
      fifo := hfifo
      lru := hlru }

theorem Queues.victim_event (h : Queues n a1_max a1out_max es slots e) :
    Queues n a1_max a1out_max (es ++ [.victim]) slots e :=
  have hnow : es.length ≤ (es ++ [CacheEvent.victim]).length := by simp
  { h with
    clock := h.clock.trans hnow
    fifo := h.fifo.mono (fun ht => ⟨ht, lastLoad_of_ne rfl⟩) (Nat.le_refl _) hnow
    lru := h.lru.mono (fun ht => ⟨ht, lastUse_of_ne rfl⟩) (Nat.le_refl _) hnow }

/-- The slot with the smallest time in A1 is the one loaded first. -/
theorem Queues.oldest_a1 (h : Queues n a1_max a1out_max es slots e) {x : ℕ}
    (hs : stampA1 e s = some x) (hlen : es.length < 2 ^ 32 - 1) :
    ∃ v y, oldest (e.states.map a1_time) = some v ∧ stampA1 e v = some y ∧
      ∀ {t z}, t ≠ v → stampA1 e t = some z → lastLoad es v < lastLoad es t := by
  obtain ⟨v, y, hv, hy, hmin⟩ := oldest_spec hs
    (by have := h.fifo.stamp_le hs; have := h.clock; omega)
  exact ⟨v, y, hv, hy, fun hne ht => h.fifo.oldest hy hmin hne ht⟩

/-- The slot with the smallest time in Am is the one used least recently. -/
theorem Queues.oldest_am (h : Queues n a1_max a1out_max es slots e) {x : ℕ}
    (hs : stampAm e s = some x) (hlen : es.length < 2 ^ 32 - 1) :
    ∃ v y, oldest (e.states.map am_time) = some v ∧ stampAm e v = some y ∧
      ∀ {t z}, t ≠ v → stampAm e t = some z → lastUse es v < lastUse es t := by
  obtain ⟨v, y, hv, hy, hmin⟩ := oldest_spec hs
    (by have := h.lru.stamp_le hs; have := h.clock; omega)
  exact ⟨v, y, hv, hy, fun hne ht => h.lru.oldest hy hmin hne ht⟩

/-- The slot is in A1, and every other slot of A1 was loaded after it. -/
def FirstOfA1 (es : List CacheEvent) (e : TwoQEvictionStrategy) (v : ℕ) : Prop :=
  (∃ t, e.states[v]? = some (.a1 t)) ∧
    ∀ s t, s ≠ v → e.states[s]? = some (.a1 t) → lastLoad es v < lastLoad es s

/-- The slot is in Am, and every other slot of Am was used after it. -/
def LeastRecentOfAm (es : List CacheEvent) (e : TwoQEvictionStrategy) (v : ℕ) : Prop :=
  (∃ t, e.states[v]? = some (.am t)) ∧
    ∀ s t, s ≠ v → e.states[s]? = some (.am t) → lastUse es v < lastUse es s

/-- If A1 is not the whole of a full cache, then there is a slot in Am. -/
theorem Queues.exists_am (h : Queues n a1_max a1out_max es slots e) (hfull : none ∉ slots)
    (hlt : e.a1_size < n) :
    ∃ (s : ℕ) (t : U32), e.states[s]? = some (PageState.am t) := by
  by_contra hnone
  have hall : ∀ q ∈ e.states, inA1 q = true := by
    intro q hq
    obtain ⟨s, hs⟩ := List.mem_iff_getElem?.mp hq
    cases q with
    | a1 => rfl
    | am t => exact absurd ⟨s, t, hs⟩ hnone
    | free => exact absurd (List.mem_of_getElem? ((h.free s).mp hs)) hfull
  rw [h.count, List.countP_eq_length.mpr hall, h.length] at hlt
  exact Nat.lt_irrefl _ hlt

/-- The victim of a full cache. -/
theorem Queues.victim (h : Queues n a1_max a1out_max es slots e) (hslots : slots.length = n)
    (hpos : 1 ≤ a1_max) (hmax : a1_max < n) (hfull : none ∉ slots)
    (hlen : es.length < 2 ^ 32 - 1) :
    ∃ v, e.choose_victim = some v ∧ (∃ p, slots[v]? = some (some p)) ∧
      (a1_max ≤ e.a1_size → FirstOfA1 es e v) ∧
      (e.a1_size < a1_max → LeastRecentOfAm es e v) := by
  have hpage {s : ℕ} {q : PageState} (hq : q ≠ .free) (hs : e.states[s]? = some q) :
      ∃ p, slots[s]? = some (some p) := by
    have hlt : s < slots.length := by
      rw [hslots, ← h.length]
      exact (List.getElem?_eq_some_iff.mp hs).1
    cases hp : slots[s] with
    | none => exact absurd (hp ▸ List.getElem_mem hlt) hfull
    | some p => exact ⟨p, by rw [List.getElem?_eq_getElem hlt, hp]⟩
  rw [choose_victim, h.max_eq]
  by_cases hsize : a1_max ≤ e.a1_size
  · -- A1 is not empty
    have hone : 0 < e.states.countP inA1 := by rw [← h.count]; omega
    obtain ⟨q, hq, hin⟩ := List.countP_pos_iff.mp hone
    obtain ⟨s, hs⟩ := List.mem_iff_getElem?.mp hq
    cases q with
    | free | am => cases hin
    | a1 t =>
        obtain ⟨v, y, hv, hy, hfirst⟩ := h.oldest_a1 (stampA1_eq_some.mpr ⟨t, hs, rfl⟩) hlen
        obtain ⟨c, hc, -⟩ := stampA1_eq_some.mp hy
        refine ⟨v, by rw [if_pos hsize, hv]; rfl, hpage (by simp) hc, fun _ => ?_, fun hlt => ?_⟩
        · exact ⟨⟨c, hc⟩, fun u t' hne hu => hfirst hne (stampA1_eq_some.mpr ⟨t', hu, rfl⟩)⟩
        · omega
  · obtain ⟨s, t, hs⟩ := h.exists_am hfull (by omega)
    obtain ⟨v, y, hv, hy, hleast⟩ := h.oldest_am (stampAm_eq_some.mpr ⟨t, hs, rfl⟩) hlen
    obtain ⟨c, hc, -⟩ := stampAm_eq_some.mp hy
    refine ⟨v, by rw [if_neg hsize, hv], hpage (by simp) hc, fun hle => ?_, fun _ => ?_⟩
    · exact absurd hle hsize
    · exact ⟨⟨c, hc⟩, fun u t' hne hu => hleast hne (stampAm_eq_some.mpr ⟨t', hu, rfl⟩)⟩

theorem Queues.step (h : Queues n a1_max a1out_max es slots e) (hslots : slots.length = n)
    (hpos : 1 ≤ a1_max) (hmax : a1_max < n) (hghost : 1 ≤ a1out_max) {ev : CacheEvent}
    (hstep : ev.step slots = some slots') (hlen : es.length + 1 < 2 ^ 32 - 1) :
    ∃ e', ev.notify e = some e' ∧ Queues n a1_max a1out_max (es ++ [ev]) slots' e' := by
  cases ev with
  | access s p =>
      simp only [CacheEvent.step] at hstep
      split at hstep
      · next hp =>
          cases hstep
          exact h.access hslots hlen hp
      · cases hstep
  | load s p =>
      simp only [CacheEvent.step] at hstep
      split at hstep
      · next hp =>
          cases hstep
          exact h.load hslots hlen hp.1 hp.2
      · cases hstep
  | victim =>
      simp only [CacheEvent.step] at hstep
      split at hstep
      · next hfull =>
          cases hstep
          obtain ⟨v, hv, -⟩ := h.victim hslots hpos hmax hfull (by omega)
          refine ⟨e, ?_, h.victim_event⟩
          simp [CacheEvent.notify, PageEvictionStrategy.choose_victim, hv]
      · cases hstep
  | invalidate s p =>
      simp only [CacheEvent.step] at hstep
      split at hstep
      · next hp =>
          cases hstep
          exact h.invalidate hslots hghost hp
      · cases hstep

/-- The strategy after a run. -/
theorem queues_of_run (hpos : 1 ≤ a1_max) (hmax : a1_max < n) (hghost : 1 ≤ a1out_max) :
    ∀ {es : List CacheEvent} {slots : Slots}, cacheAfter n es = some slots →
      es.length < 2 ^ 32 - 1 → ∃ e₀ e, TwoQEvictionStrategy.new n a1_max a1out_max = some e₀ ∧
        strategyAfter e₀ es = some e ∧ Queues n a1_max a1out_max es slots e := by
  intro es
  induction es using List.reverseRecOn with
  | nil =>
      intro slots h _
      rw [← Option.some.inj h]
      obtain ⟨e₀, hnew, hqueues⟩ : ∃ e₀, TwoQEvictionStrategy.new n a1_max a1out_max = some e₀ ∧
          Queues n a1_max a1out_max [] (List.replicate n none) e₀ := Queues.new hmax
      exact ⟨e₀, e₀, hnew, rfl, hqueues⟩
  | append_singleton es ev ih =>
      intro slots' h hlen
      rw [List.length_append] at hlen
      obtain ⟨slots, hslots, hstep⟩ := cacheAfter_append.mp h
      obtain ⟨e₀, e, hnew, he, hqueues⟩ := ih hslots (by omega)
      obtain ⟨e', he', hqueues'⟩ :=
        hqueues.step (cacheAfter_length hslots) hpos hmax hghost hstep hlen
      exact ⟨e₀, e', hnew, by rw [strategyAfter_append he, he'], hqueues'⟩

end TwoQEvictionStrategy

/-! ## Every run -/

/-- After every run of a cache, LRU gives up the slot whose last use is oldest, and 2Q the
slot of A1 that was loaded first or, while A1 is short, the least recently used slot of
Am. Neither of them panics in the run, the size of A1 is kept, and the ghost queue stays a
short list without repetitions. -/
theorem PageEvictionStrategy.victim_of_run (n : ℕ) (es : List CacheEvent) (slots : Slots)
    (hrun : cacheAfter n es = some slots) (hlen : es.length < 2 ^ 32 - 1) :
    (∃ e, strategyAfter (LruEvictionStrategy.new n) es = some e ∧
      (0 < n → none ∉ slots →
        (∃ p, slots[e.choose_victim]? = some (some p)) ∧
          ∀ s < n, s ≠ e.choose_victim → lastUse es e.choose_victim < lastUse es s)) ∧
    (∀ a1_max a1out_max, 1 ≤ a1_max → a1_max < n → 1 ≤ a1out_max →
      ∃ e₀ e, TwoQEvictionStrategy.new n a1_max a1out_max = some e₀ ∧
        strategyAfter e₀ es = some e ∧
        e.a1_size = e.states.countP TwoQEvictionStrategy.inA1 ∧
        e.a1out.Nodup ∧ e.a1out.length ≤ a1out_max ∧
        (none ∉ slots → ∃ v, e.choose_victim = some v ∧ (∃ p, slots[v]? = some (some p)) ∧
          (a1_max ≤ e.a1_size → TwoQEvictionStrategy.FirstOfA1 es e v) ∧
          (e.a1_size < a1_max → TwoQEvictionStrategy.LeastRecentOfAm es e v))) := by
  have hslots := cacheAfter_length hrun
  refine ⟨?_, fun a1_max a1out_max hpos hmax hghost => ?_⟩
  · obtain ⟨e, he, hages⟩ := LruEvictionStrategy.ages_of_run hrun hlen
    exact ⟨e, he, fun hn hfull => hages.victim hslots hn hfull hlen⟩
  · obtain ⟨e₀, e, hnew, he, hqueues⟩ :=
      TwoQEvictionStrategy.queues_of_run hpos hmax hghost hrun hlen
    exact ⟨e₀, e, hnew, he, hqueues.count, hqueues.ghosts, hqueues.ghosts_le,
      fun hfull => hqueues.victim hslots hpos hmax hfull hlen⟩

/-- A cache of two slots: the page found again is kept by LRU. -/
theorem PageEvictionStrategy.victim_of_run_two :
    ∃ e, strategyAfter (LruEvictionStrategy.new 2) [.load 0 7, .load 1 8, .access 0 7] = some e ∧
      (0 < 2 → none ∉ ([some 7, some 8] : Slots) →
        (∃ p, ([some 7, some 8] : Slots)[e.choose_victim]? = some (some p)) ∧
          ∀ s < 2, s ≠ e.choose_victim →
            lastUse [.load 0 7, .load 1 8, .access 0 7] e.choose_victim <
              lastUse [.load 0 7, .load 1 8, .access 0 7] s) :=
  (PageEvictionStrategy.victim_of_run 2 [.load 0 7, .load 1 8, .access 0 7]
    [some 7, some 8] (by decide) (by decide)).1

end Vanadium
