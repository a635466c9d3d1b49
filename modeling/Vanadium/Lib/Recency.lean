import Mathlib

/-!
# Time stamps and the history they stand for

The history of a system is the list of its events, the newest one last. What a
cache remembers of it is a time stamp for some of its slots, read off a clock
that runs with the events. As long as every stamp is newer than the ones given
before, the order of the stamps is the order of the events: the slot with the
smallest stamp is the one whose event lies furthest back.
-/

namespace Vanadium.Lib

/-! ## The last time something happened -/

section
variable {α : Type} {p : α → Bool} {es : List α} {e : α}

/-- The number of the last event of a kind, counting from one, or zero if there was
none. -/
def lastTime (p : α → Bool) (es : List α) : ℕ := es.length - es.reverse.findIdx p

@[simp] theorem lastTime_nil (p : α → Bool) : lastTime p [] = 0 := rfl

theorem lastTime_le (p : α → Bool) (es : List α) : lastTime p es ≤ es.length := Nat.sub_le _ _

theorem lastTime_append_of_pos (h : p e = true) : lastTime p (es ++ [e]) = es.length + 1 := by
  simp [lastTime, List.findIdx_cons, h]

theorem lastTime_append_of_neg (h : p e = false) : lastTime p (es ++ [e]) = lastTime p es := by
  simp [lastTime, List.findIdx_cons, h]

end

/-! ## Stamps -/

/-- The stamps `stamp` of some slots, none of them ahead of the clock, are in the
order of the times `time`, none of them ahead of `now`. -/
structure Stamps (stamp : ℕ → Option ℕ) (time : ℕ → ℕ) (clock now : ℕ) : Prop where
  stamp_le : ∀ {s x}, stamp s = some x → x ≤ clock
  time_le : ∀ {s x}, stamp s = some x → time s ≤ now
  agree : ∀ {s t x y}, s ≠ t → stamp s = some x → stamp t = some y →
    (x < y ∧ time s < time t) ∨ (y < x ∧ time t < time s)

namespace Stamps

variable {stamp stamp' : ℕ → Option ℕ} {time time' : ℕ → ℕ} {clock clock' now now' : ℕ}

theorem empty (h : ∀ s, stamp s = none) : Stamps stamp time clock now where
  stamp_le hs := absurd ((h _).symm.trans hs) (by simp)
  time_le hs := absurd ((h _).symm.trans hs) (by simp)
  agree _ hs := absurd ((h _).symm.trans hs) (by simp)

/-- Stamps are lost, or nothing happens to their slots. -/
theorem mono (h : Stamps stamp time clock now)
    (hold : ∀ {s x}, stamp' s = some x → stamp s = some x ∧ time' s = time s)
    (hclock : clock ≤ clock') (hnow : now ≤ now') : Stamps stamp' time' clock' now' where
  stamp_le hs := (h.stamp_le (hold hs).1).trans hclock
  time_le hs := by
    rw [(hold hs).2]
    exact (h.time_le (hold hs).1).trans hnow
  agree hne hs ht := by
    rw [(hold hs).2, (hold ht).2]
    exact h.agree hne (hold hs).1 (hold ht).1

/-- One slot is stamped, and the others keep what they have or lose it. -/
theorem touch (h : Stamps stamp time clock now) {s : ℕ} (hstamp : stamp' s = some (clock + 1))
    (htime : time' s = now + 1)
    (hold : ∀ {t x}, t ≠ s → stamp' t = some x → stamp t = some x ∧ time' t = time t) :
    Stamps stamp' time' (clock + 1) (now + 1) := by
  have hother {t x} (hne : t ≠ s) (ht : stamp' t = some x) :
      x < clock + 1 ∧ time' t < now + 1 := by
    obtain ⟨hst, htt⟩ := hold hne ht
    rw [htt]
    exact ⟨Nat.lt_succ_of_le (h.stamp_le hst), Nat.lt_succ_of_le (h.time_le hst)⟩
  have hself {x} (hx : stamp' s = some x) : x = clock + 1 := by
    rw [hstamp] at hx
    exact (Option.some.inj hx).symm
  refine ⟨?_, ?_, ?_⟩
  · intro t x ht
    by_cases hts : t = s
    · subst hts
      exact (hself ht).le
    · exact (hother hts ht).1.le
  · intro t x ht
    by_cases hts : t = s
    · subst hts
      exact htime.le
    · exact (hother hts ht).2.le
  · intro t u x y hne ht hu
    by_cases hts : t = s
    · subst hts
      have hlt := hother (Ne.symm hne) hu
      rw [hself ht, htime]
      exact .inr hlt
    · by_cases hus : u = s
      · subst hus
        have hlt := hother hts ht
        rw [hself hu, htime]
        exact .inl hlt
      · rw [(hold hts ht).2, (hold hus hu).2]
        exact h.agree hne (hold hts ht).1 (hold hus hu).1

/-- The slot with the smallest stamp is the one of the event furthest back. -/
theorem oldest (h : Stamps stamp time clock now) {v x : ℕ} (hv : stamp v = some x)
    (hmin : ∀ {s y}, stamp s = some y → x ≤ y) {s y : ℕ} (hne : s ≠ v) (hs : stamp s = some y) :
    time v < time s := by
  rcases h.agree (Ne.symm hne) hv hs with ⟨-, hlt⟩ | ⟨hlt, -⟩
  · exact hlt
  · exact absurd (hmin hs) (by omega)

end Stamps

end Vanadium.Lib
