import Mathlib

/-!
# The proleptic Gregorian calendar

A date is a year, a month and a day, and has a day after it. The date of day `n` is
what is reached from the first of January 1970 in `n` such steps.

It can be computed directly. Years are counted from March to February, so that a leap
day is the last day of a year; 400 of them, an era, have 146097 days. Within an era a
quotient gives the year, and within a year the months follow a pattern of 153 days for
each five of them. That this is the same date is proved one day after the other: the
next day is the next in the year, or the first day of the next one.
-/

namespace Vanadium.Lib.Calendar

structure Date where
  year : ℕ
  month : ℕ
  day : ℕ
  deriving DecidableEq

def Leap (y : ℕ) : Prop := y % 4 = 0 ∧ (y % 100 ≠ 0 ∨ y % 400 = 0)

instance (y : ℕ) : Decidable (Leap y) := inferInstanceAs (Decidable (_ ∧ _))

def daysIn (y m : ℕ) : ℕ :=
  if m = 2 then if Leap y then 29 else 28
  else if m = 4 ∨ m = 6 ∨ m = 9 ∨ m = 11 then 30
  else 31

def Date.next (d : Date) : Date :=
  if d.day < daysIn d.year d.month then { d with day := d.day + 1 }
  else if d.month < 12 then ⟨d.year, d.month + 1, 1⟩
  else ⟨d.year + 1, 1, 1⟩

/-- The date `n` days after the first of January 1970. -/
def date (n : ℕ) : Date := Date.next^[n] ⟨1970, 1, 1⟩

/-! ## Years from March to February -/

/-- The days before year `y`, from the first of March of year 0 on. -/
def start (y : ℕ) : ℕ := 365 * y + y / 4 - y / 100 + y / 400

/-- The leap day is at the end, in February of the year after. -/
theorem start_succ (y : ℕ) :
    start (y + 1) = start y + if Leap (y + 1) then 366 else 365 := by
  have hle : y / 100 ≤ y / 4 := by omega
  have hleap : Leap (y + 1) ↔ 4 ∣ y + 1 ∧ (¬ 100 ∣ y + 1 ∨ 400 ∣ y + 1) := by
    simp only [Leap, Nat.dvd_iff_mod_eq_zero, ne_eq]
  have h100 : 100 ∣ y + 1 → 4 ∣ y + 1 := fun h => Nat.dvd_trans (by decide) h
  have h400 : 400 ∣ y + 1 → 100 ∣ y + 1 := fun h => Nat.dvd_trans (by decide) h
  rw [start, start, Nat.succ_div, Nat.succ_div, Nat.succ_div]
  by_cases h₁ : 4 ∣ y + 1 <;> by_cases h₂ : 100 ∣ y + 1 <;> by_cases h₃ : 400 ∣ y + 1 <;>
    simp only [hleap, h₁, h₂, h₃, if_true, if_false, true_and, false_and, not_true, not_false_iff,
      true_or, or_self, or_true] <;> omega

theorem start_lt_succ (y : ℕ) : start y < start (y + 1) := by
  rw [start_succ]
  split <;> omega

theorem start_strictMono : StrictMono start := strictMono_nat_of_lt_succ start_lt_succ

/-- A day is in one year only. -/
theorem year_unique {y y' z : ℕ} (h : start y ≤ z ∧ z < start (y + 1))
    (h' : start y' ≤ z ∧ z < start (y' + 1)) : y = y' := by
  have hlt : y < y' + 1 := start_strictMono.lt_iff_lt.mp (h.1.trans_lt h'.2)
  have hlt' : y' < y + 1 := start_strictMono.lt_iff_lt.mp (h'.1.trans_lt h.2)
  omega

/-- The month, from March on, of a day of the year. -/
def monthOf (doy : ℕ) : ℕ := (5 * doy + 2) / 153

/-- The date of a day of a year. -/
def fromMarch (y doy : ℕ) : Date :=
  let mp := monthOf doy
  let month := if mp < 10 then mp + 3 else mp - 9
  ⟨if month ≤ 2 then y + 1 else y, month, doy - (153 * mp + 2) / 5 + 1⟩

/-- The year of a date, and the day of it. -/
def toMarch (d : Date) : ℕ × ℕ :=
  (if d.month ≤ 2 then d.year - 1 else d.year,
    (153 * (if d.month > 2 then d.month - 3 else d.month + 9) + 2) / 5 + d.day - 1)

theorem monthOf_spec {doy : ℕ} (h : doy ≤ 365) :
    monthOf doy ≤ 11 ∧ (153 * monthOf doy + 2) / 5 ≤ doy ∧
      doy < (153 * (monthOf doy + 1) + 2) / 5 := by
  unfold monthOf
  omega

theorem toMarch_fromMarch {y doy : ℕ} (h : doy ≤ 365) : toMarch (fromMarch y doy) = (y, doy) := by
  obtain ⟨hle, hlow, hhigh⟩ := monthOf_spec h
  unfold toMarch fromMarch
  simp only
  generalize monthOf doy = mp at *
  by_cases hspring : mp < 10
  · rw [if_pos hspring, if_neg (by omega), if_neg (by omega), if_pos (by omega)]
    congr 1
    rw [show mp + 3 - 3 = mp by omega]
    omega
  · rw [if_neg hspring, if_pos (by omega), if_pos (by omega), if_neg (by omega)]
    congr 1
    rw [show mp - 9 + 9 = mp by omega]
    omega

/-- How long a month is that is not the last of its year. -/
theorem daysIn_eq {y mp : ℕ} (h : mp ≤ 10) :
    daysIn y (if mp < 10 then mp + 3 else mp - 9) =
      (153 * (mp + 1) + 2) / 5 - (153 * mp + 2) / 5 := by
  interval_cases mp <;> rfl

/-- The day after is the next one of the year. -/
theorem next_fromMarch {y doy : ℕ} (h : doy + 1 < if Leap (y + 1) then 366 else 365) :
    (fromMarch y doy).next = fromMarch y (doy + 1) := by
  have hle : doy + 1 ≤ 365 := by
    split at h <;> omega
  obtain ⟨hmp, hlow, hhigh⟩ := monthOf_spec (show doy ≤ 365 by omega)
  obtain ⟨hmp', hlow', hhigh'⟩ := monthOf_spec hle
  unfold Date.next fromMarch
  simp only
  generalize monthOf doy = mp at *
  generalize monthOf (doy + 1) = mp' at *
  rcases (by omega : mp' = mp ∨ mp' = mp + 1) with rfl | rfl
  · -- another day of the month; February is the month that depends on the year
    have hday : doy - (153 * mp' + 2) / 5 + 1 <
        daysIn (if (if mp' < 10 then mp' + 3 else mp' - 9) ≤ 2 then y + 1 else y)
          (if mp' < 10 then mp' + 3 else mp' - 9) := by
      rcases Nat.lt_or_ge mp' 11 with hearly | hlate
      · rw [daysIn_eq (by omega)]
        omega
      · obtain rfl : mp' = 11 := by omega
        show _ < if Leap (y + 1) then 29 else 28
        by_cases hleap : Leap (y + 1)
        · rw [if_pos hleap] at h ⊢
          omega
        · rw [if_neg hleap] at h ⊢
          omega
    rw [if_pos hday]
    congr 1
    omega
  · -- the first day of the next month
    have hday : ¬ doy - (153 * mp + 2) / 5 + 1 <
        daysIn (if (if mp < 10 then mp + 3 else mp - 9) ≤ 2 then y + 1 else y)
          (if mp < 10 then mp + 3 else mp - 9) := by
      rw [daysIn_eq (by omega)]
      omega
    have hfirst : doy + 1 - (153 * (mp + 1) + 2) / 5 + 1 = 1 := by omega
    rw [if_neg hday, hfirst]
    clear hday hfirst hlow hlow' hhigh hhigh' h hle
    interval_cases mp <;> first | rfl | omega

/-- The day after the last one is the first of March. -/
theorem next_fromMarch_last {y doy : ℕ} (h : doy + 1 = if Leap (y + 1) then 366 else 365) :
    (fromMarch y doy).next = fromMarch (y + 1) 0 := by
  have hmonth : monthOf doy = 11 := by
    unfold monthOf
    split at h <;> omega
  unfold Date.next fromMarch
  simp only [hmonth]
  have hday : ¬ doy - (153 * 11 + 2) / 5 + 1 < daysIn (y + 1) 2 := by
    show ¬ _ < if Leap (y + 1) then 29 else 28
    by_cases hleap : Leap (y + 1)
    · rw [if_pos hleap] at h ⊢
      omega
    · rw [if_neg hleap] at h ⊢
      omega
  exact if_neg hday

/-! ## Eras -/

/-- An era is three centuries that lack their last leap day, and one that has it; these are
made of cycles of four years. -/
theorem split_era {doe : ℕ} (h : doe < 146097) : ∃ c q r t,
    doe = 36524 * c + 1461 * q + 365 * r + t ∧ c ≤ 3 ∧ q ≤ 24 ∧ r ≤ 3 ∧ t ≤ 365 ∧
      (t = 365 → r = 3 ∧ (q = 24 → c = 3)) := by
  obtain ⟨c, hc⟩ : ∃ c, c = min (doe / 36524) 3 := ⟨_, rfl⟩
  obtain ⟨q, hq⟩ : ∃ q, q = (doe - 36524 * c) / 1461 := ⟨_, rfl⟩
  obtain ⟨r, hr⟩ : ∃ r, r = min ((doe - 36524 * c - 1461 * q) / 365) 3 := ⟨_, rfl⟩
  refine ⟨c, q, r, doe - 36524 * c - 1461 * q - 365 * r, ?_, ?_, ?_, ?_, ?_, ?_⟩ <;> omega

/-- The year of a day of an era. -/
def yearOf (doe : ℕ) : ℕ := (doe - doe / 1460 + doe / 36524 - doe / 146096) / 365

theorem yearOf_eq {c q r t doe : ℕ} (h : doe = 36524 * c + 1461 * q + 365 * r + t)
    (hc : c ≤ 3) (hq : q ≤ 24) (hr : r ≤ 3) (ht : t ≤ 365)
    (hlast : t = 365 → r = 3 ∧ (q = 24 → c = 3)) : yearOf doe = 100 * c + 4 * q + r := by
  unfold yearOf
  by_cases hend : doe = 146096
  · subst hend
    omega
  · have h1 : doe / 146096 = 0 := by omega
    have h2 : doe / 36524 = c := by omega
    have h3 : doe / 1460 = 25 * c + q + (24 * c + q + 365 * r + t) / 1460 := by omega
    -- the days of a cycle that make one more quotient are its last ones
    have h4 : (24 * c + q + 365 * r + t) / 1460 ≤ 1 := by omega
    have h5 : (24 * c + q + 365 * r + t) / 1460 = 1 → 1 ≤ t := by omega
    have h6 : t = 365 → (24 * c + q + 365 * r + t) / 1460 = 1 := by omega
    rw [h1, h2, h3]
    generalize (24 * c + q + 365 * r + t) / 1460 = e at *
    have h7 : doe - (25 * c + q + e) + c - 0 = 365 * (100 * c + 4 * q + r) + (t - e) := by omega
    rw [h7]
    omega

theorem yearOf_spec {doe : ℕ} (h : doe < 146097) :
    yearOf doe < 400 ∧ start (yearOf doe) ≤ doe ∧ doe < start (yearOf doe + 1) := by
  obtain ⟨c, q, r, t, hdoe, hc, hq, hr, ht, hlast⟩ := split_era h
  have hstart : start (100 * c + 4 * q + r) = 36524 * c + 1461 * q + 365 * r := by
    have h₁ : (100 * c + 4 * q + r) / 4 = 25 * c + q := by omega
    have h₂ : (100 * c + 4 * q + r) / 100 = c := by omega
    have h₃ : (100 * c + 4 * q + r) / 400 = 0 := by omega
    rw [start, h₁, h₂, h₃]
    omega
  have hleap : t = 365 → Leap (100 * c + 4 * q + r + 1) := by
    unfold Leap
    omega
  rw [yearOf_eq hdoe hc hq hr ht hlast, start_succ, hstart]
  refine ⟨by omega, by omega, ?_⟩
  split
  · omega
  · next hcommon =>
      have hne := mt hleap hcommon
      omega

/-- Eras repeat. -/
theorem start_era (era y : ℕ) : start (400 * era + y) = 146097 * era + start y := by
  unfold start
  omega

/-- The date of day `z`, from the first of March of year 0 on. -/
def civil (z : ℕ) : Date :=
  let doe := z % 146097
  fromMarch (400 * (z / 146097) + yearOf doe) (doe - start (yearOf doe))

theorem civil_eq {z y : ℕ} (h : start y ≤ z ∧ z < start (y + 1)) :
    civil z = fromMarch y (z - start y) := by
  obtain ⟨_, hlow, hhigh⟩ := yearOf_spec (Nat.mod_lt z (by omega : 146097 > 0))
  have hyear : 400 * (z / 146097) + yearOf (z % 146097) = y := by
    refine year_unique ?_ h
    rw [Nat.add_assoc, start_era, start_era]
    omega
  have hday : z % 146097 - start (yearOf (z % 146097)) = z - start y := by
    rw [← hyear, start_era]
    omega
  rw [civil]
  simp only [hyear, hday]

theorem exists_year (z : ℕ) : ∃ y, start y ≤ z ∧ z < start (y + 1) := by
  obtain ⟨_, hlow, hhigh⟩ := yearOf_spec (Nat.mod_lt z (by omega : 146097 > 0))
  refine ⟨400 * (z / 146097) + yearOf (z % 146097), ?_⟩
  rw [Nat.add_assoc, start_era, start_era]
  omega

theorem civil_succ (z : ℕ) : civil (z + 1) = (civil z).next := by
  obtain ⟨y, hlow, hhigh⟩ := exists_year z
  have hlength := start_succ y
  rw [civil_eq ⟨hlow, hhigh⟩]
  by_cases hlast : z + 1 < start (y + 1)
  · rw [next_fromMarch (by omega), civil_eq ⟨by omega, hlast⟩]
    congr 1
    omega
  · have hstart : z + 1 = start (y + 1) := by omega
    rw [next_fromMarch_last (by omega), hstart,
      civil_eq ⟨le_rfl, start_lt_succ (y + 1)⟩, Nat.sub_self]

/-- The days until the first of January 1970. -/
theorem civil_eq_date (n : ℕ) : civil (n + 719468) = date n := by
  induction n with
  | zero => decide
  | succ n ih =>
      rw [Nat.succ_add, civil_succ, ih, date, date, Function.iterate_succ_apply']

end Vanadium.Lib.Calendar
