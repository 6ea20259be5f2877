import Mathlib.Logic.Function.Iterate
import Mathlib.Tactic.Common

/-!
# The Gregorian calendar

Dates that exist, and the day after a date. Counting days from a date is going on day by day, which
only ever leads to later dates.
-/

namespace Calendar

def IsLeap (year : Nat) : Prop := year % 4 = 0 ∧ (year % 100 ≠ 0 ∨ year % 400 = 0)

instance (year : Nat) : Decidable (IsLeap year) := inferInstanceAs (Decidable (_ ∧ _))

def daysInMonth (year month : Nat) : Nat :=
  if month = 2 then if IsLeap year then 29 else 28
  else if month = 4 ∨ month = 6 ∨ month = 9 ∨ month = 11 then 30
  else 31

theorem daysInMonth_pos (year month : Nat) : 1 ≤ daysInMonth year month := by
  unfold daysInMonth
  split_ifs <;> omega

structure Date where
  year : Nat
  month : Nat
  day : Nat
  month_pos : 1 ≤ month
  month_le : month ≤ 12
  day_pos : 1 ≤ day
  day_le : day ≤ daysInMonth year month

namespace Date

def ymd (d : Date) : Nat × Nat × Nat := (d.year, d.month, d.day)

/-- The first of January. -/
def newYear (year : Nat) : Date where
  year := year
  month := 1
  day := 1
  month_pos := Nat.le_refl 1
  month_le := by decide
  day_pos := Nat.le_refl 1
  day_le := daysInMonth_pos _ _

/-- The day after. -/
def next (d : Date) : Date :=
  if h : d.day < daysInMonth d.year d.month then
    { d with day := d.day + 1, day_pos := by omega, day_le := h }
  else if h : d.month < 12 then
    { year := d.year, month := d.month + 1, day := 1
      month_pos := by omega
      month_le := h
      day_pos := Nat.le_refl 1
      day_le := daysInMonth_pos _ _ }
  else
    { year := d.year + 1, month := 1, day := 1
      month_pos := Nat.le_refl 1
      month_le := by omega
      day_pos := Nat.le_refl 1
      day_le := daysInMonth_pos _ _ }

/-- Earlier by year, then by month, then by day. -/
def Before (d d' : Date) : Prop :=
  d.year < d'.year ∨ d.year = d'.year ∧
    (d.month < d'.month ∨ d.month = d'.month ∧ d.day < d'.day)

theorem before_next (d : Date) : d.Before d.next := by
  unfold Before next
  split_ifs with hday hmonth
  · exact .inr ⟨rfl, .inr ⟨rfl, Nat.lt_succ_self _⟩⟩
  · exact .inr ⟨rfl, .inl (Nat.lt_succ_self _)⟩
  · exact .inl (Nat.lt_succ_self _)

theorem Before.trans {a b c : Date} (h : a.Before b) (h' : b.Before c) : a.Before c := by
  unfold Before at *
  omega

theorem Before.asymm {a b : Date} (h : a.Before b) : ¬ b.Before a := by
  unfold Before at *
  omega

/-- The date so many days later. -/
def after (d : Date) (days : Nat) : Date := Date.next^[days] d

@[simp] theorem after_zero (d : Date) : d.after 0 = d := rfl

theorem after_succ (d : Date) (days : Nat) : d.after (days + 1) = (d.after days).next :=
  Function.iterate_succ_apply' Date.next days d

theorem before_after {m n : Nat} (d : Date) (h : m < n) : (d.after m).Before (d.after n) := by
  induction n with
  | zero => exact absurd h (Nat.not_lt_zero m)
  | succ n ih =>
    rw [after_succ]
    rcases Nat.lt_or_eq_of_le (Nat.le_of_lt_succ h) with hlt | rfl
    · exact (ih hlt).trans (before_next _)
    · exact before_next _

/-- Dates are in the order of the days counted to them. -/
theorem before_after_iff {m n : Nat} (d : Date) : (d.after m).Before (d.after n) ↔ m < n := by
  constructor
  · intro h
    rcases Nat.lt_trichotomy m n with hlt | rfl | hgt
    · exact hlt
    · exact absurd h h.asymm
    · exact absurd h (before_after d hgt).asymm
  · exact before_after d

end Date

/-! ## Years that begin in March -/

/-- The days before the first of March of a year, counted from that of year 0. The leap day is the
last day of its year. -/
def daysBefore (year : Nat) : Nat := 365 * year + year / 4 - year / 100 + year / 400

def yearLength (year : Nat) : Nat := if IsLeap (year + 1) then 366 else 365

theorem yearLength_cases (year : Nat) :
    (yearLength year = 366 ∧ IsLeap (year + 1)) ∨
      (yearLength year = 365 ∧ ¬ IsLeap (year + 1)) := by
  unfold yearLength
  split_ifs with h
  · exact .inl ⟨rfl, h⟩
  · exact .inr ⟨rfl, h⟩

theorem daysBefore_succ (year : Nat) :
    daysBefore (year + 1) = daysBefore year + yearLength year := by
  have hle : year / 100 ≤ year / 4 := Nat.div_le_div_left (by omega) (by omega)
  have h4 : (year + 1) / 4 = year / 4 + if (year + 1) % 4 = 0 then 1 else 0 := by
    split_ifs <;> omega
  have h100 : (year + 1) / 100 = year / 100 + if (year + 1) % 100 = 0 then 1 else 0 := by
    split_ifs <;> omega
  have h400 : (year + 1) / 400 = year / 400 + if (year + 1) % 400 = 0 then 1 else 0 := by
    split_ifs <;> omega
  have hnested : (year + 1) % 400 = 0 → (year + 1) % 100 = 0 := by omega
  have hnested' : (year + 1) % 100 = 0 → (year + 1) % 4 = 0 := by omega
  have hlength := yearLength_cases year
  unfold IsLeap at hlength
  unfold daysBefore
  rw [h4, h100, h400]
  clear h4 h100 h400
  generalize (year + 1) % 4 = r4, (year + 1) % 100 = r100, (year + 1) % 400 = r400 at *
  generalize year / 4 = q4, year / 100 = q100, year / 400 = q400 at *
  split_ifs <;> omega

/-- The days of such a year before one of its months, counted from 0. -/
def monthStart (month : Nat) : Nat := (153 * month + 2) / 5

def monthOf (doy : Nat) : Nat := (5 * doy + 2) / 153

theorem monthOf_eq_iff {doy month : Nat} :
    monthOf doy = month ↔ monthStart month ≤ doy ∧ doy < monthStart (month + 1) := by
  unfold monthOf monthStart
  omega

/-- The number in the calendar of a month counted from March on. -/
def calendarMonth (month : Nat) : Nat := if month < 10 then month + 3 else month - 9

/-- The year in the calendar of a month of a year that begins in March. -/
def calendarYear (year month : Nat) : Nat := if calendarMonth month ≤ 2 then year + 1 else year

/-- Day `doy` of a year that begins in March. -/
def marchYmd (year doy : Nat) : Nat × Nat × Nat :=
  (calendarYear year (monthOf doy), calendarMonth (monthOf doy), doy - monthStart (monthOf doy) + 1)

/-- A month ends where the next one starts, the last one with the year. -/
theorem daysInMonth_calendarMonth {year month : Nat} (h : month ≤ 11) :
    daysInMonth (calendarYear year month) (calendarMonth month) =
      min (monthStart (month + 1)) (yearLength year) - monthStart month := by
  have hlength := yearLength_cases year
  rcases Nat.lt_or_eq_of_le h with hlt | rfl
  · have hother : ∀ m < 11, calendarMonth m ≠ 2 ∧
        (if calendarMonth m = 4 ∨ calendarMonth m = 6 ∨ calendarMonth m = 9 ∨ calendarMonth m = 11
          then 30 else 31) = monthStart (m + 1) - monthStart m ∧ monthStart (m + 1) ≤ 365 := by
      decide
    obtain ⟨hfeb, hdays, hstart⟩ := hother month hlt
    rw [daysInMonth, if_neg hfeb, hdays, Nat.min_eq_left (by omega)]
  · show (if IsLeap (year + 1) then 29 else 28) = min 367 (yearLength year) - 337
    rcases hlength with ⟨hlen, hleap⟩ | ⟨hlen, hleap⟩
    · rw [if_pos hleap, hlen]
      rfl
    · rw [if_neg hleap, hlen]
      rfl

theorem monthOf_le {year doy : Nat} (h : doy < yearLength year) : monthOf doy ≤ 11 := by
  have hlength := yearLength_cases year
  unfold monthOf
  omega

namespace Date

variable {d : Date} {year doy : Nat}

theorem next_within (h : d.day < daysInMonth d.year d.month) :
    d.next.ymd = (d.year, d.month, d.day + 1) := by
  unfold next
  rw [dif_pos h]
  rfl

theorem next_month (h : d.day = daysInMonth d.year d.month) (hmonth : d.month < 12) :
    d.next.ymd = (d.year, d.month + 1, 1) := by
  unfold next
  rw [dif_neg (by omega), dif_pos hmonth]
  rfl

theorem next_year (h : d.day = daysInMonth d.year d.month) (hmonth : d.month = 12) :
    d.next.ymd = (d.year + 1, 1, 1) := by
  unfold next
  rw [dif_neg (by omega), dif_neg (by omega)]
  rfl

/-- The day after is the next one of the year, or the first of March. -/
theorem next_of_marchYmd (h : d.ymd = marchYmd year doy) (hdoy : doy < yearLength year) :
    d.next.ymd = if doy + 1 < yearLength year then marchYmd year (doy + 1)
      else marchYmd (year + 1) 0 := by
  have hle := monthOf_le hdoy
  obtain ⟨hstart, hend⟩ := monthOf_eq_iff.mp (rfl : monthOf doy = monthOf doy)
  have hnext : doy + 1 < monthStart (monthOf doy + 1) → monthOf (doy + 1) = monthOf doy :=
    fun h => monthOf_eq_iff.mpr ⟨by omega, h⟩
  have hnext' : doy + 1 = monthStart (monthOf doy + 1) → monthOf (doy + 1) = monthOf doy + 1 := by
    intro heq
    rw [monthOf_eq_iff, heq]
    exact ⟨Nat.le_refl _, by unfold monthStart; omega⟩
  obtain ⟨hy, hm, hd⟩ : d.year = calendarYear year (monthOf doy) ∧
      d.month = calendarMonth (monthOf doy) ∧ d.day = doy - monthStart (monthOf doy) + 1 := by
    simpa [ymd, marchYmd] using h
  have hlength : daysInMonth d.year d.month =
      min (monthStart (monthOf doy + 1)) (yearLength year) - monthStart (monthOf doy) := by
    rw [← daysInMonth_calendarMonth hle, hy, hm]
  have hmarch : marchYmd year (doy + 1) = (calendarYear year (monthOf (doy + 1)),
    calendarMonth (monthOf (doy + 1)), doy + 1 - monthStart (monthOf (doy + 1)) + 1) := rfl
  generalize monthOf doy = month at *
  by_cases hwithin : d.day < daysInMonth d.year d.month
  · have hyear : doy + 1 < yearLength year := by omega
    rw [next_within hwithin, if_pos hyear, hmarch, hnext (by omega), hy, hm, hd,
      Nat.sub_add_comm hstart]
  · have hlast : d.day = daysInMonth d.year d.month := by omega
    by_cases hyear : doy + 1 < yearLength year
    · have hfirst : doy + 1 = monthStart (month + 1) := by omega
      have hlt : month < 11 := by
        have hyl := yearLength_cases year
        have hend12 : monthStart (11 + 1) = 367 := rfl
        rcases Nat.lt_or_eq_of_le hle with hlt | rfl
        · exact hlt
        · omega
      rw [if_pos hyear, hmarch, hnext' hfirst, hfirst, Nat.sub_self]
      -- The year of the calendar begins behind the tenth month.
      by_cases hdec : month = 9
      · subst hdec
        rw [next_year hlast hm, hy]
        rfl
      · have hsucc : calendarMonth (month + 1) = calendarMonth month + 1 ∧
            calendarMonth month < 12 := by
          unfold calendarMonth
          split_ifs <;> omega
        have hsame : calendarYear year (month + 1) = calendarYear year month := by
          rw [calendarYear, calendarYear, hsucc.1]
          unfold calendarMonth
          split_ifs <;> omega
        rw [next_month hlast (hm ▸ hsucc.2), hy, hm, hsame, hsucc.1]
    · have hfeb : month = 11 := by
        have hyl := yearLength_cases year
        unfold monthStart at *
        omega
      subst hfeb
      rw [if_neg hyear, next_month hlast (hm ▸ by decide), hy, hm]
      rfl

end Date

end Calendar
