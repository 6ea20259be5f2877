import Hwwctl.Bundler.Timestamp
import Hwwctl.Library.Calendar
import Hwwctl.Library.Decimal

/-!
# Timestamps follow the calendar

`days_to_ymd` counts in eras of 400 years that begin in March. A year and a day of it give the
position in the era that the divisions find, and no subtraction on the way underflows; going on day
by day, these are the dates of the calendar.
-/

namespace Hwwctl.Bundler

open Calendar

theorem u64_eq_some {n : Nat} (h : n < 2 ^ 64) : u64 n = some n := if_pos h

theorem u64Sub_eq_some {a b : Nat} (h : b ≤ a) : u64Sub a b = some (a - b) := if_pos h

/-! ## The position in an era -/

/-- A day of an era by its century, its leap cycle and its year in that. -/
structure EraPosition (year doy : Nat) where
  era : Nat
  century : Nat
  cycle : Nat
  rest : Nat
  year_eq : year = 400 * era + 100 * century + 4 * cycle + rest
  century_le : century ≤ 3
  cycle_le : cycle ≤ 24
  rest_le : rest ≤ 3
  doy_le : doy ≤ 365
  /-- The last day comes in leap years only. -/
  leap : doy = 365 → rest = 3 ∧ (cycle = 24 → century = 3)

def eraPosition {year doy : Nat} (h : doy < yearLength year) : EraPosition year doy where
  era := year / 400
  century := year % 400 / 100
  cycle := year % 100 / 4
  rest := year % 4
  year_eq := by omega
  century_le := by omega
  cycle_le := by omega
  rest_le := by omega
  doy_le := by
    have := yearLength_cases year
    omega
  leap := by
    intro hdoy
    rcases yearLength_cases year with ⟨hlen, hleap⟩ | ⟨hlen, -⟩
    · unfold IsLeap at hleap
      omega
    · omega

namespace EraPosition

variable {year doy : Nat} (p : EraPosition year doy)

/-- `doe`, the day of the era. -/
def day : Nat := 36524 * p.century + 1461 * p.cycle + 365 * p.rest + doy

/-- `yoe`, the year of the era. -/
def yearOfEra : Nat := 100 * p.century + 4 * p.cycle + p.rest

theorem daysBefore_add : daysBefore year + doy = 146097 * p.era + p.day := by
  have := p.year_eq
  have := p.century_le
  have := p.cycle_le
  have := p.rest_le
  have h4 : year / 4 = 100 * p.era + 25 * p.century + p.cycle := by omega
  have h100 : year / 100 = 4 * p.era + p.century := by omega
  have h400 : year / 400 = p.era := by omega
  unfold daysBefore day
  rw [h4, h100, h400]
  omega

theorem day_lt : p.day < 146097 := by
  have := p.century_le
  have := p.cycle_le
  have := p.rest_le
  have := p.doy_le
  have := p.leap
  unfold day
  omega

/-- Only on the last day of the era there is a fifth century. -/
theorem centuries : p.day / 36524 = p.century + p.day / 146096 := by
  have hcycle := p.cycle_le
  have hrest := p.rest_le
  have hdoy := p.doy_le
  have hleap := p.leap
  have hcentury := p.century_le
  have hlast : 1461 * p.cycle + 365 * p.rest + doy < 36524 ∨
      1461 * p.cycle + 365 * p.rest + doy = 36524 ∧ p.century = 3 := by omega
  have hday : p.day = 36524 * p.century + (1461 * p.cycle + 365 * p.rest + doy) := by
    unfold day
    omega
  rw [hday]
  generalize 1461 * p.cycle + 365 * p.rest + doy = r at hlast
  rcases hlast with hlt | ⟨rfl, hthree⟩
  · omega
  · rw [hthree]

theorem yearOfEra_eq :
    (p.day - p.day / 1460 + p.day / 36524 - p.day / 146096) / 365 = p.yearOfEra := by
  have := p.century_le
  have := p.cycle_le
  have := p.rest_le
  have := p.doy_le
  have := p.leap
  rw [p.centuries]
  have hcycles : p.day / 1460 = 25 * p.century + p.cycle +
      (24 * p.century + p.cycle + 365 * p.rest + doy) / 1460 := by
    unfold day
    omega
  rw [hcycles]
  have hextra : (24 * p.century + p.cycle + 365 * p.rest + doy) / 1460 ≤ doy ∧
      doy < 365 + (24 * p.century + p.cycle + 365 * p.rest + doy) / 1460 := by omega
  generalize (24 * p.century + p.cycle + 365 * p.rest + doy) / 1460 = extra at hextra ⊢
  have hyears : p.day - (25 * p.century + p.cycle + extra) + (p.century + p.day / 146096) -
      p.day / 146096 = 365 * p.yearOfEra + (doy - extra) := by
    generalize p.day / 146096 = last
    unfold day yearOfEra
    omega
  rw [hyears, Nat.mul_add_div (by decide), Nat.div_eq_of_lt (by omega), Nat.add_zero]

theorem yearOfEra_div : p.yearOfEra / 4 = 25 * p.century + p.cycle ∧
    p.yearOfEra / 100 = p.century := by
  have := p.century_le
  have := p.cycle_le
  have := p.rest_le
  unfold yearOfEra
  omega

/-- The day of the year is what is left of the day of the era. -/
theorem dayOfYear_add :
    365 * p.yearOfEra + p.yearOfEra / 4 - p.yearOfEra / 100 + doy = p.day := by
  rw [p.yearOfEra_div.1, p.yearOfEra_div.2]
  unfold yearOfEra day
  omega

end EraPosition

theorem some_bind {α β : Type} (a : α) (f : α → Option β) : (some a >>= f) = f a := rfl

theorem daysToYmd_eq {days year doy : Nat} (h : days + 719468 = daysBefore year + doy)
    (hdoy : doy < yearLength year) (hbound : days + 719468 < 2 ^ 64) :
    daysToYmd days = some (marchYmd year doy) := by
  let p := eraPosition hdoy
  have hz : days + 719468 = 146097 * p.era + p.day := by rw [h, p.daysBefore_add]
  have hday := p.day_lt
  have hera : (days + 719468) / 146097 = p.era := by omega
  have hdoe : days + 719468 - p.era * 146097 = p.day := by omega
  have hcenturies := p.centuries
  have hyoe := p.yearOfEra_eq
  obtain ⟨hyoe4, hyoe100⟩ := p.yearOfEra_div
  have hyear : p.yearOfEra + p.era * 400 = year := by
    have := p.year_eq
    unfold EraPosition.yearOfEra
    omega
  have hadd := p.dayOfYear_add
  have hdoy' : p.day - (365 * p.yearOfEra + p.yearOfEra / 4 - p.yearOfEra / 100) = doy := by omega
  have hle := p.doy_le
  obtain ⟨hmonthStart, -⟩ := monthOf_eq_iff.mp (rfl : monthOf doy = monthOf doy)
  have hmonthOf := monthOf_le hdoy
  unfold daysToYmd
  dsimp only
  rw [u64_eq_some hbound, some_bind, hera, u64_eq_some (by omega), some_bind,
    u64Sub_eq_some (by omega), some_bind, hdoe]
  rw [u64Sub_eq_some (by omega), some_bind, u64_eq_some (by omega), some_bind,
    u64Sub_eq_some (by omega), some_bind]
  rw [hyoe]
  have hmonth : (5 * doy + 2) / 153 = monthOf doy := rfl
  have hstart : (153 * monthOf doy + 2) / 5 = monthStart (monthOf doy) := rfl
  rw [u64_eq_some (by omega), some_bind, u64_eq_some (by omega), some_bind,
    u64_eq_some (by omega), some_bind, u64_eq_some (by omega), some_bind,
    u64Sub_eq_some (by omega), some_bind, u64Sub_eq_some (by omega), some_bind,
    hdoy', u64_eq_some (by omega), some_bind, u64_eq_some (by omega),
    some_bind, hmonth, u64_eq_some (by omega), some_bind, u64_eq_some (by omega),
    some_bind, hstart, u64Sub_eq_some hmonthStart, some_bind,
    u64_eq_some (by omega), some_bind, hyear, marchYmd, calendarYear, calendarMonth]
  by_cases hten : monthOf doy < 10
  · rw [if_pos hten, if_pos hten, u64_eq_some (by omega), some_bind, if_neg (by omega),
      if_neg (by omega)]
    rfl
  · rw [if_neg hten, if_neg hten, u64Sub_eq_some (by omega), some_bind, if_pos (by omega),
      if_pos (by omega), u64_eq_some (by omega)]
    rfl

/-! ## Day by day -/

def epoch : Date := .newYear 1970

theorem exists_march_position (days : Nat) : ∃ year doy, days + 719468 = daysBefore year + doy ∧
    doy < yearLength year ∧ (epoch.after days).ymd = marchYmd year doy := by
  induction days with
  | zero => exact ⟨1969, 306, by decide, by decide, by decide⟩
  | succ days ih =>
    obtain ⟨year, doy, hdays, hdoy, hymd⟩ := ih
    have hnext := Date.next_of_marchYmd hymd hdoy
    rw [Date.after_succ, hnext]
    split_ifs with hyear
    · exact ⟨year, doy + 1, by omega, hyear, rfl⟩
    · have hlength := yearLength_cases (year + 1)
      exact ⟨year + 1, 0, by rw [daysBefore_succ]; omega, by omega, rfl⟩

/-- `days_to_ymd` gives the dates of the calendar. -/
theorem daysToYmd_eq_after {days : Nat} (h : days + 719468 < 2 ^ 64) :
    daysToYmd days = some (epoch.after days).ymd := by
  obtain ⟨year, doy, hdays, hdoy, hymd⟩ := exists_march_position days
  rw [daysToYmd_eq hdays hdoy h, hymd]

/-! ## The order of the texts -/

theorem toList_padded {width n : Nat} (h : n < 10 ^ (width + 1)) :
    (padded (width + 1) n).toList = Decimal.digits (width + 1) n := by
  rw [← Decimal.replicate_append_toDigits h, padded, String.toList_append, String.toList_ofList,
    Nat.repr_eq_ofList_toDigits, String.length_ofList, String.toList_ofList]

/-- The characters of a timestamp. -/
def timestampChars (year month day hour min sec : Nat) : List Char :=
  Decimal.digits 4 year ++ '-' :: (Decimal.digits 2 month ++ '-' :: (Decimal.digits 2 day ++ 'T' ::
    (Decimal.digits 2 hour ++ ':' :: (Decimal.digits 2 min ++ ':' ::
      (Decimal.digits 2 sec ++ ['Z'])))))

theorem timestampChars_lt_iff {y m d h n s y' m' d' h' n' s' : Nat}
    (hy : y < 10 ^ 4) (hm : m < 10 ^ 2) (hd : d < 10 ^ 2) (hh : h < 10 ^ 2) (hn : n < 10 ^ 2)
    (hs : s < 10 ^ 2) (hy' : y' < 10 ^ 4) (hm' : m' < 10 ^ 2) (hd' : d' < 10 ^ 2)
    (hh' : h' < 10 ^ 2) (hn' : n' < 10 ^ 2) (hs' : s' < 10 ^ 2) :
    timestampChars y m d h n s < timestampChars y' m' d' h' n' s' ↔
      y < y' ∨ y = y' ∧ (m < m' ∨ m = m' ∧ (d < d' ∨ d = d' ∧ (h < h' ∨ h = h' ∧
        (n < n' ∨ n = n' ∧ s < s')))) := by
  have hsep : ∀ (c : Char) (as bs : List Char), c :: as < c :: bs ↔ as < bs := by
    intro c as bs
    simp
  have hend : ∀ c : Char, ¬ [c] < [c] := by
    intro c
    simp
  unfold timestampChars
  rw [Decimal.digits_append_lt_iff hy hy', hsep, Decimal.digits_append_lt_iff hm hm', hsep,
    Decimal.digits_append_lt_iff hd hd', hsep, Decimal.digits_append_lt_iff hh hh', hsep,
    Decimal.digits_append_lt_iff hn hn', hsep, Decimal.digits_append_lt_iff hs hs']
  simp only [hend, and_false, or_false]

theorem month_day_lt (d : Date) : d.month < 10 ^ 2 ∧ d.day < 10 ^ 2 := by
  have hmonth := d.month_le
  have hday := d.day_le
  unfold daysInMonth at hday
  split_ifs at hday <;> omega

/-- Every second has a text. -/
theorem exists_currentTimestamp {secs : Nat} (h : secs < 2 ^ 64) :
    ∃ text, currentTimestamp (some secs) = some text := by
  have hdays : secs / 86400 + 719468 < 2 ^ 64 := by omega
  unfold currentTimestamp
  simp only [Option.getD_some, daysToYmd_eq_after hdays, Option.bind_eq_bind, Option.bind_some]
  exact ⟨_, rfl⟩

/-- The text of a second within the years that have four digits. -/
theorem currentTimestamp_eq {secs : Nat} (h : secs < 2 ^ 64)
    (hyear : (epoch.after (secs / 86400)).year ≤ 9999) :
    ∃ text, currentTimestamp (some secs) = some text ∧ text.toList =
      timestampChars (epoch.after (secs / 86400)).year (epoch.after (secs / 86400)).month
        (epoch.after (secs / 86400)).day (secs / 3600 % 24) (secs / 60 % 60) (secs % 60) := by
  have hdays : secs / 86400 + 719468 < 2 ^ 64 := by omega
  obtain ⟨hmonth, hday⟩ := month_day_lt (epoch.after (secs / 86400))
  unfold currentTimestamp
  simp only [Option.getD_some, daysToYmd_eq_after hdays, Option.bind_eq_bind, Option.bind_some,
    Date.ymd]
  refine ⟨_, rfl, ?_⟩
  have hpair : ∀ n < 10 ^ 2, (padded 2 n).toList = Decimal.digits 2 n := fun n h => toList_padded h
  have hfour : ∀ n < 10 ^ 4, (padded 4 n).toList = Decimal.digits 4 n := fun n h => toList_padded h
  simp only [String.toList_append]
  rw [hfour _ (by omega), hpair _ hmonth, hpair _ hday, hpair _ (by omega), hpair _ (by omega),
    hpair _ (by omega)]
  simp only [List.append_assoc]
  rfl

/-- The order of the days, and on one day that of the clock. -/
theorem seconds_lt_iff (s t : Nat) :
    s < t ↔ s / 86400 < t / 86400 ∨ s / 86400 = t / 86400 ∧
      (s / 3600 % 24 < t / 3600 % 24 ∨ s / 3600 % 24 = t / 3600 % 24 ∧
        (s / 60 % 60 < t / 60 % 60 ∨ s / 60 % 60 = t / 60 % 60 ∧ s % 60 < t % 60)) := by
  omega

theorem before_or_same_day_iff {y m d y' m' d' : Prop} {clock : Prop} :
    (y ∨ y' ∧ (m ∨ m' ∧ (d ∨ d' ∧ clock))) ↔
      (y ∨ y' ∧ (m ∨ m' ∧ d)) ∨ (y' ∧ m' ∧ d') ∧ clock := by
  tauto

/-- Timestamps are in the order of the seconds. -/
theorem timestamps_ordered {s t : Nat} (hs : s < 2 ^ 64) (ht : t < 2 ^ 64)
    (hsyear : (epoch.after (s / 86400)).year ≤ 9999)
    (htyear : (epoch.after (t / 86400)).year ≤ 9999) :
    ∃ a b, currentTimestamp (some s) = some a ∧ currentTimestamp (some t) = some b ∧
      (a < b ↔ s < t) := by
  obtain ⟨a, ha, hatext⟩ := currentTimestamp_eq hs hsyear
  obtain ⟨b, hb, hbtext⟩ := currentTimestamp_eq ht htyear
  refine ⟨a, b, ha, hb, ?_⟩
  obtain ⟨hsmonth, hsday⟩ := month_day_lt (epoch.after (s / 86400))
  obtain ⟨htmonth, htday⟩ := month_day_lt (epoch.after (t / 86400))
  have hdays : ∀ m n, (epoch.after m).Before (epoch.after n) ↔ m < n :=
    fun _ _ => Date.before_after_iff epoch
  have hsame : ∀ m n, (epoch.after m).year = (epoch.after n).year ∧
      (epoch.after m).month = (epoch.after n).month ∧ (epoch.after m).day = (epoch.after n).day ↔
      m = n := by
    intro m n
    have hmn := hdays m n
    have hnm := hdays n m
    unfold Date.Before at hmn hnm
    constructor
    · rintro ⟨hy, hm, hd⟩
      omega
    · rintro rfl
      exact ⟨rfl, rfl, rfl⟩
  show a.toList < b.toList ↔ s < t
  rw [hatext, hbtext, timestampChars_lt_iff (by omega) hsmonth hsday (by omega) (by omega)
    (by omega) (by omega) htmonth htday (by omega) (by omega) (by omega), seconds_lt_iff s t,
    ← hdays (s / 86400) (t / 86400), ← hsame (s / 86400) (t / 86400)]
  exact before_or_same_day_iff

theorem ymd_of_daysToYmd {days y m d : Nat} (hdays : days + 719468 < 2 ^ 64)
    (h : daysToYmd days = some (y, m, d)) :
    (epoch.after days).year = y ∧ (epoch.after days).month = m ∧ (epoch.after days).day = d := by
  rw [daysToYmd_eq_after hdays] at h
  have hymd := Option.some.inj h
  exact ⟨congrArg Prod.fst hymd, congrArg (·.2.1) hymd, congrArg (·.2.2) hymd⟩

/-- As long as the day number itself does not overflow, no operation on the way does. Every second
has a text, which in the years of four digits is its date and time of day, and the texts of two such
seconds are in the order of the seconds. -/
theorem days_to_ymd_calendar :
    daysToYmd 0 = some (1970, 1, 1) ∧
    (∀ n, n + 719468 < 2 ^ 64 → ∃ date : Date, daysToYmd n = some date.ymd ∧
      (n + 1 + 719468 < 2 ^ 64 → daysToYmd (n + 1) = some date.next.ymd)) ∧
    (∀ secs < 2 ^ 64, ∃ (date : Date) (text : String), daysToYmd (secs / 86400) = some date.ymd ∧
      currentTimestamp (some secs) = some text ∧
      (date.year ≤ 9999 → text.toList = timestampChars date.year date.month date.day
        (secs / 3600 % 24) (secs / 60 % 60) (secs % 60))) ∧
    ∀ s t y m d y' m' d', s < 2 ^ 64 → t < 2 ^ 64 →
      daysToYmd (s / 86400) = some (y, m, d) → y ≤ 9999 →
      daysToYmd (t / 86400) = some (y', m', d') → y' ≤ 9999 →
      ∃ a b, currentTimestamp (some s) = some a ∧ currentTimestamp (some t) = some b ∧
        (a < b ↔ s < t) := by
  refine ⟨daysToYmd_eq_after (by decide), ?_, ?_, ?_⟩
  · intro n hn
    refine ⟨epoch.after n, daysToYmd_eq_after hn, fun hsucc => ?_⟩
    rw [daysToYmd_eq_after hsucc, Date.after_succ]
  · intro secs hsecs
    have hdays : daysToYmd (secs / 86400) = some (epoch.after (secs / 86400)).ymd :=
      daysToYmd_eq_after (by omega)
    by_cases hyear : (epoch.after (secs / 86400)).year ≤ 9999
    · obtain ⟨text, htext, hchars⟩ := currentTimestamp_eq hsecs hyear
      exact ⟨_, text, hdays, htext, fun _ => hchars⟩
    · obtain ⟨text, htext⟩ := exists_currentTimestamp hsecs
      exact ⟨_, text, hdays, htext, fun hle => absurd hle hyear⟩
  · intro s t y m d y' m' d' hs ht hsymd hy htymd hy'
    obtain ⟨rfl, -⟩ := ymd_of_daysToYmd (by omega) hsymd
    obtain ⟨rfl, -⟩ := ymd_of_daysToYmd (by omega) htymd
    exact timestamps_ordered hs ht hy hy'

/-- The last second before a leap day and the first second of it. -/
theorem days_to_ymd_calendar_leapDay :
    daysToYmd 11015 = some (2000, 2, 28) ∧ daysToYmd (11015 + 1) = some (2000, 2, 29) ∧
      ∃ a b, currentTimestamp (some 951782399) = some a ∧
        currentTimestamp (some 951782400) = some b ∧
        a.toList = timestampChars 2000 2 28 23 59 59 ∧
        b.toList = timestampChars 2000 2 29 0 0 0 ∧ a < b := by
  obtain ⟨-, -, htext, horder⟩ := days_to_ymd_calendar
  have hbefore : daysToYmd 11015 = some (2000, 2, 28) := by decide
  have hafter : daysToYmd 11016 = some (2000, 2, 29) := by decide
  obtain ⟨a, b, ha, hb, hab⟩ := horder 951782399 951782400 2000 2 28 2000 2 29 (by decide)
    (by decide) hbefore (by decide) hafter (by decide)
  obtain ⟨date, a', hdate, ha', hatext⟩ := htext 951782399 (by decide)
  obtain ⟨date', b', hdate', hb', hbtext⟩ := htext 951782400 (by decide)
  have hymd : date.ymd = (2000, 2, 28) := Option.some.inj (hdate.symm.trans hbefore)
  have hymd' : date'.ymd = (2000, 2, 29) := Option.some.inj (hdate'.symm.trans hafter)
  obtain rfl : a = a' := Option.some.inj (ha.symm.trans ha')
  obtain rfl : b = b' := Option.some.inj (hb.symm.trans hb')
  simp only [Date.ymd, Prod.mk.injEq] at hymd hymd'
  obtain ⟨hy, hm, hd⟩ := hymd
  obtain ⟨hy', hm', hd'⟩ := hymd'
  rw [hy, hm, hd] at hatext
  rw [hy', hm', hd'] at hbtext
  exact ⟨hbefore, hafter, a, b, ha, hb, hatext (by decide), hbtext (by decide),
    hab.2 (by decide)⟩

end Hwwctl.Bundler
