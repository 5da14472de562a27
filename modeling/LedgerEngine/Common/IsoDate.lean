/-
# The text of a date

`Date.prototype.toISOString`: a time value, in milliseconds since the epoch, as a
date of the proleptic Gregorian calendar and a time of day, `YYYY-MM-DDTHH:mm:ss.sssZ`
with a sign and two more digits for years that four digits do not hold.

A day is in the year whose first day is the last one not after it
(`dayFromYear_yearFromDay`), and a month is found the same way, so the text can be
read back (`readISOString_toISOString`).
-/

import LedgerEngine.Common.NumberText

namespace LedgerEngine
namespace IsoDate

open NumberText (digitUnit toNat_digitUnit)

/-! ### Years and months -/

/-- The first day of a year. -/
def dayFromYear (y : ℤ) : ℤ :=
  365 * (y - 1970) + (y - 1969) / 4 - (y - 1901) / 100 + (y - 1601) / 400

/-- One in a leap year. -/
def leapDays (y : ℤ) : ℤ := if y % 4 = 0 ∧ (y % 100 ≠ 0 ∨ y % 400 = 0) then 1 else 0

theorem leapDays_cases (y : ℤ) : leapDays y = 0 ∨ leapDays y = 1 := by
  unfold leapDays
  split_ifs
  · exact Or.inr rfl
  · exact Or.inl rfl

theorem dayFromYear_succ (y : ℤ) : dayFromYear (y + 1) = dayFromYear y + 365 + leapDays y := by
  unfold dayFromYear leapDays
  split_ifs with h
  · omega
  · omega

/-- The year a day is in: the guess from the mean length of a year is off by one at
most. -/
def yearFromDay (day : ℤ) : ℤ :=
  let guess := 400 * day / 146097 + 1970
  if day < dayFromYear guess then guess - 1
  else if dayFromYear (guess + 1) ≤ day then guess + 1
  else guess

/-- **The year of a day is the last one that does not begin after it.** -/
theorem dayFromYear_yearFromDay (day : ℤ) :
    dayFromYear (yearFromDay day) ≤ day ∧ day < dayFromYear (yearFromDay day + 1) := by
  unfold yearFromDay
  dsimp only
  split_ifs with h₁ h₂
  · refine ⟨?_, by simpa using h₁⟩
    unfold dayFromYear
    omega
  · refine ⟨h₂, ?_⟩
    unfold dayFromYear
    omega
  · exact ⟨not_lt.1 h₁, not_le.1 h₂⟩

/-- The first day of a month within its year, the month counted from zero. -/
def monthStart (leap : ℤ) (month : ℕ) : ℤ :=
  [0, 31, 59 + leap, 90 + leap, 120 + leap, 151 + leap, 181 + leap, 212 + leap, 243 + leap,
    273 + leap, 304 + leap, 334 + leap].getD month (365 + leap)

/-- The month of a day within its year. -/
def monthFromDay (leap day : ℤ) : ℕ :=
  if day < 31 then 0
  else if day < 59 + leap then 1
  else if day < 90 + leap then 2
  else if day < 120 + leap then 3
  else if day < 151 + leap then 4
  else if day < 181 + leap then 5
  else if day < 212 + leap then 6
  else if day < 243 + leap then 7
  else if day < 273 + leap then 8
  else if day < 304 + leap then 9
  else if day < 334 + leap then 10
  else 11

/-- **The month of a day is the last one that does not begin after it**, and none is
longer than 31 days. -/
theorem monthStart_monthFromDay {leap : ℤ} (day : ℤ) (hleap : leap = 0 ∨ leap = 1) (h₀ : 0 ≤ day)
    (h₁ : day < 365 + leap) :
    monthFromDay leap day < 12 ∧ monthStart leap (monthFromDay leap day) ≤ day ∧
      day < monthStart leap (monthFromDay leap day) + 31 := by
  generalize hm : monthFromDay leap day = m
  unfold monthFromDay at hm
  repeat' split at hm
  all_goals
    subst hm
    simp only [monthStart, List.getD_cons_zero, List.getD_cons_succ]
    omega

/-! ### A date -/

/-- The fields of a date, the month counted from zero. -/
structure Fields where
  year : ℤ
  month : ℕ
  day : ℕ
  hour : ℕ
  minute : ℕ
  second : ℕ
  millisecond : ℕ
  deriving DecidableEq

/-- The fields of a time value. -/
def fields (t : ℤ) : Fields :=
  let day := t / 86400000
  let time := (t % 86400000).toNat
  let year := yearFromDay day
  let dayInYear := day - dayFromYear year
  let month := monthFromDay (leapDays year) dayInYear
  { year
    month
    day := (dayInYear - monthStart (leapDays year) month + 1).toNat
    hour := time / 3600000
    minute := time / 60000 % 60
    second := time / 1000 % 60
    millisecond := time % 1000 }

/-- The time value with these fields. -/
def Fields.time (f : Fields) : ℤ :=
  (dayFromYear f.year + monthStart (leapDays f.year) f.month + f.day - 1) * 86400000 +
    f.hour * 3600000 + f.minute * 60000 + f.second * 1000 + f.millisecond

/-- The fields of a time value are in their ranges. -/
structure Fields.InRange (f : Fields) : Prop where
  month : f.month < 12
  day : 1 ≤ f.day ∧ f.day ≤ 31
  hour : f.hour < 24
  minute : f.minute < 60
  second : f.second < 60
  millisecond : f.millisecond < 1000

/-- Where a time value stands in its year and month. -/
theorem fields_day (t : ℤ) :
    (fields t).month < 12 ∧ 1 ≤ (fields t).day ∧ (fields t).day ≤ 31 ∧
      dayFromYear (fields t).year + monthStart (leapDays (fields t).year) (fields t).month +
        (fields t).day - 1 = t / 86400000 := by
  have hyear := dayFromYear_yearFromDay (t / 86400000)
  have hsucc := dayFromYear_succ (yearFromDay (t / 86400000))
  have hleap := leapDays_cases (yearFromDay (t / 86400000))
  have hmonth := monthStart_monthFromDay
    (t / 86400000 - dayFromYear (yearFromDay (t / 86400000))) hleap (by omega) (by omega)
  refine ⟨hmonth.1, ?_, ?_, ?_⟩ <;> simp only [fields] <;> omega

theorem inRange_fields (t : ℤ) : (fields t).InRange where
  month := (fields_day t).1
  day := ⟨(fields_day t).2.1, (fields_day t).2.2.1⟩
  hour := by simp only [fields]; omega
  minute := by simp only [fields]; omega
  second := by simp only [fields]; omega
  millisecond := by simp only [fields]; omega

/-- **The fields say which time it is.** -/
theorem time_fields (t : ℤ) : (fields t).time = t := by
  have hday := (fields_day t).2.2.2
  unfold Fields.time
  rw [hday]
  simp only [fields]
  omega

example : fields 0 = ⟨1970, 0, 1, 0, 0, 0, 0⟩ := by decide +kernel
example : fields 1709210096789 = ⟨2024, 1, 29, 12, 34, 56, 789⟩ := by decide +kernel
example : fields (-62198755200000) = ⟨-1, 0, 1, 0, 0, 0, 0⟩ := by decide +kernel

/-! ### The text -/

/-- The last `k` digits of a number. -/
def pad : ℕ → ℕ → JsString
  | 0, _ => []
  | k + 1, n => pad k (n / 10) ++ [digitUnit (n % 10)]

/-- The number that digits spell. -/
def number (ds : JsString) : ℕ := ds.foldl (fun v u => 10 * v + (u.toNat - 48)) 0

theorem number_pad {k n : ℕ} (h : n < 10 ^ k) : number (pad k n) = n := by
  induction k generalizing n with
  | zero =>
      rw [pow_zero, Nat.lt_one_iff] at h
      subst h
      rfl
  | succ k ih =>
      rw [pow_succ] at h
      have hn : n / 10 < 10 ^ k := by omega
      have hdigit := toNat_digitUnit (Nat.mod_lt n (by decide : 0 < 10))
      have hnumber : number (pad (k + 1) n) = 10 * number (pad k (n / 10)) + n % 10 := by
        simp only [number, pad, List.foldl_append, List.foldl_cons, List.foldl_nil, hdigit]
        omega
      rw [hnumber, ih hn]
      omega

/-- The year of a text, in four digits or with a sign and six. -/
def yearText (y : ℤ) : JsString :=
  if 0 ≤ y ∧ y ≤ 9999 then pad 4 y.toNat
  else (if 0 ≤ y then 43 else 45) :: pad 6 y.natAbs

/-- The rest of a text. -/
def Fields.text (f : Fields) : JsString :=
  45 :: (pad 2 (f.month + 1) ++ 45 :: (pad 2 f.day ++ 84 :: (pad 2 f.hour ++ 58 ::
    (pad 2 f.minute ++ 58 :: (pad 2 f.second ++ 46 :: (pad 3 f.millisecond ++ [90]))))))

/-- `toISOString` of a valid date. -/
def toISOString (t : ℤ) : JsString := yearText (fields t).year ++ (fields t).text

example : toISOString 1709210096789 = js "2024-02-29T12:34:56.789Z" := by decide +kernel
example : toISOString (-8640000000000000) = js "-271821-04-20T00:00:00.000Z" := by decide +kernel
example : toISOString 253402300800000 = js "+010000-01-01T00:00:00.000Z" := by decide +kernel

/-! ### Reading it back -/

/-- The time value of a year and the rest of a text. -/
def readRest (year : ℤ) : JsString → Option ℤ
  | [45, m, m', 45, d, d', 84, h, h', 58, n, n', 58, s, s', 46, x, x', x'', 90] =>
      some (Fields.time ⟨year, number [m, m'] - 1, number [d, d'], number [h, h'],
        number [n, n'], number [s, s'], number [x, x', x'']⟩)
  | _ => none

/-- The time value of a text that `toISOString` gives. -/
def readISOString (s : JsString) : Option ℤ :=
  if s.head? = some 43 then readRest (number ((s.drop 1).take 6)) (s.drop 7)
  else if s.head? = some 45 then readRest (-number ((s.drop 1).take 6)) (s.drop 7)
  else readRest (number (s.take 4)) (s.drop 4)

theorem readRest_text {f : Fields} (h : f.InRange) : readRest f.year f.text = some f.time := by
  have htext : readRest f.year f.text = some (Fields.time ⟨f.year, number (pad 2 (f.month + 1)) - 1,
      number (pad 2 f.day), number (pad 2 f.hour), number (pad 2 f.minute),
      number (pad 2 f.second), number (pad 3 f.millisecond)⟩) := rfl
  rw [htext, number_pad, number_pad, number_pad, number_pad, number_pad, number_pad]
  · rfl
  · exact lt_of_lt_of_le h.millisecond (by decide)
  · exact lt_of_lt_of_le h.second (by decide)
  · exact lt_of_lt_of_le h.minute (by decide)
  · exact lt_of_lt_of_le h.hour (by decide)
  · exact lt_of_le_of_lt h.day.2 (by decide)
  · exact lt_of_le_of_lt (Nat.succ_le_of_lt h.month) (by decide)

/-- A `Date` object holds times within 8.64e15 ms of the epoch. -/
def IsValid (t : ℤ) : Prop := -8640000000000000 ≤ t ∧ t ≤ 8640000000000000

instance (t : ℤ) : Decidable (IsValid t) := inferInstanceAs (Decidable (_ ∧ _))

/-- The year of a valid date has six digits. -/
theorem natAbs_year_lt {t : ℤ} (h : IsValid t) : (fields t).year.natAbs < 10 ^ 6 := by
  obtain ⟨hlow, hhigh⟩ := h
  have hyear := dayFromYear_yearFromDay (t / 86400000)
  have hfield : (fields t).year = yearFromDay (t / 86400000) := rfl
  unfold dayFromYear at hyear
  have hbound : -300000 ≤ (fields t).year ∧ (fields t).year ≤ 300000 := by
    rw [hfield]
    constructor <;> omega
  omega

/-- **A valid date can be read off its text.** -/
theorem readISOString_toISOString {t : ℤ} (h : IsValid t) :
    readISOString (toISOString t) = some t := by
  have hrest := readRest_text (inRange_fields t)
  rw [time_fields] at hrest
  have hyear := natAbs_year_lt h
  unfold toISOString yearText
  split_ifs with hfour hpositive
  · have hnumber : number (pad 4 (fields t).year.toNat) = (fields t).year.toNat :=
      number_pad (show _ < 10 ^ 4 by omega)
    have hdigit : ∀ u : UInt16, u < 48 →
        (pad 4 (fields t).year.toNat ++ (fields t).text).head? ≠ some u := by
      intro u hu he
      have hunit : digitUnit ((fields t).year.toNat / 10 / 10 / 10 % 10) = u := Option.some.inj he
      have hrange := (NumberText.digitUnit_range (Nat.mod_lt
        ((fields t).year.toNat / 10 / 10 / 10) (by decide : 0 < 10))).1
      rw [hunit] at hrange
      exact absurd hu (UInt16.not_lt.2 hrange)
    rw [readISOString, if_neg (hdigit 43 (by decide)), if_neg (hdigit 45 (by decide))]
    show readRest (number (pad 4 (fields t).year.toNat)) (fields t).text = some t
    rw [hnumber, Int.toNat_of_nonneg hfour.1]
    exact hrest
  · show readRest (number (pad 6 (fields t).year.natAbs)) (fields t).text = some t
    rw [number_pad hyear, Int.natAbs_of_nonneg hpositive]
    exact hrest
  · show readRest (-number (pad 6 (fields t).year.natAbs)) (fields t).text = some t
    rw [number_pad hyear, Int.ofNat_natAbs_of_nonpos (by omega), neg_neg]
    exact hrest

end IsoDate
end LedgerEngine
