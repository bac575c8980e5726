import Mathlib.Data.List.Basic
import Mathlib.Tactic.IntervalCases

/-! # The calendar, and dates as text

The dates of ECMAScript: a time value is a number of milliseconds from the first of
January 1970, the calendar is the Gregorian one in both directions, and a text is read
as a date when it has the form `YYYY-MM-DDTHH:mm`, or that of `toISOString`, with a
year of four digits or of a sign and six.

What is written is read back (`readInstant_isoChars`), and the minute is what a text
without seconds keeps of a time (`readMinute_written`).
-/
namespace Calendar

/-! ## Days and years -/

/-- The day of the first of January, counted from that of 1970. -/
def dayFromYear (year : Int) : Int :=
  365 * (year - 1970) + (year - 1969) / 4 - (year - 1901) / 100 + (year - 1601) / 400

/-- The leap day: one in a leap year, and zero in any other. -/
def leapDay (year : Int) : Int := dayFromYear (year + 1) - dayFromYear year - 365

theorem leapDay_bounds (year : Int) : 0 ≤ leapDay year ∧ leapDay year ≤ 1 := by
  unfold leapDay dayFromYear
  omega

/-- The year of a day: the average year gives it, or one of its neighbours. -/
def yearOfDay (day : Int) : Int :=
  let year := 1970 + 400 * day / 146097
  if day < dayFromYear year then year - 1
  else if dayFromYear (year + 1) ≤ day then year + 1
  else year

/-- **The year of a day** begins no later, and the next one after it. -/
theorem yearOfDay_spec (day : Int) :
    dayFromYear (yearOfDay day) ≤ day ∧ day < dayFromYear (yearOfDay day + 1) := by
  unfold yearOfDay
  dsimp only
  -- the guess is at most a year off, and each branch is linear in it once it has a name
  generalize hyear : 1970 + 400 * day / 146097 = year
  split
  · rename_i hbefore
    refine ⟨?_, by rwa [Int.sub_add_cancel]⟩
    unfold dayFromYear at hbefore ⊢
    omega
  · rename_i hnot
    split
    · rename_i hafter
      refine ⟨hafter, ?_⟩
      unfold dayFromYear at hnot hafter ⊢
      omega
    · rename_i hwithin
      exact ⟨by omega, by omega⟩

/-! ## Months -/

/-- How many days of the year are before a month; months are counted from zero. -/
def monthStart (leap : Int) : Nat → Int
  | 0 => 0
  | 1 => 31
  | 2 => 59 + leap
  | 3 => 90 + leap
  | 4 => 120 + leap
  | 5 => 151 + leap
  | 6 => 181 + leap
  | 7 => 212 + leap
  | 8 => 243 + leap
  | 9 => 273 + leap
  | 10 => 304 + leap
  | 11 => 334 + leap
  | _ => 365 + leap

theorem monthStart_succ_le {leap : Int} (hleap : 0 ≤ leap ∧ leap ≤ 1) {m : Nat} (h : m ≤ 11) :
    monthStart leap (m + 1) ≤ monthStart leap m + 31 := by
  interval_cases m
  all_goals simp only [monthStart]; omega

/-- The last of the months up to `m` that has begun. -/
def monthUpTo (leap day : Int) : Nat → Nat
  | 0 => 0
  | m + 1 => if monthStart leap (m + 1) ≤ day then m + 1 else monthUpTo leap day m

theorem monthUpTo_spec {leap day : Int} (hday : 0 ≤ day) {m : Nat}
    (h : day < monthStart leap (m + 1)) :
    monthUpTo leap day m ≤ m ∧ monthStart leap (monthUpTo leap day m) ≤ day ∧
      day < monthStart leap (monthUpTo leap day m + 1) := by
  induction m with
  | zero => exact ⟨Nat.le_refl 0, hday, h⟩
  | succ m ih =>
    rw [monthUpTo]
    split
    · rename_i hbegun
      exact ⟨Nat.le_refl _, hbegun, h⟩
    · rename_i hnot
      obtain ⟨hle, hstart, hnext⟩ := ih (by omega)
      exact ⟨by omega, hstart, hnext⟩

/-! ## Times -/

/-- What a time value reads as. -/
structure Fields where
  year : Int
  month : Nat
  day : Nat
  hour : Nat
  minute : Nat
  second : Nat
  millisecond : Nat
  deriving DecidableEq

def fields (time : Int) : Fields :=
  let day := time / 86400000
  let year := yearOfDay day
  let ofYear := day - dayFromYear year
  let month := monthUpTo (leapDay year) ofYear 11
  { year
    month := month + 1
    day := (ofYear - monthStart (leapDay year) month).toNat + 1
    hour := (time % 86400000 / 3600000).toNat
    minute := (time % 3600000 / 60000).toNat
    second := (time % 60000 / 1000).toNat
    millisecond := (time % 1000).toNat }

/-- The time value of a minute. -/
def minuteOf (year : Int) (month day hour minute : Nat) : Int :=
  (dayFromYear year + monthStart (leapDay year) (month - 1) + (day - 1)) * 86400000 +
    hour * 3600000 + minute * 60000

/-- The calendar has such a minute. -/
def isMinute (year : Int) (month day hour minute : Nat) : Bool :=
  1 ≤ month && month ≤ 12 && 1 ≤ day &&
    decide (day ≤ monthStart (leapDay year) month - monthStart (leapDay year) (month - 1)) &&
    hour < 24 && minute < 60

/-- The month of a day begins no later than the day, and the next month after it. -/
theorem month_spec (day : Int) :
    monthUpTo (leapDay (yearOfDay day)) (day - dayFromYear (yearOfDay day)) 11 ≤ 11 ∧
      monthStart (leapDay (yearOfDay day))
        (monthUpTo (leapDay (yearOfDay day)) (day - dayFromYear (yearOfDay day)) 11) ≤
          day - dayFromYear (yearOfDay day) ∧
      day - dayFromYear (yearOfDay day) < monthStart (leapDay (yearOfDay day))
        (monthUpTo (leapDay (yearOfDay day)) (day - dayFromYear (yearOfDay day)) 11 + 1) := by
  obtain ⟨hstart, hnext⟩ := yearOfDay_spec day
  refine monthUpTo_spec (by omega) ?_
  show _ < 365 + leapDay (yearOfDay day)
  unfold leapDay
  omega

/-- A time reads as a minute that is there. -/
theorem isMinute_fields (time : Int) :
    isMinute (fields time).year (fields time).month (fields time).day (fields time).hour
      (fields time).minute = true := by
  obtain ⟨hmonth, hbegun, hnext⟩ := month_spec (time / 86400000)
  simp only [isMinute, Bool.and_eq_true, decide_eq_true_eq]
  simp only [fields, Nat.add_sub_cancel]
  omega

/-- **The fields of a time** are its minute. -/
theorem minuteOf_fields (time : Int) :
    minuteOf (fields time).year (fields time).month (fields time).day (fields time).hour
      (fields time).minute = time - time % 60000 := by
  obtain ⟨-, hbegun, -⟩ := month_spec (time / 86400000)
  simp only [minuteOf, fields, Nat.add_sub_cancel]
  omega

/-! ## Numbers in a text -/

/-- `String(value)`. -/
def digits (n : Nat) : List Char := Nat.toDigits 10 n

/-- `String(value).padStart(width, '0')`. -/
def padded (width n : Nat) : List Char := (digits n).leftpad width '0'

/-- A number of exactly so many digits. -/
def readDigits (width : Nat) (l : List Char) : Option Nat :=
  if l.length = width ∧ l.all Char.isDigit then some (Nat.ofDigitChars 10 l 0) else none

theorem isDigit_of_mem_digits {n : Nat} {c : Char} (h : c ∈ digits n) : c.isDigit = true :=
  Nat.isDigit_of_mem_toDigits (by decide) (by decide) h

theorem length_digits_le {width n : Nat} (hwidth : 0 < width) :
    (digits n).length ≤ width ↔ n < 10 ^ width :=
  Nat.length_toDigits_le_iff (by decide) hwidth

theorem readDigits_digits (width n : Nat) :
    readDigits width (digits n) = if (digits n).length = width then some n else none := by
  have hall : (digits n).all Char.isDigit = true :=
    List.all_eq_true.mpr fun c hc => isDigit_of_mem_digits hc
  rw [readDigits, hall, digits, Nat.ofDigitChars_ten_toDigits]
  simp

section Padded
variable {width n : Nat} (hwidth : 0 < width) (h : n < 10 ^ width)
include hwidth h

theorem length_padded : (padded width n).length = width := by
  have := (length_digits_le hwidth).mpr h
  rw [padded, List.leftpad, List.length_append, List.length_replicate]
  omega

theorem readDigits_padded : readDigits width (padded width n) = some n := by
  have hall : (padded width n).all Char.isDigit = true := by
    rw [List.all_eq_true, padded, List.leftpad]
    intro c hc
    rcases List.mem_append.mp hc with hc | hc
    · rw [(List.mem_replicate.mp hc).2]
      rfl
    · exact isDigit_of_mem_digits hc
  have hvalue : Nat.ofDigitChars 10 (padded width n) 0 = n := by
    rw [padded, List.leftpad, Nat.ofDigitChars_append, Nat.ofDigitChars_replicate_zero,
      Nat.mul_zero, digits, Nat.ofDigitChars_ten_toDigits]
  rw [readDigits, if_pos ⟨length_padded hwidth h, hall⟩, hvalue]

end Padded

/-! ## Years -/

/-- `String(year)`. -/
def yearChars (year : Int) : List Char :=
  if 0 ≤ year then digits year.toNat else '-' :: digits (-year).toNat

/-- The year as `toISOString` writes it. -/
def isoYearChars (year : Int) : List Char :=
  if 0 ≤ year then
    if year ≤ 9999 then padded 4 year.toNat else '+' :: padded 6 year.toNat
  else '-' :: padded 6 (-year).toNat

/-- The year of a text: four digits, or a sign and six; there is no negative zero. -/
def readYear : List Char → Option Int
  | '+' :: rest => (readDigits 6 rest).map Int.ofNat
  | '-' :: rest => (readDigits 6 rest).bind fun year => if year = 0 then none else some (-year)
  | l => (readDigits 4 l).map Int.ofNat

/-- A year whose plain text is one that is read. -/
def isWritten (year : Int) : Bool :=
  (1000 ≤ year && year ≤ 9999) || (-999999 ≤ year && year ≤ -100000)

theorem readYear_digits {l : List Char} (h : ∀ c ∈ l, c.isDigit = true) :
    readYear l = (readDigits 4 l).map Int.ofNat := by
  unfold readYear
  split
  · exact absurd (h '+' List.mem_cons_self) (by decide)
  · exact absurd (h '-' List.mem_cons_self) (by decide)
  · rfl

theorem readYear_yearChars (year : Int) :
    readYear (yearChars year) = if isWritten year then some year else none := by
  rw [yearChars]
  split
  · rename_i hpos
    rw [readYear_digits fun c hc => isDigit_of_mem_digits hc, readDigits_digits]
    have hlower := @length_digits_le 3 year.toNat (by decide)
    have hupper := @length_digits_le 4 year.toNat (by decide)
    by_cases hwritten : isWritten year = true
    · rw [if_pos hwritten]
      simp only [isWritten, Bool.or_eq_true, Bool.and_eq_true, decide_eq_true_eq] at hwritten
      rw [if_pos (by omega), Option.map_some]
      exact congrArg some (Int.toNat_of_nonneg hpos)
    · rw [if_neg hwritten]
      simp only [isWritten, Bool.or_eq_true, Bool.and_eq_true, decide_eq_true_eq] at hwritten
      rw [if_neg (by omega), Option.map_none]
  · rename_i hneg
    have hlower := @length_digits_le 5 (-year).toNat (by decide)
    have hupper := @length_digits_le 6 (-year).toNat (by decide)
    rw [readYear, readDigits_digits]
    by_cases hwritten : isWritten year = true
    · rw [if_pos hwritten]
      simp only [isWritten, Bool.or_eq_true, Bool.and_eq_true, decide_eq_true_eq] at hwritten
      rw [if_pos (by omega), Option.bind_some, if_neg (by omega)]
      exact congrArg some (by omega)
    · rw [if_neg hwritten]
      simp only [isWritten, Bool.or_eq_true, Bool.and_eq_true, decide_eq_true_eq] at hwritten
      rw [if_neg (by omega), Option.bind_none]

theorem readYear_isoYearChars {year : Int} (h : -999999 ≤ year ∧ year ≤ 999999) :
    readYear (isoYearChars year) = some year := by
  rw [isoYearChars]
  split
  · rename_i hpos
    split
    · rename_i hfour
      have hread : readDigits 4 (padded 4 year.toNat) = some year.toNat :=
        readDigits_padded (by decide) (by omega)
      have hdigits : ∀ c ∈ padded 4 year.toNat, c.isDigit = true := by
        have hread := hread
        rw [readDigits] at hread
        split at hread
        · rename_i hall
          exact List.all_eq_true.mp hall.2
        · cases hread
      rw [readYear_digits hdigits, hread, Option.map_some]
      exact congrArg some (Int.toNat_of_nonneg hpos)
    · rw [readYear, readDigits_padded (by decide) (by omega), Option.map_some]
      exact congrArg some (Int.toNat_of_nonneg hpos)
  · rw [readYear, readDigits_padded (by decide) (by omega), Option.bind_some,
      if_neg (by omega)]
    exact congrArg some (by omega)

/-! ## Dates as text -/

/-- `-MM-DDTHH:mm`. -/
def minuteChars (f : Fields) : List Char :=
  '-' :: padded 2 f.month ++ '-' :: padded 2 f.day ++ 'T' :: padded 2 f.hour ++
    ':' :: padded 2 f.minute

/-- The minute of a text: a year and twelve characters. -/
def readMinute (l : List Char) : Option Int :=
  match l.drop (l.length - 12) with
  | [a, m, m', b, d, d', c, h, h', e, n, n'] =>
    if a = '-' ∧ b = '-' ∧ c = 'T' ∧ e = ':' then do
      let year ← readYear (l.take (l.length - 12))
      let month ← readDigits 2 [m, m']
      let day ← readDigits 2 [d, d']
      let hour ← readDigits 2 [h, h']
      let minute ← readDigits 2 [n, n']
      if isMinute year month day hour minute then some (minuteOf year month day hour minute)
      else none
    else none
  | _ => none

/-- `toISOString`. -/
def isoChars (time : Int) : List Char :=
  let f := fields time
  isoYearChars f.year ++ minuteChars f ++
    (':' :: padded 2 f.second ++ '.' :: padded 3 f.millisecond ++ ['Z'])

/-- The instant of a text: a minute and eight characters. -/
def readInstant (l : List Char) : Option Int :=
  match l.drop (l.length - 8) with
  | [a, s, s', b, m, m', m'', z] =>
    if a = ':' ∧ b = '.' ∧ z = 'Z' then do
      let minute ← readMinute (l.take (l.length - 8))
      let second ← readDigits 2 [s, s']
      let millisecond ← readDigits 3 [m, m', m'']
      if second < 60 then some (minute + second * 1000 + millisecond) else none
    else none
  | _ => none

theorem padded_two {n : Nat} (h : n < 100) :
    ∃ a b, padded 2 n = [a, b] ∧ readDigits 2 [a, b] = some n := by
  obtain ⟨a, b, hab⟩ := List.length_eq_two.mp (@length_padded 2 n (by decide) h)
  exact ⟨a, b, hab, hab ▸ readDigits_padded (by decide) h⟩

theorem padded_three {n : Nat} (h : n < 1000) :
    ∃ a b c, padded 3 n = [a, b, c] ∧ readDigits 3 [a, b, c] = some n := by
  obtain ⟨a, b, c, habc⟩ := List.length_eq_three.mp (@length_padded 3 n (by decide) h)
  exact ⟨a, b, c, habc, habc ▸ readDigits_padded (by decide) h⟩

/-- What is written after a year is read back, if the year is. -/
theorem readMinute_written (year : List Char) (time : Int) :
    readMinute (year ++ minuteChars (fields time)) = (readYear year).bind fun y =>
      if isMinute y (fields time).month (fields time).day (fields time).hour
          (fields time).minute then
        some (minuteOf y (fields time).month (fields time).day (fields time).hour
          (fields time).minute)
      else none := by
  have hvalid := isMinute_fields time
  simp only [isMinute, Bool.and_eq_true, decide_eq_true_eq] at hvalid
  -- a month has at most 31 days, so that two digits hold the day
  have hday : (fields time).day < 100 := by
    have hmonth := @monthStart_succ_le _ (leapDay_bounds (fields time).year)
      ((fields time).month - 1) (by omega)
    rw [Nat.sub_add_cancel (by omega)] at hmonth
    omega
  obtain ⟨m, m', hmonth, hm⟩ := @padded_two (fields time).month (by omega)
  obtain ⟨d, d', hdays, hd⟩ := @padded_two (fields time).day hday
  obtain ⟨h, h', hhour, hh⟩ := @padded_two (fields time).hour (by omega)
  obtain ⟨n, n', hminute, hn⟩ := @padded_two (fields time).minute (by omega)
  have htext : minuteChars (fields time) = ['-', m, m', '-', d, d', 'T', h, h', ':', n, n'] := by
    rw [minuteChars, hmonth, hdays, hhour, hminute]
    rfl
  rw [readMinute, htext, List.length_append]
  simp [hm, hd, hh, hn, Option.bind_eq_bind]

theorem readMinute_of_year {year : List Char} {time : Int}
    (h : readYear year = some (fields time).year) :
    readMinute (year ++ minuteChars (fields time)) = some (time - time % 60000) := by
  rw [readMinute_written, h, Option.bind_some, if_pos (isMinute_fields time), minuteOf_fields]

theorem readMinute_of_no_year {year : List Char} {time : Int} (h : readYear year = none) :
    readMinute (year ++ minuteChars (fields time)) = none := by
  rw [readMinute_written, h, Option.bind_none]

/-- **What `toISOString` writes** is read as the time it was written for. -/
theorem readInstant_isoChars {time : Int}
    (h : -999999 ≤ (fields time).year ∧ (fields time).year ≤ 999999) :
    readInstant (isoChars time) = some time := by
  have hsecond : (fields time).second = (time % 60000 / 1000).toNat := rfl
  have hmillisecond : (fields time).millisecond = (time % 1000).toNat := rfl
  obtain ⟨s, s', hseconds, hs⟩ := @padded_two (fields time).second (by omega)
  obtain ⟨m, m', m'', hmilliseconds, hm⟩ := @padded_three (fields time).millisecond (by omega)
  have hminute := readMinute_of_year (readYear_isoYearChars h)
  have htext : isoChars time = (isoYearChars (fields time).year ++ minuteChars (fields time)) ++
      [':', s, s', '.', m, m', m'', 'Z'] := by
    rw [isoChars, hseconds, hmilliseconds]
    rfl
  have hlt : (fields time).second < 60 := by omega
  rw [readInstant, htext, List.length_append]
  simp only [List.length_cons, List.length_nil, Nat.add_sub_cancel, List.drop_left,
    List.take_left, hminute]
  simp [hs, hm, hlt]
  omega

/-! ## The characters of a date -/

theorem mem_padded {width n : Nat} {c : Char} (h : c ∈ padded width n) : c.isDigit = true := by
  rw [padded, List.leftpad] at h
  rcases List.mem_append.mp h with h | h
  · rw [(List.mem_replicate.mp h).2]
    rfl
  · exact isDigit_of_mem_digits h

theorem mem_isoYearChars {year : Int} {c : Char} (h : c ∈ isoYearChars year) :
    c.isDigit = true ∨ c ∈ ['+', '-'] := by
  unfold isoYearChars at h
  split at h
  · split at h
    · exact Or.inl (mem_padded h)
    · rcases List.mem_cons.mp h with rfl | h
      · exact Or.inr (by decide)
      · exact Or.inl (mem_padded h)
  · rcases List.mem_cons.mp h with rfl | h
    · exact Or.inr (by decide)
    · exact Or.inl (mem_padded h)

/-- The characters of a date are digits, signs and the letters and marks between them. -/
theorem mem_isoChars {time : Int} {c : Char} (h : c ∈ isoChars time) :
    c.isDigit = true ∨ c ∈ ['+', '-', 'T', ':', '.', 'Z'] := by
  simp only [isoChars, minuteChars, List.mem_append, List.mem_cons, List.not_mem_nil,
    or_false] at h
  have hyear : c ∈ isoYearChars (fields time).year →
      c.isDigit = true ∨ c ∈ ['+', '-', 'T', ':', '.', 'Z'] := by
    intro hc
    rcases mem_isoYearChars hc with hdigit | hsign
    · exact Or.inl hdigit
    · exact Or.inr (List.mem_append_left ['T', ':', '.', 'Z'] hsign)
  rcases h with (h | (((rfl | h) | rfl | h) | rfl | h) | rfl | h) | ((rfl | h) | rfl | h) | rfl
  all_goals
    first
    | exact hyear h
    | exact Or.inl (mem_padded h)
    | exact Or.inr (by decide)

/-! ## What a Date can hold -/

/-- A time that a `Date` can hold: a hundred million days on either side of 1970. -/
def IsDate (time : Int) : Prop := -8640000000000000 ≤ time ∧ time ≤ 8640000000000000

instance (time : Int) : Decidable (IsDate time) := inferInstanceAs (Decidable (_ ∧ _))

theorem year_of_isDate {time : Int} (h : IsDate time) :
    -999999 ≤ (fields time).year ∧ (fields time).year ≤ 999999 := by
  obtain ⟨hstart, hnext⟩ := yearOfDay_spec (time / 86400000)
  have hyear : (fields time).year = yearOfDay (time / 86400000) := rfl
  unfold IsDate at h
  unfold dayFromYear at hstart hnext
  omega

/-- What `toISOString` writes ends in `Z`. -/
theorem getLast?_isoChars (time : Int) : (isoChars time).getLast? = some 'Z' := by
  have hlast : isoChars time = (isoYearChars (fields time).year ++ minuteChars (fields time) ++
      (':' :: padded 2 (fields time).second ++ '.' :: padded 3 (fields time).millisecond)) ++
        ['Z'] := by
    simp only [isoChars, List.append_assoc]
  rw [hlast, List.getLast?_concat]

/-- A date without an offset ends in a digit, and not in `Z`. -/
theorem getLast?_minuteChars (year : List Char) (time : Int) :
    (year ++ minuteChars (fields time)).getLast? ≠ some 'Z' := by
  have hvalid := isMinute_fields time
  simp only [isMinute, Bool.and_eq_true, decide_eq_true_eq] at hvalid
  obtain ⟨n, n', hminute, hn⟩ := @padded_two (fields time).minute (by omega)
  have hlast : year ++ minuteChars (fields time) = (year ++ ('-' :: padded 2 (fields time).month ++
      '-' :: padded 2 (fields time).day ++ 'T' :: padded 2 (fields time).hour ++ [':', n])) ++
        [n'] := by
    rw [minuteChars, hminute]
    simp
  rw [hlast, List.getLast?_concat]
  intro h
  obtain rfl := Option.some.inj h
  simp [readDigits] at hn

end Calendar
