import PressLabz.Calendar
import PressLabz.LocalTime

/-! # The date field of the editor

`apps/admin/src/lib/datetime.ts`: the two conversions between a stored instant and what
a `datetime-local` field shows.  A time value is an integer of milliseconds; a text that
has none of the forms of the standard is read as the browser likes (`otherText`).

The field shows no seconds, and the clock may show one minute twice.  An instant comes
back from the field when the minute it shows names it, and only then (`reads_back_iff`).
-/
namespace PressLabz
open Calendar LocalTime

/-- `date.toISOString()`. -/
def toISOString (time : Int) : String := String.ofList (isoChars time)

/-- The browser of an editor. -/
structure Browser where
  zone : Zone
  otherText : String → Option Int

namespace Browser
variable (b : Browser)

/-- `new Date(text)`, none for an invalid date. -/
def newDate (text : String) : Option Int :=
  let time :=
    if text.toList.getLast? = some 'Z' then readInstant text.toList
    else (readMinute text.toList).map b.zone.read
  (time <|> b.otherText text).filter (IsDate ·)

/-- What the getters of a date read, to the minute. -/
def localText (time : Int) : String :=
  let f := fields (wallClock b.zone.offset time)
  String.ofList (yearChars f.year ++ minuteChars f)

def toLocalInput (iso : Option String) : String :=
  match iso.filter (· ≠ "") with
  | none => ""
  | some text =>
    match b.newDate text with
    | none => ""
    | some time => b.localText time

def fromLocalInput (value : String) : Option String :=
  if value = "" then none else (b.newDate value).map toISOString

/-- The field gives the instant back: the year is one that is read and the minute names
the instant, or the browser reads the odd text as it. -/
def ReadsBack (time : Int) : Prop :=
  IsDate time ∧
    if isWritten (fields (wallClock b.zone.offset time)).year then b.zone.Names time
    else b.otherText (b.localText time) = some time

/-! ## What is read of what is written -/

theorem newDate_toISOString {time : Int} (h : IsDate time) :
    b.newDate (toISOString time) = some time := by
  rw [newDate, toISOString, String.toList_ofList, getLast?_isoChars, if_pos rfl,
    readInstant_isoChars (year_of_isDate h)]
  exact Option.filter_eq_some_iff.mpr ⟨rfl, decide_eq_true h⟩

theorem newDate_isDate {text : String} {time : Int} (h : b.newDate text = some time) :
    IsDate time := of_decide_eq_true (Option.filter_eq_some_iff.mp h).2

/-- The local text of a written year reads as a wall clock, that of the minute. -/
theorem newDate_localText {time : Int}
    (h : isWritten (fields (wallClock b.zone.offset time)).year = true) :
    b.newDate (b.localText time) = (some (b.zone.read (b.zone.minute time))).filter (IsDate ·) := by
  have hyear := readYear_yearChars (fields (wallClock b.zone.offset time)).year
  rw [if_pos h] at hyear
  rw [newDate, localText, String.toList_ofList, if_neg (getLast?_minuteChars _ _),
    readMinute_of_year hyear]
  rfl

/-- The local text of any other year is none of the standard's. -/
theorem newDate_otherText {time : Int}
    (h : ¬ isWritten (fields (wallClock b.zone.offset time)).year = true) :
    b.newDate (b.localText time) = (b.otherText (b.localText time)).filter (IsDate ·) := by
  have hyear := readYear_yearChars (fields (wallClock b.zone.offset time)).year
  rw [if_neg h] at hyear
  have hread : readMinute (b.localText time).toList = none := by
    rw [localText, String.toList_ofList]
    exact readMinute_of_no_year hyear
  have hlast : (b.localText time).toList.getLast? ≠ some 'Z' := by
    rw [localText, String.toList_ofList]
    exact getLast?_minuteChars _ _
  rw [newDate, if_neg hlast, hread]
  rfl

/-- **The local text of an instant** is read as the instant exactly where the field reads back. -/
theorem newDate_localText_iff {time : Int} (hdate : IsDate time) :
    b.newDate (b.localText time) = some time ↔ b.ReadsBack time := by
  rw [ReadsBack, ← b.zone.read_minute_iff]
  by_cases hwritten : isWritten (fields (wallClock b.zone.offset time)).year = true
  · rw [newDate_localText b hwritten, if_pos hwritten, Option.filter_eq_some_iff]
    exact ⟨fun h => ⟨hdate, Option.some.inj h.1⟩, fun h => ⟨congrArg some h.2,
      decide_eq_true hdate⟩⟩
  · rw [newDate_otherText b hwritten, if_neg hwritten, Option.filter_eq_some_iff]
    exact ⟨fun h => ⟨hdate, h.1⟩, fun h => ⟨h.2, decide_eq_true hdate⟩⟩

theorem localText_ne_empty (time : Int) : b.localText time ≠ "" := by
  intro h
  have := congrArg String.toList h
  simp [localText, minuteChars] at this

theorem toISOString_ne_empty (time : Int) : toISOString time ≠ "" := by
  intro h
  have := congrArg String.toList h
  simp [toISOString, isoChars] at this

theorem toISOString_inj {s t : Int} (hs : IsDate s) (ht : IsDate t)
    (h : toISOString s = toISOString t) : s = t := by
  have hread := congrArg (fun text => readInstant text.toList) h
  simpa [toISOString, readInstant_isoChars (year_of_isDate hs),
    readInstant_isoChars (year_of_isDate ht)] using hread

/-- What the field sends for a stored instant is what `new Date` makes of the text it shows. -/
theorem fromLocalInput_toLocalInput {time : Int} (hdate : IsDate time) :
    b.fromLocalInput (b.toLocalInput (some (toISOString time))) =
      (b.newDate (b.localText time)).map toISOString := by
  have hsome : (some (toISOString time)).filter (fun text => text ≠ "") =
      some (toISOString time) := by
    simp [toISOString_ne_empty]
  rw [toLocalInput, hsome]
  simp only [b.newDate_toISOString hdate]
  rw [fromLocalInput, if_neg (b.localText_ne_empty time)]

/-- **Open and save** gives an instant back exactly when its minute names it. -/
theorem reads_back_iff {time : Int} (hdate : IsDate time) :
    b.fromLocalInput (b.toLocalInput (some (toISOString time))) = some (toISOString time) ↔
      b.ReadsBack time := by
  rw [b.fromLocalInput_toLocalInput hdate, ← b.newDate_localText_iff hdate,
    Option.map_eq_some_iff]
  constructor
  · rintro ⟨read, hread, hsame⟩
    exact hread.trans (congrArg some (toISOString_inj (b.newDate_isDate hread) hdate hsame))
  · intro hread
    exact ⟨time, hread, rfl⟩

/-- Where the clock shows the minute, seconds are lost, and so is the second of two hours
that look the same. -/
theorem reads_back_iff_of_shown {time j : Int} (hdate : IsDate time)
    (hwritten : isWritten (fields (wallClock b.zone.offset time)).year = true)
    (hshown : wallClock b.zone.offset j = b.zone.minute time) :
    b.fromLocalInput (b.toLocalInput (some (toISOString time))) = some (toISOString time) ↔
      wallClock b.zone.offset time % 60000 = 0 ∧
        ∀ k, wallClock b.zone.offset k = wallClock b.zone.offset time → time ≤ k := by
  rw [b.reads_back_iff hdate, ReadsBack, if_pos hwritten, b.zone.names_iff_of_shown hshown]
  exact and_iff_right hdate

end Browser
end PressLabz
