import PressLabz.Base64
import PressLabz.EditorDates
import PressLabz.IpAddress
import PressLabz.Utf16
import PressLabz.Words

/-! # Cursors, as texts

`packages/core/src/cursor.ts`: an instant and an id, in base64url.  What is written is read
back; what is read is more than what is written, for `atob` does not mind padding, blanks, the
other alphabet and bits left over, and `new Date` reads more than the texts of `toISOString`
(`cursor_codec`).
-/
namespace PressLabz.CursorTexts
open Base64 Calendar

/-- The position a listing goes on from; `at` is in milliseconds. -/
structure Cursor where
  at_ : Int
  id : String
  deriving DecidableEq

/-- `new Date(text)`, none for an invalid date.  The language fixes what it makes of the texts
of `toISOString`, and leaves others to the engine. -/
structure DateReader where
  newDate : String → Option Int
  isDate : ∀ text time, newDate text = some time → IsDate time
  newDate_toISOString : ∀ time, IsDate time → newDate (toISOString time) = some time

/-- An engine, and its time zone. -/
def engineDates (b : Browser) : DateReader :=
  ⟨b.newDate, fun _ _ => b.newDate_isDate, fun _ => b.newDate_toISOString⟩

/-- The characters between the hyphens of a UUID. -/
def isUuidOf (hex : Char → Bool) (id : String) : Bool :=
  decide ((id.toList.splitOn '-').map List.length = [8, 4, 4, 4, 12]) &&
    (id.toList.splitOn '-').all (·.all hex)

/-- `UUID`, which has the flag `i`. -/
def isUuid : String → Bool := isUuidOf Net.isHexDigit

def isLowerHexDigit (c : Char) : Bool := c.isDigit || decide ('a' ≤ c ∧ c ≤ 'f')

/-- A UUID as the database writes it. -/
def isLowerUuid : String → Bool := isUuidOf isLowerHexDigit

/-! ## base64url -/

/-- The string of some bytes, each a character. -/
def textOf (bytes : List Nat) : String := String.ofList (bytes.map Char.ofNat)

/-- `toBase64Url`, none where `btoa` throws: a character is no byte. -/
def toBase64Url (value : String) : Option String :=
  if value.toList.all fun c => c.toNat < 256 then
    let text := (btoa (value.toList.map Char.toNat)).map toUrlChar
    some (String.ofList (Words.trimEnd '=' text))
  else none

def fromBase64Url (value : String) : Option String :=
  (atob (value.toList.map ofUrlChar)).map textOf

/-- `encodeCursor`, none where `toISOString` or `btoa` throws. -/
def encodeCursor (cursor : Cursor) : Option String :=
  if IsDate cursor.at_ then toBase64Url (toISOString cursor.at_ ++ "|" ++ cursor.id) else none

/-- The two parts of a decoded text. -/
def partsOf (value : String) : Option (String × String) :=
  (fromBase64Url value).bind fun decoded =>
    (Words.splitLast '|' decoded.toList).map fun parts =>
      (String.ofList parts.1, String.ofList parts.2)

def decodeCursor (dates : DateReader) (value : String) : Option Cursor :=
  match partsOf value with
  | none => none
  | some (instant, id) =>
    match dates.newDate instant with
    | none => none
    | some time => if isUuid id then some ⟨time, id⟩ else none

/-! ## What is written is read back -/

section Texts
variable {bytes : List Nat}

theorem toNat_ofNat {n : Nat} (h : n < 256) : (Char.ofNat n).toNat = n :=
  Utf16.toNat_ofNat (.inl (h.trans (by decide)))

theorem textOf_toNat (text : String) : textOf (text.toList.map Char.toNat) = text := by
  rw [textOf, List.map_map]
  have hid : Char.ofNat ∘ Char.toNat = id := funext Char.ofNat_toNat
  rw [hid, List.map_id, String.ofList_toList]

theorem toNat_textOf (h : ∀ b ∈ bytes, b < 256) :
    (textOf bytes).toList.map Char.toNat = bytes := by
  rw [textOf, String.toList_ofList, List.map_map]
  exact (List.map_congr_left fun b hb => toNat_ofNat (h b hb)).trans (List.map_id bytes)

/-- `toBase64Url` writes some bytes in base64url, without the padding. -/
theorem toBase64Url_textOf (h : ∀ b ∈ bytes, b < 256) :
    toBase64Url (textOf bytes) = some (String.ofList (url bytes)) := by
  have hall : ((textOf bytes).toList.all fun c => c.toNat < 256) = true := by
    rw [textOf, String.toList_ofList, List.all_map, List.all_eq_true]
    intro b hb
    rw [Function.comp, toNat_ofNat (h b hb)]
    exact decide_eq_true (h b hb)
  have hmap : (sextets bytes).map (toUrlChar ∘ standardChar) = url bytes :=
    List.map_congr_left fun d hd => toUrlChar_standardChar d (sextets_lt h d hd)
  have hpad (n : Nat) : (List.replicate n '=').map toUrlChar = List.replicate n '=' := by
    rw [List.map_replicate]
    rfl
  have hlast : (url bytes).getLast? ≠ some '=' := by
    intro hlast
    obtain ⟨d, hd, heq⟩ := List.mem_map.mp (List.mem_of_getLast? hlast)
    exact (urlChar_plain d (sextets_lt h d hd)).1 heq
  rw [toBase64Url, if_pos hall, toNat_textOf h, btoa, List.map_append, List.map_map, hmap, hpad]
  simp only [Words.trimEnd_replicate, Words.trimEnd_eq hlast]

/-- **What is written in base64url is read back.** -/
theorem fromBase64Url_url (h : ∀ b ∈ bytes, b < 256) :
    fromBase64Url (String.ofList (url bytes)) = some (textOf bytes) := by
  have hmap : (url bytes).map ofUrlChar = (sextets bytes).map standardChar := by
    rw [url, List.map_map]
    exact List.map_congr_left fun d hd => ofUrlChar_urlChar d (sextets_lt h d hd)
  rw [fromBase64Url, String.toList_ofList, hmap,
    atob_digits (sextets_lt h) (flush_sextets bytes), octets_sextets h, Option.map_some]

end Texts

/-! ## What is read -/

section Reading
variable {dates : DateReader} {value instant id : String} {cursor : Cursor} {time : Int}

/-- A text that was written: the part before the bar is one of `toISOString`, and the
base64url is as it is written. -/
def Written (value : String) : Prop :=
  IsUrl value.toList ∧ ∃ time, IsDate time ∧ (partsOf value).map Prod.fst = some (toISOString time)

theorem isHexDigit_lt {c : Char} (h : Net.isHexDigit c = true) : c.toNat < 103 := by
  simp only [Net.isHexDigit, Bool.or_eq_true, decide_eq_true_eq, Char.isDigit, Bool.and_eq_true]
    at h
  rcases h with (h | h) | h
  · exact Nat.lt_of_le_of_lt h.2 (by decide)
  · exact Nat.lt_of_le_of_lt h.2 (by decide)
  · exact Nat.lt_of_le_of_lt h.2 (by decide)

theorem isUuid_lt (h : isUuid id = true) : ∀ c ∈ id.toList, c.toNat < 103 := by
  rw [isUuid, isUuidOf, Bool.and_eq_true, List.all_eq_true] at h
  refine Net.forall_of_splitOn (fun part hpart c hc => ?_) (by decide : '-'.toNat < 103)
  exact isHexDigit_lt (List.all_eq_true.mp (h.2 part hpart) c hc)

theorem bar_not_mem_id (h : isUuid id = true) : '|' ∉ id.toList :=
  fun hmem => absurd (isUuid_lt h _ hmem) (by decide)

theorem instant_lt (time : Int) : ∀ c ∈ (toISOString time).toList, c.toNat < 103 := by
  intro c hc
  rw [toISOString, String.toList_ofList] at hc
  rcases mem_isoChars hc with hdigit | hsign
  · exact isHexDigit_lt (by rw [Net.isHexDigit, hdigit, Bool.true_or, Bool.true_or])
  · simp only [List.mem_cons, List.not_mem_nil, or_false] at hsign
    rcases hsign with rfl | rfl | rfl | rfl | rfl | rfl
    all_goals decide

theorem isUuid_of_isLowerUuid (h : isLowerUuid id = true) : isUuid id = true := by
  simp only [isLowerUuid, isUuid, isUuidOf, Bool.and_eq_true, List.all_eq_true] at h ⊢
  refine ⟨h.1, fun part hpart c hc => ?_⟩
  have hc := h.2 part hpart c hc
  rw [isLowerHexDigit] at hc
  rw [Net.isHexDigit, hc, Bool.true_or]

theorem decodeCursor_eq_some : decodeCursor dates value = some cursor ↔
    ∃ instant, partsOf value = some (instant, cursor.id) ∧
      dates.newDate instant = some cursor.at_ ∧ isUuid cursor.id = true := by
  unfold decodeCursor
  cases hparts : partsOf value with
  | none => simp
  | some parts =>
    obtain ⟨instant, id⟩ := parts
    cases hdate : dates.newDate instant with
    | none =>
      refine iff_of_false (by simp [hdate]) ?_
      rintro ⟨instant', heq, hdate', -⟩
      cases heq
      rw [hdate] at hdate'
      cases hdate'
    | some time =>
      by_cases hid : isUuid id = true
      · simp only [hdate, if_pos hid]
        constructor
        · rintro ⟨⟩
          exact ⟨instant, rfl, hdate, hid⟩
        · rintro ⟨instant', heq, hdate', -⟩
          cases heq
          rw [hdate] at hdate'
          cases hdate'
          rfl
      · refine iff_of_false (by simp [hdate, hid]) ?_
        rintro ⟨instant', heq, -, hid'⟩
        cases heq
        exact hid hid'

/-- **The text of a cursor**, and the parts that are read of it. -/
theorem encodeCursor_eq (hdate : IsDate time) (hid : isUuid id = true) :
    ∃ bytes, (∀ b ∈ bytes, b < 256) ∧ textOf bytes = toISOString time ++ "|" ++ id ∧
      encodeCursor ⟨time, id⟩ = some (String.ofList (url bytes)) ∧
      partsOf (String.ofList (url bytes)) = some (toISOString time, id) := by
  let text := toISOString time ++ "|" ++ id
  have hlist : text.toList = (toISOString time).toList ++ '|' :: id.toList := by simp [text]
  have hlt : ∀ b ∈ text.toList.map Char.toNat, b < 256 := by
    intro b hb
    obtain ⟨c, hc, rfl⟩ := List.mem_map.mp hb
    rw [hlist, List.mem_append, List.mem_cons] at hc
    rcases hc with hc | rfl | hc
    · exact (instant_lt time c hc).trans (by decide)
    · decide
    · exact (isUuid_lt hid c hc).trans (by decide)
  have htext : textOf (text.toList.map Char.toNat) = text := textOf_toNat text
  have hsplit : Words.splitLast '|' text.toList = some ((toISOString time).toList, id.toList) :=
    Words.splitLast_eq_some.mpr ⟨hlist, bar_not_mem_id hid⟩
  refine ⟨text.toList.map Char.toNat, hlt, htext, ?_, ?_⟩
  · rw [encodeCursor, if_pos hdate, ← toBase64Url_textOf hlt, htext]
  · rw [partsOf, fromBase64Url_url hlt, htext, Option.bind_some, hsplit]
    simp only [Option.map_some, String.ofList_toList]

/-- **What is written is read back.** -/
theorem decodeCursor_encodeCursor (hdate : IsDate time) (hid : isUuid id = true) :
    ∃ value, encodeCursor ⟨time, id⟩ = some value ∧
      decodeCursor dates value = some ⟨time, id⟩ := by
  obtain ⟨bytes, -, -, hencode, hparts⟩ := encodeCursor_eq hdate hid
  exact ⟨_, hencode,
    decodeCursor_eq_some.mpr ⟨_, hparts, dates.newDate_toISOString time hdate, hid⟩⟩

theorem textOf_of_parts {text : String} (hparts : partsOf value = some (instant, id))
    (htext : fromBase64Url value = some text) :
    text.toList = instant.toList ++ '|' :: id.toList := by
  rw [partsOf, htext, Option.bind_some, Option.map_eq_some_iff] at hparts
  obtain ⟨parts, hsplit, heq⟩ := hparts
  have hlist := (Words.splitLast_eq_some (a := parts.1) (b := parts.2)).mp hsplit
  obtain ⟨rfl, rfl⟩ := Prod.mk.inj heq
  rw [hlist.1, String.toList_ofList, String.toList_ofList]

/-- **A text that is read** is what its cursor is written as exactly if it is base64url with
an instant as `toISOString` writes it. -/
theorem encodeCursor_decodeCursor (h : decodeCursor dates value = some cursor) :
    encodeCursor cursor = some value ↔ Written value := by
  obtain ⟨instant, hparts, hread, hid⟩ := decodeCursor_eq_some.mp h
  have hdate := dates.isDate _ _ hread
  obtain ⟨bytes, hlt, htext, hencode, hparts'⟩ := encodeCursor_eq hdate hid
  rw [show cursor = ⟨cursor.at_, cursor.id⟩ from rfl, hencode, Option.some.injEq]
  constructor
  · rintro rfl
    refine ⟨?_, cursor.at_, hdate, by rw [hparts', Option.map_some]⟩
    rw [String.toList_ofList]
    exact isUrl_iff.mpr ⟨bytes, hlt, rfl⟩
  · rintro ⟨hurl, time, htime, hinstant⟩
    obtain ⟨bytes', hlt', hvalue⟩ := isUrl_iff.mp hurl
    have hsame : instant = toISOString time := by simpa [hparts] using hinstant
    have htime' : time = cursor.at_ := by
      have hread' := dates.newDate_toISOString time htime
      rw [← hsame, hread] at hread'
      exact (Option.some.inj hread').symm
    have hdecoded : fromBase64Url value = some (textOf bytes') := by
      rw [← fromBase64Url_url hlt', ← hvalue, String.ofList_toList]
    have htext' : textOf bytes' = textOf bytes := by
      rw [htext, ← String.toList_inj, textOf_of_parts hparts hdecoded, hsame, htime']
      simp
    have hbytes : bytes' = bytes := by
      rw [← toNat_textOf hlt', htext', toNat_textOf hlt]
    rw [← hbytes, ← hvalue, String.ofList_toList]

end Reading
/-- A text that the API can issue: of a date, and a UUID as the database writes it. -/
def Issued (value : String) : Prop :=
  ∃ cursor : Cursor, IsDate cursor.at_ ∧ isLowerUuid cursor.id = true ∧
    encodeCursor cursor = some value

/-- **The codec of the cursors.**  What is written is read back.  Of the texts that are read, the
ones that are written are those in base64url with an instant as `toISOString` writes it, and the
ones that the API issues have an id in lower case besides. -/
theorem cursor_codec (dates : DateReader) :
    (∀ time id, IsDate time → isLowerUuid id = true →
      ∃ value, encodeCursor ⟨time, id⟩ = some value ∧
        decodeCursor dates value = some ⟨time, id⟩) ∧
    (∀ value cursor, decodeCursor dates value = some cursor →
      (encodeCursor cursor = some value ↔ Written value)) ∧
    ∀ value, decodeCursor dates value ≠ none →
      (Issued value ↔ Written value ∧
        ∃ id, (partsOf value).map Prod.snd = some id ∧ isLowerUuid id = true) := by
  refine ⟨?_, ?_, ?_⟩
  · intro time id hdate hid
    exact decodeCursor_encodeCursor hdate (isUuid_of_isLowerUuid hid)
  · intro value cursor h
    exact encodeCursor_decodeCursor h
  · intro value h
    obtain ⟨cursor, hcursor⟩ := Option.ne_none_iff_exists'.mp h
    obtain ⟨instant, hparts, hread, -⟩ := decodeCursor_eq_some.mp hcursor
    have hid : (partsOf value).map Prod.snd = some cursor.id := by rw [hparts, Option.map_some]
    rw [← encodeCursor_decodeCursor hcursor]
    constructor
    · rintro ⟨⟨time, id⟩, hdate, hlower, hencode⟩
      obtain ⟨value', hencode', hdecode⟩ : ∃ value', encodeCursor ⟨time, id⟩ = some value' ∧
          decodeCursor dates value' = some ⟨time, id⟩ :=
        decodeCursor_encodeCursor hdate (isUuid_of_isLowerUuid hlower)
      rw [hencode, Option.some.injEq] at hencode'
      rw [← hencode', hcursor, Option.some.injEq] at hdecode
      rw [hdecode] at hid ⊢
      exact ⟨hencode, id, hid, hlower⟩
    · rintro ⟨hencode, id, hid', hlower⟩
      rw [hid, Option.some.injEq] at hid'
      exact ⟨cursor, dates.isDate _ _ hread, hid' ▸ hlower, hencode⟩

/-- A cursor of the API with padding at its end is read as without. -/
theorem padded_cursor_is_read :
    let value := "MjAyNi0wOC0yMFQxNDozMDowMC4wMDBafDBmNGQxYzNlLTZiMmEtNGQ4Zi05YzFlLTVhN2IzZDJlOGYxMA"
    let cursor : Cursor := ⟨1787236200000, "0f4d1c3e-6b2a-4d8f-9c1e-5a7b3d2e8f10"⟩
    encodeCursor cursor = some value ∧
      ∀ dates : DateReader, decodeCursor dates (value ++ "==") = some cursor := by
  refine ⟨by decide +kernel, fun dates => ?_⟩
  have hread := dates.newDate_toISOString 1787236200000 (by decide)
  have htext : toISOString 1787236200000 = "2026-08-20T14:30:00.000Z" := by decide +kernel
  rw [htext] at hread
  exact decodeCursor_eq_some.mpr
    ⟨"2026-08-20T14:30:00.000Z", by decide +kernel, hread, by decide +kernel⟩

end PressLabz.CursorTexts
