import PressLabz.BuiltinTypes
import PressLabz.Render
import PressLabz.Utf16
import PressLabz.Words

/-! # Suggested slugs

`slugify` of `packages/core/src/slug.ts` over the code units of a title.  What Unicode decides
(`normalize('NFKD')`, `\p{Diacritic}`, `toLowerCase`) is a parameter that leaves a text of small
letters, digits and hyphens alone.  The cut at 120 can fall into a run or behind a hyphen; both
times what is left is a piece of a text with single hyphens, and its ends are trimmed.
-/
namespace PressLabz
open Words Utf16

/-! ## The schema -/

/-- `[a-z0-9]`. -/
def isSlugUnit (u : CodeUnit) : Bool := (0x61 ≤ u && u ≤ 0x7A) || (0x30 ≤ u && u ≤ 0x39)

def hyphen : CodeUnit := 0x2D

/-- `SLUG_PATTERN`. -/
def slugPattern (slug : List CodeUnit) : Bool :=
  (slug.splitOn hyphen).all fun run => run ≠ [] && run.all isSlugUnit

/-- `slugSchema`, on a text. -/
def slugSchema (slug : List CodeUnit) : Bool :=
  1 ≤ slug.length && slug.length ≤ 120 && slugPattern slug

/-! ## The suggestion -/

/-- A text over `[a-z0-9-]`. -/
def IsPlain (text : List CodeUnit) : Prop := ∀ u ∈ text, isSlugUnit u = true ∨ u = hyphen

/-- What Unicode does to a title. -/
structure Transliteration where
  /-- `normalize('NFKD')` -/
  normalize : List CodeUnit → List CodeUnit
  /-- `replace(/\p{Diacritic}/gu, '')` -/
  removeDiacritics : List CodeUnit → List CodeUnit
  toLowerCase : List CodeUnit → List CodeUnit
  normalize_plain : ∀ text, IsPlain text → normalize text = text
  removeDiacritics_plain : ∀ text, IsPlain text → removeDiacritics text = text
  toLowerCase_plain : ∀ text, IsPlain text → toLowerCase text = text

section
variable (t : Transliteration)

def Transliteration.fold (title : List CodeUnit) : List CodeUnit :=
  t.toLowerCase (t.removeDiacritics (t.normalize title))

def slugify (title : List CodeUnit) : List CodeUnit :=
  trimEnd hyphen
    ((trimEnds hyphen (replaceRuns isSlugUnit hyphen (t.fold title))).take 120)

/-! ## What it makes -/

theorem slugPattern_iff (slug : List CodeUnit) :
    slugPattern slug = true ↔ slug ≠ [] ∧ Delimited isSlugUnit hyphen slug := by
  simp only [← splitOn_runs_iff, slugPattern, List.all_eq_true, Bool.and_eq_true,
    decide_eq_true_eq]

theorem slugSchema_iff (slug : List CodeUnit) :
    slugSchema slug = true ↔
      slug ≠ [] ∧ slug.length ≤ 120 ∧ Delimited isSlugUnit hyphen slug := by
  simp only [slugSchema, Bool.and_eq_true, decide_eq_true_eq, slugPattern_iff]
  constructor
  · rintro ⟨⟨-, hlen⟩, hne, hdelimited⟩
    exact ⟨hne, hlen, hdelimited⟩
  · rintro ⟨hne, hlen, hdelimited⟩
    exact ⟨⟨List.length_pos_iff.mpr hne, hlen⟩, hne, hdelimited⟩

theorem Transliteration.fold_plain {text : List CodeUnit} (h : IsPlain text) :
    t.fold text = text := by
  rw [fold, t.normalize_plain text h, t.removeDiacritics_plain text h, t.toLowerCase_plain text h]

theorem length_slugify (title : List CodeUnit) : (slugify t title).length ≤ 120 :=
  (trimEnd_start _).length_le.trans (List.length_take_le 120 _)

theorem delimited_slugify (title : List CodeUnit) : Delimited isSlugUnit hyphen (slugify t title) :=
  delimited_trimEnd_take (separated_replaceRuns (by decide) _) 120

theorem slugify_eq_self {slug : List CodeUnit} (hlen : slug.length ≤ 120)
    (h : Delimited isSlugUnit hyphen slug) : slugify t slug = slug := by
  rw [slugify, t.fold_plain h.plain, replaceRuns_eq (by decide) h.toSeparated, trimEnds_eq h,
    List.take_of_length_le hlen, trimEnd_eq h.last]

/-- A suggestion is empty or a slug, and a slug is its own suggestion. -/
theorem slugify_valid_stable (title : List CodeUnit) :
    (slugify t title = [] ∨ slugSchema (slugify t title) = true) ∧
      (∀ slug, slugSchema slug = true → slugify t slug = slug) ∧
      slugify t (slugify t title) = slugify t title := by
  refine ⟨?_, fun slug hslug => ?_, ?_⟩
  · by_cases hne : slugify t title = []
    · exact .inl hne
    · exact .inr ((slugSchema_iff _).mpr ⟨hne, length_slugify t title, delimited_slugify t title⟩)
  · obtain ⟨-, hlen, hdelimited⟩ := (slugSchema_iff slug).mp hslug
    exact slugify_eq_self t hlen hdelimited
  · exact slugify_eq_self t (length_slugify t title) (delimited_slugify t title)

end

/-- Titles without marks of their own: only the capital letters are folded. -/
def capitals : Transliteration where
  normalize := id
  removeDiacritics := id
  toLowerCase := List.map fun u => if 0x41 ≤ u ∧ u ≤ 0x5A then u + 0x20 else u
  normalize_plain := fun _ _ => rfl
  removeDiacritics_plain := fun _ _ => rfl
  toLowerCase_plain := by
    intro text h
    refine (List.map_congr_left fun u hu => ?_).trans (List.map_id text)
    have hnot : ¬ (0x41 ≤ u ∧ u ≤ 0x5A) := by
      rcases h u hu with hu | rfl
      · simp only [isSlugUnit, Bool.or_eq_true, Bool.and_eq_true, decide_eq_true_eq] at hu
        grind
      · decide
    rw [if_neg hnot, id]

theorem slugify_capitals :
    slugify capitals (textUnits "  Hello  world! ") = textUnits "hello-world" ∧
      (slugify capitals (textUnits "A?") = [] ∨ slugSchema (slugify capitals (textUnits "A?")) = true) :=
  ⟨by decide +kernel, (slugify_valid_stable capitals (textUnits "A?")).1⟩

/-! ## The slugs of the documents -/

def unitOf (c : Char) : CodeUnit := c.toNat.toUInt16

theorem isSlugUnit_unitOf {c : Char} (hc : c.toNat < 0x10000) :
    isSlugUnit (unitOf c) = isSlugCharacter c := by
  have hunit : (unitOf c).toNat = c.toNat := Utf16.toNat_toUInt16 hc
  simp only [isSlugUnit, isSlugCharacter, UInt16.le_iff_toNat_le, Char.le_def,
    UInt32.le_iff_toNat_le, hunit]
  rfl

theorem unitOf_eq_hyphen {c : Char} (hc : c.toNat < 0x10000) : unitOf c = hyphen ↔ c = '-' := by
  have hunit : (unitOf c).toNat = c.toNat := Utf16.toNat_toUInt16 hc
  rw [← UInt16.toNat_inj, hunit, ← Char.toNat_inj]
  rfl

theorem textUnits_eq_map {text : String} (h : ∀ c ∈ text.toList, c.toNat < 0x10000) :
    textUnits text = text.toList.map unitOf := by
  rw [textUnits]
  generalize text.toList = chars at h
  induction chars with
  | nil => rfl
  | cons c s ih =>
    obtain ⟨hc, hs⟩ := List.forall_mem_cons.mp h
    rw [List.flatMap_cons, List.map_cons, unitsOf, if_pos hc, ih hs]
    rfl

/-- A character past the first plane begins with a surrogate, which no slug holds. -/
theorem first_plane_of_plain {text : String} (h : IsPlain (textUnits text)) :
    ∀ c ∈ text.toList, c.toNat < 0x10000 := by
  intro c hc
  by_contra hplane
  have hrange : c.toNat < 0x110000 := by
    have hvalid := c.valid
    unfold Char.toNat
    grind
  have hfirst : (0xD800 + (c.toNat - 0x10000) / 0x400).toUInt16 ∈ textUnits text :=
    List.mem_flatMap.mpr ⟨c, hc, by simp [unitsOf, hplane]⟩
  have hvalue := Utf16.toNat_toUInt16 (show 0xD800 + (c.toNat - 0x10000) / 0x400 < 0x10000 by omega)
  rcases h _ hfirst with hslug | heq
  · simp only [isSlugUnit, Bool.or_eq_true, Bool.and_eq_true, decide_eq_true_eq,
      UInt16.le_iff_toNat_le, hvalue] at hslug
    have h7A : UInt16.toNat 0x7A = 0x7A := rfl
    have h39 : UInt16.toNat 0x39 = 0x39 := rfl
    omega
  · rw [← UInt16.toNat_inj, hvalue] at heq
    have h2D : UInt16.toNat hyphen = 0x2D := rfl
    omega

/-- `slugSchema` is the test the documents are stored under. -/
theorem slugSchema_textUnits (slug : String) : slugSchema (textUnits slug) = isSlug slug := by
  have hchars : ((slug.toList.splitOn '-').all fun run => run ≠ [] && run.all isSlugCharacter) =
      true ↔ slug.toList ≠ [] ∧ Delimited isSlugCharacter '-' slug.toList := by
    simp only [← splitOn_runs_iff, List.all_eq_true, Bool.and_eq_true, decide_eq_true_eq]
  have hpattern : slugPattern (textUnits slug) =
      (slug.toList.splitOn '-').all fun run => run ≠ [] && run.all isSlugCharacter := by
    rw [Bool.eq_iff_iff, slugPattern_iff, hchars]
    -- either side holds characters of the first plane only
    by_cases hplane : ∀ c ∈ slug.toList, c.toNat < 0x10000
    · rw [textUnits_eq_map hplane, Ne, List.map_eq_nil_iff, delimited_map
        (fun c hc => isSlugUnit_unitOf (hplane c hc)) fun c hc => unitOf_eq_hyphen (hplane c hc)]
    · constructor
      · rintro ⟨-, hunits⟩
        exact absurd (first_plane_of_plain hunits.plain) hplane
      · rintro ⟨-, hslug⟩
        refine absurd (fun c hc => ?_) hplane
        rcases hslug.plain c hc with hkind | rfl
        · simp only [isSlugCharacter, Bool.or_eq_true, Bool.and_eq_true, decide_eq_true_eq,
            Char.le_def, UInt32.le_iff_toNat_le] at hkind
          have hz : 'z'.val.toNat = 122 := rfl
          have h9 : '9'.val.toNat = 57 := rfl
          unfold Char.toNat
          omega
        · decide
  rw [slugSchema, isSlug, length_textUnits, hpattern]

end PressLabz
