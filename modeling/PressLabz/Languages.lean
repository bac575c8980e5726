import PressLabz.IpAddress
import PressLabz.Ranking
import PressLabz.SiteLinks

/-! # The languages of a site and of its readers

`packages/i18n`: the languages that a site is started with (`resolveLocaleConfig`), and the
one that `negotiateLocale` picks of them for a reader.  `pages/index.astro` sends the reader
on to the home page of that language, which is there (`root_home`).
-/
namespace PressLabz
open Net (trim)
open Ranking

/-! ## The language of a reader -/

/-- `split` by one character. -/
def splitText (separator : Char) (text : String) : List String :=
  (text.toList.splitOn separator).map String.ofList

/-- How a header is read: `Number.parseFloat`, where none is not a number, and
`toLowerCase`. -/
structure HeaderTexts (Q : Type) where
  parseFloat : String → Option Q
  toLowerCase : String → String

structure LanguageRange (Q : Type) where
  tag : String
  quality : Q

section Negotiation
variable {Q : Type} [LinearOrder Q] [Zero Q] [One Q] (texts : HeaderTexts Q)

/-- The value of a parameter `q`. -/
def qualityText (param : String) : Option String :=
  match (trim param).toList with
  | 'q' :: '=' :: value => some (String.ofList value)
  | _ => none

/-- One part of the header: a tag, and how much it is wanted. -/
def languageRange (part : String) : LanguageRange Q :=
  let fields := splitText ';' (trim part)
  { tag := texts.toLowerCase (trim (fields.head?.getD ""))
    quality :=
      match (fields.drop 1).findSome? qualityText with
      | some value => (texts.parseFloat value).getD 0
      | none => 1 }

/-- The ranges that are asked for, as they stand in the header. -/
def askedRanges (acceptLanguage : String) : List (LanguageRange Q) :=
  ((splitText ',' acceptLanguage).map (languageRange texts)).filter fun entry =>
    entry.tag ≠ "" && 0 < entry.quality

/-- `serves`. -/
def servesLocale (supported : List String) (value : String) : Bool :=
  value ∈ LOCALES && value ∈ supported

/-- The language of a range: the tag, or what stands before its first dash. -/
def servedLanguage (supported : List String) (tag : String) : Option String :=
  if servesLocale supported tag then some tag
  else (splitText '-' tag).head?.filter (servesLocale supported)

def fallbackLocale (supported : List String) : String :=
  if DEFAULT_LOCALE ∈ supported then DEFAULT_LOCALE else supported.head?.getD ""

def negotiateLocale (acceptLanguage : Option String) (supported : List String) : String :=
  match acceptLanguage.filter (· ≠ "") with
  | none => fallbackLocale supported
  | some acceptLanguage =>
    ((ranked (·.quality) (askedRanges texts acceptLanguage)).findSome? fun entry =>
      servedLanguage supported entry.tag).getD (fallbackLocale supported)

end Negotiation

/-! ## The languages of a site -/

/-- What `resolveLocaleConfig` returns. -/
structure LocaleConfig where
  locales : List String
  defaultLocale : String
  known : ∀ locale ∈ locales, locale ∈ LOCALES
  distinct : locales.Nodup
  supported : defaultLocale ∈ locales

def SUPPORTED_LOCALES_MESSAGE : String :=
  "SUPPORTED_LOCALES must be a comma-separated subset of: " ++ ", ".intercalate LOCALES

def parseLocaleList (value : String) : Except String (List String) :=
  let parts := ((splitText ',' value).map trim).filter (· ≠ "")
  if parts.length = 0 ∨ ¬ ∀ part ∈ parts, part ∈ LOCALES then .error SUPPORTED_LOCALES_MESSAGE
  else .ok parts.eraseDups

theorem nodup_eraseDups (l : List String) : l.eraseDups.Nodup := by
  induction hlength : l.length using Nat.strongRecOn generalizing l with
  | ind n ih =>
    cases l with
    | nil => exact List.nodup_nil
    | cons a rest =>
      have hless := List.length_filter_le (fun b => !b == a) rest
      rw [List.length_cons] at hlength
      rw [List.eraseDups_cons, List.nodup_cons]
      refine ⟨fun hmem => ?_, ih _ (by omega) _ rfl⟩
      simpa using (List.mem_filter.mp (List.mem_eraseDups.mp hmem)).2

theorem parseLocaleList_ok {value : String} {locales : List String}
    (h : parseLocaleList value = .ok locales) :
    (∀ locale ∈ locales, locale ∈ LOCALES) ∧ locales.Nodup := by
  unfold parseLocaleList at h
  dsimp only at h
  split at h
  · cases h
  · rename_i hparts
    cases h
    push Not at hparts
    exact ⟨fun locale hlocale => hparts.2 locale (List.mem_eraseDups.mp hlocale),
      nodup_eraseDups _⟩

/-- Both variables are read together: a default has to be supported. -/
def resolveLocaleConfig (supported default : Option String) : Except String LocaleConfig :=
  match h : parseLocaleList (supported.getD (",".intercalate LOCALES)) with
  | .error message => .error message
  | .ok locales =>
    if default.getD DEFAULT_LOCALE ∉ LOCALES then
      .error "DEFAULT_LOCALE is not a known locale"
    else if hdefault : default.getD DEFAULT_LOCALE ∉ locales then
      .error "DEFAULT_LOCALE must be listed in SUPPORTED_LOCALES"
    else
      .ok
        { locales := locales
          defaultLocale := default.getD DEFAULT_LOCALE
          known := (parseLocaleList_ok h).1
          distinct := (parseLocaleList_ok h).2
          supported := not_not.mp hdefault }

/-! ## What a reader gets -/

section Readers
variable {Q : Type} [LinearOrder Q] [Zero Q] [One Q] (texts : HeaderTexts Q)

/-- The ranges that a header asks for, if there is one. -/
def askedOf (acceptLanguage : Option String) : List (LanguageRange Q) :=
  ((acceptLanguage.filter (· ≠ "")).map (askedRanges texts)).getD []

/-- The language is that of the range that is wanted most of those that are served, the
earliest where several are wanted as much, and the fallback where none is served. -/
def Negotiated (acceptLanguage : Option String) (supported : List String) (language : String) :
    Prop :=
  (∃ entry, IsFirst (·.quality) (fun e => (servedLanguage supported e.tag).isSome)
      (askedOf texts acceptLanguage) entry ∧ servedLanguage supported entry.tag = some language) ∨
    ((∀ entry ∈ askedOf texts acceptLanguage, servedLanguage supported entry.tag = none) ∧
      language = fallbackLocale supported)

theorem findSome?_eq_bind {α β : Type} (f : α → Option β) (l : List α) :
    l.findSome? f = (l.find? fun a => (f a).isSome).bind f := by
  induction l with
  | nil => rfl
  | cons a rest ih =>
    cases ha : f a with
    | none => simp [ha, ih]
    | some b => simp [ha]

/-- **The language of a reader**, and no other, is negotiated. -/
theorem negotiateLocale_iff {acceptLanguage : Option String} {supported : List String}
    {language : String} : negotiateLocale texts acceptLanguage supported = language ↔
      Negotiated texts acceptLanguage supported language := by
  have hvalue : negotiateLocale texts acceptLanguage supported =
      (((ranked (·.quality) (askedOf texts acceptLanguage)).find?
        fun e => (servedLanguage supported e.tag).isSome).bind
          fun e => servedLanguage supported e.tag).getD (fallbackLocale supported) := by
    unfold negotiateLocale askedOf
    cases acceptLanguage.filter (· ≠ "") with
    | none => rfl
    | some header => rw [← findSome?_eq_bind]; rfl
  rw [hvalue, Negotiated]
  cases hfind : (ranked (·.quality) (askedOf texts acceptLanguage)).find?
      fun e => (servedLanguage supported e.tag).isSome with
  | none =>
    have hnone : ∀ entry ∈ askedOf texts acceptLanguage,
        servedLanguage supported entry.tag = none := fun entry hentry => by
      simpa using List.find?_eq_none.mp hfind entry ((mem_ranked _).mpr hentry)
    constructor
    · rintro rfl
      exact .inr ⟨hnone, rfl⟩
    · rintro (⟨entry, hfirst, -⟩ | ⟨-, rfl⟩)
      · rw [← find?_ranked, hfind] at hfirst
        cases hfirst
      · rfl
  | some found =>
    have hfirst := (find?_ranked _ _).mp hfind
    obtain ⟨served, hserved⟩ := Option.isSome_iff_exists.mp hfirst.mem.2
    rw [Option.bind_some, hserved, Option.getD_some]
    constructor
    · rintro rfl
      exact .inl ⟨found, hfirst, hserved⟩
    · rintro (⟨entry, hentry, hlanguage⟩ | ⟨hnone, -⟩)
      · rw [← find?_ranked, hfind] at hentry
        obtain rfl := Option.some.inj hentry
        exact Option.some.inj (hserved.symm.trans hlanguage)
      · rw [hnone found hfirst.mem.1] at hserved
        cases hserved

/-- Where `pages/index.astro` sends a reader. -/
def rootLocation (site : Site) (acceptLanguage : Option String) : String :=
  homePath (negotiateLocale texts acceptLanguage site.locales)

theorem servedLanguage_served {supported : List String} {tag language : String}
    (h : servedLanguage supported tag = some language) :
    language ∈ LOCALES ∧ language ∈ supported := by
  have hserves : servesLocale supported language = true := by
    unfold servedLanguage at h
    split at h
    · rename_i hserves
      rwa [Option.some.inj h] at hserves
    · exact (Option.filter_eq_some_iff.mp h).2
  simpa [servesLocale] using hserves

/-- The language of a reader is one of the site. -/
theorem Negotiated.served {config : LocaleConfig} {acceptLanguage : Option String}
    {language : String} (h : Negotiated texts acceptLanguage config.locales language) :
    language ∈ LOCALES ∧ language ∈ config.locales := by
  obtain ⟨entry, -, hserved⟩ | ⟨-, rfl⟩ := h
  · exact servedLanguage_served hserved
  · have hfallback : fallbackLocale config.locales ∈ config.locales := by
      unfold fallbackLocale
      split
      · rename_i hdefault
        exact hdefault
      · obtain ⟨first, rest, hlocales⟩ := List.exists_cons_of_ne_nil
          (List.ne_nil_of_mem config.supported)
        rw [hlocales]
        exact List.mem_cons_self
    exact ⟨config.known _ hfallback, hfallback⟩

/-- **The root** sends every reader, whatever the header says, to a home page that is there,
in the language of theirs that is wanted most of those the site is in. -/
theorem root_home {site : Site} (config : LocaleConfig) (hlocales : site.locales = config.locales)
    (hprimary : ∃ type ∈ site.types, type.basePath ≠ "") (acceptLanguage : Option String)
    (now : Nat) (db : Database) (hops : Nat) : ∃ language context view,
      Negotiated texts acceptLanguage site.locales language ∧ language ∈ site.locales ∧
      site.follow now db (hops + 1) (rootLocation texts site acceptLanguage) =
        some (.home context view) ∧ context.locale = language := by
  have hnegotiated : Negotiated texts acceptLanguage site.locales
      (negotiateLocale texts acceptLanguage site.locales) := (negotiateLocale_iff texts).mp rfl
  have hconfig : Negotiated texts acceptLanguage config.locales
      (negotiateLocale texts acceptLanguage site.locales) := hlocales ▸ hnegotiated
  obtain ⟨hknown, hserved⟩ := hconfig.served
  rw [← hlocales] at hserved
  obtain ⟨context, view, hfollow, hlocale⟩ := follow_homePath hprimary hknown hserved hops
  exact ⟨_, context, view, hnegotiated, hserved, hfollow, hlocale⟩

end Readers

/-! ### A reader of French -/

/-- A reader of headers that knows whole numbers as qualities. -/
def wholeQualities : HeaderTexts Nat where
  parseFloat := String.toNat?
  toLowerCase := String.toLower

/-- A site in both languages, with English by default. -/
def bothLocales : LocaleConfig where
  locales := ["en", "fr"]
  defaultLocale := "en"
  known _ h := h
  distinct := by decide
  supported := by decide

theorem root_home_french : ∃ context view,
    plainSite.follow 0 twoPosts 1 (rootLocation wholeQualities plainSite (some "de, fr-CA, en")) =
      some (.home context view) ∧ context.locale = "fr" := by
  have hvalue : negotiateLocale wholeQualities (some "de, fr-CA, en") plainSite.locales = "fr" := by
    decide +kernel
  obtain ⟨language, context, view, hnegotiated, -, hfollow, hlocale⟩ :=
    root_home wholeQualities bothLocales rfl wellAddressed_plainSite.primary
      (some "de, fr-CA, en") 0 twoPosts 0
  have hlanguage := (negotiateLocale_iff wholeQualities).mpr hnegotiated
  exact ⟨context, view, hfollow, by rw [hlocale, ← hlanguage, hvalue]⟩

end PressLabz
