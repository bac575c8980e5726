import Mathlib.Data.List.DropRight
import Mathlib.Data.List.TakeWhile
import PressLabz.Editing

/-! # What a link may point at

`isSafeHref` of `packages/blocks/src/inline.ts`, beside what a browser makes of the same
string: the URL parser, as far as it decides the scheme and the origin.  Both read the
code units of a string.  How an authority is taken apart into a host and a port, and when
that fails, is a parameter (`HostParser`): so are the replacement of lone surrogates and
everything else that touches no character below U+0080 before it.

The two agree, with one exception: a browser takes a backslash for a slash.
-/
namespace PressLabz

/-- The code units of a text in ASCII. -/
def units (text : String) : List CodeUnit := text.toList.map fun c => c.toNat.toUInt16

def slash : CodeUnit := 0x2F

def backslash : CodeUnit := 0x5C

def hash : CodeUnit := 0x23

def colon : CodeUnit := 0x3A

/-! ## The URL parser -/

/-- A C0 control or a space. -/
def isC0OrSpace (u : CodeUnit) : Bool := u ≤ 0x20

def isTabOrNewline (u : CodeUnit) : Bool := u = 0x09 || u = 0x0A || u = 0x0D

/-- A text without the characters of a kind at both of its ends. -/
def trimBy (kind : CodeUnit → Bool) (s : List CodeUnit) : List CodeUnit :=
  (s.dropWhile kind).rdropWhile kind

/-- What the parser reads of its input. -/
def cleaned (s : List CodeUnit) : List CodeUnit :=
  (trimBy isC0OrSpace s).filter (!isTabOrNewline ·)

def isAsciiAlpha (u : CodeUnit) : Bool := (0x41 ≤ u && u ≤ 0x5A) || (0x61 ≤ u && u ≤ 0x7A)

def isAsciiDigit (u : CodeUnit) : Bool := 0x30 ≤ u && u ≤ 0x39

def asciiLower (u : CodeUnit) : CodeUnit := if 0x41 ≤ u && u ≤ 0x5A then u + 0x20 else u

/-- The scheme state: the scheme and what follows the colon. -/
def schemeTail (buffer : List CodeUnit) : List CodeUnit → Option (List CodeUnit × List CodeUnit)
  | [] => none
  | u :: rest =>
    if isAsciiAlpha u || isAsciiDigit u || u ∈ units "+-." then
      schemeTail (buffer ++ [asciiLower u]) rest
    else if u = colon then some (buffer, rest)
    else none

/-- The scheme start state; none for an input without a scheme. -/
def schemeOf : List CodeUnit → Option (List CodeUnit × List CodeUnit)
  | [] => none
  | u :: rest => if isAsciiAlpha u then schemeTail [asciiLower u] rest else none

/-- The special schemes other than `file`. -/
def isSpecial (scheme : List CodeUnit) : Bool :=
  scheme ∈ [units "http", units "https", units "ws", units "wss", units "ftp"]

/-- A URL: its scheme, and the host and port that with it are its origin. -/
structure Url (H : Type) where
  scheme : List CodeUnit
  host : Option H
  deriving DecidableEq

/-- The page a link is on. -/
structure WebPage (H : Type) where
  secure : Bool
  host : H
  deriving DecidableEq

def WebPage.scheme {H : Type} (page : WebPage H) : List CodeUnit :=
  if page.secure then units "https" else units "http"

def WebPage.url {H : Type} (page : WebPage H) : Url H := ⟨page.scheme, some page.host⟩

/-- What becomes of the rest of the input in the authority state and those after it, and in
the states of a `file` URL; none for a failure. -/
structure HostParser (H : Type) where
  authority : (scheme rest : List CodeUnit) → Option H
  file : (rest : List CodeUnit) → Option (Option H)

section Parser
variable {H : Type} (p : HostParser H)

def atAuthority (scheme rest : List CodeUnit) : Option (Url H) :=
  (p.authority scheme rest).map fun host => ⟨scheme, some host⟩

/-- The special authority ignore slashes state. -/
def ignoreSlashes (scheme rest : List CodeUnit) : Option (Url H) :=
  atAuthority p scheme (rest.dropWhile fun u => u = slash || u = backslash)

/-- The relative slash state; without an authority the rest is a path of the page. -/
def relativeSlash (page : WebPage H) : List CodeUnit → Option (Url H)
  | u :: rest =>
    if u = slash ∨ u = backslash then ignoreSlashes p page.scheme rest else some page.url
  | [] => some page.url

/-- The relative state. -/
def relative (page : WebPage H) : List CodeUnit → Option (Url H)
  | u :: rest =>
    if u = slash ∨ u = backslash then relativeSlash p page rest else some page.url
  | [] => some page.url

/-- What follows a scheme. -/
def afterScheme (base : Option (WebPage H)) (scheme rest : List CodeUnit) : Option (Url H) :=
  if scheme = units "file" then (p.file rest).map fun host => ⟨scheme, host⟩
  else if isSpecial scheme then
    match base with
    | some page =>
      -- a special scheme that is the page's own may be left out of a relative reference
      if page.scheme = scheme ∧ ¬ rest.take 2 = [slash, slash] then relative p page rest
      else ignoreSlashes p scheme rest
    | none => ignoreSlashes p scheme rest
  else if rest.take 2 = [slash, slash] then atAuthority p scheme (rest.drop 2)
  else some ⟨scheme, none⟩

/-- `new URL(input)` without a base, and a reference of a page with one. -/
def parseUrl (base : Option (WebPage H)) (input : List CodeUnit) : Option (Url H) :=
  match schemeOf (cleaned input) with
  | some (scheme, rest) => afterScheme p base scheme rest
  | none => base.bind fun page => relative p page (cleaned input)

end Parser

/-! ## The check -/

/-- What `trim` removes: white space and line terminators. -/
def isJsSpace (u : CodeUnit) : Bool :=
  (0x09 ≤ u && u ≤ 0x0D) || u = 0x20 || u = 0xA0 || u = 0x1680 || (0x2000 ≤ u && u ≤ 0x200A) ||
    u = 0x2028 || u = 0x2029 || u = 0x202F || u = 0x205F || u = 0x3000 || u = 0xFEFF

/-- `ALLOWED_LINK_SCHEMES`, without their colons. -/
def allowedLinkSchemes : List (List CodeUnit) := [units "http", units "https", units "mailto"]

/-- What the check looks at. -/
def normalized (href : List CodeUnit) : List CodeUnit :=
  trimBy isJsSpace (href.filter (!isTabOrNewline ·))

def isSafeHref {H : Type} (p : HostParser H) (href : List CodeUnit) : Bool :=
  if normalized href = [] then false
  else if (normalized href).take 2 = [slash, slash] then false
  else if (normalized href).head? = some slash ∨ (normalized href).head? = some hash then true
  else
    match parseUrl p none (normalized href) with
    | none => false
    | some url => url.scheme ∈ allowedLinkSchemes

/-! ## Trimming -/

section Trim
variable (kind : CodeUnit → Bool)

theorem filter_dropWhile (keep : CodeUnit → Bool) (hk : ∀ u, keep u = false → kind u = true)
    (s : List CodeUnit) : (s.dropWhile kind).filter keep = (s.filter keep).dropWhile kind := by
  induction s with
  | nil => rfl
  | cons u s ih =>
    cases hu : kind u with
    | true =>
      rw [List.dropWhile_cons_of_pos hu, ih]
      cases hkeep : keep u with
      | true => rw [List.filter_cons_of_pos hkeep, List.dropWhile_cons_of_pos hu]
      | false => rw [List.filter_cons_of_neg (by simp [hkeep])]
    | false =>
      have hkeep : keep u = true := by
        by_contra h
        simp [hk u (by simpa using h)] at hu
      rw [List.dropWhile_cons_of_neg (by simp [hu]), List.filter_cons_of_pos hkeep,
        List.dropWhile_cons_of_neg (by simp [hu])]

theorem filter_trimBy (keep : CodeUnit → Bool) (hk : ∀ u, keep u = false → kind u = true)
    (s : List CodeUnit) : (trimBy kind s).filter keep = trimBy kind (s.filter keep) := by
  simp only [trimBy, List.rdropWhile, List.filter_reverse, filter_dropWhile kind keep hk]

theorem trimBy_parts (s : List CodeUnit) :
    ∃ before after, s = before ++ (trimBy kind s ++ after) ∧
      (∀ u ∈ before, kind u = true) ∧ ∀ u ∈ after, kind u = true := by
  refine ⟨s.takeWhile kind, (s.dropWhile kind).rtakeWhile kind, ?_, ?_, ?_⟩
  · rw [trimBy, List.rdropWhile_append_rtakeWhile, List.takeWhile_append_dropWhile]
  · exact fun u hu => List.mem_takeWhile_imp hu
  · exact fun u hu => List.mem_rtakeWhile_imp hu

/-- What is trimmed at the end of a text stays trimmed, whatever is added. -/
theorem rdropWhile_isPrefix_append (s t : List CodeUnit) :
    s.rdropWhile kind <+: (s ++ t).rdropWhile kind := by
  rw [List.rdropWhile, List.rdropWhile, List.reverse_append, List.dropWhile_append]
  split
  · exact List.prefix_rfl
  · rw [List.reverse_append, List.reverse_reverse]
    exact (List.rdropWhile_prefix kind s).trans (List.prefix_append s _)

theorem rdropWhile_cons {u : CodeUnit} (hu : kind u = false) (s : List CodeUnit) :
    ∃ t, (u :: s).rdropWhile kind = u :: t ∧ t <+: s := by
  obtain ⟨t, ht⟩ := rdropWhile_isPrefix_append kind [u] s
  have hone : [u].rdropWhile kind = [u] := by simp [List.rdropWhile_singleton, hu]
  rw [hone] at ht
  have hp := List.rdropWhile_prefix kind ([u] ++ s)
  rw [← ht] at hp
  exact ⟨t, ht.symm, (List.prefix_append_right_inj [u]).mp hp⟩

end Trim

/-! ## The two readings of one string -/

theorem cleaned_eq (href : List CodeUnit) :
    cleaned href = trimBy isC0OrSpace (href.filter (!isTabOrNewline ·)) := by
  refine filter_trimBy isC0OrSpace _ ?_ href
  intro u hu
  simp only [Bool.not_eq_false', isTabOrNewline, Bool.or_eq_true, decide_eq_true_eq] at hu
  rcases hu with (rfl | rfl) | rfl <;> rfl

/-- The text begins with a space that only the check removes. -/
def StraySpace (s : List CodeUnit) : Prop :=
  ∃ u rest, s = u :: rest ∧ isJsSpace u = true ∧ isC0OrSpace u = false

/-- The browser reads what the check read, with spaces the check removed at its end. -/
theorem cleaned_cases {href : List CodeUnit}
    (hne : (normalized href).dropWhile isC0OrSpace ≠ []) :
    StraySpace (cleaned href) ∨
      trimBy isC0OrSpace (normalized href) <+: cleaned href ∧
      ∃ after, (∀ u ∈ after, isJsSpace u = true) ∧
        cleaned href <+: (normalized href).dropWhile isC0OrSpace ++ after := by
  obtain ⟨before, after, hparts, hbefore, hafter⟩ :=
    trimBy_parts isJsSpace (href.filter (!isTabOrNewline ·))
  rw [← normalized] at hparts
  rw [cleaned_eq, hparts, trimBy, List.dropWhile_append]
  cases hdrop : before.dropWhile isC0OrSpace with
  | cons u rest =>
    -- a wide space at the front: the browser keeps it
    left
    have hu : isC0OrSpace u = false := by
      have h := List.head?_dropWhile_not isC0OrSpace before
      simpa [hdrop] using h
    have hmem : u ∈ before :=
      (List.dropWhile_sublist isC0OrSpace).mem (by rw [hdrop]; exact List.mem_cons_self)
    obtain ⟨t, ht, -⟩ := rdropWhile_cons isC0OrSpace hu (rest ++ (normalized href ++ after))
    exact ⟨u, t, by simpa using ht, hbefore u hmem, hu⟩
  | nil =>
    right
    have hrest : (normalized href ++ after).dropWhile isC0OrSpace =
        (normalized href).dropWhile isC0OrSpace ++ after := by
      rw [List.dropWhile_append, if_neg (by simpa using hne)]
    rw [List.isEmpty_nil, if_pos rfl, hrest]
    exact ⟨rdropWhile_isPrefix_append isC0OrSpace _ after, after, hafter,
      List.rdropWhile_prefix isC0OrSpace _⟩

theorem isJsSpace_spec {u : CodeUnit} (h : isJsSpace u = true) :
    isAsciiAlpha u = false ∧ ¬ (u = slash ∨ u = backslash) := by
  simp only [isJsSpace, Bool.or_eq_true, Bool.and_eq_true, decide_eq_true_eq,
    UInt16.le_iff_toNat_le, ← UInt16.toNat_inj] at h
  simp only [isAsciiAlpha, Bool.or_eq_false_iff, Bool.and_eq_false_iff, decide_eq_false_iff_not,
    slash, backslash, UInt16.le_iff_toNat_le, ← UInt16.toNat_inj]
  simp only [UInt16.reduceToNat] at h ⊢
  omega

/-! ## The states of the parser -/

theorem schemeTail_append {s : List CodeUnit} {buffer : List CodeUnit}
    {found : List CodeUnit × List CodeUnit} (h : schemeTail buffer s = some found)
    (t : List CodeUnit) : schemeTail buffer (s ++ t) = some (found.1, found.2 ++ t) := by
  induction s generalizing buffer with
  | nil => simp [schemeTail] at h
  | cons u s ih =>
    rw [schemeTail] at h
    rw [List.cons_append, schemeTail]
    split at h
    · rw [if_pos ‹_›]
      exact ih h
    · rw [if_neg ‹_›]
      split at h
      · rw [if_pos ‹_›]
        cases h
        rfl
      · cases h

theorem schemeOf_append {s : List CodeUnit} {found : List CodeUnit × List CodeUnit}
    (h : schemeOf s = some found) (t : List CodeUnit) :
    schemeOf (s ++ t) = some (found.1, found.2 ++ t) := by
  cases s with
  | nil => simp [schemeOf] at h
  | cons u s =>
    rw [schemeOf] at h
    rw [List.cons_append, schemeOf]
    split at h
    · rw [if_pos ‹_›]
      exact schemeTail_append h t
    · cases h

theorem schemeOf_other {u : CodeUnit} (hu : isAsciiAlpha u = false) (s : List CodeUnit) :
    schemeOf (u :: s) = none := by
  simp [schemeOf, hu]

section Parser
variable {H : Type} (p : HostParser H)

theorem atAuthority_scheme {scheme rest : List CodeUnit} {url : Url H}
    (h : atAuthority p scheme rest = some url) : url.scheme = scheme := by
  obtain ⟨host, -, rfl⟩ := Option.map_eq_some_iff.mp h
  rfl

theorem relative_other {u : CodeUnit} (hu : ¬ (u = slash ∨ u = backslash)) (page : WebPage H)
    (s : List CodeUnit) : relative p page (u :: s) = some page.url := by
  rw [relative, if_neg hu]

theorem relativeSlash_scheme {page : WebPage H} {s : List CodeUnit} {url : Url H}
    (h : relativeSlash p page s = some url) : url.scheme = page.scheme := by
  unfold relativeSlash at h
  split at h
  · split at h
    · exact atAuthority_scheme p h
    · cases h
      rfl
  · cases h
    rfl

theorem relative_scheme {page : WebPage H} {s : List CodeUnit} {url : Url H}
    (h : relative p page s = some url) : url.scheme = page.scheme := by
  unfold relative at h
  split at h
  · split at h
    · exact relativeSlash_scheme p h
    · cases h
      rfl
  · cases h
    rfl

/-- A scheme once read is the scheme of the URL. -/
theorem afterScheme_scheme {base : Option (WebPage H)} {scheme rest : List CodeUnit} {url : Url H}
    (h : afterScheme p base scheme rest = some url) : url.scheme = scheme := by
  unfold afterScheme at h
  split at h
  · obtain ⟨host, -, rfl⟩ := Option.map_eq_some_iff.mp h
    rfl
  · split at h
    · split at h
      · split at h
        · next hpage => rw [relative_scheme p h, hpage.1]
        · exact atAuthority_scheme p h
      · exact atAuthority_scheme p h
    · split at h
      · exact atAuthority_scheme p h
      · cases h
        rfl

/-! ## Where an accepted link leads -/

/-- The scheme of the URL stands in the link and is one of the allowed ones. -/
def WrittenInFull (href : List CodeUnit) (url : Url H) : Prop :=
  (∃ rest, schemeOf (cleaned href) = some (url.scheme, rest)) ∧ url.scheme ∈ allowedLinkSchemes

/-- From no page does the link lead to another origin or scheme than it shows. -/
def LeavesOpenly (href : List CodeUnit) : Prop :=
  ∀ (page : WebPage H) url, parseUrl p (some page) href = some url →
    WrittenInFull href url ∨ url = page.url

/-- The link does not begin, for a browser, with a slash and a backslash before a host. -/
def NamesNoHost (href : List CodeUnit) : Prop :=
  ∀ rest, cleaned href = slash :: backslash :: rest →
    ∀ page : WebPage H, ignoreSlashes p page.scheme rest = none

variable {p}

theorem accepted_cases {href : List CodeUnit} (h : isSafeHref p href = true) :
    (∃ rest, normalized href = hash :: rest) ∨
    (∃ rest, normalized href = slash :: rest ∧ rest.head? ≠ some slash) ∨
    ∃ scheme rest, schemeOf (cleaned (normalized href)) = some (scheme, rest) ∧
      scheme ∈ allowedLinkSchemes := by
  unfold isSafeHref at h
  split at h
  · cases h
  · split at h
    · cases h
    · split at h
      · next hne htwo hone =>
        cases hn : normalized href with
        | nil => exact absurd hn hne
        | cons u rest =>
          rw [hn] at htwo hone
          rcases hone with hu | hu
          · cases hu
            right
            left
            -- one slash: two were refused before
            refine ⟨rest, rfl, fun hrest => htwo ?_⟩
            cases rest with
            | nil => cases hrest
            | cons v rest => cases hrest; rfl
          · cases hu
            exact Or.inl ⟨rest, rfl⟩
      · split at h
        · cases h
        · next url hurl =>
          -- the rest is parsed without a base, so that it has a scheme of its own
          unfold parseUrl at hurl
          split at hurl
          · next scheme rest hscheme =>
            refine Or.inr (Or.inr ⟨scheme, rest, hscheme, ?_⟩)
            rw [← afterScheme_scheme p hurl]
            simpa using h
          · cases hurl

theorem parseUrl_page {href : List CodeUnit} {page : WebPage H}
    (hs : schemeOf (cleaned href) = none) :
    parseUrl p (some page) href = relative p page (cleaned href) := by
  rw [parseUrl, hs]
  rfl

theorem parseUrl_stray {href : List CodeUnit} (h : StraySpace (cleaned href))
    (page : WebPage H) : parseUrl p (some page) href = some page.url := by
  obtain ⟨u, rest, hc, hu, -⟩ := h
  obtain ⟨halpha, hother⟩ := isJsSpace_spec hu
  rw [parseUrl_page (by rw [hc, schemeOf_other halpha]), hc, relative_other p hother]

/-- What the browser reads begins with the character the check saw. -/
theorem cleaned_head {href rest : List CodeUnit} {u : CodeUnit}
    (hn : normalized href = u :: rest) (hu : isC0OrSpace u = false) :
    StraySpace (cleaned href) ∨ ∃ after t, (∀ v ∈ after, isJsSpace v = true) ∧
      cleaned href = u :: t ∧ t <+: rest ++ after := by
  have hdrop : (normalized href).dropWhile isC0OrSpace = u :: rest := by
    rw [hn, List.dropWhile_cons_of_neg (by simp [hu])]
  have hne : (normalized href).dropWhile isC0OrSpace ≠ [] := by simp [hdrop]
  rcases cleaned_cases hne with h | ⟨hpre, after, hafter, hsuf⟩
  · exact Or.inl h
  · obtain ⟨t, ht, -⟩ := rdropWhile_cons isC0OrSpace hu rest
    rw [trimBy, hdrop, ht] at hpre
    rw [hdrop] at hsuf
    cases hc : cleaned href with
    | nil => simp [hc] at hpre
    | cons v w =>
      rw [hc, List.cons_append, List.cons_prefix_cons] at hsuf
      exact Or.inr ⟨after, w, hafter, by rw [hsuf.1], hsuf.2⟩

theorem hash_stays {href rest : List CodeUnit} (hn : normalized href = hash :: rest)
    (page : WebPage H) : parseUrl p (some page) href = some page.url := by
  rcases cleaned_head hn rfl with h | ⟨after, t, -, hc, -⟩
  · exact parseUrl_stray h page
  · rw [parseUrl_page (by rw [hc]; rfl), hc, relative_other p (by decide)]

theorem slash_stays {href rest : List CodeUnit} (hn : normalized href = slash :: rest)
    (hrest : rest.head? ≠ some slash) (hhost : NamesNoHost p href) {page : WebPage H}
    {url : Url H} (h : parseUrl p (some page) href = some url) : url = page.url := by
  rcases cleaned_head hn rfl with hs | ⟨after, t, hafter, hc, ht⟩
  · rw [parseUrl_stray hs] at h
    exact (Option.some.inj h).symm
  · rw [parseUrl_page (by rw [hc]; rfl), hc, relative, if_pos (Or.inl rfl)] at h
    cases t with
    | nil => exact (Option.some.inj h).symm
    | cons v t =>
      rw [relativeSlash] at h
      split at h
      · next hv =>
        -- a second slash would have been refused, so that it is a backslash
        have hv' : v = backslash := by
          cases rest with
          | nil =>
            have hmem : v ∈ after := ht.subset List.mem_cons_self
            exact absurd hv (isJsSpace_spec (hafter v hmem)).2
          | cons r rest =>
            rw [List.cons_append, List.cons_prefix_cons] at ht
            rcases hv with rfl | rfl
            · exact absurd (by rw [← ht.1]; rfl) hrest
            · rfl
        subst hv'
        rw [hhost t hc page] at h
        cases h
      · exact (Option.some.inj h).symm

theorem schemeOf_cleaned {href scheme rest : List CodeUnit}
    (h : schemeOf (cleaned (normalized href)) = some (scheme, rest)) :
    StraySpace (cleaned href) ∨ ∃ t, schemeOf (cleaned href) = some (scheme, rest ++ t) := by
  have hclean : cleaned (normalized href) = trimBy isC0OrSpace (normalized href) := by
    rw [cleaned_eq, List.filter_eq_self.mpr]
    intro u hu
    obtain ⟨before, after, hparts, -, -⟩ :=
      trimBy_parts isJsSpace (href.filter (!isTabOrNewline ·))
    have hmem : u ∈ href.filter (!isTabOrNewline ·) := by
      rw [hparts]
      exact List.mem_append_right _ (List.mem_append_left _ hu)
    exact (List.mem_filter.mp hmem).2
  rw [hclean] at h
  have hne : (normalized href).dropWhile isC0OrSpace ≠ [] := by
    intro hnil
    rw [trimBy, hnil] at h
    cases h
  rcases cleaned_cases hne with hs | ⟨⟨t, ht⟩, -⟩
  · exact Or.inl hs
  · exact Or.inr ⟨t, by rw [← ht]; exact schemeOf_append h t⟩

theorem leavesOpenly_of_namesNoHost {href : List CodeUnit} (hsafe : isSafeHref p href = true)
    (hhost : NamesNoHost p href) : LeavesOpenly p href := by
  intro page url hurl
  rcases accepted_cases hsafe with ⟨rest, hn⟩ | ⟨rest, hn, hrest⟩ | ⟨scheme, rest, hs, hallowed⟩
  · rw [hash_stays hn] at hurl
    exact Or.inr (Option.some.inj hurl).symm
  · exact Or.inr (slash_stays hn hrest hhost hurl)
  · rcases schemeOf_cleaned hs with hstray | ⟨t, ht⟩
    · rw [parseUrl_stray hstray] at hurl
      exact Or.inr (Option.some.inj hurl).symm
    · left
      rw [parseUrl, ht] at hurl
      have hscheme : url.scheme = scheme := afterScheme_scheme p hurl
      exact ⟨⟨rest ++ t, by rw [hscheme]; exact ht⟩, hscheme ▸ hallowed⟩

/-- An accepted link leaves the site openly unless it begins with a slash, a backslash and a
host. -/
theorem leaves_openly_iff [Nontrivial H] {href : List CodeUnit}
    (hsafe : isSafeHref p href = true) : LeavesOpenly p href ↔ NamesNoHost p href := by
  refine ⟨?_, leavesOpenly_of_namesNoHost hsafe⟩
  intro h rest hc page
  have hs : schemeOf (cleaned href) = none := by
    rw [hc]
    rfl
  by_contra hsome
  obtain ⟨url, hauth⟩ := Option.ne_none_iff_exists'.mp hsome
  obtain ⟨host, -, rfl⟩ := Option.map_eq_some_iff.mp hauth
  -- a page of the same scheme on another host loses its reader
  obtain ⟨other, hother⟩ := exists_ne host
  have hleads : parseUrl p (some ⟨page.secure, other⟩) href = some ⟨page.scheme, some host⟩ := by
    rw [parseUrl_page hs, hc]
    exact hauth
  rcases h _ _ hleads with ⟨⟨rest, hwritten⟩, -⟩ | hsame
  · rw [hs] at hwritten
    cases hwritten
  · exact hother (Option.some.inj (congrArg Url.host hsame)).symm

end Parser

/-- Hosts up to the first slash or backslash, none of them empty. -/
def plainHosts : HostParser (List CodeUnit) where
  authority _ rest :=
    let host := rest.takeWhile fun u => u ≠ slash && u ≠ backslash
    if host = [] then none else some host
  file _ := some none

theorem leaves_openly_about : LeavesOpenly plainHosts (units "/about/") := by
  have : Nontrivial (List CodeUnit) := ⟨[], [slash], by decide⟩
  refine (leaves_openly_iff (by decide +kernel)).mpr ?_
  intro rest hc
  have hcleaned : cleaned (units "/about/") = units "/about/" := by decide +kernel
  rw [hcleaned] at hc
  cases hc

theorem backslash_leaves : isSafeHref plainHosts (units "/\\evil.com") = true ∧
    ¬ LeavesOpenly plainHosts (units "/\\evil.com") := by
  refine ⟨by decide +kernel, fun h => ?_⟩
  have hleads : parseUrl plainHosts (some ⟨true, units "example.com"⟩) (units "/\\evil.com") =
      some ⟨units "https", some (units "evil.com")⟩ := by decide +kernel
  rcases h _ _ hleads with ⟨⟨rest, hwritten⟩, -⟩ | hsame
  · cases hwritten
  · revert hsame
    decide +kernel

end PressLabz
