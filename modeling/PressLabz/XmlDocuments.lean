import PressLabz.EditorDates
import PressLabz.MarkupDocuments

/-! # The documents for machines

`apps/web/src/lib/xml.ts`: the sitemap and the feed, built by hand around one escape
function.  Each string is also what events write; from these it is read off that both are
well-formed, whatever an author writes, but for two characters that the escape lets through.
-/
namespace PressLabz
open Calendar Markup

/-! ## The source -/

/-- `XML_ESCAPES`. -/
def xmlEscapes : Escaping where
  table := [('&', "&amp;".toList), ('<', "&lt;".toList), ('>', "&gt;".toList),
    ('"', "&quot;".toList), ('\'', "&apos;".toList)]
  ampersand := by decide
  begins := by simp
  begins_one := by decide

/-- The control characters that are dropped. -/
def isDropped (c : Char) : Bool :=
  c.toNat ≤ 0x8 || c.toNat = 0xB || c.toNat = 0xC || (0xE ≤ c.toNat && c.toNat ≤ 0x1F)

def escapeXml (value : String) : String :=
  String.ofList (xmlEscapes.escape (value.toList.filter (!isDropped ·)))

/-- A date that is not invalid. -/
abbrev ValidDate := { time : Int // IsDate time }

structure SitemapAlternate where
  hreflang : String
  href : String

/-- A `SitemapEntry`, whatever its date. -/
structure SitemapUrl where
  loc : String
  lastmod : Option ValidDate := none
  alternates : Option (List SitemapAlternate) := none

/-- The `parts` of an entry of the sitemap. -/
def urlLines (entry : SitemapUrl) : List String :=
  ["    <loc>" ++ escapeXml entry.loc ++ "</loc>"] ++
    entry.lastmod.toList.map (fun date => "    <lastmod>" ++ toISOString date.1 ++ "</lastmod>") ++
    (entry.alternates.getD []).map fun alternate =>
      "    <xhtml:link rel=\"alternate\" hreflang=\"" ++ escapeXml alternate.hreflang ++ "\"" ++
        " href=\"" ++ escapeXml alternate.href ++ "\" />"

def sitemapXml (entries : List SitemapUrl) : String :=
  let urls := entries.map fun entry =>
    "  <url>\n" ++ "\n".intercalate (urlLines entry) ++ "\n  </url>"
  "<?xml version=\"1.0\" encoding=\"UTF-8\"?>\n" ++
    "<urlset xmlns=\"http://www.sitemaps.org/schemas/sitemap/0.9\"" ++
    " xmlns:xhtml=\"http://www.w3.org/1999/xhtml\">\n" ++
    "\n".intercalate urls ++ "\n" ++
    "</urlset>\n"

structure FeedEntry where
  id : String
  title : String
  href : String
  updated : ValidDate
  published : Option ValidDate
  summary : Option String
  contentHtml : Option String

structure FeedInput where
  title : String
  siteHref : String
  selfHref : String
  language : String
  updated : ValidDate
  entries : List FeedEntry

/-- A string that is there and not empty. -/
def present (text : Option String) : List String := (text.filter (· ≠ "")).toList

/-- The `parts` of an entry of the feed. -/
def entryLines (entry : FeedEntry) : List String :=
  ["    <title>" ++ escapeXml entry.title ++ "</title>",
    "    <id>urn:uuid:" ++ escapeXml entry.id ++ "</id>",
    "    <link rel=\"alternate\" type=\"text/html\" href=\"" ++ escapeXml entry.href ++ "\" />",
    "    <updated>" ++ toISOString entry.updated.1 ++ "</updated>"] ++
    entry.published.toList.map (fun date =>
      "    <published>" ++ toISOString date.1 ++ "</published>") ++
    (present entry.summary).map (fun summary =>
      "    <summary>" ++ escapeXml summary ++ "</summary>") ++
    (present entry.contentHtml).map fun html =>
      "    <content type=\"html\">" ++ escapeXml html ++ "</content>"

def feedXml (input : FeedInput) : String :=
  let entries := input.entries.map fun entry =>
    "  <entry>\n" ++ "\n".intercalate (entryLines entry) ++ "\n  </entry>"
  "<?xml version=\"1.0\" encoding=\"UTF-8\"?>\n" ++
    "<feed xmlns=\"http://www.w3.org/2005/Atom\" xml:lang=\"" ++ escapeXml input.language ++
      "\">\n" ++
    "  <title>" ++ escapeXml input.title ++ "</title>\n" ++
    "  <id>" ++ escapeXml input.selfHref ++ "</id>\n" ++
    "  <link rel=\"self\" type=\"application/atom+xml\" href=\"" ++ escapeXml input.selfHref ++
      "\" />\n" ++
    "  <link rel=\"alternate\" type=\"text/html\" href=\"" ++ escapeXml input.siteHref ++
      "\" />\n" ++
    "  <updated>" ++ toISOString input.updated.1 ++ "</updated>\n" ++
    "\n".intercalate entries ++ "\n" ++
    "</feed>\n"

/-! ## The events -/

def xmlAttr (name : String) (value : List Char) : Attribute := ⟨name.toList, value⟩

/-- What `escapeXml` makes of a string, as characters. -/
def xmlText (value : String) : List Char := xmlEscapes.escape (value.toList.filter (!isDropped ·))

/-- An element with characters in it and nothing else. -/
def leaf (name : String) (attributes : List Attribute) (text : List Char) : List Event :=
  element name.toList attributes (chars text)

/-- What is indented so far, and another line of it follows. -/
def indented (indent : String) (events : List Event) : List Event :=
  chars indent.toList ++ events

def newline : List Event := chars ['\n']

def alternateEvents (alternate : SitemapAlternate) : List Event :=
  [.void "xhtml:link".toList [xmlAttr "rel" "alternate".toList,
    xmlAttr "hreflang" (xmlText alternate.hreflang), xmlAttr "href" (xmlText alternate.href)]]

def urlParts (entry : SitemapUrl) : List (List Event) :=
  [leaf "loc" [] (xmlText entry.loc)] ++
    entry.lastmod.toList.map (fun date => leaf "lastmod" [] (isoChars date.1)) ++
    (entry.alternates.getD []).map alternateEvents

/-- Parts on lines of their own in an element. -/
def linesIn (name : String) (parts : List (List Event)) : List Event :=
  indented "  " (element name.toList []
    (newline ++ newline.intercalate (parts.map (indented "    ")) ++ chars "\n  ".toList))

def sitemapAttributes : List Attribute :=
  [xmlAttr "xmlns" "http://www.sitemaps.org/schemas/sitemap/0.9".toList,
    xmlAttr "xmlns:xhtml" "http://www.w3.org/1999/xhtml".toList]

def sitemapEvents (entries : List SitemapUrl) : List Event :=
  newline ++ newline.intercalate (entries.map fun entry => linesIn "url" (urlParts entry)) ++ newline

def linkEvents (rel type href : String) : List Event :=
  [.void "link".toList [xmlAttr "rel" rel.toList, xmlAttr "type" type.toList,
    xmlAttr "href" (xmlText href)]]

def entryParts (entry : FeedEntry) : List (List Event) :=
  [leaf "title" [] (xmlText entry.title),
    leaf "id" [] ("urn:uuid:".toList ++ xmlText entry.id),
    linkEvents "alternate" "text/html" entry.href,
    leaf "updated" [] (isoChars entry.updated.1)] ++
    entry.published.toList.map (fun date => leaf "published" [] (isoChars date.1)) ++
    (present entry.summary).map (fun summary => leaf "summary" [] (xmlText summary)) ++
    (present entry.contentHtml).map fun html =>
      leaf "content" [xmlAttr "type" "html".toList] (xmlText html)

def feedAttributes (input : FeedInput) : List Attribute :=
  [xmlAttr "xmlns" "http://www.w3.org/2005/Atom".toList,
    xmlAttr "xml:lang" (xmlText input.language)]

def feedParts (input : FeedInput) : List (List Event) :=
  [leaf "title" [] (xmlText input.title), leaf "id" [] (xmlText input.selfHref),
    linkEvents "self" "application/atom+xml" input.selfHref,
    linkEvents "alternate" "text/html" input.siteHref,
    leaf "updated" [] (isoChars input.updated.1)]

def feedEvents (input : FeedInput) : List Event :=
  newline ++ (feedParts input).flatMap (fun part => indented "  " part ++ newline) ++
    newline.intercalate (input.entries.map fun entry => linesIn "entry" (entryParts entry)) ++
    newline

/-! ## What is written -/

theorem toList_escapeXml (value : String) : (escapeXml value).toList = xmlText value :=
  String.toList_ofList

theorem toList_toISOString (time : Int) : (toISOString time).toList = isoChars time :=
  String.toList_ofList

theorem write_leaf (name : String) (attributes : List Attribute) (text : List Char) :
    write (leaf name attributes text) = '<' :: (tagText name.toList attributes ++
      '>' :: (text ++ '<' :: '/' :: (name.toList ++ ['>']))) := by
  rw [leaf, write_element, write_chars]

theorem write_indented (indent : String) (events : List Event) :
    write (indented indent events) = indent.toList ++ write events := by
  rw [indented, write_append, write_chars]

theorem write_linesIn (name : String) (parts : List (List Event)) :
    write (linesIn name parts) = "  <".toList ++ name.toList ++ ">\n".toList ++
      ['\n'].intercalate (parts.map fun part => write (indented "    " part)) ++
      "\n  </".toList ++ name.toList ++ ">".toList := by
  simp [linesIn, write_indented, write_element, write_intercalate, tagText, newline,
    Function.comp_def]

/-- Strings that are the lines of events make an element with these lines. -/
theorem toList_lines {name first last : String} {lines : List String} {parts : List (List Event)}
    (hfirst : first = "  <" ++ name ++ ">\n") (hlast : last = "\n  </" ++ name ++ ">")
    (h : lines.map String.toList = parts.map fun part => write (indented "    " part)) :
    (first ++ "\n".intercalate lines ++ last).toList = write (linesIn name parts) := by
  rw [write_linesIn, ← h, hfirst, hlast]
  simp

theorem toList_urlLines (entry : SitemapUrl) : (urlLines entry).map String.toList =
    (urlParts entry).map fun part => write (indented "    " part) := by
  simp [urlLines, urlParts, write_indented, write_leaf, tagText, alternateEvents, Event.write,
    xmlAttr, Attribute.write, toList_escapeXml, toList_toISOString, Function.comp_def]

theorem toList_entryLines (entry : FeedEntry) : (entryLines entry).map String.toList =
    (entryParts entry).map fun part => write (indented "    " part) := by
  simp [entryLines, entryParts, write_indented, write_leaf, tagText, linkEvents, Event.write,
    xmlAttr, Attribute.write, toList_escapeXml, toList_toISOString, Function.comp_def]

/-- Strings that are the entries of events, on lines of their own, are the events on lines
of their own. -/
theorem toList_entries {α : Type} {f : α → String} {g : α → List Event}
    (h : ∀ a, (f a).toList = write (g a)) (l : List α) :
    ("\n".intercalate (l.map f)).toList = write (newline.intercalate (l.map g)) := by
  have hmap : (l.map f).map String.toList = (l.map g).map write := by
    rw [List.map_map, List.map_map]
    exact List.map_congr_left fun a _ => h a
  rw [String.toList_intercalate, hmap, write_intercalate, newline, write_chars]
  rfl

theorem toList_sitemapXml (entries : List SitemapUrl) :
    (sitemapXml entries).toList = xmlDeclaration ++ write (chars ['\n'] ++
      element "urlset".toList sitemapAttributes (sitemapEvents entries) ++ chars ['\n']) := by
  have hurl : ∀ entry, ("  <url>\n" ++ "\n".intercalate (urlLines entry) ++ "\n  </url>").toList =
      write (linesIn "url" (urlParts entry)) := by
    intro entry
    refine toList_lines ?_ ?_ (toList_urlLines entry)
    · decide
    · decide
  have hurls := toList_entries hurl entries
  unfold sitemapXml xmlDeclaration
  simp only [String.toList_append, hurls, write_append, write_chars, write_element, sitemapEvents,
    newline]
  generalize write (List.intercalate _ _) = inner
  simp [tagText, sitemapAttributes, xmlAttr, Attribute.write]

set_option maxRecDepth 2000 in
theorem toList_feedXml (input : FeedInput) :
    (feedXml input).toList = xmlDeclaration ++ write (chars ['\n'] ++
      element "feed".toList (feedAttributes input) (feedEvents input) ++ chars ['\n']) := by
  have hentry : ∀ entry,
      ("  <entry>\n" ++ "\n".intercalate (entryLines entry) ++ "\n  </entry>").toList =
        write (linesIn "entry" (entryParts entry)) := by
    intro entry
    refine toList_lines ?_ ?_ (toList_entryLines entry)
    · decide
    · decide
  have hentries := toList_entries hentry input.entries
  unfold feedXml xmlDeclaration
  simp only [String.toList_append, hentries, write_append, write_chars, write_element, feedEvents,
    newline]
  generalize write (List.intercalate _ _) = inner
  simp [tagText, feedAttributes, feedParts, linkEvents, write_indented, write_leaf,
    Event.write, xmlAttr, Attribute.write, toList_escapeXml, toList_toISOString]

/-! ## The parts are formed -/

theorem isValue_xmlText (value : String) : IsValue (xmlText value) :=
  xmlEscapes.isValue_escape (by decide) (by decide) _

theorem references_xmlText (value : String) : xmlEscapes.References (xmlText value) :=
  xmlEscapes.references_escape _

theorem plain_isoChars (time : Int) : Plain (isoChars time) := by
  intro c hc
  constructor <;> rintro rfl <;> exact absurd (mem_isoChars hc) (by decide)

theorem references_isoChars (time : Int) : xmlEscapes.References (isoChars time) :=
  Escaping.references_of_not_mem fun hc => absurd (mem_isoChars hc) (by decide)

/-- An attribute whose value has been escaped, or needs no escape. -/
def Sound (a : Attribute) : Prop := a.Lexical ∧ xmlEscapes.References a.value

theorem sound_xmlText {name : String} (hn : IsName name.toList) (value : String) :
    Sound (xmlAttr name (xmlText value)) :=
  ⟨⟨hn, isValue_xmlText value⟩, references_xmlText value⟩

theorem sound_literal {name value : String} (hn : IsName name.toList) (hv : IsValue value.toList)
    (hamp : '&' ∉ value.toList) : Sound (xmlAttr name value.toList) :=
  ⟨⟨hn, hv⟩, Escaping.references_of_not_mem hamp⟩

theorem formed_leaf {name : String} (hn : IsName name.toList) {text : List Char}
    (hplain : Plain text) (hreferences : xmlEscapes.References text) :
    Formed xmlEscapes (leaf name [] text) :=
  (formed_chars hplain hreferences).element hn (fun _ ha => nomatch ha) List.nodup_nil

theorem formed_xmlText {name : String} (hn : IsName name.toList) (value : String) :
    Formed xmlEscapes (leaf name [] (xmlText value)) :=
  formed_leaf hn (isValue_xmlText value).plain (references_xmlText value)

theorem formed_date {name : String} (hn : IsName name.toList) (date : ValidDate) :
    Formed xmlEscapes (leaf name [] (isoChars date.1)) :=
  formed_leaf hn (plain_isoChars date.1) (references_isoChars date.1)

theorem formed_space {s : List Char} (hs : Plain s) (hamp : '&' ∉ s) :
    Formed xmlEscapes (chars s) :=
  formed_chars hs (Escaping.references_of_not_mem hamp)

theorem formed_newline : Formed xmlEscapes newline := formed_space (by decide) (by decide)

theorem formed_linesIn {name : String} (hn : IsName name.toList) {parts : List (List Event)}
    (h : ∀ part ∈ parts, Formed xmlEscapes part) : Formed xmlEscapes (linesIn name parts) := by
  have hlines : ∀ line ∈ parts.map (indented "    "), Formed xmlEscapes line := by
    intro line hline
    obtain ⟨part, hpart, rfl⟩ := List.mem_map.mp hline
    exact (formed_space (by decide) (by decide)).append (h part hpart)
  have hinner := (formed_newline.append (formed_intercalate formed_newline hlines)).append
    (formed_space (s := "\n  ".toList) (by decide) (by decide))
  exact (formed_space (by decide) (by decide)).append
    (hinner.element hn (fun _ ha => nomatch ha) List.nodup_nil)

theorem formed_urlParts (entry : SitemapUrl) :
    ∀ part ∈ urlParts entry, Formed xmlEscapes part := by
  intro part hpart
  simp only [urlParts, List.mem_append, List.mem_singleton, List.mem_map] at hpart
  rcases hpart with (rfl | ⟨date, -, rfl⟩) | ⟨alternate, -, rfl⟩
  · exact formed_xmlText (by decide) entry.loc
  · exact formed_date (by decide) date
  · have hdistinct : (["rel", "hreflang", "href"].map String.toList).Nodup := by decide
    refine formed_void (by decide) ?_ hdistinct
    intro a ha
    simp only [List.mem_cons, List.not_mem_nil, or_false] at ha
    rcases ha with rfl | rfl | rfl
    · exact sound_literal (by decide) (by decide) (by decide)
    · exact sound_xmlText (by decide) alternate.hreflang
    · exact sound_xmlText (by decide) alternate.href

theorem formed_link {rel type : String} (hrel : IsValue rel.toList ∧ '&' ∉ rel.toList)
    (htype : IsValue type.toList ∧ '&' ∉ type.toList) (href : String) :
    Formed xmlEscapes (linkEvents rel type href) := by
  have hdistinct : (["rel", "type", "href"].map String.toList).Nodup := by decide
  refine formed_void (by decide) ?_ hdistinct
  intro a ha
  simp only [List.mem_cons, List.not_mem_nil, or_false] at ha
  rcases ha with rfl | rfl | rfl
  · exact sound_literal (by decide) hrel.1 hrel.2
  · exact sound_literal (by decide) htype.1 htype.2
  · exact sound_xmlText (by decide) href

theorem formed_entryParts (entry : FeedEntry) :
    ∀ part ∈ entryParts entry, Formed xmlEscapes part := by
  intro part hpart
  simp only [entryParts, List.mem_append, List.mem_cons, List.not_mem_nil, or_false,
    List.mem_map] at hpart
  rcases hpart with (((rfl | rfl | rfl | rfl) | ⟨date, -, rfl⟩) | ⟨summary, -, rfl⟩) |
    ⟨html, -, rfl⟩
  · exact formed_xmlText (by decide) entry.title
  · have hscheme : Plain "urn:uuid:".toList ∧ '&' ∉ "urn:uuid:".toList := by decide
    exact formed_leaf (by decide)
      (plain_append.mpr ⟨hscheme.1, (isValue_xmlText entry.id).plain⟩)
      ((Escaping.references_of_not_mem hscheme.2).append (references_xmlText entry.id))
  · exact formed_link (by decide) (by decide) entry.href
  · exact formed_date (by decide) entry.updated
  · exact formed_date (by decide) date
  · exact formed_xmlText (by decide) summary
  · refine (formed_chars (isValue_xmlText html).plain (references_xmlText html)).element
      (by decide) ?_ (List.nodup_singleton _)
    intro a ha
    rw [List.mem_singleton.mp ha]
    exact sound_literal (by decide) (by decide) (by decide)

theorem formed_feedParts (input : FeedInput) :
    ∀ part ∈ feedParts input, Formed xmlEscapes part := by
  intro part hpart
  simp only [feedParts, List.mem_cons, List.not_mem_nil, or_false] at hpart
  rcases hpart with rfl | rfl | rfl | rfl | rfl
  · exact formed_xmlText (by decide) input.title
  · exact formed_xmlText (by decide) input.selfHref
  · exact formed_link (by decide) (by decide) input.selfHref
  · exact formed_link (by decide) (by decide) input.siteHref
  · exact formed_date (by decide) input.updated

theorem formed_entries {α : Type} {name : String} (hn : IsName name.toList)
    {parts : α → List (List Event)} (h : ∀ a, ∀ part ∈ parts a, Formed xmlEscapes part)
    (l : List α) :
    Formed xmlEscapes (newline.intercalate (l.map fun a => linesIn name (parts a))) := by
  refine formed_intercalate formed_newline fun part hpart => ?_
  obtain ⟨a, -, rfl⟩ := List.mem_map.mp hpart
  exact formed_linesIn hn (h a)

theorem formed_sitemapEvents (entries : List SitemapUrl) :
    Formed xmlEscapes (sitemapEvents entries) :=
  (formed_newline.append (formed_entries (by decide) formed_urlParts entries)).append
    formed_newline

theorem formed_feedEvents (input : FeedInput) : Formed xmlEscapes (feedEvents input) := by
  have hlines : Formed xmlEscapes
      ((feedParts input).flatMap fun part => indented "  " part ++ newline) := by
    refine formed_flatMap fun part hpart => ?_
    exact ((formed_space (by decide) (by decide)).append (formed_feedParts input part hpart)).append
      formed_newline
  exact ((formed_newline.append hlines).append
    (formed_entries (by decide) formed_entryParts input.entries)).append formed_newline

/-! ## The characters -/

/-- Every character is one of XML. -/
def XmlString (s : String) : Prop := ∀ c ∈ s.toList, isXmlChar c = true

instance (s : String) : Decidable (XmlString s) :=
  decidable_of_iff (s.toList.all isXmlChar) (by simp [XmlString])

/-- Without the two characters that are neither of XML nor controls. -/
def WithoutNoncharacters (text : String) : Prop := '\uFFFE' ∉ text.toList ∧ '\uFFFF' ∉ text.toList

theorem xmlString_append {s t : String} : XmlString (s ++ t) ↔ XmlString s ∧ XmlString t := by
  rw [XmlString, String.toList_append]
  exact List.forall_mem_append

/-- The characters of XML are those that are kept, without two. -/
theorem isXmlChar_iff (c : Char) : isXmlChar c = true ↔
    isDropped c = false ∧ c ≠ '\uFFFE' ∧ c ≠ '\uFFFF' := by
  have hvalid : c.toNat < 0xD800 ∨ 0xDFFF < c.toNat ∧ c.toNat < 0x110000 := c.valid
  simp only [isXmlChar, isDropped, List.mem_cons, List.not_mem_nil, or_false, Bool.or_eq_true,
    Bool.and_eq_true, decide_eq_true_eq, Bool.or_eq_false_iff, Bool.and_eq_false_iff,
    decide_eq_false_iff_not, ne_eq, ← Char.toNat_inj]
  simp only [Char.reduceToNat]
  omega

theorem mem_escape_of_noncharacter {c : Char} (hc : c = '\uFFFE' ∨ c = '\uFFFF') {value : String}
    (h : c ∈ value.toList) : c ∈ xmlText value := by
  refine List.mem_flatMap.mpr ⟨c, List.mem_filter.mpr ⟨h, ?_⟩, ?_⟩
  · rcases hc with rfl | rfl <;> decide
  · rcases hc with rfl | rfl <;> decide

theorem xmlString_escapeXml (value : String) :
    XmlString (escapeXml value) ↔ WithoutNoncharacters value := by
  rw [XmlString, toList_escapeXml]
  constructor
  · intro h
    constructor
    · intro hc
      exact absurd (h _ (mem_escape_of_noncharacter (Or.inl rfl) hc)) (by decide)
    · intro hc
      exact absurd (h _ (mem_escape_of_noncharacter (Or.inr rfl) hc)) (by decide)
  · rintro ⟨hfirst, hlast⟩
    have hcodes : xmlEscapes.table.all fun e => e.2.all isXmlChar := by decide
    refine xmlEscapes.forall_escape (fun e he => List.all_eq_true.mp (List.all_eq_true.mp hcodes e he))
      fun c hc _ => ?_
    obtain ⟨hmem, hkept⟩ := List.mem_filter.mp hc
    refine (isXmlChar_iff c).mpr ⟨by simpa using hkept, ?_, ?_⟩
    · rintro rfl
      exact hfirst hmem
    · rintro rfl
      exact hlast hmem

/-- The characters of a string that XML allows. -/
def allowedChars (text : String) : List Char := text.toList.filter isXmlChar

/-- Undoing the references gives back the string without what XML forbids. -/
theorem unescape_xmlText {value : String} (h : WithoutNoncharacters value) :
    xmlEscapes.unescape (xmlText value) = allowedChars value := by
  rw [xmlText, xmlEscapes.unescape_escape, allowedChars]
  refine List.filter_congr fun c hc => ?_
  have hfirst : c ≠ '\uFFFE' := by
    rintro rfl
    exact h.1 hc
  have hlast : c ≠ '\uFFFF' := by
    rintro rfl
    exact h.2 hc
  have hiff := isXmlChar_iff c
  cases hdropped : isDropped c <;> simp_all

theorem xmlString_toISOString (time : Int) : XmlString (toISOString time) := by
  intro c hc
  rw [toList_toISOString] at hc
  rcases mem_isoChars hc with hdigit | hsign
  · obtain ⟨hlow, hhigh⟩ := Char.isDigit_iff_toNat.mp hdigit
    have hbounds : 0x20 ≤ c.toNat ∧ c.toNat ≤ 0xD7FF := by
      simp only [Char.reduceToNat] at hlow hhigh
      omega
    simp [isXmlChar, hbounds]
  · simp only [List.mem_cons, List.not_mem_nil, or_false] at hsign
    rcases hsign with rfl | rfl | rfl | rfl | rfl | rfl <;> decide

theorem xmlString_intercalate {sep : String} (hsep : XmlString sep) (parts : List String) :
    XmlString (sep.intercalate parts) ↔ ∀ part ∈ parts, XmlString part := by
  induction parts with
  | nil => simp [XmlString]
  | cons part parts ih =>
    cases parts with
    | nil => simp
    | cons next parts =>
      rw [String.intercalate_cons_cons, xmlString_append, xmlString_append, ih]
      simp [hsep]

/-! ## What the feed holds -/

section Held
variable {name : List Char}

theorem holds_textLeaf (tag : String) (attributes : List Attribute) (text : List Char) :
    Holds name (leaf tag attributes text) (if tag.toList = name then [text] else []) :=
  holds_leaf text attributes

theorem contents_textLeaf (tag : String) (attributes : List Attribute) (text : List Char) :
    contents name (leaf tag attributes text) = if tag.toList = name then [text] else [] :=
  (holds_textLeaf tag attributes text).contents

theorem settled_textLeaf (tag : String) (attributes : List Attribute) (text : List Char) :
    Settled name (leaf tag attributes text) :=
  (holds_textLeaf tag attributes text).settled

theorem holds_link (rel type href : String) : Holds name (linkEvents rel type href) [] :=
  holds_void _

theorem settled_entryParts (entry : FeedEntry) : ∀ part ∈ entryParts entry, Settled name part := by
  intro part hpart
  simp only [entryParts, List.mem_append, List.mem_cons, List.not_mem_nil, or_false,
    List.mem_map] at hpart
  rcases hpart with (((rfl | rfl | rfl | rfl) | ⟨date, -, rfl⟩) | ⟨summary, -, rfl⟩) |
    ⟨html, -, rfl⟩
  all_goals
    first
    | exact settled_textLeaf _ _ _
    | exact (holds_link _ _ _).settled

theorem settled_feedParts (input : FeedInput) : ∀ part ∈ feedParts input, Settled name part := by
  intro part hpart
  simp only [feedParts, List.mem_cons, List.not_mem_nil, or_false] at hpart
  rcases hpart with rfl | rfl | rfl | rfl | rfl
  all_goals
    first
    | exact settled_textLeaf _ _ _
    | exact (holds_link _ _ _).settled

theorem holds_indented (indent : String) {part : List Event} (h : Settled name part) :
    Holds name (indented indent part) (contents name part) :=
  (holds_chars indent.toList).append h

theorem holds_newline : Holds name newline [] := holds_chars ['\n']

theorem holds_linesIn {tag : String} (htag : tag.toList ≠ name) {parts : List (List Event)}
    (h : ∀ part ∈ parts, Settled name part) :
    Holds name (linesIn tag parts) (parts.flatMap (contents name)) := by
  have hlines : Holds name (newline.intercalate (parts.map (indented "    ")))
      (parts.flatMap (contents name)) :=
    holds_intercalate holds_newline fun part hpart => holds_indented "    " (h part hpart)
  have hinner := (holds_newline.append hlines).append (holds_chars "\n  ".toList)
  rw [List.nil_append, List.append_nil] at hinner
  exact (holds_chars "  ".toList).append (hinner.element htag [])

/-- The elements of a name in a feed hold what its parts and its entries hold of it, unless
they are the entries themselves. -/
theorem holds_feedEvents (hentry : "entry".toList ≠ name) (input : FeedInput) :
    Holds name (feedEvents input) ((feedParts input).flatMap (contents name) ++
      input.entries.flatMap fun entry => (entryParts entry).flatMap (contents name)) := by
  have hparts : Holds name
      ((feedParts input).flatMap fun part => indented "  " part ++ newline)
      ((feedParts input).flatMap (contents name)) := by
    refine holds_flatMap fun part hpart => ?_
    have hsettled : Settled name part := settled_feedParts input part hpart
    have hline := (holds_indented "  " hsettled).append holds_newline
    rwa [List.append_nil] at hline
  have hentries : Holds name
      (newline.intercalate (input.entries.map fun entry => linesIn "entry" (entryParts entry)))
      (input.entries.flatMap fun entry => (entryParts entry).flatMap (contents name)) :=
    holds_intercalate holds_newline fun entry _ => holds_linesIn hentry (settled_entryParts entry)
  have hall := ((holds_newline.append hparts).append hentries).append holds_newline
  rwa [List.nil_append, List.append_nil] at hall

/-- The elements of a name, out of a document as it is written. -/
def elementTexts (name : String) (document : String) : Option (List (List Char)) :=
  (read (document.toList.drop xmlDeclaration.length)).map fun events =>
    (contents name.toList events).map xmlEscapes.unescape

end Held

theorem formed_feed (input : FeedInput) : Formed xmlEscapes
    (element "feed".toList (feedAttributes input) (feedEvents input)) := by
  have hdistinct : (["xmlns", "xml:lang"].map String.toList).Nodup := by decide
  refine (formed_feedEvents input).element (by decide) ?_ hdistinct
  intro a ha
  simp only [feedAttributes, List.mem_cons, List.not_mem_nil, or_false] at ha
  rcases ha with rfl | rfl
  · exact sound_literal (by decide) (by decide) (by decide)
  · exact sound_xmlText (by decide) input.language

theorem formed_sitemap (entries : List SitemapUrl) : Formed xmlEscapes
    (element "urlset".toList sitemapAttributes (sitemapEvents entries)) := by
  have hdistinct : (["xmlns", "xmlns:xhtml"].map String.toList).Nodup := by decide
  refine (formed_sitemapEvents entries).element (by decide) ?_ hdistinct
  intro a ha
  simp only [sitemapAttributes, List.mem_cons, List.not_mem_nil, or_false] at ha
  rcases ha with rfl | rfl
  · exact sound_literal (by decide) (by decide) (by decide)
  · exact sound_literal (by decide) (by decide) (by decide)

/-! ## Well-formed documents -/

/-- The strings of a sitemap. -/
def sitemapTexts (entries : List SitemapUrl) : List String :=
  entries.flatMap fun entry => entry.loc ::
    (entry.alternates.getD []).flatMap fun alternate => [alternate.hreflang, alternate.href]

/-- The strings of a feed. -/
def feedTexts (input : FeedInput) : List String :=
  [input.language, input.title, input.selfHref, input.siteHref] ++
    input.entries.flatMap fun entry =>
      [entry.title, entry.id, entry.href] ++ entry.summary.toList ++ entry.contentHtml.toList

/-- The feed is a document, and its elements give back what they were made of. -/
structure FeedWellFormed (input : FeedInput) : Prop where
  document : IsDocument xmlEscapes (feedXml input).toList
  titles : elementTexts "title" (feedXml input) =
    some ((input.title :: input.entries.map (·.title)).map allowedChars)
  summaries : elementTexts "summary" (feedXml input) =
    some ((input.entries.flatMap fun entry => present entry.summary).map allowedChars)
  contents : elementTexts "content" (feedXml input) =
    some ((input.entries.flatMap fun entry => present entry.contentHtml).map allowedChars)

theorem present_clean (text : Option String) :
    (∀ t ∈ present text, WithoutNoncharacters t) ↔ ∀ t ∈ text.toList, WithoutNoncharacters t := by
  cases text with
  | none => rfl
  | some t =>
    by_cases ht : t = ""
    · subst ht
      have hempty : WithoutNoncharacters "" := by
        constructor <;> decide
      simp [present, hempty]
    · simp [present, ht]

theorem xmlString_lines (parts : List String) :
    XmlString ("\n".intercalate parts) ↔ ∀ part ∈ parts, XmlString part :=
  xmlString_intercalate (by decide) parts

theorem xmlString_urlLines (entry : SitemapUrl) : (∀ line ∈ urlLines entry, XmlString line) ↔
    WithoutNoncharacters entry.loc ∧ ∀ alternate ∈ entry.alternates.getD [],
      WithoutNoncharacters alternate.hreflang ∧ WithoutNoncharacters alternate.href := by
  simp +decide only [urlLines, List.forall_mem_append, List.forall_mem_map, List.mem_singleton,
    forall_eq, xmlString_append, xmlString_escapeXml, xmlString_toISOString, true_and, and_true,
    implies_true]

theorem xmlString_entryLines (entry : FeedEntry) :
    (∀ line ∈ entryLines entry, XmlString line) ↔
      ((WithoutNoncharacters entry.title ∧ WithoutNoncharacters entry.id ∧
        WithoutNoncharacters entry.href) ∧
      ∀ text ∈ entry.summary.toList, WithoutNoncharacters text) ∧
      ∀ text ∈ entry.contentHtml.toList, WithoutNoncharacters text := by
  rw [← present_clean entry.summary, ← present_clean entry.contentHtml]
  simp +decide only [entryLines, List.forall_mem_append, List.forall_mem_map, List.forall_mem_cons,
    xmlString_append, xmlString_escapeXml, xmlString_toISOString, true_and, and_true, implies_true]

theorem xmlString_sitemapXml (entries : List SitemapUrl) :
    XmlString (sitemapXml entries) ↔ ∀ text ∈ sitemapTexts entries, WithoutNoncharacters text := by
  have htexts : (∀ text ∈ sitemapTexts entries, WithoutNoncharacters text) ↔
      ∀ entry ∈ entries, ∀ line ∈ urlLines entry, XmlString line := by
    simp only [xmlString_urlLines, sitemapTexts, List.forall_mem_flatMap, List.forall_mem_cons,
      List.not_mem_nil, false_imp_iff, implies_true, and_true]
  have hroot : XmlString "<?xml version=\"1.0\" encoding=\"UTF-8\"?>\n" ∧
      XmlString "<urlset xmlns=\"http://www.sitemaps.org/schemas/sitemap/0.9\"" ∧
      XmlString " xmlns:xhtml=\"http://www.w3.org/1999/xhtml\">\n" ∧
      XmlString "</urlset>\n" := by decide +kernel
  have hlines : XmlString "\n" ∧ XmlString "  <url>\n" ∧ XmlString "\n  </url>" := by
    decide +kernel
  rw [htexts]
  unfold sitemapXml
  simp only [xmlString_append, xmlString_lines, List.forall_mem_map, hroot, hlines, true_and,
    and_true]

theorem xmlString_feedXml (input : FeedInput) :
    XmlString (feedXml input) ↔ ∀ text ∈ feedTexts input, WithoutNoncharacters text := by
  have htexts : (∀ text ∈ feedTexts input, WithoutNoncharacters text) ↔
      (WithoutNoncharacters input.language ∧ WithoutNoncharacters input.title ∧
        WithoutNoncharacters input.selfHref ∧ WithoutNoncharacters input.siteHref) ∧
      ∀ entry ∈ input.entries, ∀ line ∈ entryLines entry, XmlString line := by
    simp only [xmlString_entryLines, feedTexts, List.forall_mem_append, List.forall_mem_flatMap,
      List.forall_mem_cons, List.not_mem_nil, false_imp_iff, implies_true, and_true]
  rw [htexts]
  unfold feedXml
  simp +decide only [xmlString_append, xmlString_lines, List.forall_mem_map, true_and, and_true,
    xmlString_escapeXml, xmlString_toISOString]
  constructor
  · rintro ⟨⟨⟨⟨⟨hlanguage, htitle⟩, hself⟩, -⟩, hsite⟩, hentries⟩
    exact ⟨⟨hlanguage, htitle, hself, hsite⟩, hentries⟩
  · rintro ⟨⟨hlanguage, htitle, hself, hsite⟩, hentries⟩
    exact ⟨⟨⟨⟨⟨hlanguage, htitle⟩, hself⟩, hself⟩, hsite⟩, hentries⟩

theorem isDocument_sitemap (entries : List SitemapUrl) :
    IsDocument xmlEscapes (sitemapXml entries).toList ↔
      ∀ text ∈ sitemapTexts entries, WithoutNoncharacters text := by
  rw [← xmlString_sitemapXml]
  refine ⟨fun h => h.characters, fun hchars => ?_⟩
  exact isDocument_of_formed (formed_sitemapEvents entries) (formed_sitemap entries) (by decide)
    (by decide) (toList_sitemapXml entries) hchars

theorem isDocument_feed (input : FeedInput) : IsDocument xmlEscapes (feedXml input).toList ↔
    ∀ text ∈ feedTexts input, WithoutNoncharacters text := by
  rw [← xmlString_feedXml]
  refine ⟨fun h => h.characters, fun hchars => ?_⟩
  exact isDocument_of_formed (formed_feedEvents input) (formed_feed input) (by decide)
    (by decide) (toList_feedXml input) hchars

/-- The texts read of the elements of a feed are those of its parts and of its entries. -/
theorem elementTexts_feed {name : String} (hentry : "entry".toList ≠ name.toList)
    (hfeed : "feed".toList ≠ name.toList) (input : FeedInput) :
    elementTexts name (feedXml input) =
      some (((feedParts input).flatMap (contents name.toList) ++ input.entries.flatMap fun entry =>
        (entryParts entry).flatMap (contents name.toList)).map xmlEscapes.unescape) := by
  have hformed := (formed_newline.append (formed_feed input)).append formed_newline
  have hread := read_write hformed.lexical
  have hholds := (holds_newline.append
    ((holds_feedEvents hentry input).element hfeed (feedAttributes input))).append holds_newline
  rw [List.nil_append, List.append_nil] at hholds
  rw [elementTexts, toList_feedXml, List.drop_left]
  rw [newline] at hread hholds
  rw [hread, Option.map_some, hholds.contents]

/-- What the elements of a name hold is what went into them, escaped. -/
theorem elementTexts_of_held {name : String} (hentry : "entry".toList ≠ name.toList)
    (hfeed : "feed".toList ≠ name.toList) {input : FeedInput} {texts : List String}
    (hclean : ∀ text ∈ texts, WithoutNoncharacters text)
    (hheld : (feedParts input).flatMap (contents name.toList) ++ input.entries.flatMap (fun entry =>
      (entryParts entry).flatMap (contents name.toList)) = texts.map xmlText) :
    elementTexts name (feedXml input) = some (texts.map allowedChars) := by
  rw [elementTexts_feed hentry hfeed, hheld, List.map_map]
  refine congrArg some (List.map_congr_left fun text htext => ?_)
  exact unescape_xmlText (hclean text htext)

theorem contents_link {name : List Char} (rel type href : String) :
    contents name (linkEvents rel type href) = [] :=
  (holds_link rel type href).contents

theorem flatMap_none {α : Type} (l : List α) :
    l.flatMap (fun _ => ([] : List (List Char))) = [] :=
  List.flatMap_eq_nil_iff.mpr fun _ _ => rfl

theorem held_title (input : FeedInput) :
    (feedParts input).flatMap (contents "title".toList) ++ input.entries.flatMap (fun entry =>
      (entryParts entry).flatMap (contents "title".toList)) =
        (input.title :: input.entries.map (·.title)).map xmlText := by
  simp [feedParts, entryParts, contents_textLeaf, contents_link, flatMap_none,
    List.map_eq_flatMap, List.flatMap_assoc]

theorem held_summary (input : FeedInput) :
    (feedParts input).flatMap (contents "summary".toList) ++ input.entries.flatMap (fun entry =>
      (entryParts entry).flatMap (contents "summary".toList)) =
        (input.entries.flatMap fun entry => present entry.summary).map xmlText := by
  simp [feedParts, entryParts, contents_textLeaf, contents_link, flatMap_none,
    List.map_eq_flatMap, List.flatMap_assoc]

theorem held_content (input : FeedInput) :
    (feedParts input).flatMap (contents "content".toList) ++ input.entries.flatMap (fun entry =>
      (entryParts entry).flatMap (contents "content".toList)) =
        (input.entries.flatMap fun entry => present entry.contentHtml).map xmlText := by
  simp [feedParts, entryParts, contents_textLeaf, contents_link, flatMap_none,
    List.map_eq_flatMap, List.flatMap_assoc]

theorem feedWellFormed_iff (input : FeedInput) :
    FeedWellFormed input ↔ ∀ text ∈ feedTexts input, WithoutNoncharacters text := by
  refine ⟨fun h => (isDocument_feed input).mp h.document, fun hclean => ?_⟩
  have htop : WithoutNoncharacters input.title := hclean _ (by simp [feedTexts])
  have hentry : ∀ entry ∈ input.entries, ∀ text ∈ [entry.title, entry.id, entry.href] ++
      entry.summary.toList ++ entry.contentHtml.toList, WithoutNoncharacters text := by
    intro entry hmem text htext
    exact hclean text (List.mem_append_right _ (List.mem_flatMap.mpr ⟨entry, hmem, htext⟩))
  have hsummary : ∀ entry ∈ input.entries, ∀ text ∈ present entry.summary,
      WithoutNoncharacters text := by
    intro entry hmem
    refine (present_clean entry.summary).mpr fun text htext => hentry entry hmem text ?_
    exact List.mem_append_left _ (List.mem_append_right _ htext)
  have hcontent : ∀ entry ∈ input.entries, ∀ text ∈ present entry.contentHtml,
      WithoutNoncharacters text := by
    intro entry hmem
    refine (present_clean entry.contentHtml).mpr fun text htext => hentry entry hmem text ?_
    exact List.mem_append_right _ htext
  refine ⟨(isDocument_feed input).mpr hclean, ?_, ?_, ?_⟩
  · refine elementTexts_of_held (by decide) (by decide) ?_ (held_title input)
    intro text htext
    rcases List.mem_cons.mp htext with rfl | htext
    · exact htop
    · obtain ⟨entry, hmem, rfl⟩ := List.mem_map.mp htext
      exact hentry entry hmem _ (by simp)
  · refine elementTexts_of_held (by decide) (by decide) ?_ (held_summary input)
    intro text htext
    obtain ⟨entry, hmem, hin⟩ := List.mem_flatMap.mp htext
    exact hsummary entry hmem text hin
  · refine elementTexts_of_held (by decide) (by decide) ?_ (held_content input)
    intro text htext
    obtain ⟨entry, hmem, hin⟩ := List.mem_flatMap.mp htext
    exact hcontent entry hmem text hin

/-- **Both documents are well-formed** exactly as long as no string has one of the two
noncharacters. -/
theorem machine_documents_iff (entries : List SitemapUrl) (input : FeedInput) :
    (IsDocument xmlEscapes (sitemapXml entries).toList ↔
      ∀ text ∈ sitemapTexts entries, WithoutNoncharacters text) ∧
    (FeedWellFormed input ↔ ∀ text ∈ feedTexts input, WithoutNoncharacters text) :=
  ⟨isDocument_sitemap entries, feedWellFormed_iff input⟩

/-- A feed whose title has a noncharacter. -/
def brokenFeed : FeedInput where
  title := "A\uFFFFB"
  siteHref := "https://example.com/en/"
  selfHref := "https://example.com/en/feed.xml"
  language := "en"
  updated := ⟨0, by decide⟩
  entries := []

theorem noncharacter_breaks_feed : ¬ FeedWellFormed brokenFeed := by
  intro h
  have hclean := (isDocument_feed brokenFeed).mp h.document
  have htitle : WithoutNoncharacters brokenFeed.title := hclean _ (by simp [feedTexts])
  exact htitle.2 (by decide)

end PressLabz
