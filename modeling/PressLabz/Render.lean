import PressLabz.Markup
import PressLabz.SafeHref
import PressLabz.Utf16

/-! # The whitelist renderer

`packages/blocks/src/render.ts`.  The renderer joins strings; what it writes is also what a
list of events writes (`toList_renderBlock`), and those events nest and are of the fixed
kinds.  Themes, previews and feeds take the string as it is.
-/
namespace PressLabz
open Markup Utf16

/-! ## The source -/

/-- A number as it is printed; zero and `NaN` count as absent. -/
structure Numeral where
  text : String
  truthy : Bool
  plain : ∀ c ∈ text.toList, c.isAlphanum ∨ c ∈ ['+', '-', '.']

/-- A `ResolvedMedia`: resolved by the caller, and its sizes may be any numbers. -/
structure ResolvedImage where
  src : String
  alt : String
  width : Option Numeral
  height : Option Numeral

structure RenderOptions where
  resolveMedia : Option (UuidText → Option ResolvedImage) := none

/-- `ESCAPES`. -/
def htmlEscapes : Escaping where
  table := [('&', "&amp;".toList), ('<', "&lt;".toList), ('>', "&gt;".toList),
    ('"', "&quot;".toList), ('\'', "&#39;".toList)]
  ampersand := by decide
  begins := by simp
  begins_one := by decide

def escapeHtml (value : String) : String := String.ofList (htmlEscapes.escape value.toList)

/-- `[a-z0-9]`. -/
def isLanguageStart (c : Char) : Bool := c.isLower || c.isDigit

/-- `LANGUAGE_PATTERN`. -/
def languagePattern (language : String) : Bool :=
  match language.toList with
  | [] => false
  | c :: rest => isLanguageStart c && rest.length ≤ 29 &&
      rest.all fun d => isLanguageStart d || d ∈ ['+', '#', '.', '_', '-']

section Source
variable {H : Type} (p : HostParser H) (options : RenderOptions)

def wrapMark (mark : Mark) (html : String) : String :=
  match mark with
  | .bold => "<strong>" ++ html ++ "</strong>"
  | .italic => "<em>" ++ html ++ "</em>"
  | .strike => "<s>" ++ html ++ "</s>"
  | .code => "<code>" ++ html ++ "</code>"
  | .link href newTab =>
    if !isSafeHref p (textUnits href) then html
    else
      let target := if newTab = some true then " target=\"_blank\" rel=\"noopener noreferrer\"" else ""
      "<a href=\"" ++ escapeHtml href ++ "\"" ++ target ++ ">" ++ html ++ "</a>"

def renderInline (content : InlineContent) : String :=
  String.join (content.map fun node =>
    (node.marks.getD []).reverse.foldl (fun html mark => wrapMark p mark html)
      (escapeHtml node.text))

/-- A string that is there and not empty. -/
def given (text : Option String) : Option String := text.filter (· ≠ "")

/-- The ` width height` of an image that has both. -/
def sizeOfMedia (media : ResolvedImage) : String :=
  match media.width, media.height with
  | some width, some height =>
    if width.truthy && height.truthy then
      " width=\"" ++ width.text ++ "\" height=\"" ++ height.text ++ "\""
    else ""
  | _, _ => ""

/-- The `img` of an image block. -/
def img (media : ResolvedImage) : String :=
  "<img src=\"" ++ escapeHtml media.src ++ "\" alt=\"" ++ escapeHtml media.alt ++ "\"" ++
    sizeOfMedia media ++ " loading=\"lazy\" decoding=\"async\" />"

def renderBlock (block : Block) : String :=
  match block with
  | .paragraph _ content => "<p>" ++ renderInline p content ++ "</p>"
  | .heading _ level content =>
    "<h" ++ toString level ++ ">" ++ renderInline p content ++ "</h" ++ toString level ++ ">"
  | .quote _ content attribution =>
    let quote := "<blockquote><p>" ++ renderInline p content ++ "</p></blockquote>"
    match given attribution with
    | none => quote
    | some attribution =>
      "<figure>" ++ quote ++ "<figcaption>" ++ escapeHtml attribution ++ "</figcaption></figure>"
  | .list _ ordered items =>
    let tag := if ordered then "ol" else "ul"
    let items := String.join (items.map fun item => "<li>" ++ renderInline p item ++ "</li>")
    "<" ++ tag ++ ">" ++ items ++ "</" ++ tag ++ ">"
  | .code _ language code =>
    let «attribute» :=
      match (given language).filter (languagePattern ·) with
      | some language => " class=\"language-" ++ language ++ "\""
      | none => ""
    "<pre><code" ++ «attribute» ++ ">" ++ escapeHtml code ++ "</code></pre>"
  | .image _ mediaId caption =>
    match options.resolveMedia.bind fun resolveMedia => resolveMedia mediaId with
    | none => ""
    | some media =>
      match caption with
      | none => "<figure>" ++ img media ++ "</figure>"
      | some caption =>
        "<figure>" ++ img media ++ "<figcaption>" ++ renderInline p caption ++ "</figcaption></figure>"
  | .divider _ => "<hr />"

def renderBlocksToHtml (blocks : Blocks) : String :=
  String.join (blocks.map (renderBlock p options))

end Source

/-! ## The events of the renderer -/

section Events
variable {H : Type} (p : HostParser H) (options : RenderOptions)

def attr (name : String) (value : List Char) : Attribute := ⟨name.toList, value⟩

def escaped (text : String) : List Char := htmlEscapes.escape text.toList

def markEvents (mark : Mark) (events : List Event) : List Event :=
  match mark with
  | .bold => element "strong".toList [] events
  | .italic => element "em".toList [] events
  | .strike => element "s".toList [] events
  | .code => element "code".toList [] events
  | .link href newTab =>
    if !isSafeHref p (textUnits href) then events
    else
      let target :=
        if newTab = some true then
          [attr "target" "_blank".toList, attr "rel" "noopener noreferrer".toList]
        else []
      element "a".toList (attr "href" (escaped href) :: target) events

def inlineEvents (content : InlineContent) : List Event :=
  content.flatMap fun node =>
    (node.marks.getD []).foldr (markEvents p) (chars (escaped node.text))

def sizeAttributes (media : ResolvedImage) : List Attribute :=
  match media.width, media.height with
  | some width, some height =>
    if width.truthy && height.truthy then
      [attr "width" width.text.toList, attr "height" height.text.toList]
    else []
  | _, _ => []

def languageAttributes (language : Option String) : List Attribute :=
  match (given language).filter (languagePattern ·) with
  | some language => [attr "class" ("language-".toList ++ language.toList)]
  | none => []

def imageEvent (media : ResolvedImage) : Event :=
  .void "img".toList (attr "src" (escaped media.src) ::
    attr "alt" (escaped media.alt) :: (sizeAttributes media ++
      [attr "loading" "lazy".toList, attr "decoding" "async".toList]))

def blockEvents (block : Block) : List Event :=
  match block with
  | .paragraph _ content => element "p".toList [] (inlineEvents p content)
  | .heading _ level content =>
    element ('h' :: (toString level).toList) [] (inlineEvents p content)
  | .quote _ content attribution =>
    let quote := element "blockquote".toList [] (element "p".toList [] (inlineEvents p content))
    match given attribution with
    | none => quote
    | some attribution =>
      element "figure".toList [] (quote ++ element "figcaption".toList [] (chars (escaped attribution)))
  | .list _ ordered items =>
    element (if ordered then "ol" else "ul").toList []
      (items.flatMap fun item => element "li".toList [] (inlineEvents p item))
  | .code _ language code =>
    element "pre".toList [] (element "code".toList (languageAttributes language)
      (chars (escaped code)))
  | .image _ mediaId caption =>
    match options.resolveMedia.bind fun resolveMedia => resolveMedia mediaId with
    | none => []
    | some media =>
      match caption with
      | none => element "figure".toList [] [imageEvent media]
      | some caption =>
        element "figure".toList []
          (imageEvent media :: element "figcaption".toList [] (inlineEvents p caption))
  | .divider _ => [.void "hr".toList []]

variable {p options}

theorem toList_escapeHtml (value : String) : (escapeHtml value).toList = escaped value :=
  String.toList_ofList

theorem toList_wrapMark (mark : Mark) {html : String} {events : List Event}
    (h : html.toList = write events) :
    (wrapMark p mark html).toList = write (markEvents p mark events) := by
  cases mark with
  | link href newTab =>
    simp only [wrapMark, markEvents]
    split
    · exact h
    · by_cases hnew : newTab = some true
      · simp [hnew, h, write_element, tagText, Attribute.write, attr, toList_escapeHtml]
      · simp [hnew, h, write_element, tagText, Attribute.write, attr, toList_escapeHtml]
  | _ => simp [wrapMark, markEvents, h, write_element, tagText]

theorem toList_renderInline (content : InlineContent) :
    (renderInline p content).toList = write (inlineEvents p content) := by
  have hnode : ∀ (marks : List Mark) (text : String),
      (marks.foldr (fun mark html => wrapMark p mark html) (escapeHtml text)).toList =
        write (marks.foldr (markEvents p) (chars (escaped text))) := by
    intro marks text
    induction marks with
    | nil => rw [List.foldr_nil, List.foldr_nil, write_chars, toList_escapeHtml]
    | cons mark marks ih => exact toList_wrapMark mark ih
  rw [renderInline, String.toList_join, List.flatMap_map, inlineEvents, write_flatMap]
  congr 1
  funext node
  rw [List.foldl_reverse]
  exact hnode _ _

theorem toList_sizeOfMedia (media : ResolvedImage) :
    (sizeOfMedia media).toList = (sizeAttributes media).flatMap Attribute.write := by
  unfold sizeOfMedia sizeAttributes
  split
  · split
    · simp [attr, Attribute.write]
    · rfl
  · rfl

theorem toList_img (media : ResolvedImage) : (img media).toList = (imageEvent media).write := by
  simp [img, imageEvent, Event.write, tagText, attr, Attribute.write, toList_escapeHtml,
    toList_sizeOfMedia]

theorem toList_renderBlock (block : Block) :
    (renderBlock p options block).toList = write (blockEvents p options block) := by
  cases block with
  | paragraph id content =>
    simp [renderBlock, blockEvents, write_element, tagText, toList_renderInline]
  | heading id level content =>
    simp [renderBlock, blockEvents, write_element, tagText, toList_renderInline]
  | quote id content attribution =>
    simp only [renderBlock, blockEvents]
    split <;>
      simp [write_element, tagText, toList_renderInline, toList_escapeHtml]
  | list id ordered items =>
    have hitems : (String.join (items.map fun item =>
        "<li>" ++ renderInline p item ++ "</li>")).toList =
          write (items.flatMap fun item => element "li".toList [] (inlineEvents p item)) := by
      rw [String.toList_join, List.flatMap_map, write_flatMap]
      congr 1
      funext item
      simp [write_element, tagText, toList_renderInline]
    simp only [renderBlock, blockEvents, write_element, tagText, String.toList_append, hitems]
    simp
  | code id language code =>
    simp only [renderBlock, blockEvents, languageAttributes]
    split <;>
      simp [write_element, tagText, attr, Attribute.write, toList_escapeHtml]
  | image id mediaId caption =>
    simp only [renderBlock, blockEvents]
    split
    · rfl
    · next media _ =>
      cases caption with
      | none =>
        simp [write_element, tagText, toList_img]
      | some caption =>
        simp [write_element, tagText, toList_renderInline, toList_img]
  | divider id => simp [renderBlock, blockEvents, Event.write, tagText]

/-- **The renderer writes events.** -/
theorem toList_renderBlocksToHtml (blocks : Blocks) :
    (renderBlocksToHtml p options blocks).toList = write (blocks.flatMap (blockEvents p options)) := by
  rw [renderBlocksToHtml, String.toList_join, List.flatMap_map, write_flatMap]
  congr 1
  funext block
  exact toList_renderBlock block

end Events

/-! ## The whitelist -/

/-- The tags of the renderer, each with the attributes it may have, in their order. -/
def fixedTags : List (List Char × List (List Char)) :=
  [("p", []), ("h2", []), ("h3", []), ("h4", []), ("blockquote", []), ("figure", []),
    ("figcaption", []), ("ol", []), ("ul", []), ("li", []), ("pre", []), ("code", ["class"]),
    ("strong", []), ("em", []), ("s", []), ("a", ["href", "target", "rel"])].map
      fun tag => (tag.1.toList, tag.2.map String.toList)

/-- The tags that have no content. -/
def fixedVoidTags : List (List Char × List (List Char)) :=
  [("hr", []), ("img", ["src", "alt", "width", "height", "loading", "decoding"])].map
    fun tag => (tag.1.toList, tag.2.map String.toList)

section Whitelist
variable {H : Type} (p : HostParser H)

structure FixedAttribute (a : Attribute) : Prop where
  value : IsValue a.value
  href : a.name = "href".toList →
    isSafeHref p (textUnits (String.ofList (htmlEscapes.unescape a.value))) = true
  language : a.name = "class".toList →
    ∃ language, a.value = "language-".toList ++ language.toList ∧ languagePattern language = true

def FixedTag (tags : List (List Char × List (List Char))) (name : List Char)
    (attributes : List Attribute) : Prop :=
  (∃ names, (name, names) ∈ tags ∧ (attributes.map Attribute.name).Sublist names) ∧
    ∀ a ∈ attributes, FixedAttribute p a

def Fixed : Event → Prop
  | .char c => c ≠ '<' ∧ c ≠ '>'
  | .opening name attributes => FixedTag p fixedTags name attributes
  | .closing name => name ∈ fixedTags.map Prod.fst
  | .void name attributes => FixedTag p fixedVoidTags name attributes

/-- The text reads as tags that nest, all of them of the fixed ones. -/
def Whitelisted (html : String) : Prop :=
  ∃ events, read html.toList = some events ∧ WellNested events ∧ ∀ e ∈ events, Fixed p e

/-- Events that nest, all of them fixed. -/
structure Safe (events : List Event) : Prop where
  nested : WellNested events
  fixed : ∀ e ∈ events, Fixed p e

variable {p}

theorem FixedTag.lexical {tags : List (List Char × List (List Char))} {name : List Char}
    {attributes : List Attribute} (htags : ∀ tag ∈ tags, IsName tag.1 ∧ ∀ n ∈ tag.2, IsName n)
    (h : FixedTag p tags name attributes) : IsName name ∧ ∀ a ∈ attributes, a.Lexical := by
  obtain ⟨⟨names, hmem, hsub⟩, hfixed⟩ := h
  obtain ⟨hname, hnames⟩ := htags _ hmem
  refine ⟨hname, fun a ha => ⟨hnames _ ?_, (hfixed a ha).value⟩⟩
  exact hsub.mem (List.mem_map_of_mem ha)

theorem names_fixed : ∀ tag ∈ fixedTags, IsName tag.1 ∧ ∀ n ∈ tag.2, IsName n := by
  decide

theorem names_fixedVoid : ∀ tag ∈ fixedVoidTags, IsName tag.1 ∧ ∀ n ∈ tag.2, IsName n := by
  decide

theorem Fixed.lexical {e : Event} (h : Fixed p e) : e.Lexical := by
  cases e with
  | char c => exact h
  | opening name attributes => exact FixedTag.lexical names_fixed h
  | closing name =>
    obtain ⟨tag, hmem, rfl⟩ := List.mem_map.mp h
    exact (names_fixed tag hmem).1
  | void name attributes => exact FixedTag.lexical names_fixedVoid h

theorem isValue_escaped (value : String) : IsValue (escaped value) :=
  htmlEscapes.isValue_escape (by decide) (by decide) value.toList

theorem Safe.append {events more : List Event} (h : Safe p events) (hmore : Safe p more) :
    Safe p (events ++ more) :=
  ⟨h.nested.append hmore.nested, List.forall_mem_append.mpr ⟨h.fixed, hmore.fixed⟩⟩

theorem safe_flatMap {α : Type} {l : List α} {f : α → List Event} (h : ∀ a ∈ l, Safe p (f a)) :
    Safe p (l.flatMap f) := by
  refine ⟨wellNested_flatMap fun a ha => (h a ha).nested, fun e he => ?_⟩
  obtain ⟨a, ha, hea⟩ := List.mem_flatMap.mp he
  exact (h a ha).fixed e hea

theorem Safe.element {events : List Event} (h : Safe p events) {name : List Char}
    {attributes : List Attribute} (htag : FixedTag p fixedTags name attributes) :
    Safe p (element name attributes events) := by
  refine ⟨h.nested.element name attributes, fun e he => ?_⟩
  obtain ⟨⟨names, hmem, -⟩, -⟩ := id htag
  rcases List.mem_cons.mp he with rfl | he
  · exact htag
  · rcases List.mem_append.mp he with he | he
    · exact h.fixed e he
    · rw [List.mem_singleton.mp he]
      exact List.mem_map_of_mem hmem

theorem safe_escaped (value : String) : Safe p (chars (escaped value)) := by
  refine ⟨wellNested_chars _, fun e he => ?_⟩
  obtain ⟨c, hc, rfl⟩ := List.mem_map.mp he
  exact (isValue_escaped value).plain c hc

theorem safe_void {name : List Char} {attributes : List Attribute}
    (htag : FixedTag p fixedVoidTags name attributes) : Safe p [.void name attributes] :=
  ⟨wellNested_void name attributes, fun _ he => List.mem_singleton.mp he ▸ htag⟩

/-- A tag of the table is fixed when it has no attributes. -/
theorem fixedTag_bare {tags : List (List Char × List (List Char))} {name : List Char}
    (h : name ∈ tags.map Prod.fst) : FixedTag p tags name [] := by
  obtain ⟨tag, hmem, rfl⟩ := List.mem_map.mp h
  exact ⟨⟨tag.2, hmem, List.nil_sublist _⟩, fun _ ha => nomatch ha⟩

/-- An attribute that is neither a link nor a class is fixed as soon as its value is escaped. -/
theorem fixedAttribute_plain {name : String} {value : List Char} (hvalue : IsValue value)
    (hhref : name ≠ "href") (hclass : name ≠ "class") : FixedAttribute p (attr name value) :=
  ⟨hvalue, fun h => absurd (String.toList_inj.mp h) hhref,
    fun h => absurd (String.toList_inj.mp h) hclass⟩

theorem fixedAttribute_href {href : String} (h : isSafeHref p (textUnits href) = true) :
    FixedAttribute p (attr "href" (escaped href)) := by
  refine ⟨isValue_escaped href, fun _ => ?_, fun hclass => absurd (String.toList_inj.mp hclass) (by decide)⟩
  rw [attr, escaped, htmlEscapes.unescape_escape, String.ofList_toList]
  exact h

theorem safe_markEvents (mark : Mark) {events : List Event} (h : Safe p events) :
    Safe p (markEvents p mark events) := by
  cases mark with
  | link href newTab =>
    simp only [markEvents]
    split
    · exact h
    · next hsafe =>
      have hhref : FixedAttribute p (attr "href" (escaped href)) :=
        fixedAttribute_href (by simpa using hsafe)
      refine h.element ?_
      split
      · refine ⟨⟨["href".toList, "target".toList, "rel".toList], by decide, by simp [attr]⟩, ?_⟩
        intro a ha
        simp only [List.mem_cons, List.not_mem_nil, or_false] at ha
        rcases ha with rfl | rfl | rfl
        · exact hhref
        · exact fixedAttribute_plain (by decide) (by decide) (by decide)
        · exact fixedAttribute_plain (by decide) (by decide) (by decide)
      · refine ⟨⟨["href".toList, "target".toList, "rel".toList], by decide, by simp [attr]⟩, ?_⟩
        intro a ha
        rw [List.mem_singleton.mp ha]
        exact hhref
  | _ => exact h.element (fixedTag_bare (by decide))

theorem safe_inlineEvents (content : InlineContent) : Safe p (inlineEvents p content) := by
  refine safe_flatMap fun node _ => ?_
  induction node.marks.getD [] with
  | nil => exact safe_escaped node.text
  | cons mark marks ih => exact safe_markEvents mark ih

theorem isValue_numeral (n : Numeral) : IsValue n.text.toList := by
  intro c hc hbad
  have hplain := n.plain c hc
  simp only [List.mem_cons, List.not_mem_nil, or_false] at hbad
  rcases hbad with rfl | rfl | rfl | rfl <;> revert hplain <;> decide

theorem isValue_language {language : String} (h : languagePattern language = true) :
    IsValue ("language-".toList ++ language.toList) := by
  intro c hc hbad
  simp only [List.mem_cons, List.not_mem_nil, or_false] at hbad
  rcases List.mem_append.mp hc with hc | hc
  · rcases hbad with rfl | rfl | rfl | rfl <;> revert hc <;> decide
  · unfold languagePattern at h
    split at h
    · cases h
    · next first rest htext =>
      rw [htext] at hc
      simp only [Bool.and_eq_true, List.all_eq_true] at h
      rcases List.mem_cons.mp hc with rfl | hc
      · have hstart := h.1.1
        rcases hbad with rfl | rfl | rfl | rfl <;> revert hstart <;> decide
      · have hrest := h.2 c hc
        rcases hbad with rfl | rfl | rfl | rfl <;> revert hrest <;> decide

theorem fixedTag_code (language : Option String) :
    FixedTag p fixedTags "code".toList (languageAttributes language) := by
  unfold languageAttributes
  split
  · next language hlanguage =>
    have hpattern := (Option.filter_eq_some_iff.mp hlanguage).2
    refine ⟨⟨["class".toList], by decide, by simp [attr]⟩, fun a ha => ?_⟩
    rw [List.mem_singleton.mp ha]
    exact ⟨isValue_language hpattern, fun h => absurd (String.toList_inj.mp h) (by decide),
      fun _ => ⟨language, rfl, hpattern⟩⟩
  · exact fixedTag_bare (by decide)

theorem fixedAttribute_size (media : ResolvedImage) :
    ∀ a ∈ sizeAttributes media, FixedAttribute p a := by
  unfold sizeAttributes
  split
  · next width height _ _ =>
    split
    · intro a ha
      simp only [List.mem_cons, List.not_mem_nil, or_false] at ha
      rcases ha with rfl | rfl
      · exact fixedAttribute_plain (isValue_numeral width) (by decide) (by decide)
      · exact fixedAttribute_plain (isValue_numeral height) (by decide) (by decide)
    · exact fun _ ha => nomatch ha
  · exact fun _ ha => nomatch ha

theorem safe_image (media : ResolvedImage) : Safe p [imageEvent media] := by
  refine safe_void ⟨⟨["src", "alt", "width", "height", "loading", "decoding"].map String.toList,
    by decide, ?_⟩, ?_⟩
  · unfold sizeAttributes
    split
    · split
      · simp [attr]
      · simp [attr]
    · simp [attr]
  · intro a ha
    simp only [List.mem_cons, List.mem_append, List.not_mem_nil, or_false] at ha
    rcases ha with rfl | rfl | ha | rfl | rfl
    · exact fixedAttribute_plain (isValue_escaped media.src) (by decide) (by decide)
    · exact fixedAttribute_plain (isValue_escaped media.alt) (by decide) (by decide)
    · exact fixedAttribute_size media a ha
    · exact fixedAttribute_plain (by decide) (by decide) (by decide)
    · exact fixedAttribute_plain (by decide) (by decide) (by decide)

/-- The levels of the heading type. -/
def Block.LevelFits : Block → Prop
  | .heading _ level _ => level ∈ [2, 3, 4]
  | _ => True

theorem safe_blockEvents {options : RenderOptions} {block : Block} (h : block.LevelFits) :
    Safe p (blockEvents p options block) := by
  cases block with
  | paragraph id content => exact (safe_inlineEvents content).element (fixedTag_bare (by decide))
  | heading id level content =>
    refine (safe_inlineEvents content).element (fixedTag_bare ?_)
    simp only [Block.LevelFits, List.mem_cons, List.not_mem_nil, or_false] at h
    rcases h with rfl | rfl | rfl <;> decide
  | quote id content attribution =>
    have hquote : Safe p (element "blockquote".toList []
        (element "p".toList [] (inlineEvents p content))) :=
      ((safe_inlineEvents content).element (fixedTag_bare (by decide))).element
        (fixedTag_bare (by decide))
    simp only [blockEvents]
    split
    · exact hquote
    · next attribution _ =>
      exact (hquote.append ((safe_escaped attribution).element (fixedTag_bare (by decide)))).element
        (fixedTag_bare (by decide))
  | list id ordered items =>
    have hitems : Safe p (items.flatMap fun item =>
        element "li".toList [] (inlineEvents p item)) :=
      safe_flatMap fun item _ => (safe_inlineEvents item).element (fixedTag_bare (by decide))
    exact hitems.element (fixedTag_bare (by cases ordered <;> decide))
  | code id language code =>
    exact ((safe_escaped code).element (fixedTag_code language)).element
      (fixedTag_bare (by decide))
  | image id mediaId caption =>
    simp only [blockEvents]
    split
    -- an image without its media is left out
    · exact ⟨wellNested_nil, (fun _ he => nomatch he)⟩
    · next media _ =>
      cases caption with
      | none => exact (safe_image media).element (fixedTag_bare (by decide))
      | some caption =>
        have hcaption : Safe p (element "figcaption".toList [] (inlineEvents p caption)) :=
          (safe_inlineEvents caption).element (fixedTag_bare (by decide))
        exact ((safe_image media).append hcaption).element (fixedTag_bare (by decide))
  | divider id => exact safe_void (fixedTag_bare (by decide))

/-! ## The words -/

/-- The texts, attributions and code of a block that is rendered, in order. -/
def shownTexts (options : RenderOptions) (block : Block) : List String :=
  match block with
  | .paragraph _ content => content.map (·.text)
  | .heading _ _ content => content.map (·.text)
  | .quote _ content attribution => content.map (·.text) ++ attribution.toList
  | .list _ _ items => items.flatMap fun item => item.map (·.text)
  | .code _ _ code => [code]
  | .image _ mediaId caption =>
    match options.resolveMedia.bind fun resolveMedia => resolveMedia mediaId with
    | none => []
    | some _ => (caption.getD []).map (·.text)
  | .divider _ => []

theorem text_markEvents (mark : Mark) (events : List Event) :
    text (markEvents p mark events) = text events := by
  cases mark with
  | link href newTab =>
    simp only [markEvents]
    split
    · rfl
    · exact text_element _ _ events
  | _ => exact text_element _ _ events

theorem text_inlineEvents (content : InlineContent) :
    text (inlineEvents p content) = (content.map (·.text)).flatMap escaped := by
  rw [inlineEvents, text_flatMap, List.flatMap_map]
  congr 1
  funext node
  induction node.marks.getD [] with
  | nil => exact text_chars _
  | cons mark marks ih => rw [List.foldr_cons, text_markEvents, ih]

theorem escaped_not_given {text : Option String} (h : given text = none) :
    text.toList.flatMap escaped = [] := by
  cases text with
  | none => rfl
  | some t =>
    have ht : t = "" := by
      by_contra hne
      rw [given, Option.filter_some, if_pos (by simpa using hne)] at h
      cases h
    subst ht
    rfl

theorem text_blockEvents (options : RenderOptions) (block : Block) :
    text (blockEvents p options block) = (shownTexts options block).flatMap escaped := by
  cases block with
  | paragraph id content => simp [blockEvents, shownTexts, text_inlineEvents]
  | heading id level content => simp [blockEvents, shownTexts, text_inlineEvents]
  | quote id content attribution =>
    simp only [blockEvents, shownTexts]
    split
    · next hnone =>
      rw [List.flatMap_append, escaped_not_given hnone, text_element, text_element,
        text_inlineEvents, List.append_nil]
    · next attribution' hsome =>
      rw [(Option.filter_eq_some_iff.mp hsome).1]
      simp [text_inlineEvents]
  | list id ordered items =>
    simp [blockEvents, shownTexts, text_flatMap, text_inlineEvents, List.flatMap_assoc]
  | code id language code => simp [blockEvents, shownTexts]
  | image id mediaId caption =>
    simp only [blockEvents, shownTexts]
    split
    · rfl
    · cases caption with
      | none => rfl
      | some caption =>
        rw [text_element, ← List.singleton_append, text_append, text_element, text_inlineEvents]
        rfl
  | divider id => rfl

/-- **What the renderer emits** is of the whitelist, and its text is the text of the blocks:
nothing an author writes becomes markup, and none of it is lost. -/
theorem renders_whitelisted {options : RenderOptions} {blocks : Blocks}
    (h : ∀ block ∈ blocks, block.LevelFits) :
    Whitelisted p (renderBlocksToHtml p options blocks) ∧
    htmlEscapes.unescape (stripTags false (renderBlocksToHtml p options blocks).toList) =
      (String.join (blocks.flatMap (shownTexts options))).toList := by
  have hsafe : Safe p (blocks.flatMap (blockEvents p options)) :=
    safe_flatMap fun block hblock => safe_blockEvents (h block hblock)
  have hlexical : ∀ e ∈ blocks.flatMap (blockEvents p options), e.Lexical :=
    fun e he => (hsafe.fixed e he).lexical
  rw [Whitelisted, toList_renderBlocksToHtml]
  refine ⟨⟨_, read_write hlexical, hsafe.nested, hsafe.fixed⟩, ?_⟩
  have htext : text (blocks.flatMap (blockEvents p options)) =
      htmlEscapes.escape (String.join (blocks.flatMap (shownTexts options))).toList := by
    rw [text_flatMap, String.toList_join, Escaping.escape, List.flatMap_assoc, List.flatMap_assoc]
    congr 1
    funext block
    exact text_blockEvents options block
  rw [stripTags_write hlexical, htext, Escaping.unescape_escape]

end Whitelist

/-- A heading that tries a tag and a link of a scheme that is not allowed. -/
def scriptHeading : Block :=
  .heading (Uuid.text 1) 2 [⟨"<script>", some [.link "javascript:alert(1)" none, .bold]⟩]

example : renderBlocksToHtml plainHosts {} [scriptHeading] =
    "<h2><strong>&lt;script&gt;</strong></h2>" := by decide +kernel

theorem renders_whitelisted_script :
    Whitelisted plainHosts (renderBlocksToHtml plainHosts {} [scriptHeading]) ∧
    htmlEscapes.unescape (stripTags false
      (renderBlocksToHtml plainHosts {} [scriptHeading]).toList) = "<script>".toList := by
  have hlevel : scriptHeading.LevelFits := by
    show 2 ∈ [2, 3, 4]
    decide
  exact renders_whitelisted fun block hblock => List.mem_singleton.mp hblock ▸ hlevel

end PressLabz
