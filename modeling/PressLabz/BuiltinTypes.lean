import PressLabz.ContentTypes
import PressLabz.Utf16

/-! # The types PressLabz ships with

`defineContentType` of `packages/core/src/content-types.ts`, as far as a whole
state is judged by it, and the two declarations of `content-types.builtin.ts`.
A refusal is one `none`: which field a `ZodError` names is not modelled.

Whether a link may be followed is decided by the URL parser of the platform,
which is a parameter (`isSafeHref`).  Lengths are those of JavaScript: a
character outside the basic plane counts twice.
-/
namespace PressLabz

/-- `string.length`: a character past the first plane takes two units. -/
def jsLength (s : String) : Nat := s.toList.length + s.toList.countP (65536 ≤ ·.toNat)

theorem length_textUnits (text : String) : (Utf16.textUnits text).length = jsLength text := by
  rw [Utf16.textUnits, jsLength]
  induction text.toList with
  | nil => rfl
  | cons c rest ih =>
    rw [List.flatMap_cons, List.length_append, ih, List.countP_cons, Utf16.unitsOf]
    by_cases hc : c.toNat < 0x10000
    · have hplane : ¬ 65536 ≤ c.toNat := by omega
      simp [hc, hplane]
      omega
    · have hplane : 65536 ≤ c.toNat := by omega
      simp [hc, hplane]
      omega

/-! ## Slugs -/

def isSlugCharacter (c : Char) : Bool := ('a' ≤ c && c ≤ 'z') || ('0' ≤ c && c ≤ '9')

/-- `slugSchema`: runs of lower case letters and digits, single hyphens between them. -/
def isSlug (slug : String) : Bool :=
  1 ≤ jsLength slug && jsLength slug ≤ 120 &&
    (slug.toList.splitOn '-').all fun run => run ≠ [] && run.all isSlugCharacter

/-! ## Blocks -/

section Blocks
variable (isSafeHref : String → Bool)

/-- `markSchema`. -/
def Mark.isValid : Mark → Bool
  | .link href _ => jsLength href ≤ 2048 && isSafeHref href
  | _ => true

/-- `inlineContentSchema`. -/
def inlineIsValid (content : InlineContent) : Bool :=
  content.all fun node => node.marks.all fun marks =>
    marks.length ≤ 8 && marks.all (Mark.isValid isSafeHref)

/-- `blockSchema`. -/
def Block.isValid : Block → Bool
  | .paragraph _ content => inlineIsValid isSafeHref content
  | .heading _ level content => level ∈ [2, 3, 4] && inlineIsValid isSafeHref content
  | .quote _ content attribution =>
    inlineIsValid isSafeHref content && attribution.all fun a => jsLength a ≤ 200
  | .list _ _ items =>
    1 ≤ items.length && items.length ≤ 500 && items.all (inlineIsValid isSafeHref)
  | .code _ language _ => language.all fun l => jsLength l ≤ 30
  | .image _ _ caption => caption.all (inlineIsValid isSafeHref)
  | .divider _ => true

def Block.id : Block → UuidText
  | .paragraph id _ | .heading id _ _ | .quote id _ _ | .list id _ _ | .code id _ _
  | .image id _ _ | .divider id => id

/-- `blocksSchema`: no two blocks share an id, compared as texts. -/
def blocksAreValid (blocks : Blocks) : Bool :=
  blocks.all (Block.isValid isSafeHref) && decide (blocks.map Block.id).Nodup

end Blocks

/-! ## Metadata -/

/-- `z.string().max(n)`; a uuid is a string of 36 characters. -/
def textSchema (max : Nat) : Json → Option Json
  | .string s => if jsLength s ≤ max then some (.string s) else none
  | .uuid t => if 36 ≤ max then some (.uuid t) else none
  | _ => none

def booleanSchema : Json → Option Json
  | .bool b => some (.bool b)
  | _ => none

def uuidSchema : Json → Option Json
  | .uuid t => some (.uuid t)
  | _ => none

/-- An optional key of a `z.object`: absent, or parsed under its name. -/
def optionalKey (name : String) (schema : Json → Option Json) (fields : Meta) : Option Meta :=
  match fields.lookup name with
  | none => some []
  | some value => (schema value).map fun parsed => [(name, parsed)]

/-- A `z.object` of optional keys: other keys are dropped. -/
def objectSchema (keys : List (String × (Json → Option Json))) (fields : Meta) : Option Meta :=
  (keys.mapM fun (name, schema) => optionalKey name schema fields).map List.flatten

def seoSchema : Json → Option Json
  | .object fields =>
    (objectSchema [("title", textSchema 70), ("description", textSchema 160),
      ("noindex", booleanSchema)] fields).map .object
  | _ => none

/-! ## `defineContentType` -/

/-- The options of `defineContentType`, with `access` as it is after the defaults were
spread under it. -/
structure ContentTypeOptions where
  name : String
  hierarchical : Bool := false
  basePath : String
  «meta» : Meta → Option Meta
  mediaIn : Meta → List (UuidText × String)
  access : ContentOperation → OperationAccess := defaultAccess

/-- A schedule is a promise about a moment, so it needs one. -/
def scheduleHasDate (state : ContentState) : Bool :=
  state.status ≠ .scheduled || state.publishedAt.isSome

/-- `stateSchema`, of a merge that carries every key the row has.  A type that
does not nest knows no `parentId` and drops it. -/
def ContentTypeOptions.stateSchema (isSafeHref : String → Bool) (options : ContentTypeOptions)
    (merge : MergedState) : Option ContentState :=
  if ¬ isSlug merge.slug then none
  else if ¬ (1 ≤ jsLength merge.title ∧ jsLength merge.title ≤ 300) then none
  else if ¬ blocksAreValid isSafeHref merge.blocks then none
  else if merge.excerpt.toOption.any (fun excerpt => 1000 < jsLength excerpt) then none
  else
    match options.meta merge.meta with
    | none => none
    | some parsed =>
      let state : ContentState :=
        { slug := merge.slug
          title := merge.title
          excerpt := merge.excerpt.toOption
          status := merge.status
          blocks := merge.blocks
          «meta» := parsed
          publishedAt := merge.publishedAt.toOption
          parentId := if options.hierarchical then merge.parentId.toOption else none }
      if scheduleHasDate state then some state else none

def defineContentType (isSafeHref : String → Bool) (options : ContentTypeOptions) :
    AnyContentType where
  name := options.name
  hierarchical := options.hierarchical
  basePath := options.basePath
  access := options.access
  mediaIn := options.mediaIn
  stateSchema := options.stateSchema isSafeHref

section Builtin
variable (isSafeHref : String → Bool)

def postType : AnyContentType :=
  defineContentType isSafeHref
    { name := "post"
      basePath := "blog"
      «meta» := objectSchema [("seo", seoSchema), ("featuredMediaId", uuidSchema)]
      mediaIn := fun fields =>
        match fields.lookup "featuredMediaId" with
        | some (.uuid mediaId) => [(mediaId, "featuredMediaId")]
        | _ => [] }

def pageType : AnyContentType :=
  defineContentType isSafeHref
    { name := "page"
      basePath := ""
      hierarchical := true
      «meta» := objectSchema [("seo", seoSchema)]
      mediaIn := fun _ => [] }

def builtinContentTypes : List AnyContentType := [postType isSafeHref, pageType isSafeHref]

end Builtin

/-! ## What a state of a type is -/

/-- What `stateSchema` lets through, and what of the merge it keeps. -/
structure AcceptedState (options : ContentTypeOptions) (merge : MergedState)
    (state : ContentState) : Prop where
  slug : isSlug merge.slug = true
  title : 1 ≤ jsLength merge.title ∧ jsLength merge.title ≤ 300
  scheduled : merge.status = .scheduled → merge.publishedAt.toOption ≠ none
  parsed : options.meta merge.meta = some state.meta
  kept : state =
    { slug := merge.slug
      title := merge.title
      excerpt := merge.excerpt.toOption
      status := merge.status
      blocks := merge.blocks
      «meta» := state.meta
      publishedAt := merge.publishedAt.toOption
      parentId := if options.hierarchical then merge.parentId.toOption else none }

/-- **A state that was accepted is well formed**, and is the merge with its nulls
cleared and its metadata parsed. -/
theorem ContentTypeOptions.accepted {isSafeHref : String → Bool} {options : ContentTypeOptions}
    {merge : MergedState} {state : ContentState}
    (h : options.stateSchema isSafeHref merge = some state) :
    AcceptedState options merge state := by
  rw [ContentTypeOptions.stateSchema] at h
  split at h
  · cases h
  rename_i hslug
  split at h
  · cases h
  rename_i htitle
  split at h
  · cases h
  split at h
  · cases h
  split at h
  · cases h
  rename_i parsed hparsed
  simp only [Option.ite_none_right_eq_some, Option.some.injEq] at h
  obtain ⟨hdate, rfl⟩ := h
  refine ⟨by simpa using hslug, by simpa using htitle, fun hs hnone => ?_, hparsed, rfl⟩
  simp [scheduleHasDate, hs, hnone] at hdate

end PressLabz
