import PressLabz.ContentRoutes
import PressLabz.PublicSite

/-! # Bodies of the write requests

`createSchema` and `updateSchema` of `defineContentType`, over the JSON of a body:
one list of fields (`ContentTypeOptions.fields`), which a patch takes as it is and a
creation completes with its defaults.  A refusal is one `none`.

`packages/blocks` reads a document from JSON.  A column holds what was read as JSON
again, and a valid document is read back from there unchanged
(`blocksSchema_toJson`).
-/
namespace PressLabz

/-! ## Reading JSON -/

/-- What the schemas ask of the platform: whether a link may be followed, the
characters of a uuid, and `new Date(value)`, none for an invalid date. -/
structure Platform where
  isSafeHref : String → Bool
  spelled : UuidText → String
  date : Json → Option Nat

section Reading
variable {α : Type} (schema : Json → Option α) (name : String) (fields : Meta)

def booleanOf : Json → Option Bool
  | .bool b => some b
  | _ => none

/-- `z.uuid()`. -/
def uuidOf : Json → Option UuidText
  | .uuid t => some t
  | _ => none

/-- `z.string()`. -/
def Platform.stringOf (p : Platform) : Json → Option String
  | .string s => some s
  | .uuid t => some (p.spelled t)
  | _ => none

/-- `z.array(schema)`. -/
def arrayOf : Json → Option (List α)
  | .array items => items.mapM schema
  | _ => none

/-- A key of a `z.object`. -/
def requiredField : Option α := (fields.lookup name).bind schema

/-- `schema.optional()`: absent, or parsed. -/
def optionalField : Option (Option α) :=
  match fields.lookup name with
  | none => some none
  | some value => (schema value).map some

/-- `schema.nullish()`: a null is kept. -/
def nullishField : Option (Nullish α) :=
  match fields.lookup name with
  | none => some .undefined
  | some .null => some .null
  | some value => (schema value).map .value

end Reading

/-! ## Blocks -/

section Blocks
variable (p : Platform)

/-- The keys and types of `markSchema`. -/
def readMark : Json → Option Mark
  | .object fields =>
    match fields.lookup "type" with
    | some (.string "bold") => some .bold
    | some (.string "italic") => some .italic
    | some (.string "strike") => some .strike
    | some (.string "code") => some .code
    | some (.string "link") => do
      let href ← requiredField p.stringOf "href" fields
      let newTab ← optionalField booleanOf "newTab" fields
      return .link href newTab
    | _ => none
  | _ => none

/-- The keys and types of `inlineNodeSchema`. -/
def readInlineNode : Json → Option InlineNode
  | .object fields =>
    match fields.lookup "type" with
    | some (.string "text") => do
      let text ← requiredField p.stringOf "text" fields
      let marks ← optionalField (arrayOf (readMark p)) "marks" fields
      return { text, marks }
    | _ => none
  | _ => none

def readInlineContent : Json → Option InlineContent := arrayOf (readInlineNode p)

/-- The literals of a heading's level. -/
def readLevel : Json → Option Nat
  | .number 2 => some 2
  | .number 3 => some 3
  | .number 4 => some 4
  | _ => none

/-- The keys and types of `blockSchema`. -/
def readBlock : Json → Option Block
  | .object fields => do
    let id ← requiredField uuidOf "id" fields
    match fields.lookup "type" with
    | some (.string "paragraph") =>
      let content ← requiredField (readInlineContent p) "content" fields
      return .paragraph id content
    | some (.string "heading") =>
      let level ← requiredField readLevel "level" fields
      let content ← requiredField (readInlineContent p) "content" fields
      return .heading id level content
    | some (.string "quote") =>
      let content ← requiredField (readInlineContent p) "content" fields
      let attribution ← optionalField p.stringOf "attribution" fields
      return .quote id content attribution
    | some (.string "list") =>
      let ordered ← requiredField booleanOf "ordered" fields
      let items ← requiredField (arrayOf (readInlineContent p)) "items" fields
      return .list id ordered items
    | some (.string "code") =>
      let language ← optionalField p.stringOf "language" fields
      let code ← requiredField p.stringOf "code" fields
      return .code id language code
    | some (.string "image") =>
      let mediaId ← requiredField uuidOf "mediaId" fields
      let caption ← optionalField (readInlineContent p) "caption" fields
      return .image id mediaId caption
    | some (.string "divider") => return .divider id
    | _ => none
  | _ => none

/-- `blocksSchema`: what has the keys and types of blocks, and is valid. -/
def Platform.blocksSchema (value : Json) : Option Blocks :=
  (arrayOf (readBlock p) value).filter (blocksAreValid p.isSafeHref)

end Blocks

/-! ## A document as JSON -/

/-- A key that is there when there is a value. -/
def presentKey {α : Type} (name : String) (toJson : α → Json) (value : Option α) : Meta :=
  value.toList.map fun a => (name, toJson a)

def Mark.toJson : Mark → Json
  | .bold => .object [("type", .string "bold")]
  | .italic => .object [("type", .string "italic")]
  | .strike => .object [("type", .string "strike")]
  | .code => .object [("type", .string "code")]
  | .link href newTab =>
    .object (("type", .string "link") :: ("href", .string href) :: presentKey "newTab" .bool newTab)

def InlineNode.toJson (node : InlineNode) : Json :=
  .object (("type", .string "text") :: ("text", .string node.text) ::
    presentKey "marks" (fun marks => .array (marks.map Mark.toJson)) node.marks)

def inlineToJson (content : InlineContent) : Json := .array (content.map InlineNode.toJson)

def Block.toJson : Block → Json
  | .paragraph id content =>
    .object [("id", .uuid id), ("type", .string "paragraph"), ("content", inlineToJson content)]
  | .heading id level content =>
    .object [("id", .uuid id), ("type", .string "heading"), ("level", .number level),
      ("content", inlineToJson content)]
  | .quote id content attribution =>
    .object (("id", .uuid id) :: ("type", .string "quote") :: ("content", inlineToJson content) ::
      presentKey "attribution" .string attribution)
  | .list id ordered items =>
    .object [("id", .uuid id), ("type", .string "list"), ("ordered", .bool ordered),
      ("items", .array (items.map inlineToJson))]
  | .code id language text =>
    .object (("id", .uuid id) :: ("type", .string "code") :: ("code", .string text) ::
      presentKey "language" .string language)
  | .image id mediaId caption =>
    .object (("id", .uuid id) :: ("type", .string "image") :: ("mediaId", .uuid mediaId) ::
      presentKey "caption" inlineToJson caption)
  | .divider id => .object [("id", .uuid id), ("type", .string "divider")]

/-- The value of a `blocks` column. -/
def blocksToJson (blocks : Blocks) : Json := .array (blocks.map Block.toJson)

section RoundTrip
variable {p : Platform}

theorem arrayOf_map {α : Type} {schema : Json → Option α} {toJson : α → Json} {l : List α}
    (h : ∀ a ∈ l, schema (toJson a) = some a) : arrayOf schema (.array (l.map toJson)) = some l := by
  rw [arrayOf]
  induction l with
  | nil => rfl
  | cons a rest ih =>
    rw [List.map_cons, List.mapM_cons, h a List.mem_cons_self,
      ih fun b hb => h b (List.mem_cons_of_mem _ hb)]
    rfl

/-- A key that comes last is read if it is there. -/
theorem optionalField_presentKey {α : Type} {schema : Json → Option α} {toJson : α → Json}
    {name : String} {value : Option α} (before : Meta) (hbefore : before.lookup name = none)
    (h : ∀ a ∈ value, schema (toJson a) = some a) :
    optionalField schema name (before ++ presentKey name toJson value) = some value := by
  rw [optionalField, List.lookup_append, hbefore, Option.none_or]
  cases value with
  | none => rfl
  | some a =>
    rw [presentKey]
    simp [h a rfl]

theorem readMark_toJson (mark : Mark) : readMark p mark.toJson = some mark := by
  cases mark with
  | link href newTab =>
    have hnewTab : optionalField booleanOf "newTab" (("type", .string "link") ::
        ("href", .string href) :: presentKey "newTab" .bool newTab) = some newTab :=
      optionalField_presentKey [_, _] rfl fun b _ => rfl
    simp [readMark, Mark.toJson, List.lookup_cons, requiredField, Platform.stringOf, hnewTab]
  | _ => rfl

theorem readInlineNode_toJson (node : InlineNode) : readInlineNode p node.toJson = some node := by
  have hmarks : optionalField (arrayOf (readMark p)) "marks" (("type", .string "text") ::
      ("text", .string node.text) ::
        presentKey "marks" (fun marks => .array (marks.map Mark.toJson)) node.marks) =
      some node.marks :=
    optionalField_presentKey [_, _] rfl fun marks _ =>
      arrayOf_map fun mark _ => readMark_toJson mark
  simp [readInlineNode, InlineNode.toJson, List.lookup_cons, requiredField, Platform.stringOf,
    hmarks]

theorem readInlineContent_toJson (content : InlineContent) :
    readInlineContent p (inlineToJson content) = some content :=
  arrayOf_map fun node _ => readInlineNode_toJson node

theorem readLevel_number {level : Nat} (h : level ∈ [2, 3, 4]) :
    readLevel (.number level) = some level := by
  simp only [List.mem_cons, List.not_mem_nil, or_false] at h
  rcases h with rfl | rfl | rfl
  · rfl
  · rfl
  · rfl

/-- **A valid block is read back from its JSON.** -/
theorem readBlock_toJson {isSafeHref : String → Bool} {block : Block}
    (h : block.isValid isSafeHref = true) : readBlock p block.toJson = some block := by
  have hinline := fun content => readInlineContent_toJson (p := p) content
  cases block with
  | paragraph id content =>
    simp [readBlock, Block.toJson, List.lookup_cons, requiredField, uuidOf, hinline]
  | heading id level content =>
    have hlevel : level ∈ [2, 3, 4] := by
      rw [Block.isValid, Bool.and_eq_true, decide_eq_true_eq] at h
      exact h.1
    simp [readBlock, Block.toJson, List.lookup_cons, requiredField, uuidOf, hinline,
      readLevel_number hlevel]
  | quote id content attribution =>
    have hattribution : optionalField p.stringOf "attribution" (("id", .uuid id) ::
        ("type", .string "quote") :: ("content", inlineToJson content) ::
        presentKey "attribution" .string attribution) = some attribution :=
      optionalField_presentKey [_, _, _] rfl fun s _ => rfl
    simp [readBlock, Block.toJson, List.lookup_cons, requiredField, uuidOf, hinline, hattribution]
  | list id ordered items =>
    have hitems : arrayOf (readInlineContent p) (.array (items.map inlineToJson)) = some items :=
      arrayOf_map fun content _ => readInlineContent_toJson content
    simp [readBlock, Block.toJson, List.lookup_cons, requiredField, uuidOf, booleanOf, hitems]
  | code id language text =>
    have hlanguage : optionalField p.stringOf "language" (("id", .uuid id) ::
        ("type", .string "code") :: ("code", .string text) ::
        presentKey "language" .string language) = some language :=
      optionalField_presentKey [_, _, _] rfl fun s _ => rfl
    simp [readBlock, Block.toJson, List.lookup_cons, requiredField, uuidOf, Platform.stringOf,
      hlanguage]
  | image id mediaId caption =>
    have hcaption : optionalField (readInlineContent p) "caption" (("id", .uuid id) ::
        ("type", .string "image") :: ("mediaId", .uuid mediaId) ::
        presentKey "caption" inlineToJson caption) = some caption :=
      optionalField_presentKey [_, _, _] rfl fun content _ => readInlineContent_toJson content
    simp [readBlock, Block.toJson, List.lookup_cons, requiredField, uuidOf, hcaption]
  | divider id => rfl

/-- **Parsing a stored document again** reads the document that was stored. -/
theorem blocksSchema_toJson {blocks : Blocks} (h : blocksAreValid p.isSafeHref blocks = true) :
    p.blocksSchema (blocksToJson blocks) = some blocks := by
  have hall : ∀ b ∈ blocks, b.isValid p.isSafeHref = true := by
    rw [blocksAreValid, Bool.and_eq_true] at h
    exact List.all_eq_true.mp h.1
  rw [Platform.blocksSchema, blocksToJson, arrayOf_map fun b hb => readBlock_toJson (hall b hb)]
  simp [h]

theorem blocksSchema_valid {value : Json} {blocks : Blocks}
    (h : p.blocksSchema value = some blocks) : blocksAreValid p.isSafeHref blocks = true :=
  (Option.filter_eq_some_iff.mp h).2

end RoundTrip

/-! ## Fields -/

section Fields
variable (p : Platform)

/-- `isLocale`, of a JSON value. -/
def localeSchema : Json → Option String
  | .string s => if s ∈ LOCALES then some s else none
  | _ => none

def Platform.slugSchema (value : Json) : Option String := (p.stringOf value).filter isSlug

/-- `z.string().min(1).max(300)`. -/
def Platform.titleSchema (value : Json) : Option String :=
  (p.stringOf value).filter fun title => 1 ≤ jsLength title ∧ jsLength title ≤ 300

/-- `z.string().max(1000)`. -/
def Platform.excerptSchema (value : Json) : Option String :=
  (p.stringOf value).filter fun excerpt => jsLength excerpt ≤ 1000

/-- `z.enum(CONTENT_STATUSES)`. -/
def statusSchema : Json → Option ContentStatus
  | .string "draft" => some .draft
  | .string "scheduled" => some .scheduled
  | .string "published" => some .published
  | .string "archived" => some .archived
  | .string "trash" => some .trash
  | _ => none

variable (options : ContentTypeOptions)

/-- `metadata` of a type, which has to be an object. -/
def ContentTypeOptions.metaSchema : Json → Option Meta
  | .object fields => options.meta fields
  | _ => none

/-- `parentId`, a field of a type that nests. -/
def ContentTypeOptions.parentField (body : Meta) : Option (Nullish UuidText) :=
  if options.hierarchical then nullishField uuidOf "parentId" body else some .undefined

/-- `z.object(fields).partial()`: every field optional, nothing to fall back on. -/
def ContentTypeOptions.fields (body : Meta) : Option Patch := do
  let slug ← optionalField p.slugSchema "slug" body
  let title ← optionalField p.titleSchema "title" body
  let status ← optionalField statusSchema "status" body
  let blocks ← optionalField p.blocksSchema "blocks" body
  let «meta» ← optionalField options.metaSchema "meta" body
  let excerpt ← nullishField p.excerptSchema "excerpt" body
  let publishedAt ← nullishField p.date "publishedAt" body
  let parentId ← options.parentField body
  return { slug, title, excerpt, status, blocks, «meta», publishedAt, parentId }

/-- The keys of `fields`. -/
def ContentTypeOptions.fieldNames : List String :=
  ["slug", "title", "status", "blocks", "meta", "excerpt", "publishedAt"] ++
    if options.hierarchical then ["parentId"] else []

/-- `z.strictObject`: an object without any other key. -/
def strict (names : List String) (body : Meta) : Bool := body.all fun e => e.1 ∈ names

/-- `updateSchema`; a `locale` is refused, whatever its value. -/
def ContentTypeOptions.updateSchema (body : Meta) : Option Patch :=
  if strict options.fieldNames body then options.fields p body else none

/-- `createSchema`: the fields of `updateSchema`, two of them required, the others with what
they fall back on. -/
def ContentTypeOptions.createSchema (body : Meta) : Option CreateBody :=
  if strict ("locale" :: "translationGroupId" :: options.fieldNames) body then do
    let locale ← requiredField localeSchema "locale" body
    let translationGroupId ← optionalField uuidOf "translationGroupId" body
    let fields ← options.fields p body
    let slug ← fields.slug
    let title ← fields.title
    let «meta» ← fields.meta <|> options.meta []
    let state : ContentState :=
      { slug, title, «meta»
        excerpt := fields.excerpt.toOption
        status := fields.status.getD .draft
        blocks := fields.blocks.getD []
        publishedAt := fields.publishedAt.toOption
        parentId := fields.parentId.toOption }
    if scheduleHasDate state then some { locale, translationGroupId, state } else none
  else none

end Fields

/-- The keys a patch has. -/
def Patch.keys (patch : Patch) : List String :=
  [("slug", patch.slug.isSome), ("title", patch.title.isSome), ("status", patch.status.isSome),
    ("blocks", patch.blocks.isSome), ("meta", patch.meta.isSome),
    ("excerpt", patch.excerpt ≠ .undefined), ("publishedAt", patch.publishedAt ≠ .undefined),
    ("parentId", patch.parentId ≠ .undefined)].filterMap fun (name, there) =>
      if there then some name else none

/-- What the fields of a patch are read from. -/
structure FieldsRead (p : Platform) (options : ContentTypeOptions) (body : Meta)
    (patch : Patch) : Prop where
  slug : optionalField p.slugSchema "slug" body = some patch.slug
  title : optionalField p.titleSchema "title" body = some patch.title
  status : optionalField statusSchema "status" body = some patch.status
  blocks : optionalField p.blocksSchema "blocks" body = some patch.blocks
  parsed : optionalField options.metaSchema "meta" body = some patch.meta
  excerpt : nullishField p.excerptSchema "excerpt" body = some patch.excerpt
  publishedAt : nullishField p.date "publishedAt" body = some patch.publishedAt
  parentId : options.parentField body = some patch.parentId

section Spec
variable {p : Platform} {options : ContentTypeOptions} {body : Meta} {patch : Patch}

theorem ContentTypeOptions.fields_read (h : options.fields p body = some patch) :
    FieldsRead p options body patch := by
  rw [ContentTypeOptions.fields] at h
  simp only [Option.bind_eq_bind, Option.pure_def, Option.bind_eq_some_iff, Option.some.injEq] at h
  obtain ⟨slug, hslug, title, htitle, status, hstatus, blocks, hblocks, parsed, hparsed, excerpt,
    hexcerpt, publishedAt, hpublishedAt, parentId, hparentId, rfl⟩ := h
  exact ⟨hslug, htitle, hstatus, hblocks, hparsed, hexcerpt, hpublishedAt, hparentId⟩

theorem ContentTypeOptions.update_read (h : options.updateSchema p body = some patch) :
    strict options.fieldNames body = true ∧ FieldsRead p options body patch := by
  rw [ContentTypeOptions.updateSchema] at h
  split at h
  · rename_i hstrict
    exact ⟨hstrict, options.fields_read h⟩
  · cases h

/-- A strict object has no other key. -/
theorem strict_lookup {names : List String} {name : String} (h : strict names body = true)
    (hname : name ∉ names) : body.lookup name = none := by
  rw [List.lookup_eq_none_iff]
  intro e he
  have hmem : e.1 ∈ names := of_decide_eq_true (List.all_eq_true.mp h e he)
  exact bne_iff_ne.mpr fun heq => hname (heq ▸ hmem)

theorem named_of_lookup {name : String} {value : Json} (h : body.lookup name = some value) :
    name ∈ body.map Prod.fst := by
  obtain ⟨before, after, rfl, -⟩ := List.lookup_eq_some_iff.mp h
  simp

theorem optionalField_cases {α : Type} {schema : Json → Option α} {name : String}
    {field : Option α} (h : optionalField schema name body = some field) :
    body.lookup name = none ∧ field = none ∨
      ∃ value a, body.lookup name = some value ∧ schema value = some a ∧ field = some a := by
  rw [optionalField] at h
  split at h
  · rename_i hnone
    exact .inl ⟨hnone, (Option.some.inj h).symm⟩
  · rename_i value hvalue
    obtain ⟨a, ha, rfl⟩ := Option.map_eq_some_iff.mp h
    exact .inr ⟨value, a, hvalue, ha, rfl⟩

theorem nullishField_cases {α : Type} {schema : Json → Option α} {name : String}
    {field : Nullish α} (h : nullishField schema name body = some field) :
    body.lookup name = none ∧ field = .undefined ∨
      body.lookup name = some .null ∧ field = .null ∨
        ∃ value a, body.lookup name = some value ∧ value ≠ .null ∧ schema value = some a ∧
          field = .value a := by
  rw [nullishField] at h
  split at h
  · rename_i hnone
    exact .inl ⟨hnone, (Option.some.inj h).symm⟩
  · rename_i hnull
    exact .inr (.inl ⟨hnull, (Option.some.inj h).symm⟩)
  · rename_i value hnot hvalue
    obtain ⟨a, ha, rfl⟩ := Option.map_eq_some_iff.mp h
    exact .inr (.inr ⟨value, a, hvalue, hnot, ha, rfl⟩)

/-- A field that is there was let through by its schema. -/
theorem optionalField_given {α : Type} {schema : Json → Option α} {name : String}
    {field : Option α} {a : α} (h : optionalField schema name body = some field)
    (ha : field = some a) : ∃ value, schema value = some a := by
  rcases optionalField_cases h with ⟨-, hnone⟩ | ⟨value, b, -, hb, hsome⟩
  · cases hnone.symm.trans ha
  · exact ⟨value, hb.trans (hsome.symm.trans ha)⟩

theorem nullishField_given {α : Type} {schema : Json → Option α} {name : String}
    {field : Nullish α} {a : α} (h : nullishField schema name body = some field)
    (ha : field.toOption = some a) : ∃ value, schema value = some a := by
  rcases nullishField_cases h with ⟨-, rfl⟩ | ⟨-, rfl⟩ | ⟨value, b, -, -, hb, rfl⟩
  · cases ha
  · cases ha
  · exact ⟨value, hb.trans ha⟩

theorem optionalField_named {α : Type} {schema : Json → Option α} {name : String}
    {field : Option α} (h : optionalField schema name body = some field)
    (hthere : field.isSome = true) : name ∈ body.map Prod.fst := by
  rcases optionalField_cases h with ⟨-, rfl⟩ | ⟨value, a, hvalue, -, -⟩
  · cases hthere
  · exact named_of_lookup hvalue

theorem nullishField_named {α : Type} {schema : Json → Option α} {name : String}
    {field : Nullish α} (h : nullishField schema name body = some field)
    (hthere : field ≠ .undefined) : name ∈ body.map Prod.fst := by
  rcases nullishField_cases h with ⟨-, rfl⟩ | ⟨hnull, -⟩ | ⟨value, a, hvalue, -, -, -⟩
  · exact absurd rfl hthere
  · exact named_of_lookup hnull
  · exact named_of_lookup hvalue

/-- **A patch names no field that the body lacks.** -/
theorem ContentTypeOptions.updateSchema_keys (h : options.updateSchema p body = some patch) :
    ∀ key ∈ patch.keys, key ∈ body.map Prod.fst := by
  obtain ⟨-, hread⟩ := options.update_read h
  intro key hkey
  simp only [Patch.keys, List.mem_filterMap, List.mem_cons, List.not_mem_nil, or_false,
    Option.ite_none_right_eq_some, Option.some.injEq] at hkey
  obtain ⟨⟨name, there⟩, hfield, hthere, rfl⟩ := hkey
  simp only [Prod.mk.injEq] at hfield
  rcases hfield with ⟨rfl, rfl⟩ | ⟨rfl, rfl⟩ | ⟨rfl, rfl⟩ | ⟨rfl, rfl⟩ | ⟨rfl, rfl⟩ | ⟨rfl, rfl⟩ |
    ⟨rfl, rfl⟩ | ⟨rfl, rfl⟩
  · exact optionalField_named hread.slug hthere
  · exact optionalField_named hread.title hthere
  · exact optionalField_named hread.status hthere
  · exact optionalField_named hread.blocks hthere
  · exact optionalField_named hread.parsed hthere
  · exact nullishField_named hread.excerpt (of_decide_eq_true hthere)
  · exact nullishField_named hread.publishedAt (of_decide_eq_true hthere)
  · have hparent := hread.parentId
    rw [ContentTypeOptions.parentField] at hparent
    split at hparent
    · exact nullishField_named hparent (of_decide_eq_true hthere)
    · exact absurd (Option.some.inj hparent).symm (of_decide_eq_true hthere)

theorem ContentTypeOptions.metaSchema_given {value : Json} {parsed : Meta}
    (h : options.metaSchema value = some parsed) : ∃ given, options.meta given = some parsed := by
  unfold ContentTypeOptions.metaSchema at h
  split at h
  · rename_i given
    exact ⟨given, h⟩
  · cases h

/-- **A creation** has the fields of its body, with what those fall back on that are left out. -/
theorem ContentTypeOptions.create_read {created : CreateBody}
    (h : options.createSchema p body = some created) :
    ∃ fields, FieldsRead p options body fields ∧ fields.slug = some created.state.slug ∧
      fields.title = some created.state.title ∧
      (fields.meta <|> options.meta []) = some created.state.meta ∧
      created.state.excerpt = fields.excerpt.toOption ∧
      created.state.status = fields.status.getD .draft ∧
      created.state.blocks = fields.blocks.getD [] ∧
      created.state.publishedAt = fields.publishedAt.toOption ∧
      created.state.parentId = fields.parentId.toOption ∧
      scheduleHasDate created.state = true := by
  rw [ContentTypeOptions.createSchema] at h
  split at h
  · simp only [Option.bind_eq_bind, Option.bind_eq_some_iff] at h
    obtain ⟨locale, -, groupId, -, fields, hfields, slug, hslug, title, htitle, parsed, hparsed,
      h⟩ := h
    split at h
    · rename_i hdate
      obtain rfl := Option.some.inj h
      exact ⟨fields, options.fields_read hfields, hslug, htitle, hparsed, rfl, rfl, rfl, rfl, rfl,
        hdate⟩
    · cases h
  · cases h

end Spec

/-! ## Requests as they arrive -/

/-- What `postType` declares. -/
def postOptions : ContentTypeOptions where
  name := "post"
  basePath := "blog"
  «meta» := objectSchema [("seo", seoSchema), ("featuredMediaId", uuidSchema)]
  mediaIn := fun fields =>
    match fields.lookup "featuredMediaId" with
    | some (.uuid mediaId) => [(mediaId, "featuredMediaId")]
    | _ => []

/-- What `pageType` declares. -/
def pageOptions : ContentTypeOptions where
  name := "page"
  basePath := ""
  hierarchical := true
  «meta» := objectSchema [("seo", seoSchema)]
  mediaIn := fun _ => []

def builtinOptions : List ContentTypeOptions := [postOptions, pageOptions]

theorem builtinOptions_define (isSafeHref : String → Bool) :
    builtinOptions.map (defineContentType isSafeHref) = builtinContentTypes isSafeHref := rfl

/-- A request to one of the write routes: the body is a JSON object, and none stands
for path parameters that are no uuids. -/
inductive WriteRequest where
  | post (type : String) (body : Meta)
  | patch (type : String) (id : Option Uuid) (body : Meta)
  | restore (type : String) (ids : Option (Uuid × Uuid)) (body : Meta)
  | delete (type : String) (id : Option Uuid)

/-- `z.number().int().min(1)`. -/
def versionSchema : Json → Option Nat
  | .number n => if 1 ≤ n then some n.toNat else none
  | _ => none

/-- The precondition of a body. -/
def expectedVersionOf (body : Meta) : Option Nat := requiredField versionSchema "expectedVersion" body

/-- The body without its precondition. -/
def withoutVersion (body : Meta) : Meta := body.filter fun e => e.1 ≠ "expectedVersion"

section Requests
variable (p : Platform)

def typeOptions (name : String) : Option ContentTypeOptions :=
  builtinOptions.find? fun options => options.name = name

theorem typeOptions_name {name : String} {options : ContentTypeOptions}
    (h : typeOptions name = some options) : options.name = name := by
  have hfound := List.find?_some h
  exact of_decide_eq_true hfound

/-- What the schemas of the named type make of a request. -/
def WriteRequest.parse : WriteRequest → ContentRequest
  | .post type body => .post type ((typeOptions type).bind (·.createSchema p body))
  | .patch type id body =>
    .patch type id (expectedVersionOf body)
      ((typeOptions type).bind (·.updateSchema p (withoutVersion body)))
  | .restore type ids body => .restore type ids (expectedVersionOf body)
  | .delete type id => .delete type id

/-- The installation with the built-in types. -/
def Platform.installation (servesLocale : String → Bool) : Installation :=
  ⟨builtinContentTypes p.isSafeHref, servesLocale⟩

/-- The call a request leads to, or the answer that refuses it. -/
def WriteRequest.handle (servesLocale : String → Bool) (actor : Actor) (moment : Moment)
    (db : Database) (request : WriteRequest) : Except Refusal Call :=
  (request.parse p).handle (p.installation servesLocale) actor moment db

/-- What begins a call: a request to a write route, or a pass of the scheduler. -/
inductive Issued (servesLocale : String → Bool) : Call → Prop
  | request {call : Call} (request : WriteRequest) (actor : Actor) (moment : Moment)
      (db : Database) (h : request.handle p servesLocale actor moment db = .ok call) :
      Issued servesLocale call
  | pass (now : Nat) (stamps : Stamps) : Issued servesLocale (.publishDueContent now stamps)

end Requests

theorem bind_eq_ok {ε α β : Type} {x : Except ε α} {f : α → Except ε β} {b : β}
    (h : (x >>= f) = .ok b) : ∃ a, x = .ok a ∧ f a = .ok b := by
  cases x with
  | error e => cases h
  | ok a => exact ⟨a, rfl, h⟩

section Handled
variable {p : Platform} {servesLocale : String → Bool} {actor : Actor} {moment : Moment}
  {db : Database} {name : String} {body : Meta} {call : Call}

/-- The registry finds the type whose schemas parsed the body. -/
theorem resolveType_options {type : AnyContentType}
    (h : resolveType (p.installation servesLocale) name = .ok type) :
    ∃ options ∈ builtinOptions, typeOptions name = some options ∧
      type = defineContentType p.isSafeHref options := by
  rw [resolveType, Platform.installation, ← builtinOptions_define, List.find?_map] at h
  cases hfind : typeOptions name with
  | none =>
    have hnone : builtinOptions.find? ((fun type : AnyContentType => type.name = name) ∘
        defineContentType p.isSafeHref) = none := hfind
    rw [hnone] at h
    cases h
  | some options =>
    have hsome : builtinOptions.find? ((fun type : AnyContentType => type.name = name) ∘
        defineContentType p.isSafeHref) = some options := hfind
    rw [hsome] at h
    cases h
    exact ⟨options, List.mem_of_find?_eq_some hfind, rfl, rfl⟩

/-- **A POST** that is not refused creates what `createSchema` made of its body. -/
theorem WriteRequest.handle_post
    (h : (WriteRequest.post name body).handle p servesLocale actor moment db = .ok call) :
    ∃ options ∈ builtinOptions, ∃ created join, typeOptions name = some options ∧
      options.createSchema p body = some created ∧ call = .createContent
        { type := defineContentType p.isSafeHref options
          locale := created.locale
          authorId := actor.id
          state := stampPublication created.state moment.now
          join := join }
        moment.fresh := by
  rw [WriteRequest.handle, WriteRequest.parse, ContentRequest.handle, handlePost] at h
  obtain ⟨type, htype, h⟩ := bind_eq_ok h
  obtain ⟨options, hmem, hoptions, rfl⟩ := resolveType_options htype
  rw [hoptions, Option.bind_some] at h
  split at h
  · cases h
  · rename_i created hcreated
    split at h
    · cases h
    · split at h
      · cases h
      · cases h
        exact ⟨options, hmem, created, _, hoptions, hcreated, rfl⟩

/-- **A PATCH** that is not refused lays what `updateSchema` made of its body over the
document, and stamps what enters `published`. -/
theorem WriteRequest.handle_patch {id : Option Uuid}
    (h : (WriteRequest.patch name id body).handle p servesLocale actor moment db = .ok call) :
    ∃ options ∈ builtinOptions, ∃ docId version patch, typeOptions name = some options ∧
      id = some docId ∧ expectedVersionOf body = some version ∧
      options.updateSchema p (withoutVersion body) = some patch ∧
      call = .updateContent (defineContentType p.isSafeHref options) docId patch
        { expectedVersion := some version
          derive := some fun current merged =>
            if current.status = .published then merged else merged.stampPublication moment.now
          authorize := some (mayWrite actor (defineContentType p.isSafeHref options)) }
        moment.stamps := by
  rw [WriteRequest.handle, WriteRequest.parse, ContentRequest.handle, handlePatch] at h
  obtain ⟨type, htype, h⟩ := bind_eq_ok h
  obtain ⟨options, hmem, hoptions, rfl⟩ := resolveType_options htype
  rw [hoptions, Option.bind_some] at h
  split at h
  · cases h
  · cases h
  · cases h
  · rename_i docId version patch hversion hpatch _
    cases h
    exact ⟨options, hmem, docId, version, patch, hoptions, rfl, hversion, hpatch, rfl⟩

end Handled
end PressLabz
