import PressLabz.ContentSchemas

/-! # A patch is a merge, field by field

PATCH lays the fields of a body over the stored document and lets the type's rules
judge the whole.  That this leaves alone what the body does not name rests on the
stored document being a fixed point of those rules (`ContentTypeOptions.Fits`): a
row fits its type when it is created, every write stores what `stateSchema` let
through, and what fits is reproduced (`Fits.reproduced`).
-/
namespace PressLabz
open RowLocks

/-! ## Metadata is parsed once -/

/-- What a schema lets through, it lets through again unchanged. -/
def Settles {α : Type} (schema : α → Option α) : Prop :=
  ∀ a b, schema a = some b → schema b = some b

theorem textSchema_settles (max : Nat) : Settles (textSchema max) := by
  intro a b h
  unfold textSchema at h
  split at h
  · split at h
    · cases h
      rename_i hle
      rw [textSchema, if_pos hle]
    · cases h
  · split at h
    · cases h
      rename_i hle
      rw [textSchema, if_pos hle]
    · cases h
  · cases h

theorem booleanSchema_settles : Settles booleanSchema := by
  intro a b h
  unfold booleanSchema at h
  split at h
  · cases h
    rfl
  · cases h

theorem uuidSchema_settles : Settles uuidSchema := by
  intro a b h
  unfold uuidSchema at h
  split at h
  · cases h
    rfl
  · cases h

section Objects
variable {keys : List (String × (Json → Option Json))} {fields parsed : Meta} {name : String}
  {schema : Json → Option Json}

theorem flatten_mapM_cons {α β : Type} (f : α → Option (List β)) (a : α) (l : List α) :
    ((a :: l).mapM f).map List.flatten =
      (f a).bind fun own => ((l.mapM f).map List.flatten).map fun rest => own ++ rest := by
  rw [List.mapM_cons]
  cases f a with
  | none => rfl
  | some own =>
    cases l.mapM f with
    | none => rfl
    | some rest => rfl

theorem objectSchema_cons : objectSchema ((name, schema) :: keys) fields =
    (optionalKey name schema fields).bind fun own =>
      (objectSchema keys fields).map fun rest => own ++ rest :=
  flatten_mapM_cons _ (name, schema) keys

theorem optionalKey_cases {own : Meta} (h : optionalKey name schema fields = some own) :
    fields.lookup name = none ∧ own = [] ∨
      ∃ value a, fields.lookup name = some value ∧ schema value = some a ∧ own = [(name, a)] := by
  rw [optionalKey] at h
  split at h
  · rename_i hnone
    exact .inl ⟨hnone, (Option.some.inj h).symm⟩
  · rename_i value hvalue
    obtain ⟨a, ha, rfl⟩ := Option.map_eq_some_iff.mp h
    exact .inr ⟨value, a, hvalue, ha, rfl⟩

/-- An object schema drops every key it does not name. -/
theorem objectSchema_lookup_none (h : objectSchema keys fields = some parsed)
    (hname : name ∉ keys.map Prod.fst) : parsed.lookup name = none := by
  induction keys generalizing parsed with
  | nil =>
    obtain rfl : [] = parsed := Option.some.inj h
    rfl
  | cons key keys ih =>
    rw [List.map_cons, List.mem_cons, not_or] at hname
    rw [objectSchema_cons] at h
    obtain ⟨own, hown, h⟩ := Option.bind_eq_some_iff.mp h
    obtain ⟨rest, hrest, rfl⟩ := Option.map_eq_some_iff.mp h
    rw [List.lookup_append, ih hrest hname.2, Option.or_none]
    rcases optionalKey_cases hown with ⟨-, rfl⟩ | ⟨value, a, -, -, rfl⟩
    · rfl
    · rw [List.lookup_cons, beq_false_of_ne hname.1]
      rfl

/-- An object that agrees with what was parsed parses to the same. -/
theorem objectSchema_of_agree (hnodup : (keys.map Prod.fst).Nodup)
    (hsettles : ∀ key ∈ keys, Settles key.2) (h : objectSchema keys fields = some parsed)
    {other : Meta} (hagree : ∀ name ∈ keys.map Prod.fst, other.lookup name = parsed.lookup name) :
    objectSchema keys other = some parsed := by
  induction keys generalizing parsed with
  | nil => exact h
  | cons key keys ih =>
    obtain ⟨name, schema⟩ := key
    obtain ⟨hnot, hnodup⟩ := List.nodup_cons.mp hnodup
    rw [objectSchema_cons] at h
    obtain ⟨own, hown, h⟩ := Option.bind_eq_some_iff.mp h
    obtain ⟨rest, hrest, rfl⟩ := Option.map_eq_some_iff.mp h
    have hname := hagree name List.mem_cons_self
    rw [List.lookup_append, objectSchema_lookup_none hrest hnot, Option.or_none] at hname
    have hsame : optionalKey name schema other = some own := by
      rcases optionalKey_cases hown with ⟨-, rfl⟩ | ⟨value, a, -, ha, rfl⟩
      · rw [optionalKey, hname]
        rfl
      · rw [optionalKey, hname, List.lookup_cons_self]
        exact congrArg (Option.map _) (hsettles _ List.mem_cons_self _ _ ha)
    have hrest' : objectSchema keys other = some rest := by
      refine ih hnodup (fun key hkey => hsettles key (List.mem_cons_of_mem _ hkey)) hrest
        fun other' hother => ?_
      have hne : other' ≠ name := fun heq => hnot (heq ▸ hother)
      rw [hagree other' (List.mem_cons_of_mem _ hother), List.lookup_append]
      rcases optionalKey_cases hown with ⟨-, rfl⟩ | ⟨value, a, -, -, rfl⟩
      · rfl
      · rw [List.lookup_cons, beq_false_of_ne hne]
        rfl
    rw [objectSchema_cons, hsame, hrest']
    rfl

/-- **An object of settled keys** is parsed once and for all. -/
theorem objectSchema_settles (hnodup : (keys.map Prod.fst).Nodup)
    (hsettles : ∀ key ∈ keys, Settles key.2) : Settles (objectSchema keys) :=
  fun _ _ h => objectSchema_of_agree hnodup hsettles h fun _ _ => rfl

end Objects

theorem seoSchema_settles : Settles seoSchema := by
  intro a b h
  unfold seoSchema at h
  split at h
  · obtain ⟨parsed, hparsed, rfl⟩ := Option.map_eq_some_iff.mp h
    rw [seoSchema, objectSchema_settles (by decide) ?_ _ _ hparsed]
    · rfl
    · simp [textSchema_settles, booleanSchema_settles]
  · cases h

theorem meta_settles {options : ContentTypeOptions} (h : options ∈ builtinOptions) :
    Settles options.meta := by
  simp only [builtinOptions, List.mem_cons, List.not_mem_nil, or_false] at h
  rcases h with rfl | rfl
  · exact objectSchema_settles (by decide) (by simp [seoSchema_settles, uuidSchema_settles])
  · exact objectSchema_settles (by decide) (by simp [seoSchema_settles])

/-! ## Columns that fit a type -/

/-- The state that the columns of a row hold. -/
def Columns.state (columns : Columns) : ContentState where
  slug := columns.slug
  title := columns.title
  excerpt := columns.excerpt
  status := columns.status
  blocks := columns.blocks
  «meta» := columns.meta
  publishedAt := columns.publishedAt
  parentId := columns.parentId.map Uuid.text

@[simp] theorem Columns.state_toColumns (columns : Columns) :
    columns.state.toColumns = columns := by
  simp [Columns.state, ContentState.toColumns, Function.comp_def]

/-- A state that the rules of a type let through, with metadata that is parsed already. -/
structure ContentTypeOptions.Fits (isSafeHref : String → Bool) (options : ContentTypeOptions)
    (columns : Columns) : Prop where
  slug : isSlug columns.slug = true
  title : 1 ≤ jsLength columns.title ∧ jsLength columns.title ≤ 300
  blocks : blocksAreValid isSafeHref columns.blocks = true
  excerpt : ∀ excerpt ∈ columns.excerpt, jsLength excerpt ≤ 1000
  parsed : options.meta columns.meta = some columns.meta
  scheduled : columns.status = .scheduled → columns.publishedAt ≠ none
  parent : options.hierarchical = false → columns.parentId = none

theorem Nullish.toOption_ofColumn {α : Type} (column : Option α) :
    (Nullish.ofColumn column).toOption = column := by
  cases column with
  | none => rfl
  | some _ => rfl

section Fits
variable {isSafeHref : String → Bool} {options : ContentTypeOptions} {columns : Columns}

/-- **What fits is reproduced**: the type's rules change nothing of it. -/
theorem ContentTypeOptions.Fits.reproduced {row : ContentRow}
    (h : options.Fits isSafeHref row.toColumns) :
    options.stateSchema isSafeHref row.toState = some row.state := by
  have hparent : (if options.hierarchical then row.toState.parentId.toOption else none) =
      row.parentId.map Uuid.text := by
    rw [ContentRow.toState, Nullish.toOption_ofColumn]
    split
    · rfl
    · rename_i hflat
      rw [h.parent (by simpa using hflat)]
      rfl
  have hexcerpt : ¬ (row.toState.excerpt.toOption.any fun e => 1000 < jsLength e) = true := by
    rw [ContentRow.toState, Nullish.toOption_ofColumn, Option.any_eq_true]
    rintro ⟨e, he, hlong⟩
    have := h.excerpt e he
    simp only [decide_eq_true_eq] at hlong
    omega
  have hslug : isSlug row.toState.slug = true := h.slug
  have htitle : 1 ≤ jsLength row.toState.title ∧ jsLength row.toState.title ≤ 300 := h.title
  have hblocks : blocksAreValid isSafeHref row.toState.blocks = true := h.blocks
  have hmeta : options.meta row.toState.meta = some row.meta := h.parsed
  have hdate : scheduleHasDate row.state = true := by
    by_cases hs : row.status = .scheduled
    · have hsome := Option.isSome_iff_ne_none.mpr (h.scheduled hs)
      simp [scheduleHasDate, Columns.state, hs, hsome]
    · simp [scheduleHasDate, Columns.state, hs]
  rw [ContentTypeOptions.stateSchema, if_neg (not_not.mpr hslug), if_neg (not_not.mpr htitle),
    if_neg (not_not.mpr hblocks), if_neg hexcerpt]
  simp only [hmeta, hparent]
  simp only [ContentRow.toState, Nullish.toOption_ofColumn]
  exact if_pos hdate

/-- **What the rules of a type let through** fits the type. -/
theorem ContentTypeOptions.stateSchema_fits (hmeta : Settles options.meta) {merge : MergedState}
    {state : ContentState} (h : options.stateSchema isSafeHref merge = some state) :
    options.Fits isSafeHref state.toColumns := by
  have ha := options.accepted h
  have hkept := ha.kept
  rw [ContentTypeOptions.stateSchema] at h
  split at h
  · cases h
  split at h
  · cases h
  split at h
  · cases h
  rename_i hblocks
  split at h
  · cases h
  rename_i hexcerpt
  refine ⟨?_, ?_, ?_, ?_, hmeta _ _ ha.parsed, ?_, fun hflat => ?_⟩
  · rw [hkept]
    exact ha.slug
  · rw [hkept]
    exact ha.title
  · rw [hkept]
    exact not_not.mp hblocks
  · intro excerpt he
    rw [hkept] at he
    by_contra hlong
    refine hexcerpt (Option.any_eq_true _ _ |>.mpr ⟨excerpt, he, ?_⟩)
    exact decide_eq_true (by omega)
  · rw [hkept]
    exact ha.scheduled
  · rw [hkept]
    simp [ContentState.toColumns, hflat]

theorem ContentTypeOptions.Fits.stamped {state : ContentState}
    (h : options.Fits isSafeHref state.toColumns) (now : Nat) :
    options.Fits isSafeHref (stampPublication state now).toColumns := by
  rw [stampPublication]
  split
  · exact h
  · exact ⟨h.slug, h.title, h.blocks, h.excerpt, h.parsed, fun _ => Option.some_ne_none _, h.parent⟩

theorem ContentTypeOptions.Fits.publication (h : options.Fits isSafeHref columns) :
    options.Fits isSafeHref { columns with status := .published } :=
  ⟨h.slug, h.title, h.blocks, h.excerpt, h.parsed, (fun hs => nomatch hs), h.parent⟩

theorem ContentTypeOptions.Fits.detached (h : options.Fits isSafeHref columns) :
    options.Fits isSafeHref { columns with parentId := none } :=
  ⟨h.slug, h.title, h.blocks, h.excerpt, h.parsed, h.scheduled, fun _ => rfl⟩

end Fits

/-- **What is created** fits its type. -/
theorem ContentTypeOptions.createSchema_fits {p : Platform} {options : ContentTypeOptions}
    (hmeta : Settles options.meta) {body : Meta} {created : CreateBody}
    (h : options.createSchema p body = some created) :
    options.Fits p.isSafeHref created.state.toColumns := by
  obtain ⟨fields, hread, hslug, htitle, hparsed, hexcerpt, hstatus, hblocks, hpublished, hparent,
    hdate⟩ := options.create_read h
  obtain ⟨_, hslug⟩ := optionalField_given hread.slug hslug
  obtain ⟨_, htitle⟩ := optionalField_given hread.title htitle
  have hcreatedBlocks : blocksAreValid p.isSafeHref created.state.blocks = true := by
    rw [hblocks]
    -- what was not sent has a default, and the default is valid
    cases hgiven : fields.blocks with
    | none => rfl
    | some blocks =>
      obtain ⟨_, hparsed⟩ := optionalField_given hread.blocks hgiven
      exact blocksSchema_valid hparsed
  have hcreatedExcerpt : ∀ e ∈ created.state.excerpt, jsLength e ≤ 1000 := by
    intro e he
    obtain ⟨_, hparsed⟩ := nullishField_given hread.excerpt (hexcerpt.symm.trans he)
    exact of_decide_eq_true (Option.filter_eq_some_iff.mp hparsed).2
  have hcreatedMeta : ∃ given, options.meta given = some created.state.meta := by
    cases hsent : fields.meta with
    | none =>
      rw [hsent] at hparsed
      exact ⟨[], hparsed⟩
    | some parsed =>
      rw [hsent] at hparsed
      obtain ⟨_, hread⟩ := optionalField_given hread.parsed (hsent.trans hparsed)
      exact options.metaSchema_given hread
  obtain ⟨given, hgiven⟩ := hcreatedMeta
  refine ⟨(Option.filter_eq_some_iff.mp hslug).2,
    of_decide_eq_true (Option.filter_eq_some_iff.mp htitle).2, hcreatedBlocks, hcreatedExcerpt,
    hmeta _ _ hgiven, fun hs hnone => ?_, fun hflat => ?_⟩
  · have hs : created.state.status = .scheduled := hs
    have hnone : created.state.publishedAt = none := hnone
    simp [scheduleHasDate, hs, hnone] at hdate
  -- a flat type has no field for a parent
  · have hfield := hread.parentId
    rw [ContentTypeOptions.parentField, hflat] at hfield
    have hnone : Nullish.undefined = fields.parentId := Option.some.inj hfield
    rw [← hnone] at hparent
    exact congrArg (Option.map UuidText.uuid) hparent

/-! ## The database -/

/-- Every document fits the type it is of. -/
def Database.FitsTypes (isSafeHref : String → Bool) (db : Database) : Prop :=
  ∀ j r, db.content j = some r →
    ∃ options ∈ builtinOptions, r.type = options.name ∧ options.Fits isSafeHref r.toColumns

theorem fitsTypes_empty (isSafeHref : String → Bool) («media» : List MediaRow) :
    (Database.empty «media»).FitsTypes isSafeHref := fun _ _ h => nomatch h

theorem builtinOptions_inj {a b : ContentTypeOptions} (ha : a ∈ builtinOptions)
    (hb : b ∈ builtinOptions) (h : a.name = b.name) : a = b := by
  simp only [builtinOptions, List.mem_cons, List.not_mem_nil, or_false] at ha hb
  rcases ha with rfl | rfl <;> rcases hb with rfl | rfl
  · rfl
  · simp [postOptions, pageOptions] at h
  · simp [postOptions, pageOptions] at h
  · rfl

/-- The state of an update is what the type's rules made of the merge. -/
theorem nextState_schema {type : AnyContentType} {current : ContentRow} {patch : Patch}
    {options : UpdateContentOptions} {next : ContentState}
    (h : nextState type current patch options = .ok next) :
    type.stateSchema (mergeOf current patch options) = some next := by
  rw [nextState] at h
  split at h
  · cases h
  · split at h
    · cases h
    · rename_i state hstate
      split at h
      · cases h
      · cases h
        exact hstate

section Issued
variable {p : Platform} {servesLocale : String → Bool} {call : Call} {input : CreateContentInput}
  {fresh : Fresh} {type : AnyContentType} {id : Uuid} {patch : Patch}
  {options : UpdateContentOptions} {stamps : Stamps}

/-- What is created came through the schema of its type. -/
theorem Issued.create (h : Issued p servesLocale (.createContent input fresh)) :
    ∃ options ∈ builtinOptions, input.type = defineContentType p.isSafeHref options ∧
      options.Fits p.isSafeHref input.state.toColumns := by
  obtain ⟨request, actor, moment, db, h⟩ := h
  cases request with
  | post name body =>
    obtain ⟨options, hoptions, created, join, -, hcreated, hcall⟩ := WriteRequest.handle_post h
    obtain ⟨rfl, rfl⟩ := Call.createContent.inj hcall
    exact ⟨options, hoptions, rfl,
      (ContentTypeOptions.createSchema_fits (meta_settles hoptions) hcreated).stamped moment.now⟩
  | patch name id body =>
    obtain ⟨_, _, _, _, _, _, _, _, _, hcall⟩ := WriteRequest.handle_patch h
    cases hcall
  | restore name ids body =>
    rw [WriteRequest.handle, WriteRequest.parse, ContentRequest.handle, handleRestore] at h
    obtain ⟨_, _, h⟩ := bind_eq_ok h
    split at h
    · cases h
    · cases h
    · split at h
      · cases h
      · split at h
        · cases h
        · split at h
          · cases h
          · cases h
  | delete name id =>
    rw [WriteRequest.handle, WriteRequest.parse, ContentRequest.handle, handleDelete] at h
    obtain ⟨_, _, h⟩ := bind_eq_ok h
    split at h
    · cases h
    · cases h

/-- What is updated is judged by a declared type, which has to be the row's own. -/
theorem Issued.update (h : Issued p servesLocale (.updateContent type id patch options stamps)) :
    ∃ declared ∈ builtinOptions, type = defineContentType p.isSafeHref declared ∧
      ∃ actor, options.authorize = some (mayWrite actor type) := by
  obtain ⟨request, actor, moment, db, h⟩ := h
  cases ContentRequest.handle_call h with
  | update _ _ _ _ _ htype asks =>
    rw [Platform.installation, ← builtinOptions_define] at htype
    obtain ⟨declared, hmem, rfl⟩ := List.mem_map.mp htype
    exact ⟨declared, hmem, rfl, actor, asks⟩

variable {answer : List ContentRow} {found left : Database}

/-- An update that was authorized is of a row of its type. -/
theorem Issued.same_type (h : Issued p servesLocale (.updateContent type id patch options stamps))
    {current : ContentRow} {next : ContentState}
    (hnext : nextState type current patch options = .ok next) : current.type = type.name := by
  obtain ⟨_, _, _, actor, hasks⟩ := h.update
  have hmay := nextState_authorized hnext hasks
  rw [mayWrite, Bool.and_eq_true] at hmay
  exact of_decide_eq_true hmay.1

/-- **Every commit leaves documents that fit** their types. -/
theorem Post.fitsTypes (hissued : Issued p servesLocale call) (hpost : Post call answer found left)
    (h : found.FitsTypes p.isSafeHref) : left.FitsTypes p.isSafeHref := by
  intro j r hr
  cases call with
  | createContent input fresh =>
    obtain ⟨-, -, -, rfl⟩ := hpost
    rw [content_created] at hr
    split at hr
    · obtain ⟨options, hoptions, htype, hfits⟩ := hissued.create
      obtain rfl := Option.some.inj hr
      exact ⟨options, hoptions, congrArg AnyContentType.name htype, hfits⟩
    · exact h j r hr
  | updateContent type docId patch options stamps =>
    rcases hpost with ⟨-, rfl⟩ | ⟨current, next, hcur, hnext, -, rfl⟩
    · exact h j r hr
    · obtain rfl : current.id = docId := Database.id_of_content hcur
      by_cases hj : j = current.id
      · rw [hj, content_updated hcur] at hr
        obtain rfl := Option.some.inj hr
        -- the state was parsed by the schema of the type the document is of
        have hsame := hissued.same_type hnext
        obtain ⟨declared, hdeclared, rfl, -⟩ := hissued.update
        exact ⟨declared, hdeclared, hsame,
          ContentTypeOptions.stateSchema_fits (meta_settles hdeclared) (nextState_schema hnext)⟩
      · rw [content_updated_of_ne hj] at hr
        exact h j r hr
  | deleteContent docId authorize =>
    rcases hpost with ⟨-, rfl⟩ | ⟨current, hcur, -, -, rfl⟩
    · exact h j r hr
    · rw [content_removed, content_withoutDocument] at hr
      split at hr
      · cases hr
      · obtain ⟨before, hbefore, hput⟩ := Option.map_eq_some_iff.mp hr
        obtain ⟨options, hoptions, htype, hfits⟩ := h j before hbefore
        split at hput
        · subst hput
          exact ⟨options, hoptions, htype, hfits.detached⟩
        · exact hput ▸ ⟨options, hoptions, htype, hfits⟩
  | publishDueContent now stamps =>
    obtain ⟨claimed, hnodup, hrows, -, rfl⟩ := hpost
    have hrow : ∀ r ∈ claimed, found.content r.id = some r := fun r hr => (hrows r hr).1
    -- a pass changes the status and the date of what it claimed, and nothing else
    by_cases hj : ∃ before ∈ claimed, before.id = j
    · obtain ⟨before, hbefore, rfl⟩ := hj
      rw [(publishEach_written stamps hnodup hrow hbefore).1] at hr
      obtain rfl := Option.some.inj hr
      obtain ⟨options, hoptions, htype, hfits⟩ := h before.id before (hrow before hbefore)
      exact ⟨options, hoptions, htype, hfits.publication⟩
    · obtain ⟨-, -, hdocs, -⟩ := publishEach_frame stamps hnodup hrow
      rw [(hdocs j fun before hbefore heq => hj ⟨before, hbefore, heq⟩).content] at hr
      exact h j r hr

end Issued

/-- **Every committed state of the API** holds documents that fit their types. -/
theorem run_fitsTypes {I : Type} [DecidableEq I] {«media» : List MediaRow} {m : ContentMachine I}
    {p : Platform} {servesLocale : String → Bool}
    (hrun : Run engine program (fun _ => True) (.start (Database.empty «media»)) m)
    (hissued : ∀ e ∈ m.log, Issued p servesLocale e.call) :
    ∀ db ∈ m.states, db.FitsTypes p.isSafeHref :=
  hrun.linked.invariant (fitsTypes_empty p.isSafeHref «media») fun e he =>
    Post.fitsTypes (hissued e he) (run_log (empty_inv «media») hrun e he).post

/-! ## A patch over a document -/

section Merge
variable {α : Type} (schema : Json → Option α) (name : String) (fields : Meta)

/-- A field of a body: left as it was, or set to what was parsed. -/
def SetTo (before after : α) : Prop :=
  match fields.lookup name with
  | none => after = before
  | some value => schema value = some after

/-- A field that a null clears. -/
def SetOrCleared (before after : Option α) : Prop :=
  match fields.lookup name with
  | none => after = before
  | some .null => after = none
  | some value => ∃ a, schema value = some a ∧ after = some a

variable {schema name fields}

theorem setTo_getD {field : Option α} (h : optionalField schema name fields = some field)
    (before : α) : SetTo schema name fields before (field.getD before) := by
  unfold SetTo
  rcases optionalField_cases h with ⟨hnone, rfl⟩ | ⟨value, a, hvalue, ha, rfl⟩
  · rw [hnone]
    rfl
  · rw [hvalue]
    exact ha

theorem setOrCleared_iff {field : Nullish α} (h : nullishField schema name fields = some field)
    {before after : Option α} : SetOrCleared schema name fields before after ↔
      after = (field.over (.ofColumn before)).toOption := by
  unfold SetOrCleared
  rcases nullishField_cases h with ⟨hnone, rfl⟩ | ⟨hnull, rfl⟩ | ⟨value, a, hvalue, hnot, ha, rfl⟩
  · rw [hnone, Nullish.over, Nullish.toOption_ofColumn]
  · rw [hnull]
    rfl
  · rw [hvalue]
    cases value with
    | null => exact absurd rfl hnot
    | _ =>
      show (∃ b, schema _ = some b ∧ after = some b) ↔ after = some a
      rw [ha]
      exact ⟨fun ⟨b, hb, hafter⟩ => hafter.trans hb.symm, fun hafter => ⟨a, rfl, hafter⟩⟩

end Merge

/-- The date of a document before the patch is laid over it: the moment of the
request when it enters `published` without one. -/
def dateOnEntry (now : Nat) (before : Columns) (status : ContentStatus) : Option Nat :=
  if before.status ≠ .published ∧ status = .published ∧ before.publishedAt = none then some now
  else before.publishedAt

/-- What an accepted patch makes of the editorial fields of a document. -/
structure MergedInto (p : Platform) (options : ContentTypeOptions) (fields : Meta) (now : Nat)
    (before after : Columns) : Prop where
  slug : SetTo p.slugSchema "slug" fields before.slug after.slug
  title : SetTo p.titleSchema "title" fields before.title after.title
  status : SetTo statusSchema "status" fields before.status after.status
  blocks : SetTo p.blocksSchema "blocks" fields before.blocks after.blocks
  parsed : SetTo options.metaSchema "meta" fields before.meta after.meta
  excerpt : SetOrCleared p.excerptSchema "excerpt" fields before.excerpt after.excerpt
  publishedAt : SetOrCleared p.date "publishedAt" fields (dateOnEntry now before after.status)
    after.publishedAt
  parentId : SetOrCleared (fun value => (uuidOf value).map UuidText.uuid) "parentId" fields
    before.parentId after.parentId

/-- The date of a merge: stamped when it enters `published` and carries none. -/
def stampOnEntry (now : Nat) (before status : ContentStatus) (date : Nullish Nat) : Nullish Nat :=
  if before ≠ .published ∧ status = .published ∧ date = .undefined then .value now else date

/-- The `derive` of PATCH touches nothing but the date. -/
theorem derive_eq (before : ContentStatus) (now : Nat) (merged : MergedState) :
    (if before = .published then merged else merged.stampPublication now) =
      { merged with publishedAt := stampOnEntry now before merged.status merged.publishedAt } := by
  rw [stampOnEntry]
  by_cases hbefore : before = .published
  · rw [if_pos hbefore, if_neg fun h => h.1 hbefore]
  · rw [if_neg hbefore, MergedState.stampPublication]
    split
    · rename_i hno
      rw [if_neg fun h => hno.elim (fun hs => hs h.2.1) fun hd => hd h.2.2]
    · rename_i hyes
      simp only [not_or, not_not] at hyes
      rw [if_pos ⟨hbefore, hyes⟩]

/-- Stamping the merge is laying the patch over a document that was stamped. -/
theorem over_dateOnEntry (field : Nullish Nat) (now : Nat) (before : Columns)
    (status : ContentStatus) :
    (stampOnEntry now before.status status
      (field.over (.ofColumn before.publishedAt))).toOption =
      (field.over (.ofColumn (dateOnEntry now before status))).toOption := by
  rw [stampOnEntry, dateOnEntry]
  cases field with
  | null => simp [Nullish.over]
  | value date => simp [Nullish.over]
  | undefined =>
    cases before.publishedAt with
    | some date => simp [Nullish.over, Nullish.ofColumn]
    | none =>
      by_cases henters : before.status ≠ .published ∧ status = .published
      · simp [Nullish.over, Nullish.ofColumn, henters]
      · rw [if_neg fun h => henters ⟨h.1, h.2.1⟩, if_neg fun h => henters ⟨h.1, h.2.1⟩]

section Patched
variable {p : Platform} {options : ContentTypeOptions} {fields : Meta} {patch : Patch}
  {current : ContentRow} {now version : Nat} {actor : Actor} {next : ContentState}

/-- A type that does not nest refuses a `parentId`, and no row of it has one. -/
theorem parent_merged (hstrict : strict options.fieldNames fields = true)
    (hread : FieldsRead p options fields patch)
    (hfits : options.Fits p.isSafeHref current.toColumns) :
    SetOrCleared (fun value => (uuidOf value).map UuidText.uuid) "parentId" fields
      current.parentId ((if options.hierarchical then
        (patch.parentId.over (.ofColumn (current.parentId.map Uuid.text))).toOption
        else none).map UuidText.uuid) := by
  have hread := hread.parentId
  rw [ContentTypeOptions.parentField] at hread
  by_cases hnests : options.hierarchical = true
  · rw [if_pos hnests] at hread ⊢
    unfold SetOrCleared
    rcases nullishField_cases hread with ⟨hnone, h⟩ | ⟨hnull, h⟩ | ⟨value, a, hvalue, hnot, ha, h⟩
    · rw [hnone, h, Nullish.over, Nullish.toOption_ofColumn]
      simp [Function.comp_def]
    · rw [hnull, h]
      rfl
    · rw [hvalue, h]
      cases value with
      | null => exact absurd rfl hnot
      | _ =>
        show ∃ id, (uuidOf _).map UuidText.uuid = some id ∧ some a.uuid = some id
        exact ⟨a.uuid, by rw [ha, Option.map_some], rfl⟩
  · rw [Bool.not_eq_true] at hnests
    have hnone : fields.lookup "parentId" = none :=
      strict_lookup hstrict (by simp [ContentTypeOptions.fieldNames, hnests])
    unfold SetOrCleared
    rw [hnone, hnests, hfits.parent hnests]
    rfl

/-- **What one accepted patch does**, to a row that fits its type. -/
theorem nextState_merged (hmeta : Settles options.meta)
    (hpatch : options.updateSchema p fields = some patch)
    (hfits : options.Fits p.isSafeHref current.toColumns)
    (hnext : nextState (defineContentType p.isSafeHref options) current patch
      { expectedVersion := some version
        derive := some fun current merged =>
          if current.status = .published then merged else merged.stampPublication now
        authorize := some (mayWrite actor (defineContentType p.isSafeHref options)) } = .ok next) :
    MergedInto p options fields now current.toColumns next.toColumns := by
  obtain ⟨hstrict, hread⟩ := options.update_read hpatch
  have hschema := nextState_schema hnext
  rw [mergeOf] at hschema
  simp only [derive_eq] at hschema
  have ha := options.accepted hschema
  have hkept := ha.kept
  have hstatus : next.status = patch.status.getD current.status := by rw [hkept]; rfl
  refine ⟨?_, ?_, ?_, ?_, ?_, ?_, ?_, ?_⟩
  · rw [hkept]
    exact setTo_getD hread.slug current.slug
  · rw [hkept]
    exact setTo_getD hread.title current.title
  · rw [hkept]
    exact setTo_getD hread.status current.status
  · rw [hkept]
    exact setTo_getD hread.blocks current.blocks
  · -- the merge is parsed once more, which changes neither what was stored nor what was sent
    have hparsed : options.meta (patch.meta.getD current.meta) = some next.meta := ha.parsed
    have hsettled : options.meta (patch.meta.getD current.meta) =
        some (patch.meta.getD current.meta) := by
      rcases optionalField_cases hread.parsed with ⟨-, hnone⟩ | ⟨value, a, -, ha, hsome⟩
      · rw [hnone]
        exact hfits.parsed
      · obtain ⟨given, hgiven⟩ := options.metaSchema_given ha
        rw [hsome]
        exact hmeta _ _ hgiven
    have hsame : patch.meta.getD current.meta = next.toColumns.meta :=
      Option.some.inj (hsettled.symm.trans hparsed)
    rw [← hsame]
    exact setTo_getD hread.parsed current.meta
  · rw [hkept]
    exact (setOrCleared_iff hread.excerpt).mpr rfl
  · have hdate := over_dateOnEntry patch.publishedAt now current.toColumns next.status
    rw [hstatus] at hdate
    refine (setOrCleared_iff hread.publishedAt).mpr ?_
    rw [show next.toColumns.status = _ from hstatus, ← hdate, hkept]
    rfl
  · rw [hkept]
    exact parent_merged hstrict hread hfits

end Patched
/-! ## PATCH -/

section Accepted
variable {I : Type} [DecidableEq I] {«media» : List MediaRow} {m : ContentMachine I} {p : Platform}
  {servesLocale : String → Bool} {e : Committed Database Call (List ContentRow)} {name : String}
  {id : Uuid} {body : Meta} {actor : Actor} {moment : Moment} {db : Database}
  (hrun : Run engine program (fun _ => True) (.start (Database.empty «media»)) m)
  (hissued : ∀ e ∈ m.log, Issued p servesLocale e.call)
include hrun hissued

/-- **A committed PATCH** changed nothing, or merged its body into the row it found,
and nothing else. -/
theorem accepted_patch (he : e ∈ m.log)
    (hhandle : (WriteRequest.patch name (some id) body).handle p servesLocale actor moment db =
      .ok e.call) :
    e.answer = [] ∧ e.left = e.found ∨
      ∃ options ∈ builtinOptions, ∃ current row, options.name = name ∧
        e.found.content id = some current ∧ e.left.content id = some row ∧
        (∀ j, j ≠ id → e.left.content j = e.found.content j) ∧ e.answer = [row] ∧
        MergedInto p options (withoutVersion body) moment.now current.toColumns row.toColumns := by
  obtain ⟨options, hoptions, docId, version, patch, hname, hid, -, hpatch, hcall⟩ :=
    WriteRequest.handle_patch hhandle
  obtain rfl := Option.some.inj hid
  have hpost := (run_log (empty_inv «media») hrun e he).post
  have hissue := hissued e he
  have hstates : e.found ∈ m.states := List.mem_cons_of_mem _ (List.mem_map_of_mem he)
  rw [hcall] at hpost hissue
  rcases hpost with ⟨hanswer, hleft⟩ | ⟨current, next, hcur, hnext, hanswer, hleft⟩
  · exact .inl ⟨hanswer, hleft⟩
  · obtain ⟨own, hown, htype, hfits⟩ := run_fitsTypes hrun hissued _ hstates _ _ hcur
    obtain rfl : own = options :=
      builtinOptions_inj hown hoptions (htype.symm.trans (hissue.same_type hnext))
    obtain rfl : current.id = id := Database.id_of_content hcur
    refine .inr ⟨own, hoptions, current, _, typeOptions_name hname, hcur, ?_, ?_, hanswer,
      nextState_merged (meta_settles hoptions) hpatch hfits hnext⟩
    · rw [hleft]
      exact content_updated hcur
    · intro j hj
      rw [hleft]
      exact content_updated_of_ne hj

end Accepted

/-- What PATCH does in a run of the API. -/
structure PatchMerges {I : Type} (p : Platform) (servesLocale : String → Bool)
    (m : ContentMachine I) : Prop where
  /-- A patch has no key the body lacked. -/
  keys : ∀ options ∈ builtinOptions, ∀ body patch, options.updateSchema p body = some patch →
    ∀ key ∈ patch.keys, key ∈ body.map Prod.fst
  /-- The empty patch, judged by the type of the row, is the row. -/
  reproduced : ∀ db ∈ m.states, ∀ id row, db.content id = some row →
    ∃ options ∈ builtinOptions, row.type = options.name ∧
      ∃ state, (defineContentType p.isSafeHref options).stateSchema
        (({} : Patch).over row.toState) = some state ∧ state.toColumns = row.toColumns
  /-- Every accepted PATCH is a merge into the row it found. -/
  merged : ∀ e ∈ m.log, ∀ name id body actor moment db row,
    (WriteRequest.patch name (some id) body).handle p servesLocale actor moment db = .ok e.call →
    e.answer = [row] →
    ∃ options ∈ builtinOptions, ∃ current, options.name = name ∧ e.found.content id = some current ∧
      e.left.content id = some row ∧
      MergedInto p options (withoutVersion body) moment.now current.toColumns row.toColumns

/-- **PATCH is a merge, field by field**, in every run of the requests and passes over
a database that began empty. -/
theorem patch_is_merge {I : Type} [DecidableEq I] {«media» : List MediaRow} {m : ContentMachine I}
    {p : Platform} {servesLocale : String → Bool}
    (hrun : Run engine program (fun _ => True) (.start (Database.empty «media»)) m)
    (hissued : ∀ e ∈ m.log, Issued p servesLocale e.call) : PatchMerges p servesLocale m where
  keys options _ body patch h := options.updateSchema_keys h
  reproduced db hdb id row hrow := by
    obtain ⟨options, hoptions, htype, hfits⟩ := run_fitsTypes hrun hissued db hdb id row hrow
    exact ⟨options, hoptions, htype, row.state, hfits.reproduced, row.state_toColumns⟩
  merged e he name id body actor moment db row hhandle hanswer := by
    rcases accepted_patch hrun hissued he hhandle with ⟨hnone, -⟩ |
      ⟨options, hoptions, current, after, hname, hcur, hleft, -, hsome, hmerged⟩
    · cases hanswer.symm.trans hnone
    · obtain rfl : row = after := List.singleton_inj.mp (hanswer.symm.trans hsome)
      exact ⟨options, hoptions, current, hname, hcur, hleft, hmerged⟩

/-! ### Runs of whole requests -/

section Calls
variable (p : Platform) (actor : Actor) (moment : Moment)

/-- The call of a request, where every locale is served; a refused one stands for a pass
of the scheduler. -/
def callOf (request : WriteRequest) : Call :=
  match request.handle p (fun _ => true) actor moment (Database.empty []) with
  | .ok call => call
  | .error _ => .publishDueContent moment.now moment.stamps

variable {p actor moment} {request : WriteRequest} {requests : List WriteRequest}

theorem callOf_ok
    (h : (request.handle p (fun _ => true) actor moment (Database.empty [])).isOk = true) :
    request.handle p (fun _ => true) actor moment (Database.empty []) =
      .ok (callOf p actor moment request) := by
  rw [callOf]
  cases hc : request.handle p (fun _ => true) actor moment (Database.empty []) with
  | ok call => rfl
  | error refusal =>
    rw [hc] at h
    cases h

theorem callOf_issued (request : WriteRequest) :
    Issued p (fun _ => true) (callOf p actor moment request) := by
  rw [callOf]
  split
  · rename_i call hcall
    exact .request request actor moment _ hcall
  · exact .pass _ _

/-- A run that commits the calls of requests. -/
theorem callOf_log {m : ContentMachine Nat}
    (h : m.log.map (·.call) = (requests.map (callOf p actor moment)).reverse) :
    ∀ e ∈ m.log, Issued p (fun _ => true) e.call := by
  intro e he
  have hmem : e.call ∈ (requests.map (callOf p actor moment)).reverse :=
    h ▸ List.mem_map_of_mem he
  obtain ⟨request, -, heq⟩ := List.mem_map.mp (List.mem_reverse.mp hmem)
  exact heq ▸ callOf_issued request

/-- The last commit of such a run is that of the last request. -/
theorem callOf_last {actions : List (Action Call Nat)} {check : ContentRow → ContentRow → Bool}
    (heval : ((Machine.start (Database.empty []) : ContentMachine Nat).steps engine program
      actions).any (fun m => m.log.head?.any fun e => (e.found.content 1).any fun before =>
        (e.left.content 1).any fun after => check before after) = true)
    (hcalls : ((Machine.start (Database.empty []) : ContentMachine Nat).steps engine program
      actions).map (fun m => m.log.map (·.call)) =
        some (requests.map (callOf p actor moment)).reverse)
    (hlast : requests.getLast? = some request)
    (hok : (request.handle p (fun _ => true) actor moment (Database.empty [])).isOk = true) :
    ∃ (m : ContentMachine Nat) (e : Committed Database Call (List ContentRow))
      (before after : ContentRow),
      Run engine program (fun _ => True) (.start (Database.empty [])) m ∧
      (∀ e ∈ m.log, Issued p (fun _ => true) e.call) ∧ e ∈ m.log ∧
      request.handle p (fun _ => true) actor moment (Database.empty []) = .ok e.call ∧
      e.found.content 1 = some before ∧ e.left.content 1 = some after ∧
      check before after = true := by
  obtain ⟨m, hm, hrun, hcheck⟩ := Run.of_eval heval
  rw [hm] at hcalls
  simp only [Option.any_eq_true] at hcheck
  obtain ⟨e, he, before, hbefore, after, hafter, hchecked⟩ := hcheck
  have hlog : m.log.map (·.call) = (requests.map (callOf p actor moment)).reverse :=
    Option.some.inj hcalls
  have hhead := congrArg List.head? hlog
  rw [List.head?_map, he, List.head?_reverse, List.getLast?_map, hlast] at hhead
  have hcall : e.call = callOf p actor moment request := Option.some.inj hhead
  exact ⟨m, e, before, after, hrun, callOf_log hlog, List.mem_of_head? he,
    hcall ▸ callOf_ok hok, hbefore, hafter, hchecked⟩

end Calls

/-! ### A patch that names three fields -/

/-- No link may be followed, and a date is its number of milliseconds. -/
def plainPlatform : Platform where
  isSafeHref := fun _ => false
  spelled := fun _ => ""
  date := fun
    | .number n => some n.toNat
    | _ => none

/-- Somebody who creates, edits and publishes. -/
def publisher : Actor := ⟨[.contentCreate, .contentUpdateAny, .contentPublish], some 7⟩

/-- Moment 3; a document created at it is 1. -/
def publisherMoment : Moment := ⟨3, ⟨1, 101, 3⟩, ⟨fun _ => 500, fun _ => 3, 3⟩, .asFound⟩

/-- What a request of the publisher leads to. -/
def publisherHandle (request : WriteRequest) : Except Refusal Call :=
  request.handle plainPlatform (fun _ => true) publisher publisherMoment (Database.empty [])

/-- The call that a request of the publisher leads to. -/
def publisherCall (request : WriteRequest) : Call :=
  match publisherHandle request with
  | .ok call => call
  | .error _ => .publishDueContent 3 publisherMoment.stamps

/-- A run that commits the calls of requests of the publisher. -/
theorem publisher_log {m : ContentMachine Nat} {requests : List WriteRequest}
    (h : m.log.map (·.call) = (requests.map publisherCall).reverse) :
    ∀ e ∈ m.log, Issued plainPlatform (fun _ => true) e.call := callOf_log h

def patchedPost : List WriteRequest :=
  [.post "post" [("locale", .string "en"), ("slug", .string "hello"), ("title", .string "Hello"),
      ("excerpt", .string "First")],
    .patch "post" (some 1) [("expectedVersion", .number 1), ("title", .string "Hi"),
      ("status", .string "published"), ("excerpt", .null)]]

def patchedPostLife : List (Action Call Nat) :=
  (patchedPost.zip [4, 7]).flatMap fun (request, n) => wholeCall 0 (publisherCall request) n

theorem patch_is_merge_post : ∃ m : ContentMachine Nat,
    (Machine.start (Database.empty [])).steps engine program patchedPostLife = some m ∧
    m.log.length = 2 ∧ PatchMerges plainPlatform (fun _ => true) m := by
  have heval : ((Machine.start (Database.empty []) : ContentMachine Nat).steps engine program
      patchedPostLife).any (fun m => (m.db.content 1).any fun r => r.title = "Hi") = true := by
    decide +kernel
  have hcalls : ((Machine.start (Database.empty []) : ContentMachine Nat).steps engine program
      patchedPostLife).map (fun m => m.log.map (·.call)) =
      some (patchedPost.map publisherCall).reverse := rfl
  obtain ⟨m, hm, hrun, -⟩ := Run.of_eval heval
  rw [hm] at hcalls
  have hlog : m.log.map (·.call) = (patchedPost.map publisherCall).reverse :=
    Option.some.inj hcalls
  refine ⟨m, hm, by simpa [patchedPost] using congrArg List.length hlog, ?_⟩
  exact patch_is_merge hrun (publisher_log hlog)

end PressLabz
