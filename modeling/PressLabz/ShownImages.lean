import PressLabz.MediaMirror
import PressLabz.Render

/-! # The images of a page

An image block names its asset with a text.  The foreign key of `content_media` compares
uuids, and so does `findMediaByIds`; the maps between that query and the page compare
texts (`mediaResolver`, `loadMedia`).  An image that is not in the map is left out of the
page without a word.
-/
namespace PressLabz
open RowLocks

/-! ## Rows by the text of their key -/

section Texts
variable {R I T : Type} [DecidableEq T] {key : R → I} {print : I → T} {parse : T → I}
  {rows : List R} {text : T}

/-- A text that finds a row is the printed one of its key. -/
theorem found_by_text (hprint : ∀ id, parse (print id) = id) {row : R}
    (h : (rows.find? fun row => print (key row) = text) = some row) :
    row ∈ rows ∧ key row = parse text ∧ text = print (parse text) := by
  have htext : print (key row) = text := by simpa using List.find?_some h
  have hkey : key row = parse text := by rw [← htext, hprint]
  exact ⟨List.mem_of_find?_eq_some h, hkey, hkey ▸ htext.symm⟩

/-- The printed text of a key finds a row of the key. -/
theorem finds_printed (print : I → T) {id : I} {row : R} (hrow : row ∈ rows)
    (hkey : key row = id) :
    ∃ found, (rows.find? fun row => print (key row) = print id) = some found := by
  refine Option.isSome_iff_exists.mp (List.find?_isSome.mpr ⟨row, hrow, decide_eq_true ?_⟩)
  rw [hkey]

/-- A map filled key by key holds what was resolved. -/
theorem lookup_resolved {V : Type} (resolve : T → Option V) {keys : List T} {key : T}
    (h : key ∈ keys) :
    (keys.filterMap fun key => (resolve key).map fun value => (key, value)).lookup key =
      resolve key := by
  induction keys with
  | nil => cases h
  | cons first rest ih =>
    by_cases hkey : key = first
    · subst hkey
      cases hvalue : resolve key with
      | some value => simp [hvalue]
      | none =>
        rw [List.filterMap_cons_none (by simp [hvalue])]
        -- No later entry of the key is there either.
        refine List.lookup_eq_none_iff.mpr fun entry hentry => ?_
        obtain ⟨other, -, hother⟩ := List.mem_filterMap.mp hentry
        obtain ⟨value, hresolve, rfl⟩ := Option.map_eq_some_iff.mp hother
        refine bne_iff_ne.mpr ?_
        rintro rfl
        rw [hvalue] at hresolve
        cases hresolve
    · have hrest := ih ((List.mem_cons.mp h).resolve_left hkey)
      cases hvalue : resolve first with
      | some value =>
        rw [List.filterMap_cons_some (by simp [hvalue]; rfl), List.lookup_cons,
          beq_false_of_ne hkey]
        exact hrest
      | none =>
        rw [List.filterMap_cons_none (by simp [hvalue])]
        exact hrest

end Texts

/-! ## What the page is given -/

/-- The digits of a width or a height; zero counts as absent. -/
def Numeral.ofNat (n : Nat) : Numeral where
  text := toString n
  truthy := n ≠ 0
  plain c hc := by
    have hdigit : c.isDigit = true := by
      refine Nat.isDigit_of_mem_toDigits (b := 10) (n := n) (by decide) (by decide) ?_
      simpa [Nat.repr] using hc
    exact .inl (by rw [Char.isAlphanum, hdigit, Bool.or_true])

def ResolvedMedia.image (media : ResolvedMedia) : ResolvedImage where
  src := media.src
  alt := media.alt
  width := media.width.map Numeral.ofNat
  height := media.height.map Numeral.ofNat

/-- What an asset resolves to, whatever text it was named with. -/
def Site.resolved (site : Site) (locale : String) (row : MediaRow) : ResolvedMedia where
  src := site.mediaBase ++ "/" ++ row.storageKey
  alt := ((row.alt.lookup locale).or (row.alt.lookup DEFAULT_LOCALE)).getD ""
  width := row.width
  height := row.height

/-- The media of a document, by the texts of its blocks. -/
def Site.mediaOf (site : Site) (db : Database) (row : ContentRow) (locale : String)
    (mediaId : UuidText) : Option ResolvedMedia :=
  (loadMedia site db row locale).value.lookup mediaId

/-- `{ resolveMedia: (id) => media.get(id) }`. -/
def Site.renderOptions (site : Site) (db : Database) (row : ContentRow) (locale : String) :
    RenderOptions where
  resolveMedia := some fun mediaId => (site.mediaOf db row locale mediaId).map (·.image)

/-- The media that the page asks for an image is that of the asset, and the image is
written. -/
def Shows {H : Type} (p : HostParser H) (site : Site) (db : Database) (row : ContentRow)
    (locale : String) (image : Block) (mediaId : UuidText) : Prop :=
  ∃ asset ∈ db.media, asset.id = mediaId.uuid ∧
    site.mediaOf db row locale mediaId = some (site.resolved locale asset) ∧
    renderBlock p (site.renderOptions db row locale) image ≠ ""

/-- Every image of a document is shown. -/
def ShowsImages {H : Type} (p : HostParser H) (site : Site) (db : Database) (row : ContentRow)
    (locale : String) : Prop :=
  ∀ id mediaId caption, .image id mediaId caption ∈ row.blocks →
    Shows p site db row locale (.image id mediaId caption) mediaId

/-- Every image names its asset as the database prints a uuid. -/
def ImagesPrinted (blocks : Blocks) : Prop :=
  ∀ id mediaId caption, .image id mediaId caption ∈ blocks →
    mediaId = Uuid.text mediaId.uuid

section Shown
variable {H : Type} {p : HostParser H} {site : Site} {db : Database} {row : ContentRow}
  {locale : String} {id mediaId : UuidText} {caption : Option InlineContent}

theorem mem_mediaIdsIn {blocks : Blocks} (h : .image id mediaId caption ∈ blocks) :
    mediaId ∈ mediaIdsIn blocks :=
  List.mem_eraseDups.mpr (List.mem_filterMap.mpr ⟨_, h, rfl⟩)

/-- A query finds the asset whatever the spelling. -/
theorem mem_findMediaByIds {ids : List UuidText} (h : mediaId ∈ ids) {asset : MediaRow} :
    asset ∈ db.findMediaByIds ids ∧ asset.id = mediaId.uuid ↔
      asset ∈ db.media ∧ asset.id = mediaId.uuid := by
  refine and_congr_left fun hid => List.mem_filter.trans (and_iff_left ?_)
  exact List.any_eq_true.mpr ⟨mediaId, h, decide_eq_true hid.symm⟩

/-- What the page has for an image is what the rows of the query resolve it to. -/
theorem mediaOf_image (h : .image id mediaId caption ∈ row.blocks) :
    site.mediaOf db row locale mediaId =
      site.mediaResolver (db.findMediaByIds (mediaIdsIn row.blocks)) locale mediaId := by
  have hmem : mediaId ∈ mediaIdsIn row.blocks := mem_mediaIdsIn h
  have hids : (mediaIdsIn row.blocks).length ≠ 0 := (List.length_pos_of_mem hmem).ne'
  have hvalue : (loadMedia site db row locale).value =
      (mediaIdsIn row.blocks).filterMap fun id =>
        (site.mediaResolver (db.findMediaByIds (mediaIdsIn row.blocks)) locale id).map
          fun resolved => (id, resolved) := by
    rw [loadMedia, if_neg hids]
    rfl
  rw [Site.mediaOf, hvalue]
  exact lookup_resolved _ hmem

/-- A page that has something for an image was asked with a printed text, and has the
media of the asset. -/
theorem printed_of_mediaOf (h : .image id mediaId caption ∈ row.blocks) {resolved : ResolvedMedia}
    (hmedia : site.mediaOf db row locale mediaId = some resolved) :
    mediaId = Uuid.text mediaId.uuid ∧
      ∃ asset ∈ db.media, asset.id = mediaId.uuid ∧ resolved = site.resolved locale asset := by
  rw [mediaOf_image h] at hmedia
  obtain ⟨asset, hfind, rfl⟩ := Option.map_eq_some_iff.mp hmedia
  obtain ⟨hmem, hid, htext⟩ := found_by_text Uuid.text_uuid hfind
  exact ⟨htext, asset, (List.mem_filter.mp (List.mem_reverse.mp hmem)).1, hid, rfl⟩

/-- A printed text of an asset that is there finds its media. -/
theorem mediaOf_of_printed (h : .image id mediaId caption ∈ row.blocks)
    (hprinted : mediaId = Uuid.text mediaId.uuid) {asset : MediaRow} (hasset : asset ∈ db.media)
    (hid : asset.id = mediaId.uuid) :
    ∃ resolved, site.mediaOf db row locale mediaId = some resolved := by
  have hrow : asset ∈ (db.findMediaByIds (mediaIdsIn row.blocks)).reverse :=
    List.mem_reverse.mpr ((mem_findMediaByIds (mem_mediaIdsIn h)).mpr ⟨hasset, hid⟩).1
  obtain ⟨found, hfound⟩ := finds_printed Uuid.text hrow hid
  rw [← hprinted] at hfound
  refine ⟨site.resolved locale found, ?_⟩
  rw [mediaOf_image h]
  exact Option.map_eq_some_iff.mpr ⟨found, hfound, rfl⟩

/-- An image is written if the caller resolves its media, and left out otherwise. -/
theorem renderBlock_image_ne (options : RenderOptions) :
    renderBlock p options (.image id mediaId caption) ≠ "" ↔
      ∃ media, options.resolveMedia.bind (fun resolveMedia => resolveMedia mediaId) = some media := by
  simp only [renderBlock]
  cases hmedia : options.resolveMedia.bind fun resolveMedia => resolveMedia mediaId with
  | none => simp
  | some media =>
    cases caption with
    | none => simp
    | some caption => simp

/-- **An image is shown** if its asset is there and named as the database prints it. -/
theorem shows_iff (h : .image id mediaId caption ∈ row.blocks) :
    Shows p site db row locale (.image id mediaId caption) mediaId ↔
      mediaId = Uuid.text mediaId.uuid ∧ ∃ asset ∈ db.media, asset.id = mediaId.uuid := by
  constructor
  · rintro ⟨asset, hasset, hid, hmedia, -⟩
    exact ⟨(printed_of_mediaOf h hmedia).1, asset, hasset, hid⟩
  · rintro ⟨hprinted, asset, hasset, hid⟩
    have hfound : ∃ resolved, site.mediaOf db row locale mediaId = some resolved :=
      mediaOf_of_printed h hprinted hasset hid
    obtain ⟨resolved, hmedia⟩ := hfound
    obtain ⟨-, shown, hshown, hshownId, rfl⟩ := printed_of_mediaOf h hmedia
    refine ⟨shown, hshown, hshownId, hmedia, (renderBlock_image_ne _).mpr ?_⟩
    exact ⟨_, congrArg (Option.map ResolvedMedia.image) hmedia⟩

end Shown

/-! ## The references of the blocks -/

section References
variable {type : AnyContentType} {blocks : Blocks} {«meta» : Meta}

/-- Of each text and source one reference is kept. -/
theorem kept_firstOfEach {references : List ContentMediaReference}
    {reference : ContentMediaReference} (h : reference ∈ references) :
    ∃ kept ∈ firstOfEach references,
      kept.mediaId = reference.mediaId ∧ kept.source = reference.source := by
  induction references with
  | nil => cases h
  | cons first rest ih =>
    rw [firstOfEach]
    rcases List.mem_cons.mp h with rfl | h
    · exact ⟨reference, List.mem_cons_self, rfl, rfl⟩
    · obtain ⟨kept, hkept, hmedia, hsource⟩ := ih h
      by_cases hsame : kept.mediaId = first.mediaId ∧ kept.source = first.source
      · exact ⟨first, List.mem_cons_self, hsame.1.symm.trans hmedia, hsame.2.symm.trans hsource⟩
      · exact ⟨kept, List.mem_cons_of_mem _ (List.mem_filter.mpr ⟨hkept, decide_eq_true hsame⟩),
          hmedia, hsource⟩

/-- The media of an image is a reference of the document. -/
theorem reference_of_image {id mediaId : UuidText} {caption : Option InlineContent}
    (h : .image id mediaId caption ∈ blocks) :
    ∃ reference ∈ mediaReferencesOf type blocks «meta», reference.mediaId = mediaId := by
  have hnamed : (⟨mediaId, .block, .block id⟩ : ContentMediaReference) ∈
      mediaReferencesInBlocks blocks :=
    List.mem_flatMap.mpr ⟨_, h, List.mem_singleton_self _⟩
  obtain ⟨kept, hkept, hmedia, -⟩ := kept_firstOfEach (List.mem_append_left _ hnamed)
  exact ⟨kept, (List.mem_insertionSort _).mpr hkept, hmedia⟩

/-- Where the mirror is exact and the foreign key met, the asset of an image is there. -/
theorem asset_of_image {types : List AnyContentType} {db : Database} {row : ContentRow}
    {id mediaId : UuidText} {caption : Option InlineContent} (hc : db.Constraints)
    (hmirror : Mirrored types db) (hrow : row ∈ db.contents)
    (h : .image id mediaId caption ∈ row.blocks) : ∃ asset ∈ db.media, asset.id = mediaId.uuid := by
  obtain ⟨type, -, hrows⟩ := hmirror row.id row (Database.content_of_mem hc hrow)
  have hnamed : ∃ reference ∈ mediaReferencesOf type row.blocks row.meta,
      reference.mediaId = mediaId := reference_of_image h
  obtain ⟨reference, hreference, rfl⟩ := hnamed
  have hmirrored := (hrows (reference.row row.id)).mpr ⟨reference, hreference, rfl⟩
  exact hc.content_media_media_fk _ (List.mem_filter.mp hmirrored).1

end References

/-! ## Runs -/

/-- The document that is answered, where it is one. -/
def StoreAnswer.document : StoreAnswer → Option ContentRow
  | .content [row] => some row
  | _ => none

/-- A creation or an update that was committed with this document for its answer. -/
def Accepts (e : Committed Database StoreCall StoreAnswer) (row : ContentRow) : Prop :=
  e.answer.document = some row ∧
    ((∃ input fresh, e.call = .content (.createContent input fresh)) ∨
      ∃ type docId patch options stamps,
        e.call = .content (.updateContent type docId patch options stamps))

section
variable {H I : Type} [DecidableEq I] {db : Database} {m : StoreMachine I}
  {installation : Installation}

theorem StoreAnswer.of_document {answer : StoreAnswer} {row : ContentRow}
    (h : answer.document = some row) : answer = .content [row] := by
  unfold StoreAnswer.document at h
  split at h
  · rw [Option.some.inj h]
  · cases h

/-- What was accepted is a document of what the commit left. -/
theorem Accepts.mem {e : Committed Database StoreCall StoreAnswer} {row : ContentRow}
    (hmeets : e.Meets storeDiscipline) (h : Accepts e row) : row ∈ e.left.contents := by
  obtain ⟨hanswer, hcall⟩ := h
  have hpost : StorePost e.call e.answer e.found e.left := hmeets.post
  rw [StoreAnswer.of_document hanswer] at hpost
  rcases hcall with ⟨input, fresh, hcall⟩ | ⟨type, docId, patch, options, stamps, hcall⟩
  · rw [hcall] at hpost
    obtain ⟨hrow, -, -, hleft⟩ := hpost
    rw [(List.cons.inj hrow).1, hleft]
    exact Database.mem_of_content (content_created.trans (if_pos rfl))
  · rw [hcall] at hpost
    rcases hpost with ⟨hnone, -⟩ | ⟨current, next, hcurrent, -, hrow, hleft⟩
    · cases hnone
    · obtain rfl : current.id = docId := Database.id_of_content hcurrent
      rw [(List.cons.inj hrow).1, hleft]
      exact Database.mem_of_content (content_updated hcurrent)

/-- **The images of a site.**  In every run from an exact mirror, a document that was
accepted is one of the committed documents; and in every committed state and language the
page of a document shows all of its images if and only if each names its asset as the
database prints it. -/
theorem shows_images_iff (p : HostParser H) (site : Site)
    (hnames : (installation.types.map AnyContentType.name).Nodup)
    (hinv : ContentsInv db) (hready : Mirrored installation.types db)
    (hrun : Run storeEngine storeProgram (fun _ => True) (.start db) m)
    (hserved : ∀ e ∈ m.log, ∀ call, e.call = .content call → Served installation call) :
    (∀ e ∈ m.log, ∀ row, Accepts e row → e.left ∈ m.states ∧ row ∈ e.left.contents) ∧
      ∀ s ∈ m.states, ∀ row ∈ s.contents, ∀ locale,
        ShowsImages p site s row locale ↔ ImagesPrinted row.blocks := by
  have hlog := store_log hinv hrun
  have hmirror : ∀ s ∈ m.states, Mirrored installation.types s :=
    hrun.linked.invariant hready fun e he =>
      StorePost.mirrored hnames (hlog e he).found.constraints (hserved e he) (hlog e he).post
  refine ⟨fun e he row h => ⟨hrun.linked.left_mem he, h.mem (hlog e he)⟩,
    fun s hs row hrow locale => ?_⟩
  have hc : s.Constraints := (store_states hinv hrun s hs).constraints
  constructor
  · intro h id mediaId caption himage
    exact ((shows_iff himage).mp (h id mediaId caption himage)).1
  · intro h id mediaId caption himage
    exact (shows_iff himage).mpr
      ⟨h id mediaId caption himage, asset_of_image hc (hmirror s hs) hrow himage⟩

end

/-! ### A picture on a page -/

/-- The request for a page with the picture, named by a text. -/
def picturedRequest (mediaId : UuidText) : ContentRequest :=
  .post "page" (some ⟨"en", none,
    { emptyPage "about" none with blocks := [.image ⟨50, 0⟩ mediaId none] }⟩)

def picturedPage (mediaId : UuidText) : List (Action StoreCall Nat) :=
  .begin_ 0 (.content (contributorCall (picturedRequest mediaId))) ::
    List.replicate 4 (.advance 0) ++ [.commit 0]

theorem pictured_creates (mediaId : UuidText) :
    ∃ input fresh, contributorCall (picturedRequest mediaId) = .createContent input fresh :=
  ⟨_, _, rfl⟩

/-- The page is accepted, in lower case and in capitals. -/
theorem pictured_accepted (mediaId : UuidText) (h : mediaId ∈ [⟨7, 0⟩, (⟨7, 1⟩ : UuidText)]) :
    ∃ m : StoreMachine Nat,
      (Machine.start (Database.empty [photo])).steps storeEngine storeProgram
        (picturedPage mediaId) = some m ∧
      Run storeEngine storeProgram (fun _ => True) (.start (Database.empty [photo])) m ∧
      (∀ e ∈ m.log, ∀ call, e.call = .content call → Served builtinSite call) ∧
      ∃ e ∈ m.log, ∃ row, Accepts e row ∧ row.blocks = [.image ⟨50, 0⟩ mediaId none] := by
  have heval : ∀ mediaId ∈ [⟨7, 0⟩, (⟨7, 1⟩ : UuidText)],
      ((Machine.start (Database.empty [photo]) : StoreMachine Nat).steps storeEngine
        storeProgram (picturedPage mediaId)).any (fun m => m.log.any fun e =>
          e.answer.document.any fun row =>
            decide (row.blocks = [.image ⟨50, 0⟩ mediaId none])) = true := by
    decide +kernel
  have hok : ∀ mediaId ∈ [⟨7, 0⟩, (⟨7, 1⟩ : UuidText)],
      (contributed (picturedRequest mediaId)).isOk = true := by
    decide
  have hcalls : ((Machine.start (Database.empty [photo]) : StoreMachine Nat).steps storeEngine
      storeProgram (picturedPage mediaId)).map (fun m => m.log.map (·.call)) =
      some [.content (contributorCall (picturedRequest mediaId))] := by
    rcases List.mem_cons.mp h with rfl | h
    · rfl
    · obtain rfl := List.mem_singleton.mp h
      rfl
  obtain ⟨m, hm, hrun, hcheck⟩ := Run.of_eval (heval mediaId h)
  rw [hm] at hcalls
  have hcall : ∀ e ∈ m.log, e.call = .content (contributorCall (picturedRequest mediaId)) := by
    intro e he
    exact List.mem_singleton.mp (Option.some.inj hcalls ▸ List.mem_map_of_mem he)
  refine ⟨m, hm, hrun, fun e he call hcall' => ?_, ?_⟩
  · obtain rfl := StoreCall.content.inj (hcall'.symm.trans (hcall e he))
    obtain ⟨request, moment, found, hhandle⟩ := contributorCall_requested (hok mediaId h)
    exact .inl ⟨contributor, ContentRequest.handle_call hhandle⟩
  · obtain ⟨e, he, hanswer⟩ := List.any_eq_true.mp hcheck
    obtain ⟨row, hrow, hblocks⟩ := (Option.any_eq_true _ _).mp hanswer
    obtain ⟨input, fresh, hcreate⟩ := pictured_creates mediaId
    exact ⟨e, he, row, ⟨hrow, .inl ⟨input, fresh, hcreate ▸ hcall e he⟩⟩,
      of_decide_eq_true hblocks⟩

theorem shows_images_picture : ∃ m : StoreMachine Nat,
    (Machine.start (Database.empty [photo])).steps storeEngine storeProgram
      (picturedPage ⟨7, 0⟩) = some m ∧
    ∃ e ∈ m.log, ∃ row, Accepts e row ∧ row.blocks = [.image ⟨50, 0⟩ ⟨7, 0⟩ none] ∧
      ShowsImages plainHosts plainSite e.left row "en" := by
  obtain ⟨m, hm, hrun, hserved, e, he, row, haccepts, hblocks⟩ :=
    pictured_accepted ⟨7, 0⟩ (by decide)
  obtain ⟨hstates, hshows⟩ := shows_images_iff plainHosts plainSite (by decide)
    (empty_inv [photo]) (mirrored_empty _ _) hrun hserved
  obtain ⟨hleft, hrow⟩ := hstates e he row haccepts
  refine ⟨m, hm, e, he, row, haccepts, hblocks, (hshows _ hleft row hrow "en").mpr ?_⟩
  intro id mediaId caption himage
  rw [hblocks] at himage
  cases List.mem_singleton.mp himage
  rfl

theorem capitals_leave_image_out : Mirrored builtinSite.types (Database.empty [photo]) ∧
    ∃ m : StoreMachine Nat,
      (Machine.start (Database.empty [photo])).steps storeEngine storeProgram
        (picturedPage ⟨7, 1⟩) = some m ∧
      (∀ e ∈ m.log, ∀ call, e.call = .content call → Served builtinSite call) ∧
      ¬ ∀ e ∈ m.log, ∀ row, Accepts e row →
        ∀ locale, ShowsImages plainHosts plainSite e.left row locale := by
  obtain ⟨m, hm, -, hserved, e, he, row, haccepts, hblocks⟩ :=
    pictured_accepted ⟨7, 1⟩ (by decide)
  refine ⟨mirrored_empty _ _, m, hm, hserved, fun h => ?_⟩
  have himage : Block.image ⟨50, 0⟩ ⟨7, 1⟩ none ∈ row.blocks := hblocks ▸ List.mem_singleton_self _
  have hshown := h e he row haccepts "en" _ _ _ himage
  have hprinted : (⟨7, 1⟩ : UuidText) = ⟨7, 0⟩ := ((shows_iff himage).mp hshown).1
  cases hprinted

end PressLabz
