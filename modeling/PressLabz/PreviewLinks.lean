import PressLabz.ContentReading
import PressLabz.LinkTargets

/-! # Preview links

A link is a token that the API signs for an actor who may read the document
(`POST /content/:type/:id/preview`), and that the site opens for whoever has it
(`apps/web/src/pages/[locale]/preview/[token].astro`).  Between the two the document is
written to, moved or deleted, the clock runs on, and anybody opens any URL.

Signatures are not forged: a URL whose token is signed with the secret of the site has the
token of a link that was handed out (`Held`).  Then what is opened was handed out to a reader
of that document, and not too long ago, and shows the document as it is now; and what was
handed out opens, until it expires (`preview_links`).
-/
namespace PressLabz.PreviewLinks
open Utf16 PreviewTokens

/-! ## The texts of a token -/

/-- Instants and ids as a token has them, and what the database makes of a text where it
compares it with an id. -/
structure Texts (N : Type) [LinearOrder N] where
  node : Node
  numbers : NumberTexts N
  instant : Nat → N
  instant_lt : ∀ a b, instant a < instant b ↔ a < b
  finite : ∀ n, numbers.isFinite (instant n) = true
  idText : Uuid → List UInt16
  readId : List UInt16 → Option Uuid
  readId_idText : ∀ id, readId (idText id) = some id

/-- `PREVIEW_SECRET`, as the schema of either environment has it. -/
structure PreviewSecret where
  text : List UInt16
  long : 32 ≤ text.length

def previewPath (locale token : String) : String := "/" ++ locale ++ "/preview/" ++ token

section Model
variable {N : Type} [LinearOrder N] (texts : Texts N)

def claimsOf (id : Uuid) (expiresAt : Nat) : PreviewClaims N :=
  ⟨texts.idText id, texts.instant expiresAt⟩

/-! ## The API -/

/-- The token of a link, as part of a URL. -/
def issueToken (secret : PreviewSecret) (id : Uuid) (expiresAt : Nat) : Except String String :=
  (signPreviewToken texts.numbers texts.node (claimsOf texts id expiresAt) secret.text).map
    fun token => String.ofList (scalars token)

structure ApiEnv where
  secret : Option PreviewSecret
  /-- The origin of `SITE_URL`. -/
  siteOrigin : Option String
  ttlSeconds : Nat

/-- What the route that hands out links goes by. -/
def ApiEnv.settings (env : ApiEnv) : PreviewSettings where
  available := env.secret.isSome && env.siteOrigin.isSome
  ttlSeconds := env.ttlSeconds
  url locale id expiresAt :=
    match env.secret, env.siteOrigin with
    | some secret, some origin =>
      match issueToken texts secret id expiresAt with
      | .ok token => origin ++ previewPath locale token
      -- A secret that is too short does not get past the schema.
      | .error _ => ""
    | _, _ => ""

/-! ## The site -/

inductive PreviewAnswer where
  | redirect (location : String)
  /-- No document is a 404. -/
  | page (headers : List (String × String)) (context : SiteContext)
      (document : Option DocumentView)

def PreviewAnswer.status : PreviewAnswer → Nat
  | .redirect _ => 302
  | .page _ _ (some _) => 200
  | .page _ _ none => 404

def PREVIEW_HEADERS : List (String × String) :=
  [("cache-control", "no-store, private"), ("x-robots-tag", "noindex, nofollow"),
    ("referrer-policy", "no-referrer")]

/-- `findContentById`, of the text in a token. -/
def loadForPreview (db : Database) (contentId : List UInt16) :
    Except String (Option ContentRow) :=
  match texts.readId contentId with
  | none => .error "invalid input syntax for type uuid"
  | some id => .ok (db.content id)

/-- The type that a document says it is of. -/
def typeOf (site : Site) (row : ContentRow) : Option AnyContentType :=
  site.types.find? fun type => type.name = row.type

section Page
variable (secret : Option PreviewSecret) (site : Site) (now : Nat) (db : Database)

/-- What the page shows around a document, or in its place. -/
def previewContext (pathname : String) : SiteContext :=
  siteContext site ((site.localeOf pathname).getD site.defaultLocale) pathname MISSING_HEAD [] none

/-- The document that the page shows: under its slug alone, whatever its type. -/
def previewView (row : ContentRow) (type : AnyContentType) : DocumentView :=
  documentView site row type [row.slug] (loadMedia site db row row.locale).value

/-- What the site takes a token for. -/
def claimed (token : String) : Except String (Option (PreviewClaims N)) :=
  match secret with
  | none => .ok none
  | some secret =>
    verifyPreviewToken texts.numbers texts.node (textUnits token) secret.text (texts.instant now)

/-- The document of a token, where the path is in a language of the site. -/
def previewRow (locale : Option String) (claims : Option (PreviewClaims N)) :
    Except String (Option ContentRow) :=
  match claims, locale with
  | some claims, some _ => loadForPreview texts db claims.contentId
  | _, _ => .ok none

/-- What is made of the row. -/
def previewPage (pathname token : String) (row : Option ContentRow) : PreviewAnswer :=
  match row, row.bind (typeOf site), site.localeOf pathname with
  | some row, some type, some locale =>
    if row.locale ≠ locale then .redirect (previewPath row.locale token)
    else
      .page PREVIEW_HEADERS (previewContext site pathname)
        (some (documentView site row type [row.slug] (loadMedia site db row locale).value))
  | _, _, _ => .page PREVIEW_HEADERS (previewContext site pathname) none

/-- `[locale]/preview/[token].astro`. -/
def renderPreview (pathname token : String) : Except String PreviewAnswer := do
  let claims ← claimed texts secret now token
  let row ← previewRow texts db (site.localeOf pathname) claims
  return previewPage site db pathname token row

/-- The token in a path. -/
def tokenAt (pathname : String) : Option String :=
  match segmentsOf pathname with
  | [_, second, token] => if second = "preview" then some token else none
  | _ => none

/-- What a URL of a preview is answered with. -/
def visitPreview (u : SiteUrl) : Option (Except String PreviewAnswer) :=
  (tokenAt u.pathname).map (renderPreview texts secret site now db u.pathname)

/-- What a reader gets who goes where a preview leads, in so many hops. -/
def followPreview : Nat → String → Option (Except String PreviewAnswer)
  | 0, _ => none
  | hops + 1, href =>
    match (SiteUrl.ofHref href).bind (visitPreview texts secret site now db) with
    | some (.ok (.redirect location)) => followPreview hops location
    | answer => answer

end Page
end Model

/-! ## Texts -/

section Tokens
variable {N : Type} [LinearOrder N] {texts : Texts N}

/-- A text of a token: one segment of a path, and no more. -/
structure TokenChars (chars : List Char) : Prop where
  nonempty : chars ≠ []
  ascii : ∀ c ∈ chars, c.toNat < 0x80
  slash : '/' ∉ chars
  question : '?' ∉ chars

theorem units_ascii {chars : List Char} (h : ∀ c ∈ chars, c.toNat < 0x80) :
    textUnits (String.ofList chars) = ascii chars := by
  rw [textUnits, String.toList_ofList]
  induction chars with
  | nil => rfl
  | cons c rest ih =>
    obtain ⟨hc, hrest⟩ := List.forall_mem_cons.mp h
    have hunits : unitsOf c = [c.toNat.toUInt16] := if_pos (Nat.lt_trans hc (by decide))
    rw [List.flatMap_cons, hunits, ih hrest]
    rfl

theorem urlChar_segment : ∀ n < 64, Base64.urlChar n ≠ '/' ∧ Base64.urlChar n ≠ '?' := by decide

theorem url_chars (bytes : ByteArray) :
    ∀ c ∈ Base64.url (bytes.data.toList.map UInt8.toNat), c ≠ '/' ∧ c ≠ '?' := by
  have hlt : ∀ b ∈ bytes.data.toList.map UInt8.toNat, b < 256 := by
    rw [List.forall_mem_map]
    exact fun b _ => b.toNat_lt
  rw [Base64.url, List.forall_mem_map]
  exact fun d hd => urlChar_segment d (Base64.sextets_lt hlt d hd)

/-- **A token that is issued** is a text of the shape of tokens, whose units are the payload
and its signature. -/
theorem issueToken_chars (secret : PreviewSecret) (id : Uuid) (expiresAt : Nat) :
    ∃ chars, TokenChars chars ∧ issueToken texts secret id expiresAt = .ok (String.ofList chars) ∧
      ascii chars = encode (claimsText texts.numbers (claimsOf texts id expiresAt)) ++
        dot :: sign texts.node (encode (claimsText texts.numbers (claimsOf texts id expiresAt)))
          secret.text := by
  generalize hpayload : encode (claimsText texts.numbers (claimsOf texts id expiresAt)) = payload
  obtain ⟨bytes, rfl⟩ : ∃ bytes, payload = base64url bytes := ⟨_, hpayload.symm⟩
  obtain ⟨bytes', hsign⟩ : ∃ bytes', sign texts.node (base64url bytes) secret.text =
      base64url bytes' := ⟨_, rfl⟩
  have hchars : ∀ c ∈ Base64.url (bytes.data.toList.map UInt8.toNat) ++
      '.' :: Base64.url (bytes'.data.toList.map UInt8.toNat),
      c.toNat < 0x80 ∧ c ≠ '/' ∧ c ≠ '?' := by
    intro c hc
    rcases List.mem_append.mp hc with hc | hc
    · exact ⟨(digits_ascii bytes c hc).1, url_chars bytes c hc⟩
    · rcases List.mem_cons.mp hc with rfl | hc
      · decide
      · exact ⟨(digits_ascii bytes' c hc).1, url_chars bytes' c hc⟩
  have hascii : ascii (Base64.url (bytes.data.toList.map UInt8.toNat) ++
      '.' :: Base64.url (bytes'.data.toList.map UInt8.toNat)) =
      base64url bytes ++ dot :: sign texts.node (base64url bytes) secret.text := by
    rw [hsign, ascii, List.map_append, List.map_cons]
    rfl
  refine ⟨_, ⟨by simp, fun c hc => (hchars c hc).1, fun h => (hchars _ h).2.1 rfl,
    fun h => (hchars _ h).2.2 rfl⟩, ?_, hascii⟩
  have hsigned : signPreviewToken texts.numbers texts.node (claimsOf texts id expiresAt)
      secret.text = .ok (base64url bytes ++ dot :: sign texts.node (base64url bytes)
        secret.text) := by
    rw [signPreviewToken, if_neg (not_lt.mpr secret.long), hpayload]
    exact congrArg Except.ok (List.append_assoc _ _ _)
  rw [issueToken, hsigned, ← hascii]
  exact congrArg (Except.ok ∘ String.ofList) (scalars_ascii fun c hc => (hchars c hc).1)

theorem claimsOf_names (secret : PreviewSecret) (id : Uuid) (expiresAt now : Nat) :
    verifyPreviewToken texts.numbers texts.node
        (encode (claimsText texts.numbers (claimsOf texts id expiresAt)) ++
          dot :: sign texts.node (encode (claimsText texts.numbers (claimsOf texts id expiresAt)))
            secret.text) secret.text (texts.instant now) =
      .ok (if now < expiresAt then some (claimsOf texts id expiresAt) else none) := by
  rw [verify_signed_claims _ (texts.finite expiresAt)]
  exact congrArg Except.ok (if_congr (texts.instant_lt now expiresAt) rfl rfl)

/-- **A token that was issued** is read back, under the secret it was issued with, for as long
as it lives. -/
theorem claimed_issued {secret : PreviewSecret} {id : Uuid} {expiresAt : Nat} {token : String}
    (h : issueToken texts secret id expiresAt = .ok token) (now : Nat) :
    claimed texts (some secret) now token =
      .ok (if now < expiresAt then some (claimsOf texts id expiresAt) else none) := by
  obtain ⟨chars, hchars, hissue, hascii⟩ := @issueToken_chars _ _ texts secret id expiresAt
  obtain rfl := Except.ok.inj (hissue.symm.trans h)
  rw [claimed, units_ascii hchars.ascii, hascii]
  exact claimsOf_names secret id expiresAt now

/-- **A token that is accepted** is a payload and its signature, and if it was issued, with
whatever secret, it is taken for what it was issued for. -/
theorem claimed_some {web : Option PreviewSecret} {now : Nat} {token : String}
    {claims : PreviewClaims N} (h : claimed texts web now token = .ok (some claims)) :
    ∃ secret, web = some secret ∧ ∃ payload, dot ∉ payload ∧
      textUnits token = payload ++ dot :: sign texts.node payload secret.text ∧
      ∀ own id expiresAt, issueToken texts own id expiresAt = .ok token →
        claims = claimsOf texts id expiresAt ∧ now < expiresAt := by
  cases web with
  | none => cases h
  | some secret =>
    obtain ⟨⟨payload, hdot, hunits, hnames⟩, hnow, -⟩ := verify_accepted h
    refine ⟨secret, rfl, payload, hdot, hunits, fun own id expiresAt hissued => ?_⟩
    obtain ⟨chars, hchars, hissue, hascii⟩ := @issueToken_chars _ _ texts own id expiresAt
    obtain rfl := Except.ok.inj (hissue.symm.trans hissued)
    rw [units_ascii hchars.ascii, hascii] at hunits
    obtain ⟨rfl, hsign⟩ := Words.split_unique hdot (dot_not_mem_base64url _) hunits.symm
    have hread : claimed texts (some secret) now (String.ofList chars) =
        .ok (if now < expiresAt then some (claimsOf texts id expiresAt) else none) := by
      rw [claimed, units_ascii hchars.ascii, hascii, ← hsign]
      exact claimsOf_names secret id expiresAt now
    rw [hread] at h
    split at h
    · rename_i hlive
      exact ⟨(Option.some.inj (Except.ok.inj h)).symm, hlive⟩
    · cases h

end Tokens

/-! ## Paths -/

section Paths
variable {locale token origin : String}

theorem not_mem_of_mem_splitOn {α : Type} [DecidableEq α] {sep : α} {l part : List α}
    (h : part ∈ l.splitOn sep) : sep ∉ part := by
  induction l generalizing part with
  | nil =>
    rw [List.splitOn_nil] at h
    rw [List.mem_singleton.mp h]
    exact List.not_mem_nil
  | cons x l ih =>
    rw [List.splitOn_cons_eq_if_modifyHead] at h
    split at h
    · rcases List.mem_cons.mp h with rfl | h
      · exact List.not_mem_nil
      · exact ih h
    · rename_i hne
      obtain ⟨first, rest, hsplit⟩ := List.exists_cons_of_ne_nil (List.splitOn_ne_nil sep l)
      rw [hsplit, List.modifyHead_cons] at h
      rcases List.mem_cons.mp h with rfl | h
      · have hfirst : sep ∉ first := ih (hsplit ▸ List.mem_cons_self)
        rw [List.mem_cons, not_or]
        exact ⟨fun heq => hne (beq_iff_eq.mpr heq.symm), hfirst⟩
      · exact ih (hsplit ▸ List.mem_cons_of_mem first h)

theorem tokenAt_slash {pathname : String} (h : tokenAt pathname = some token) :
    '/' ∉ token.toList := by
  unfold tokenAt at h
  split at h
  · rename_i token' hsegments
    split at h
    · obtain rfl : token' = token := Option.some.inj h
      have hmem : token' ∈ segmentsOf pathname := by rw [hsegments]; simp
      obtain ⟨part, hpart, rfl⟩ := List.mem_map.mp hmem
      rw [String.toList_ofList]
      exact not_mem_of_mem_splitOn (List.mem_filter.mp hpart).1
    · cases h
  · cases h

theorem TokenChars.segment {chars : List Char} (h : TokenChars chars) :
    IsSegment (String.ofList chars) :=
  ⟨fun heq => h.nonempty (String.ofList_injective heq), by rw [String.toList_ofList]; exact h.slash⟩

theorem segmentsOf_previewPath (hlocale : locale ∈ LOCALES) (htoken : IsSegment token) :
    segmentsOf (previewPath locale token) = [locale, "preview", token] := by
  have hpath : previewPath locale token =
      "/" ++ locale ++ "/" ++ "/".intercalate ["preview", token] := by
    refine String.toList_inj.mp ?_
    simp [previewPath]
  rw [hpath]
  refine segmentsOf_locale (isSegment_locale hlocale) (List.cons_ne_nil _ _) ?_
  rintro segment (_ | ⟨_, _ | ⟨_, h⟩⟩)
  · exact ⟨by decide, by decide⟩
  · exact htoken
  · cases h

theorem tokenAt_previewPath (hlocale : locale ∈ LOCALES) (htoken : IsSegment token) :
    tokenAt (previewPath locale token) = some token := by
  rw [tokenAt, segmentsOf_previewPath hlocale htoken]
  rfl

theorem localeOf_previewPath {site : Site} (hlocale : locale ∈ LOCALES)
    (hserved : locale ∈ site.locales) (htoken : IsSegment token) :
    site.localeOf (previewPath locale token) = some locale :=
  (localeOf_eq (segmentsOf_previewPath hlocale htoken)).mpr ⟨rfl, hlocale, hserved⟩

/-- The URL of a link is a path that a browser takes apart as it stands. -/
theorem ofHref_previewPath (hlocale : locale ∈ LOCALES) {chars : List Char}
    (h : TokenChars chars) : ∃ hroot hbare, SiteUrl.ofHref (previewPath locale (.ofList chars)) =
      some ⟨previewPath locale (.ofList chars), [], hroot, hbare⟩ := by
  have hroot : (previewPath locale (.ofList chars)).toList.head? = some '/' := by
    rw [previewPath, String.append_assoc, String.append_assoc]
    exact head_join _
  have hbare : '?' ∉ (previewPath locale (.ofList chars)).toList := by
    simp only [previewPath, String.toList_append, String.toList_ofList, List.mem_append, not_or]
    exact ⟨⟨⟨by decide, bare_locale hlocale⟩, by decide⟩, h.question⟩
  exact ⟨hroot, hbare, ofHref_path hroot hbare⟩

end Paths

/-! ## Answers -/

section Answers
variable {N : Type} [LinearOrder N] {texts : Texts N} {web : Option PreviewSecret} {site : Site}
  {now : Nat} {db : Database} {pathname token : String} {row : ContentRow} {id : Uuid}

theorem previewPage_shown {found : Option ContentRow} {headers : List (String × String)}
    {context : SiteContext} {view : DocumentView}
    (h : previewPage site db pathname token found = .page headers context (some view)) :
    ∃ row type, found = some row ∧ typeOf site row = some type ∧
      site.localeOf pathname = some row.locale ∧ headers = PREVIEW_HEADERS ∧
      view = previewView site db row type := by
  unfold previewPage at h
  split at h
  · rename_i row type locale hlocale htype
    split at h
    · cases h
    · rename_i heq
      obtain rfl := not_not.mp heq
      obtain ⟨rfl, -, hview⟩ := PreviewAnswer.page.inj h
      exact ⟨row, type, rfl, htype, hlocale, rfl, (Option.some.inj hview).symm⟩
  · cases h

theorem previewPage_redirect {found : Option ContentRow} {location : String}
    (h : previewPage site db pathname token found = .redirect location) :
    ∃ row, found = some row ∧ location = previewPath row.locale token := by
  unfold previewPage at h
  split at h
  · rename_i row _ _ _ _
    split at h
    · exact ⟨row, rfl, (PreviewAnswer.redirect.inj h).symm⟩
    · cases h
  · cases h

theorem previewPage_some {type : AnyContentType} {locale : String}
    (htype : typeOf site row = some type) (hlocale : site.localeOf pathname = some locale) :
    previewPage site db pathname token (some row) =
      if row.locale ≠ locale then .redirect (previewPath row.locale token)
      else
        .page PREVIEW_HEADERS (previewContext site pathname)
          (some (documentView site row type [row.slug] (loadMedia site db row locale).value)) := by
  simp only [previewPage, Option.bind_some, htype, hlocale]

theorem previewPage_none :
    previewPage site db pathname token none =
      .page PREVIEW_HEADERS (previewContext site pathname) none := rfl

/-- A token that is not accepted shows nothing. -/
theorem renderPreview_refused (h : claimed texts web now token = .ok none) :
    renderPreview texts web site now db pathname token =
      .ok (.page PREVIEW_HEADERS (previewContext site pathname) none) := by
  rw [renderPreview, h]
  rfl

/-- A token that is accepted shows its document as it is now. -/
theorem renderPreview_accepted {expiresAt : Nat} {locale : String}
    (h : claimed texts web now token = .ok (some (claimsOf texts id expiresAt)))
    (hlocale : site.localeOf pathname = some locale) :
    renderPreview texts web site now db pathname token =
      .ok (previewPage site db pathname token (db.content id)) := by
  have hload : loadForPreview texts db (claimsOf texts id expiresAt).contentId =
      .ok (db.content id) := by
    rw [loadForPreview]
    exact congrArg (fun read : Option Uuid => (match read with
      | none => .error "invalid input syntax for type uuid"
      | some id => .ok (db.content id) : Except String (Option ContentRow)))
      (texts.readId_idText id)
  rw [renderPreview, h, hlocale]
  show (loadForPreview texts db (claimsOf texts id expiresAt).contentId >>= _) = _
  rw [hload]
  rfl

/-- A token shows nothing outside the languages of the site, where no document is looked up. -/
theorem renderPreview_nowhere {claims : Option (PreviewClaims N)}
    (h : claimed texts web now token = .ok claims) (hlocale : site.localeOf pathname = none) :
    renderPreview texts web site now db pathname token =
      .ok (.page PREVIEW_HEADERS (previewContext site pathname) none) := by
  rw [renderPreview, h, hlocale]
  cases claims <;> rfl

end Answers

/-! ## Links over runs -/

/-- A link that was handed out: who asked for which document, when, and what the database
was. -/
structure Issue where
  actor : Actor
  type : String
  id : Uuid
  issuedAt : Nat
  db : Database
  response : PreviewResponse

/-- A URL that was opened. -/
structure Opening where
  url : SiteUrl
  now : Nat
  db : Database
  answer : Except String PreviewAnswer

structure World where
  db : Database
  now : Nat
  issued : List Issue
  opened : List Opening

/-- A URL whose last segment is a token. -/
def Carries (url token : String) : Prop := ∃ before, url = before ++ "/" ++ token

theorem Carries.eq {url token other : String} (h : Carries url token) (h' : Carries url other)
    (htoken : '/' ∉ token.toList) (hother : '/' ∉ other.toList) : token = other := by
  obtain ⟨before, rfl⟩ := h
  obtain ⟨before', heq⟩ := h'
  have hlist := congrArg String.toList heq
  simp only [String.toList_append, List.append_assoc] at hlist
  exact String.toList_inj.mp (Words.split_unique_last htoken hother hlist).2

section Worlds
variable {N : Type} [LinearOrder N] (texts : Texts N) (installation : Installation) (env : ApiEnv)
  (web : Option PreviewSecret) (site : Site)

/-- Nobody forges a signature: where that of a token is right, the token was handed out. -/
def Held (issued : List Issue) (pathname : String) : Prop :=
  ∀ token, tokenAt pathname = some token → ∀ secret, web = some secret → ∀ payload, dot ∉ payload →
    textUnits token = payload ++ dot :: sign texts.node payload secret.text →
    ∃ i ∈ issued, Carries i.response.url token

inductive Step : World → World → Prop
  | write (w : World) (db : Database) : Step w { w with db := db }
  | tick (w : World) (later : Nat) (h : w.now ≤ later) : Step w { w with now := later }
  | issue (w : World) (actor : Actor) (type : String) (id : Uuid) (response : PreviewResponse)
      (h : (ContentRead.preview type (some id)).answer installation (env.settings texts) actor w.now
        w.db = .ok (.preview response)) :
      Step w { w with issued := ⟨actor, type, id, w.now, w.db, response⟩ :: w.issued }
  | «open» (w : World) (url : SiteUrl) (answer : Except String PreviewAnswer)
      (h : visitPreview texts web site w.now w.db url = some answer)
      (hheld : Held texts web w.issued url.pathname) :
      Step w { w with opened := ⟨url, w.now, w.db, answer⟩ :: w.opened }

def Reachable (w : World) : Prop :=
  ∃ db now, Relation.ReflTransGen (Step texts installation env web site) ⟨db, now, [], []⟩ w

/-- What a link was handed out for. -/
structure Issue.Granted (i : Issue) : Prop where
  /-- The actor could read the document. -/
  judged : ∃ type row, resolveType installation i.type = .ok type ∧
    i.db.documentOf type i.id = some row ∧ mayRead i.actor type row = true
  expires : i.response.expiresAt = i.issuedAt + env.ttlSeconds * 1000
  /-- The address is one in the language of the document. -/
  address : ∃ row chars origin secret, i.db.content i.id = some row ∧ env.secret = some secret ∧
    env.siteOrigin = some origin ∧ TokenChars chars ∧
    issueToken texts secret i.id i.response.expiresAt = .ok (String.ofList chars) ∧
    i.response.url = origin ++ previewPath row.locale (String.ofList chars)

/-- Whoever has this token has it from somebody who could read the document, at most so long
ago. -/
def Entitled (issued : List Issue) (token : String) (id : Uuid) (now : Nat) : Prop :=
  ∃ i ∈ issued, i.id = id ∧ Carries i.response.url token ∧ i.issuedAt ≤ now ∧
    now < i.issuedAt + env.ttlSeconds * 1000 ∧ i.Granted texts installation env

/-- An opening shows the document of a token that its reader was entitled to open, at that
moment. -/
structure Opening.Fair (issued : List Issue) (o : Opening) : Prop where
  answered : ∃ answer, o.answer = .ok answer
  shown : ∀ headers context view, o.answer = .ok (.page headers context (some view)) →
    ∃ token row type, tokenAt o.url.pathname = some token ∧
      Entitled texts installation env issued token row.id o.now ∧
      o.db.content row.id = some row ∧ typeOf site row = some type ∧
      site.localeOf o.url.pathname = some row.locale ∧ view = previewView site o.db row type
  redirected : ∀ location, o.answer = .ok (.redirect location) →
    ∃ token row, tokenAt o.url.pathname = some token ∧
      Entitled texts installation env issued token row.id o.now ∧
      o.db.content row.id = some row ∧ location = previewPath row.locale token

end Worlds

section Runs
variable {N : Type} [LinearOrder N] {texts : Texts N} {installation : Installation} {env : ApiEnv}
  {web : Option PreviewSecret} {site : Site} {w w' : World} {i : Issue} {now : Nat} {db : Database}

/-- **A link is handed out** to who may read the document. -/
theorem granted {actor : Actor} {type : String} {id : Uuid} {response : PreviewResponse}
    (h : (ContentRead.preview type (some id)).answer installation (env.settings texts) actor now db =
      .ok (.preview response)) :
    (Issue.mk actor type id now db response).Granted texts installation env := by
  simp only [ContentRead.answer, withDocument] at h
  cases hresolve : resolveType installation type with
  | error e => rw [hresolve] at h; cases h
  | ok found =>
    rw [hresolve] at h
    replace h : (readPreview (env.settings texts) actor now db found id).map ReadAnswer.preview =
      .ok (.preview response) := h
    unfold readPreview Database.judged at h
    split at h
    · cases h
    rename_i havailable
    cases hrow : db.documentOf found id with
    | none => rw [hrow] at h; cases h
    | some row =>
      rw [hrow] at h
      obtain ⟨hcontent, -, -, rfl⟩ := documentOf_some hrow
      dsimp only at h
      split at h
      · cases h
      rename_i hmay
      obtain rfl : _ = response := ReadAnswer.preview.inj (Except.ok.inj h)
      rw [Bool.not_eq_true, Bool.not_eq_false', ApiEnv.settings, Bool.and_eq_true,
        Option.isSome_iff_exists, Option.isSome_iff_exists] at havailable
      obtain ⟨⟨secret, hsecret⟩, origin, horigin⟩ := havailable
      obtain ⟨chars, hchars, hissue, -⟩ := @issueToken_chars _ _ texts secret row.id
        (now + env.ttlSeconds * 1000)
      refine ⟨⟨found, row, hresolve, hrow, by simpa using hmay⟩, rfl,
        row, chars, origin, secret, hcontent, hsecret, horigin, hchars, hissue, ?_⟩
      simp only [ApiEnv.settings, hsecret, horigin]
      rw [hissue]

/-- The token that the address of a link carries is the one that was issued with it. -/
theorem Issue.Granted.token (h : i.Granted texts installation env) {token : String}
    (hcarries : Carries i.response.url token) (hslash : '/' ∉ token.toList) :
    ∃ secret, issueToken texts secret i.id i.response.expiresAt = .ok token := by
  obtain ⟨row, chars, origin, secret, -, -, -, hchars, hissue, hurl⟩ := h.address
  have hown : Carries i.response.url (.ofList chars) :=
    ⟨origin ++ "/" ++ row.locale ++ "/preview", by
      rw [hurl]
      exact String.toList_inj.mp (by simp [previewPath])⟩
  obtain rfl := hcarries.eq hown hslash (by rw [String.toList_ofList]; exact hchars.slash)
  exact ⟨secret, hissue⟩

theorem claimed_total (texts : Texts N) (web : Option PreviewSecret) (now : Nat) (token : String) :
    ∃ claims, claimed texts web now token = .ok claims := by
  cases web with
  | none => exact ⟨none, rfl⟩
  | some secret =>
    rcases verify_token texts.numbers texts.node (textUnits token) secret.text with
      ⟨_, _, -, -, -, hverify⟩ | hnone
    · exact ⟨_, hverify _⟩
    · exact ⟨none, hnone _⟩

/-- **Whatever URL is opened**, an opening that is answered is fair. -/
theorem fair_open {issued : List Issue} {u : SiteUrl} {answer : Except String PreviewAnswer}
    (hissued : ∀ i ∈ issued, i.Granted texts installation env ∧ i.issuedAt ≤ now)
    (h : visitPreview texts web site now db u = some answer)
    (hheld : Held texts web issued u.pathname) :
    (Opening.mk u now db answer).Fair texts installation env site issued := by
  obtain ⟨token, htoken, rfl⟩ := Option.map_eq_some_iff.mp h
  obtain ⟨claims, hclaims⟩ := claimed_total texts web now token
  have hmissing : renderPreview texts web site now db u.pathname token =
      .ok (.page PREVIEW_HEADERS (previewContext site u.pathname) none) →
      (Opening.mk u now db (renderPreview texts web site now db u.pathname token)).Fair texts
        installation env site issued := by
    intro hrender
    rw [hrender]
    exact ⟨⟨_, rfl⟩, fun _ _ _ heq => (by cases heq), fun _ heq => (by cases heq)⟩
  cases claims with
  | none => exact hmissing (renderPreview_refused hclaims)
  | some claims =>
    obtain ⟨secret, hweb, payload, hdot, hunits, hown⟩ := claimed_some hclaims
    obtain ⟨i, hi, hcarries⟩ := hheld token htoken secret hweb payload hdot hunits
    obtain ⟨hgranted, hpast⟩ := hissued i hi
    obtain ⟨own, hissue⟩ := hgranted.token hcarries (tokenAt_slash htoken)
    obtain ⟨rfl, hlive⟩ := hown own i.id i.response.expiresAt hissue
    have hentitled : Entitled texts installation env issued token i.id now :=
      ⟨i, hi, rfl, hcarries, hpast, hgranted.expires ▸ hlive, hgranted⟩
    cases hlocale : site.localeOf u.pathname with
    | none => exact hmissing (renderPreview_nowhere hclaims hlocale)
    | some locale =>
      have hrender := @renderPreview_accepted _ _ _ _ _ _ db _ _ _ _ _ hclaims hlocale
      rw [hrender]
      refine ⟨⟨_, rfl⟩, fun headers context view heq => ?_, fun location heq => ?_⟩
      · obtain ⟨row, type, hrow, htype, hsame, -, hview⟩ := previewPage_shown (Except.ok.inj heq)
        have hid : row.id = i.id := Database.id_of_content hrow
        exact ⟨token, row, type, htoken, hid ▸ hentitled, hid ▸ hrow, htype, hsame, hview⟩
      · obtain ⟨row, hrow, hlocation⟩ := previewPage_redirect (Except.ok.inj heq)
        have hid : row.id = i.id := Database.id_of_content hrow
        exact ⟨token, row, htoken, hid ▸ hentitled, hid ▸ hrow, hlocation⟩

theorem Opening.Fair.mono {o : Opening} {issued more : List Issue}
    (h : o.Fair texts installation env site issued) (hmore : ∀ i ∈ issued, i ∈ more) :
    o.Fair texts installation env site more := by
  have hgrow : ∀ {token id now}, Entitled texts installation env issued token id now →
      Entitled texts installation env more token id now := by
    rintro token id now ⟨i, hi, hrest⟩
    exact ⟨i, hmore i hi, hrest⟩
  refine ⟨h.answered, fun headers context view heq => ?_, fun location heq => ?_⟩
  · obtain ⟨token, row, type, htoken, hentitled, hrest⟩ := h.shown headers context view heq
    exact ⟨token, row, type, htoken, hgrow hentitled, hrest⟩
  · obtain ⟨token, row, htoken, hentitled, hrest⟩ := h.redirected location heq
    exact ⟨token, row, htoken, hgrow hentitled, hrest⟩

variable (texts installation env site) in
/-- What every step of the world keeps. -/
structure Inv (w : World) : Prop where
  issued : ∀ i ∈ w.issued, i.Granted texts installation env ∧ i.issuedAt ≤ w.now
  opened : ∀ o ∈ w.opened, o.Fair texts installation env site w.issued

theorem Inv.step (h : Inv texts installation env site w)
    (hstep : Step texts installation env web site w w') : Inv texts installation env site w' := by
  cases hstep with
  | write db => exact ⟨h.issued, h.opened⟩
  | tick later hle =>
    exact ⟨fun i hi => ⟨(h.issued i hi).1, (h.issued i hi).2.trans hle⟩, h.opened⟩
  | issue actor type id response hanswer =>
    refine ⟨fun i hi => ?_, fun o ho => (h.opened o ho).mono fun i hi => List.mem_cons_of_mem _ hi⟩
    rcases List.mem_cons.mp hi with rfl | hi
    · exact ⟨granted hanswer, le_rfl⟩
    · exact h.issued i hi
  | «open» url answer hvisit hheld =>
    refine ⟨h.issued, fun o ho => ?_⟩
    rcases List.mem_cons.mp ho with rfl | ho
    · exact fair_open h.issued hvisit hheld
    · exact h.opened o ho

theorem inv_of_reachable (h : Reachable texts installation env web site w) :
    Inv texts installation env site w := by
  obtain ⟨db, now, hrun⟩ := h
  induction hrun with
  | refl => exact ⟨fun _ hi => absurd hi List.not_mem_nil, fun _ ho => absurd ho List.not_mem_nil⟩
  | tail _ hstep ih => exact ih.step hstep

/-! ## What becomes of a link -/

/-- A language that the site is in. -/
def Served (site : Site) (locale : String) : Prop := locale ∈ LOCALES ∧ locale ∈ site.locales

theorem visit_previewPath {locale : String} (hserved : Served site locale) {chars : List Char}
    (h : TokenChars chars) :
    (SiteUrl.ofHref (previewPath locale (.ofList chars))).bind
        (visitPreview texts web site now db) =
      some (renderPreview texts web site now db (previewPath locale (.ofList chars))
        (.ofList chars)) := by
  obtain ⟨hroot, hbare, hhref⟩ := ofHref_previewPath hserved.1 h
  rw [hhref, Option.bind_some, visitPreview]
  exact congrArg (Option.map _) (tokenAt_previewPath hserved.1 h.segment)

section Following
variable {secret : PreviewSecret} {id : Uuid} {expiresAt : Nat} {chars : List Char} {locale : String}

/-- A live token shows its document, where that is in the language of the path. -/
theorem follow_shown (h : TokenChars chars)
    (hissue : issueToken texts secret id expiresAt = .ok (.ofList chars)) (hlive : now < expiresAt)
    {row : ContentRow} {type : AnyContentType} (hrow : db.content id = some row)
    (htype : typeOf site row = some type) (hserved : Served site row.locale) (hops : Nat) :
    ∃ context, followPreview texts (some secret) site now db (hops + 1)
        (previewPath row.locale (.ofList chars)) =
      some (.ok (.page PREVIEW_HEADERS context (some (previewView site db row type)))) ∧
      context.locale = row.locale := by
  have hclaims := claimed_issued hissue now
  rw [if_pos hlive] at hclaims
  have hlocale := localeOf_previewPath hserved.1 hserved.2 h.segment
  have hpage : previewPage site db (previewPath row.locale (.ofList chars)) (.ofList chars)
      (some row) = .page PREVIEW_HEADERS
        (previewContext site (previewPath row.locale (.ofList chars)))
        (some (previewView site db row type)) := by
    rw [previewPage_some htype hlocale]
    exact if_neg (not_not.mpr rfl)
  refine ⟨previewContext site (previewPath row.locale (.ofList chars)), ?_, ?_⟩
  · rw [followPreview, visit_previewPath hserved h, renderPreview_accepted hclaims hlocale, hrow,
      hpage]
  · rw [previewContext, hlocale]
    rfl

theorem follow_gone (h : TokenChars chars) (hserved : Served site locale)
    (hissue : issueToken texts secret id expiresAt = .ok (.ofList chars))
    (hgone : expiresAt ≤ now ∨ db.content id = none) (hops : Nat) :
    ∃ context, followPreview texts (some secret) site now db (hops + 1)
        (previewPath locale (.ofList chars)) =
      some (.ok (.page PREVIEW_HEADERS context none)) := by
  have hclaims := claimed_issued hissue now
  have hlocale := localeOf_previewPath hserved.1 hserved.2 h.segment
  refine ⟨previewContext site (previewPath locale (.ofList chars)), ?_⟩
  rw [followPreview, visit_previewPath hserved h]
  by_cases hlive : now < expiresAt
  · rw [if_pos hlive] at hclaims
    rw [renderPreview_accepted hclaims hlocale,
      hgone.resolve_left (Nat.not_le.mpr hlive), previewPage_none]
  · rw [if_neg hlive] at hclaims
    rw [renderPreview_refused hclaims]

/-- A live token leads from a path in another language to that of its document. -/
theorem follow_moved (h : TokenChars chars) (hserved : Served site locale)
    (hissue : issueToken texts secret id expiresAt = .ok (.ofList chars)) (hlive : now < expiresAt)
    {row : ContentRow} {type : AnyContentType} (hrow : db.content id = some row)
    (htype : typeOf site row = some type) (hne : row.locale ≠ locale) (hops : Nat) :
    followPreview texts (some secret) site now db (hops + 1) (previewPath locale (.ofList chars)) =
      followPreview texts (some secret) site now db hops
        (previewPath row.locale (.ofList chars)) := by
  have hclaims := claimed_issued hissue now
  rw [if_pos hlive] at hclaims
  have hlocale := localeOf_previewPath hserved.1 hserved.2 h.segment
  have hpage : previewPage site db (previewPath locale (.ofList chars)) (.ofList chars)
      (some row) = .redirect (previewPath row.locale (.ofList chars)) := by
    rw [previewPage_some htype hlocale]
    exact if_pos hne
  rw [followPreview, visit_previewPath hserved h, renderPreview_accepted hclaims hlocale, hrow,
    hpage]

end Following

variable (texts env web site) in
/-- What a link leads to, where the site has the secret it was made with and is in the languages
the document is in: to the document as it stands, over one redirect at most, and to nothing
once the link has expired or the document is gone. -/
structure LinkOpens (i : Issue) (now : Nat) (db : Database) (found : ContentRow) (path : String) :
    Prop where
  address : i.db.content i.id = some found ∧
    ∃ origin, env.siteOrigin = some origin ∧ i.response.url = origin ++ path
  live : now < i.response.expiresAt → ∀ row type, db.content i.id = some row →
    typeOf site row = some type → Served site found.locale → Served site row.locale →
    ∃ context, followPreview texts web site now db 2 path =
      some (.ok (.page PREVIEW_HEADERS context (some (previewView site db row type)))) ∧
      context.locale = row.locale
  gone : i.response.expiresAt ≤ now ∨ db.content i.id = none → Served site found.locale →
    ∃ context, followPreview texts web site now db 2 path =
      some (.ok (.page PREVIEW_HEADERS context none))

theorem Issue.Granted.opens (h : i.Granted texts installation env) (hshared : web = env.secret)
    (now : Nat) (db : Database) : ∃ found path, LinkOpens texts env web site i now db found path := by
  obtain ⟨found, chars, origin, secret, hfound, hsecret, horigin, hchars, hissue, hurl⟩ := h.address
  obtain rfl : web = some secret := hshared.trans hsecret
  refine ⟨found, _, ⟨hfound, origin, horigin, hurl⟩, ?_, fun hgone hserved =>
    follow_gone hchars hserved hissue hgone 1⟩
  intro hlive row type hrow htype hserved hserved'
  by_cases hsame : row.locale = found.locale
  · rw [← hsame]
    exact follow_shown hchars hissue hlive hrow htype hserved' 1
  · rw [follow_moved hchars hserved hissue hlive hrow htype hsame 1]
    exact follow_shown hchars hissue hlive hrow htype hserved' 0

/-- **Preview links**, over every run: what is opened was handed out for that document to
somebody who could read it, and has not expired; and what was handed out opens. -/
theorem preview_links (h : Reachable texts installation env web site w) :
    (∀ o ∈ w.opened, o.Fair texts installation env site w.issued) ∧
    (web = env.secret → ∀ i ∈ w.issued, ∀ now db,
      ∃ found path, LinkOpens texts env web site i now db found path) := by
  have hinv := inv_of_reachable h
  exact ⟨hinv.opened, fun hshared i hi now db => (hinv.issued i hi).1.opens hshared now db⟩

/-- A link that was handed out can be opened. -/
theorem reachable_opened {actor : Actor} {type : String} {id : Uuid} {response : PreviewResponse}
    (h : (ContentRead.preview type (some id)).answer installation (env.settings texts) actor now db =
      .ok (.preview response))
    (hserved : ∀ row, db.content id = some row → Served site row.locale) {later : Nat}
    (hlater : now ≤ later) : ∃ w, Reachable texts installation env web site w ∧
      w.issued.length = 1 ∧ w.opened.length = 1 := by
  obtain ⟨row, chars, origin, secret, hrow, -, -, hchars, -, hurl⟩ := (granted h).address
  have hlocale := hserved row hrow
  obtain ⟨url, hhref, hanswer⟩ := Option.bind_eq_some_iff.mp
    (@visit_previewPath _ _ texts web site later db _ hlocale _ hchars)
  obtain ⟨hroot, hbare, hhref'⟩ := ofHref_previewPath hlocale.1 hchars
  obtain rfl := Option.some.inj (hhref.symm.trans hhref')
  have hheld : Held texts web [⟨actor, type, id, now, db, response⟩]
      (previewPath row.locale (.ofList chars)) := by
    intro token htoken _ _ _ _ _
    obtain rfl := Option.some.inj
      (htoken.symm.trans (tokenAt_previewPath hlocale.1 hchars.segment))
    refine ⟨_, List.mem_singleton_self _, origin ++ "/" ++ row.locale ++ "/preview", ?_⟩
    show response.url = _
    rw [show response.url = origin ++ previewPath row.locale (.ofList chars) from hurl]
    exact String.toList_inj.mp (by simp [previewPath])
  have hissue : Step texts installation env web site ⟨db, now, [], []⟩
      ⟨db, now, [⟨actor, type, id, now, db, response⟩], []⟩ := .issue _ actor type id response h
  have htick : Step texts installation env web site
      ⟨db, now, [⟨actor, type, id, now, db, response⟩], []⟩
      ⟨db, later, [⟨actor, type, id, now, db, response⟩], []⟩ := .tick _ later hlater
  have hopen := @Step.open _ _ texts installation env web site
    ⟨db, later, [⟨actor, type, id, now, db, response⟩], []⟩ _ _ hanswer hheld
  exact ⟨_, ⟨db, now, ((Relation.ReflTransGen.single hissue).tail htick).tail hopen⟩, rfl, rfl⟩

end Runs

/-! ### A draft that is shown to a client -/

/-- Numbers, instants and ids written in decimals. -/
def decimalTexts : Texts Int where
  node := oneMessage digest
  numbers := wholeNumbers
  instant := Int.ofNat
  instant_lt _ _ := Int.ofNat_lt
  finite _ := rfl
  idText id := ascii (Calendar.digits id)
  readId text := some (Nat.ofDigitChars 10 (scalars text) 0)
  readId_idText id := by
    have hascii : ∀ c ∈ Calendar.digits id, c.toNat < 0x80 := fun c hc => by
      have hdigit := Calendar.isDigit_of_mem_digits hc
      simp only [Char.isDigit, Bool.and_eq_true, decide_eq_true_eq] at hdigit
      exact Nat.lt_of_le_of_lt (UInt32.le_iff_toNat_le.mp hdigit.2) (by decide)
    rw [scalars_ascii hascii, Calendar.digits, Nat.ofDigitChars_ten_toDigits]

def sharedSecret : PreviewSecret := ⟨List.replicate 32 0x61, by decide⟩

def localApi : ApiEnv := ⟨some sharedSecret, some "http://localhost:4321", 600⟩

theorem draft_answered (ttlSeconds : Nat) (url : String → Uuid → Nat → String) :
    (ContentRead.preview "page" (some 1)).answer builtinSite ⟨true, ttlSeconds, url⟩ editor 0
        (draftDatabase "Growth") =
      .ok (.preview ⟨url "en" 1 (0 + ttlSeconds * 1000), 0 + ttlSeconds * 1000⟩) := rfl

/-- An editor asks for a link to the draft, and somebody opens it a minute later. -/
theorem preview_links_draft : ∃ w : World,
    Reachable decimalTexts builtinSite localApi (some sharedSecret) plainSite w ∧
    w.issued.length = 1 ∧ w.opened.length = 1 ∧
    (∀ o ∈ w.opened, o.Fair decimalTexts builtinSite localApi plainSite w.issued) ∧
    ((some sharedSecret : Option PreviewSecret) = localApi.secret → ∀ i ∈ w.issued, ∀ now db,
      ∃ found path, LinkOpens decimalTexts localApi (some sharedSecret) plainSite i now db found
        path) := by
  have hserved : ∀ row, (draftDatabase "Growth").content 1 = some row →
      Served plainSite row.locale := by
    intro row hrow
    rw [← Option.some.inj hrow]
    exact ⟨by decide, by decide⟩
  obtain ⟨w, hreach, hissued, hopened⟩ := @reachable_opened _ _ decimalTexts builtinSite localApi
    (some sharedSecret) plainSite _ _ _ _ _ _ (draft_answered 600 _) hserved 60000 (Nat.zero_le _)
  exact ⟨w, hreach, hissued, hopened, preview_links hreach⟩

end PressLabz.PreviewLinks
