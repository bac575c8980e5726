import PressLabz.MediaStorage

/-! # An upload

`handleUpload` of `apps/api/src/media/routes.ts`, from the two writes to the bucket on,
and `abandonObjects` of `orphans.ts`.  The writes run at once and settle in any order;
the first that fails abandons the upload, while the other may still be on its way.
The list of the keys that were written is shared: the record is taken of it as it is
at that moment, the deletion and the loop after it see what was added since.

`media:uploaded` is emitted after the row is committed, and `emit` never rejects, so
nothing after the commit abandons the upload.
-/
namespace PressLabz

/-! ## Renditions -/

inductive RenditionName where
  | avif
  | webp
  deriving DecidableEq

structure RenditionSpec where
  extension : String
  contentType : String

def RENDITIONS : RenditionName → RenditionSpec
  | .avif => ⟨"avif", "image/avif"⟩
  | .webp => ⟨"webp", "image/webp"⟩

/-- `Object.keys(RENDITIONS)`. -/
def renditionNames : List RenditionName := [.avif, .webp]

def RenditionName.text : RenditionName → String
  | .avif => "avif"
  | .webp => "webp"

/-- The text of a uuid, in groups of hexadecimal digits. -/
def uuidString (id : Uuid) : String :=
  let digits := (List.range 32).map fun i => Nat.digitChar ((id >>> (4 * (31 - i))) % 16)
  "-".intercalate ([(0, 8), (8, 4), (12, 4), (16, 4), (20, 12)].map fun group =>
    String.ofList ((digits.drop group.1).take group.2))

def objectKey (id : Uuid) (name : RenditionName) : String :=
  "media/" ++ uuidString id ++ "." ++ (RENDITIONS name).extension

theorem objectKey_inj {id : Uuid} {a b : RenditionName} (h : objectKey id a = objectKey id b) :
    a = b := by
  rw [objectKey, objectKey, String.append_right_inj] at h
  cases a with
  | avif =>
    cases b with
    | avif => rfl
    | webp => exact absurd h (by decide)
  | webp =>
    cases b with
    | avif => exact absurd h (by decide)
    | webp => rfl

/-! ## The state of an upload -/

/-- What an upload has by the time it writes. -/
structure UploadInput where
  id : Uuid
  width : Nat
  height : Nat
  byteSize : RenditionName → Nat
  filename : Option String
  uploadedById : Option Uuid

/-- What the handler waits for. -/
inductive UploadPhase where
  /-- `Promise.all` of the writes. -/
  | writing
  /-- `createMedia`. -/
  | inserting
  /-- `recordOrphans`, of the keys it was given. -/
  | recording (snapshot : List String)
  /-- `deleteObjects`, of the keys in the request. -/
  | removing (sent : List String)
  /-- `forgetOrphan`, of the key at this place in the list. -/
  | forgetting (next : Nat)
  | done
  deriving DecidableEq

structure Upload where
  input : UploadInput
  phase : UploadPhase
  /-- The writes that have not settled. -/
  pending : List RenditionName
  /-- `written`, and the order of `renditions`. -/
  written : List RenditionName

inductive UploadEvent where
  /-- A write stores its object and fulfils. -/
  | stored (name : RenditionName)
  /-- A write stores nothing and rejects. -/
  | refused (name : RenditionName)
  | committed (rowId : Uuid) (now : Nat)
  | insertRefused
  | recorded (now : Nat)
  | recordRefused
  | answered (answer : DeleteAnswer)
  | forgot
  | forgetRefused

namespace Upload

def start (input : UploadInput) : Upload := ⟨input, .writing, renditionNames, []⟩

variable (u : Upload) (s : MediaStore)

/-- The keys written so far. -/
def keys : List String := u.written.map (objectKey u.input.id)

def renditions : List (String × Rendition) :=
  u.written.map fun name =>
    (name.text, ⟨objectKey u.input.id name, (RENDITIONS name).contentType, u.input.byteSize name⟩)

/-- The row that is inserted, with the primary rendition's key. -/
def row (rowId : Uuid) (now : Nat) : MediaRecord where
  id := rowId
  storageKey := objectKey u.input.id .avif
  mimeType := (RENDITIONS .avif).contentType
  width := some u.input.width
  height := some u.input.height
  alt := []
  uploadedById := u.input.uploadedById
  byteSize := u.input.byteSize .avif
  «meta» := ⟨some u.renditions, u.input.filename⟩
  createdAt := now

def goTo (phase : UploadPhase) : Upload := { u with phase := phase }

/-- `abandonObjects`: nothing is done for an upload that has written nothing yet. -/
def abandon : Upload :=
  if u.keys = [] then u.goTo .done else u.goTo (.recording u.keys)

/-- A write fulfils; the last one to, if none was refused, ends the wait for them. -/
def afterStored (name : RenditionName) : Upload where
  input := u.input
  phase := if u.phase = .writing ∧ u.pending.erase name = [] then .inserting else u.phase
  pending := u.pending.erase name
  written := u.written ++ [name]

/-- A write rejects; the first one to abandons the upload. -/
def afterRefused (name : RenditionName) : Upload :=
  let left := { u with pending := u.pending.erase name }
  if u.phase = .writing then left.abandon else left

def afterAnswer : DeleteAnswer → Upload
  | .results _ => u.goTo (.forgetting 0)
  | .failed _ => u.goTo .done

/-- The loop reads the length of the list anew each time. -/
def afterForgot (next : Nat) : Upload :=
  if next + 1 < u.keys.length then u.goTo (.forgetting (next + 1)) else u.goTo .done

def step : UploadEvent → Option (Upload × MediaStore)
  | .stored name =>
    if name ∈ u.pending then some (u.afterStored name, s.putObject (objectKey u.input.id name))
    else none
  | .refused name => if name ∈ u.pending then some (u.afterRefused name, s) else none
  | .committed rowId now =>
    match u.phase with
    | .inserting => some (u.goTo .done, s.createMedia (u.row rowId now))
    | _ => none
  | .insertRefused =>
    match u.phase with
    | .inserting => some (u.abandon, s)
    | _ => none
  | .recorded now =>
    match u.phase with
    | .recording snapshot =>
      some (u.goTo (.removing u.keys), s.recordOrphans now u.input.id snapshot)
    | _ => none
  | .recordRefused =>
    match u.phase with
    | .recording _ => some (u.goTo (.removing u.keys), s)
    | _ => none
  | .answered answer =>
    match u.phase with
    | .removing sent => some (u.afterAnswer answer, s.deleteObjects sent answer)
    | _ => none
  | .forgot =>
    match u.phase with
    | .forgetting next =>
      (u.keys[next]?).map fun key => (u.afterForgot next, s.forgetOrphan key)
    | _ => none
  | .forgetRefused =>
    match u.phase with
    | .forgetting _ => some (u.goTo .done, s)
    | _ => none

/-- A run of the upload alone. -/
def run (u : Upload) (s : MediaStore) : List UploadEvent → Option (Upload × MediaStore)
  | [] => some (u, s)
  | e :: es => (u.step s e).bind fun next => run next.1 next.2 es

/-- The request has been answered, and every write has settled. -/
def Settled : Prop := u.phase = .done ∧ u.pending = []

/-! ## What a step can do -/

/-- What a step makes of the upload and the store, one case for each event. -/
inductive Stepped : UploadEvent → Upload → MediaStore → Prop
  | stored (name : RenditionName) : name ∈ u.pending →
    Stepped (.stored name) (u.afterStored name) (s.putObject (objectKey u.input.id name))
  | refused (name : RenditionName) : name ∈ u.pending →
    Stepped (.refused name) (u.afterRefused name) s
  | committed (rowId : Uuid) (now : Nat) : u.phase = .inserting →
    Stepped (.committed rowId now) (u.goTo .done) (s.createMedia (u.row rowId now))
  | insertRefused : u.phase = .inserting → Stepped .insertRefused u.abandon s
  | recorded (now : Nat) (snapshot : List String) : u.phase = .recording snapshot →
    Stepped (.recorded now) (u.goTo (.removing u.keys))
      (s.recordOrphans now u.input.id snapshot)
  | recordRefused (snapshot : List String) : u.phase = .recording snapshot →
    Stepped .recordRefused (u.goTo (.removing u.keys)) s
  | answered (answer : DeleteAnswer) (sent : List String) : u.phase = .removing sent →
    Stepped (.answered answer) (u.afterAnswer answer) (s.deleteObjects sent answer)
  | forgot (next : Nat) (key : String) : u.phase = .forgetting next → u.keys[next]? = some key →
    Stepped .forgot (u.afterForgot next) (s.forgetOrphan key)
  | forgetRefused (next : Nat) : u.phase = .forgetting next →
    Stepped .forgetRefused (u.goTo .done) s

variable {u s} {u' : Upload} {s' : MediaStore} {e : UploadEvent}

theorem step_stepped (h : u.step s e = some (u', s')) : Stepped u s e u' s' := by
  cases e with
  | stored name =>
    simp only [step] at h
    split at h
    · rename_i hname
      cases h
      exact .stored name hname
    · cases h
  | refused name =>
    simp only [step] at h
    split at h
    · rename_i hname
      cases h
      exact .refused name hname
    · cases h
  | committed rowId now =>
    simp only [step] at h
    split at h
    · rename_i hphase
      cases h
      exact .committed rowId now hphase
    · cases h
  | insertRefused =>
    simp only [step] at h
    split at h
    · rename_i hphase
      cases h
      exact .insertRefused hphase
    · cases h
  | recorded now =>
    simp only [step] at h
    split at h
    · rename_i snapshot hphase
      cases h
      exact .recorded now snapshot hphase
    · cases h
  | recordRefused =>
    simp only [step] at h
    split at h
    · rename_i snapshot hphase
      cases h
      exact .recordRefused snapshot hphase
    · cases h
  | answered answer =>
    simp only [step] at h
    split at h
    · rename_i sent hphase
      cases h
      exact .answered answer sent hphase
    · cases h
  | forgot =>
    simp only [step] at h
    split at h
    · rename_i next hphase
      obtain ⟨key, hkey, heq⟩ := Option.map_eq_some_iff.mp h
      cases heq
      exact .forgot next key hphase hkey
    · cases h
  | forgetRefused =>
    simp only [step] at h
    split at h
    · rename_i next hphase
      cases h
      exact .forgetRefused next hphase
    · cases h

@[simp] theorem goTo_keys {phase : UploadPhase} : (u.goTo phase).keys = u.keys := rfl

theorem afterStored_keys (name : RenditionName) :
    (u.afterStored name).keys = u.keys ++ [objectKey u.input.id name] := by
  simp [keys, afterStored]

/-! ## What an upload knows of its own objects -/

variable (u s)

/-- What is written is in the bucket, and no record lists it. -/
def Held : Prop := ∀ key ∈ u.keys, key ∈ s.objects ∧ ¬ s.Listed key

/-- What an upload that runs alone has come to, by what it waits for. -/
def Stage (s0 : MediaStore) : UploadPhase → Prop
  | .writing => s.rows = s0.rows ∧ u.Held s ∧ ∀ name, name ∈ u.pending ∨ name ∈ u.written
  | .inserting => s.rows = s0.rows ∧ u.Held s ∧ u.pending = [] ∧ ∀ name, name ∈ u.written
  | .recording snapshot => s.rows = s0.rows ∧ u.Held s ∧ ∀ key ∈ snapshot, key ∈ u.keys
  | .removing sent =>
    s.rows = s0.rows ∧ (∀ key ∈ u.keys, key ∈ s.objects) ∧ ∀ key ∈ sent, key ∈ u.keys
  | .forgetting _ => s.rows = s0.rows
  | .done => s.rows = s0.rows ∨ u.Held s ∧ u.pending = [] ∧
      ∃ row, s.rows = row :: s0.rows ∧ ∀ key, key ∈ storageKeysOf row ↔ key ∈ u.keys

/-- The state an upload leaves, against the one that it found. -/
structure Since (s0 : MediaStore) : Prop where
  names : (u.pending ++ u.written).Nodup
  stored : ∀ key ∈ s.objects, key ∈ s0.objects ∨ key ∈ u.keys
  kept : ∀ key ∈ s0.objects, key ∈ s.objects
  listed : ∀ key, key ∉ u.keys → (s.Listed key ↔ s0.Listed key)
  stage : u.Stage s s0 u.phase

end Upload

/-- Nothing is known of the keys of an id. -/
def MediaStore.Fresh (s : MediaStore) (id : Uuid) : Prop :=
  ∀ name, objectKey id name ∉ s.objects ∧ ¬ s.Listed (objectKey id name) ∧
    ¬ s.Named (objectKey id name)

namespace Upload
section Since
variable {u u' : Upload} {s s' s0 : MediaStore} {e : UploadEvent} {key : String}
  {name : RenditionName}

theorem mem_keys : key ∈ u.keys ↔ ∃ name ∈ u.written, objectKey u.input.id name = key :=
  List.mem_map

theorem step_input (h : Stepped u s e u' s') : u'.input = u.input := by
  have habandon : ∀ u : Upload, u.abandon.input = u.input := by
    intro u
    rw [abandon]
    split
    · rfl
    · rfl
  cases h with
  | refused name _ =>
    rw [afterRefused]
    split
    · exact habandon _
    · rfl
  | insertRefused _ => exact habandon u
  | answered answer sent _ =>
    cases answer with
    | results errors => rfl
    | failed error => rfl
  | forgot next key _ _ =>
    rw [afterForgot]
    split
    · rfl
    · rfl
  | stored | committed | recorded | recordRefused | forgetRefused => rfl

/-- A key that has not been written is no key of the upload yet. -/
theorem Since.pending_fresh (h : u.Since s s0) (hname : name ∈ u.pending) :
    objectKey u.input.id name ∉ u.keys := by
  intro hmem
  obtain ⟨other, hother, heq⟩ := mem_keys.mp hmem
  obtain rfl := objectKey_inj heq
  exact (List.nodup_append.mp h.names).2.2 other hname other hother rfl

theorem fresh_keys (hfresh : s0.Fresh u.input.id) (hkey : key ∈ u.keys) :
    key ∉ s0.objects ∧ ¬ s0.Listed key ∧ ¬ s0.Named key := by
  obtain ⟨name, -, rfl⟩ := mem_keys.mp hkey
  exact hfresh name

/-- The object of a write that has settled joins those that are held. -/
theorem Held.stored (hheld : u.Held s) (h : u.Since s s0) (hfresh : s0.Fresh u.input.id)
    (hname : name ∈ u.pending) :
    (u.afterStored name).Held (s.putObject (objectKey u.input.id name)) := by
  intro key hkey
  rw [afterStored_keys] at hkey
  rw [MediaStore.mem_putObject, MediaStore.listed_putObject]
  rcases List.mem_append.mp hkey with hkey | hkey
  · exact ⟨.inr (hheld key hkey).1, (hheld key hkey).2⟩
  · obtain rfl := List.mem_singleton.mp hkey
    refine ⟨.inl rfl, fun hlisted => ?_⟩
    exact (hfresh name).2.1 ((h.listed _ (h.pending_fresh hname)).mp hlisted)

theorem afterStored_names (hnames : (u.pending ++ u.written).Nodup) (hname : name ∈ u.pending) :
    ((u.afterStored name).pending ++ (u.afterStored name).written).Nodup := by
  have hperm : (u.pending.erase name ++ (u.written ++ [name])).Perm (u.pending ++ u.written) := by
    have hfirst := (List.perm_cons_erase hname).symm.append_right u.written
    refine List.Perm.trans ?_ hfirst
    rw [← List.append_assoc]
    exact List.perm_append_singleton name _
  exact hperm.nodup_iff.mpr hnames

theorem start_since (input : UploadInput) : (start input).Since s0 s0 where
  names := by
    show (renditionNames ++ []).Nodup
    decide
  stored _ h := .inl h
  kept _ h := h
  listed _ _ := Iff.rfl
  stage := by
    refine ⟨rfl, fun key hkey => ?_, fun name => .inl ?_⟩
    · cases hkey
    · cases name with
      | avif => exact List.mem_cons_self
      | webp => exact List.mem_cons_of_mem _ List.mem_cons_self

theorem abandon_cases : u.keys = [] ∧ u.abandon = u.goTo .done ∨
    u.abandon = u.goTo (.recording u.keys) := by
  rw [abandon]
  split
  · rename_i hnone
    exact .inl ⟨hnone, rfl⟩
  · exact .inr rfl

theorem abandon_pending : u.abandon.pending = u.pending := by
  rw [abandon]
  split
  · rfl
  · rfl

theorem abandon_written : u.abandon.written = u.written := by
  rw [abandon]
  split
  · rfl
  · rfl

theorem abandon_keys : u.abandon.keys = u.keys := by
  rw [abandon]
  split
  · rfl
  · rfl

/-- An abandoned upload records what it holds. -/
theorem stage_abandon (hrows : s.rows = s0.rows) (hheld : u.Held s) :
    u.abandon.Stage s s0 u.abandon.phase := by
  rw [abandon]
  split
  · exact .inl hrows
  · exact ⟨hrows, hheld, fun _ h => h⟩

/-- Every name is one of the names. -/
theorem mem_renditionNames : name ∈ renditionNames := by
  cases name with
  | avif => exact List.mem_cons_self
  | webp => exact List.mem_cons_of_mem _ List.mem_cons_self

theorem afterStored_phase (h : u.phase ≠ .writing) : (u.afterStored name).phase = u.phase :=
  if_neg fun hwriting => h hwriting.1

/-- The row is next when every name is written. -/
theorem afterStored_last (h : u.phase = .writing) (hlast : u.pending.erase name = []) :
    (u.afterStored name).phase = .inserting := if_pos ⟨h, hlast⟩

theorem afterStored_writing (h : u.phase = .writing) (hmore : u.pending.erase name ≠ []) :
    (u.afterStored name).phase = .writing := (if_neg fun hlast => hmore hlast.2).trans h

/-- An upload inserts after a name that was stored in time, or goes on as it did. -/
theorem afterStored_cases
    (h : u.phase = .writing ∨ ∃ snapshot, u.phase = .recording snapshot) :
    (u.afterStored name).phase = .inserting ∧ u.pending.erase name = [] ∨
      (u.afterStored name).phase = .writing ∨
      ∃ snapshot, u.phase = .recording snapshot ∧
        (u.afterStored name).phase = .recording snapshot := by
  rcases h with hwriting | ⟨snapshot, hrecording⟩
  · by_cases hlast : u.pending.erase name = []
    · exact .inl ⟨afterStored_last hwriting hlast, hlast⟩
    · exact .inr (.inl (afterStored_writing hwriting hlast))
  · have hphase := @afterStored_phase u name (by simp [hrecording])
    exact .inr (.inr ⟨snapshot, hrecording, hphase.trans hrecording⟩)

/-- A name that fails first gives the upload up. -/
theorem afterRefused_writing (h : u.phase = .writing) :
    u.afterRefused name = { u with pending := u.pending.erase name }.abandon := if_pos h

theorem afterRefused_eq (h : u.phase ≠ .writing) :
    u.afterRefused name = { u with pending := u.pending.erase name } := if_neg h

theorem stage_stored (h : u.Since s s0) (hfresh : s0.Fresh u.input.id) (hname : name ∈ u.pending) :
    (u.afterStored name).Stage (s.putObject (objectKey u.input.id name)) s0
      (u.afterStored name).phase := by
  have hstage := h.stage
  have hgrows : ∀ key ∈ u.keys, key ∈ (u.afterStored name).keys := fun key hkey => by
    rw [afterStored_keys]
    exact List.mem_append_left _ hkey
  cases hphase : u.phase with
  | writing =>
    rw [hphase] at hstage
    obtain ⟨hrows, hheld, hall⟩ := hstage
    have hheld' := hheld.stored h hfresh hname
    have hall' : ∀ other, other ∈ u.pending.erase name ∨ other ∈ u.written ++ [name] := by
      intro other
      by_cases hsame : other = name
      · simp [hsame]
      · rcases hall other with hother | hother
        · exact .inl ((List.mem_erase_of_ne hsame).mpr hother)
        · exact .inr (List.mem_append_left _ hother)
    -- the last object leads to the insert
    by_cases hlast : u.pending.erase name = []
    · rw [afterStored_last hphase hlast]
      refine ⟨hrows, hheld', hlast, fun other => (hall' other).resolve_left ?_⟩
      rw [hlast]
      exact List.not_mem_nil
    · rw [afterStored_writing hphase hlast]
      exact ⟨hrows, hheld', hall'⟩
  | inserting =>
    rw [hphase] at hstage
    -- nothing is left to store once the insert is under way
    rw [hstage.2.2.1] at hname
    cases hname
  | recording snapshot =>
    rw [hphase] at hstage
    obtain ⟨hrows, hheld, hsnapshot⟩ := hstage
    have hphase' : (u.afterStored name).phase = .recording snapshot :=
      (afterStored_phase (by simp [hphase])).trans hphase
    rw [hphase']
    exact ⟨hrows, hheld.stored h hfresh hname, fun key hkey => hgrows key (hsnapshot key hkey)⟩
  | removing sent =>
    rw [hphase] at hstage
    obtain ⟨hrows, hobjects, hsent⟩ := hstage
    have hphase' : (u.afterStored name).phase = .removing sent :=
      (afterStored_phase (by simp [hphase])).trans hphase
    rw [hphase']
    refine ⟨hrows, fun key hkey => ?_, fun key hkey => hgrows key (hsent key hkey)⟩
    rw [afterStored_keys] at hkey
    rw [MediaStore.mem_putObject]
    rcases List.mem_append.mp hkey with hkey | hkey
    · exact .inr (hobjects key hkey)
    · exact .inl (List.mem_singleton.mp hkey)
  | forgetting next =>
    rw [hphase] at hstage
    have hphase' : (u.afterStored name).phase = .forgetting next :=
      (afterStored_phase (by simp [hphase])).trans hphase
    rw [hphase']
    exact hstage
  | done =>
    rw [hphase] at hstage
    have hphase' : (u.afterStored name).phase = .done :=
      (afterStored_phase (by simp [hphase])).trans hphase
    rw [hphase']
    rcases hstage with hrows | ⟨-, hnone, -⟩
    · exact .inl hrows
    · rw [hnone] at hname
      cases hname

theorem stage_refused (h : u.Since s s0) (hname : name ∈ u.pending) :
    (u.afterRefused name).Stage s s0 (u.afterRefused name).phase := by
  have hstage := h.stage
  cases hphase : u.phase with
  | writing =>
    rw [hphase] at hstage
    obtain ⟨hrows, hheld, -⟩ := hstage
    rw [afterRefused_writing hphase]
    exact stage_abandon hrows hheld
  | inserting =>
    rw [hphase] at hstage
    rw [hstage.2.2.1] at hname
    cases hname
  | recording _ | removing _ | forgetting _ =>
    have hleft := @afterRefused_eq u name (by simp [hphase])
    rw [hphase] at hstage
    rw [hleft]
    show Stage _ _ _ u.phase
    rw [hphase]
    exact hstage
  | done =>
    have hleft := @afterRefused_eq u name (by simp [hphase])
    rw [hphase] at hstage
    rw [hleft]
    show Stage _ _ _ u.phase
    rw [hphase]
    rcases hstage with hrows | ⟨-, hnone, -⟩
    · exact .inl hrows
    · rw [hnone] at hname
      cases hname

/-- The row names what was written. -/
theorem storageKeysOf_row (hall : ∀ name, name ∈ u.written) {rowId : Uuid} {now : Nat} :
    key ∈ storageKeysOf (u.row rowId now) ↔ key ∈ u.keys := by
  rw [mem_storageKeysOf, mem_keys]
  constructor
  · rintro (rfl | ⟨rendition, hmem, rfl⟩)
    · exact ⟨.avif, hall .avif, rfl⟩
    · obtain ⟨name, hname, rfl⟩ := List.mem_map.mp hmem
      exact ⟨name, hname, rfl⟩
  · rintro ⟨name, hname, rfl⟩
    exact .inr ⟨_, List.mem_map_of_mem hname, rfl⟩

theorem afterRefused_written : (u.afterRefused name).written = u.written := by
  rw [afterRefused]
  split
  · exact abandon_written
  · rfl

theorem afterRefused_pending : (u.afterRefused name).pending = u.pending.erase name := by
  rw [afterRefused]
  split
  · exact abandon_pending
  · rfl

theorem afterRefused_keys : (u.afterRefused name).keys = u.keys := by
  have hinput : (u.afterRefused name).input = u.input := by
    rw [afterRefused]
    split
    · rw [abandon]
      split
      · rfl
      · rfl
    · rfl
  rw [keys, keys, afterRefused_written, hinput]

/-- Going on to another phase changes nothing of the names. -/
theorem Since.goTo (h : u.Since s s0) {phase : UploadPhase} (hstage : u.Stage s s0 phase) :
    (u.goTo phase).Since s s0 := ⟨h.names, h.stored, h.kept, h.listed, hstage⟩

theorem Since.abandon (h : u.Since s s0) (hrows : s.rows = s0.rows) (hheld : u.Held s) :
    u.abandon.Since s s0 where
  names := by
    rw [abandon_pending, abandon_written]
    exact h.names
  stored := by
    rw [abandon_keys]
    exact h.stored
  kept := h.kept
  listed := by
    rw [abandon_keys]
    exact h.listed
  stage := stage_abandon hrows hheld

/-- **A step of an upload** that runs alone keeps what it knows. -/
theorem Since.step (h : u.Since s s0) (hfresh : s0.Fresh u.input.id)
    (hs : Stepped u s e u' s') : u'.Since s' s0 := by
  have hstage := h.stage
  cases hs with
  | stored name hname =>
    refine ⟨afterStored_names h.names hname, fun key hkey => ?_, fun key hkey => ?_,
      fun key hkey => ?_, stage_stored h hfresh hname⟩
    · rw [afterStored_keys, List.mem_append, List.mem_singleton]
      rcases MediaStore.mem_putObject.mp hkey with hnew | hold
      · exact .inr (.inr hnew)
      · exact (h.stored key hold).imp_right .inl
    · exact MediaStore.mem_putObject.mpr (.inr (h.kept key hkey))
    · rw [afterStored_keys, List.mem_append, not_or] at hkey
      exact h.listed key hkey.1
  | refused name hname =>
    have hnames : (u.pending.erase name ++ u.written).Nodup :=
      h.names.sublist ((List.erase_sublist).append_right _)
    refine ⟨?_, ?_, h.kept, ?_, stage_refused h hname⟩
    · rw [afterRefused_pending, afterRefused_written]
      exact hnames
    · rw [afterRefused_keys]
      exact h.stored
    · rw [afterRefused_keys]
      exact h.listed
  | committed rowId now hphase =>
    rw [hphase] at hstage
    obtain ⟨hrows, hheld, hnone, hall⟩ := hstage
    refine ⟨h.names, h.stored, h.kept, h.listed,
      .inr ⟨hheld, hnone, u.row rowId now, ?_, fun key => ?_⟩⟩
    -- the new row is the first one, and names the keys of the upload
    · exact congrArg (u.row rowId now :: ·) hrows
    · exact storageKeysOf_row hall
  | insertRefused hphase =>
    rw [hphase] at hstage
    exact h.abandon hstage.1 hstage.2.1
  | recorded now snapshot hphase =>
    rw [hphase] at hstage
    obtain ⟨hrows, hheld, hsnapshot⟩ := hstage
    refine ⟨h.names, ?_, ?_, fun key hkey => ?_, ?_⟩
    · rw [MediaStore.recordOrphans_objects]
      exact h.stored
    · rw [MediaStore.recordOrphans_objects]
      exact h.kept
    -- what is put on record is of the snapshot, and so of the upload
    · rw [MediaStore.listed_recordOrphans, h.listed key hkey]
      exact or_iff_right fun hsnap => hkey (hsnapshot key hsnap)
    · refine ⟨MediaStore.recordOrphans_rows.trans hrows, fun key hkey => ?_, fun _ h => h⟩
      rw [MediaStore.recordOrphans_objects]
      exact (hheld key hkey).1
  | recordRefused snapshot hphase =>
    rw [hphase] at hstage
    exact h.goTo ⟨hstage.1, fun key hkey => (hstage.2.1 key hkey).1, fun _ h => h⟩
  | answered answer sent hphase =>
    rw [hphase] at hstage
    obtain ⟨hrows, -, hsent⟩ := hstage
    cases answer with
    | results errors =>
      -- only keys of the upload were sent, so that an older object stays
      refine ⟨h.names, fun key hkey => ?_, fun key hkey => ?_, h.listed, hrows⟩
      · exact h.stored key (MediaStore.mem_deleteObjects.mp hkey).1
      · refine MediaStore.mem_deleteObjects.mpr ⟨h.kept key hkey, .inl fun hin => ?_⟩
        exact (fresh_keys hfresh (hsent key hin)).1 hkey
    | failed error => exact h.goTo (.inl hrows)
  | forgot next k hphase hk =>
    rw [hphase] at hstage
    have hmem : k ∈ u.keys := List.mem_of_getElem? hk
    have hlisted : ∀ key, key ∉ u.keys → ((s.forgetOrphan k).Listed key ↔ s0.Listed key) := by
      intro key hkey
      rw [MediaStore.listed_forgetOrphan, h.listed key hkey]
      refine and_iff_left ?_
      rintro rfl
      exact hkey hmem
    rw [afterForgot]
    split
    · exact ⟨h.names, h.stored, h.kept, hlisted, hstage⟩
    · exact ⟨h.names, h.stored, h.kept, hlisted, .inl hstage⟩
  | forgetRefused next hphase =>
    rw [hphase] at hstage
    exact h.goTo (.inl hstage)

end Since

/-! ## Events that leave nothing behind -/

/-- The event leaves no object that nobody knows of: a write stores its object before the
request that deletes is sent, and that request reports no error for a key, or fails with
every object on record. -/
def Harmless (u : Upload) (s : MediaStore) : UploadEvent → Prop
  | .stored _ => u.phase = .writing ∨ ∃ snapshot, u.phase = .recording snapshot
  | .answered (.results errors) => ∀ sent, u.phase = .removing sent → ∀ key ∈ sent, key ∉ errors
  | .answered (.failed _) => ∀ sent, u.phase = .removing sent →
      ∀ key ∈ sent, key ∈ s.objects → s.Listed key
  | _ => True

/-- Every event of the run is harmless where it occurs. -/
def AllHarmless (u : Upload) (s : MediaStore) : List UploadEvent → Prop
  | [] => True
  | e :: es => u.Harmless s e ∧ ∀ next, u.step s e = some next → AllHarmless next.1 next.2 es

/-- The table of orphans can be written. -/
def OrphansWritten : UploadEvent → Prop
  | .recordRefused | .forgetRefused => False
  | _ => True

/-- The objects of an upload that only had harmless events. -/
def Accounted (u : Upload) (s : MediaStore) : Prop :=
  match u.phase with
  | .writing | .inserting | .recording _ => True
  | .removing sent => ∀ key ∈ u.keys, key ∈ sent
  | .forgetting _ => ∀ key ∈ u.keys, key ∉ s.objects
  | .done => ∀ key ∈ u.keys, key ∈ s.objects → s.Named key ∨ s.Listed key

/-- An object of an upload that nobody will know of. -/
def Lost (u : Upload) (s : MediaStore) (key : String) : Prop :=
  key ∈ u.keys ∧ key ∈ s.objects ∧ ¬ s.Named key ∧
  match u.phase with
  | .writing | .inserting | .recording _ => False
  | .removing sent => key ∉ sent ∧ ¬ s.Listed key
  | .forgetting next => s.Listed key → ∃ j, next ≤ j ∧ u.keys[j]? = some key
  | .done => ¬ s.Listed key

section Harm
variable {u u' : Upload} {s s' s0 : MediaStore} {e : UploadEvent} {key : String}
  {name : RenditionName}

theorem accounted_abandon : u.abandon.Accounted s := by
  rw [abandon]
  split
  · rename_i hnone
    intro key hkey
    rw [goTo_keys, hnone] at hkey
    cases hkey
  · trivial

/-- A harmless step leaves nothing behind. -/
theorem Accounted.step (ha : u.Accounted s) (h : u.Since s s0) (hharmless : u.Harmless s e)
    (hs : Stepped u s e u' s') : u'.Accounted s' := by
  have hstage := h.stage
  cases hs with
  | stored name hname =>
    unfold Accounted
    rcases @afterStored_cases u name hharmless with ⟨hphase, -⟩ | hphase | ⟨snapshot, -, hphase⟩
    · rw [hphase]
      trivial
    · rw [hphase]
      trivial
    · rw [hphase]
      trivial
  | refused name hname =>
    by_cases hphase : u.phase = .writing
    · rw [afterRefused_writing hphase]
      exact accounted_abandon
    · rw [afterRefused_eq hphase]
      exact ha
  | committed rowId now hphase =>
    rw [hphase] at hstage
    intro key hkey _
    -- the row names every key of the upload
    exact .inl (MediaStore.named_createMedia.mpr (.inl ((storageKeysOf_row hstage.2.2.2).mpr hkey)))
  | insertRefused hphase => exact accounted_abandon
  | recorded now snapshot hphase => exact fun _ hkey => hkey
  | recordRefused snapshot hphase => exact fun _ hkey => hkey
  | answered answer sent hphase =>
    unfold Accounted at ha
    rw [hphase] at ha
    cases answer with
    | results errors =>
      intro key hkey hobject
      -- an object is still there only if the answer has an error for its key
      obtain ⟨-, hkept⟩ := MediaStore.mem_deleteObjects.mp hobject
      exact hkept.elim (fun hnot => hnot (ha key hkey)) (hharmless sent hphase key (ha key hkey))
    | failed error =>
      intro key hkey hobject
      exact .inr (hharmless sent hphase key (ha key hkey) hobject)
  | forgot next k hphase hk =>
    unfold Accounted at ha
    rw [hphase] at ha
    rw [afterForgot]
    split
    · exact ha
    · exact fun key hkey hobject => absurd hobject (ha key hkey)
  | forgetRefused next hphase =>
    unfold Accounted at ha
    rw [hphase] at ha
    exact fun key hkey hobject => absurd hobject (ha key hkey)

/-- No row names an object of the upload while none was added. -/
theorem not_named (hfresh : s0.Fresh u.input.id) (hrows : s.rows = s0.rows) (hkey : key ∈ u.keys) :
    ¬ s.Named key :=
  fun hnamed => (fresh_keys hfresh hkey).2.2 ((MediaStore.named_of_rows hrows).mp hnamed)

/-- A step that is not harmless loses an object. -/
theorem lost_of_step (h : u.Since s s0) (hfresh : s0.Fresh u.input.id)
    (hharm : ¬ u.Harmless s e) (hs : Stepped u s e u' s') : ∃ key, u'.Lost s' key := by
  have hstage := h.stage
  cases hs with
  | stored name hname =>
    -- an object that arrives after the upload was given up
    have hwriting : u.phase ≠ .writing := fun hphase => hharm (.inl hphase)
    have hnew := h.pending_fresh hname
    have hlisted : ¬ s.Listed (objectKey u.input.id name) := fun hlisted =>
      (hfresh name).2.1 ((h.listed _ hnew).mp hlisted)
    have hnamed : s.rows = s0.rows → ¬ s.Named (objectKey u.input.id name) := fun hrows hnamed =>
      (hfresh name).2.2 ((MediaStore.named_of_rows hrows).mp hnamed)
    have hkey : objectKey u.input.id name ∈ (u.afterStored name).keys := by
      rw [afterStored_keys]
      exact List.mem_append_right _ List.mem_cons_self
    refine ⟨objectKey u.input.id name, hkey, List.mem_cons_self, ?_⟩
    rw [afterStored_phase hwriting]
    cases hphase : u.phase with
    | writing => exact absurd hphase hwriting
    | inserting =>
      rw [hphase] at hstage
      rw [hstage.2.2.1] at hname
      cases hname
    | recording snapshot => exact absurd (.inr ⟨snapshot, hphase⟩) hharm
    | removing sent =>
      rw [hphase] at hstage
      exact ⟨hnamed hstage.1, fun hsent => hnew (hstage.2.2 _ hsent), hlisted⟩
    | forgetting next =>
      rw [hphase] at hstage
      exact ⟨hnamed hstage, fun h => absurd h hlisted⟩
    | done =>
      rw [hphase] at hstage
      rcases hstage with hrows | ⟨-, hnone, -⟩
      · exact ⟨hnamed hrows, hlisted⟩
      · rw [hnone] at hname
        cases hname
  | answered answer sent hphase =>
    rw [hphase] at hstage
    obtain ⟨hrows, hobjects, hsent⟩ := hstage
    cases answer with
    | results errors =>
      simp only [Harmless] at hharm
      push Not at hharm
      obtain ⟨sent', hphase', key, hkey, herror⟩ := hharm
      obtain rfl : sent = sent' := UploadPhase.removing.inj (hphase.symm.trans hphase')
      have hmem := hsent key hkey
      -- a key with an error keeps its object, and its record is to be forgotten
      refine ⟨key, hmem, MediaStore.mem_deleteObjects.mpr ⟨hobjects key hmem, .inr herror⟩,
        not_named hfresh hrows hmem, fun _ => ?_⟩
      obtain ⟨j, hj⟩ := List.mem_iff_getElem?.mp hmem
      exact ⟨j, Nat.zero_le j, hj⟩
    | failed error =>
      simp only [Harmless] at hharm
      push Not at hharm
      obtain ⟨sent', hphase', key, hkey, hobject, hlisted⟩ := hharm
      obtain rfl : sent = sent' := UploadPhase.removing.inj (hphase.symm.trans hphase')
      have hmem := hsent key hkey
      exact ⟨key, hmem, hobject, not_named hfresh hrows hmem, hlisted⟩
  | refused | committed | insertRefused | recorded | recordRefused | forgot | forgetRefused =>
    exact absurd trivial hharm

/-- What is lost stays lost. -/
theorem Lost.step (hlost : u.Lost s key) (hwritten : OrphansWritten e)
    (hs : Stepped u s e u' s') : u'.Lost s' key := by
  obtain ⟨hkey, hobject, hnamed, hphase⟩ := hlost
  cases hs with
  | stored name hname =>
    have hwriting : u.phase ≠ .writing := by
      intro hw
      rw [hw] at hphase
      exact hphase
    have hgrows : key ∈ (u.afterStored name).keys := by
      rw [afterStored_keys]
      exact List.mem_append_left _ hkey
    refine ⟨hgrows, List.mem_cons_of_mem _ hobject, hnamed, ?_⟩
    rw [afterStored_phase hwriting]
    revert hphase
    cases u.phase with
    | writing | inserting | recording snapshot => exact fun h => h
    | removing sent | done => exact fun h => h
    | forgetting next =>
      intro h hlisted
      obtain ⟨j, hj, hfound⟩ := h hlisted
      refine ⟨j, hj, ?_⟩
      rw [afterStored_keys]
      exact List.getElem?_append_left (List.getElem?_eq_some_iff.mp hfound).1 |>.trans hfound
  | refused name hname =>
    have hwriting : u.phase ≠ .writing := by
      intro hw
      rw [hw] at hphase
      exact hphase
    rw [afterRefused_eq hwriting]
    exact ⟨hkey, hobject, hnamed, hphase⟩
  | committed rowId now hp | insertRefused hp | recorded now snapshot hp =>
    rw [hp] at hphase
    exact hphase.elim
  | recordRefused snapshot hp => exact hwritten.elim
  | answered answer sent hp =>
    rw [hp] at hphase
    obtain ⟨hsent, hlisted⟩ := hphase
    cases answer with
    | results errors =>
      exact ⟨hkey, MediaStore.mem_deleteObjects.mpr ⟨hobject, .inl hsent⟩, hnamed,
        fun h => absurd h hlisted⟩
    | failed error => exact ⟨hkey, hobject, hnamed, hlisted⟩
  | forgot next k hp hk =>
    rw [hp] at hphase
    -- The record of the key is among those that are still to be forgotten.
    have hrest : (s.forgetOrphan k).Listed key → ∃ j, next + 1 ≤ j ∧ u.keys[j]? = some key := by
      intro hlisted
      obtain ⟨hlisted, hne⟩ := MediaStore.listed_forgetOrphan.mp hlisted
      obtain ⟨j, hj, hfound⟩ := hphase hlisted
      rcases Nat.lt_or_ge next j with hlt | hge
      · exact ⟨j, hlt, hfound⟩
      · obtain rfl : next = j := Nat.le_antisymm hj hge
        exact absurd (Option.some.inj (hfound.symm.trans hk)) hne
    rw [afterForgot]
    split
    · exact ⟨hkey, hobject, hnamed, hrest⟩
    · rename_i hend
      refine ⟨hkey, hobject, hnamed, fun hlisted => hend ?_⟩
      obtain ⟨j, hj, hfound⟩ := hrest hlisted
      have hlen := (List.getElem?_eq_some_iff.mp hfound).1
      omega
  | forgetRefused next hp => exact hwritten.elim

/-! ## Whole runs -/

variable {es : List UploadEvent}

theorem run_input (hrun : u.run s es = some (u', s')) : u'.input = u.input := by
  induction es generalizing u s with
  | nil => cases hrun; rfl
  | cons e es ih =>
    obtain ⟨⟨next, left⟩, hstep, hrest⟩ := Option.bind_eq_some_iff.mp hrun
    exact (ih hrest).trans (step_input (step_stepped hstep))

theorem run_since (h : u.Since s s0) (hfresh : s0.Fresh u.input.id)
    (hrun : u.run s es = some (u', s')) : u'.Since s' s0 := by
  induction es generalizing u s with
  | nil => cases hrun; exact h
  | cons e es ih =>
    obtain ⟨⟨next, left⟩, hstep, hrest⟩ := Option.bind_eq_some_iff.mp hrun
    have hs := step_stepped hstep
    exact ih (h.step hfresh hs) (step_input hs ▸ hfresh) hrest

theorem run_accounted (ha : u.Accounted s) (h : u.Since s s0) (hfresh : s0.Fresh u.input.id)
    (hall : u.AllHarmless s es) (hrun : u.run s es = some (u', s')) : u'.Accounted s' := by
  induction es generalizing u s with
  | nil => cases hrun; exact ha
  | cons e es ih =>
    obtain ⟨⟨next, left⟩, hstep, hrest⟩ := Option.bind_eq_some_iff.mp hrun
    have hs := step_stepped hstep
    exact ih (ha.step h hall.1 hs) (h.step hfresh hs) (step_input hs ▸ hfresh) (hall.2 _ hstep) hrest

theorem Lost.run (hlost : u.Lost s key) (hwritten : ∀ e ∈ es, OrphansWritten e)
    (hrun : u.run s es = some (u', s')) : u'.Lost s' key := by
  induction es generalizing u s with
  | nil => cases hrun; exact hlost
  | cons e es ih =>
    obtain ⟨⟨next, left⟩, hstep, hrest⟩ := Option.bind_eq_some_iff.mp hrun
    obtain ⟨he, hes⟩ := List.forall_mem_cons.mp hwritten
    exact ih (hlost.step he (step_stepped hstep)) hes hrest

/-- A run with an event that is not harmless loses an object. -/
theorem run_lost (h : u.Since s s0) (hfresh : s0.Fresh u.input.id)
    (hwritten : ∀ e ∈ es, OrphansWritten e) (hharm : ¬ u.AllHarmless s es)
    (hrun : u.run s es = some (u', s')) : ∃ key, u'.Lost s' key := by
  induction es generalizing u s with
  | nil => exact absurd trivial hharm
  | cons e es ih =>
    obtain ⟨⟨next, left⟩, hstep, hrest⟩ := Option.bind_eq_some_iff.mp hrun
    have hs := step_stepped hstep
    obtain ⟨-, hes⟩ := List.forall_mem_cons.mp hwritten
    by_cases hfirst : u.Harmless s e
    · refine ih (h.step hfresh hs) (step_input hs ▸ hfresh) hes (fun hall => hharm ⟨hfirst, ?_⟩)
        hrest
      intro other hother
      rw [hstep] at hother
      exact Option.some.inj hother ▸ hall
    · obtain ⟨key, hlost⟩ := lost_of_step h hfresh hfirst hs
      exact ⟨key, hlost.run hes hrest⟩

end Harm
end Upload

/-! ## What an upload leaves -/

/-- The state after an upload, against the one before.  No object leaked: each one that was
stored and is still there is named by a row or on record.  The objects of a row are there
and not on record, for the new row and for each of the others of which that was so before. -/
structure NothingLeaked (found left : MediaStore) : Prop where
  noLeak : ∀ key ∈ left.objects, key ∉ found.objects → left.Named key ∨ left.Listed key
  intact : ∀ row ∈ left.rows, ∀ key ∈ storageKeysOf row,
    (row ∈ found.rows → key ∈ found.objects ∧ ¬ found.Listed key) →
    key ∈ left.objects ∧ ¬ left.Listed key

section Exact
variable {input : UploadInput} {found left : MediaStore} {u : Upload} {es : List UploadEvent}

/-- The objects of the rows are there and not on record after any upload, as they were before. -/
theorem rows_intact (h : u.Since left found) (hfresh : found.Fresh u.input.id)
    (hdone : u.phase = .done) : ∀ row ∈ left.rows, ∀ key ∈ storageKeysOf row,
      (row ∈ found.rows → key ∈ found.objects ∧ ¬ found.Listed key) →
      key ∈ left.objects ∧ ¬ left.Listed key := by
  have hold : ∀ key, key ∈ found.objects ∧ ¬ found.Listed key →
      key ∈ left.objects ∧ ¬ left.Listed key := by
    rintro key ⟨hobject, hlisted⟩
    refine ⟨h.kept key hobject, fun hnow => hlisted ((h.listed key ?_).mp hnow)⟩
    exact fun hkey => (Upload.fresh_keys hfresh hkey).1 hobject
  intro row hrow key hkey hbefore
  have hstage := h.stage
  rw [hdone] at hstage
  rcases hstage with hrows | ⟨hheld, -, new, hrows, hnames⟩
  · rw [hrows] at hrow
    exact hold key (hbefore hrow)
  · rw [hrows] at hrow
    rcases List.mem_cons.mp hrow with rfl | hrow
    · exact hheld key ((hnames key).mp hkey)
    · exact hold key (hbefore hrow)

/-- **An upload leaks nothing** exactly if every event of its run was harmless. -/
theorem upload_exact (hfresh : found.Fresh input.id) (hwritten : ∀ e ∈ es, Upload.OrphansWritten e)
    (hrun : (Upload.start input).run found es = some (u, left)) (hsettled : u.Settled) :
    NothingLeaked found left ↔ (Upload.start input).AllHarmless found es := by
  have hstart : (Upload.start input).Since found found := Upload.start_since input
  have hinput : u.input = input := Upload.run_input hrun
  have hsince := Upload.run_since hstart hfresh hrun
  have hfresh' : found.Fresh u.input.id := hinput ▸ hfresh
  constructor
  · intro hkept
    by_contra hharm
    obtain ⟨key, hkey, hobject, hnamed, hlost⟩ := Upload.run_lost hstart hfresh hwritten hharm hrun
    rw [hsettled.1] at hlost
    exact (hkept.noLeak key hobject (Upload.fresh_keys hfresh' hkey).1).elim hnamed hlost
  · intro hall
    refine ⟨fun key hobject hnew => ?_, rows_intact hsince hfresh' hsettled.1⟩
    have hbegin : (Upload.start input).Accounted found := trivial
    have haccounted := Upload.run_accounted hbegin hstart hfresh hall hrun
    unfold Upload.Accounted at haccounted
    rw [hsettled.1] at haccounted
    exact haccounted key ((hsince.stored key hobject).resolve_left hnew) hobject

end Exact

/-! ### Two writes -/

/-- An upload in which both writes store their objects, and the row is committed. -/
def writesStored (rowId : Uuid) (now : Nat) : List UploadEvent :=
  [.stored .webp, .stored .avif, .committed rowId now]

/-- An upload whose first write is refused before the other has settled, so that there is
nothing to abandon; then the other one stores its object. -/
def writeLate : List UploadEvent := [.refused .avif, .stored .webp]

section Runs
variable (input : UploadInput) (s : MediaStore) (rowId : Uuid) (now : Nat)

theorem run_writesStored : (Upload.start input).run s (writesStored rowId now) =
    some (⟨input, .done, [], [.webp, .avif]⟩,
      ((s.putObject (objectKey input.id .webp)).putObject (objectKey input.id .avif)).createMedia
        (Upload.row ⟨input, .inserting, [], [.webp, .avif]⟩ rowId now)) := rfl

theorem writesStored_harmless :
    (Upload.start input).AllHarmless s (writesStored rowId now) := by
  refine ⟨.inl rfl, fun next hnext => ?_⟩
  obtain rfl := Option.some.inj hnext
  refine ⟨.inl rfl, fun next hnext => ?_⟩
  obtain rfl := Option.some.inj hnext
  exact ⟨trivial, fun _ _ => trivial⟩

theorem writesStored_written : ∀ e ∈ writesStored rowId now, Upload.OrphansWritten e := by
  intro e he
  simp only [writesStored, List.mem_cons, List.not_mem_nil, or_false] at he
  rcases he with rfl | rfl | rfl
  · trivial
  · trivial
  · trivial

theorem run_writeLate : (Upload.start input).run s writeLate =
    some (⟨input, .done, [], [.webp]⟩, s.putObject (objectKey input.id .webp)) := rfl

end Runs

def emptyMediaStore : MediaStore := ⟨[], [], []⟩

theorem emptyMediaStore_listed (key : String) : ¬ emptyMediaStore.Listed key := by
  rintro ⟨orphan, horphan, -⟩
  cases horphan

theorem emptyMediaStore_named (key : String) : ¬ emptyMediaStore.Named key := by
  rintro ⟨row, hrow, -⟩
  cases hrow

theorem emptyMediaStore_fresh (id : Uuid) : emptyMediaStore.Fresh id := fun _ =>
  ⟨List.not_mem_nil, emptyMediaStore_listed _, emptyMediaStore_named _⟩

def photoUpload : UploadInput := ⟨1, 800, 600, fun _ => 1000, some "photo.jpg", none⟩

theorem upload_exact_committed : ∃ left,
    (Upload.start photoUpload).run emptyMediaStore (writesStored 7 0) =
      some (⟨photoUpload, .done, [], [.webp, .avif]⟩, left) ∧
    NothingLeaked emptyMediaStore left :=
  ⟨_, run_writesStored photoUpload emptyMediaStore 7 0,
    (upload_exact (emptyMediaStore_fresh photoUpload.id) (writesStored_written 7 0)
      (run_writesStored photoUpload emptyMediaStore 7 0) ⟨rfl, rfl⟩).mpr
        (writesStored_harmless photoUpload emptyMediaStore 7 0)⟩

/-- **A write that settles late** leaves an object that nobody knows of. -/
theorem late_write_leaks :
    ∃ u left, emptyMediaStore.Fresh photoUpload.id ∧
      (Upload.start photoUpload).run emptyMediaStore writeLate = some (u, left) ∧ u.Settled ∧
      objectKey photoUpload.id .webp ∈ left.objects ∧ ¬ left.Named (objectKey photoUpload.id .webp) ∧
      ¬ left.Listed (objectKey photoUpload.id .webp) ∧ ¬ NothingLeaked emptyMediaStore left := by
  refine ⟨_, _, emptyMediaStore_fresh photoUpload.id, run_writeLate photoUpload emptyMediaStore,
    ⟨rfl, rfl⟩, List.mem_cons_self, emptyMediaStore_named _, emptyMediaStore_listed _, fun hkept => ?_⟩
  exact (hkept.noLeak _ List.mem_cons_self List.not_mem_nil).elim (emptyMediaStore_named _)
    (emptyMediaStore_listed _)

end PressLabz
