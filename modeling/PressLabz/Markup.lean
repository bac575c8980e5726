import Mathlib.Data.List.Basic

/-! # Markup as a sequence of events

A text with tags is read into events: its tags, and the characters between them.  Whether
the tags nest is then a matter of the events alone, and is decided with a stack.  References
to characters are undone in a second pass (`Escaping`).

A writer is right when what it writes reads back as the events it meant (`read_write`).
-/
namespace Markup

structure Attribute where
  name : List Char
  value : List Char
  deriving DecidableEq

inductive Event where
  | char (c : Char)
  | opening (name : List Char) (attributes : List Attribute)
  | closing (name : List Char)
  | void (name : List Char) (attributes : List Attribute)
  deriving DecidableEq

def isNameChar (c : Char) : Bool := c.isAlphanum || c ∈ [':', '-', '_', '.']

/-! ## Writing -/

def Attribute.write (a : Attribute) : List Char :=
  ' ' :: (a.name ++ '=' :: '"' :: (a.value ++ ['"']))

/-- What stands between the brackets of a tag. -/
def tagText (name : List Char) (attributes : List Attribute) : List Char :=
  name ++ attributes.flatMap Attribute.write

def Event.write : Event → List Char
  | .char c => [c]
  | .opening name attributes => '<' :: (tagText name attributes ++ ['>'])
  | .closing name => '<' :: ('/' :: name ++ ['>'])
  | .void name attributes => '<' :: (tagText name attributes ++ [' ', '/'] ++ ['>'])

def write (events : List Event) : List Char := events.flatMap Event.write

/-! ## Reading -/

/-- Where a reader of attributes stands. -/
inductive Place where
  | between
  | name (read : List Char)
  | equals (name : List Char)
  | value (name read : List Char)

/-- The attributes of a tag, and whether it closes itself. -/
def readAttributes : Place → List Char → Option (List Attribute × Bool)
  | .between, [] => some ([], false)
  | .between, c :: s => if c = ' ' then readAttributes (.name []) s else none
  | .name _, [] => none
  | .name read, c :: s =>
    if isNameChar c then readAttributes (.name (read ++ [c])) s
    else if c = '/' ∧ read = [] ∧ s = [] then some ([], true)
    else if c = '=' ∧ read ≠ [] then readAttributes (.equals read) s
    else none
  | .equals _, [] => none
  | .equals name, c :: s => if c = '"' then readAttributes (.value name []) s else none
  | .value _ _, [] => none
  | .value name read, c :: s =>
    if c = '"' then (readAttributes .between s).map fun r => (⟨name, read⟩ :: r.1, r.2)
    else readAttributes (.value name (read ++ [c])) s

/-- The tag of what stands between two brackets. -/
def readTag (tag : List Char) : Option Event :=
  if tag.head? = some '/' then
    if tag.tail ≠ [] ∧ tag.tail.all isNameChar then some (.closing tag.tail) else none
  else if tag.takeWhile isNameChar = [] then none
  else (readAttributes .between (tag.dropWhile isNameChar)).map fun r =>
    if r.2 then .void (tag.takeWhile isNameChar) r.1
    else .opening (tag.takeWhile isNameChar) r.1

/-- The events of a text; within a tag, with what was read of it. -/
def readFrom : Option (List Char) → List Char → Option (List Event)
  | none, [] => some []
  | none, c :: s =>
    if c = '<' then readFrom (some []) s
    else if c = '>' then none
    else (readFrom none s).map (.char c :: ·)
  | some _, [] => none
  | some tag, c :: s =>
    if c = '>' then (readTag tag).bind fun e => (readFrom none s).map (e :: ·)
    else if c = '<' then none
    else readFrom (some (tag ++ [c])) s

def read (s : List Char) : Option (List Event) := readFrom none s

/-! ## What can be written -/

def IsName (name : List Char) : Prop := name ≠ [] ∧ ∀ c ∈ name, isNameChar c = true

/-- A value without quotation marks and angle brackets. -/
def IsValue (value : List Char) : Prop := ∀ c ∈ value, c ∉ ['<', '>', '"', '\'']

def Attribute.Lexical (a : Attribute) : Prop := IsName a.name ∧ IsValue a.value

def Event.Lexical : Event → Prop
  | .char c => c ≠ '<' ∧ c ≠ '>'
  | .opening name attributes => IsName name ∧ ∀ a ∈ attributes, a.Lexical
  | .closing name => IsName name
  | .void name attributes => IsName name ∧ ∀ a ∈ attributes, a.Lexical

/-- A text without angle brackets. -/
def Plain (s : List Char) : Prop := ∀ c ∈ s, c ≠ '<' ∧ c ≠ '>'

instance (name : List Char) : Decidable (IsName name) :=
  decidable_of_iff (name ≠ [] ∧ name.all isNameChar) (by simp [IsName])

instance (value : List Char) : Decidable (IsValue value) :=
  decidable_of_iff (value.all fun c => c ∉ ['<', '>', '"', '\'']) (by simp [IsValue])

instance (s : List Char) : Decidable (Plain s) :=
  decidable_of_iff (s.all fun c => c ≠ '<' && c ≠ '>') (by simp [Plain])

theorem plain_append {s t : List Char} : Plain (s ++ t) ↔ Plain s ∧ Plain t :=
  List.forall_mem_append

theorem IsName.plain {name : List Char} (h : IsName name) : Plain name := by
  intro c hc
  constructor <;> rintro rfl <;> exact absurd (h.2 _ hc) (by decide)

theorem IsValue.plain {value : List Char} (h : IsValue value) : Plain value := by
  intro c hc
  constructor <;> rintro rfl <;> exact absurd (h _ hc) (by decide)

theorem Attribute.Lexical.plain {a : Attribute} (h : a.Lexical) : Plain a.write := by
  intro c hc
  simp only [Attribute.write, List.mem_cons, List.mem_append, List.not_mem_nil, or_false] at hc
  rcases hc with rfl | hc | rfl | rfl | hc | rfl
  · decide
  · exact h.1.plain c hc
  · decide
  · decide
  · exact h.2.plain c hc
  · decide

theorem plain_tagText {name : List Char} {attributes : List Attribute} (hn : IsName name)
    (ha : ∀ a ∈ attributes, a.Lexical) : Plain (tagText name attributes) := by
  refine plain_append.mpr ⟨hn.plain, ?_⟩
  intro c hc
  obtain ⟨a, hmem, hca⟩ := List.mem_flatMap.mp hc
  exact (ha a hmem).plain c hca

/-! ## Reading back -/

theorem readAttributes_name {name : List Char} (h : ∀ c ∈ name, isNameChar c = true)
    (read s : List Char) (hne : read ++ name ≠ []) :
    readAttributes (.name read) (name ++ '=' :: s) = readAttributes (.equals (read ++ name)) s := by
  induction name generalizing read with
  | nil =>
    rw [List.append_nil] at hne
    rw [List.nil_append, readAttributes, if_neg (by decide), if_neg (by simp), if_pos ⟨rfl, hne⟩,
      List.append_nil]
  | cons c name ih =>
    rw [List.cons_append, readAttributes, if_pos (h c List.mem_cons_self),
      ih (fun x hx => h x (List.mem_cons_of_mem _ hx)) _ (by simp), List.append_assoc]
    rfl

theorem readAttributes_value {value : List Char} (h : IsValue value) (name read s : List Char) :
    readAttributes (.value name read) (value ++ '"' :: s) =
      (readAttributes .between s).map fun r => (⟨name, read ++ value⟩ :: r.1, r.2) := by
  induction value generalizing read with
  | nil => rw [List.nil_append, readAttributes, if_pos rfl, List.append_nil]
  | cons c value ih =>
    have hc : c ≠ '"' := by
      rintro rfl
      exact absurd (h _ List.mem_cons_self) (by decide)
    rw [List.cons_append, readAttributes, if_neg hc,
      ih (fun x hx => h x (List.mem_cons_of_mem _ hx)), List.append_assoc]
    rfl

theorem readAttributes_write {attributes : List Attribute} (h : ∀ a ∈ attributes, a.Lexical)
    {s : List Char} {closes : Bool} (hs : readAttributes .between s = some ([], closes)) :
    readAttributes .between (attributes.flatMap Attribute.write ++ s) =
      some (attributes, closes) := by
  induction attributes with
  | nil => exact hs
  | cons a attributes ih =>
    obtain ⟨hname, hvalue⟩ := h a List.mem_cons_self
    have htail := ih fun x hx => h x (List.mem_cons_of_mem _ hx)
    simp only [List.flatMap_cons, Attribute.write, List.cons_append, List.append_assoc,
      List.nil_append]
    rw [readAttributes, if_pos rfl, readAttributes_name hname.2 [] _ (by simpa using hname.1),
      readAttributes, if_pos rfl, readAttributes_value hvalue, htail]
    rfl

theorem attributes_head (attributes : List Attribute) (s : List Char)
    (hs : ∀ c ∈ s.head?, isNameChar c = false) :
    ∀ c ∈ (attributes.flatMap Attribute.write ++ s).head?, isNameChar c = false := by
  cases attributes with
  | nil => exact hs
  | cons a attributes =>
    intro c hc
    cases hc
    decide

theorem readTag_name {name rest : List Char} (hn : IsName name)
    (hrest : ∀ c ∈ rest.head?, isNameChar c = false) :
    readTag (name ++ rest) = (readAttributes .between rest).map fun r =>
      if r.2 then .void name r.1 else .opening name r.1 := by
  obtain ⟨hne, hall⟩ := hn
  have htake : (name ++ rest).takeWhile isNameChar = name := by
    rw [List.takeWhile_append_of_pos hall]
    cases rest with
    | nil => simp
    | cons c rest => rw [List.takeWhile_cons_of_neg (by simp [hrest c rfl]), List.append_nil]
  have hdrop : (name ++ rest).dropWhile isNameChar = rest := by
    rw [List.dropWhile_append_of_pos hall]
    cases rest with
    | nil => rfl
    | cons c rest => rw [List.dropWhile_cons_of_neg (by simp [hrest c rfl])]
  -- no slash begins a name, so that the tag does not close
  have hhead : (name ++ rest).head? ≠ some '/' := by
    cases name with
    | nil => exact absurd rfl hne
    | cons c name =>
      intro h
      cases h
      exact absurd (hall _ List.mem_cons_self) (by decide)
  rw [readTag, if_neg hhead, htake, if_neg hne, hdrop]

theorem readTag_opening {name : List Char} {attributes : List Attribute} (hn : IsName name)
    (ha : ∀ a ∈ attributes, a.Lexical) :
    readTag (tagText name attributes) = some (.opening name attributes) := by
  have hhead := attributes_head attributes [] (by simp)
  have hread := readAttributes_write ha (s := []) rfl
  rw [List.append_nil] at hhead hread
  rw [tagText, readTag_name hn hhead, hread]
  rfl

theorem readTag_void {name : List Char} {attributes : List Attribute} (hn : IsName name)
    (ha : ∀ a ∈ attributes, a.Lexical) :
    readTag (tagText name attributes ++ [' ', '/']) = some (.void name attributes) := by
  have hspace : ∀ c ∈ [' ', '/'].head?, isNameChar c = false := by
    intro c hc
    cases hc
    decide
  have hhead := attributes_head attributes [' ', '/'] hspace
  rw [tagText, List.append_assoc, readTag_name hn hhead, readAttributes_write ha rfl]
  rfl

theorem readTag_closing {name : List Char} (hn : IsName name) :
    readTag ('/' :: name) = some (.closing name) := by
  rw [readTag, List.head?_cons, if_pos rfl, List.tail_cons,
    if_pos ⟨hn.1, List.all_eq_true.mpr hn.2⟩]

/-- A reader in a tag goes on to the closing bracket, and takes what stands before it for
the tag. -/
theorem readFrom_tag {tag : List Char} (h : Plain tag) (before s : List Char) :
    readFrom (some before) (tag ++ '>' :: s) =
      (readTag (before ++ tag)).bind fun e => (readFrom none s).map (e :: ·) := by
  induction tag generalizing before with
  | nil => rw [List.nil_append, readFrom, if_pos rfl, List.append_nil]
  | cons c tag ih =>
    obtain ⟨hlt, hgt⟩ := h c List.mem_cons_self
    rw [List.cons_append, readFrom, if_neg hgt, if_neg hlt,
      ih fun x hx => h x (List.mem_cons_of_mem _ hx), List.append_assoc]
    rfl

theorem readFrom_write {e : Event} (h : e.Lexical) (s : List Char) :
    readFrom none (e.write ++ s) = (readFrom none s).map (e :: ·) := by
  cases e with
  | char c =>
    rw [Event.write, List.cons_append, readFrom, if_neg h.1, if_neg h.2]
    rfl
  | opening name attributes =>
    rw [Event.write, List.cons_append, List.append_assoc, readFrom, if_pos rfl, List.singleton_append,
      readFrom_tag (plain_tagText h.1 h.2), List.nil_append, readTag_opening h.1 h.2]
    rfl
  | closing name =>
    have hplain : Plain ('/' :: name) := by
      intro c hc
      rcases List.mem_cons.mp hc with rfl | hc
      · decide
      · exact IsName.plain h c hc
    rw [Event.write, List.cons_append, List.append_assoc, readFrom, if_pos rfl, List.singleton_append,
      readFrom_tag hplain, List.nil_append, readTag_closing h]
    rfl
  | void name attributes =>
    have hplain : Plain (tagText name attributes ++ [' ', '/']) :=
      plain_append.mpr ⟨plain_tagText h.1 h.2, by decide⟩
    rw [Event.write, List.cons_append, List.append_assoc, readFrom, if_pos rfl, List.singleton_append,
      readFrom_tag hplain, List.nil_append, readTag_void h.1 h.2]
    rfl

/-- **What is written reads back** as the events it was written from. -/
theorem read_write {events : List Event} (h : ∀ e ∈ events, e.Lexical) :
    read (write events) = some events := by
  induction events with
  | nil => rfl
  | cons e events ih =>
    have htail := ih fun x hx => h x (List.mem_cons_of_mem _ hx)
    rw [read] at htail ⊢
    rw [write, List.flatMap_cons, readFrom_write (h e List.mem_cons_self), ← write, htail]
    rfl

/-! ## Nesting -/

/-- One event over the tags that are open, the innermost first. -/
def nest : List (List Char) → Event → Option (List (List Char))
  | tags, .char _ => some tags
  | tags, .void _ _ => some tags
  | tags, .opening name _ => some (name :: tags)
  | [], .closing _ => none
  | tag :: tags, .closing name => if name = tag then some tags else none

/-- Every tag that is opened is closed, the innermost first, and no other is closed. -/
def WellNested (events : List Event) : Prop := events.foldlM nest [] = some []

instance (events : List Event) : Decidable (WellNested events) :=
  inferInstanceAs (Decidable (events.foldlM nest [] = some []))

theorem nest_under {tags tags' : List (List Char)} {e : Event} (h : nest tags e = some tags')
    (outer : List (List Char)) : nest (tags ++ outer) e = some (tags' ++ outer) := by
  cases e with
  | closing name =>
    cases tags with
    | nil => cases h
    | cons tag tags =>
      rw [nest] at h
      split at h
      · cases h
        rw [List.cons_append, nest, if_pos ‹_›]
      · cases h
  | _ =>
    cases h
    rfl

theorem nests_under {tags tags' : List (List Char)} {events : List Event}
    (h : events.foldlM nest tags = some tags') (outer : List (List Char)) :
    events.foldlM nest (tags ++ outer) = some (tags' ++ outer) := by
  induction events generalizing tags with
  | nil =>
    cases h
    rfl
  | cons e events ih =>
    rw [List.foldlM_cons] at h ⊢
    obtain ⟨between, hnest, hrest⟩ := Option.bind_eq_some_iff.mp h
    rw [nest_under hnest]
    exact ih hrest

theorem wellNested_nil : WellNested [] := rfl

theorem WellNested.append {events more : List Event} (h : WellNested events)
    (hmore : WellNested more) : WellNested (events ++ more) := by
  rw [WellNested] at h ⊢
  rw [List.foldlM_append, h]
  exact hmore

theorem wellNested_flatMap {α : Type} {l : List α} {f : α → List Event}
    (h : ∀ a ∈ l, WellNested (f a)) : WellNested (l.flatMap f) := by
  induction l with
  | nil => exact wellNested_nil
  | cons a l ih =>
    exact (h a List.mem_cons_self).append (ih fun x hx => h x (List.mem_cons_of_mem _ hx))

/-- A tag around events. -/
def element (name : List Char) (attributes : List Attribute) (events : List Event) : List Event :=
  .opening name attributes :: (events ++ [.closing name])

theorem WellNested.element {events : List Event} (h : WellNested events) (name : List Char)
    (attributes : List Attribute) : WellNested (element name attributes events) := by
  have hinner := nests_under h [name]
  rw [List.nil_append] at hinner
  rw [WellNested, Markup.element, List.foldlM_cons]
  show (events ++ [Event.closing name]).foldlM nest [name] = some []
  rw [List.foldlM_append, hinner]
  show List.foldlM nest [name] [Event.closing name] = some []
  rw [List.foldlM_cons, nest, if_pos rfl]
  rfl

/-- Characters without a tag. -/
def chars (s : List Char) : List Event := s.map .char

theorem wellNested_chars (s : List Char) : WellNested (chars s) := by
  induction s with
  | nil => exact wellNested_nil
  | cons c s ih => exact ih

theorem wellNested_void (name : List Char) (attributes : List Attribute) :
    WellNested [.void name attributes] := rfl

@[simp] theorem write_nil : write [] = [] := rfl

@[simp] theorem write_cons (e : Event) (events : List Event) :
    write (e :: events) = e.write ++ write events := rfl

@[simp] theorem write_append (events more : List Event) :
    write (events ++ more) = write events ++ write more :=
  List.flatMap_append

@[simp] theorem write_chars (s : List Char) : write (chars s) = s := by
  induction s with
  | nil => rfl
  | cons c s ih => exact congrArg (c :: ·) ih

theorem write_element (name : List Char) (attributes : List Attribute) (events : List Event) :
    write (element name attributes events) =
      '<' :: (tagText name attributes ++ '>' :: (write events ++ '<' :: '/' :: (name ++ ['>']))) := by
  simp [element, Event.write]

theorem write_flatMap {α : Type} (f : α → List Event) (l : List α) :
    write (l.flatMap f) = l.flatMap fun a => write (f a) :=
  List.flatMap_assoc

/-! ## Text without tags -/

/-- The characters outside the tags of a text; `inside` a tag or not. -/
def stripTags : (inside : Bool) → List Char → List Char
  | _, [] => []
  | false, c :: s => if c = '<' then stripTags true s else c :: stripTags false s
  | true, c :: s => stripTags (c ≠ '>') s

def Event.text : Event → List Char
  | .char c => [c]
  | _ => []

def text (events : List Event) : List Char := events.flatMap Event.text

theorem stripTags_tag {tag : List Char} (h : Plain tag) (s : List Char) :
    stripTags true (tag ++ '>' :: s) = stripTags false s := by
  induction tag with
  | nil => rfl
  | cons c tag ih =>
    rw [List.cons_append, stripTags, decide_eq_true (h c List.mem_cons_self).2]
    exact ih fun x hx => h x (List.mem_cons_of_mem _ hx)

theorem Event.Lexical.written {e : Event} (h : e.Lexical) :
    (∃ c, e = .char c ∧ c ≠ '<') ∨
      e.text = [] ∧ ∃ tag, Plain tag ∧ e.write = '<' :: (tag ++ ['>']) := by
  cases e with
  | char c => exact Or.inl ⟨c, rfl, h.1⟩
  | opening name attributes => exact Or.inr ⟨rfl, _, plain_tagText h.1 h.2, rfl⟩
  | closing name =>
    refine Or.inr ⟨rfl, '/' :: name, ?_, rfl⟩
    intro c hc
    rcases List.mem_cons.mp hc with rfl | hc
    · decide
    · exact IsName.plain h c hc
  | void name attributes =>
    exact Or.inr ⟨rfl, tagText name attributes ++ [' ', '/'],
      plain_append.mpr ⟨plain_tagText h.1 h.2, by decide⟩, rfl⟩

/-- Deleting the tags of what is written leaves the characters. -/
theorem stripTags_write {events : List Event} (h : ∀ e ∈ events, e.Lexical) :
    stripTags false (write events) = text events := by
  induction events with
  | nil => rfl
  | cons e events ih =>
    have htail := ih fun x hx => h x (List.mem_cons_of_mem _ hx)
    rw [write_cons, text, List.flatMap_cons, ← text]
    rcases (h e List.mem_cons_self).written with ⟨c, rfl, hc⟩ | ⟨htext, tag, hplain, hwrite⟩
    · rw [Event.write, List.singleton_append, stripTags, if_neg hc, htail]
      rfl
    · rw [hwrite, htext, List.cons_append, List.append_assoc, stripTags, if_pos rfl,
        List.singleton_append, stripTags_tag hplain, htail, List.nil_append]

@[simp] theorem text_append (events more : List Event) :
    text (events ++ more) = text events ++ text more :=
  List.flatMap_append

@[simp] theorem text_chars (s : List Char) : text (chars s) = s := by
  induction s with
  | nil => rfl
  | cons c s ih => exact congrArg (c :: ·) ih

@[simp] theorem text_element (name : List Char) (attributes : List Attribute)
    (events : List Event) : text (element name attributes events) = text events := by
  show text (events ++ [Event.closing name]) = text events
  rw [text_append]
  exact List.append_nil _

theorem text_flatMap {α : Type} (f : α → List Event) (l : List α) :
    text (l.flatMap f) = l.flatMap fun a => text (f a) :=
  List.flatMap_assoc

/-! ## References -/

/-- References to characters, `&` among them.  Each begins with `&` and has no other, and none
is a part of another's beginning. -/
structure Escaping where
  table : List (Char × List Char)
  ampersand : (table.lookup '&').isSome
  begins : ∀ e ∈ table, ∃ name, e.2 = '&' :: name ∧ '&' ∉ name
  begins_one : ∀ e ∈ table, ∀ e' ∈ table, e.2 <+: e'.2 → e = e'

namespace Escaping
variable (x : Escaping)

def code (c : Char) : List Char := (x.table.lookup c).getD [c]

def escape (s : List Char) : List Char := s.flatMap x.code

/-- The reference a text begins with. -/
def find (s : List Char) : Option (Char × List Char) := x.table.find? (·.2.isPrefixOf s)

/-- The references of a text undone; the first `skip` characters belong to one that is. -/
def unescapeFrom : (skip : Nat) → List Char → List Char
  | _, [] => []
  | skip + 1, _ :: s => unescapeFrom skip s
  | 0, c :: s =>
    match x.find (c :: s) with
    | some e => e.1 :: unescapeFrom (e.2.length - 1) s
    | none => c :: unescapeFrom 0 s

def unescape (s : List Char) : List Char := x.unescapeFrom 0 s

/-- Every `&` begins a reference. -/
def References : List Char → Prop
  | [] => True
  | c :: s => (c = '&' → (x.find (c :: s)).isSome) ∧ References s

variable {x}

theorem mem_of_lookup {c : Char} {r : List Char} (h : x.table.lookup c = some r) :
    (c, r) ∈ x.table := by
  obtain ⟨before, after, htable, -⟩ := List.lookup_eq_some_iff.mp h
  rw [htable]
  exact List.mem_append_right _ List.mem_cons_self

theorem find_of_mem {e : Char × List Char} (he : e ∈ x.table) (s : List Char) :
    x.find (e.2 ++ s) = some e := by
  have hsome : (x.find (e.2 ++ s)).isSome := by
    rw [find, List.find?_isSome]
    exact ⟨e, he, List.isPrefixOf_iff_prefix.mpr (List.prefix_append _ _)⟩
  obtain ⟨e', he'⟩ := Option.isSome_iff_exists.mp hsome
  have hmem : e' ∈ x.table := List.mem_of_find?_eq_some he'
  have hpre : e'.2 <+: e.2 ++ s := by
    have h := List.find?_some he'
    exact List.isPrefixOf_iff_prefix.mp h
  rw [he']
  rcases List.prefix_or_prefix_of_prefix hpre (List.prefix_append e.2 s) with h | h
  · rw [x.begins_one e' hmem e he h]
  · rw [x.begins_one e he e' hmem h]

theorem find_other {c : Char} (hc : c ≠ '&') (s : List Char) : x.find (c :: s) = none := by
  rw [find, List.find?_eq_none]
  intro e he hpre
  obtain ⟨name, hname, -⟩ := x.begins e he
  rw [hname, List.isPrefixOf_iff_prefix, List.cons_prefix_cons] at hpre
  exact hc hpre.1.symm

theorem unescapeFrom_skip (t s : List Char) :
    x.unescapeFrom t.length (t ++ s) = x.unescapeFrom 0 s := by
  induction t with
  | nil => rfl
  | cons c t ih => exact ih

theorem unescape_code (c : Char) (s : List Char) :
    x.unescape (x.code c ++ s) = c :: x.unescape s := by
  rw [code, unescape, unescape]
  cases hlookup : x.table.lookup c with
  | none =>
    -- a character without a reference is no ampersand
    have hc : c ≠ '&' := by
      rintro rfl
      have h := x.ampersand
      rw [hlookup] at h
      cases h
    rw [Option.getD_none, List.singleton_append, unescapeFrom, find_other hc]
  | some r =>
    -- the reference is found at its ampersand, and its name is passed over
    have hmem := mem_of_lookup hlookup
    obtain ⟨name, hname, -⟩ := x.begins _ hmem
    have hfind := find_of_mem hmem s
    simp only at hname hfind
    rw [hname] at hfind
    rw [Option.getD_some, hname, List.cons_append, unescapeFrom]
    rw [List.cons_append] at hfind
    rw [hfind]
    simp only [List.length_cons, Nat.add_sub_cancel]
    rw [unescapeFrom_skip]

/-- **Undoing the references** of an escaped text gives the text. -/
theorem unescape_escape (s : List Char) : x.unescape (x.escape s) = s := by
  induction s with
  | nil => rfl
  | cons c s ih => rw [escape, List.flatMap_cons, ← escape, unescape_code, ih]

/-- A property of all references, and of the characters that have none. -/
theorem forall_escape {P : Char → Prop} (hcode : ∀ e ∈ x.table, ∀ c ∈ e.2, P c) {s : List Char}
    (hrest : ∀ c ∈ s, x.table.lookup c = none → P c) : ∀ c ∈ x.escape s, P c := by
  intro c hc
  obtain ⟨d, hd, hcd⟩ := List.mem_flatMap.mp hc
  rw [code] at hcd
  cases hlookup : x.table.lookup d with
  | none =>
    rw [hlookup, Option.getD_none, List.mem_singleton] at hcd
    subst hcd
    exact hrest c hd hlookup
  | some r =>
    rw [hlookup, Option.getD_some] at hcd
    exact hcode _ (mem_of_lookup hlookup) c hcd

/-- With a reference for each of the reserved characters, an escaped text is a value. -/
theorem isValue_escape (hcodes : ∀ e ∈ x.table, IsValue e.2)
    (hreserved : ['<', '>', '"', '\''].all fun c => (x.table.lookup c).isSome) (s : List Char) :
    IsValue (x.escape s) := by
  refine x.forall_escape hcodes fun c _ hnone hc => ?_
  have hsome := List.all_eq_true.mp hreserved c hc
  rw [hnone] at hsome
  cases hsome

theorem references_skip {t : List Char} (ht : '&' ∉ t) (s : List Char) (h : x.References s) :
    x.References (t ++ s) := by
  induction t with
  | nil => exact h
  | cons c t ih =>
    refine ⟨fun hc => absurd List.mem_cons_self (hc ▸ ht), ?_⟩
    exact ih fun hmem => ht (List.mem_cons_of_mem _ hmem)

theorem references_escape (s : List Char) : x.References (x.escape s) := by
  induction s with
  | nil => trivial
  | cons c s ih =>
    rw [escape, List.flatMap_cons, ← escape, code]
    cases hlookup : x.table.lookup c with
    | none =>
      refine references_skip ?_ _ ih
      intro hmem
      have h := x.ampersand
      rw [List.mem_singleton.mp hmem, hlookup] at h
      cases h
    | some r =>
      have hmem := mem_of_lookup hlookup
      obtain ⟨name, hname, hamp⟩ := x.begins _ hmem
      simp only at hname
      subst hname
      refine ⟨fun _ => ?_, references_skip hamp _ ih⟩
      have hfind := find_of_mem hmem (x.escape s)
      rw [List.cons_append] at hfind
      exact Option.isSome_iff_exists.mpr ⟨_, hfind⟩

end Escaping

end Markup
