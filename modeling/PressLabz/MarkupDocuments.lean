import Mathlib.Data.List.Nodup
import PressLabz.Markup

/-! # Documents in markup

What XML 1.0 asks of a document, as far as it goes for one that has no document type,
comments, processing instructions or marked sections: the characters, the references, the
attributes, one root around everything.  `contents` is what the elements of a name hold.
-/
namespace Markup

/-- `Char` of XML 1.0. -/
def isXmlChar (c : Char) : Bool :=
  c ∈ ['\t', '\n', '\r'] || (0x20 ≤ c.toNat && c.toNat ≤ 0xD7FF) ||
    (0xE000 ≤ c.toNat && c.toNat ≤ 0xFFFD) || (0x10000 ≤ c.toNat && c.toNat ≤ 0x10FFFF)

def isXmlSpace (c : Char) : Bool := c ∈ [' ', '\t', '\n', '\r']

def xmlDeclaration : List Char := "<?xml version=\"1.0\" encoding=\"UTF-8\"?>".toList

def Event.attributes : Event → List Attribute
  | .opening _ attributes | .void _ attributes => attributes
  | _ => []

/-- A well-formed document. -/
structure IsDocument (x : Escaping) (document : List Char) : Prop where
  characters : ∀ c ∈ document, isXmlChar c = true
  references : x.References document
  /-- One root, and white space around it. -/
  markup : ∃ before root attributes inner after rest, document = xmlDeclaration ++ rest ∧
    read rest = some (chars before ++ element root attributes inner ++ chars after) ∧
    before.all isXmlSpace ∧ after.all isXmlSpace ∧ WellNested inner ∧
    ∀ e ∈ element root attributes inner,
      (e.attributes.map Attribute.name).Nodup ∧ ∀ a ∈ e.attributes, IsValue a.value

/-! ## Parts of a document -/

/-- Events that may stand anywhere within the root. -/
structure Formed (x : Escaping) (events : List Event) : Prop where
  nested : WellNested events
  lexical : ∀ e ∈ events, e.Lexical
  distinct : ∀ e ∈ events, (e.attributes.map Attribute.name).Nodup
  references : x.References (write events)

section Parts
variable {x : Escaping}

namespace Escaping

theorem References.append {s t : List Char} (hs : x.References s) (ht : x.References t) :
    x.References (s ++ t) := by
  induction s with
  | nil => exact ht
  | cons c s ih =>
    refine ⟨fun hc => ?_, ih hs.2⟩
    have hfind := hs.1 hc
    rw [find, List.find?_isSome] at hfind ⊢
    obtain ⟨e, he, hpre⟩ := hfind
    have hmore : e.2 <+: c :: s ++ t :=
      (List.isPrefixOf_iff_prefix.mp hpre).trans (List.prefix_append _ t)
    exact ⟨e, he, List.isPrefixOf_iff_prefix.mpr hmore⟩

theorem references_of_not_mem {s : List Char} (h : '&' ∉ s) : x.References s := by
  have hs := references_skip (x := x) h [] trivial
  rwa [List.append_nil] at hs

end Escaping
open Escaping

theorem IsName.references {name : List Char} (h : IsName name) : x.References name :=
  references_of_not_mem fun hmem => absurd (h.2 _ hmem) (by decide)

theorem references_tagText {name : List Char} {attributes : List Attribute} (hn : IsName name)
    (ha : ∀ a ∈ attributes, a.Lexical ∧ x.References a.value) :
    x.References (tagText name attributes) := by
  refine hn.references.append ?_
  induction attributes with
  | nil => trivial
  | cons a attributes ih =>
    obtain ⟨hlexical, hvalue⟩ := ha a List.mem_cons_self
    have hrest := ih fun b hb => ha b (List.mem_cons_of_mem _ hb)
    have hquote : x.References ['"'] := references_of_not_mem (by decide)
    have hname : x.References (a.name ++ '=' :: '"' :: (a.value ++ ['"'])) := by
      refine hlexical.1.references.append ⟨fun h => absurd h (by decide), ?_⟩
      exact ⟨fun h => absurd h (by decide), hvalue.append hquote⟩
    exact References.append ⟨fun h => absurd h (by decide), hname⟩ hrest

theorem formed_nil : Formed x [] :=
  ⟨wellNested_nil, (fun _ he => nomatch he), (fun _ he => nomatch he), trivial⟩

theorem Formed.append {events more : List Event} (h : Formed x events) (hmore : Formed x more) :
    Formed x (events ++ more) where
  nested := h.nested.append hmore.nested
  lexical := List.forall_mem_append.mpr ⟨h.lexical, hmore.lexical⟩
  distinct := List.forall_mem_append.mpr ⟨h.distinct, hmore.distinct⟩
  references := by
    rw [write_append]
    exact h.references.append hmore.references

theorem formed_flatMap {α : Type} {l : List α} {f : α → List Event}
    (h : ∀ a ∈ l, Formed x (f a)) : Formed x (l.flatMap f) := by
  induction l with
  | nil => exact formed_nil
  | cons a l ih =>
    exact (h a List.mem_cons_self).append (ih fun b hb => h b (List.mem_cons_of_mem _ hb))

theorem formed_intercalate {between : List Event} (hbetween : Formed x between)
    {parts : List (List Event)} (h : ∀ part ∈ parts, Formed x part) :
    Formed x (between.intercalate parts) := by
  induction parts with
  | nil => exact formed_nil
  | cons part parts ih =>
    have hpart := h part List.mem_cons_self
    have hrest := ih fun p hp => h p (List.mem_cons_of_mem _ hp)
    cases parts with
    | nil =>
      rw [List.intercalate_singleton]
      exact hpart
    | cons next parts =>
      rw [List.intercalate_cons_cons]
      exact (hpart.append hbetween).append hrest

theorem formed_chars {s : List Char} (hs : Plain s) (href : x.References s) :
    Formed x (chars s) where
  nested := wellNested_chars s
  lexical := by
    intro e he
    obtain ⟨c, hc, rfl⟩ := List.mem_map.mp he
    exact hs c hc
  distinct := by
    intro e he
    obtain ⟨c, -, rfl⟩ := List.mem_map.mp he
    exact List.nodup_nil
  references := by
    rw [write_chars]
    exact href

theorem Formed.element {events : List Event} (h : Formed x events) {name : List Char}
    {attributes : List Attribute} (hn : IsName name)
    (ha : ∀ a ∈ attributes, a.Lexical ∧ x.References a.value)
    (hd : (attributes.map Attribute.name).Nodup) : Formed x (element name attributes events) where
  nested := h.nested.element name attributes
  lexical := by
    intro e he
    rcases List.mem_cons.mp he with rfl | he
    · exact ⟨hn, fun a hmem => (ha a hmem).1⟩
    · rcases List.mem_append.mp he with he | he
      · exact h.lexical e he
      · rw [List.mem_singleton.mp he]
        exact hn
  distinct := by
    intro e he
    rcases List.mem_cons.mp he with rfl | he
    · exact hd
    · rcases List.mem_append.mp he with he | he
      · exact h.distinct e he
      · rw [List.mem_singleton.mp he]
        exact List.nodup_nil
  references := by
    -- the only references of a tag are those of its values
    have hopening : x.References ('<' :: (tagText name attributes ++ ['>'])) :=
      ⟨fun h => absurd h (by decide),
        (references_tagText hn ha).append (references_of_not_mem (by decide))⟩
    have hclosing : x.References ('<' :: ('/' :: name ++ ['>'])) :=
      ⟨fun h => absurd h (by decide), fun h => absurd h (by decide),
        hn.references.append (references_of_not_mem (by decide))⟩
    rw [Markup.element, write_cons, write_append]
    refine References.append hopening (h.references.append ?_)
    rw [write_cons, write_nil, List.append_nil]
    exact hclosing

theorem formed_void {name : List Char} {attributes : List Attribute} (hn : IsName name)
    (ha : ∀ a ∈ attributes, a.Lexical ∧ x.References a.value)
    (hd : (attributes.map Attribute.name).Nodup) : Formed x [.void name attributes] where
  nested := wellNested_void name attributes
  lexical := fun e he => List.mem_singleton.mp he ▸ ⟨hn, fun a hmem => (ha a hmem).1⟩
  distinct := fun e he => List.mem_singleton.mp he ▸ hd
  references := by
    have hvoid : x.References ('<' :: (tagText name attributes ++ [' ', '/'] ++ ['>'])) :=
      ⟨fun h => absurd h (by decide), ((references_tagText hn ha).append
        (references_of_not_mem (by decide))).append (references_of_not_mem (by decide))⟩
    rw [write_cons, write_nil, List.append_nil]
    exact hvoid

/-- A root around formed events makes a document, after the declaration. -/
theorem isDocument_of_formed {before after : List Char} {root : List Char}
    {attributes : List Attribute} {inner : List Event} (h : Formed x inner)
    (hroot : Formed x (element root attributes inner)) (hbefore : before.all isXmlSpace)
    (hafter : after.all isXmlSpace) {document : List Char}
    (hdocument : document = xmlDeclaration ++
      write (chars before ++ element root attributes inner ++ chars after))
    (hchars : ∀ c ∈ document, isXmlChar c = true) : IsDocument x document := by
  -- white space has neither brackets nor references
  have hspace : ∀ s : List Char, s.all isXmlSpace → Plain s ∧ '&' ∉ s := by
    intro s hs
    have hall := List.all_eq_true.mp hs
    refine ⟨fun c hc => ⟨?_, ?_⟩, ?_⟩
    · rintro rfl
      exact absurd (hall _ hc) (by decide)
    · rintro rfl
      exact absurd (hall _ hc) (by decide)
    · intro hc
      exact absurd (hall _ hc) (by decide)
  have hformed : Formed x (chars before ++ element root attributes inner ++ chars after) :=
    ((formed_chars (hspace before hbefore).1
      (references_of_not_mem (hspace before hbefore).2)).append hroot).append
      (formed_chars (hspace after hafter).1 (references_of_not_mem (hspace after hafter).2))
  refine ⟨hchars, ?_, ⟨before, root, attributes, inner, after, _, hdocument,
    read_write hformed.lexical, hbefore, hafter, h.nested, fun e he =>
    ⟨hroot.distinct e he, fun a ha => ?_⟩⟩⟩
  · have hdeclaration : x.References xmlDeclaration := references_of_not_mem (by decide)
    rw [hdocument]
    exact hdeclaration.append hformed.references
  · have hlexical := hroot.lexical e he
    cases e with
    | char c => cases ha
    | opening name attributes => exact (hlexical.2 a ha).2
    | closing name => cases ha
    | void name attributes => exact (hlexical.2 a ha).2

end Parts

/-! ## What the elements of a name hold -/

/-- The characters in each element of a name, in order; `inside` one with what was read of
it, or not. -/
def contentsFrom (name : List Char) : (inside : Option (List Char)) → List Event →
    List (List Char)
  | _, [] => []
  | none, .opening tag _ :: events =>
    if tag = name then contentsFrom name (some []) events else contentsFrom name none events
  | none, _ :: events => contentsFrom name none events
  | some read, .char c :: events => contentsFrom name (some (read ++ [c])) events
  | some read, .closing tag :: events =>
    if tag = name then read :: contentsFrom name none events
    else contentsFrom name (some read) events
  | some read, _ :: events => contentsFrom name (some read) events

def contents (name : List Char) (events : List Event) : List (List Char) :=
  contentsFrom name none events

/-- The events hold so much in elements of a name, and end outside of them. -/
def Holds (name : List Char) (events : List Event) (found : List (List Char)) : Prop :=
  ∀ rest, contentsFrom name none (events ++ rest) = found ++ contentsFrom name none rest

/-- The events end outside of the elements of a name, whatever they hold there. -/
def Settled (name : List Char) (events : List Event) : Prop :=
  Holds name events (contents name events)

section Contents
variable {name tag : List Char} {events more : List Event} {found foundMore : List (List Char)}

theorem Holds.contents (h : Holds name events found) : contents name events = found := by
  have hall := h []
  rw [List.append_nil] at hall
  rw [Markup.contents, hall]
  exact List.append_nil found

theorem Holds.settled (h : Holds name events found) : Settled name events := by
  rw [Settled, h.contents]
  exact h

theorem holds_nil : Holds name [] [] := fun _ => rfl

theorem Holds.append (h : Holds name events found) (hmore : Holds name more foundMore) :
    Holds name (events ++ more) (found ++ foundMore) := by
  intro rest
  rw [List.append_assoc, h, hmore, List.append_assoc]

theorem holds_chars (s : List Char) : Holds name (chars s) [] := by
  intro rest
  induction s with
  | nil => rfl
  | cons c s ih => exact ih

theorem holds_void (attributes : List Attribute) : Holds name [.void tag attributes] [] :=
  fun _ => rfl

theorem Holds.element (h : Holds name events found) (htag : tag ≠ name)
    (attributes : List Attribute) : Holds name (element tag attributes events) found := by
  intro rest
  rw [Markup.element, List.cons_append, List.append_assoc, contentsFrom, if_neg htag, h]
  rfl

/-- An element of characters holds its characters, if it has the name. -/
theorem holds_leaf (s : List Char) (attributes : List Attribute) :
    Holds name (element tag attributes (chars s)) (if tag = name then [s] else []) := by
  split
  · next htag =>
    subst htag
    have hread : ∀ (read : List Char) (events : List Event),
        contentsFrom tag (some read) (chars s ++ events) =
          contentsFrom tag (some (read ++ s)) events := by
      induction s with
      | nil =>
        intro read events
        rw [List.append_nil]
        rfl
      | cons c s ih =>
        intro read events
        show contentsFrom tag (some (read ++ [c])) (chars s ++ events) = _
        rw [ih, List.append_assoc]
        rfl
    intro rest
    rw [Markup.element, List.cons_append, List.append_assoc, contentsFrom, if_pos rfl, hread,
      List.singleton_append, contentsFrom, if_pos rfl]
    rfl
  · next htag => exact (holds_chars s).element htag attributes

theorem holds_flatMap {α : Type} {l : List α} {f : α → List Event} {g : α → List (List Char)}
    (h : ∀ a ∈ l, Holds name (f a) (g a)) : Holds name (l.flatMap f) (l.flatMap g) := by
  induction l with
  | nil => exact holds_nil
  | cons a l ih =>
    exact (h a List.mem_cons_self).append (ih fun b hb => h b (List.mem_cons_of_mem _ hb))

/-- Parts hold what each of them holds, with something without such elements between them. -/
theorem holds_intercalate {α : Type} {between : List Event} (hbetween : Holds name between [])
    {l : List α} {f : α → List Event} {g : α → List (List Char)}
    (h : ∀ a ∈ l, Holds name (f a) (g a)) :
    Holds name (between.intercalate (l.map f)) (l.flatMap g) := by
  induction l with
  | nil => exact holds_nil
  | cons a l ih =>
    have ha := h a List.mem_cons_self
    have hl := ih fun b hb => h b (List.mem_cons_of_mem _ hb)
    cases l with
    | nil =>
      simpa using ha
    | cons b l =>
      rw [List.map_cons, List.map_cons, List.intercalate_cons_cons, List.flatMap_cons]
      have hfirst := (ha.append hbetween).append hl
      rwa [List.append_nil] at hfirst

end Contents

theorem write_intercalate (between : List Event) (parts : List (List Event)) :
    write (between.intercalate parts) = (write between).intercalate (parts.map write) := by
  induction parts with
  | nil => rfl
  | cons part parts ih =>
    cases parts with
    | nil => simp
    | cons next parts =>
      rw [List.intercalate_cons_cons, write_append, write_append, ih, List.map_cons, List.map_cons,
        List.map_cons, List.intercalate_cons_cons]

end Markup
