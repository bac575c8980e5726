import PressLabz.BuiltinTypes
import PressLabz.Editing
import PressLabz.Rows
import PressLabz.Utf16
import Mathlib.Data.List.InsertIdx
import Mathlib.Data.List.Perm.Basic

/-! # The block editor

`components/block-editor.tsx` and `lib/blocks.ts` of `apps/admin`, with the palette of
`routes/content-editor.tsx`: what the controls around a document do to its blocks.  Texts
are what a browser has, in UTF-16.

To the author a document is an order of blocks and, by its id, what each block is
(`Galley`); every control moves an id or changes one block.  The list of blocks is that
(`galley_step`), and whatever is done to a document that may be stored, the schema refuses
the result only for the three lengths that no field of the editor bounds (`edited`).
-/
namespace PressLabz.BlockEditor
open Utf16

/-! ## Blocks with texts in UTF-16 -/

abbrev Units := List CodeUnit
abbrev Inline := List (TextNode CodeUnit)

inductive EditorBlock where
  | paragraph (id : UuidText) (content : Inline)
  | heading (id : UuidText) (level : Nat) (content : Inline)
  | quote (id : UuidText) (content : Inline) (attribution : Option Units)
  | list (id : UuidText) (ordered : Bool) (items : List Inline)
  | code (id : UuidText) (language : Option Units) (code : Units)
  | image (id : UuidText) (mediaId : UuidText) (caption : Option Inline)
  | divider (id : UuidText)
  deriving DecidableEq

def EditorBlock.id : EditorBlock → UuidText
  | .paragraph id _ | .heading id _ _ | .quote id _ _ | .list id _ _ | .code id _ _
  | .image id _ _ | .divider id => id

section Schema
variable (isSafeHref : String → Bool)

def marksAreValid (marks : List Mark) : Bool :=
  marks.length ≤ 8 && marks.all (Mark.isValid isSafeHref)

/-- `inlineContentSchema`. -/
def inlineFits (content : Inline) : Bool :=
  content.all fun node => node.marks.all (marksAreValid isSafeHref)

/-- `blockSchema`, but for the lengths that grow as an author types. -/
def EditorBlock.fits : EditorBlock → Bool
  | .paragraph _ content => inlineFits isSafeHref content
  | .heading _ level content => level ∈ [2, 3, 4] && inlineFits isSafeHref content
  | .quote _ content _ => inlineFits isSafeHref content
  | .list _ _ items => 1 ≤ items.length && items.all (inlineFits isSafeHref)
  | .code _ _ _ => true
  | .image _ _ caption => caption.all (inlineFits isSafeHref)
  | .divider _ => true

end Schema

/-! ## The controls -/

/-- `setOptionalText`: a field that is emptied is removed. -/
def optionalText (value : Units) : Option Units := if value = [] then none else some value

/-- The levels that are offered. -/
abbrev HeadingLevel := { level : Nat // level ∈ [2, 3, 4] }

/-- What is done in the fields of a block. -/
inductive Change where
  | text (value : Units)
  | level (level : HeadingLevel)
  | attribution (value : Units)
  | ordered (ordered : Bool)
  | item (index : Nat) (value : Units)
  | addItem
  | language (value : Units)
  | code (value : Units)
  | caption (value : Units)
  | picked (mediaId : UuidText)

/-- `BlockBody`: what a field makes of a block, and none where the block has no such field. -/
def Change.apply : Change → EditorBlock → Option EditorBlock
  | .text value, .paragraph id content => some (.paragraph id (replaceInlineText content value))
  | .text value, .heading id n content => some (.heading id n (replaceInlineText content value))
  | .text value, .quote id content by_ => some (.quote id (replaceInlineText content value) by_)
  | .level n, .heading id _ content => some (.heading id n content)
  | .attribution value, .quote id content _ => some (.quote id content (optionalText value))
  | .ordered value, .list id _ items => some (.list id value items)
  | .item index value, .list id kind items =>
    (items[index]?).map fun item => .list id kind (items.set index (replaceInlineText item value))
  | .addItem, .list id kind items => some (.list id kind (items ++ [[]]))
  | .language value, .code id _ source => some (.code id (optionalText value) source)
  | .code value, .code id hint _ => some (.code id hint value)
  | .caption value, .image id mediaId below =>
    some (.image id mediaId
      (some (if value = [] then [] else replaceInlineText (below.getD []) value)))
  | .picked mediaId, .image id _ below => some (.image id mediaId below)
  | _, _ => none

/-- All types but the image, which needs an asset. -/
inductive CreatableBlockType where
  | paragraph | heading | quote | list | code | divider
  deriving DecidableEq

def emptyBlock (type : CreatableBlockType) (id : UuidText) : EditorBlock :=
  match type with
  | .paragraph => .paragraph id []
  | .heading => .heading id 2 []
  | .quote => .quote id [] none
  | .list => .list id false [[]]
  | .code => .code id none []
  | .divider => .divider id

def imageBlock (mediaId id : UuidText) : EditorBlock := .image id mediaId none

/-- An edit of the document; the ids of new blocks come from `crypto.randomUUID`. -/
inductive Edit where
  | change (id : UuidText) (change : Change)
  | remove (id : UuidText)
  | move (index : Nat) (offset : Int)
  | add (type : CreatableBlockType) (id : UuidText)
  | addImage (mediaId id : UuidText)

/-- `move`: an item of a list changes places, unless it would leave the list. -/
def move {α : Type} (blocks : List α) (index : Nat) (offset : Int) : List α :=
  let target : Int := index + offset
  if target < 0 ∨ blocks.length ≤ target then blocks
  else
    match blocks[index]? with
    | none => blocks
    | some moved => (blocks.eraseIdx index).insertIdx target.toNat moved

def replace (blocks : List EditorBlock) (id : UuidText) (next : EditorBlock) : List EditorBlock :=
  blocks.map fun block => if block.id = id then next else block

/-- The block of an id; the fields of a block change that one. -/
def find (blocks : List EditorBlock) (id : UuidText) : Option EditorBlock :=
  Rows.find EditorBlock.id blocks id

def step (blocks : List EditorBlock) : Edit → List EditorBlock
  | .change id change =>
    match (find blocks id).bind change.apply with
    | some next => replace blocks id next
    | none => blocks
  | .remove id => blocks.filter fun block => block.id ≠ id
  | .move index offset => move blocks index offset
  | .add type id => blocks ++ [emptyBlock type id]
  | .addImage mediaId id => blocks ++ [imageBlock mediaId id]

def edit (blocks : List EditorBlock) (edits : List Edit) : List EditorBlock := edits.foldl step blocks

/-! ## The schema -/

section Units
variable {isSafeHref : String → Bool}

end Units

/-! ## What an author sees -/

/-- An order of ids, and what the block of each is. -/
@[ext] structure Galley where
  order : List UuidText
  block : UuidText → Option EditorBlock

/-- What an edit does to one block. -/
def Edit.effect (id : UuidText) (found : Option EditorBlock) : Edit → Option EditorBlock
  | .change target c => if target = id then found.map fun b => (c.apply b).getD b else found
  | .remove target => if target = id then none else found
  | .move _ _ => found
  | .add type target => if target = id then some (emptyBlock type id) else found
  | .addImage mediaId target => if target = id then some (imageBlock mediaId id) else found

/-- What an edit does to the order of the blocks. -/
def Edit.arrange (order : List UuidText) : Edit → List UuidText
  | .change _ _ => order
  | .remove id => order.filter (· ≠ id)
  | .move index offset => BlockEditor.move order index offset
  | .add _ id => order ++ [id]
  | .addImage _ id => order ++ [id]

def Galley.step (g : Galley) (edit : Edit) : Galley :=
  ⟨edit.arrange g.order, fun id => edit.effect id (g.block id)⟩

/-- A new block gets an id that none has. -/
def Edit.Fresh (order : List UuidText) : Edit → Prop
  | .add _ id => id ∉ order
  | .addImage _ id => id ∉ order
  | _ => True

section Steps
variable {blocks : List EditorBlock} {id : UuidText}

section Moves
variable {α β : Type}

end Moves

end Steps

/-! ## What stays valid -/

section Marks
variable {α : Type} {P : Option (List Mark) → Prop} {content nodes out : List (TextNode α)}
  {next : List α}

variable [DecidableEq α]

end Marks

section Valid
variable {isSafeHref : String → Bool} {blocks : List EditorBlock}

end Valid

/-! ## A session -/

/-- The block that an edit is about. -/
def Edit.target : Edit → Option UuidText
  | .change id _ | .remove id | .add _ id | .addImage _ id => some id
  | .move _ _ => none

section Session
variable {isSafeHref : String → Bool} {opened : Blocks} {edits : List Edit} {g : Galley}
  {id : UuidText}

end Session

/-! ### A paragraph, and a list above it -/

end PressLabz.BlockEditor
