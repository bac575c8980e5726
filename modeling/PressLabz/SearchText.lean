import PressLabz.ContentSchemas
import PressLabz.Words

/-! # What a search looks through

`blocksToPlainText` of `packages/blocks/src/render.ts` and `presslabz_blocks_text` of the
migration `0008_terms_invariants_and_search.sql`: one rule, written once over the block types
and once as a descent into any JSON.  What both find is the texts of a document; they differ
in how they put the runs of one inline content together.
-/
namespace PressLabz
open Words

/-! ## The two extractors -/

def inlineToPlainText (content : InlineContent) : String :=
  String.join (content.map (·.text))

/-- What a block adds to the plain text. -/
def plainParts : Block → List String
  | .paragraph _ content | .heading _ _ content => [inlineToPlainText content]
  | .quote _ content attribution =>
    inlineToPlainText content :: (attribution.filter (· ≠ "")).toList
  | .list _ _ items => items.map inlineToPlainText
  | .code _ _ code => [code]
  | .image _ _ caption => (caption.map inlineToPlainText).toList
  | .divider _ => []

def blocksToPlainText (blocks : Blocks) : String :=
  "\n".intercalate ((blocks.flatMap plainParts).filter (· ≠ ""))

/-- The member accessor; what is not an object has no members. -/
def Json.member (key : String) : Json → List Json
  | .object fields => (fields.lookup key).toList
  | _ => []

def Json.children : Json → List Json
  | .array items => items
  | .object fields => fields.map (·.2)
  | _ => []

/-- `strict $.**{0 to levels}.key`: a value before what is below it. -/
def Json.collect (key : String) : (levels : Nat) → Json → List Json
  | 0, value => value.member key
  | levels + 1, value => value.member key ++ value.children.flatMap (Json.collect key levels)

/-- `jsonb_array_elements_text`; a value that is not a string is printed. -/
def Json.elementText (printed : Json → String) : Json → Option String
  | .null => none
  | .string s => some s
  | value => some (printed value)

/-- `presslabz_blocks_text`; `string_agg` passes over nulls. -/
def presslabzBlocksText (printed : Json → String) (blocks : Json) : String :=
  " ".intercalate ((blocks.collect "text" 6 ++ blocks.collect "code" 6 ++
    blocks.collect "attribution" 6).filterMap (Json.elementText printed))

/-! ## The pieces of a document -/

/-- The texts of a block that are read in one go, each in the pieces it is stored in. -/
def Block.stretches : Block → List (List String)
  | .paragraph _ content | .heading _ _ content => [content.map (·.text)]
  | .quote _ content attribution => content.map (·.text) :: attribution.toList.map ([·])
  | .list _ _ items => items.map fun item => item.map (·.text)
  | .code _ _ text => [[text]]
  | .image _ _ caption => caption.toList.map fun content => content.map (·.text)
  | .divider _ => []

/-- The letters and digits; the separators of the two extractors are not among them. -/
structure WordCharacters where
  isWord : Char → Bool
  space : isWord ' ' = false
  newline : isWord '\n' = false

section Extractors
variable (kind : WordCharacters)

def wordsOf (text : String) : List (List Char) := words kind.isWord text.toList

/-- The words of a document, each in the parts that the ends of the nodes make of it. -/
def wordsInParts (blocks : Blocks) : List (List (List Char)) :=
  (blocks.flatMap Block.stretches).flatMap fun stretch =>
    cutWords kind.isWord (stretch.map String.toList)

/-- A word that one of the two returns, the other returns. -/
def SameWords (printed : Json → String) (blocks : Blocks) : Prop :=
  ∀ word, word ∈ wordsOf kind (blocksToPlainText blocks) ↔
    word ∈ wordsOf kind (presslabzBlocksText printed (blocksToJson blocks))

/-- Every word that runs over the end of a node also stands between two such ends somewhere,
and each part of it is also a word. -/
def CutsRepeated (blocks : Blocks) : Prop :=
  ∀ word ∈ wordsInParts kind blocks, 2 ≤ word.length →
    (∃ other ∈ wordsInParts kind blocks, word.flatten ∈ other) ∧
    ∀ part ∈ word, ∃ other ∈ wordsInParts kind blocks, part = other.flatten

/-! ## The plain text -/

theorem words_nonempty_parts (parts : List String) :
    (parts.filter (· ≠ "")).flatMap (wordsOf kind) = parts.flatMap (wordsOf kind) := by
  induction parts with
  | nil => rfl
  | cons part parts ih =>
    by_cases hpart : part = ""
    · subst hpart
      exact ih
    · rw [List.filter_cons_of_pos (by simpa using hpart), List.flatMap_cons, ih, List.flatMap_cons]

theorem wordsOf_join (sep : String) (c : Char) (hsep : sep.toList = [c])
    (hc : kind.isWord c = false) (parts : List String) :
    wordsOf kind (sep.intercalate parts) = parts.flatMap (wordsOf kind) := by
  rw [wordsOf, String.toList_intercalate, hsep, words_intercalate hc, List.flatMap_map]
  rfl

theorem words_plainParts (block : Block) : (plainParts block).flatMap (wordsOf kind) =
    block.stretches.flatMap fun stretch =>
      (cutWords kind.isWord (stretch.map String.toList)).map List.flatten := by
  have hinline : ∀ content : InlineContent, wordsOf kind (inlineToPlainText content) =
      (cutWords kind.isWord ((content.map (·.text)).map String.toList)).map List.flatten := by
    intro content
    rw [map_flatten_cutWords, wordsOf, inlineToPlainText, String.toList_join, List.flatMap_def]
  have hone : ∀ text : String, wordsOf kind text =
      (cutWords kind.isWord ([text].map String.toList)).map List.flatten := by
    intro text
    rw [map_flatten_cutWords]
    simp [wordsOf]
  cases block with
  | paragraph id content => simp [plainParts, Block.stretches, hinline]
  | heading id level content => simp [plainParts, Block.stretches, hinline]
  | quote id content attribution =>
    -- an attribution that is empty has no words, whether it is passed over or not
    have hgiven : (attribution.filter (· ≠ "")).toList.flatMap (wordsOf kind) =
        attribution.toList.flatMap (wordsOf kind) := by
      rw [Option.toList_filter, words_nonempty_parts]
    rw [plainParts, Block.stretches, List.flatMap_cons, List.flatMap_cons, hinline, hgiven,
      List.flatMap_map]
    congr 2
    funext text
    exact hone text
  | list id ordered items =>
    rw [plainParts, Block.stretches, List.flatMap_map, List.flatMap_map]
    congr 1
    funext item
    exact hinline item
  | code id language text =>
    rw [plainParts, Block.stretches, List.flatMap_singleton, List.flatMap_singleton]
    exact hone text
  | image id mediaId caption =>
    cases caption with
    | none => rfl
    | some caption => simp [plainParts, Block.stretches, hinline]
  | divider id => rfl

theorem words_blocksToPlainText (blocks : Blocks) :
    wordsOf kind (blocksToPlainText blocks) = (wordsInParts kind blocks).map List.flatten := by
  rw [blocksToPlainText, wordsOf_join kind "\n" '\n' rfl kind.newline, words_nonempty_parts,
    wordsInParts, List.map_flatMap, List.flatMap_assoc, List.flatMap_assoc]
  congr 1
  funext block
  exact words_plainParts kind block

end Extractors

/-! ## The descent -/

theorem collect_leaf (key : String) (levels : Nat) {value : Json} (hmember : value.member key = [])
    (hchildren : value.children = []) : value.collect key levels = [] := by
  cases levels with
  | zero => exact hmember
  | succ levels => rw [Json.collect, hmember, hchildren, List.flatMap_nil, List.append_nil]

theorem collect_array (key : String) (levels : Nat) (items : List Json) :
    (Json.array items).collect key (levels + 1) = items.flatMap (Json.collect key levels) := rfl

theorem collect_object (key : String) (levels : Nat) (fields : List (String × Json)) :
    (Json.object fields).collect key (levels + 1) =
      (fields.lookup key).toList ++ (fields.map (·.2)).flatMap (Json.collect key levels) := rfl

@[simp] theorem collect_string (key : String) (levels : Nat) (s : String) :
    (Json.string s).collect key levels = [] :=
  collect_leaf key levels rfl rfl

@[simp] theorem collect_bool (key : String) (levels : Nat) (b : Bool) :
    (Json.bool b).collect key levels = [] :=
  collect_leaf key levels rfl rfl

@[simp] theorem collect_number (key : String) (levels : Nat) (n : Int) :
    (Json.number n).collect key levels = [] :=
  collect_leaf key levels rfl rfl

@[simp] theorem collect_uuid (key : String) (levels : Nat) (text : UuidText) :
    (Json.uuid text).collect key levels = [] :=
  collect_leaf key levels rfl rfl

/-- The keys the descent looks for. -/
def searchedKeys : List String := ["text", "code", "attribution"]

/-- A mark has none of the keys that the descent looks for. -/
theorem collect_mark {key : String} (hkey : key ∈ searchedKeys) (levels : Nat) (mark : Mark) :
    mark.toJson.collect key levels = [] := by
  have hmember : mark.toJson.member key = [] := by
    simp only [searchedKeys, List.mem_cons, List.not_mem_nil, or_false] at hkey
    cases mark with
    | link href newTab =>
      rcases hkey with rfl | rfl | rfl <;>
        cases newTab <;> simp [Mark.toJson, Json.member, presentKey, List.lookup_cons]
    | _ =>
      rcases hkey with rfl | rfl | rfl <;> simp [Mark.toJson, Json.member, List.lookup_cons]
  cases levels with
  | zero => exact hmember
  | succ levels =>
    rw [Json.collect, hmember, List.nil_append]
    cases mark with
    | link href newTab => cases newTab <;> simp [Mark.toJson, Json.children, presentKey]
    | _ => simp [Mark.toJson, Json.children]

theorem collect_marks {key : String} (hkey : key ∈ searchedKeys) (levels : Nat)
    (marks : List Mark) : (Json.array (marks.map Mark.toJson)).collect key levels = [] := by
  cases levels with
  | zero => rfl
  | succ levels =>
    rw [collect_array, List.flatMap_map]
    exact List.flatMap_eq_nil_iff.mpr fun mark _ => collect_mark hkey levels mark

/-- A node has its text under its key and nothing below it, at any depth. -/
theorem collect_node {key : String} (hkey : key ∈ searchedKeys) (levels : Nat)
    (node : InlineNode) : node.toJson.collect key levels =
      if key = "text" then [.string node.text] else [] := by
  have hmember : node.toJson.member key = if key = "text" then [.string node.text] else [] := by
    simp only [searchedKeys, List.mem_cons, List.not_mem_nil, or_false] at hkey
    rcases hkey with rfl | rfl | rfl <;> cases hmarks : node.marks <;>
      simp [InlineNode.toJson, Json.member, presentKey, List.lookup_cons, hmarks]
  cases levels with
  | zero => exact hmember
  | succ levels =>
    have hbelow : node.toJson.children.flatMap (Json.collect key levels) = [] := by
      cases hmarks : node.marks with
      | none => simp [InlineNode.toJson, Json.children, presentKey, hmarks]
      | some marks =>
        simp [InlineNode.toJson, Json.children, presentKey, hmarks, collect_marks hkey]
    rw [Json.collect, hmember, hbelow, List.append_nil]

theorem collect_inline {key : String} (hkey : key ∈ searchedKeys) (levels : Nat)
    (content : InlineContent) : (inlineToJson content).collect key (levels + 1) =
      if key = "text" then content.map fun node => .string node.text else [] := by
  rw [inlineToJson, collect_array, List.flatMap_map]
  have hnode : (fun node : InlineNode => node.toJson.collect key levels) =
      fun node => if key = "text" then [Json.string node.text] else [] :=
    funext fun node => collect_node hkey levels node
  rw [hnode]
  split
  · rw [List.map_eq_flatMap]
  · exact List.flatMap_eq_nil_iff.mpr fun _ _ => rfl

/-- What the descent finds in a block are its pieces. -/
theorem found_block (levels : Nat) (block : Block) :
    searchedKeys.flatMap (fun key => block.toJson.collect key (levels + 3)) =
      block.stretches.flatten.map .string := by
  have htext : ∀ (levels : Nat) (content : InlineContent),
      (inlineToJson content).collect "text" (levels + 1) =
        content.map fun node => .string node.text :=
    fun levels content => collect_inline (by decide) levels content
  have hcode : ∀ (levels : Nat) (content : InlineContent),
      (inlineToJson content).collect "code" (levels + 1) = [] :=
    fun levels content => collect_inline (by decide) levels content
  have hattribution : ∀ (levels : Nat) (content : InlineContent),
      (inlineToJson content).collect "attribution" (levels + 1) = [] :=
    fun levels content => collect_inline (by decide) levels content
  cases block with
  | paragraph id content =>
    simp [searchedKeys, Block.toJson, collect_object, List.lookup_cons, htext, hcode,
      hattribution, Block.stretches]
  | heading id level content =>
    simp [searchedKeys, Block.toJson, collect_object, List.lookup_cons, htext, hcode,
      hattribution, Block.stretches]
  | quote id content attribution =>
    cases attribution <;>
      simp [searchedKeys, Block.toJson, collect_object, List.lookup_cons, htext, hcode,
        hattribution, Block.stretches, presentKey]
  | list id ordered items =>
    simp [searchedKeys, Block.toJson, collect_object, collect_array, List.lookup_cons, htext,
      hcode, hattribution, Block.stretches, List.flatMap_def, Function.comp_def]
  | code id language text =>
    cases language <;>
      simp [searchedKeys, Block.toJson, collect_object, List.lookup_cons, Block.stretches,
        presentKey]
  | image id mediaId caption =>
    cases caption <;>
      simp [searchedKeys, Block.toJson, collect_object, List.lookup_cons, htext, hcode,
        hattribution, Block.stretches, presentKey]
  | divider id => simp [searchedKeys, Block.toJson, collect_object, List.lookup_cons,
      Block.stretches]

section Agreement
variable (kind : WordCharacters) (printed : Json → String)

theorem flatten_wordsInParts (blocks : Blocks) : (wordsInParts kind blocks).flatten =
    (blocks.flatMap Block.stretches).flatten.flatMap (wordsOf kind) := by
  rw [wordsInParts]
  induction blocks.flatMap Block.stretches with
  | nil => rfl
  | cons stretch rest ih =>
    rw [List.flatMap_cons, List.flatten_append, flatten_cutWords, ih, List.flatten_cons,
      List.flatMap_append, List.flatMap_map]
    rfl

/-- What the descent finds in a document are its pieces. -/
theorem mem_found (blocks : Blocks) (value : Json) :
    value ∈ (blocksToJson blocks).collect "text" 6 ++ (blocksToJson blocks).collect "code" 6 ++
        (blocksToJson blocks).collect "attribution" 6 ↔
      ∃ text ∈ (blocks.flatMap Block.stretches).flatten, .string text = value := by
  have hcollect : ∀ key, (blocksToJson blocks).collect key 6 =
      blocks.flatMap fun block => block.toJson.collect key 5 := by
    intro key
    rw [blocksToJson, collect_array, List.flatMap_map]
  have hblock : ∀ block : Block, value ∈ block.stretches.flatten.map Json.string ↔
      value ∈ block.toJson.collect "text" 5 ∨ value ∈ block.toJson.collect "code" 5 ∨
        value ∈ block.toJson.collect "attribution" 5 := by
    intro block
    rw [← found_block 2 block]
    simp [searchedKeys]
  constructor
  · intro hvalue
    simp only [hcollect, List.mem_append, List.mem_flatMap] at hvalue
    obtain ⟨block, hmem, hfound⟩ : ∃ block ∈ blocks,
        value ∈ block.stretches.flatten.map Json.string := by
      rcases hvalue with (⟨block, hmem, h⟩ | ⟨block, hmem, h⟩) | ⟨block, hmem, h⟩
      · exact ⟨block, hmem, (hblock block).mpr (Or.inl h)⟩
      · exact ⟨block, hmem, (hblock block).mpr (Or.inr (Or.inl h))⟩
      · exact ⟨block, hmem, (hblock block).mpr (Or.inr (Or.inr h))⟩
    obtain ⟨text, htext, rfl⟩ := List.mem_map.mp hfound
    obtain ⟨stretch, hstretch, hin⟩ := List.mem_flatten.mp htext
    exact ⟨text, List.mem_flatten.mpr ⟨stretch, List.mem_flatMap.mpr ⟨block, hmem, hstretch⟩, hin⟩,
      rfl⟩
  · rintro ⟨text, htext, rfl⟩
    obtain ⟨stretch, hstretch, hin⟩ := List.mem_flatten.mp htext
    obtain ⟨block, hmem, hof⟩ := List.mem_flatMap.mp hstretch
    have hfound := (hblock block).mp
      (List.mem_map_of_mem (List.mem_flatten.mpr ⟨stretch, hof, hin⟩))
    simp only [hcollect, List.mem_append, List.mem_flatMap]
    rcases hfound with h | h | h
    · exact Or.inl (Or.inl ⟨block, hmem, h⟩)
    · exact Or.inl (Or.inr ⟨block, hmem, h⟩)
    · exact Or.inr ⟨block, hmem, h⟩

theorem mem_words_presslabzBlocksText (blocks : Blocks) (word : List Char) :
    word ∈ wordsOf kind (presslabzBlocksText printed (blocksToJson blocks)) ↔
      word ∈ (wordsInParts kind blocks).flatten := by
  rw [presslabzBlocksText, wordsOf_join kind " " ' ' rfl kind.space, flatten_wordsInParts]
  constructor
  · intro hword
    obtain ⟨text, htext, hin⟩ := List.mem_flatMap.mp hword
    obtain ⟨value, hvalue, hof⟩ := List.mem_filterMap.mp htext
    obtain ⟨piece, hpiece, rfl⟩ := (mem_found blocks value).mp hvalue
    have hsame : piece = text := Option.some.inj hof
    exact List.mem_flatMap.mpr ⟨piece, hpiece, by rw [hsame]; exact hin⟩
  · intro hword
    obtain ⟨piece, hpiece, hin⟩ := List.mem_flatMap.mp hword
    refine List.mem_flatMap.mpr ⟨piece, List.mem_filterMap.mpr ⟨.string piece, ?_, rfl⟩, hin⟩
    exact (mem_found blocks _).mpr ⟨piece, hpiece, rfl⟩

/-- **The two extractors** return the same words unless a node ends within one. -/
theorem same_words_iff (blocks : Blocks) :
    SameWords kind printed blocks ↔ CutsRepeated kind blocks := by
  have hne : ∀ w ∈ wordsInParts kind blocks, w ≠ [] := by
    intro w hw
    obtain ⟨stretch, -, hcut⟩ := List.mem_flatMap.mp hw
    exact cutWordsFrom_ne_nil hcut
  have hsame : SameWords kind printed blocks ↔
      ∀ v, v ∈ (wordsInParts kind blocks).map List.flatten ↔
        v ∈ (wordsInParts kind blocks).flatten := by
    simp only [SameWords, words_blocksToPlainText, mem_words_presslabzBlocksText]
  rw [hsame, cuts_agree_iff hne]
  simp only [CutsRepeated, List.mem_flatten, List.mem_map, eq_comm]

end Agreement

/-! ## A word with a bold half -/

/-- The letters and digits of ASCII. -/
def asciiWords : WordCharacters where
  isWord := Char.isAlphanum
  space := rfl
  newline := rfl

def halfBold : Block :=
  .paragraph (Uuid.text 1) [⟨"Press", none⟩, ⟨"Labz", some [.bold]⟩]

theorem half_bold_differs : blocksAreValid (fun _ => true) [halfBold] = true ∧
    ∀ printed, ¬ SameWords asciiWords printed [halfBold] := by
  refine ⟨by decide +kernel, fun printed h => ?_⟩
  have hplain : "PressLabz".toList ∈ wordsOf asciiWords (blocksToPlainText [halfBold]) := by
    decide +kernel
  have hfound := (mem_words_presslabzBlocksText asciiWords printed [halfBold] _).mp
    ((h _).mp hplain)
  revert hfound
  decide +kernel

end PressLabz
