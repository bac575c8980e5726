import Mathlib.Data.List.Chain
import Mathlib.Order.Bounds.Basic
import PressLabz.ContentTypes
import PressLabz.Segments

/-! # Editing text that carries marks

`packages/blocks/src/editing.ts`: what a plain-text edit makes of inline content.  An edit
is a splice: the characters before the change and after it keep their marks, and what is
inserted inherits those of the node the change stayed in.

A string of the source is a sequence of UTF-16 code units.  Everything here is about
sequences of characters of any type with a decidable equality, which includes those; so a
character is what the source indexes.  A node is an object, and `===` tells two of them
apart by where they stand.
-/
namespace PressLabz
open Segments

/-- An `InlineNode` whose text is a sequence of characters. -/
structure TextNode (α : Type) where
  text : List α
  marks : Option (List Mark)
  deriving DecidableEq

/-- A character of a JavaScript string. -/
abbrev CodeUnit := UInt16

section Source
variable {α : Type}

def inlineToText (content : List (TextNode α)) : List α := content.flatMap (·.text)

/-- The nodes covering a range of the plain text, split at its edges; the list at hand
begins at `offset`. -/
def sliceAt (first last : Nat) : Nat → List (TextNode α) → List (TextNode α)
  | _, [] => []
  | offset, node :: rest =>
    let stop := offset + node.text.length
    let cutFrom := max first offset
    let cutTo := min last stop
    if cutFrom ≥ cutTo then sliceAt first last stop rest
    else { node with text := node.text.extract (cutFrom - offset) (cutTo - offset) } ::
      sliceAt first last stop rest

def slice (content : List (TextNode α)) (first last : Nat) : List (TextNode α) :=
  sliceAt first last 0 content

/-- The node covering an offset, with its position; the list at hand begins at position
`index` and at `start`. -/
def nodeFrom (offset : Nat) : Nat → Nat → List (TextNode α) → Option (Nat × TextNode α)
  | _, _, [] => none
  | index, start, node :: rest =>
    let stop := start + node.text.length
    if start ≤ offset ∧ offset < stop then some (index, node)
    else nodeFrom offset (index + 1) stop rest

def nodeAt (content : List (TextNode α)) (offset : Nat) : Option (Nat × TextNode α) :=
  nodeFrom offset 0 0 content

/-- Two marks have the same JSON when they are the same. -/
def sameMarks (left right : TextNode α) : Bool := left.marks.getD [] = right.marks.getD []

/-- One turn of the `for` of `merge`, over what it has put out, the last node first. -/
def mergeNode (out : List (TextNode α)) (node : TextNode α) : List (TextNode α) :=
  if node.text.isEmpty then out
  else
    match out with
    | [] => [node]
    | last :: earlier =>
      if sameMarks last node then { last with text := last.text ++ node.text } :: earlier
      else node :: last :: earlier

/-- Joins adjacent nodes that carry the same marks. -/
def merge (nodes : List (TextNode α)) : List (TextNode α) := (nodes.foldl mergeNode []).reverse

/-- What is inserted in place of `[removedFrom, removedTo)`. -/
def insertedNode (content : List (TextNode α)) (removedFrom removedTo : Nat)
    (inserted : List α) : List (TextNode α) :=
  if inserted.isEmpty then []
  else
    let anchor :=
      if removedFrom = removedTo then nodeAt content (removedFrom - 1)
      else nodeAt content removedFrom
    match anchor with
    | none => [⟨inserted, none⟩]
    | some (index, node) =>
      let spansOneNode := (nodeAt content (removedTo - 1)).map Prod.fst = some index
      if spansOneNode then [⟨inserted, node.marks⟩] else [⟨inserted, none⟩]

variable [DecidableEq α]

/-- How much of the two strings is identical from the start. -/
def commonPrefix : List α → List α → Nat
  | a :: before, b :: after => if a = b then commonPrefix before after + 1 else 0
  | _, _ => 0

/-- How much is identical from the end, without overlapping the first `shared`. -/
def commonSuffix (before after : List α) (shared : Nat) : Nat :=
  let limit := min before.length after.length - shared
  commonPrefix (before.reverse.take limit) (after.reverse.take limit)

/-- The content after a plain-text edit, with every mark outside the change kept. -/
def replaceInlineText (content : List (TextNode α)) (next : List α) : List (TextNode α) :=
  let before := inlineToText content
  if before = next then content
  else if next.isEmpty then []
  else if content.isEmpty then [⟨next, none⟩]
  else
    let shared := commonPrefix before next
    let suffix := commonSuffix before next shared
    let removedTo := before.length - suffix
    let inserted := next.extract shared (next.length - suffix)
    merge (slice content 0 shared ++ insertedNode content shared removedTo inserted ++
      slice content removedTo before.length)

end Source

/-! ## Marked characters -/

section Marked
variable {α : Type} {content nodes out : List (TextNode α)} {node : TextNode α}

/-- The marks of a node; none are an empty list. -/
def TextNode.mark (node : TextNode α) : List Mark := node.marks.getD []

/-- The characters of a content, each with its marks. -/
def marked (content : List (TextNode α)) : List (α × List Mark) :=
  spread TextNode.text TextNode.mark content

theorem marked_text : (marked content).map Prod.fst = inlineToText content := spread_text

theorem length_marked : (marked content).length = (inlineToText content).length := length_spread

theorem marked_append : marked (content ++ nodes) = marked content ++ marked nodes :=
  spread_append

theorem marked_cons : marked (node :: nodes) = node.text.map (·, node.mark) ++ marked nodes :=
  spread_cons

/-- The piece that a range cuts out of a node is what is left between the two cuts. -/
theorem extract_cut (text : List α) (first last offset : Nat) :
    text.extract (max first offset - offset) (min last (offset + text.length) - offset) =
      (text.take (last - offset)).drop (first - offset) := by
  have hfrom : max first offset - offset = first - offset := by omega
  rw [List.extract_eq_take_drop, hfrom, List.drop_take, List.take_eq_take_iff, List.length_drop]
  omega

theorem marked_sliceAt (first last offset : Nat) : marked (sliceAt first last offset content) =
    ((marked content).take (last - offset)).drop (first - offset) := by
  induction content generalizing offset with
  | nil => simp [sliceAt, marked]
  | cons node rest ih =>
    have hrest : marked (sliceAt first last (offset + node.text.length) rest) =
        ((marked rest).take (last - offset - node.text.length)).drop
          (first - offset - min (last - offset) node.text.length) := by
      rw [ih, Nat.sub_add_eq, Nat.sub_add_eq]
      by_cases hlast : node.text.length ≤ last - offset
      · rw [Nat.min_eq_right hlast]
      · rw [Nat.sub_eq_zero_of_le (by omega : last - offset ≤ node.text.length)]
        simp
    rw [marked_cons, List.take_append, List.drop_append, List.length_take, List.length_map,
      ← hrest, sliceAt]
    split
    · rw [List.drop_eq_nil_of_le, List.nil_append]
      rw [List.length_take, List.length_map]
      omega
    · rw [marked_cons, extract_cut, List.map_drop, List.map_take]
      rfl

theorem marked_slice (first last : Nat) :
    marked (slice content first last) = ((marked content).take last).drop first :=
  marked_sliceAt first last 0

/-! ## Merging -/

/-- A content without an empty node, and without two adjacent nodes of the same marks. -/
def Merged (content : List (TextNode α)) : Prop :=
  (∀ node ∈ content, node.text ≠ []) ∧ content.IsChain fun a b => a.mark ≠ b.mark

theorem sameMarks_iff {left right : TextNode α} :
    sameMarks left right = true ↔ left.mark = right.mark := decide_eq_true_iff

/-- A node with other marks than the last one may follow. -/
theorem Merged.concat {nodes : List (TextNode α)} {node : TextNode α} (h : Merged nodes)
    (hne : node.text ≠ []) (hother : ∀ last ∈ nodes.getLast?, last.mark ≠ node.mark) :
    Merged (nodes ++ [node]) := by
  refine ⟨fun x hx => ?_, List.isChain_append.mpr ⟨h.2, List.isChain_singleton _, ?_⟩⟩
  · rcases List.mem_append.mp hx with hx | hx
    · exact h.1 x hx
    · obtain rfl := List.mem_singleton.mp hx
      exact hne
  · intro x hx y hy
    obtain rfl := Option.some.inj hy
    exact hother x hx

/-- One turn adds the characters of the node, and keeps what is out merged. -/
theorem mergeNode_spec (h : Merged out.reverse) (node : TextNode α) :
    Merged (mergeNode out node).reverse ∧
      marked (mergeNode out node).reverse = marked out.reverse ++ marked [node] := by
  unfold mergeNode
  split
  · rename_i hempty
    refine ⟨h, ?_⟩
    rw [marked_cons, List.isEmpty_iff.mp hempty]
    simp [marked]
  · rename_i hfull
    have hne : node.text ≠ [] := fun heq => hfull (by rw [heq]; rfl)
    split
    · exact ⟨h.concat hne (fun _ hlast => nomatch hlast), by simp [marked]⟩
    · rename_i last earlier
      rw [List.reverse_cons] at h ⊢
      split
      · -- the joined node has the marks the last one had
        rename_i hsame
        rw [List.reverse_cons]
        have hmark : last.mark = node.mark := sameMarks_iff.mp hsame
        have hjoined : ({ last with text := last.text ++ node.text } : TextNode α).mark =
            last.mark := rfl
        obtain ⟨hearlier, -, hlast⟩ := List.isChain_append.mp h.2
        have hmerged : Merged earlier.reverse :=
          ⟨fun x hx => h.1 x (List.mem_append_left _ hx), hearlier⟩
        refine ⟨hmerged.concat (fun heq => hne (List.append_eq_nil_iff.mp heq).2) ?_, ?_⟩
        · exact fun x hx => hlast x hx last rfl
        · rw [marked_append, marked_append, marked_cons, marked_cons, marked_cons, hjoined, hmark]
          simp [marked]
      · rename_i hother
        rw [List.reverse_cons, List.reverse_cons]
        refine ⟨h.concat hne fun x hx => ?_, marked_append⟩
        obtain rfl : last = x := by simpa using hx
        exact fun heq => hother (sameMarks_iff.mpr heq)

/-- **Merging** changes no character and no mark. -/
theorem merge_spec (nodes : List (TextNode α)) :
    Merged (merge nodes) ∧ marked (merge nodes) = marked nodes := by
  have hfold : ∀ (nodes out : List (TextNode α)), Merged out.reverse →
      Merged (nodes.foldl mergeNode out).reverse ∧
        marked (nodes.foldl mergeNode out).reverse = marked out.reverse ++ marked nodes := by
    intro nodes
    induction nodes with
    | nil => exact fun out h => ⟨h, (List.append_nil _).symm⟩
    | cons node rest ih =>
      intro out h
      obtain ⟨hmerged, hmarked⟩ := mergeNode_spec h node
      obtain ⟨hall, heq⟩ := ih _ hmerged
      refine ⟨hall, heq.trans ?_⟩
      rw [hmarked, List.append_assoc, ← marked_append]
      rfl
  exact hfold nodes [] ⟨(fun _ h => nomatch h), .nil⟩

/-! ## The node an edit inherits from -/

theorem nodeFrom_spec {offset index base : Nat} (hbase : base ≤ offset) {j : Nat} :
    nodeFrom offset index base content = some (j, node) ↔ ∃ i, j = index + i ∧
      content[i]? = some node ∧
        Covers TextNode.text content i (offset - base) (offset - base + 1) := by
  induction content generalizing index base with
  | nil => simp [nodeFrom]
  | cons first rest ih =>
    rw [nodeFrom]
    split
    · rename_i hhere
      rw [Option.some.injEq, Prod.mk.injEq]
      constructor
      · rintro ⟨rfl, rfl⟩
        exact ⟨0, rfl, rfl, covers_zero.mpr (by omega)⟩
      · rintro ⟨i, rfl, hi, hcovers⟩
        cases i with
        | zero => exact ⟨rfl, Option.some.inj hi⟩
        | succ i => exact absurd hcovers (not_covers_succ (by omega))
    · rename_i hfurther
      rw [ih (by omega), Nat.sub_add_eq]
      constructor
      · rintro ⟨i, rfl, hi, hcovers⟩
        refine ⟨i + 1, by omega, hi, (covers_succ (by omega)).mpr ?_⟩
        rw [Nat.sub_add_comm (by omega)]
        exact hcovers
      · rintro ⟨i, rfl, hi, hcovers⟩
        cases i with
        | zero =>
          have := covers_zero.mp hcovers
          omega
        | succ i =>
          refine ⟨i, by omega, hi, ?_⟩
          rw [covers_succ (by omega), Nat.sub_add_comm (by omega)] at hcovers
          exact hcovers

theorem nodeAt_eq_some {offset i : Nat} : nodeAt content offset = some (i, node) ↔
    content[i]? = some node ∧ Covers TextNode.text content i offset (offset + 1) := by
  rw [nodeAt, nodeFrom_spec (Nat.zero_le _)]
  constructor
  · rintro ⟨j, rfl, hj, hcovers⟩
    rw [Nat.zero_add]
    exact ⟨hj, hcovers⟩
  · rintro ⟨hi, hcovers⟩
    exact ⟨i, (Nat.zero_add i).symm, hi, hcovers⟩

/-- The range an edit of `[removedFrom, removedTo)` looks at: what it replaces, or the
character before the point of an insertion, or the first character at the beginning. -/
def watched (removedFrom removedTo : Nat) : Nat × Nat :=
  if removedFrom = removedTo then (removedFrom - 1, removedFrom - 1 + 1)
  else (removedFrom, removedTo)

/-- The marks that what is inserted inherits: those of the node that covers the range, or
none. -/
structure Inherits (covers : Nat → Prop) (content : List (TextNode α)) (marks : List Mark) :
    Prop where
  one : ∀ i node, content[i]? = some node → covers i → marks = node.mark
  none : (∀ i, ¬ covers i) → marks = []

theorem watched_lt {removedFrom removedTo : Nat} (hle : removedFrom ≤ removedTo) :
    (watched removedFrom removedTo).1 < (watched removedFrom removedTo).2 := by
  rw [watched]
  split
  · exact Nat.lt_succ_self _
  · show removedFrom < removedTo
    omega

section Range
variable {lo hi i : Nat}

theorem inherits_of_covers (hlt : lo < hi) (hnode : content[i]? = some node)
    (h : Covers TextNode.text content i lo hi) :
    Inherits (fun i => Covers TextNode.text content i lo hi) content node.mark where
  one j other hj hcovers := by
    obtain rfl := covers_unique hlt h hcovers
    rw [Option.some.inj (hnode.symm.trans hj)]
  none hnone := absurd h (hnone i)

theorem inherits_of_none (h : ∀ i, ¬ Covers TextNode.text content i lo hi) :
    Inherits (fun i => Covers TextNode.text content i lo hi) content [] where
  one j _ _ hcovers := absurd hcovers (h j)
  none _ := rfl

/-- A node covers a range when it covers its first character and its last. -/
theorem covers_iff_ends (hlt : lo < hi) : Covers TextNode.text content i lo hi ↔
    ∃ node, nodeAt content lo = some (i, node) ∧
      (nodeAt content (hi - 1)).map Prod.fst = some i := by
  constructor
  · rintro ⟨node, hnode, hfrom, hto⟩
    refine ⟨node, nodeAt_eq_some.mpr ⟨hnode, node, hnode, hfrom, by omega⟩, ?_⟩
    apply Option.map_eq_some_iff.mpr
    exact ⟨(i, node), nodeAt_eq_some.mpr ⟨hnode, node, hnode, by omega, by omega⟩, rfl⟩
  · rintro ⟨node, hfirst, hend⟩
    obtain ⟨⟨j, last⟩, hlast, hj⟩ := Option.map_eq_some_iff.mp hend
    obtain rfl : j = i := hj
    obtain ⟨-, first, hnode, hfrom, -⟩ := nodeAt_eq_some.mp hfirst
    obtain ⟨-, other, hother, -, hto⟩ := nodeAt_eq_some.mp hlast
    obtain rfl := Option.some.inj (hnode.symm.trans hother)
    exact ⟨first, hnode, hfrom, by omega⟩

end Range

/-- **What is inserted** is one node, under the marks of the node that covers the range the
edit looks at, or under none. -/
theorem insertedNode_spec (content : List (TextNode α)) {removedFrom removedTo : Nat}
    (hle : removedFrom ≤ removedTo) (inserted : List α) :
    ∃ marks, marked (insertedNode content removedFrom removedTo inserted) =
        inserted.map (·, marks) ∧
      Inherits (fun i => Covers TextNode.text content i (watched removedFrom removedTo).1
        (watched removedFrom removedTo).2) content marks := by
  have hlt := watched_lt hle
  -- the code's two look-ups are those of the first and the last character of the range
  have hanchor : (if removedFrom = removedTo then nodeAt content (removedFrom - 1)
      else nodeAt content removedFrom) = nodeAt content (watched removedFrom removedTo).1 := by
    rw [watched]
    split <;> rfl
  have hlast : removedTo - 1 = (watched removedFrom removedTo).2 - 1 := by
    rw [watched]
    split
    · show removedTo - 1 = removedFrom - 1 + 1 - 1
      omega
    · rfl
  generalize (watched removedFrom removedTo).1 = lo at hlt hanchor ⊢
  generalize (watched removedFrom removedTo).2 = hi at hlt hlast ⊢
  unfold insertedNode
  rw [hanchor, hlast]
  by_cases hcovers : ∃ i, Covers TextNode.text content i lo hi
  · obtain ⟨i, hcovers⟩ := hcovers
    obtain ⟨node, hnode, hend⟩ := (covers_iff_ends hlt).mp hcovers
    refine ⟨node.mark, ?_, inherits_of_covers hlt (nodeAt_eq_some.mp hnode).1 hcovers⟩
    rw [hnode]
    cases inserted with
    | nil => rfl
    | cons a rest => simp [hend, marked, spread, TextNode.mark]
  · have hno : ∀ i, ¬ Covers TextNode.text content i lo hi := not_exists.mp hcovers
    refine ⟨[], ?_, inherits_of_none hno⟩
    cases inserted with
    | nil => rfl
    | cons a rest =>
      cases hnode : nodeAt content lo with
      | none => simp [marked, spread, TextNode.mark]
      | some found =>
        obtain ⟨i, node⟩ := found
        have hend : (nodeAt content (hi - 1)).map Prod.fst ≠ some i := fun hend =>
          hno i ((covers_iff_ends hlt).mpr ⟨node, hnode, hend⟩)
        simp [hend, marked, spread, TextNode.mark]

end Marked
/-! ## What two strings share -/

section Shared
variable {α : Type} {before after : List α} {k : Nat}

/-- The strings agree on their first `k` characters. -/
def SharesPrefix (before after : List α) (k : Nat) : Prop :=
  k ≤ before.length ∧ k ≤ after.length ∧ before.take k = after.take k

/-- The strings agree on their last `k` characters. -/
def SharesSuffix (before after : List α) (k : Nat) : Prop :=
  k ≤ before.length ∧ k ≤ after.length ∧
    before.drop (before.length - k) = after.drop (after.length - k)

theorem sharesSuffix_iff : SharesSuffix before after k ↔
    SharesPrefix before.reverse after.reverse k := by
  simp only [SharesSuffix, SharesPrefix, List.length_reverse, List.take_reverse,
    List.reverse_inj]

theorem sharesPrefix_take {limit : Nat} : SharesPrefix (before.take limit) (after.take limit) k ↔
    SharesPrefix before after k ∧ k ≤ limit := by
  simp only [SharesPrefix, List.length_take, List.take_take]
  constructor
  · rintro ⟨h1, h2, h3⟩
    rw [Nat.min_eq_left (by omega)] at h3
    exact ⟨⟨by omega, by omega, h3⟩, by omega⟩
  · rintro ⟨⟨h1, h2, h3⟩, h4⟩
    rw [Nat.min_eq_left h4]
    exact ⟨by omega, by omega, h3⟩

variable [DecidableEq α]

/-- **The common prefix** is the longest one. -/
theorem commonPrefix_greatest (before after : List α) :
    IsGreatest {k | SharesPrefix before after k} (commonPrefix before after) := by
  induction before generalizing after with
  | nil =>
    refine ⟨⟨Nat.zero_le _, Nat.zero_le _, rfl⟩, fun k hk => ?_⟩
    simpa [commonPrefix] using hk.1
  | cons a before ih =>
    cases after with
    | nil =>
      refine ⟨⟨Nat.zero_le _, Nat.zero_le _, rfl⟩, fun k hk => ?_⟩
      simpa [commonPrefix] using hk.2.1
    | cons b after =>
      obtain ⟨⟨hb, ha, htake⟩, hmax⟩ := ih after
      rw [commonPrefix]
      split
      · rename_i heq
        -- the heads agree, and the prefix of the tails grows by one
        refine ⟨⟨Nat.succ_le_succ hb, Nat.succ_le_succ ha, ?_⟩, fun k hk => ?_⟩
        · rw [List.take_succ_cons, List.take_succ_cons, heq, htake]
        · cases k with
          | zero => exact Nat.zero_le _
          | succ k =>
            obtain ⟨h1, h2, h3⟩ := hk
            rw [List.take_succ_cons, List.take_succ_cons] at h3
            exact Nat.succ_le_succ (hmax ⟨Nat.le_of_succ_le_succ h1, Nat.le_of_succ_le_succ h2,
              (List.cons.inj h3).2⟩)
      · rename_i hne
        -- the heads differ, and nothing longer than nothing is shared
        refine ⟨⟨Nat.zero_le _, Nat.zero_le _, rfl⟩, fun k hk => ?_⟩
        cases k with
        | zero => exact Nat.le_refl _
        | succ k =>
          obtain ⟨-, -, h3⟩ := hk
          rw [List.take_succ_cons, List.take_succ_cons] at h3
          exact absurd (List.cons.inj h3).1 hne

/-- **The common suffix** is the longest one that leaves the prefix alone. -/
theorem commonSuffix_greatest (before after : List α) (shared : Nat) :
    IsGreatest {k | SharesSuffix before after k ∧ k ≤ min before.length after.length - shared}
      (commonSuffix before after shared) := by
  obtain ⟨hshares, hmax⟩ := commonPrefix_greatest
    (before.reverse.take (min before.length after.length - shared))
    (after.reverse.take (min before.length after.length - shared))
  constructor
  · obtain ⟨h, hlimit⟩ := sharesPrefix_take.mp hshares
    exact ⟨sharesSuffix_iff.mpr h, hlimit⟩
  · rintro k ⟨hk, hlimit⟩
    exact hmax (sharesPrefix_take.mpr ⟨sharesSuffix_iff.mp hk, hlimit⟩)

end Shared

/-! ## The edit -/

section Edit
variable {α : Type} [DecidableEq α] {content : List (TextNode α)} {next : List α}

/-- The end of what an edit replaces. -/
def removedEnd (content : List (TextNode α)) (next : List α) : Nat :=
  (inlineToText content).length -
    commonSuffix (inlineToText content) next (commonPrefix (inlineToText content) next)

/-- What an edit puts there. -/
def insertedText (content : List (TextNode α)) (next : List α) : List α :=
  let shared := commonPrefix (inlineToText content) next
  next.extract shared (next.length - commonSuffix (inlineToText content) next shared)

/-- What an edit keeps at both ends fits into the shorter of the two texts. -/
theorem change_bounds (content : List (TextNode α)) (next : List α) :
    commonPrefix (inlineToText content) next +
        commonSuffix (inlineToText content) next (commonPrefix (inlineToText content) next) ≤
      min (inlineToText content).length next.length := by
  obtain ⟨⟨hb, ha, -⟩, -⟩ := commonPrefix_greatest (inlineToText content) next
  obtain ⟨⟨-, hlimit⟩, -⟩ := commonSuffix_greatest (inlineToText content) next
    (commonPrefix (inlineToText content) next)
  omega

theorem le_removedEnd (content : List (TextNode α)) (next : List α) :
    commonPrefix (inlineToText content) next ≤ removedEnd content next := by
  have := change_bounds content next
  unfold removedEnd
  omega

/-- The new text, in the three parts the edit sees. -/
theorem splice_text (content : List (TextNode α)) (next : List α) :
    (inlineToText content).take (commonPrefix (inlineToText content) next) ++
        insertedText content next ++ (inlineToText content).drop (removedEnd content next) =
      next := by
  have hbounds := change_bounds content next
  obtain ⟨⟨-, -, htake⟩, -⟩ := commonPrefix_greatest (inlineToText content) next
  obtain ⟨⟨⟨-, -, hdrop⟩, -⟩, -⟩ := commonSuffix_greatest (inlineToText content) next
    (commonPrefix (inlineToText content) next)
  rw [removedEnd, htake, hdrop, insertedText, List.extract_eq_take_drop, List.append_assoc]
  generalize commonPrefix (inlineToText content) next = shared at hbounds ⊢
  generalize commonSuffix (inlineToText content) next shared = suffix at hbounds ⊢
  have htail : next.drop (next.length - suffix) =
      (next.drop shared).drop (next.length - suffix - shared) := by
    rw [List.drop_drop]
    exact congrArg (List.drop · next) (by omega)
  rw [htail, List.take_append_drop, List.take_append_drop]

omit [DecidableEq α] in
theorem sliceAt_empty {first last : Nat} (h : last ≤ first) (offset : Nat) :
    sliceAt first last offset content = [] := by
  induction content generalizing offset with
  | nil => rfl
  | cons node rest ih =>
    rw [sliceAt, if_pos (by omega)]
    exact ih _

/-- The two early answers are what the splice would give. -/
theorem replaceInlineText_eq (hne : inlineToText content ≠ next) :
    replaceInlineText content next =
      merge (slice content 0 (commonPrefix (inlineToText content) next) ++
        insertedNode content (commonPrefix (inlineToText content) next) (removedEnd content next)
          (insertedText content next) ++
        slice content (removedEnd content next) (inlineToText content).length) := by
  unfold replaceInlineText
  simp only [if_neg hne]
  split
  · -- everything is deleted: nothing is kept, nothing put there
    rename_i hempty
    obtain rfl := List.isEmpty_iff.mp hempty
    have hbounds := change_bounds content ([] : List α)
    rw [List.length_nil, Nat.min_zero] at hbounds
    have hnothing : insertedText content [] = [] := by simp [insertedText]
    rw [hnothing, slice, slice, sliceAt_empty (by omega), sliceAt_empty (by
      unfold removedEnd
      omega)]
    rfl
  · rename_i hfull
    split
    · rename_i hblank
      obtain rfl := List.isEmpty_iff.mp hblank
      have hall : insertedText [] next = next := by
        have := splice_text [] next
        simpa [inlineToText] using this
      rw [hall, insertedNode, if_neg hfull]
      simp [nodeAt, nodeFrom, slice, sliceAt, merge, mergeNode, hfull]
    · rfl

/-- **The marked characters of an edit** that changes the text are those kept before the
change and after it, and what is inherited within. -/
theorem marked_replaceInlineText (hne : inlineToText content ≠ next) :
    ∃ marks, marked (replaceInlineText content next) =
        (marked content).take (commonPrefix (inlineToText content) next) ++
          (insertedText content next).map (·, marks) ++
          (marked content).drop (removedEnd content next) ∧
      Merged (replaceInlineText content next) ∧
      Inherits (fun i => Covers TextNode.text content i
        (watched (commonPrefix (inlineToText content) next) (removedEnd content next)).1
        (watched (commonPrefix (inlineToText content) next) (removedEnd content next)).2)
        content marks := by
  obtain ⟨marks, hinserted, hinherits⟩ := insertedNode_spec content (le_removedEnd content next)
    (insertedText content next)
  obtain ⟨hmerged, hmarked⟩ := merge_spec
    (slice content 0 (commonPrefix (inlineToText content) next) ++
      insertedNode content (commonPrefix (inlineToText content) next) (removedEnd content next)
        (insertedText content next) ++
      slice content (removedEnd content next) (inlineToText content).length)
  rw [replaceInlineText_eq hne]
  refine ⟨marks, ?_, hmerged, hinherits⟩
  rw [hmarked, marked_append, marked_append, marked_slice, marked_slice, hinserted, List.drop_zero,
    List.take_of_length_le (Nat.le_of_eq length_marked)]

/-- **The new text** is the one that was asked for. -/
theorem text_replaceInlineText (content : List (TextNode α)) (next : List α) :
    inlineToText (replaceInlineText content next) = next := by
  by_cases heq : inlineToText content = next
  · rw [replaceInlineText, if_pos heq]
    exact heq
  · obtain ⟨marks, hmarked, -⟩ := marked_replaceInlineText heq
    rw [← marked_text, hmarked, List.map_append, List.map_append, List.map_take, List.map_drop,
      marked_text, List.map_map]
    refine Eq.trans ?_ (splice_text content next)
    exact congrArg (_ ++ · ++ _) (List.map_id _)

end Edit

/-- What an edit does to the marks.  `covers` says which node, if any, an edit of a range
stays in. -/
structure KeepsMarks {α : Type} (covers : List (TextNode α) → Nat → Nat → Nat → Prop)
    (content : List (TextNode α)) (next : List α) (result : List (TextNode α)) : Prop where
  text : inlineToText result = next
  unchanged : inlineToText content = next → result = content
  spliced : inlineToText content ≠ next → ∃ shared suffix marks,
    IsGreatest {k | SharesPrefix (inlineToText content) next k} shared ∧
    IsGreatest {k | SharesSuffix (inlineToText content) next k ∧
      k ≤ min (inlineToText content).length next.length - shared} suffix ∧
    marked result = (marked content).take shared ++
      (next.extract shared (next.length - suffix)).map (·, marks) ++
      (marked content).drop ((inlineToText content).length - suffix) ∧
    Inherits (covers content shared ((inlineToText content).length - suffix)) content marks
  merged : inlineToText content ≠ next → Merged result

/-- An edit stays in the node that holds what it replaces, or the character before the
point of an insertion, or at the very beginning the first character. -/
def staysIn {α : Type} (content : List (TextNode α)) (removedFrom removedTo i : Nat) : Prop :=
  Covers TextNode.text content i (watched removedFrom removedTo).1 (watched removedFrom removedTo).2

/-- An edit stays in a node as in `staysIn`, but that an insertion at the very beginning
stays in no node. -/
def staysBehind {α : Type} (content : List (TextNode α)) (removedFrom removedTo i : Nat) : Prop :=
  0 < removedTo ∧ staysIn content removedFrom removedTo i

/-- **Plain-text editing keeps marks**, of every content and for every new text. -/
theorem editing_keeps_marks {α : Type} [DecidableEq α] (content : List (TextNode α))
    (next : List α) : KeepsMarks staysIn content next (replaceInlineText content next) where
  text := text_replaceInlineText content next
  unchanged heq := by rw [replaceInlineText, if_pos heq]
  spliced hne := by
    obtain ⟨marks, hmarked, -, hinherits⟩ := marked_replaceInlineText hne
    exact ⟨_, _, marks, commonPrefix_greatest _ _, commonSuffix_greatest _ _ _, hmarked, hinherits⟩
  merged hne := by
    obtain ⟨-, -, hmerged, -⟩ := marked_replaceInlineText hne
    exact hmerged

/-- A bold `a`. -/
def boldLetter : List (TextNode CodeUnit) := [⟨[0x61], some [.bold]⟩]

/-- An `X` typed before a bold run is bold, though no character of the run stands before it. -/
theorem first_insertion_inherits :
    ¬ KeepsMarks staysBehind boldLetter [0x58, 0x61]
      (replaceInlineText boldLetter [0x58, 0x61]) := by
  intro h
  obtain ⟨shared, suffix, marks, hshared, hsuffix, hmarked, hinherits⟩ := h.spliced (by decide)
  obtain rfl : shared = 0 := hshared.unique (commonPrefix_greatest _ _)
  obtain rfl : suffix = 1 := hsuffix.unique (commonSuffix_greatest _ _ 0)
  obtain rfl : marks = [] := hinherits.none fun i hi => absurd hi.1 (by decide)
  revert hmarked
  decide

end PressLabz
