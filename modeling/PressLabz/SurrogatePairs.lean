import PressLabz.Editing

/-! # Characters outside the basic plane

A character past U+FFFF is two code units of a JavaScript string, a high surrogate and a
low one, and `replaceInlineText` looks for what two strings share one code unit at a time.
So an edit can cut between the two, and whether the halves end up in one node again is up to
the marks on both sides of the cut (`KeepsPairs`).
-/
namespace PressLabz
open Segments

def isHighSurrogate (u : CodeUnit) : Bool := 0xD800 ≤ u && u ≤ 0xDBFF

def isLowSurrogate (u : CodeUnit) : Bool := 0xDC00 ≤ u && u ≤ 0xDFFF

/-- Well-formed UTF-16: a low surrogate comes after each high one, and nowhere else. -/
def WellFormed (s : List CodeUnit) : Prop :=
  s.IsChain (fun u v => isHighSurrogate u = isLowSurrogate v) ∧
    s.head?.all (!isLowSurrogate ·) ∧ s.getLast?.all (!isHighSurrogate ·)

instance (s : List CodeUnit) : Decidable (WellFormed s) := inferInstanceAs (Decidable (_ ∧ _ ∧ _))

/-- Both halves of each pair carry the same marks. -/
def PairsTogether (chars : List (CodeUnit × List Mark)) : Prop :=
  chars.IsChain fun x y => isHighSurrogate x.1 = true → isLowSurrogate y.1 = true → x.2 = y.2

section WellFormed
variable {s t : List CodeUnit}

/-- A well-formed text begins with no low surrogate. -/
theorem WellFormed.not_low_first {text : List CodeUnit} (h : WellFormed text) :
    (text[0]?).any isLowSurrogate = false := by
  obtain ⟨-, hhead, -⟩ := h
  rw [← List.head?_eq_getElem?]
  cases hu : text.head? with
  | none => rfl
  | some u =>
    rw [hu] at hhead
    simpa using hhead

/-- A well-formed text ends with no high surrogate. -/
theorem WellFormed.not_high_last {text : List CodeUnit} (h : WellFormed text) {k : Nat}
    (hk : text.length ≤ k + 1) : (text[k]?).any isHighSurrogate = false := by
  obtain ⟨-, -, hlast⟩ := h
  cases hu : text[k]? with
  | none => rfl
  | some u =>
    obtain ⟨hbound, -⟩ := List.getElem?_eq_some_iff.mp hu
    have hend : k = text.length - 1 := by omega
    rw [List.getLast?_eq_getElem?, ← hend, hu] at hlast
    simpa using hlast

theorem wellFormed_nil : WellFormed [] := by decide

/-- Texts that are well-formed make a well-formed one. -/
theorem WellFormed.append (hs : WellFormed s) (ht : WellFormed t) : WellFormed (s ++ t) := by
  refine ⟨List.isChain_append.mpr ⟨hs.1, ht.1, fun u hu v hv => ?_⟩, ?_, ?_⟩
  · have hhigh := (Option.all_eq_true _ _).mp hs.2.2 u hu
    have hlow := (Option.all_eq_true _ _).mp ht.2.1 v hv
    rw [Bool.not_eq_true'] at hhigh hlow
    rw [hhigh, hlow]
  · cases s with
    | nil => exact ht.2.1
    | cons u s => exact hs.2.1
  · cases t with
    | nil =>
      rw [List.append_nil]
      exact hs.2.2
    | cons v t =>
      rw [List.getLast?_append_of_ne_nil _ (List.cons_ne_nil v t)]
      exact ht.2.2

/-- A well-formed text splits into two wherever the first one ends in no high surrogate. -/
theorem WellFormed.split (h : WellFormed (s ++ t)) (hs : s.getLast?.all (!isHighSurrogate ·)) :
    WellFormed s ∧ WellFormed t := by
  obtain ⟨hchain, hhead, hlast⟩ := h
  obtain ⟨hsc, htc, hjoin⟩ := List.isChain_append.mp hchain
  cases s with
  | nil => exact ⟨wellFormed_nil, hchain, hhead, hlast⟩
  | cons u s =>
    refine ⟨⟨hsc, hhead, hs⟩, htc, ?_, ?_⟩
    · rw [Option.all_eq_true]
      intro v hv
      obtain ⟨last, hl⟩ : ∃ last, last ∈ (u :: s).getLast? :=
        ⟨_, List.getLast?_eq_some_getLast (List.cons_ne_nil u s)⟩
      have hhigh := (Option.all_eq_true _ _).mp hs last hl
      rw [Bool.not_eq_true'] at hhigh ⊢
      rw [← hjoin last hl v hv, hhigh]
    · cases t with
      | nil => rfl
      | cons v t =>
        rw [List.getLast?_append_of_ne_nil _ (List.cons_ne_nil v t)] at hlast
        exact hlast

end WellFormed

section Nodes
variable {content : List (TextNode CodeUnit)}

/-- The nodes of a content keep their pairs together, if each is well-formed. -/
theorem pairsTogether_of_nodes (h : ∀ node ∈ content, WellFormed node.text) :
    PairsTogether (marked content) ∧ WellFormed (inlineToText content) := by
  induction content with
  | nil => exact ⟨.nil, wellFormed_nil⟩
  | cons node rest ih =>
    obtain ⟨hnode, hrest⟩ := List.forall_mem_cons.mp h
    obtain ⟨hpairs, htext⟩ := ih hrest
    refine ⟨?_, hnode.append htext⟩
    rw [marked_cons]
    apply List.isChain_append.mpr
    refine ⟨?_, hpairs, ?_⟩
    · -- within the node all marks are the same
      apply (List.isChain_map _).mpr
      exact (List.pairwise_of_forall fun _ _ _ _ => rfl).isChain
    · intro x hx y _ hhigh
      rw [List.getLast?_map] at hx
      obtain ⟨u, hu, rfl⟩ := Option.map_eq_some_iff.mp hx
      have hnone := (Option.all_eq_true _ _).mp hnode.2.2 u hu
      rw [show isHighSurrogate u = true from hhigh] at hnone
      cases hnone

/-- **In a merged content** whose text is well-formed, the nodes are well-formed exactly
when the pairs are together. -/
theorem nodes_wellFormed_iff (hmerged : Merged content)
    (htext : WellFormed (inlineToText content)) :
    (∀ node ∈ content, WellFormed node.text) ↔ PairsTogether (marked content) := by
  refine ⟨fun h => (pairsTogether_of_nodes h).1, fun h => ?_⟩
  induction content with
  | nil => exact fun _ hnode => nomatch hnode
  | cons node rest ih =>
    obtain ⟨hne, hchain⟩ := hmerged
    obtain ⟨hnonempty, hrestne⟩ := List.forall_mem_cons.mp hne
    rw [marked_cons] at h
    obtain ⟨-, hpairs, hjoin⟩ := List.isChain_append.mp h
    -- a high surrogate at the end would have its other half in the next node, under the
    -- same marks
    have htail : node.text.getLast?.all (!isHighSurrogate ·) := by
      rw [Option.all_eq_true]
      intro u hu
      by_contra hhigh
      rw [Bool.not_eq_true', Bool.not_eq_false] at hhigh
      have hlast := htext.2.2
      cases rest with
      | nil =>
        have hend := (Option.all_eq_true _ _).mp hlast u (by simpa [inlineToText] using hu)
        rw [hhigh] at hend
        cases hend
      | cons other rest =>
        obtain ⟨v, text, hv⟩ := List.exists_cons_of_ne_nil (hrestne other List.mem_cons_self)
        have hhead : inlineToText (other :: rest) = v :: (text ++ inlineToText rest) := by
          simp [inlineToText, hv]
        obtain ⟨-, -, hpair⟩ := List.isChain_append.mp htext.1
        have hlow : isLowSurrogate v = true := by
          have hboth := hpair u hu v (by
            show v ∈ (inlineToText (other :: rest)).head?
            rw [hhead]
            rfl)
          rw [← hboth, hhigh]
        refine (List.isChain_cons_cons.mp hchain).1 ?_
        exact hjoin (u, node.mark) (by rw [List.getLast?_map, hu]; rfl) (v, other.mark)
          (by rw [marked_cons, hv]; rfl) hhigh hlow
    obtain ⟨hnode, hrest⟩ := htext.split htail
    exact List.forall_mem_cons.mpr ⟨hnode, ih ⟨hrestne, hchain.tail⟩ hrest hpairs⟩

end Nodes

/-! ## Where an edit cuts -/

/-- A surrogate pair of the text lies across the offset. -/
def CutsPair (s : List CodeUnit) (k : Nat) : Prop :=
  0 < k ∧ (s[k - 1]?).any isHighSurrogate = true ∧ (s[k]?).any isLowSurrogate = true

/-- The marks of the character at an offset. -/
def marksAt (content : List (TextNode CodeUnit)) (k : Nat) : Option (List Mark) :=
  ((marked content)[k]?).map Prod.snd

/-- The edit divides no pair between characters with different marks: where it only
deletes, the characters that meet; where it inserts and stays in no node, those that carry
marks. -/
structure KeepsPairs (content : List (TextNode CodeUnit)) (next : List CodeUnit) : Prop where
  deleting : insertedText content next = [] →
    CutsPair next (commonPrefix (inlineToText content) next) →
      marksAt content (commonPrefix (inlineToText content) next - 1) =
        marksAt content (removedEnd content next)
  before : insertedText content next ≠ [] →
    (∀ i, ¬ staysIn content (commonPrefix (inlineToText content) next)
      (removedEnd content next) i) →
    CutsPair next (commonPrefix (inlineToText content) next) →
      marksAt content (commonPrefix (inlineToText content) next - 1) = some []
  after : insertedText content next ≠ [] →
    (∀ i, ¬ staysIn content (commonPrefix (inlineToText content) next)
      (removedEnd content next) i) →
    CutsPair next (commonPrefix (inlineToText content) next +
        (insertedText content next).length) →
      marksAt content (removedEnd content next) = some []

section Joins
variable {chars rest kept put after : List (CodeUnit × List Mark)}

/-- Two parts meet with their pair together exactly if none is cut there, or its halves
carry the same marks. -/
theorem joins_iff : (∀ x ∈ chars.getLast?, ∀ y ∈ rest.head?, isHighSurrogate x.1 = true →
      isLowSurrogate y.1 = true → x.2 = y.2) ↔
    (CutsPair ((chars ++ rest).map Prod.fst) chars.length →
      chars.getLast?.map Prod.snd = rest.head?.map Prod.snd) := by
  have hlast : ((chars ++ rest).map Prod.fst)[chars.length - 1]? =
      if chars.length = 0 then ((chars ++ rest).map Prod.fst)[0]?
        else chars.getLast?.map Prod.fst := by
    split
    · rename_i hzero
      rw [hzero]
    · rw [List.getElem?_map, List.getElem?_append_left (by omega), List.getLast?_eq_getElem?]
  have hhead : ((chars ++ rest).map Prod.fst)[chars.length]? = rest.head?.map Prod.fst := by
    rw [List.getElem?_map, List.getElem?_append_right (Nat.le_refl _), Nat.sub_self,
      List.head?_eq_getElem?]
  unfold CutsPair
  rw [hlast, hhead]
  cases hx : chars.getLast? with
  | none =>
    rw [List.getLast?_eq_none_iff] at hx
    simp [hx]
  | some x =>
    have hne : chars.length ≠ 0 := by
      intro hzero
      rw [List.length_eq_zero_iff.mp hzero] at hx
      cases hx
    cases rest.head? with
    | none => simp
    | some y => simp [hne, Nat.pos_of_ne_zero hne]

/-- Three parts that keep their pairs together do so in a row exactly if no pair is cut
between different marks where they meet. -/
theorem pairsTogether_three (hkept : PairsTogether kept) (hput : PairsTogether put)
    (hafter : PairsTogether after) : PairsTogether (kept ++ put ++ after) ↔
    (CutsPair ((kept ++ put ++ after).map Prod.fst) kept.length →
      kept.getLast?.map Prod.snd = (put ++ after).head?.map Prod.snd) ∧
    (CutsPair ((kept ++ put ++ after).map Prod.fst) (kept.length + put.length) →
      (kept ++ put).getLast?.map Prod.snd = after.head?.map Prod.snd) := by
  rw [← List.length_append, ← joins_iff, List.append_assoc, ← joins_iff, ← List.append_assoc]
  unfold PairsTogether
  rw [List.isChain_append, List.isChain_append]
  cases put with
  | nil =>
    rw [List.append_nil, List.nil_append]
    constructor
    · rintro ⟨-, -, h⟩
      exact ⟨h, h⟩
    · rintro ⟨-, h⟩
      exact ⟨⟨hkept, .nil, by simp⟩, hafter, h⟩
  | cons x put =>
    constructor
    · rintro ⟨⟨-, -, h⟩, -, h'⟩
      exact ⟨h, h'⟩
    · rintro ⟨h, h'⟩
      exact ⟨⟨hkept, hput, h⟩, hafter, h'⟩

end Joins

section Halves
variable {content : List (TextNode CodeUnit)} (h : ∀ node ∈ content, WellFormed node.text)
  {k shared stop : Nat}
include h

/-- The two halves of a pair of the old text are characters of one node. -/
theorem marksAt_pair (hk : ((inlineToText content)[k]?).any isHighSurrogate = true ∨
    ((inlineToText content)[k + 1]?).any isLowSurrogate = true) :
    marksAt content k = marksAt content (k + 1) := by
  obtain ⟨hpairs, htext⟩ := pairsTogether_of_nodes h
  have hlast : (inlineToText content).length ≤ k + 1 →
      ((inlineToText content)[k]?).any isHighSurrogate = false := htext.not_high_last
  obtain ⟨hchain, -, -⟩ := htext
  rw [← marked_text] at hk hchain hlast
  unfold marksAt
  rw [List.length_map] at hlast
  by_cases hlt : k + 1 < (marked content).length
  · have hboth := List.isChain_iff_getElem.mp hchain k (by rw [List.length_map]; exact hlt)
    have hsame := List.isChain_iff_getElem.mp hpairs k hlt
    rw [List.getElem?_map, List.getElem?_map] at hk
    rw [List.getElem_map, List.getElem_map] at hboth
    rw [List.getElem?_eq_getElem (by omega), List.getElem?_eq_getElem hlt] at hk ⊢
    simp only [Option.map_some, Option.any_some] at hk ⊢
    rw [hboth] at hk hsame
    rw [or_self] at hk
    rw [hsame hk hk]
  · -- nothing follows the character, so that it is no high surrogate
    exfalso
    rcases hk with hhigh | hlow
    · rw [hlast (Nat.le_of_not_lt hlt)] at hhigh
      cases hhigh
    · rw [List.getElem?_eq_none (by rw [List.length_map]; omega)] at hlow
      cases hlow

/-- An edit that stays in a node gives its marks to both ends of what it inserts. -/
theorem marksAt_staysIn {i : Nat} {node : TextNode CodeUnit} (hnode : content[i]? = some node)
    (hstays : staysIn content shared stop i) (hle : shared ≤ stop) :
    (((inlineToText content)[shared - 1]?).any isHighSurrogate = true → 0 < shared →
      marksAt content (shared - 1) = some node.mark) ∧
    (((inlineToText content)[stop]?).any isLowSurrogate = true →
      marksAt content stop = some node.mark) := by
  have hmarks : ∀ k, (watched shared stop).1 ≤ k → k < (watched shared stop).2 →
      marksAt content k = some node.mark := by
    intro k hfrom hto
    obtain ⟨n, hn, hmark⟩ : ∃ n, content[i]? = some n ∧ marksAt content k = some n.mark :=
      spread_of_covers hstays hfrom hto
    rw [hmark, Option.some.inj (hnode.symm.trans hn)]
  constructor
  · intro hhigh hpos
    -- an insertion looks at the character before it, a replacement at what it replaces
    by_cases hinsertion : shared = stop
    · exact hmarks (shared - 1) (by simp [watched, hinsertion]) (by simp [watched, hinsertion])
    · rw [marksAt_pair h (.inl hhigh), Nat.sub_add_cancel hpos]
      apply hmarks
      · simp [watched, hinsertion]
      · simp [watched, hinsertion]
        omega
  · intro hlow
    cases stop with
    | zero =>
      rw [(pairsTogether_of_nodes h).2.not_low_first] at hlow
      cases hlow
    | succ stop =>
      rw [← marksAt_pair h (.inr hlow)]
      by_cases hinsertion : shared = stop + 1
      · exact hmarks stop (by simp [watched, hinsertion]) (by simp [watched, hinsertion])
      · apply hmarks
        · simp [watched, hinsertion]
          omega
        · simp [watched, hinsertion]

end Halves

/-- An edit that changes nothing divides no pair. -/
theorem keepsPairs_self (content : List (TextNode CodeUnit)) :
    KeepsPairs content (inlineToText content) := by
  have hall : commonPrefix (inlineToText content) (inlineToText content) =
      (inlineToText content).length := by
    obtain ⟨⟨hle, -⟩, hmax⟩ := commonPrefix_greatest (inlineToText content) (inlineToText content)
    exact Nat.le_antisymm hle (hmax ⟨Nat.le_refl _, Nat.le_refl _, rfl⟩)
  have hnothing : insertedText content (inlineToText content) = [] := by
    simp [insertedText, hall]
  refine ⟨fun _ hcut => ?_, fun h => absurd hnothing h, fun h => absurd hnothing h⟩
  rw [hall] at hcut
  obtain ⟨-, -, hlow⟩ := hcut
  rw [List.getElem?_eq_none (Nat.le_refl _)] at hlow
  cases hlow

section Spliced
variable {content : List (TextNode CodeUnit)} {next : List CodeUnit} {marks : List Mark}

/-- The three parts of an edit read as the new text. -/
theorem text_splice (marks : List Mark) :
    ((marked content).take (commonPrefix (inlineToText content) next) ++
      (insertedText content next).map (·, marks) ++
      (marked content).drop (removedEnd content next)).map Prod.fst = next := by
  rw [List.map_append, List.map_append, List.map_take, List.map_drop, marked_text, List.map_map]
  refine Eq.trans ?_ (splice_text content next)
  exact congrArg (_ ++ · ++ _) (List.map_id _)

theorem length_shared (content : List (TextNode CodeUnit)) (next : List CodeUnit) :
    ((marked content).take (commonPrefix (inlineToText content) next)).length =
      commonPrefix (inlineToText content) next := by
  rw [List.length_take, length_marked]
  have := change_bounds content next
  omega

/-- What is shared before a change ends with the marks before it. -/
theorem marks_before (hpos : 0 < commonPrefix (inlineToText content) next) :
    ((marked content).take (commonPrefix (inlineToText content) next)).getLast?.map Prod.snd =
      marksAt content (commonPrefix (inlineToText content) next - 1) := by
  rw [List.getLast?_eq_getElem?, length_shared, List.getElem?_take, if_pos (by omega)]
  rfl

/-- What stays after a change begins with its marks. -/
theorem marks_after (content : List (TextNode CodeUnit)) (next : List CodeUnit) :
    ((marked content).drop (removedEnd content next)).head?.map Prod.snd =
      marksAt content (removedEnd content next) := by
  rw [List.head?_drop]
  rfl

/-- What a change inserts has the marks it is given at both ends. -/
theorem marks_inserted {inserted : List CodeUnit} (hinserted : inserted ≠ []) (marks : List Mark)
    (before after : List (CodeUnit × List Mark)) :
    (before ++ inserted.map (·, marks)).getLast?.map Prod.snd = some marks ∧
      (inserted.map (·, marks) ++ after).head?.map Prod.snd = some marks := by
  obtain ⟨u, rest, hu⟩ := List.exists_cons_of_ne_nil hinserted
  constructor
  · rw [List.getLast?_append_of_ne_nil _ (by rw [hu]; exact List.cons_ne_nil _ _),
      List.getLast?_map, List.getLast?_eq_some_getLast hinserted]
    rfl
  · rw [hu]
    rfl

/-- The three parts of an edit keep their pairs together exactly if no pair is cut between
different marks at its two ends. -/
theorem pairsTogether_splice (hcontent : ∀ node ∈ content, WellFormed node.text)
    (marks : List Mark) :
    PairsTogether ((marked content).take (commonPrefix (inlineToText content) next) ++
        (insertedText content next).map (·, marks) ++
        (marked content).drop (removedEnd content next)) ↔
      (CutsPair next (commonPrefix (inlineToText content) next) →
        marksAt content (commonPrefix (inlineToText content) next - 1) =
          if insertedText content next = [] then marksAt content (removedEnd content next)
          else some marks) ∧
      (CutsPair next (commonPrefix (inlineToText content) next +
          (insertedText content next).length) →
        (if insertedText content next = [] then
            marksAt content (commonPrefix (inlineToText content) next - 1)
          else some marks) = marksAt content (removedEnd content next)) := by
  have hpairs := (pairsTogether_of_nodes hcontent).1
  have hput : PairsTogether ((insertedText content next).map (·, marks)) :=
    (List.isChain_map _).mpr (List.pairwise_of_forall fun _ _ _ _ => rfl).isChain
  rw [pairsTogether_three (hpairs.take _) hput (hpairs.drop _), text_splice, length_shared,
    List.length_map]
  by_cases hempty : insertedText content next = []
  · -- the two ends of what was taken out stand together now
    rw [if_pos hempty, if_pos hempty, hempty, List.map_nil, List.nil_append, List.append_nil,
      marks_after, List.length_nil, Nat.add_zero]
    constructor
    · rintro ⟨h, h'⟩
      exact ⟨fun hcut => marks_before hcut.1 ▸ h hcut, fun hcut => marks_before hcut.1 ▸ h' hcut⟩
    · rintro ⟨h, h'⟩
      exact ⟨fun hcut => (marks_before hcut.1).trans (h hcut),
        fun hcut => (marks_before hcut.1).trans (h' hcut)⟩
  · -- at both borders one side is what was put in
    obtain ⟨hlast, hhead⟩ := marks_inserted hempty marks
      ((marked content).take (commonPrefix (inlineToText content) next))
      ((marked content).drop (removedEnd content next))
    rw [if_neg hempty, if_neg hempty, hhead, hlast, marks_after]
    constructor
    · rintro ⟨h, h'⟩
      exact ⟨fun hcut => marks_before hcut.1 ▸ h hcut, h'⟩
    · rintro ⟨h, h'⟩
      exact ⟨fun hcut => (marks_before hcut.1).trans (h hcut), h'⟩

/-- A pair that is cut before the change begins in the old text. -/
theorem high_before (hcut : CutsPair next (commonPrefix (inlineToText content) next)) :
    ((inlineToText content)[commonPrefix (inlineToText content) next - 1]?).any
      isHighSurrogate = true := by
  obtain ⟨hpos, hhigh, -⟩ := hcut
  obtain ⟨⟨-, -, htake⟩, -⟩ := commonPrefix_greatest (inlineToText content) next
  rw [← List.getElem?_take_of_lt (Nat.sub_lt hpos Nat.one_pos), htake,
    List.getElem?_take_of_lt (Nat.sub_lt hpos Nat.one_pos)]
  exact hhigh

/-- A pair that is cut after the change ends in the old text. -/
theorem low_after (hcut : CutsPair next (commonPrefix (inlineToText content) next +
    (insertedText content next).length)) :
    ((inlineToText content)[removedEnd content next]?).any isLowSurrogate = true := by
  obtain ⟨-, -, hlow⟩ := hcut
  have hbounds := change_bounds content next
  have hlength : ((inlineToText content).take (commonPrefix (inlineToText content) next) ++
      insertedText content next).length = commonPrefix (inlineToText content) next +
        (insertedText content next).length := by
    rw [List.length_append, List.length_take]
    omega
  have hsame : ((inlineToText content).take (commonPrefix (inlineToText content) next) ++
      insertedText content next ++ (inlineToText content).drop (removedEnd content next))[
        commonPrefix (inlineToText content) next + (insertedText content next).length]? =
      (inlineToText content)[removedEnd content next]? := by
    rw [List.getElem?_append_right (Nat.le_of_eq hlength), hlength, Nat.sub_self,
      List.getElem?_drop, Nat.add_zero]
  rw [splice_text] at hsame
  rw [← hsame]
  exact hlow

end Spliced

/-- **An edit keeps every pair in one node** exactly when it divides none between
characters with different marks. -/
theorem pairs_kept_iff {content : List (TextNode CodeUnit)} {next : List CodeUnit}
    (hcontent : ∀ node ∈ content, WellFormed node.text) (hnext : WellFormed next) :
    (∀ node ∈ replaceInlineText content next, WellFormed node.text) ↔ KeepsPairs content next := by
  by_cases heq : inlineToText content = next
  · subst heq
    rw [replaceInlineText, if_pos rfl]
    exact iff_of_true hcontent (keepsPairs_self content)
  · obtain ⟨marks, hmarked, hmerged, hinherits⟩ := marked_replaceInlineText heq
    rw [nodes_wellFormed_iff hmerged ((text_replaceInlineText content next).symm ▸ hnext), hmarked,
      pairsTogether_splice hcontent marks]
    by_cases hempty : insertedText content next = []
    · rw [if_pos hempty, if_pos hempty, hempty, List.length_nil, Nat.add_zero, and_self]
      exact ⟨fun h => ⟨fun _ => h, fun hne => absurd hempty hne, fun hne => absurd hempty hne⟩,
        fun h => h.deleting hempty⟩
    · rw [if_neg hempty, if_neg hempty]
      by_cases hstays : ∃ i, staysIn content (commonPrefix (inlineToText content) next)
          (removedEnd content next) i
      · -- what is inserted has the marks of the node on both sides of it
        obtain ⟨i, hi⟩ := hstays
        obtain ⟨node, hnode, -⟩ := id hi
        obtain rfl := hinherits.one i node hnode hi
        obtain ⟨hbefore, hafter⟩ := marksAt_staysIn hcontent hnode hi (le_removedEnd content next)
        exact iff_of_true ⟨fun hcut => hbefore (high_before hcut) hcut.1,
            fun hcut => (hafter (low_after hcut)).symm⟩
          ⟨fun h => absurd h hempty, fun _ hno => absurd hi (hno i), fun _ hno => absurd hi (hno i)⟩
      · have hno := not_exists.mp hstays
        obtain rfl := hinherits.none hno
        exact ⟨fun h => ⟨fun hnil => absurd hnil hempty, fun _ _ => h.1,
            fun _ _ hcut => (h.2 hcut).symm⟩,
          fun h => ⟨h.before hempty hno, fun hcut => (h.after hempty hno hcut).symm⟩⟩

/-- A bold face and a plain `x`. -/
def boldFace : List (TextNode CodeUnit) := [⟨[0xD83D, 0xDE00], some [.bold]⟩, ⟨[0x78], none⟩]

/-- The face replaced by another one alone: both halves of the new one are bold. -/
theorem pairs_kept_face :
    (∀ node ∈ replaceInlineText boldFace [0xD83D, 0xDE01, 0x78], WellFormed node.text) ∧
      KeepsPairs boldFace [0xD83D, 0xDE01, 0x78] :=
  ⟨by decide, (pairs_kept_iff (by decide) (by decide)).mp (by decide)⟩

/-- **The face and the letter after it replaced together**: the first half of the new face
is bold, the second is not. -/
theorem face_divided : (∀ node ∈ boldFace, WellFormed node.text) ∧
    WellFormed [0xD83D, 0xDE01, 0x79] ∧
    ¬ ∀ node ∈ replaceInlineText boldFace [0xD83D, 0xDE01, 0x79], WellFormed node.text := by
  decide

end PressLabz
