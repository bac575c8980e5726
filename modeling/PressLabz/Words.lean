import Mathlib.Data.List.Basic
import Mathlib.Data.List.Chain
import Mathlib.Data.List.DropRight

/-! # Words, in pieces and joined

A word is a maximal run of the characters of a kind.  A text that is kept in pieces has the
words of the pieces put together; a reader who takes the pieces one by one finds the parts
that the borders make of them.  `cutWords` is both at once: the words of the whole, each as
the list of its parts.

The other way round, words joined by one separator (`Delimited`) are what is left of any text
when each run of other characters becomes a separator and the ends are trimmed, also behind a
cut.
-/
namespace Words
variable {α β : Type}

/-- A list, if it is not empty. -/
def nonempty : List β → List (List β)
  | [] => []
  | b :: l => [b :: l]

section Kind
variable (kind : α → Bool)

/-- The words of a text, when `current` was read of one. -/
def wordsFrom (current : List α) : List α → List (List α)
  | [] => nonempty current
  | c :: s =>
    if kind c then wordsFrom (current ++ [c]) s else nonempty current ++ wordsFrom [] s

def words (s : List α) : List (List α) := wordsFrom kind [] s

/-- The words of a text with borders in it (`none`), each as the parts between them.  Of the
word at hand, `before` are the parts that are complete. -/
def cutWordsFrom (before : List (List α)) (current : List α) :
    List (Option α) → List (List (List α))
  | [] => nonempty (before ++ nonempty current)
  | none :: s => cutWordsFrom (before ++ nonempty current) [] s
  | some c :: s =>
    if kind c then cutWordsFrom before (current ++ [c]) s
    else nonempty (before ++ nonempty current) ++ cutWordsFrom [] [] s

/-- Pieces put together, with a border after each. -/
def bordered (pieces : List (List α)) : List (Option α) :=
  pieces.flatMap fun piece => piece.map some ++ [none]

def cutWords (pieces : List (List α)) : List (List (List α)) :=
  cutWordsFrom kind [] [] (bordered pieces)

variable {kind}

theorem flatten_nonempty (l : List β) : (nonempty l).flatten = l := by
  cases l with
  | nil => rfl
  | cons b l => exact List.append_nil _

theorem mem_nonempty {l m : List β} (h : l ∈ nonempty m) : l ≠ [] := by
  cases m with
  | nil => cases h
  | cons b m =>
    rw [List.mem_singleton.mp h]
    exact List.cons_ne_nil b m

/-! ## Separators -/

theorem wordsFrom_append (current : List α) {c : α} (hc : kind c = false) (s t : List α) :
    wordsFrom kind current (s ++ c :: t) = wordsFrom kind current s ++ words kind t := by
  induction s generalizing current with
  | nil =>
    show wordsFrom kind current (c :: t) = nonempty current ++ words kind t
    rw [wordsFrom, hc]
    rfl
  | cons d s ih =>
    rw [List.cons_append, wordsFrom, wordsFrom]
    split
    · exact ih _
    · rw [ih, List.append_assoc]

/-- A separator that is in no word separates. -/
theorem words_intercalate {c : α} (hc : kind c = false) (parts : List (List α)) :
    words kind ([c].intercalate parts) = parts.flatMap (words kind) := by
  induction parts with
  | nil => rfl
  | cons part parts ih =>
    cases parts with
    | nil => simp
    | cons next parts =>
      rw [List.intercalate_cons_cons, List.append_assoc, List.singleton_append, words,
        wordsFrom_append [] hc, ih, List.flatMap_cons]
      rfl

/-! ## Borders -/

theorem cutWordsFrom_ne_nil {before : List (List α)} {current : List α} {s : List (Option α)}
    {w : List (List α)} (h : w ∈ cutWordsFrom kind before current s) : w ≠ [] := by
  induction s generalizing before current with
  | nil => exact mem_nonempty h
  | cons c s ih =>
    cases c with
    | none => exact ih h
    | some c =>
      rw [cutWordsFrom] at h
      split at h
      · exact ih h
      · rcases List.mem_append.mp h with h | h
        · exact mem_nonempty h
        · exact ih h

theorem nonempty_flatten {before : List (List α)} (hb : ∀ part ∈ before, part ≠ [])
    (current : List α) : (nonempty (before ++ nonempty current)).map List.flatten =
      nonempty (before.flatten ++ current) := by
  cases before with
  | nil =>
    cases current with
    | nil => rfl
    | cons c current => simp [nonempty]
  | cons part before =>
    cases part with
    | nil => exact absurd rfl (hb [] List.mem_cons_self)
    | cons c part =>
      show [((c :: part) :: (before ++ nonempty current)).flatten] =
        [c :: (part ++ before.flatten) ++ current]
      simp [flatten_nonempty]

/-- The words of the whole are the cut words with their parts put together. -/
theorem map_flatten_cutWordsFrom {before : List (List α)} (hb : ∀ part ∈ before, part ≠ [])
    (current : List α) (s : List (Option α)) :
    (cutWordsFrom kind before current s).map List.flatten =
      wordsFrom kind (before.flatten ++ current) (s.filterMap id) := by
  induction s generalizing before current with
  | nil => exact nonempty_flatten hb current
  | cons c s ih =>
    cases c with
    | none =>
      -- a cut ends the part, and the word goes on
      have hb' : ∀ part ∈ before ++ nonempty current, part ≠ [] := by
        intro part hpart
        rcases List.mem_append.mp hpart with h | h
        · exact hb part h
        · exact mem_nonempty h
      rw [cutWordsFrom, ih hb', List.flatten_append, flatten_nonempty, List.append_nil]
      rfl
    | some c =>
      rw [cutWordsFrom, List.filterMap_cons_some (by rfl), wordsFrom]
      split
      · rw [ih hb, List.append_assoc]
      · rw [List.map_append, nonempty_flatten hb, ih (by simp)]
        rfl

/-- The parts of the word at hand come first. -/
theorem flatten_cutWordsFrom (before : List (List α)) (current : List α) (s : List (Option α)) :
    (cutWordsFrom kind before current s).flatten =
      before ++ (cutWordsFrom kind [] current s).flatten := by
  induction s generalizing before current with
  | nil => rw [cutWordsFrom, cutWordsFrom, flatten_nonempty, flatten_nonempty, List.nil_append]
  | cons c s ih =>
    cases c with
    | none =>
      rw [cutWordsFrom, cutWordsFrom, ih, ih ([] ++ nonempty current), List.nil_append,
        List.append_assoc]
    | some c =>
      rw [cutWordsFrom, cutWordsFrom]
      split
      · exact ih before _
      · rw [List.flatten_append, List.flatten_append, flatten_nonempty, flatten_nonempty,
          List.nil_append, List.append_assoc]

theorem flatten_cutWordsFrom_piece (current piece : List α) (s : List (Option α)) :
    (cutWordsFrom kind [] current (piece.map some ++ none :: s)).flatten =
      wordsFrom kind current piece ++ (cutWordsFrom kind [] [] s).flatten := by
  induction piece generalizing current with
  | nil =>
    rw [List.map_nil, List.nil_append, cutWordsFrom, flatten_cutWordsFrom]
    rfl
  | cons c piece ih =>
    rw [List.map_cons, List.cons_append, cutWordsFrom, wordsFrom]
    split
    · exact ih _
    · rw [List.flatten_append, flatten_nonempty, List.nil_append, ih, List.append_assoc]

/-- The parts of the cut words are the words of the pieces. -/
theorem flatten_cutWords (pieces : List (List α)) :
    (cutWords kind pieces).flatten = pieces.flatMap (words kind) := by
  rw [cutWords]
  induction pieces with
  | nil => rfl
  | cons piece pieces ih =>
    rw [bordered, List.flatMap_cons, List.append_assoc, List.singleton_append,
      flatten_cutWordsFrom_piece, ← bordered, ih, List.flatMap_cons]
    rfl

theorem map_flatten_cutWords (pieces : List (List α)) :
    (cutWords kind pieces).map List.flatten = words kind pieces.flatten := by
  have hwhole : (bordered pieces).filterMap id = pieces.flatten := by
    induction pieces with
    | nil => rfl
    | cons piece pieces ih =>
      rw [bordered, List.flatMap_cons, List.filterMap_append, ← bordered, ih]
      simp
  rw [cutWords, map_flatten_cutWordsFrom (by simp), hwhole]
  rfl

end Kind

/-- **Borders do no harm** when every word they cut also stands as a part somewhere, and every
part of it as a word. -/
theorem cuts_agree_iff {cut : List (List (List α))} (hne : ∀ w ∈ cut, w ≠ []) :
    (∀ v, v ∈ cut.map List.flatten ↔ v ∈ cut.flatten) ↔
      ∀ w ∈ cut, 2 ≤ w.length →
        w.flatten ∈ cut.flatten ∧ ∀ part ∈ w, part ∈ cut.map List.flatten := by
  constructor
  · intro h w hw _
    exact ⟨(h _).mp (List.mem_map_of_mem hw),
      fun part hpart => (h part).mpr (List.mem_flatten.mpr ⟨w, hw, hpart⟩)⟩
  · intro h v
    -- a word that no border cuts is its own only part
    have hwhole : ∀ w ∈ cut, ¬ 2 ≤ w.length → ∃ part, w = [part] ∧ w.flatten = part := by
      intro w hw hlen
      cases w with
      | nil => exact absurd rfl (hne [] hw)
      | cons part rest =>
        cases rest with
        | nil => exact ⟨part, rfl, by simp⟩
        | cons next rest => simp at hlen
    constructor
    · intro hv
      obtain ⟨w, hw, rfl⟩ := List.mem_map.mp hv
      by_cases hlen : 2 ≤ w.length
      · exact (h w hw hlen).1
      · obtain ⟨part, rfl, hflat⟩ := hwhole w hw hlen
        rw [hflat]
        exact List.mem_flatten.mpr ⟨[part], hw, List.mem_cons_self⟩
    · intro hv
      obtain ⟨w, hw, hvw⟩ := List.mem_flatten.mp hv
      by_cases hlen : 2 ≤ w.length
      · exact (h w hw hlen).2 v hvw
      · obtain ⟨part, rfl, hflat⟩ := hwhole w hw hlen
        rw [List.mem_singleton.mp hvw, ← hflat]
        exact List.mem_map_of_mem hw

/-! ## Words joined by one separator -/

section Separated
variable [DecidableEq α] (kind : α → Bool) (sep : α)

/-- Each run of characters not of the kind becomes one separator; after the first character
of a run (`skipping`) the rest of it is passed over. -/
def replaceRunsFrom (skipping : Bool) : List α → List α
  | [] => []
  | c :: s =>
    if kind c then c :: replaceRunsFrom false s
    else if skipping then replaceRunsFrom true s else sep :: replaceRunsFrom true s

def replaceRuns (s : List α) : List α := replaceRunsFrom kind sep false s

def trimEnd (s : List α) : List α := s.rdropWhile (· == sep)

def trimEnds (s : List α) : List α := trimEnd sep (s.dropWhile (· == sep))

/-- Characters of the kind and separators, of which no two stand together. -/
structure Separated (s : List α) : Prop where
  plain : ∀ c ∈ s, kind c = true ∨ c = sep
  single : s.IsChain fun c d => c ≠ sep ∨ d ≠ sep

/-- Words of the kind with a separator between each two of them. -/
structure Delimited (s : List α) : Prop extends Separated kind sep s where
  first : s.head? ≠ some sep
  last : s.getLast? ≠ some sep

variable {kind sep} {s t : List α}

omit [DecidableEq α] in
theorem Separated.part (h : Separated kind sep t) (hs : s <:+: t) : Separated kind sep s :=
  ⟨fun c hc => h.plain c (hs.subset hc), List.IsChain.infix h.single hs⟩

omit [DecidableEq α] in
theorem Separated.tail {c : α} (h : Separated kind sep (c :: s)) : Separated kind sep s :=
  h.part (List.suffix_cons c s).isInfix

theorem separated_cons {c : α} : Separated kind sep (c :: s) ↔
    (kind c = true ∨ c = sep) ∧ (c = sep → s.head? ≠ some sep) ∧ Separated kind sep s := by
  constructor
  · intro h
    refine ⟨h.plain c List.mem_cons_self, fun hc hs => ?_, h.tail⟩
    rcases h.single.rel_head? hs with hne | hne
    · exact hne hc
    · exact hne rfl
  · rintro ⟨hc, hhead, hs⟩
    refine ⟨List.forall_mem_cons.mpr ⟨hc, hs.plain⟩, hs.single.cons fun d hd => ?_⟩
    by_cases hcs : c = sep
    · exact .inr fun hds => hhead hcs (hds ▸ hd)
    · exact .inl hcs

theorem separated_replaceRunsFrom (hsep : kind sep = false) (skipping : Bool) (s : List α) :
    Separated kind sep (replaceRunsFrom kind sep skipping s) ∧
      (skipping = true → (replaceRunsFrom kind sep skipping s).head? ≠ some sep) := by
  induction s generalizing skipping with
  | nil => exact ⟨⟨by simp [replaceRunsFrom], .nil⟩, by simp [replaceRunsFrom]⟩
  | cons c s ih =>
    rw [replaceRunsFrom]
    by_cases hc : kind c = true
    · have hne : c ≠ sep := by
        rintro rfl
        simp [hc] at hsep
      rw [if_pos hc]
      exact ⟨separated_cons.mpr ⟨.inl hc, fun h => absurd h hne, (ih false).1⟩,
        fun _ => by simpa using hne⟩
    · rw [if_neg hc]
      cases skipping with
      | true => exact ih true
      | false => exact ⟨separated_cons.mpr ⟨.inr rfl, fun _ => (ih true).2 rfl, (ih true).1⟩, by simp⟩

theorem separated_replaceRuns (hsep : kind sep = false) (s : List α) :
    Separated kind sep (replaceRuns kind sep s) :=
  (separated_replaceRunsFrom hsep false s).1

/-- Where the runs are separators already, each has one: a run is open only after a separator,
and then the next character is of the kind. -/
theorem replaceRunsFrom_eq (hsep : kind sep = false) {skipping : Bool}
    (h : Separated kind sep s) (hopen : skipping = true → s.head? ≠ some sep) :
    replaceRunsFrom kind sep skipping s = s := by
  induction s generalizing skipping with
  | nil => rfl
  | cons c s ih =>
    obtain ⟨hc, hhead, hs⟩ := separated_cons.mp h
    rw [replaceRunsFrom]
    rcases hc with hc | rfl
    · rw [if_pos hc, ih hs (by simp)]
    · have hclosed : skipping = false := by simpa using hopen
      rw [if_neg (by simp [hsep]), hclosed, if_neg (by simp), ih hs fun _ => hhead rfl]

theorem replaceRuns_eq (hsep : kind sep = false) (h : Separated kind sep s) :
    replaceRuns kind sep s = s :=
  replaceRunsFrom_eq hsep h (by simp)

theorem trimEnd_start (s : List α) : trimEnd sep s <+: s := List.rdropWhile_prefix _ _

theorem trimEnd_last (s : List α) : (trimEnd sep s).getLast? ≠ some sep := by
  intro h
  have hne : trimEnd sep s ≠ [] := by
    intro hnil
    simp [hnil] at h
  have hlast : (trimEnd sep s).getLast hne = sep := by
    simpa [List.getLast?_eq_some_getLast hne] using h
  exact List.rdropWhile_last_not _ _ hne (beq_iff_eq.mpr hlast)

theorem trimEnd_eq (h : s.getLast? ≠ some sep) : trimEnd sep s = s := by
  refine List.rdropWhile_eq_self_iff.mpr fun hne hlast => h ?_
  rw [List.getLast?_eq_some_getLast hne, beq_iff_eq.mp hlast]

theorem trimEnd_replicate (s : List α) (n : Nat) :
    trimEnd sep (s ++ List.replicate n sep) = trimEnd sep s := by
  induction n with
  | zero => rw [List.replicate_zero, List.append_nil]
  | succ n ih =>
    rw [List.replicate_succ', ← List.append_assoc, ← ih]
    exact List.rdropWhile_concat_pos _ _ _ (beq_self_eq_true sep)

theorem dropWhile_first (s : List α) : (s.dropWhile (· == sep)).head? ≠ some sep := by
  intro h
  have hnot := List.head?_dropWhile_not (· == sep) s
  simp [h] at hnot

/-- Separated text is delimited when it is trimmed at both ends, cut somewhere and trimmed
again where it was cut. -/
theorem delimited_trimEnd_take (h : Separated kind sep s) (n : Nat) :
    Delimited kind sep (trimEnd sep ((trimEnds sep s).take n)) := by
  have hcut : trimEnd sep ((trimEnds sep s).take n) <+: s.dropWhile (· == sep) :=
    ((trimEnd_start _).trans (List.take_prefix n _)).trans (trimEnd_start _)
  refine ⟨h.part (hcut.isInfix.trans (List.dropWhile_suffix _).isInfix), fun hfirst => ?_,
    trimEnd_last _⟩
  obtain ⟨rest, hrest⟩ := hcut
  have hnot : (s.dropWhile (· == sep)).head? ≠ some sep := dropWhile_first s
  rw [← hrest, List.head?_append, hfirst, Option.some_or] at hnot
  exact hnot rfl

theorem trimEnds_eq (h : Delimited kind sep s) : trimEnds sep s = s := by
  rw [trimEnds, List.dropWhile_beq_eq_self_of_head?_ne h.first, trimEnd_eq h.last]

omit [DecidableEq α] in
theorem separated_nil : Separated kind sep [] := ⟨by simp, .nil⟩

omit [DecidableEq α] in
theorem getLast?_cons_ne {c : α} :
    (c :: s).getLast? ≠ some sep ↔ (s = [] → c ≠ sep) ∧ s.getLast? ≠ some sep := by
  cases s with
  | nil => simp
  | cons d s => simp [List.getLast?_cons_cons]

theorem splitOn_cons_sep (s : List α) : (sep :: s).splitOn sep = [] :: s.splitOn sep := by
  rw [List.splitOn_cons_eq_if_modifyHead, if_pos (beq_self_eq_true sep)]

theorem splitOn_cons_ne {c : α} (hc : c ≠ sep) (s : List α) :
    (c :: s).splitOn sep = (s.splitOn sep).modifyHead (c :: ·) := by
  rw [List.splitOn_cons_eq_if_modifyHead, if_neg (by simpa using hc)]

variable (kind sep) in
/-- The parts between the separators: the first is empty when the text begins with one, and of
the others one is empty when two stand together or one stands last. -/
theorem splitOn_parts (s : List α) : ∃ part rest, s.splitOn sep = part :: rest ∧
    (part = [] ↔ s = [] ∨ s.head? = some sep) ∧
    ((∀ c ∈ part, kind c = true) ∧ (∀ run ∈ rest, run ≠ [] ∧ ∀ c ∈ run, kind c = true) ↔
      Separated kind sep s ∧ s.getLast? ≠ some sep) := by
  induction s with
  | nil => exact ⟨[], [], List.splitOn_nil sep, by simp, by simp [separated_nil]⟩
  | cons c s ih =>
    obtain ⟨part, rest, hsplit, hempty, hall⟩ := ih
    rw [separated_cons, getLast?_cons_ne]
    by_cases hc : c = sep
    · subst hc
      refine ⟨[], part :: rest, by rw [splitOn_cons_sep, hsplit], by simp, ?_⟩
      rw [List.forall_mem_cons]
      constructor
      · rintro ⟨-, ⟨hne, hpart⟩, hrest⟩
        obtain ⟨hs, hlast⟩ := hall.mp ⟨hpart, hrest⟩
        exact ⟨⟨.inr rfl, fun _ hhead => hne (hempty.mpr (.inr hhead)), hs⟩,
          fun hnil => absurd (hempty.mpr (.inl hnil)) hne, hlast⟩
      · rintro ⟨⟨-, hhead, hs⟩, hnil, hlast⟩
        obtain ⟨hpart, hrest⟩ := hall.mpr ⟨hs, hlast⟩
        refine ⟨by simp, ⟨fun h => ?_, hpart⟩, hrest⟩
        rcases hempty.mp h with h | h
        · exact hnil h rfl
        · exact hhead rfl h
    · refine ⟨c :: part, rest, by rw [splitOn_cons_ne hc, hsplit]; rfl, by simp [hc], ?_⟩
      rw [List.forall_mem_cons]
      constructor
      · rintro ⟨⟨hkind, hpart⟩, hrest⟩
        obtain ⟨hs, hlast⟩ := hall.mp ⟨hpart, hrest⟩
        exact ⟨⟨.inl hkind, fun h => absurd h hc, hs⟩, fun _ => hc, hlast⟩
      · rintro ⟨⟨hkind, -, hs⟩, -, hlast⟩
        obtain ⟨hpart, hrest⟩ := hall.mpr ⟨hs, hlast⟩
        exact ⟨⟨hkind.resolve_right hc, hpart⟩, hrest⟩

/-- The pattern of runs with single separators between them. -/
theorem splitOn_runs_iff (s : List α) :
    (∀ run ∈ s.splitOn sep, run ≠ [] ∧ ∀ c ∈ run, kind c = true) ↔
      s ≠ [] ∧ Delimited kind sep s := by
  obtain ⟨part, rest, hsplit, hempty, hall⟩ := splitOn_parts kind sep s
  rw [hsplit, List.forall_mem_cons]
  constructor
  · rintro ⟨⟨hne, hpart⟩, hrest⟩
    obtain ⟨hs, hlast⟩ := hall.mp ⟨hpart, hrest⟩
    exact ⟨fun h => hne (hempty.mpr (.inl h)), hs, fun h => hne (hempty.mpr (.inr h)), hlast⟩
  · rintro ⟨hne, hs, hfirst, hlast⟩
    obtain ⟨hpart, hrest⟩ := hall.mpr ⟨hs, hlast⟩
    refine ⟨⟨fun h => ?_, hpart⟩, hrest⟩
    rcases hempty.mp h with h | h
    · exact hne h
    · exact hfirst h

omit [DecidableEq α] in
/-- A text over another alphabet with the same words is delimited alike. -/
theorem delimited_map {kind' : β → Bool} {sep' : β} {f : α → β}
    (hkind : ∀ c ∈ s, kind' (f c) = kind c) (hsep : ∀ c ∈ s, f c = sep' ↔ c = sep) :
    Delimited kind' sep' (s.map f) ↔ Delimited kind sep s := by
  have hplain : (∀ c ∈ s.map f, kind' c = true ∨ c = sep') ↔ ∀ c ∈ s, kind c = true ∨ c = sep := by
    rw [List.forall_mem_map]
    exact forall₂_congr fun c hc => by rw [hkind c hc, hsep c hc]
  have hsingle : ((s.map f).IsChain fun c d => c ≠ sep' ∨ d ≠ sep') ↔
      s.IsChain fun c d => c ≠ sep ∨ d ≠ sep := by
    rw [List.isChain_map]
    exact List.IsChain.iff_of_mem_imp fun c d hc hd => by rw [Ne, hsep c hc, Ne, hsep d hd]
  have hfirst : (s.map f).head? ≠ some sep' ↔ s.head? ≠ some sep := by
    cases s with
    | nil => simp
    | cons c s => simp [hsep c List.mem_cons_self]
  have hlast : (s.map f).getLast? ≠ some sep' ↔ s.getLast? ≠ some sep := by
    cases hs : s.getLast? with
    | none => simp [List.getLast?_map, hs]
    | some c => simp [List.getLast?_map, hs, hsep c (List.mem_of_getLast? hs)]
  constructor
  · rintro ⟨⟨hp, hc⟩, hf, hl⟩
    exact ⟨⟨hplain.mp hp, hsingle.mp hc⟩, hfirst.mp hf, hlast.mp hl⟩
  · rintro ⟨⟨hp, hc⟩, hf, hl⟩
    exact ⟨⟨hplain.mpr hp, hsingle.mpr hc⟩, hfirst.mpr hf, hlast.mpr hl⟩

end Separated

/-! ## What one separator splits -/

section Split
variable {sep : α} {a b c d : List α}

/-- A text is cut in one way at the first of its separators. -/
theorem split_unique (ha : sep ∉ a) (hc : sep ∉ c) (h : a ++ sep :: b = c ++ sep :: d) :
    a = c ∧ b = d := by
  induction a generalizing c with
  | nil =>
    cases c with
    | nil => exact ⟨rfl, (List.cons.inj h).2⟩
    | cons x c =>
      obtain ⟨rfl, -⟩ := List.cons.inj h
      exact absurd List.mem_cons_self hc
  | cons x a ih =>
    cases c with
    | nil =>
      obtain ⟨rfl, -⟩ := List.cons.inj h
      exact absurd List.mem_cons_self ha
    | cons y c =>
      obtain ⟨rfl, htail⟩ := List.cons.inj h
      obtain ⟨rfl, rfl⟩ := ih (fun hm => ha (List.mem_cons_of_mem _ hm))
        (fun hm => hc (List.mem_cons_of_mem _ hm)) htail
      exact ⟨rfl, rfl⟩

/-- A text with a separator in it has the part before the first one, and the parts of the rest. -/
theorem splitOn_of_mem [DecidableEq α] {l : List α} (h : sep ∈ l) :
    ∃ a b, l = a ++ sep :: b ∧ sep ∉ a ∧ l.splitOn sep = a :: b.splitOn sep := by
  obtain ⟨a, b, rfl, ha⟩ := List.eq_append_cons_of_mem h
  exact ⟨a, b, rfl, ha, List.splitOn_append_cons_self_of_not_mem ha b⟩

/-- Two parts: there is one separator, and they stand before and behind it. -/
theorem splitOn_eq_pair [DecidableEq α] {l : List α} :
    l.splitOn sep = [a, b] ↔ l = a ++ sep :: b ∧ sep ∉ a ∧ sep ∉ b := by
  constructor
  · intro h
    by_cases hmem : sep ∈ l
    · obtain ⟨pre, post, rfl, hpre, hsplit⟩ := splitOn_of_mem hmem
      rw [hsplit, List.cons.injEq] at h
      obtain ⟨rfl, hpost⟩ := h
      by_cases hagain : sep ∈ post
      · obtain ⟨c, d, -, -, hsplit⟩ := splitOn_of_mem hagain
        rw [hsplit, List.cons.injEq] at hpost
        exact absurd hpost.2 (List.splitOn_ne_nil sep d)
      · rw [List.splitOn_eq_singleton hagain, List.cons.injEq] at hpost
        obtain ⟨rfl, -⟩ := hpost
        exact ⟨rfl, hpre, hagain⟩
    · rw [List.splitOn_eq_singleton hmem] at h
      cases h
  · rintro ⟨rfl, ha, hb⟩
    rw [List.splitOn_append_cons_self_of_not_mem ha, List.splitOn_eq_singleton hb]

theorem split_unique_last (hb : sep ∉ b) (hd : sep ∉ d) (h : a ++ sep :: b = c ++ sep :: d) :
    a = c ∧ b = d := by
  have hreverse : b.reverse ++ sep :: a.reverse = d.reverse ++ sep :: c.reverse := by
    simpa using congrArg List.reverse h
  obtain ⟨hbd, hac⟩ := split_unique (mt List.mem_reverse.mp hb) (mt List.mem_reverse.mp hd) hreverse
  exact ⟨List.reverse_injective hac, List.reverse_injective hbd⟩

/-- What comes before and after the last separator. -/
def splitLast [DecidableEq α] (sep : α) : List α → Option (List α × List α)
  | [] => none
  | c :: rest =>
    match splitLast sep rest with
    | some (before, after) => some (c :: before, after)
    | none => if c = sep then some ([], rest) else none

variable [DecidableEq α]

theorem splitLast_eq_none {l : List α} : splitLast sep l = none ↔ sep ∉ l := by
  induction l with
  | nil => exact iff_of_true rfl List.not_mem_nil
  | cons c rest ih =>
    rw [splitLast, List.mem_cons, not_or, ← ih]
    cases splitLast sep rest with
    | some parts => simp
    | none =>
      by_cases hc : c = sep
      · simp [hc]
      · simp [hc, Ne.symm hc]

theorem eq_of_splitLast {l : List α} (h : splitLast sep l = some (a, b)) :
    l = a ++ sep :: b ∧ sep ∉ b := by
  induction l generalizing a with
  | nil => cases h
  | cons c rest ih =>
    rw [splitLast] at h
    cases hrest : splitLast sep rest with
    | some parts =>
      rw [hrest] at h
      cases h
      obtain ⟨heq, hnot⟩ := ih hrest
      exact ⟨congrArg (c :: ·) heq, hnot⟩
    | none =>
      rw [hrest] at h
      by_cases hc : c = sep
      · simp only [if_pos hc, Option.some.injEq, Prod.mk.injEq] at h
        obtain ⟨rfl, rfl⟩ := h
        exact ⟨by rw [hc, List.nil_append], splitLast_eq_none.mp hrest⟩
      · simp only [if_neg hc, reduceCtorEq] at h

/-- **The last separator** is the one that has none behind it. -/
theorem splitLast_eq_some {l : List α} :
    splitLast sep l = some (a, b) ↔ l = a ++ sep :: b ∧ sep ∉ b := by
  refine ⟨eq_of_splitLast, ?_⟩
  rintro ⟨rfl, hnot⟩
  cases hsplit : splitLast sep (a ++ sep :: b) with
  | none => exact absurd (List.mem_append_right a List.mem_cons_self) (splitLast_eq_none.mp hsplit)
  | some parts =>
    obtain ⟨heq, hnot'⟩ := eq_of_splitLast (a := parts.1) (b := parts.2) hsplit
    obtain ⟨rfl, rfl⟩ := split_unique_last hnot hnot' heq
    rfl

end Split
end Words
