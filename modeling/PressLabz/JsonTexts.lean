import PressLabz.Utf16

/-! # JSON, as text

`JSON.parse`, in two machines that each go through their input once: one makes tokens of the
characters, the other a value of the tokens.  A string is any sequence of 16-bit units; of a
number the text is kept, and what it is worth is the language's business.  `quoted` is how
`JSON.stringify` writes a string: with a half of a pair escaped, so that the text is always
well formed (`lex_quoted` reads it back).
-/
namespace JsonText
open Utf16

/-! ## Strings, written -/

def hexDigit (n : Nat) : Char := if n < 10 then Char.ofNat (n + 48) else Char.ofNat (n + 87)

/-- `\u` and four digits. -/
def unicodeEscape (u : UInt16) : List Char :=
  ['\\', 'u', hexDigit (u.toNat / 0x1000), hexDigit (u.toNat / 0x100 % 16),
    hexDigit (u.toNat / 16 % 16), hexDigit (u.toNat % 16)]

/-- The characters with an escape of their own. -/
def shortEscapes : List (UInt16 × Char) :=
  [(0x08, 'b'), (0x09, 't'), (0x0A, 'n'), (0x0C, 'f'), (0x0D, 'r'), (0x22, '"'), (0x5C, '\\')]

/-- A unit that is no part of a pair. -/
def quoteUnit (u : UInt16) : List Char :=
  match shortEscapes.find? fun escape => escape.1 = u with
  | some escape => ['\\', escape.2]
  | none => if u.toNat < 0x20 || isHigh u || isLow u then unicodeEscape u else [single u]

def quoteUnits : List UInt16 → List Char
  | u :: v :: rest =>
    if isHigh u && isLow v then pair u v :: quoteUnits rest
    else quoteUnit u ++ quoteUnits (v :: rest)
  | [u] => quoteUnit u
  | [] => []

/-- A string literal. -/
def quoted (units : List UInt16) : List Char := '"' :: (quoteUnits units ++ ['"'])

/-! ## Tokens -/

inductive Token where
  | openObject
  | closeObject
  | openArray
  | closeArray
  | colon
  | comma
  | string (units : List UInt16)
  /-- A number or a name. -/
  | word (text : List Char)
  deriving DecidableEq

/-- Where the machine is in its text. -/
inductive LexState where
  | free
  | word (read : List Char)
  | string (units : List UInt16)
  /-- The machine is behind a backslash. -/
  | escape (units : List UInt16)
  /-- The machine is behind `\u` and `count` digits. -/
  | hex (units : List UInt16) (value count : Nat)

def isBlank (c : Char) : Bool := c ∈ [' ', '\t', '\n', '\r']

def structural : Char → Option Token
  | '{' => some .openObject
  | '}' => some .closeObject
  | '[' => some .openArray
  | ']' => some .closeArray
  | ':' => some .colon
  | ',' => some .comma
  | _ => none

def isWordChar (c : Char) : Bool := c.isAlphanum || c ∈ ['+', '-', '.']

/-- What may stand behind a backslash, apart from `u`. -/
def unescape : Char → Option UInt16
  | '"' => some 0x22
  | '\\' => some 0x5C
  | '/' => some 0x2F
  | 'b' => some 0x08
  | 'f' => some 0x0C
  | 'n' => some 0x0A
  | 'r' => some 0x0D
  | 't' => some 0x09
  | _ => none

def hexValue (c : Char) : Option Nat :=
  if 48 ≤ c.toNat ∧ c.toNat ≤ 57 then some (c.toNat - 48)
  else if 97 ≤ c.toNat ∧ c.toNat ≤ 102 then some (c.toNat - 87)
  else if 65 ≤ c.toNat ∧ c.toNat ≤ 70 then some (c.toNat - 55)
  else none

/-- A character outside of strings and words. -/
def beginAt (c : Char) : Option (List Token × LexState) :=
  if isBlank c then some ([], .free)
  else if c = '"' then some ([], .string [])
  else
    match structural c with
    | some token => some ([token], .free)
    | none => if isWordChar c then some ([], .word [c]) else none

def lexStep : LexState → Char → Option (List Token × LexState)
  | .free, c => beginAt c
  | .word read, c =>
    if isWordChar c then some ([], .word (read ++ [c]))
    else (beginAt c).map fun next => (.word read :: next.1, next.2)
  | .string units, c =>
    if c = '"' then some ([.string units], .free)
    else if c = '\\' then some ([], .escape units)
    else if c.toNat < 0x20 then none
    else some ([], .string (units ++ unitsOf c))
  | .escape units, c =>
    match unescape c with
    | some u => some ([], .string (units ++ [u]))
    | none => if c = 'u' then some ([], .hex units 0 0) else none
  | .hex units value count, c =>
    match hexValue c with
    | none => none
    | some d =>
      if count = 3 then some ([], .string (units ++ [(value * 16 + d).toUInt16]))
      else some ([], .hex units (value * 16 + d) (count + 1))

/-- The tokens of a text. -/
def lex : LexState → List Char → Option (List Token)
  | .free, [] => some []
  | .word read, [] => some [.word read]
  | _, [] => none
  | state, c :: text =>
    match lexStep state c with
    | none => none
    | some (tokens, next) => (lex next text).map (tokens ++ ·)

/-! ## Values -/

/-- The digits of an exponent, behind its sign. -/
def isExponentDigits (text : List Char) : Bool := !text.isEmpty && text.all Char.isDigit

def isExponent : List Char → Bool
  | [] => true
  | e :: '+' :: rest => (e == 'e' || e == 'E') && isExponentDigits rest
  | e :: '-' :: rest => (e == 'e' || e == 'E') && isExponentDigits rest
  | e :: rest => (e == 'e' || e == 'E') && isExponentDigits rest

def isFraction : List Char → Bool
  | '.' :: d :: rest => d.isDigit && isExponent (rest.dropWhile Char.isDigit)
  | text => isExponent text

def isUnsigned : List Char → Bool
  | [] => false
  | d :: rest =>
    if d = '0' then isFraction rest
    else d.isDigit && isFraction (rest.dropWhile Char.isDigit)

/-- `-?(0|[1-9]\d*)(\.\d+)?([eE][+-]?\d+)?`. -/
def isNumber : List Char → Bool
  | '-' :: rest => isUnsigned rest
  | text => isUnsigned text

section Values
variable {N : Type}

inductive Value (N : Type) where
  | null
  | bool (b : Bool)
  | number (n : N)
  | string (units : List UInt16)
  | array (items : List (Value N))
  | object (fields : List (List UInt16 × Value N))

/-- What the value at hand is a part of. -/
inductive Frame (N : Type) where
  | item (before : List (Value N))
  | field (before : List (List UInt16 × Value N)) (key : List UInt16)

/-- What the parser may be given next. -/
inductive Expected (N : Type) where
  | value
  /-- A value, or the end of an array. -/
  | firstItem
  | key (before : List (List UInt16 × Value N))
  /-- A key, or the end of an object. -/
  | firstKey
  | colon (before : List (List UInt16 × Value N)) (key : List UInt16)
  /-- What the value is a part of goes on, or ends. -/
  | more (value : Value N)

variable (read : List Char → N)

/-- A number, or one of the three names. -/
def wordValue (text : List Char) : Option (Value N) :=
  if text = ['n', 'u', 'l', 'l'] then some .null
  else if text = ['t', 'r', 'u', 'e'] then some (.bool true)
  else if text = ['f', 'a', 'l', 's', 'e'] then some (.bool false)
  else if isNumber text then some (.number (read text)) else none

def beginValue (stack : List (Frame N)) : Token → Option (Expected N × List (Frame N))
  | .string units => some (.more (.string units), stack)
  | .word text => (wordValue read text).map fun value => (.more value, stack)
  | .openArray => some (.firstItem, stack)
  | .openObject => some (.firstKey, stack)
  | _ => none

def parseStep (state : Expected N × List (Frame N)) (token : Token) :
    Option (Expected N × List (Frame N)) :=
  match state, token with
  | (.value, stack), token => beginValue read stack token
  | (.firstItem, stack), .closeArray => some (.more (.array []), stack)
  | (.firstItem, stack), token => beginValue read (.item [] :: stack) token
  | (.firstKey, stack), .closeObject => some (.more (.object []), stack)
  | (.firstKey, stack), .string key => some (.colon [] key, stack)
  | (.key before, stack), .string key => some (.colon before key, stack)
  | (.colon before key, stack), .colon => some (.value, .field before key :: stack)
  | (.more value, .item before :: stack), .comma => some (.value, .item (before ++ [value]) :: stack)
  | (.more value, .item before :: stack), .closeArray =>
    some (.more (.array (before ++ [value])), stack)
  | (.more value, .field before key :: stack), .comma =>
    some (.key (before ++ [(key, value)]), stack)
  | (.more value, .field before key :: stack), .closeObject =>
    some (.more (.object (before ++ [(key, value)])), stack)
  | _, _ => none

def parseFrom (state : Expected N × List (Frame N)) : List Token → Option (Value N)
  | [] =>
    match state with
    | (.more value, []) => some value
    | _ => none
  | token :: tokens =>
    match parseStep read state token with
    | none => none
    | some next => parseFrom next tokens

/-- `JSON.parse`, none where it throws. -/
def parse (text : List Char) : Option (Value N) :=
  match lex .free text with
  | none => none
  | some tokens => parseFrom read (.value, []) tokens

/-- A property of what was parsed: the last of its name. -/
def Value.get (value : Value N) (key : List UInt16) : Option (Value N) :=
  match value with
  | .object fields => (fields.reverse.find? fun field => field.1 = key).map Prod.snd
  | _ => none

end Values
/-! ## What is written is read back -/

section Reading
variable {state next : LexState} {tokens : List Token} {c : Char} {text : List Char}
  {units : List UInt16} {u : UInt16}

theorem lex_step (h : lexStep state c = some (tokens, next)) (text : List Char) :
    lex state (c :: text) = (lex next text).map (tokens ++ ·) := by
  cases state with
  | free | word | string | escape | hex =>
    rw [lex, h]

theorem lex_quiet (h : lexStep state c = some ([], next)) (text : List Char) :
    lex state (c :: text) = lex next text := by
  rw [lex_step h]
  exact Option.map_id'

theorem hexValue_hexDigit : ∀ n < 16, hexValue (hexDigit n) = some n := by decide

theorem unescape_short : ∀ escape ∈ shortEscapes, unescape escape.2 = some escape.1 := by decide

theorem lex_backslash (units : List UInt16) (text : List Char) :
    lex (.string units) ('\\' :: text) = lex (.escape units) text := lex_quiet rfl text

theorem lex_hex {value count n : Nat} (hn : n < 16) (hcount : count < 3) (text : List Char) :
    lex (.hex units value count) (hexDigit n :: text) =
      lex (.hex units (value * 16 + n) (count + 1)) text := by
  refine lex_quiet ?_ text
  rw [lexStep, hexValue_hexDigit n hn]
  exact if_neg (by omega)

theorem lex_hex_last {value n : Nat} (hn : n < 16) (text : List Char) :
    lex (.hex units value 3) (hexDigit n :: text) =
      lex (.string (units ++ [(value * 16 + n).toUInt16])) text := by
  refine lex_quiet ?_ text
  rw [lexStep, hexValue_hexDigit n hn]
  exact if_pos rfl

theorem lex_unicodeEscape (units : List UInt16) (u : UInt16) (text : List Char) :
    lex (.string units) (unicodeEscape u ++ text) = lex (.string (units ++ [u])) text := by
  have hlt : u.toNat < 0x10000 := u.toNat_lt
  have hvalue : (((0 * 16 + u.toNat / 0x1000) * 16 + u.toNat / 0x100 % 16) * 16 +
      u.toNat / 16 % 16) * 16 + u.toNat % 16 = u.toNat := by omega
  have hunit : u.toNat.toUInt16 = u := by rw [← UInt16.toNat_inj, toNat_toUInt16 hlt]
  have hu : lex (.escape units) ('u' :: (hexDigit (u.toNat / 0x1000) ::
      hexDigit (u.toNat / 0x100 % 16) :: hexDigit (u.toNat / 16 % 16) ::
      hexDigit (u.toNat % 16) :: text)) = lex (.hex units 0 0) _ := lex_quiet rfl _
  show lex (.string units) ('\\' :: 'u' :: _ :: _ :: _ :: _ :: text) = _
  rw [lex_backslash, hu, lex_hex (by omega) (by decide), lex_hex (by omega) (by decide),
    lex_hex (by omega) (by decide), lex_hex_last (by omega), hvalue, hunit]

/-- A character that stands for itself adds its units to the string at hand. -/
theorem lex_plain (hquote : c ≠ '"') (hslash : c ≠ '\\') (hspace : 0x20 ≤ c.toNat)
    (units : List UInt16) (text : List Char) :
    lex (.string units) (c :: text) = lex (.string (units ++ unitsOf c)) text := by
  refine lex_quiet ?_ text
  rw [lexStep, if_neg hquote, if_neg hslash, if_neg (Nat.not_lt.mpr hspace)]

theorem lex_pair {v : UInt16} (hu : isHigh u = true) (hv : isLow v = true) (units : List UInt16)
    (text : List Char) :
    lex (.string units) (pair u v :: text) = lex (.string (units ++ [u, v])) text := by
  have hpair := toNat_pair hu hv
  have hfar {c : Char} (hc : c.toNat < 0x10000) : pair u v ≠ c := by
    intro heq
    rw [← heq, hpair] at hc
    omega
  rw [lex_plain (hfar (by decide)) (hfar (by decide)) (by omega), unitsOf_pair hu hv]

theorem lex_quoteUnit (units : List UInt16) (u : UInt16) (text : List Char) :
    lex (.string units) (quoteUnit u ++ text) = lex (.string (units ++ [u])) text := by
  rw [quoteUnit]
  cases hfind : shortEscapes.find? fun escape => escape.1 = u with
  | some escape =>
    have hmem := List.mem_of_find?_eq_some hfind
    have hkey : escape.1 = u := by simpa using List.find?_some hfind
    show lex (.string units) ('\\' :: escape.2 :: text) = _
    rw [lex_backslash]
    refine lex_quiet ?_ text
    rw [lexStep, unescape_short escape hmem, hkey]
  | none =>
    have hnone := List.find?_eq_none.mp hfind
    by_cases hescape : (decide (u.toNat < 0x20) || isHigh u || isLow u) = true
    · rw [if_pos hescape]
      exact lex_unicodeEscape units u text
    · rw [if_neg hescape]
      simp only [Bool.or_eq_true, not_or, Bool.not_eq_true, decide_eq_false_iff_not] at hescape
      have hplain : (isHigh u || isLow u) = false := by rw [hescape.1.2, hescape.2, Bool.or_self]
      have hother {c : Char} {v : UInt16} (hv : (v, c) ∈ shortEscapes) (hcv : v.toNat = c.toNat) :
          single u ≠ c := by
        intro heq
        have hu : v = u := by rw [← UInt16.toNat_inj, hcv, ← heq, toNat_single hplain]
        exact hnone _ hv (decide_eq_true hu)
      rw [List.singleton_append, lex_plain (hother (v := 0x22) (by decide) (by decide))
        (hother (v := 0x5C) (by decide) (by decide))
        (by rw [toNat_single hplain]; omega), unitsOf_single hplain]

theorem lex_quoteUnits (units more : List UInt16) (text : List Char) :
    lex (.string units) (quoteUnits more ++ text) = lex (.string (units ++ more)) text := by
  fun_induction quoteUnits more generalizing units with
  | case1 u v rest hpair ih =>
    rw [Bool.and_eq_true] at hpair
    rw [List.cons_append, lex_pair hpair.1 hpair.2, ih, List.append_assoc]
    rfl
  | case2 u v rest hpair ih =>
    rw [List.append_assoc, lex_quoteUnit, ih, List.append_assoc]
    rfl
  | case3 u => exact lex_quoteUnit units u text
  | case4 => rw [List.append_nil, List.nil_append]

/-- **A string literal is read back**, whatever its units. -/
theorem lex_quoted (units : List UInt16) (text : List Char) :
    lex .free (quoted units ++ text) = (lex .free text).map (.string units :: ·) := by
  have hopen : lex .free ('"' :: (quoteUnits units ++ '"' :: text)) =
      lex (.string []) (quoteUnits units ++ '"' :: text) := lex_quiet rfl _
  have hclose : lexStep (.string units) '"' = some ([.string units], .free) := rfl
  show lex .free ('"' :: (quoteUnits units ++ ['"'] ++ text)) = _
  rw [List.append_assoc, List.singleton_append, hopen, lex_quoteUnits, List.nil_append,
    lex_step hclose]
  rfl

/-! ## Words -/

theorem structural_word (h : isWordChar c = true) : structural c = none := by
  unfold structural
  split
  case h_7 => rfl
  all_goals exact absurd h (by decide)

/-- A word begins with each of its characters. -/
theorem beginAt_word (h : isWordChar c = true) : beginAt c = some ([], .word [c]) := by
  have hblank : ¬ isBlank c = true := by
    intro hblank
    simp only [isBlank, List.mem_cons, List.not_mem_nil, or_false, decide_eq_true_eq] at hblank
    rcases hblank with rfl | rfl | rfl | rfl
    all_goals exact absurd h (by decide)
  have hquote : c ≠ '"' := by
    rintro rfl
    exact absurd h (by decide)
  rw [beginAt, if_neg hblank, if_neg hquote, structural_word h]
  exact if_pos h

theorem lex_word {word : List Char} (h : ∀ c ∈ word, isWordChar c = true) (read text : List Char) :
    lex (.word read) (word ++ text) = lex (.word (read ++ word)) text := by
  induction word generalizing read with
  | nil => rw [List.nil_append, List.append_nil]
  | cons c word ih =>
    obtain ⟨hc, hword⟩ := List.forall_mem_cons.mp h
    have hstep : lexStep (.word read) c = some ([], .word (read ++ [c])) := if_pos hc
    rw [List.cons_append, lex_quiet hstep, ih hword, List.append_assoc, List.singleton_append]

theorem isWordChar_of_isDigit (h : c.isDigit = true) : isWordChar c = true := by
  simp [isWordChar, Char.isAlphanum, h]

theorem forall_of_dropWhile {p : Char → Bool} {P : Char → Prop} (hp : ∀ c, p c = true → P c)
    (h : ∀ c ∈ text.dropWhile p, P c) : ∀ c ∈ text, P c := by
  induction text with
  | nil => exact h
  | cons c text ih =>
    by_cases hc : p c = true
    · rw [List.dropWhile_cons_of_pos hc] at h
      exact List.forall_mem_cons.mpr ⟨hp c hc, ih h⟩
    · rwa [List.dropWhile_cons_of_neg hc] at h

theorem isExponentDigits_chars (h : isExponentDigits text = true) :
    ∀ c ∈ text, isWordChar c = true := by
  rw [isExponentDigits, Bool.and_eq_true, List.all_eq_true] at h
  exact fun c hc => isWordChar_of_isDigit (h.2 c hc)

theorem exponent_chars {e : Char} {sign : List Char} (hsign : ∀ c ∈ sign, isWordChar c = true)
    (h : ((e == 'e' || e == 'E') && isExponentDigits text) = true) :
    ∀ c ∈ e :: (sign ++ text), isWordChar c = true := by
  rw [Bool.and_eq_true, Bool.or_eq_true, beq_iff_eq, beq_iff_eq] at h
  have he : isWordChar e = true := by
    rcases h.1 with rfl | rfl
    · rfl
    · rfl
  rw [List.forall_mem_cons, List.forall_mem_append]
  exact ⟨he, hsign, isExponentDigits_chars h.2⟩

theorem isExponent_chars (h : isExponent text = true) : ∀ c ∈ text, isWordChar c = true := by
  have hplus : ∀ c ∈ ['+'], isWordChar c = true := List.all_eq_true.mp rfl
  have hminus : ∀ c ∈ ['-'], isWordChar c = true := List.all_eq_true.mp rfl
  have hnone : ∀ c ∈ ([] : List Char), isWordChar c = true := nofun
  unfold isExponent at h
  split at h
  · exact nofun
  · exact exponent_chars hplus h
  · exact exponent_chars hminus h
  · exact exponent_chars hnone h

theorem isFraction_chars (h : isFraction text = true) : ∀ c ∈ text, isWordChar c = true := by
  unfold isFraction at h
  split at h
  · rw [Bool.and_eq_true] at h
    simp only [List.forall_mem_cons]
    exact ⟨rfl, isWordChar_of_isDigit h.1,
      forall_of_dropWhile (fun _ => isWordChar_of_isDigit) (isExponent_chars h.2)⟩
  · exact isExponent_chars h

theorem isUnsigned_chars (h : isUnsigned text = true) :
    text ≠ [] ∧ ∀ c ∈ text, isWordChar c = true := by
  cases text with
  | nil => cases h
  | cons d rest =>
    refine ⟨List.cons_ne_nil d rest, List.forall_mem_cons.mpr ?_⟩
    rw [isUnsigned] at h
    split at h
    · rename_i hzero
      exact ⟨hzero ▸ rfl, isFraction_chars h⟩
    · rw [Bool.and_eq_true] at h
      exact ⟨isWordChar_of_isDigit h.1,
        forall_of_dropWhile (fun _ => isWordChar_of_isDigit) (isFraction_chars h.2)⟩

/-- The characters of a number are those of words. -/
theorem isNumber_chars (h : isNumber text = true) : text ≠ [] ∧ ∀ c ∈ text, isWordChar c = true := by
  unfold isNumber at h
  split at h
  · exact ⟨List.cons_ne_nil _ _, List.forall_mem_cons.mpr ⟨rfl, (isUnsigned_chars h).2⟩⟩
  · exact isUnsigned_chars h

theorem beginAt_structural {token : Token} (h : structural c = some token) :
    beginAt c = some ([token], .free) := by
  have hblank : ¬ isBlank c = true := by
    intro hblank
    simp only [isBlank, List.mem_cons, List.not_mem_nil, or_false, decide_eq_true_eq] at hblank
    rcases hblank with rfl | rfl | rfl | rfl
    all_goals cases h
  have hquote : c ≠ '"' := by
    rintro rfl
    cases h
  rw [beginAt, if_neg hblank, if_neg hquote, h]

/-- **A word is read back** up to a structural character. -/
theorem lex_word_structural {token : Token} (hne : text ≠ [])
    (hchars : ∀ c ∈ text, isWordChar c = true) (hc : structural c = some token)
    (rest : List Char) :
    lex .free (text ++ c :: rest) = (lex .free rest).map ([.word text, token] ++ ·) := by
  obtain ⟨first, word, rfl⟩ := List.exists_cons_of_ne_nil hne
  obtain ⟨hfirst, hword⟩ := List.forall_mem_cons.mp hchars
  have hstep : lexStep .free first = some ([], .word [first]) := beginAt_word hfirst
  have hend : lexStep (.word (first :: word)) c =
      some ([.word (first :: word), token], .free) := by
    have hword : ¬ isWordChar c = true := by
      intro hword
      rw [structural_word hword] at hc
      cases hc
    rw [lexStep, if_neg hword, beginAt_structural hc]
    rfl
  rw [List.cons_append, lex_quiet hstep, lex_word hword, List.singleton_append, lex_step hend]

/-- A number is none of the names. -/
theorem wordValue_number {N : Type} (read : List Char → N) (h : isNumber text = true) :
    wordValue read text = some (.number (read text)) := by
  have hname {name : List Char} (hname : isNumber name = false) : text ≠ name := by
    rintro rfl
    rw [h] at hname
    cases hname
  rw [wordValue, if_neg (hname (by decide)), if_neg (hname (by decide)),
    if_neg (hname (by decide)), if_pos h]

end Reading
end JsonText
