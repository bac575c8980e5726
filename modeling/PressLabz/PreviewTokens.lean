import PressLabz.Base64
import PressLabz.Calendar
import PressLabz.JsonTexts
import PressLabz.Words
import Mathlib.Data.Int.Order.Basic

/-! # Preview tokens

`packages/core/src/preview.ts`: the claims as JSON in base64url, a dot, and the signature of
what stands before the dot.  What verifies is what was signed: the signature is compared in
bytes, and only the text that `sign` writes has those bytes (`eq_of_utf8`), so whoever
has the signature of a payload has the one token for it (`preview_tokens`).
-/
namespace PressLabz.PreviewTokens
open Utf16 JsonText

/-- `expiresAt` is in milliseconds. -/
structure PreviewClaims (N : Type) where
  contentId : List UInt16
  expiresAt : N
  deriving DecidableEq

/-- How the language writes and reads its numbers: those on the clock and in JSON, so none is
NaN, and of the two zeros there is one. -/
structure NumberTexts (N : Type) where
  isFinite : N → Bool
  toText : N → List Char
  ofText : List Char → N
  isNumber_toText : ∀ n, isFinite n = true → isNumber (toText n) = true
  ofText_toText : ∀ n, isFinite n = true → ofText (toText n) = n

/-- A text in UTF-8. -/
def bytesOf (text : List Char) : ByteArray := (String.ofList text).toByteArray

/-- `Buffer.from(text)`: a half of a pair is replaced. -/
def utf8 (text : List UInt16) : ByteArray := bytesOf (scalars text)

/-- `toString('base64url')`. -/
def base64url (bytes : ByteArray) : List UInt16 :=
  ascii (Base64.url (bytes.data.toList.map UInt8.toNat))

/-- What `node:crypto` and `node:buffer` do.  Of texts that are not base64url, and of bytes that
are not UTF-8, something is read. -/
structure Node where
  /-- HMAC-SHA256 of a key and a message. -/
  hmac : ByteArray → ByteArray → ByteArray
  /-- `Buffer.from(text, 'base64url')`. -/
  fromBase64url : List UInt16 → ByteArray
  fromBase64url_base64url : ∀ bytes, fromBase64url (base64url bytes) = bytes
  /-- Bytes with replacements. -/
  replaced : ByteArray → List Char

def dot : UInt16 := 0x2E

def contentIdKey : List UInt16 := ascii ['c', 'o', 'n', 't', 'e', 'n', 't', 'I', 'd']

def expiresAtKey : List UInt16 := ascii ['e', 'x', 'p', 'i', 'r', 'e', 's', 'A', 't']

/-! ## Signing -/

section Model
variable {N : Type} [LinearOrder N] (numbers : NumberTexts N) (node : Node)

/-- `JSON.stringify` of a number. -/
def numberText (n : N) : List Char :=
  if numbers.isFinite n then numbers.toText n else ['n', 'u', 'l', 'l']

/-- `JSON.stringify(claims)`, which is well formed. -/
def claimsText (claims : PreviewClaims N) : List Char :=
  '{' :: (quoted contentIdKey ++ ':' :: (quoted claims.contentId ++ ',' ::
    (quoted expiresAtKey ++ ':' :: (numberText numbers claims.expiresAt ++ ['}']))))

def encode (text : List Char) : List UInt16 := base64url (bytesOf text)

def sign (payload secret : List UInt16) : List UInt16 :=
  base64url (node.hmac (utf8 secret) (utf8 payload))

def signPreviewToken (claims : PreviewClaims N) (secret : List UInt16) :
    Except String (List UInt16) :=
  if secret.length < 32 then .error "The preview secret must be at least 32 characters"
  else
    let payload := encode (claimsText numbers claims)
    .ok (payload ++ [dot] ++ sign node payload secret)

/-! ## Verifying -/

/-- `timingSafeEqual` of `node:crypto`, which throws when there are two lengths. -/
def timingSafeEqual (a b : ByteArray) : Except String Bool :=
  if a.size = b.size then .ok (decide (a.data = b.data))
  else .error "Input buffers must have the same byte length"

/-- `toString('utf8')`. -/
def toUtf8 (bytes : ByteArray) : List Char :=
  match bytes.utf8Decode? with
  | some text => text.toList
  | none => node.replaced bytes

/-- `JSON.parse` of a payload, none where it throws. -/
def parsePayload (payload : List UInt16) : Option (Value N) :=
  parse numbers.ofText (toUtf8 node (node.fromBase64url payload))

/-- The `try` block of `verifyPreviewToken`. -/
def readClaims (payload : List UInt16) (now : N) : Option (PreviewClaims N) :=
  match parsePayload numbers node payload with
  | none => none
  | some claims =>
    match claims.get contentIdKey, claims.get expiresAtKey with
    | some (.string contentId), some (.number expiresAt) =>
      if expiresAt ≤ now then none else some ⟨contentId, expiresAt⟩
    | _, _ => none

def verifyPreviewToken (token secret : List UInt16) (now : N) :
    Except String (Option (PreviewClaims N)) :=
  match token.splitOn dot with
  | [payload, signature] =>
    let expected := utf8 (sign node payload secret)
    let received := utf8 signature
    if expected.size ≠ received.size then .ok none
    else
      match timingSafeEqual expected received with
      | .error e => .error e
      | .ok false => .ok none
      | .ok true => .ok (readClaims numbers node payload now)
  | _ => .ok none

end Model

/-! ## Texts and bytes -/

section Texts
variable {text text' : List Char} {bytes : ByteArray} {payload signature secret : List UInt16}
  (node : Node)

theorem bytesOf_inj (h : bytesOf text = bytesOf text') : text = text' :=
  String.ofList_injective (String.toByteArray_inj.mp h)

/-- **Text is read back** from its bytes. -/
theorem toUtf8_bytesOf (text : List Char) : toUtf8 node (bytesOf text) = text := by
  rw [toUtf8, bytesOf, String.toByteArray_ofList, List.utf8Decode?_utf8Encode]

theorem digits_ascii (bytes : ByteArray) :
    ∀ c ∈ Base64.url (bytes.data.toList.map UInt8.toNat), c.toNat < 0x80 ∧ c ≠ '.' := by
  have hlt : ∀ b ∈ bytes.data.toList.map UInt8.toNat, b < 256 := by
    rw [List.forall_mem_map]
    exact fun b _ => b.toNat_lt
  rw [Base64.url, List.forall_mem_map]
  intro d hd
  have hd := Base64.sextets_lt hlt d hd
  exact ⟨Base64.urlChar_ascii d hd, (Base64.urlChar_plain d hd).2⟩

theorem dot_not_mem_base64url (bytes : ByteArray) : dot ∉ base64url bytes := by
  intro hmem
  obtain ⟨c, hc, heq⟩ := List.mem_map.mp hmem
  obtain ⟨hlt, hne⟩ := digits_ascii bytes c hc
  have hcode : c.toNat = '.'.toNat := by
    rw [← toNat_ascii hlt, heq]
    rfl
  exact hne (Char.toNat_inj.mp hcode)

/-- **Only the text itself has its bytes**, when it is in base64url: whatever has them is in
ASCII, so that no unit was replaced. -/
theorem eq_of_utf8 (h : utf8 (base64url bytes) = utf8 signature) : base64url bytes = signature := by
  have hascii (c) (hc : c ∈ Base64.url (bytes.data.toList.map UInt8.toNat)) : c.toNat < 0x80 :=
    (digits_ascii bytes c hc).1
  have hscalars : Base64.url (bytes.data.toList.map UInt8.toNat) = scalars signature := by
    rw [← scalars_ascii hascii]
    exact bytesOf_inj h
  rw [hscalars] at hascii
  rw [base64url, hscalars]
  exact (scalars_eq_ascii hascii).symm

end Texts

/-! ## The payload is read back -/

section Payload
variable {N : Type} (numbers : NumberTexts N) (node : Node)

/-- What `JSON.stringify` writes of a number is a word. -/
theorem numberText_chars (n : N) :
    numberText numbers n ≠ [] ∧ ∀ c ∈ numberText numbers n, isWordChar c = true := by
  rw [numberText]
  split
  case isTrue h => exact isNumber_chars (numbers.isNumber_toText n h)
  case isFalse => exact ⟨List.cons_ne_nil _ _, List.all_eq_true.mp rfl⟩

/-- The value that a number is read back as: one that is not finite is written as `null`. -/
def readBack (n : N) : Value N := if numbers.isFinite n then .number n else .null

theorem wordValue_numberText (n : N) :
    wordValue numbers.ofText (numberText numbers n) = some (readBack numbers n) := by
  rw [numberText, readBack]
  split
  case isTrue h => rw [wordValue_number _ (numbers.isNumber_toText n h), numbers.ofText_toText n h]
  case isFalse => rfl

theorem lex_structural {c : Char} {token : Token} (h : structural c = some token)
    (text : List Char) : lex .free (c :: text) = (lex .free text).map (token :: ·) := by
  have hstep : lexStep .free c = some ([token], .free) := beginAt_structural h
  exact lex_step hstep text

theorem lex_claimsText (claims : PreviewClaims N) :
    lex .free (claimsText numbers claims) =
      some [.openObject, .string contentIdKey, .colon, .string claims.contentId, .comma,
        .string expiresAtKey, .colon, .word (numberText numbers claims.expiresAt),
        .closeObject] := by
  obtain ⟨hne, hchars⟩ := numberText_chars numbers claims.expiresAt
  rw [claimsText, lex_structural (by rfl), lex_quoted, lex_structural (by rfl), lex_quoted,
    lex_structural (by rfl), lex_quoted, lex_structural (by rfl),
    lex_word_structural hne hchars (by rfl)]
  rfl

/-- **The claims are read back** from their text. -/
theorem parse_claimsText (claims : PreviewClaims N) :
    parse numbers.ofText (claimsText numbers claims) =
      some (.object [(contentIdKey, .string claims.contentId),
        (expiresAtKey, readBack numbers claims.expiresAt)]) := by
  rw [parse, lex_claimsText]
  simp only [parseFrom, parseStep, beginValue, wordValue_numberText, Option.map_some,
    List.nil_append, List.singleton_append]

theorem parsePayload_encode (claims : PreviewClaims N) :
    parsePayload numbers node (encode (claimsText numbers claims)) =
      some (.object [(contentIdKey, .string claims.contentId),
        (expiresAtKey, readBack numbers claims.expiresAt)]) := by
  rw [parsePayload, encode, node.fromBase64url_base64url, toUtf8_bytesOf, parse_claimsText]

end Payload

/-! ## Whole numbers -/

section WholeNumbers
open Calendar

def decimalText (n : Int) : List Char :=
  if n < 0 then '-' :: digits n.natAbs else digits n.natAbs

def decimalValue : List Char → Int
  | '-' :: rest => -(Nat.ofDigitChars 10 rest 0 : Int)
  | text => (Nat.ofDigitChars 10 text 0 : Int)

theorem head_digits (n : Nat) (h : 0 < n) : ∃ d rest, digits n = d :: rest ∧ d ≠ '0' := by
  induction n using Nat.strongRecOn with
  | ind n ih =>
    by_cases hlt : n < 10
    · refine ⟨n.digitChar, [], Nat.toDigits_of_lt_base hlt, ?_⟩
      exact (by decide : ∀ n < 10, 0 < n → n.digitChar ≠ '0') n hlt h
    · obtain ⟨d, rest, hdigits, hd⟩ := ih (n / 10) (by omega) (by omega)
      refine ⟨d, rest ++ [(n % 10).digitChar], ?_, hd⟩
      rw [digits, Nat.toDigits_of_base_le (by decide) (by omega), ← digits, hdigits,
        List.cons_append]

theorem dash_not_digits (n : Nat) (rest : List Char) : digits n ≠ '-' :: rest := by
  intro heq
  have hdash : '-' ∈ digits n := heq ▸ List.mem_cons_self
  exact absurd (isDigit_of_mem_digits hdash) (by decide)

theorem isUnsigned_digits (n : Nat) : isUnsigned (digits n) = true := by
  by_cases h : 0 < n
  · obtain ⟨d, rest, hdigits, hd⟩ := head_digits n h
    have hall : ∀ c ∈ d :: rest, c.isDigit = true := fun c hc =>
      isDigit_of_mem_digits (hdigits ▸ hc)
    have hrest : rest.dropWhile Char.isDigit = [] :=
      List.dropWhile_eq_nil_iff.mpr fun c hc => hall c (List.mem_cons_of_mem d hc)
    rw [hdigits, isUnsigned, if_neg hd, hrest, hall d List.mem_cons_self]
    rfl
  · rw [Nat.eq_zero_of_not_pos h]
    rfl

theorem isNumber_decimalText (n : Int) : isNumber (decimalText n) = true := by
  rw [decimalText]
  split
  · exact isUnsigned_digits n.natAbs
  · unfold isNumber
    split
    case h_1 rest heq => exact absurd heq (dash_not_digits n.natAbs rest)
    case h_2 => exact isUnsigned_digits n.natAbs

theorem decimalValue_decimalText (n : Int) : decimalValue (decimalText n) = n := by
  have hvalue : Nat.ofDigitChars 10 (digits n.natAbs) 0 = n.natAbs :=
    Nat.ofDigitChars_ten_toDigits
  rw [decimalText]
  split
  · rw [decimalValue, hvalue]
    omega
  · unfold decimalValue
    split
    case h_1 rest heq => exact absurd heq (dash_not_digits n.natAbs rest)
    case h_2 =>
      rw [hvalue]
      omega

/-- The whole numbers, all of which are finite. -/
def wholeNumbers : NumberTexts Int :=
  ⟨fun _ => true, decimalText, decimalValue, fun n _ => isNumber_decimalText n,
    fun n _ => decimalValue_decimalText n⟩

end WholeNumbers

/-! ## One signature -/

section OneSignature

/-- The digit of a unit, in either alphabet. -/
def sextetOf (u : UInt16) : Option Nat :=
  (Base64.valueOf '-' '_' (lone u)).or (Base64.valueOf '+' '/' (lone u))

/-- Units that are no digits are passed over. -/
def readBase64url (text : List UInt16) : ByteArray :=
  ⟨((Base64.octets (text.filterMap sextetOf)).map UInt8.ofNat).toArray⟩

theorem sextetOf_urlChar :
    ∀ n < 64, sextetOf (Base64.urlChar n).toNat.toUInt16 = some n := by decide

theorem filterMap_sextetOf {digits : List Nat} (h : ∀ d ∈ digits, d < 64) :
    (ascii (digits.map Base64.urlChar)).filterMap sextetOf = digits := by
  induction digits with
  | nil => rfl
  | cons d digits ih =>
    obtain ⟨hd, hdigits⟩ := List.forall_mem_cons.mp h
    rw [List.map_cons, ascii, List.map_cons, List.filterMap_cons_some (sextetOf_urlChar d hd)]
    exact congrArg (d :: ·) (ih hdigits)

theorem readBase64url_base64url (bytes : ByteArray) : readBase64url (base64url bytes) = bytes := by
  have hlt : ∀ b ∈ bytes.data.toList.map UInt8.toNat, b < 256 := by
    rw [List.forall_mem_map]
    exact fun b _ => b.toNat_lt
  have hback : (bytes.data.toList.map UInt8.toNat).map UInt8.ofNat = bytes.data.toList := by
    rw [List.map_map]
    exact (List.map_congr_left fun b _ => UInt8.ofNat_toNat).trans (List.map_id _)
  rw [readBase64url, base64url, Base64.url, filterMap_sextetOf (Base64.sextets_lt hlt),
    Base64.octets_sextets hlt, hback]

/-- Where one message is signed, and its digest is known. -/
def oneMessage (digest : List UInt8) : Node :=
  ⟨fun _ _ => ⟨digest.toArray⟩, readBase64url, readBase64url_base64url, fun _ => ['\uFFFD']⟩

/-- The digest of the payload below, under its secret. -/
def digest : List UInt8 :=
  [127, 147, 187, 160, 134, 136, 17, 205, 33, 156, 88, 130, 115, 19, 150, 251, 209, 124, 132, 199,
    122, 222, 202, 94, 239, 77, 222, 3, 215, 210, 122, 152]

def document : PreviewClaims Int :=
  ⟨ascii "0e5f2a6c-6a1e-4a1a-8f36-1f4a9d0f1c22".toList, 1800000600000⟩

end OneSignature
/-! ## What verifies -/

section Verifying
variable {N : Type} [LinearOrder N] {numbers : NumberTexts N} {node : Node}
  {payload signature token secret : List UInt16} {now : N} {claims : PreviewClaims N}

/-- What the JSON in a payload says. -/
def Names (numbers : NumberTexts N) (node : Node) (payload : List UInt16)
    (claims : PreviewClaims N) : Prop :=
  ∃ value, parsePayload numbers node payload = some value ∧
    value.get contentIdKey = some (.string claims.contentId) ∧
    value.get expiresAtKey = some (.number claims.expiresAt)

theorem readClaims_names (h : Names numbers node payload claims) (now : N) :
    readClaims numbers node payload now =
      if now < claims.expiresAt then some claims else none := by
  obtain ⟨value, hparse, hid, hexpires⟩ := h
  simp only [readClaims, hparse, hid, hexpires]
  by_cases hnow : claims.expiresAt ≤ now
  · rw [if_pos hnow, if_neg (not_lt.mpr hnow)]
  · rw [if_neg hnow, if_pos (not_le.mp hnow)]

/-- A payload says nothing, or the same at every time until it expires. -/
theorem readClaims_cases (numbers : NumberTexts N) (node : Node) (payload : List UInt16) :
    (∃ claims, Names numbers node payload claims) ∨
      ∀ now, readClaims numbers node payload now = none := by
  cases hparse : parsePayload numbers node payload with
  | none =>
    right
    intro now
    rw [readClaims, hparse]
  | some value =>
    by_cases hnames : ∃ claims, Names numbers node payload claims
    · exact .inl hnames
    · right
      intro now
      simp only [readClaims, hparse]
      split
      · rename_i contentId expiresAt hid hexpires
        exact absurd ⟨⟨contentId, expiresAt⟩, value, hparse, hid, hexpires⟩ hnames
      · rfl

/-- A token that is signed is as good as its payload. -/
theorem verify_signed (hdot : dot ∉ payload) (secret : List UInt16) (now : N) :
    verifyPreviewToken numbers node (payload ++ dot :: sign node payload secret) secret now =
      .ok (readClaims numbers node payload now) := by
  have hsplit := Words.splitOn_eq_pair.mpr ⟨rfl, hdot, dot_not_mem_base64url
    (node.hmac (utf8 secret) (utf8 payload))⟩
  simp only [verifyPreviewToken, sign, hsplit, timingSafeEqual, ne_eq, not_true_eq_false,
    if_false, if_true, decide_true]

/-- A token of another shape, or with another signature, is refused. -/
theorem verify_cases (numbers : NumberTexts N) (node : Node) (token secret : List UInt16) :
    (∃ payload, dot ∉ payload ∧ token = payload ++ dot :: sign node payload secret) ∨
      ∀ now, verifyPreviewToken numbers node token secret now = .ok none := by
  by_cases hparts : ∃ payload signature, token.splitOn dot = [payload, signature]
  · obtain ⟨payload, signature, hsplit⟩ := hparts
    obtain ⟨htoken, hdot, -⟩ := Words.splitOn_eq_pair.mp hsplit
    by_cases hbytes : utf8 (sign node payload secret) = utf8 signature
    · exact .inl ⟨payload, hdot, by rw [htoken, sign, eq_of_utf8 hbytes]⟩
    · right
      intro now
      have hdata : (utf8 (sign node payload secret)).data ≠ (utf8 signature).data :=
        mt ByteArray.ext hbytes
      simp only [verifyPreviewToken, hsplit, timingSafeEqual, decide_eq_false hdata]
      split
      · rfl
      · rename_i hsize
        rw [if_pos (not_not.mp hsize)]
  · right
    intro now
    rw [verifyPreviewToken]
    split
    · rename_i payload signature hsplit
      exact absurd ⟨payload, signature, hsplit⟩ hparts
    · rfl

/-- **What verification says of a token** at all times: always null, or until it expires what its
payload names. -/
theorem verify_token (numbers : NumberTexts N) (node : Node) (token secret : List UInt16) :
    (∃ payload claims, dot ∉ payload ∧ token = payload ++ dot :: sign node payload secret ∧
      Names numbers node payload claims ∧
      ∀ now, verifyPreviewToken numbers node token secret now =
        .ok (if now < claims.expiresAt then some claims else none)) ∨
      ∀ now, verifyPreviewToken numbers node token secret now = .ok none := by
  rcases verify_cases numbers node token secret with ⟨payload, hdot, rfl⟩ | hnone
  · rcases readClaims_cases numbers node payload with ⟨claims, hnames⟩ | hnone
    · refine .inl ⟨payload, claims, hdot, rfl, hnames, fun now => ?_⟩
      rw [verify_signed hdot, readClaims_names hnames]
    · right
      intro now
      rw [verify_signed hdot, hnone]
  · exact .inr hnone

/-- A token that verifies at some time is a payload and its signature, and gives the same
claims at every time until they expire. -/
theorem verify_accepted (h : verifyPreviewToken numbers node token secret now = .ok (some claims)) :
    (∃ payload, dot ∉ payload ∧ token = payload ++ dot :: sign node payload secret ∧
      Names numbers node payload claims) ∧ now < claims.expiresAt ∧
      ∀ other, verifyPreviewToken numbers node token secret other =
        .ok (if other < claims.expiresAt then some claims else none) := by
  rcases verify_token numbers node token secret with
    ⟨payload, named, hdot, htoken, hnames, hverify⟩ | hnone
  · rw [hverify now, Except.ok.injEq] at h
    by_cases hnow : now < named.expiresAt
    · rw [if_pos hnow, Option.some.injEq] at h
      subst h
      exact ⟨⟨payload, hdot, htoken, hnames⟩, hnow, hverify⟩
    · rw [if_neg hnow] at h
      cases h
  · rw [hnone now] at h
    cases h

theorem verify_signed_claims (claims : PreviewClaims N)
    (hfinite : numbers.isFinite claims.expiresAt = true) (secret : List UInt16) (now : N) :
    verifyPreviewToken numbers node (encode (claimsText numbers claims) ++
        dot :: sign node (encode (claimsText numbers claims)) secret) secret now =
      .ok (if now < claims.expiresAt then some claims else none) := by
  have hback : readBack numbers claims.expiresAt = .number claims.expiresAt := if_pos hfinite
  have hnames : Names numbers node (encode (claimsText numbers claims)) claims :=
    ⟨_, parsePayload_encode numbers node claims, rfl, by rw [hback]; rfl⟩
  have hdot : dot ∉ encode (claimsText numbers claims) := dot_not_mem_base64url _
  rw [verify_signed hdot, readClaims_names hnames]

theorem count_dot (hdot : dot ∉ payload) :
    (payload ++ dot :: sign node payload secret).count dot = 1 := by
  have hsign : dot ∉ sign node payload secret := dot_not_mem_base64url _
  rw [List.count_append, List.count_cons_self, List.count_eq_zero.mpr hdot,
    List.count_eq_zero.mpr hsign]

/-- **A payload has one token**: what was accepted has one dot, so it is cut nowhere else. -/
theorem eq_sign_of_accepted
    (h : verifyPreviewToken numbers node (payload ++ dot :: signature) secret now =
      .ok (some claims)) : signature = sign node payload secret := by
  obtain ⟨⟨whole, hdot, heq, -⟩, -, -⟩ := verify_accepted h
  have hcount : (payload ++ dot :: signature).count dot = 1 := by
    rw [heq]
    exact count_dot hdot
  rw [List.count_append, List.count_cons_self] at hcount
  have hpayload : dot ∉ payload := List.count_eq_zero.mp (by omega)
  obtain ⟨rfl, hsignature⟩ := Words.split_unique hpayload hdot heq
  exact hsignature

/-- **The law of preview tokens.**  What is signed verifies until it expires, and gives the claims.
Verification never throws, and what it accepts is a payload that names an id and a time to come,
one dot, and the HMAC of the payload's bytes under the secret, in base64url; of one payload there
is one such token.  At every other time a token that was accepted gives the same claims or has
expired, and what is refused once is refused ever after. -/
theorem preview_tokens (numbers : NumberTexts N) (node : Node) (secret : List UInt16) :
    (32 ≤ secret.length → ∀ claims, numbers.isFinite claims.expiresAt = true →
      ∃ token, signPreviewToken numbers node claims secret = .ok token ∧
        ∀ now, verifyPreviewToken numbers node token secret now =
          .ok (if now < claims.expiresAt then some claims else none)) ∧
    (∀ token now, ∃ result, verifyPreviewToken numbers node token secret now = .ok result ∧
      ∀ claims, result = some claims →
        ∃ payload, token = payload ++ [dot] ++ base64url (node.hmac (utf8 secret) (utf8 payload)) ∧
          token.count dot = 1 ∧ Names numbers node payload claims ∧ now < claims.expiresAt) ∧
    (∀ payload signature signature' now now' claims claims',
      verifyPreviewToken numbers node (payload ++ [dot] ++ signature) secret now =
        .ok (some claims) →
      verifyPreviewToken numbers node (payload ++ [dot] ++ signature') secret now' =
        .ok (some claims') →
      signature = signature') ∧
    (∀ token now claims, verifyPreviewToken numbers node token secret now = .ok (some claims) →
      ∀ other, verifyPreviewToken numbers node token secret other =
        .ok (if other < claims.expiresAt then some claims else none)) ∧
    ∀ token now later, verifyPreviewToken numbers node token secret now = .ok none → now ≤ later →
      verifyPreviewToken numbers node token secret later = .ok none := by
  refine ⟨fun hsecret claims hfinite => ?_, fun token now => ?_, ?_, ?_, ?_⟩
  · refine ⟨_, if_neg (not_lt.mpr hsecret), fun now => ?_⟩
    rw [List.append_assoc, List.singleton_append]
    exact verify_signed_claims claims hfinite secret now
  · -- it never throws, for the lengths are compared first
    have htotal : ∃ result, verifyPreviewToken numbers node token secret now = .ok result := by
      rcases verify_token numbers node token secret with ⟨_, _, -, -, -, hverify⟩ | hnone
      · exact ⟨_, hverify now⟩
      · exact ⟨none, hnone now⟩
    obtain ⟨result, hresult⟩ := htotal
    refine ⟨result, hresult, ?_⟩
    rintro claims rfl
    obtain ⟨⟨payload, hdot, rfl, hnames⟩, hnow, -⟩ := verify_accepted hresult
    refine ⟨payload, ?_, count_dot hdot, hnames, hnow⟩
    rw [List.append_assoc, List.singleton_append, sign]
  · intro payload signature signature' now now' claims claims' h h'
    rw [List.append_assoc, List.singleton_append] at h h'
    rw [eq_sign_of_accepted h, eq_sign_of_accepted h']
  · exact fun token now claims h => (verify_accepted h).2.2
  · -- refused for its shape, or because it has expired
    intro token now later h hle
    rcases verify_token numbers node token secret with ⟨_, claims, -, -, -, hverify⟩ | hnone
    · have hexpired : ¬ now < claims.expiresAt := by
        intro hnow
        rw [hverify, if_pos hnow] at h
        cases h
      rw [hverify, if_neg fun hlater => hexpired (lt_of_le_of_lt hle hlater)]
    · exact hnone later

end Verifying

/-- A token that is signed for ten minutes verifies until they are over. -/
theorem preview_tokens_document :
    let secret : List UInt16 := List.replicate 48 0x61
    let verify := verifyPreviewToken wholeNumbers (oneMessage digest)
    ∃ token payload, signPreviewToken wholeNumbers (oneMessage digest) document secret = .ok token ∧
      verify token secret 1800000000000 = .ok (some document) ∧
      token = payload ++ [dot] ++ sign (oneMessage digest) payload secret ∧
      (∀ signature, verify (payload ++ [dot] ++ signature) secret 1800000000000 =
        .ok (some document) → payload ++ [dot] ++ signature = token) ∧
      verify token secret 1800000600000 = .ok none ∧
      verify token secret 1800000600001 = .ok none := by
  intro secret verify
  obtain ⟨hissue, haccept, hunique, hother, hrefuse⟩ :=
    preview_tokens wholeNumbers (oneMessage digest) secret
  obtain ⟨token, htoken, hverify⟩ := hissue (by decide) document rfl
  have hlive : verify token secret 1800000000000 = .ok (some document) :=
    (hverify _).trans (congrArg Except.ok (if_pos (by decide)))
  have hexpired : verify token secret 1800000600000 = .ok none :=
    (hother token _ document hlive _).trans (congrArg Except.ok (if_neg (by decide)))
  obtain ⟨result, hresult, hsigned⟩ := haccept token 1800000000000
  obtain ⟨payload, heq, -⟩ := hsigned document (Except.ok.inj (hresult.symm.trans hlive))
  refine ⟨token, payload, htoken, hlive, heq, fun signature h => ?_, hexpired,
    hrefuse token _ _ hexpired (by decide)⟩
  rw [heq, hunique payload signature _ _ _ _ _ h (heq ▸ hlive)]

end PressLabz.PreviewTokens
