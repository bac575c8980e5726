import PressLabz.ClientIp

/-! # What crosses the boundary when something fails

`apps/api/src/http/errors.ts`: the error handler, for any thrown value.  All a handler
can do with a value is inspect it, and every inspection of a hostile one may throw
(`Inspection`); the logger may throw too, as often as it likes.  What is thrown on the
way is a value like any other.

`error_boundary` says that what comes out is one of a fixed list of answers, that the
value only selects which, and that there always is one.
-/
namespace PressLabz.ErrorBoundary

/-! ## Values and answers -/

/-- A JavaScript value, as far as its type matters: an integer, a number that is none
(`NaN` and the infinities are such), a string, or anything else. -/
inductive JsValue where
  | number (value : Option Int)
  | string (value : String)
  | other
  deriving DecidableEq

def CLIENT_ERROR_CEILING : Nat := 500

def GENERIC : Nat → Option String
  | 400 => some "bad_request"
  | 401 => some "unauthorized"
  | 403 => some "forbidden"
  | 404 => some "not_found"
  | 405 => some "method_not_allowed"
  | 409 => some "conflict"
  | 413 => some "payload_too_large"
  | 415 => some "unsupported_media_type"
  | 422 => some "unprocessable_entity"
  | 429 => some "too_many_requests"
  | 500 => some "internal"
  | 502 => some "bad_gateway"
  | 503 => some "unavailable"
  | 504 => some "gateway_timeout"
  | _ => none

/-- The only statuses a published application message may answer with. -/
def isClientStatus : JsValue → Bool
  | .number (some n) => decide (400 ≤ n ∧ n < CLIENT_ERROR_CEILING)
  | _ => false

/-- What a `ClientFacingError` publishes, recorded when it is constructed. -/
structure PublicContract where
  statusCode : Nat
  message : String
  client : isClientStatus (.number (some statusCode)) = true

/-- The constructor of `ClientFacingError`, for any number: it records a contract, or
throws. -/
def ClientFacingError (statusCode : Option Int) (message : String) : Option PublicContract :=
  match statusCode with
  | some (.ofNat n) =>
    if h : isClientStatus (.number (some n)) = true then some ⟨n, message, h⟩ else none
  | _ => none

/-- The Fastify errors whose answer is written here in full. -/
inductive FastifyClass where
  | emptyJsonBody
  | invalidJsonBody
  | bodyTooLarge
  deriving DecidableEq

structure ReconstructedContract where
  matches_ : FastifyClass
  statusCode : Nat
  code : String
  message : String
  deriving DecidableEq

def RECONSTRUCTED : List ReconstructedContract := [
  { matches_ := .emptyJsonBody
    statusCode := 400
    code := "FST_ERR_CTP_EMPTY_JSON_BODY"
    message := "Body cannot be empty when content-type is set to 'application/json'" },
  { matches_ := .invalidJsonBody
    statusCode := 400
    code := "FST_ERR_CTP_INVALID_JSON_BODY"
    message := "Body is not valid JSON but content-type is set to 'application/json'" },
  { matches_ := .bodyTooLarge
    statusCode := 413
    code := "FST_ERR_CTP_BODY_TOO_LARGE"
    message := "Request body is too large" }]

/-- A body, with the fields that any answer has. -/
structure Body where
  statusCode : Option Nat := none
  code : Option String := none
  error : String
  reason : Option String := none
  message : Option String := none
  requestId : Option String := none
  deriving DecidableEq

/-- The strings of a body. -/
def Body.strings (body : Body) : List String :=
  body.error ::
    (body.code.toList ++ body.reason.toList ++ body.message.toList ++ body.requestId.toList)

structure Reply where
  status : Nat
  body : Body
  deriving DecidableEq

/-- The status for everything the contracts do not cover. -/
def normalizeStatus : JsValue → Nat
  | .number (some n) => if 400 ≤ n ∧ n ≤ 599 then n.toNat else 500
  | _ => 500

/-- The status is preserved, only the body is replaced. -/
def fixedFailure (statusCode : Nat) (requestId : String) : Body where
  statusCode := statusCode
  error := (GENERIC statusCode).getD
    (if statusCode < CLIENT_ERROR_CEILING then "error" else "internal")
  requestId := requestId

/-! ## Inspecting a value -/

/-- What the handler gets to see of a value: the outcome of everything it does with one,
which is an answer or another value, thrown. -/
structure Inspection (Value : Type) where
  /-- `instanceof ForwardedAddressError`. -/
  isForwardedAddressError : Value → Except Value Bool
  /-- The `n`th time `reason` is read. -/
  reason : Value → Nat → Except Value JsValue
  /-- `instanceof RateLimitStoreUnavailableError`. -/
  isRateLimitStoreUnavailableError : Value → Except Value Bool
  /-- `CONTRACTS.get`, which asks nothing of the value. -/
  contracts : Value → Option PublicContract
  /-- `instanceof` one of the three classes of Fastify. -/
  isFastifyError : Value → FastifyClass → Except Value Bool
  statusCode : Value → Except Value JsValue

structure FailedRequest where
  id : String
  method : String
  route : Option String
  deriving DecidableEq

/-- What is asked of the logger. -/
inductive LogLine (Value : Type) where
  | requestFailed (err : Value) (reqId method route : String) (statusCode : Nat)
  | handlerFailed (err : Option Value) (reqId : String)

/-- A logger, which throws whenever it wants to; it sees all that was asked of it so far. -/
abbrev Logger (Value : Type) := List (LogLine Value) → LogLine Value → Option Value

/-- Code that may throw, with the lines asked of the logger, the last one first. -/
abbrev Handler (Value α : Type) := ExceptT Value (StateM (List (LogLine Value))) α

variable {Value : Type}

/-- An inspection, as a step of the handler. -/
def inspect {α : Type} (outcome : Except Value α) : Handler Value α := ExceptT.mk (pure outcome)

/-- `request.log.error`. -/
def logError (logger : Logger Value) (line : LogLine Value) : Handler Value Unit := fun lines =>
  match logger lines line with
  | some failure => (.error failure, line :: lines)
  | none => (.ok (), line :: lines)

theorem logError_bind {α : Type} (logger : Logger Value) (line : LogLine Value)
    (f : Unit → Handler Value α) (lines : List (LogLine Value)) :
    (logError logger line >>= f).run.run lines =
      match logger lines line with
      | some failure => (.error failure, line :: lines)
      | none => (f ()).run.run (line :: lines) := by
  have hline : (logError logger line).run.run lines =
      match logger lines line with
      | some failure => (.error failure, line :: lines)
      | none => (.ok (), line :: lines) := rfl
  rw [ExceptT.run_bind, StateT.run_bind, hline]
  cases logger lines line with
  | some failure => rfl
  | none => rfl

/-- What is caught is handled with the lines there are by then. -/
theorem tryCatch_run {α : Type} (x : Handler Value α) (f : Value → Handler Value α)
    (lines : List (LogLine Value)) :
    (tryCatch x f).run.run lines =
      match x.run.run lines with
      | (.ok a, lines') => (.ok a, lines')
      | (.error failure, lines') => (f failure).run.run lines' := by
  rw [ExceptT.run_tryCatch, StateT.run_bind]
  obtain ⟨answer, lines'⟩ := x.run.run lines
  cases answer with
  | ok a => rfl
  | error failure => rfl

/-! ## The handler -/

/-- `PUBLIC_REASONS`. -/
def publicReason : ForwardedAddressReason → String
  | .missingForwardedAddress => "missing_forwarded_address"
  | .invalidForwardedAddress => "invalid_forwarded_address"

section Handling
variable (js : Inspection Value) (logger : Logger Value) (request : FailedRequest) (error : Value)

/-- `PUBLIC_REASONS.find`: the property is read for each candidate. -/
def findReason (n : Nat) :
    List ForwardedAddressReason → Except Value (Option ForwardedAddressReason)
  | [] => .ok none
  | candidate :: rest => do
    if .string (publicReason candidate) = (← js.reason error n) then return some candidate
    findReason (n + 1) rest

/-- The public reason an error names. -/
def namedReason : Except Value (Option ForwardedAddressReason) :=
  findReason js error 0 [.missingForwardedAddress, .invalidForwardedAddress]

/-- `RECONSTRUCTED.find`. -/
def findReconstructed :
    List ReconstructedContract → Except Value (Option ReconstructedContract)
  | [] => .ok none
  | candidate :: rest => do
    if ← js.isFastifyError error candidate.matches_ then return some candidate
    findReconstructed rest

/-- The decision itself: which answer this error selects. -/
def classify : Handler Value Reply := do
  if ← inspect (js.isForwardedAddressError error) then
    let reason ← inspect (namedReason js error)
    return ⟨400, { error := "bad_request", reason := reason.map publicReason }⟩
  if ← inspect (js.isRateLimitStoreUnavailableError error) then
    return ⟨503, fixedFailure 503 request.id⟩
  match js.contracts error with
  | some authorised =>
    return ⟨authorised.statusCode, {
      statusCode := authorised.statusCode
      error := (GENERIC authorised.statusCode).getD "error"
      message := authorised.message
      requestId := request.id }⟩
  | none =>
    match ← inspect (findReconstructed js error RECONSTRUCTED) with
    | some contract =>
      return ⟨contract.statusCode, {
        statusCode := contract.statusCode
        code := contract.code
        error := (GENERIC contract.statusCode).getD "error"
        message := contract.message
        requestId := request.id }⟩
    | none =>
      let statusCode := normalizeStatus (← inspect (js.statusCode error))
      logError logger (.requestFailed error request.id request.method
        (request.route.getD "unmatched") statusCode)
      return ⟨statusCode, fixedFailure statusCode request.id⟩

/-- The last-resort log line, which must never be what stops the response. -/
def recordHandlerFailure (failure : Value) : Handler Value Unit :=
  tryCatch (logError logger (.handlerFailed (some failure) request.id)) fun _ =>
    tryCatch (logError logger (.handlerFailed none request.id)) fun _ => pure ()

/-- The handler `registerErrorHandling` sets. -/
def errorHandler : Handler Value Reply :=
  tryCatch (classify js logger request error) fun failure => do
    recordHandlerFailure logger request failure
    return ⟨500, fixedFailure 500 request.id⟩

end Handling

/-! ## Which answer is selected -/

/-- The answers the handler can select. -/
inductive Selection where
  | forwarded (reason : Option ForwardedAddressReason)
  | outage
  | published (contract : PublicContract)
  | reconstructed (contract : ReconstructedContract)
  | redacted (statusCode : Nat)

/-- The reply that is sent for each selection. -/
def Selection.reply (requestId : String) : Selection → Reply
  | .forwarded reason => ⟨400, { error := "bad_request", reason := reason.map publicReason }⟩
  | .outage => ⟨503, fixedFailure 503 requestId⟩
  | .published contract => ⟨contract.statusCode, {
      statusCode := contract.statusCode
      error := (GENERIC contract.statusCode).getD "error"
      message := contract.message
      requestId := requestId }⟩
  | .reconstructed contract => ⟨contract.statusCode, {
      statusCode := contract.statusCode
      code := contract.code
      error := (GENERIC contract.statusCode).getD "error"
      message := contract.message
      requestId := requestId }⟩
  | .redacted statusCode => ⟨statusCode, fixedFailure statusCode requestId⟩

section Selecting
variable (js : Inspection Value) (logger : Logger Value) (request : FailedRequest)
  (lines : List (LogLine Value)) (error : Value)

/-- What inspecting the value comes to. -/
def select : Except Value Selection := do
  if ← js.isForwardedAddressError error then return .forwarded (← namedReason js error)
  if ← js.isRateLimitStoreUnavailableError error then return .outage
  match js.contracts error with
  | some contract => return .published contract
  | none =>
    match ← findReconstructed js error RECONSTRUCTED with
    | some contract => return .reconstructed contract
    | none => return .redacted (normalizeStatus (← js.statusCode error))

/-- Every way inspecting a value can go. -/
inductive Selects : Except Value Selection → Prop
  | forwardedThrows {failure : Value} (h : js.isForwardedAddressError error = .error failure) :
      Selects (.error failure)
  | reasonThrows {failure : Value} (h : js.isForwardedAddressError error = .ok true)
      (hreason : namedReason js error = .error failure) : Selects (.error failure)
  | forwarded {reason : Option ForwardedAddressReason}
      (h : js.isForwardedAddressError error = .ok true)
      (hreason : namedReason js error = .ok reason) : Selects (.ok (.forwarded reason))
  | outageThrows {failure : Value} (h : js.isForwardedAddressError error = .ok false)
      (houtage : js.isRateLimitStoreUnavailableError error = .error failure) :
      Selects (.error failure)
  | outage (h : js.isForwardedAddressError error = .ok false)
      (houtage : js.isRateLimitStoreUnavailableError error = .ok true) : Selects (.ok .outage)
  | published {contract : PublicContract} (h : js.isForwardedAddressError error = .ok false)
      (houtage : js.isRateLimitStoreUnavailableError error = .ok false)
      (hcontract : js.contracts error = some contract) : Selects (.ok (.published contract))
  | fastifyThrows {failure : Value} (h : js.isForwardedAddressError error = .ok false)
      (houtage : js.isRateLimitStoreUnavailableError error = .ok false)
      (hcontract : js.contracts error = none)
      (hfound : findReconstructed js error RECONSTRUCTED = .error failure) :
      Selects (.error failure)
  | reconstructed {contract : ReconstructedContract}
      (h : js.isForwardedAddressError error = .ok false)
      (houtage : js.isRateLimitStoreUnavailableError error = .ok false)
      (hcontract : js.contracts error = none)
      (hfound : findReconstructed js error RECONSTRUCTED = .ok (some contract)) :
      Selects (.ok (.reconstructed contract))
  | statusThrows {failure : Value} (h : js.isForwardedAddressError error = .ok false)
      (houtage : js.isRateLimitStoreUnavailableError error = .ok false)
      (hcontract : js.contracts error = none)
      (hfound : findReconstructed js error RECONSTRUCTED = .ok none)
      (hstatus : js.statusCode error = .error failure) : Selects (.error failure)
  | redacted {value : JsValue} (h : js.isForwardedAddressError error = .ok false)
      (houtage : js.isRateLimitStoreUnavailableError error = .ok false)
      (hcontract : js.contracts error = none)
      (hfound : findReconstructed js error RECONSTRUCTED = .ok none)
      (hstatus : js.statusCode error = .ok value) :
      Selects (.ok (.redacted (normalizeStatus value)))

/-- The selections `Selects` allows are what `select` comes to. -/
theorem select_selects : Selects js error (select js error) := by
  unfold select
  cases h : js.isForwardedAddressError error with
  | error failure => exact .forwardedThrows h
  | ok isForwarded =>
    cases isForwarded with
    | true =>
      cases hreason : namedReason js error with
      | error failure => exact .reasonThrows h hreason
      | ok reason => exact .forwarded h hreason
    | false =>
      cases houtage : js.isRateLimitStoreUnavailableError error with
      | error failure => exact .outageThrows h houtage
      | ok isOutage =>
        cases isOutage with
        | true => exact .outage h houtage
        | false =>
          cases hcontract : js.contracts error with
          | some contract => exact .published h houtage hcontract
          | none =>
            cases hfound : findReconstructed js error RECONSTRUCTED with
            | error failure => exact .fastifyThrows h houtage hcontract hfound
            | ok found =>
              cases found with
              | some contract => exact .reconstructed h houtage hcontract hfound
              | none =>
                cases hstatus : js.statusCode error with
                | error failure => exact .statusThrows h houtage hcontract hfound hstatus
                | ok value => exact .redacted h houtage hcontract hfound hstatus

/-- A value goes one way only. -/
theorem selects_iff {selected : Except Value Selection} :
    Selects js error selected ↔ select js error = selected := by
  constructor
  · intro hselects
    unfold select
    cases hselects with
    | forwardedThrows h => rw [h]; rfl
    | reasonThrows h hreason => rw [h, hreason]; rfl
    | forwarded h hreason => rw [h, hreason]; rfl
    | outageThrows h houtage => rw [h, houtage]; rfl
    | outage h houtage => rw [h, houtage]; rfl
    | published h houtage hcontract => rw [h, houtage, hcontract]; rfl
    | fastifyThrows h houtage hcontract hfound => rw [h, houtage, hcontract, hfound]; rfl
    | reconstructed h houtage hcontract hfound => rw [h, houtage, hcontract, hfound]; rfl
    | statusThrows h houtage hcontract hfound hstatus =>
      rw [h, houtage, hcontract, hfound, hstatus]
      rfl
    | redacted h houtage hcontract hfound hstatus =>
      rw [h, houtage, hcontract, hfound, hstatus]
      rfl
  · rintro rfl
    exact select_selects js error

/-- The line about a failure nothing recognises. -/
def failedLine (statusCode : Nat) : LogLine Value :=
  .requestFailed error request.id request.method (request.route.getD "unmatched") statusCode

/-- What the logger throws at a selection, if anything. -/
def thrownByLogger : Selection → Option Value
  | .redacted statusCode => logger lines (failedLine request error statusCode)
  | _ => none

/-- The selection, or what was thrown on the way to it. -/
def outcome : Except Value Selection := do
  let selection ← select js error
  match thrownByLogger logger request lines error selection with
  | some failure => .error failure
  | none => .ok selection

theorem classify_fst : ((classify js logger request error).run.run lines).1 =
    (outcome js logger request lines error).map (Selection.reply request.id) := by
  unfold classify outcome select
  cases js.isForwardedAddressError error with
  | error failure => rfl
  | ok isForwarded =>
    cases isForwarded with
    | true =>
      cases namedReason js error with
      | error failure => rfl
      | ok reason => rfl
    | false =>
      cases js.isRateLimitStoreUnavailableError error with
      | error failure => rfl
      | ok isOutage =>
        cases isOutage with
        | true => rfl
        | false =>
          cases js.contracts error with
          | some contract => rfl
          | none =>
            cases findReconstructed js error RECONSTRUCTED with
            | error failure => rfl
            | ok found =>
              cases found with
              | some contract => rfl
              | none =>
                cases js.statusCode error with
                | error failure => rfl
                | ok value =>
                  -- nothing answers for the value: it is logged, and the logger may throw
                  refine (congrArg Prod.fst (logError_bind logger
                    (failedLine request error (normalizeStatus value)) _ lines)).trans ?_
                  show _ = Except.map _ (match logger lines
                      (failedLine request error (normalizeStatus value)) with
                    | some failure => .error failure
                    | none => .ok (Selection.redacted (normalizeStatus value)))
                  cases logger lines (failedLine request error (normalizeStatus value)) with
                  | some failure => rfl
                  | none => rfl

/-- The last resort throws nothing, however often the logger does. -/
theorem recordHandlerFailure_fst (failure : Value) :
    ((recordHandlerFailure logger request failure).run.run lines).1 = .ok () := by
  rw [recordHandlerFailure, tryCatch_run]
  split
  · rfl
  · rw [tryCatch_run]
    split
    · rfl
    · rfl

/-- **What is sent**: the answer selected, or the fixed 500 when anything was thrown. -/
theorem errorHandler_fst : ((errorHandler js logger request error).run.run lines).1 =
    .ok (match outcome js logger request lines error with
      | .error _ => ⟨500, fixedFailure 500 request.id⟩
      | .ok selection => selection.reply request.id) := by
  have hclassify := classify_fst js logger request lines error
  rw [errorHandler, tryCatch_run]
  generalize (classify js logger request error).run.run lines = run at hclassify ⊢
  obtain ⟨answer, lines'⟩ := run
  obtain rfl : answer = _ := hclassify
  cases outcome js logger request lines error with
  | ok selection => rfl
  | error failure =>
    have hrecord := recordHandlerFailure_fst logger request lines' failure
    show ((recordHandlerFailure logger request failure >>= fun _ => pure _ :
      Handler Value Reply).run.run lines').1 = _
    rw [ExceptT.run_bind, StateT.run_bind]
    generalize (recordHandlerFailure logger request failure).run.run lines' = run at hrecord ⊢
    obtain ⟨recorded, lines''⟩ := run
    obtain rfl : recorded = _ := hrecord
    rfl

end Selecting

/-! ## The boundary -/

section Boundary
variable (js : Inspection Value) (logger : Logger Value) (request : FailedRequest)
  (lines : List (LogLine Value))

/-- Something throws before an answer is sent: an inspection that is reached, or the
logger. -/
def ThrowsOnTheWay (error : Value) : Prop :=
  (∃ failure, Selects js error (.error failure)) ∨
    ∃ statusCode failure, Selects js error (.ok (.redacted statusCode)) ∧
      logger lines (failedLine request error statusCode) = some failure

/-- What tells two values apart: what they are instances of, the reason a
`ForwardedAddressError` names, the contract they come with, their status once it is
normalised, and whether asking throws, or telling the logger, each in the course of a
request. -/
structure Alike (request' : FailedRequest) (lines' : List (LogLine Value)) (v w : Value) :
    Prop where
  forwarded : (js.isForwardedAddressError v).toOption = (js.isForwardedAddressError w).toOption
  reason : js.isForwardedAddressError v = .ok true →
    (namedReason js v).toOption = (namedReason js w).toOption
  outage : (js.isRateLimitStoreUnavailableError v).toOption =
    (js.isRateLimitStoreUnavailableError w).toOption
  contract : js.contracts v = js.contracts w
  fastify : ∀ c, (js.isFastifyError v c).toOption = (js.isFastifyError w c).toOption
  statusCode : (js.statusCode v).toOption.map normalizeStatus =
    (js.statusCode w).toOption.map normalizeStatus
  log : ∀ statusCode, (logger lines (failedLine request v statusCode)).isSome =
    (logger lines' (failedLine request' w statusCode)).isSome

/-- The strings that are written in the source. -/
def fixedStrings : List String := [
  "bad_request", "unauthorized", "forbidden", "not_found", "method_not_allowed", "conflict",
  "payload_too_large", "unsupported_media_type", "unprocessable_entity", "too_many_requests",
  "internal", "bad_gateway", "unavailable", "gateway_timeout", "error",
  "missing_forwarded_address", "invalid_forwarded_address",
  "FST_ERR_CTP_EMPTY_JSON_BODY", "FST_ERR_CTP_INVALID_JSON_BODY", "FST_ERR_CTP_BODY_TOO_LARGE",
  "Body cannot be empty when content-type is set to 'application/json'",
  "Body is not valid JSON but content-type is set to 'application/json'",
  "Request body is too large"]

variable {js logger request lines} {request' : FailedRequest} {lines' : List (LogLine Value)}

theorem ThrowsOnTheWay.outcome {error : Value}
    (h : ThrowsOnTheWay js logger request lines error) :
    ∃ failure, outcome js logger request lines error = .error failure := by
  unfold ErrorBoundary.outcome
  rcases h with ⟨failure, hselects⟩ | ⟨statusCode, failure, hselects, hlog⟩
  · exact ⟨failure, by rw [(selects_iff js error).mp hselects]; rfl⟩
  · refine ⟨failure, ?_⟩
    rw [(selects_iff js error).mp hselects]
    show (match logger lines (failedLine request error statusCode) with
      | some failure => Except.error failure
      | none => Except.ok (Selection.redacted statusCode)) = _
    rw [hlog]

/-- Two outcomes that agree up to what is thrown are the same answer, or both none. -/
theorem toOption_eq {α : Type} {x y : Except Value α} (h : x.toOption = y.toOption) :
    (∃ a, x = .ok a ∧ y = .ok a) ∨ ∃ e e', x = .error e ∧ y = .error e' := by
  cases x with
  | ok a =>
    cases y with
    | ok b => exact .inl ⟨a, rfl, by rw [Option.some.inj h]⟩
    | error e => cases h
  | error e =>
    cases y with
    | ok b => cases h
    | error e' => exact .inr ⟨e, e', rfl, rfl⟩

/-- Two handlers agree up to what is thrown when their first steps do, and what follows each
result does. -/
theorem bind_alike {α β : Type} {x y : Except Value α} {f g : α → Except Value β}
    (h : x.toOption = y.toOption) (hnext : ∀ a, x = .ok a → (f a).toOption = (g a).toOption) :
    (x >>= f).toOption = (y >>= g).toOption := by
  rcases toOption_eq h with ⟨a, rfl, rfl⟩ | ⟨e, e', rfl, rfl⟩
  · exact hnext a rfl
  · rfl

theorem findReconstructed_alike {v w : Value} (contracts : List ReconstructedContract)
    (h : ∀ c, (js.isFastifyError v c).toOption = (js.isFastifyError w c).toOption) :
    (findReconstructed js v contracts).toOption = (findReconstructed js w contracts).toOption := by
  induction contracts with
  | nil => rfl
  | cons candidate rest ih =>
    unfold findReconstructed
    refine bind_alike (h candidate.matches_) fun found _ => ?_
    cases found with
    | true => rfl
    | false => exact ih

/-- Two statuses that normalise alike give the same answer wherever a status is read only to
be normalised. -/
theorem statusCode_alike {v w : Value}
    (h : (js.statusCode v).toOption.map normalizeStatus =
      (js.statusCode w).toOption.map normalizeStatus) :
    ((js.statusCode v).map fun value => Selection.redacted (normalizeStatus value)).toOption =
      ((js.statusCode w).map fun value => Selection.redacted (normalizeStatus value)).toOption := by
  have hmap (x : Except Value JsValue) :
      (x.map fun value => Selection.redacted (normalizeStatus value)).toOption =
        (x.toOption.map normalizeStatus).map Selection.redacted := by
    cases x with
    | ok value => rfl
    | error e => rfl
  rw [hmap, hmap, h]

/-- Values that are alike select the same answer, or throw alike. -/
theorem Alike.select {v w : Value} (h : Alike js logger request lines request' lines' v w) :
    (select js v).toOption = (select js w).toOption := by
  unfold ErrorBoundary.select
  refine bind_alike h.forwarded fun isForwarded hforwarded => ?_
  cases isForwarded with
  | true => exact bind_alike (h.reason hforwarded) fun _ _ => rfl
  | false =>
    refine bind_alike h.outage fun isOutage _ => ?_
    cases isOutage with
    | true => rfl
    | false =>
      rw [h.contract]
      cases js.contracts w with
      | some contract => rfl
      | none =>
        refine bind_alike (findReconstructed_alike RECONSTRUCTED h.fastify) fun found _ => ?_
        cases found with
        | some contract => rfl
        | none => exact statusCode_alike h.statusCode

/-- Values that are alike come to the same answer, or throw alike, with the logger asked. -/
theorem Alike.outcome {v w : Value} (h : Alike js logger request lines request' lines' v w) :
    (outcome js logger request lines v).toOption =
      (outcome js logger request' lines' w).toOption := by
  unfold ErrorBoundary.outcome
  refine bind_alike h.select fun selection _ => ?_
  cases selection with
  | redacted statusCode =>
    have hlog := h.log statusCode
    simp only [thrownByLogger]
    cases hv : logger lines (failedLine request v statusCode) with
    | some failure =>
      rw [hv] at hlog
      obtain ⟨failure', hw⟩ := Option.isSome_iff_exists.mp hlog.symm
      rw [hw]
      rfl
    | none =>
      rw [hv] at hlog
      rw [Option.not_isSome_iff_eq_none.mp (Bool.eq_false_iff.mp hlog.symm)]
  | forwarded reason => rfl
  | outage => rfl
  | published contract => rfl
  | reconstructed contract => rfl

theorem normalizeStatus_bounds (value : JsValue) :
    400 ≤ normalizeStatus value ∧ normalizeStatus value ≤ 599 := by
  unfold normalizeStatus
  split
  · split
    · omega
    · decide
  · decide

theorem GENERIC_fixed {statusCode : Nat} {text : String} (h : GENERIC statusCode = some text) :
    text ∈ fixedStrings := by
  unfold GENERIC at h
  split at h
  all_goals
    cases h
    try decide

/-- What a selection owes to the value it was made for. -/
def Selection.For (js : Inspection Value) (error : Value) : Selection → Prop
  | .forwarded _ => True
  | .outage => True
  | .published contract => js.contracts error = some contract
  | .reconstructed contract => contract ∈ RECONSTRUCTED
  | .redacted statusCode => 400 ≤ statusCode ∧ statusCode ≤ 599

theorem findReconstructed_mem {error : Value} {contracts : List ReconstructedContract}
    {contract : ReconstructedContract}
    (h : findReconstructed js error contracts = .ok (some contract)) : contract ∈ contracts := by
  induction contracts with
  | nil => cases h
  | cons candidate rest ih =>
    unfold findReconstructed at h
    cases hc : js.isFastifyError error candidate.matches_ with
    | error e =>
      rw [hc] at h
      cases h
    | ok found =>
      rw [hc] at h
      cases found with
      | true =>
        cases h
        exact List.mem_cons_self
      | false => exact List.mem_cons_of_mem _ (ih h)

theorem Selects.for {error : Value} {selection : Selection}
    (h : Selects js error (.ok selection)) : selection.For js error := by
  cases h with
  | forwarded h hreason => trivial
  | outage h houtage => trivial
  | published h houtage hcontract => exact hcontract
  | reconstructed h houtage hcontract hfound => exact findReconstructed_mem hfound
  | redacted h houtage hcontract hfound hstatus => exact normalizeStatus_bounds _

/-! ## What is sent -/

/-- A body that says only what is fixed, who asked, and what a contract says. -/
def Body.Discloses (js : Inspection Value) (error : Value) (requestId : String) (body : Body) :
    Prop :=
  ∀ text ∈ body.strings, text ∈ fixedStrings ∨ text = requestId ∨
    ∃ contract, js.contracts error = some contract ∧ text = contract.message

/-- An answer with the status of an error, which its body repeats if it has one. -/
def Reply.Proper (reply : Reply) : Prop :=
  400 ≤ reply.status ∧ reply.status ≤ 599 ∧
    ∀ statusCode, reply.body.statusCode = some statusCode → statusCode = reply.status

theorem fixedFailure_discloses (error : Value) (statusCode : Nat) (requestId : String) :
    (fixedFailure statusCode requestId).Discloses js error requestId := by
  intro text htext
  simp only [Body.strings, fixedFailure, Option.toList, List.nil_append, List.mem_cons,
    List.not_mem_nil, or_false] at htext
  rcases htext with rfl | rfl
  · left
    cases hgeneric : GENERIC statusCode with
    | some generic => exact GENERIC_fixed hgeneric
    | none =>
      rw [Option.getD_none]
      split
      · decide
      · decide
  · exact .inr (.inl rfl)

theorem GENERIC_getD_fixed (statusCode : Nat) : (GENERIC statusCode).getD "error" ∈ fixedStrings := by
  cases hgeneric : GENERIC statusCode with
  | some generic => exact GENERIC_fixed hgeneric
  | none => decide

theorem Selection.For.proper {error : Value} {selection : Selection}
    (h : selection.For js error) (requestId : String) : (selection.reply requestId).Proper := by
  cases selection with
  | forwarded reason =>
    exact ⟨Nat.le_refl 400, Nat.le_add_right 400 199, fun _ hs => by cases hs⟩
  | outage =>
    exact ⟨Nat.le_add_right 400 103, Nat.le_add_right 503 96,
      fun _ hs => (Option.some.inj hs).symm⟩
  | published contract =>
    have hclient := of_decide_eq_true contract.client
    have hceiling : CLIENT_ERROR_CEILING = 500 := rfl
    refine ⟨?_, ?_, fun _ hs => (Option.some.inj hs).symm⟩
    · show 400 ≤ contract.statusCode
      omega
    · show contract.statusCode ≤ 599
      omega
  | reconstructed contract =>
    have hbounds : ∀ c ∈ RECONSTRUCTED, 400 ≤ c.statusCode ∧ c.statusCode ≤ 599 := by decide
    exact ⟨(hbounds contract h).1, (hbounds contract h).2, fun _ hs => (Option.some.inj hs).symm⟩
  | redacted statusCode => exact ⟨h.1, h.2, fun _ hs => (Option.some.inj hs).symm⟩

theorem Selection.For.discloses {error : Value} {selection : Selection}
    (h : selection.For js error) (requestId : String) :
    (selection.reply requestId).body.Discloses js error requestId := by
  cases selection with
  | forwarded reason =>
    -- every text of it is fixed
    intro text htext
    left
    cases reason with
    | none =>
      rw [List.mem_singleton.mp htext]
      exact List.mem_cons_self
    | some reason =>
      simp only [Selection.reply, Body.strings, Option.map_some, Option.toList, List.nil_append,
        List.append_nil, List.mem_cons, List.not_mem_nil, or_false] at htext
      rcases htext with rfl | rfl
      · decide
      · cases reason with
        | missingForwardedAddress => decide
        | invalidForwardedAddress => decide
  | outage => exact fixedFailure_discloses error 503 requestId
  | published contract =>
    intro text htext
    simp only [Selection.reply, Body.strings, Option.toList, List.nil_append, List.mem_cons,
      List.mem_append, List.not_mem_nil, or_false] at htext
    -- the code is the contract's own, and meant to be read
    rcases htext with rfl | rfl | rfl
    · exact .inl (GENERIC_getD_fixed contract.statusCode)
    · exact .inr (.inr ⟨contract, h, rfl⟩)
    · exact .inr (.inl rfl)
  | reconstructed contract =>
    have hfixed : ∀ c ∈ RECONSTRUCTED, c.code ∈ fixedStrings ∧ c.message ∈ fixedStrings := by
      decide
    intro text htext
    simp only [Selection.reply, Body.strings, Option.toList, List.mem_cons, List.mem_append,
      List.not_mem_nil, or_false] at htext
    rcases htext with rfl | (rfl | rfl) | rfl
    · exact .inl (GENERIC_getD_fixed contract.statusCode)
    · exact .inl (hfixed contract h).1
    · exact .inl (hfixed contract h).2
    · exact .inr (.inl rfl)
  | redacted statusCode => exact fixedFailure_discloses error statusCode requestId

/-- An outcome that is no failure is a selection for the value. -/
theorem for_of_outcome {error : Value} {selection : Selection}
    (h : outcome js logger request lines error = .ok selection) : selection.For js error := by
  unfold outcome at h
  cases hselect : select js error with
  | error failure =>
    rw [hselect] at h
    cases h
  | ok selected =>
    have hfor := ((selects_iff js error).mpr hselect).for
    rw [hselect] at h
    have hsent : (match thrownByLogger logger request lines error selected with
      | some failure => Except.error failure
      | none => .ok selected) = .ok selection := h
    split at hsent
    · cases hsent
    · cases hsent
      exact hfor

end Boundary

/-- **What crosses the boundary.**  Every thrown value is answered by what it selects, with
the status of an error and nothing of the value but the message of a contract it was
constructed with; one that throws on the way, or that the logger throws at, with the fixed
500; and values that are alike get the same answer, whatever else there is about them and
their requests. -/
theorem error_boundary (js : Inspection Value) (logger : Logger Value) (request : FailedRequest)
    (lines : List (LogLine Value)) :
    (∀ error, ((errorHandler js logger request error).run.run lines).1 =
      .ok (match outcome js logger request lines error with
        | .error _ => ⟨500, fixedFailure 500 request.id⟩
        | .ok selection => selection.reply request.id)) ∧
    (∀ error, ∃ reply, ((errorHandler js logger request error).run.run lines).1 = .ok reply ∧
      reply.Proper ∧ reply.body.Discloses js error request.id) ∧
    (∀ error, ThrowsOnTheWay js logger request lines error →
      ((errorHandler js logger request error).run.run lines).1 =
        .ok ⟨500, fixedFailure 500 request.id⟩) ∧
    ∀ request' lines' v w, request.id = request'.id →
      Alike js logger request lines request' lines' v w →
      ((errorHandler js logger request v).run.run lines).1 =
        ((errorHandler js logger request' w).run.run lines').1 := by
  refine ⟨errorHandler_fst js logger request lines, fun error => ?_, fun error hthrows => ?_,
    fun request' lines' v w hid halike => ?_⟩
  · refine ⟨_, errorHandler_fst js logger request lines error, ?_⟩
    cases houtcome : outcome js logger request lines error with
    | error failure =>
      exact ⟨⟨Nat.le_add_right 400 100, Nat.le_add_right 500 99,
        fun _ hs => (Option.some.inj hs).symm⟩, fixedFailure_discloses error 500 request.id⟩
    | ok selection =>
      have hfor := for_of_outcome houtcome
      exact ⟨hfor.proper request.id, hfor.discloses request.id⟩
  · obtain ⟨failure, hfailure⟩ := hthrows.outcome
    rw [errorHandler_fst, hfailure]
  · rw [errorHandler_fst, errorHandler_fst, hid]
    rcases toOption_eq halike.outcome with ⟨selection, hv, hw⟩ | ⟨e, e', hv, hw⟩
    · rw [hv, hw]
    · rw [hv, hw]

/-- The refusal of the rate limiter is answered with its own status and message. -/
theorem error_boundary_rateLimited : ∃ contract,
    ClientFacingError (some 429) "Rate limit exceeded, retry in 1 minute" = some contract ∧
    ((errorHandler
      ⟨fun _ => .ok false, fun _ _ => .ok .other, fun _ => .ok false, fun _ => some contract,
        fun _ _ => .ok false, fun _ => .ok (.number (some 429))⟩
      (fun _ _ => none) ⟨"req-1", "POST", none⟩ ()).run.run []).1 =
    .ok ⟨429, { statusCode := some 429
                error := "too_many_requests"
                message := some "Rate limit exceeded, retry in 1 minute"
                requestId := some "req-1" }⟩ :=
  ⟨⟨429, "Rate limit exceeded, retry in 1 minute", by decide⟩, rfl,
    (error_boundary _ _ _ _).1 ()⟩

/-- A value whose status throws, and a logger that throws at every line. -/
example : ((errorHandler
      ⟨fun _ => .ok false, fun _ _ => .ok .other, fun _ => .ok false, fun _ => none,
        fun _ _ => .ok false, fun _ => .error ()⟩
      (fun _ _ => some ()) ⟨"req-1", "GET", none⟩ ()).run.run []).1 =
    .ok ⟨500, fixedFailure 500 "req-1"⟩ := rfl

end PressLabz.ErrorBoundary
