import ConjureRuntime.Service.Error

/-!
# HTTP responses as errors

The layer under the retries turns every response that is not a success into
an error.  A 429 or 503 is told apart by the cause of the error; its kind
depends on whether the caller asked for these to be propagated.
-/

namespace ConjureRuntime.Service

inductive ServerQos where
  | automaticRetry
  | propagate429And503ToCaller
  deriving DecidableEq, Repr

inductive ServiceError where
  | wrapInNewError
  | propagateToCaller
  deriving DecidableEq, Repr

abbrev BodyStream := List (Except Cause (List UInt8))

/-- `HeaderValue::to_str`. -/
def toStr (value : List UInt8) : Option (List UInt8) :=
  if value.all fun byte => (32 ≤ byte ∧ byte < 127) ∨ byte = 9 then some value
  else none

def parseDigits (digits : List UInt8) : Option Nat :=
  digits.foldlM (fun value byte =>
    if 48 ≤ byte ∧ byte ≤ 57 then
      let value := value * 10 + (byte.toNat - 48)
      if value < 2 ^ 64 then some value else none
    else none) 0

/-- `str::parse::<u64>`. -/
def parseU64 : List UInt8 → Option Nat
  | [] => none
  | [43] => none
  | 43 :: digits => parseDigits digits
  | digits => parseDigits digits

def retryAfter (headers : HeaderMap) : Option Duration := do
  let value ← headers.get "retry-after"
  let text ← toStr value
  let secs ← parseU64 text
  pure (.fromSecs secs)

/-- The loop that collects an error body; it stops at the first chunk that
takes it past 500 KiB and at the first error. -/
def readErrorBody : List UInt8 → BodyStream → List UInt8
  | body, [] => body
  | body, .error _ :: _ => body
  | body, .ok chunk :: stream =>
      let body := body ++ chunk
      if 500 * 1024 < body.length then body else readErrorBody body stream

/-- `deserialize` is the decoding of an error body by the encoding that the
Conjure runtime picks from the headers. -/
structure HttpErrorService where
  serverQos : ServerQos
  serviceError : ServiceError
  deserialize : HeaderMap → List UInt8 → Option SerializableError

namespace HttpErrorService

variable (service : HttpErrorService)

def tooManyRequests (response : Response BodyStream) : Error :=
  let retryAfter := retryAfter response.headers
  let error := .throttledError retryAfter
  match service.serverQos with
  | .automaticRetry => Error.internalSafe error
  | .propagate429And503ToCaller =>
      match retryAfter with
      | some retryAfter => Error.throttleForSafe error retryAfter
      | none => Error.throttleSafe error

def unavailable : Error :=
  match service.serverQos with
  | .automaticRetry => Error.internalSafe .unavailableError
  | .propagate429And503ToCaller => Error.unavailableSafe .unavailableError

def remoteError (response : Response BodyStream) : Error :=
  let body := readErrorBody [] response.body
  let decoded := service.deserialize response.headers body
  let cause := .remoteError response.status decoded
  match decoded, service.serviceError with
  | some error, .propagateToCaller => Error.propagatedServiceSafe cause error
  | some error, .wrapInNewError =>
      Error.serviceSafe cause (.internalWithInstanceId error.errorInstanceId)
  | none, _ => (Error.internalSafe cause).withUnsafeParam "body" body

def call (result : Except Error (Response BodyStream)) :
    Except Error (Response BodyStream) :=
  match result with
  | .error error => .error error
  | .ok response =>
      if response.status.isSuccess then .ok response
      else if response.status = .tooManyRequests then
        .error (service.tooManyRequests response)
      else if response.status = .serviceUnavailable then
        .error service.unavailable
      else .error (service.remoteError response)

@[simp] theorem remoteError_isService (response : Response BodyStream) :
    (service.remoteError response).isService = true := by
  unfold remoteError
  dsimp only
  split <;> rfl

theorem remoteError_cause (response : Response BodyStream) :
    ∃ decoded, (service.remoteError response).cause =
      .remoteError response.status decoded := by
  refine ⟨service.deserialize response.headers
    (readErrorBody [] response.body), ?_⟩
  unfold remoteError
  dsimp only
  split <;> simp_all [Error.propagatedServiceSafe, Error.serviceSafe,
    Error.internalSafe]

theorem tooManyRequests_isService (response : Response BodyStream) :
    (service.tooManyRequests response).isService = true ↔
      service.serverQos = .automaticRetry := by
  unfold tooManyRequests
  cases service.serverQos with
  | automaticRetry => simp [Error.internalSafe, Error.isService]
  | propagate429And503ToCaller =>
      cases retryAfter response.headers <;>
        simp [Error.throttleForSafe, Error.throttleSafe, Error.isService]

@[simp] theorem tooManyRequests_cause (response : Response BodyStream) :
    (service.tooManyRequests response).cause =
      .throttledError (retryAfter response.headers) := by
  unfold tooManyRequests
  cases service.serverQos with
  | automaticRetry => rfl
  | propagate429And503ToCaller =>
      cases h : retryAfter response.headers <;> rfl

theorem unavailable_isService :
    service.unavailable.isService = true ↔
      service.serverQos = .automaticRetry := by
  unfold unavailable
  cases service.serverQos <;>
    simp [Error.internalSafe, Error.unavailableSafe, Error.isService]

@[simp] theorem unavailable_cause :
    service.unavailable.cause = .unavailableError := by
  unfold unavailable
  cases service.serverQos <;> rfl

end HttpErrorService

end ConjureRuntime.Service
