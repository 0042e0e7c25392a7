import ConjureRuntime.Foundation.History
import ConjureRuntime.Service.RawBody
import ConjureRuntime.Service.Retry

/-!
# Streaming requests

The loop of `State::call` for a streaming request, with the two sides of every
attempt running side by side.  Each attempt has a fresh body and a fresh
`ResetTracker` around the one body writer of the request, which is asked for a
reset only between two attempts.
-/

namespace ConjureRuntime.Service.BodyReset

open ConjureRuntime.Foundation ConjureRuntime.Service.Retry

variable {ρ : Type}

/-- `needsReset` is the field of the `ResetTracker`; `response` is there once
the inner service has answered. -/
structure Attempt (ρ : Type) where
  transfer : Transfer
  needsReset : Bool
  response : Option (Except Error ρ)

def Attempt.new (ρ : Type) : Attempt ρ := ⟨.new, false, none⟩

/-- Where `State::call` is: in an attempt, in `prepare_for_retry` before the
limit is checked, before and in the `reset` of the body, before the backoff and
in it, or at its end. -/
inductive Loop (ρ : Type) where
  | attempting (state : State) (attempt : Attempt ρ)
  | failed (state : State) (needsReset : Bool) (error : Error)
      (retryAfter : Option Duration)
  | allowed (state : State) (error : Error) (retryAfter : Option Duration)
  | resetting (state : State) (error : Error) (retryAfter : Option Duration)
  | backingOff (state : State) (retryAfter : Option Duration)
  | sleeping (state : State)
  | returned (result : Except Error ρ)
  | panicked (panic : Panic)

inductive Op (ρ : Type) where
  | body (op : Transfer.Op)
  | respond (response : Except Error ρ)
  | endAttempt
  | checkLimit
  | callReset
  | resetReturns (ok : Bool)
  | backOff (randomRange : Duration → Duration)
  | startAttempt

inductive Event (ρ : Type) where
  | body (event : Transfer.Event)
  | responded (response : Except Error ρ)
  | attemptEnded (result : Except Error ρ)
  | limitChecked
  | resetCalled
  | resetReturned (ok : Bool)
  | backedOff
  | attemptStarted

/-- A step of the body; `ResetTrackingBodyWriter` notes that it is written. -/
def Attempt.body (attempt : Attempt ρ) (op : Transfer.Op) :
    Option (Transfer.Event × Attempt ρ) :=
  match attempt.transfer.next op with
  | none => none
  | some (event, transfer) =>
      some (event, { attempt with
        transfer := transfer
        needsReset := attempt.needsReset || event = .writeBody })

/-- The end of `send_raw`, once both sides are done, and `send_attempt`. -/
def endAttempt (state : State) (attempt : Attempt ρ) :
    Option (Event ρ × Loop ρ) :=
  match attempt.transfer.writer, attempt.response with
  | .returned write, some response =>
      let result := sendRaw write response
      some (.attemptEnded result,
        match sendAttempt result state with
        | .error error => .returned (.error error)
        | .ok (.ok response) => .returned (.ok response)
        | .ok (.retry error retryAfter) =>
            .failed state attempt.needsReset error retryAfter)
  | _, _ => none

variable (service : RetryService)

def checkLimit (state : State) (needsReset : Bool) (error : Error)
    (retryAfter : Option Duration) : Loop ρ :=
  match service.nextAttempt state with
  | .error panic => .panicked panic
  | .ok none => .returned (.error error)
  | .ok (some state) =>
      if needsReset then .allowed state error retryAfter
      else .backingOff state retryAfter

def backOff (state : State) (retryAfter : Option Duration)
    (randomRange : Duration → Duration) : Loop ρ :=
  match service.backoff state retryAfter randomRange with
  | .error panic => .panicked panic
  | .ok _ => .sleeping state

def next : Loop ρ → Op ρ → Option (Event ρ × Loop ρ)
  | .attempting state attempt, .body op =>
      match attempt.body op with
      | none => none
      | some (event, attempt) => some (.body event, .attempting state attempt)
  | .attempting state attempt, .respond response =>
      if attempt.response.isNone then
        some (.responded response,
          .attempting state { attempt with response := some response })
      else none
  | .attempting state attempt, .endAttempt => endAttempt state attempt
  | .failed state needsReset error retryAfter, .checkLimit =>
      some (.limitChecked,
        checkLimit service state needsReset error retryAfter)
  | .allowed state error retryAfter, .callReset =>
      some (.resetCalled, .resetting state error retryAfter)
  | .resetting state error retryAfter, .resetReturns ok =>
      some (.resetReturned ok,
        if ok then .backingOff state retryAfter else .returned (.error error))
  | .backingOff state retryAfter, .backOff randomRange =>
      some (.backedOff, backOff service state retryAfter randomRange)
  | .sleeping state, .startAttempt =>
      some (.attemptStarted, .attempting state (.new ρ))
  | _, _ => none

def Step (loop : Loop ρ) (event : Event ρ) (loop' : Loop ρ) : Prop :=
  ∃ op, next service loop op = some (event, loop')

/-- `RetryService::call` with a streaming body. -/
def call (ρ : Type) (method : Method) : Loop ρ :=
  .attempting (.new (isIdempotent service.idempotency method)) (.new ρ)

end ConjureRuntime.Service.BodyReset
