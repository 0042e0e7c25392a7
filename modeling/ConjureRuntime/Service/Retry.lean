import ConjureRuntime.Foundation.Transition
import ConjureRuntime.Service.HttpError

/-!
# Retries

The retry layer sends a request, looks at the kind and the cause of the error
it gets, and tries again.  One attempt runs the writer of the request body
and the call of the inner service side by side; here it is given by what the
two end with, and by the answers that the rest of the iteration asks for.
-/

namespace ConjureRuntime.Service.Retry

inductive Idempotency where
  | always
  | byMethod
  | never
  deriving DecidableEq, Repr

inductive Panic where
  | addOverflow
  | shiftOverflow
  | durationOverflow
  deriving DecidableEq, Repr

/-- `Mul<u32> for Duration`. -/
def mulDuration (duration : Duration) (scale : Nat) : Except Panic Duration :=
  if duration.nanos * scale ≤ Duration.max.nanos then
    .ok ⟨duration.nanos * scale⟩
  else .error .durationOverflow

structure RetryService where
  idempotency : Idempotency
  maxNumRetries : Nat
  backoffSlotSize : Duration
  maxNumRetries_lt : maxNumRetries < 2 ^ 32

/-- The defaults of `Builder`. -/
def RetryService.default : RetryService where
  idempotency := .byMethod
  maxNumRetries := 4
  backoffSlotSize := ⟨250 * 10 ^ 6⟩
  maxNumRetries_lt := by decide

structure State where
  idempotent : Bool
  attempt : Nat
  deriving DecidableEq, Repr

inductive AttemptOutcome (ρ : Type) where
  | ok (response : ρ)
  | retry (error : Error) (retryAfter : Option Duration)
  deriving DecidableEq

/-- One iteration of the loop of `State::call`: how the body write and the
inner call end, whether the body was written (`none` without a streaming
body), the answer of `reset` if it is asked, and the random choice of the
backoff. -/
structure Attempt (ρ : Type) where
  write : Except Error Unit
  response : Except Error ρ
  needsReset : Option Bool
  reset : Bool
  randomRange : Duration → Duration

inductive Loop (ρ : Type) where
  | attempting (state : State)
  | returned (result : Except Error ρ)
  | panicked (panic : Panic)
  deriving DecidableEq

def isIdempotent (idempotency : Idempotency) (method : Method) : Bool :=
  match idempotency with
  | .always => true
  | .byMethod => method.isIdempotent
  | .never => false

def State.new (idempotent : Bool) : State := ⟨idempotent, 0⟩

/-- The loop of `deconflict_errors`, from a cause of the HTTP error on. -/
def hasRequestBodyError : Cause → Bool
  | .requestBodyError => true
  | .rawClientError inner => hasRequestBodyError inner
  | .foreignWithSource _ source => hasRequestBodyError source
  | _ => false

def deconflictErrors (bodyError httpError : Error) : Error :=
  if hasRequestBodyError httpError.cause then bodyError else httpError

section

variable {ρ : Type}

/-- `send_raw`, once both sides are done. -/
def sendRaw : Except Error Unit → Except Error ρ → Except Error ρ
  | .ok (), .ok response => .ok response
  | .ok (), .error error => .error error
  | .error _, .ok response => .ok response
  | .error bodyError, .error httpError =>
      .error (deconflictErrors bodyError httpError)

def sendAttempt (result : Except Error ρ) (state : State) :
    Except Error (AttemptOutcome ρ) :=
  match result with
  | .ok response => .ok (.ok response)
  | .error error =>
      match error.kind with
      | .service _ =>
          match error.cause with
          | .throttledError retryAfter => .ok (.retry error retryAfter)
          | .unavailableError => .ok (.retry error none)
          | .rawClientError _ =>
              if state.idempotent then .ok (.retry error none)
              else .error error
          | .remoteError status _ =>
              if state.idempotent ∧ status = .internalServerError then
                .ok (.retry error none)
              else .error error
          | _ => .error error
      | _ => .error error

/-- The errors that `send_attempt` retries. -/
def Retries (idempotent : Bool) (error : Error) : Prop :=
  error.isService ∧
    match error.cause with
    | .throttledError _ | .unavailableError => True
    | .rawClientError _ => idempotent
    | .remoteError status _ => idempotent ∧ status = .internalServerError
    | _ => False

def retryAfterOf : Cause → Option Duration
  | .throttledError retryAfter => retryAfter
  | _ => none

theorem sendAttempt_of_retries {state : State} {error : Error}
    (h : Retries state.idempotent error) :
    sendAttempt (.error error : Except Error ρ) state =
      .ok (.retry error (retryAfterOf error.cause)) := by
  obtain ⟨hservice, hcause⟩ := h
  unfold sendAttempt
  cases hkind : error.kind with
  | service type =>
      cases hcase : error.cause with
      | throttledError retryAfter => simp [hkind, hcase, retryAfterOf]
      | unavailableError => simp [hkind, hcase, retryAfterOf]
      | rawClientError inner =>
          rw [hcase] at hcause
          simp [hkind, hcase, hcause, retryAfterOf]
      | remoteError status decoded =>
          rw [hcase] at hcause
          simp [hkind, hcase, hcause, retryAfterOf]
      | requestBodyError | foreign | foreignWithSource =>
          simp [hcase] at hcause
  | throttle retryAfter => simp [Error.isService, hkind] at hservice
  | unavailable => simp [Error.isService, hkind] at hservice

theorem sendAttempt_of_not_retries {state : State} {error : Error}
    (h : ¬ Retries state.idempotent error) :
    sendAttempt (.error error : Except Error ρ) state = .error error := by
  unfold sendAttempt
  cases hkind : error.kind with
  | service type =>
      have hcause := fun h' => h ⟨by simp [Error.isService, hkind], h'⟩
      cases hcase : error.cause with
      | throttledError retryAfter => simp [hcase] at hcause
      | unavailableError => simp [hcase] at hcause
      | rawClientError inner =>
          have : state.idempotent = false := by simpa [hcase] using hcause
          simp [hkind, hcase, this]
      | remoteError status decoded =>
          have : ¬ (state.idempotent = true ∧
              status = .internalServerError) := by
            simpa [hcase] using hcause
          simp [hkind, hcase, this]
      | requestBodyError | foreign | foreignWithSource => simp [hkind, hcase]
  | throttle retryAfter | unavailable => simp [hkind]

theorem sendAttempt_eq_retry_iff {state : State} {result : Except Error ρ}
    {error : Error} {retryAfter : Option Duration} :
    sendAttempt result state = .ok (.retry error retryAfter) ↔
      result = .error error ∧ Retries state.idempotent error ∧
        retryAfter = retryAfterOf error.cause := by
  cases result with
  | ok response => simp [sendAttempt]
  | error error' =>
      by_cases h : Retries state.idempotent error'
      · rw [sendAttempt_of_retries h]
        constructor
        · intro heq
          cases heq
          exact ⟨rfl, h, rfl⟩
        · rintro ⟨heq, -, rfl⟩
          cases heq
          rfl
      · rw [sendAttempt_of_not_retries h]
        constructor
        · intro heq
          cases heq
        · rintro ⟨heq, h', -⟩
          cases heq
          exact absurd h' h

namespace RetryService

variable (service : RetryService)

/-- The increment and the limit check of `prepare_for_retry`; `none` means
that the limit is exceeded. -/
def nextAttempt (state : State) : Except Panic (Option State) :=
  if state.attempt + 1 < 2 ^ 32 then
    if service.maxNumRetries < state.attempt + 1 then .ok none
    else .ok (some { state with attempt := state.attempt + 1 })
  else .error .addOverflow

def backoffBound (attempt : Nat) : Except Panic Duration :=
  if attempt - 1 < 32 then
    mulDuration service.backoffSlotSize (2 ^ (attempt - 1))
  else .error .shiftOverflow

def backoff (state : State) (retryAfter : Option Duration)
    (randomRange : Duration → Duration) : Except Panic Duration :=
  match retryAfter with
  | some backoff => .ok backoff
  | none => do
      let max ← service.backoffBound state.attempt
      if max = .fromSecs 0 then pure (.fromSecs 0) else pure (randomRange max)

/-- `prepare_for_retry`: the state of the next attempt, or the error to give
up with. -/
def prepareForRetry (state : State) (attempt : Attempt ρ) (error : Error)
    (retryAfter : Option Duration) : Except Panic (Except Error State) := do
  match ← service.nextAttempt state with
  | none => pure (.error error)
  | some state =>
      if attempt.needsReset = some true ∧ attempt.reset = false then
        pure (.error error)
      else
        let _ ← service.backoff state retryAfter attempt.randomRange
        pure (.ok state)

theorem prepareForRetry_eq_ok_iff {state state' : State}
    {attempt : Attempt ρ} {error : Error} {retryAfter : Option Duration} :
    service.prepareForRetry state attempt error retryAfter =
        .ok (.ok state') ↔
      state.attempt + 1 ≤ service.maxNumRetries ∧
      ¬ (attempt.needsReset = some true ∧ attempt.reset = false) ∧
      (∃ duration, service.backoff state' retryAfter attempt.randomRange =
        .ok duration) ∧
      state' = { state with attempt := state.attempt + 1 } := by
  have hlimit := service.maxNumRetries_lt
  unfold prepareForRetry nextAttempt
  by_cases hfits : state.attempt + 1 < 2 ^ 32
  · rw [if_pos hfits]
    by_cases hallowed : state.attempt + 1 ≤ service.maxNumRetries
    · rw [if_neg (by omega)]
      simp only [bind, Except.bind, hallowed, true_and]
      by_cases hreset : attempt.needsReset = some true ∧ attempt.reset = false
      · simp [hreset, pure, Except.pure]
      · rw [if_neg hreset]
        cases hbackoff : service.backoff
            { state with attempt := state.attempt + 1 } retryAfter
            attempt.randomRange with
        | error panic =>
            constructor
            · intro h
              cases h
            · rintro ⟨-, ⟨duration, hduration⟩, rfl⟩
              rw [hbackoff] at hduration
              cases hduration
        | ok duration =>
            constructor
            · intro h
              cases h
              exact ⟨hreset, ⟨duration, hbackoff⟩, rfl⟩
            · rintro ⟨-, -, rfl⟩
              rfl
    · rw [if_pos (by omega)]
      simp [hallowed, bind, Except.bind, pure, Except.pure]
  · rw [if_neg hfits]
    constructor
    · intro h
      cases h
    · rintro ⟨hallowed, -⟩
      omega

/-- One iteration of the loop of `State::call`. -/
def iterate (state : State) (attempt : Attempt ρ) : Loop ρ :=
  match sendAttempt (sendRaw attempt.write attempt.response) state with
  | .error error => .returned (.error error)
  | .ok (.ok response) => .returned (.ok response)
  | .ok (.retry error retryAfter) =>
      match service.prepareForRetry state attempt error retryAfter with
      | .error panic => .panicked panic
      | .ok (.error error) => .returned (.error error)
      | .ok (.ok state) => .attempting state

theorem iterate_eq_attempting_iff {state state' : State}
    {attempt : Attempt ρ} :
    service.iterate state attempt = .attempting state' ↔
      ∃ error, sendRaw attempt.write attempt.response = .error error ∧
        Retries state.idempotent error ∧
        service.prepareForRetry state attempt error
          (retryAfterOf error.cause) = .ok (.ok state') := by
  unfold iterate
  constructor
  · intro h
    split at h
    · cases h
    · cases h
    · rename_i error retryAfter hsend
      obtain ⟨hraw, hretries, rfl⟩ := sendAttempt_eq_retry_iff.mp hsend
      refine ⟨error, hraw, hretries, ?_⟩
      split at h
      · cases h
      · cases h
      · rename_i hprepare
        cases h
        exact hprepare
  · rintro ⟨error, hraw, hretries, hprepare⟩
    rw [hraw, sendAttempt_of_retries hretries]
    simp only [hprepare]

/-- `RetryService::call`. -/
def call (ρ : Type) (method : Method) : Loop ρ :=
  .attempting (.new (isIdempotent service.idempotency method))

def Step (loop : Loop ρ) (attempt : Attempt ρ) (loop' : Loop ρ) : Prop :=
  ∃ state, loop = .attempting state ∧ loop' = service.iterate state attempt

end RetryService

end

end ConjureRuntime.Service.Retry
