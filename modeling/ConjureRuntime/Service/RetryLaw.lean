import ConjureRuntime.Service.Retry

/-!
# Which requests are retried

For a request whose body needs no writer the attempts are decided by the
configuration and by what the raw client or the layers over it return.
-/

namespace ConjureRuntime.Service.Retry

open ConjureRuntime.Foundation

/-- A service error from a layer under the retries that is neither a raw
client error nor made from a response. -/
structure OtherError where
  error : Error
  isService : error.isService = true
  foreign : (∃ type, error.cause = .foreign type) ∨
    ∃ type source, error.cause = .foreignWithSource type source

/-- How the services under the HTTP error layer end one attempt. -/
inductive InnerResult where
  | answered (response : Response BodyStream)
  | rawClientError (inner : Cause)
  | other (error : OtherError)

namespace InnerResult

def toExcept : InnerResult → Except Error (Response BodyStream)
  | .answered response => .ok response
  | .rawClientError inner => mapError (.error inner)
  | .other error => .error error.error

def Retryable (serverQos : ServerQos) (idempotent : Bool) :
    InnerResult → Prop
  | .answered response =>
      ((response.status = .tooManyRequests ∨
          response.status = .serviceUnavailable) ∧
        serverQos = .automaticRetry) ∨
      (idempotent ∧ response.status = .internalServerError)
  | .rawClientError _ => idempotent
  | .other _ => False

instance (serverQos : ServerQos) (idempotent : Bool)
    (result : InnerResult) :
    Decidable (result.Retryable serverQos idempotent) :=
  match result with
  | .answered response => inferInstanceAs (Decidable
      (((response.status = .tooManyRequests ∨
          response.status = .serviceUnavailable) ∧
        serverQos = .automaticRetry) ∨
      (idempotent ∧ response.status = .internalServerError)))
  | .rawClientError _ => inferInstanceAs (Decidable (idempotent = true))
  | .other _ => inferInstanceAs (Decidable False)

def IsSuccess : InnerResult → Prop
  | .answered response => response.status.isSuccess
  | _ => False

theorem IsSuccess.answered {result : InnerResult} (h : result.IsSuccess) :
    ∃ response, result = .answered response ∧
      response.status.isSuccess = true := by
  cases result with
  | answered response => exact ⟨response, rfl, h⟩
  | rawClientError | other => exact h.elim

theorem not_retryable_of_success {result : InnerResult}
    (h : result.IsSuccess) (serverQos : ServerQos) (idempotent : Bool) :
    ¬ result.Retryable serverQos idempotent := by
  obtain ⟨response, rfl, hstatus⟩ := h.answered
  rintro (⟨hqos | hqos, -⟩ | ⟨-, hqos⟩) <;> simp [hqos] at hstatus <;>
    revert hstatus <;> decide

end InnerResult

def fixedAttempt (http : HttpErrorService) (result : InnerResult)
    (randomRange : Duration → Duration) : Attempt (Response BodyStream) where
  write := .ok ()
  response := http.call result.toExcept
  needsReset := none
  reset := false
  randomRange := randomRange

variable {service : RetryService} {http : HttpErrorService} {state : State}
  {result : InnerResult}

/-! ## One attempt -/

theorem call_success {response : Response BodyStream}
    (h : response.status.isSuccess = true) :
    http.call (InnerResult.answered response).toExcept = .ok response := by
  simp [InnerResult.toExcept, HttpErrorService.call, h]

theorem call_failure (http : HttpErrorService) (h : ¬ result.IsSuccess) :
    ∃ error, http.call result.toExcept = .error error ∧
      ∀ idempotent, Retries idempotent error ↔
        result.Retryable http.serverQos idempotent := by
  cases result with
  | answered response =>
      have hfailure : ¬ response.status.isSuccess = true := h
      unfold InnerResult.toExcept HttpErrorService.call
      dsimp only
      rw [if_neg hfailure]
      by_cases hthrottled : response.status = .tooManyRequests
      · rw [if_pos hthrottled]
        refine ⟨_, rfl, fun idempotent => ?_⟩
        rw [Retries, http.tooManyRequests_isService,
          http.tooManyRequests_cause]
        simp [InnerResult.Retryable, hthrottled, StatusCode.tooManyRequests,
          StatusCode.internalServerError]
      · rw [if_neg hthrottled]
        by_cases hunavailable : response.status = .serviceUnavailable
        · rw [if_pos hunavailable]
          refine ⟨_, rfl, fun idempotent => ?_⟩
          rw [Retries, http.unavailable_isService, http.unavailable_cause]
          simp [InnerResult.Retryable, hunavailable,
            StatusCode.serviceUnavailable, StatusCode.internalServerError]
        · rw [if_neg hunavailable]
          refine ⟨_, rfl, fun idempotent => ?_⟩
          obtain ⟨decoded, hcause⟩ := http.remoteError_cause response
          rw [Retries, http.remoteError_isService, hcause]
          simp [InnerResult.Retryable, hthrottled, hunavailable]
  | rawClientError inner =>
      refine ⟨_, rfl, fun idempotent => ?_⟩
      simp [Retries, Error.internalSafe, Error.isService,
        InnerResult.Retryable]
  | other error =>
      refine ⟨_, rfl, fun idempotent => ?_⟩
      rcases error.foreign with ⟨type, hcause⟩ | ⟨type, source, hcause⟩ <;>
        simp [Retries, hcause, InnerResult.Retryable]

/-! ## The law -/

/-- No retry that the limit allows panics in its backoff. -/
def RetryService.BackoffDefined (service : RetryService) : Prop :=
  ∀ attempt, 1 ≤ attempt → attempt ≤ service.maxNumRetries →
    ∃ bound, service.backoffBound attempt = .ok bound

theorem RetryService.BackoffDefined.maxNumRetries_le
    (h : service.BackoffDefined) : service.maxNumRetries ≤ 32 := by
  by_contra hmany
  obtain ⟨bound, hbound⟩ := h 33 (by omega) (by omega)
  simp [RetryService.backoffBound] at hbound

theorem RetryService.BackoffDefined.backoff_ok
    (h : service.BackoffDefined) (state : State)
    (hpositive : 1 ≤ state.attempt)
    (hallowed : state.attempt ≤ service.maxNumRetries)
    (retryAfter : Option Duration) (randomRange : Duration → Duration) :
    ∃ duration, service.backoff state retryAfter randomRange =
      .ok duration := by
  cases retryAfter with
  | some duration => exact ⟨duration, rfl⟩
  | none =>
      obtain ⟨bound, hbound⟩ := h state.attempt hpositive hallowed
      unfold RetryService.backoff
      simp only [hbound, bind, Except.bind]
      split
      · exact ⟨_, rfl⟩
      · exact ⟨_, rfl⟩

theorem prepareForRetry_fixed (hbackoff : service.BackoffDefined)
    (hattempt : state.attempt ≤ service.maxNumRetries)
    (error : Error) (retryAfter : Option Duration)
    (randomRange : Duration → Duration) :
    service.prepareForRetry state (fixedAttempt http result randomRange)
        error retryAfter =
      .ok (if state.attempt + 1 ≤ service.maxNumRetries then
        .ok { state with attempt := state.attempt + 1 }
      else .error error) := by
  have hmax := hbackoff.maxNumRetries_le
  have hfits : state.attempt + 1 < 2 ^ 32 := by omega
  unfold RetryService.prepareForRetry RetryService.nextAttempt
  rw [if_pos hfits]
  by_cases hallowed : state.attempt + 1 ≤ service.maxNumRetries
  · rw [if_neg (by omega), if_pos hallowed]
    obtain ⟨duration, hduration⟩ := hbackoff.backoff_ok
      { state with attempt := state.attempt + 1 } (by simp)
      hallowed retryAfter (fixedAttempt http result randomRange).randomRange
    simp [bind, Except.bind, fixedAttempt, pure, Except.pure] at hduration ⊢
    rw [hduration]
  · rw [if_pos (by omega), if_neg hallowed]
    rfl

theorem iterate_fixed (hbackoff : service.BackoffDefined)
    (hattempt : state.attempt ≤ service.maxNumRetries)
    (randomRange : Duration → Duration) :
    service.iterate state (fixedAttempt http result randomRange) =
      if state.attempt + 1 ≤ service.maxNumRetries ∧
          result.Retryable http.serverQos state.idempotent then
        .attempting { state with attempt := state.attempt + 1 }
      else .returned (http.call result.toExcept) := by
  by_cases hsuccess : result.IsSuccess
  · obtain ⟨response, rfl, hstatus⟩ := hsuccess.answered
    have hnot := InnerResult.not_retryable_of_success hsuccess
      http.serverQos state.idempotent
    rw [if_neg fun h => hnot h.2]
    simp [RetryService.iterate, fixedAttempt, call_success hstatus, sendRaw,
      sendAttempt]
  · obtain ⟨error, hcall, hretries⟩ := call_failure http hsuccess
    have hraw : sendRaw (fixedAttempt http result randomRange).write
        (fixedAttempt http result randomRange).response = .error error := by
      simp [fixedAttempt, hcall, sendRaw]
    unfold RetryService.iterate
    rw [hraw, hcall]
    by_cases hretry : result.Retryable http.serverQos state.idempotent
    · rw [sendAttempt_of_retries ((hretries state.idempotent).mpr hretry)]
      dsimp only
      rw [prepareForRetry_fixed hbackoff hattempt]
      by_cases hallowed : state.attempt + 1 ≤ service.maxNumRetries
      · simp [hallowed, hretry]
      · simp [hallowed]
    · rw [sendAttempt_of_not_retries
        (mt (hretries state.idempotent).mp hretry)]
      simp [hretry]

def FixedStep (service : RetryService) (http : HttpErrorService)
    (loop : Loop (Response BodyStream)) (result : InnerResult)
    (loop' : Loop (Response BodyStream)) : Prop :=
  ∃ randomRange, service.Step loop (fixedAttempt http result randomRange)
    loop'

theorem run_attempting {method : Method} (hbackoff : service.BackoffDefined)
    {results : List InnerResult} {loop : Loop (Response BodyStream)}
    (run : Run (FixedStep service http) (service.call _ method) results
      loop) :
    loop = .attempting state →
      state = ⟨isIdempotent service.idempotency method, results.length⟩ ∧
      results.length ≤ service.maxNumRetries ∧
      ∀ result ∈ results, ¬ result.IsSuccess := by
  induction run generalizing state with
  | refl =>
      intro h
      cases h
      simp [State.new]
  | step run hstep ih =>
      obtain ⟨randomRange, mid, rfl, rfl⟩ := hstep
      obtain ⟨rfl, hlength, hfailed⟩ := ih rfl
      rw [iterate_fixed hbackoff hlength]
      intro h
      split at h
      · rename_i hretry
        cases h
        refine ⟨by simp, by simpa using hretry.1, ?_⟩
        intro result hmem
        rcases List.mem_append.mp hmem with hmem | hmem
        · exact hfailed result hmem
        · rw [List.mem_singleton.mp hmem]
          intro hsuccess
          exact InnerResult.not_retryable_of_success hsuccess _ _ hretry.2
      · cases h

/-- Attempt `results.length + 1` is followed by another one exactly if the
limit allows it and its result is retryable; otherwise the call returns its
response or its error, and it is the first that did not fail. -/
theorem retried_iff_retryable {method : Method}
    (hbackoff : service.BackoffDefined) {results : List InnerResult}
    {loop : Loop (Response BodyStream)}
    (run : Run (FixedStep service http) (service.call _ method)
      (results ++ [result]) loop) :
    ((∃ state, loop = .attempting state) ↔
        results.length + 1 ≤ service.maxNumRetries ∧
        result.Retryable http.serverQos
          (isIdempotent service.idempotency method)) ∧
      ((¬ ∃ state, loop = .attempting state) →
        (∃ response, result = .answered response ∧
          response.status.isSuccess ∧ loop = .returned (.ok response)) ∨
        (¬ result.IsSuccess ∧ ∃ error,
          http.call result.toExcept = .error error ∧
          loop = .returned (.error error))) ∧
      ∀ earlier ∈ results, ¬ earlier.IsSuccess := by
  obtain ⟨mid, hearlier, randomRange, state, rfl, rfl⟩ := run.last_step
  obtain ⟨rfl, hlength, hfailed⟩ := run_attempting hbackoff hearlier rfl
  rw [iterate_fixed hbackoff hlength]
  refine ⟨?_, ?_, hfailed⟩
  · split
    · rename_i hretry
      exact ⟨fun _ => hretry, fun _ => ⟨_, rfl⟩⟩
    · rename_i hgiveUp
      exact ⟨by simp, fun h => absurd h hgiveUp⟩
  · intro hreturned
    split at hreturned
    · exact absurd ⟨_, rfl⟩ hreturned
    · rename_i hgiveUp
      rw [if_neg hgiveUp]
      by_cases hsuccess : result.IsSuccess
      · obtain ⟨response, rfl, hstatus⟩ := hsuccess.answered
        exact .inl ⟨response, rfl, hstatus, by rw [call_success hstatus]⟩
      · obtain ⟨error, hcall, -⟩ := call_failure http hsuccess
        exact .inr ⟨hsuccess, error, hcall, by rw [hcall]⟩

theorem default_backoffDefined : RetryService.default.BackoffDefined := by
  intro attempt hpositive hallowed
  have hbound : attempt ≤ 4 := hallowed
  refine ⟨⟨250 * 10 ^ 6 * 2 ^ (attempt - 1)⟩, ?_⟩
  have hscale : 2 ^ (attempt - 1) ≤ 2 ^ 3 :=
    Nat.pow_le_pow_right (by omega) (by omega)
  unfold RetryService.backoffBound mulDuration
  rw [if_pos (by omega), if_pos]
  · rfl
  · simp only [RetryService.default, Duration.max]
    omega

theorem get_retried_after_io_error :
    let http : HttpErrorService :=
      ⟨.automaticRetry, .wrapInNewError, fun _ _ => none⟩
    ∃ loop, Run (FixedStep .default http) (RetryService.default.call _ .get)
      ([.rawClientError (.foreign "connection reset")] ++
        [.answered ⟨.ok, [], []⟩]) loop ∧
      loop = .returned (.ok ⟨.ok, [], []⟩) ∧
      ∀ earlier ∈ [InnerResult.rawClientError (.foreign "connection reset")],
        ¬ earlier.IsSuccess := by
  intro http
  have first : FixedStep .default http (RetryService.default.call _ .get)
      (.rawClientError (.foreign "connection reset"))
      (.attempting ⟨true, 1⟩) := ⟨id, _, rfl, rfl⟩
  have second : FixedStep .default http (.attempting ⟨true, 1⟩)
      (.answered ⟨.ok, [], []⟩) (.returned (.ok ⟨.ok, [], []⟩)) :=
    ⟨id, _, rfl, rfl⟩
  have run := (Run.refl.step first).step second
  exact ⟨_, run, rfl,
    (retried_iff_retryable default_backoffDefined run).2.2⟩

end ConjureRuntime.Service.Retry
