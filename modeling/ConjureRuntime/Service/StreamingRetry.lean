import ConjureRuntime.Service.RetryLaw

/-!
# Retries of streaming requests

A streaming request fails on two sides at once: when the body writer fails,
the HTTP client sees `RequestBodyError` and fails too, and the error of the
writer is the one that survives.  It is then classified like an error that
the server caused.
-/

namespace ConjureRuntime.Service.Retry

open ConjureRuntime.Foundation

structure StreamingEvent where
  write : Except Error Unit
  inner : InnerResult
  needsReset : Bool
  reset : Bool
  randomRange : Duration → Duration
  retried : Bool

namespace StreamingEvent

def toAttempt (event : StreamingEvent) (http : HttpErrorService) :
    Attempt (Response BodyStream) where
  write := event.write
  response := http.call event.inner.toExcept
  needsReset := some event.needsReset
  reset := event.reset
  randomRange := event.randomRange

end StreamingEvent

def StreamingStep (service : RetryService) (http : HttpErrorService)
    (loop : Loop (Response BodyStream)) (event : StreamingEvent)
    (loop' : Loop (Response BodyStream)) : Prop :=
  service.Step loop (event.toAttempt http) loop' ∧
    (event.retried ↔ ∃ state, loop' = .attempting state)

def InnerResult.IsQos : InnerResult → Prop
  | .answered response =>
      response.status = .tooManyRequests ∨
      response.status = .serviceUnavailable
  | _ => False

/-- The HTTP call failed over the `RequestBodyError` of the body. -/
def InnerResult.FailedByBody : InnerResult → Prop
  | .answered _ => False
  | .rawClientError inner => hasRequestBodyError inner
  | .other error => hasRequestBodyError error.error.cause

def LooksLikeQos (error : Error) : Prop :=
  error.isService ∧ ((∃ retryAfter, error.cause = .throttledError retryAfter) ∨
    error.cause = .unavailableError)

/-- The body writer failed with such an error, which survives because the
call failed over the body, and nothing else stops the next attempt: the limit,
a body that cannot be reset, or a backoff that cannot be computed. -/
def WriterRetried (service : RetryService) (state : State)
    (event : StreamingEvent) : Prop :=
  ∃ error, event.write = .error error ∧ LooksLikeQos error ∧
    event.inner.FailedByBody ∧
    state.attempt + 1 ≤ service.maxNumRetries ∧
    (event.needsReset → event.reset) ∧
    ∃ duration, service.backoff
      { state with attempt := state.attempt + 1 }
      (retryAfterOf error.cause) event.randomRange = .ok duration

variable {service : RetryService} {http : HttpErrorService} {state : State}
  {event : StreamingEvent}

/-! ## One attempt of a request that is not idempotent -/

theorem retries_not_idempotent {error : Error} :
    Retries false error ↔ LooksLikeQos error := by
  unfold Retries LooksLikeQos
  cases error.cause <;> simp

theorem call_error {result : InnerResult} {error : Error}
    (h : http.call result.toExcept = .error error) :
    (hasRequestBodyError error.cause ↔ result.FailedByBody) ∧
      (LooksLikeQos error → result.IsQos) := by
  cases result with
  | answered response =>
      unfold InnerResult.toExcept HttpErrorService.call at h
      dsimp only at h
      split at h
      · cases h
      · split at h
        · rename_i hthrottled
          cases h
          rw [http.tooManyRequests_cause]
          exact ⟨by simp [hasRequestBodyError, InnerResult.FailedByBody],
            fun _ => .inl hthrottled⟩
        · split at h
          · rename_i hunavailable
            cases h
            rw [http.unavailable_cause]
            exact ⟨by simp [hasRequestBodyError, InnerResult.FailedByBody],
              fun _ => .inr hunavailable⟩
          · cases h
            obtain ⟨decoded, hcause⟩ := http.remoteError_cause response
            rw [LooksLikeQos, hcause]
            exact ⟨by simp [hasRequestBodyError, InnerResult.FailedByBody],
              by simp⟩
  | rawClientError inner =>
      cases h
      simp [Error.internalSafe, hasRequestBodyError, LooksLikeQos,
        InnerResult.FailedByBody]
  | other error' =>
      cases h
      refine ⟨Iff.rfl, ?_⟩
      rcases error'.foreign with ⟨type, hcause⟩ | ⟨type, source, hcause⟩ <;>
        simp [LooksLikeQos, hcause]

theorem writerRetried_not_isQos (h : WriterRetried service state event) :
    ¬ event.inner.IsQos := by
  obtain ⟨error, -, -, hbody, -⟩ := h
  cases hinner : event.inner with
  | answered response => simp [hinner, InnerResult.FailedByBody] at hbody
  | rawClientError | other => simp [InnerResult.IsQos]

theorem call_of_failedByBody {result : InnerResult}
    (h : result.FailedByBody) :
    ∃ error, http.call result.toExcept = .error error ∧
      hasRequestBodyError error.cause = true := by
  cases result with
  | answered response => exact h.elim
  | rawClientError inner => exact ⟨_, rfl, h⟩
  | other error => exact ⟨_, rfl, h⟩

theorem iterate_of_writerRetried (hidempotent : state.idempotent = false)
    (h : WriterRetried service state event) :
    service.iterate state (event.toAttempt http) =
      .attempting { state with attempt := state.attempt + 1 } := by
  obtain ⟨error, hwrite, hqos, hbody, hallowed, hreset, hbackoff⟩ := h
  obtain ⟨httpError, hcall, hchain⟩ := @call_of_failedByBody http _ hbody
  refine service.iterate_eq_attempting_iff.mpr ⟨error, ?_, ?_, ?_⟩
  · simp [StreamingEvent.toAttempt, hwrite, hcall, sendRaw,
      deconflictErrors, hchain]
  · rw [hidempotent]
    exact retries_not_idempotent.mpr hqos
  · refine service.prepareForRetry_eq_ok_iff.mpr
      ⟨hallowed, ?_, hbackoff, rfl⟩
    rintro ⟨hneeds, hrefused⟩
    have hneeds : event.needsReset = true := Option.some.inj hneeds
    have hrefused : event.reset = false := hrefused
    simp [hreset hneeds] at hrefused

theorem isQos_or_writerRetried (hidempotent : state.idempotent = false)
    {state' : State}
    (h : service.iterate state (event.toAttempt http) =
      .attempting state') :
    event.inner.IsQos ∨ WriterRetried service state event := by
  obtain ⟨error, hraw, hretries, hprepare⟩ :=
    service.iterate_eq_attempting_iff.mp h
  rw [hidempotent, retries_not_idempotent] at hretries
  obtain ⟨hallowed, hreset, hbackoff, rfl⟩ :=
    service.prepareForRetry_eq_ok_iff.mp hprepare
  simp only [StreamingEvent.toAttempt] at hraw hreset hbackoff
  cases hcall : http.call event.inner.toExcept with
  | ok response => cases hwrite : event.write <;>
      simp [hwrite, hcall, sendRaw] at hraw
  | error httpError =>
      obtain ⟨hchain, hqos⟩ := call_error hcall
      cases hwrite : event.write with
      | ok _ =>
          rw [hwrite, hcall] at hraw
          cases hraw
          exact .inl (hqos hretries)
      | error bodyError =>
          rw [hwrite, hcall] at hraw
          have herror : deconflictErrors bodyError httpError = error :=
            Except.error.inj hraw
          unfold deconflictErrors at herror
          split at herror
          · rename_i hbody
            subst herror
            refine .inr ⟨bodyError, hwrite, hretries, hchain.mp hbody,
              hallowed, ?_, hbackoff⟩
            intro hneeds
            simpa [hneeds] using hreset
          · subst herror
            exact .inl (hqos hretries)

/-! ## Runs -/

def RetriedOnlyAfterQos (events : List StreamingEvent) : Prop :=
  ∀ event ∈ events, event.retried → event.inner.IsQos

def GuardedStep (service : RetryService) (http : HttpErrorService)
    (loop : Loop (Response BodyStream)) (event : StreamingEvent)
    (loop' : Loop (Response BodyStream)) : Prop :=
  StreamingStep service http loop event loop' ∧
    ∀ state, loop = .attempting state → ¬ WriterRetried service state event

theorem run_idempotent {method : Method} {events : List StreamingEvent}
    {loop : Loop (Response BodyStream)}
    (run : Run (StreamingStep service http) (service.call _ method) events
      loop) :
    ∀ state, loop = .attempting state →
      state.idempotent = isIdempotent service.idempotency method := by
  refine run.invariant (fun _ loop => ∀ state, loop = .attempting state →
    state.idempotent = isIdempotent service.idempotency method) ?_ ?_
  · rintro state h
    cases h
    rfl
  · rintro events loop event loop' ih ⟨⟨state, rfl, rfl⟩, -⟩ state' h
    obtain ⟨error, -, -, hprepare⟩ := service.iterate_eq_attempting_iff.mp h
    obtain ⟨-, -, -, rfl⟩ := service.prepareForRetry_eq_ok_iff.mp hprepare
    exact ih state rfl

theorem retried_isQos_iff (hidempotent : state.idempotent = false)
    {loop' : Loop (Response BodyStream)}
    (hstep : StreamingStep service http (.attempting state) event loop') :
    (event.retried → event.inner.IsQos) ↔
      ¬ WriterRetried service state event := by
  obtain ⟨⟨state', hstate, rfl⟩, hretried⟩ := hstep
  cases hstate
  constructor
  · intro h hwriter
    refine writerRetried_not_isQos hwriter (h (hretried.mpr ?_))
    exact ⟨_, iterate_of_writerRetried hidempotent hwriter⟩
  · intro hwriter h
    obtain ⟨state', hagain⟩ := hretried.mp h
    exact (isQos_or_writerRetried hidempotent hagain).resolve_right hwriter

/-- A request that is not idempotent is retried only after a 429 or 503 if
and only if no error of its body writer is retried. -/
theorem retried_only_after_qos_iff {method : Method}
    (hidempotent : isIdempotent service.idempotency method = false)
    {events : List StreamingEvent} {loop : Loop (Response BodyStream)}
    (run : Run (StreamingStep service http) (service.call _ method) events
      loop) :
    RetriedOnlyAfterQos events ↔
      Run (GuardedStep service http) (service.call _ method) events loop := by
  have hlast : ∀ {events mid event loop'},
      Run (StreamingStep service http) (service.call _ method) events mid →
      StreamingStep service http mid event loop' →
      ((event.retried → event.inner.IsQos) ↔
        ∀ state, mid = .attempting state →
          ¬ WriterRetried service state event) := by
    intro events mid event loop' run hstep
    obtain ⟨state, rfl, -⟩ := hstep.1
    have hstate := (run_idempotent run state rfl).trans hidempotent
    rw [retried_isQos_iff hstate hstep]
    exact ⟨fun h _ heq => by cases heq; exact h, fun h => h state rfl⟩
  constructor
  · intro hqos
    induction run with
    | refl => exact .refl
    | @step events mid loop' event run hstep ih =>
        refine .step (ih fun event hmem =>
          hqos event (List.mem_append_left _ hmem)) ⟨hstep, ?_⟩
        exact (hlast run hstep).mp (hqos event (by simp))
  · intro guarded
    clear run
    induction guarded with
    | refl => simp [RetriedOnlyAfterQos]
    | @step events mid loop' event guarded hstep ih =>
        have run := guarded.mono fun h => h.1
        intro event' hmem
        rcases List.mem_append.mp hmem with hmem | hmem
        · exact ih event' hmem
        · rw [List.mem_singleton.mp hmem]
          exact (hlast run hstep.1).mpr hstep.2

/-! ## The error of another client's request -/

def relayedEvent : StreamingEvent where
  write := .error (Error.internalSafe .unavailableError)
  inner := .rawClientError (.foreignWithSource "hyper" .requestBodyError)
  needsReset := true
  reset := true
  randomRange := id
  retried := true

theorem relayed_error_is_retried :
    ∃ loop, isIdempotent RetryService.default.idempotency .post = false ∧
      Run (StreamingStep .default
        ⟨.automaticRetry, .wrapInNewError, fun _ _ => none⟩)
        (RetryService.default.call _ .post) [relayedEvent] loop ∧
      ¬ RetriedOnlyAfterQos [relayedEvent] := by
  refine ⟨.attempting ⟨false, 1⟩, rfl,
    .step .refl ⟨⟨_, rfl, rfl⟩, ?_⟩, ?_⟩
  · exact ⟨fun _ => ⟨_, rfl⟩, fun _ => rfl⟩
  · intro h
    exact (h relayedEvent (by simp) rfl).elim

/-- The same writer without a reset: the request is sent once. -/
theorem refused_reset_is_guarded :
    Run (GuardedStep .default
        ⟨.automaticRetry, .wrapInNewError, fun _ _ => none⟩)
      (RetryService.default.call _ .post)
      ([] ++ [{ relayedEvent with reset := false, retried := false }])
      (.returned (.error (Error.internalSafe .unavailableError))) := by
  have hstep : StreamingStep .default
      ⟨.automaticRetry, .wrapInNewError, fun _ _ => none⟩
      (RetryService.default.call _ .post)
      { relayedEvent with reset := false, retried := false }
      (.returned (.error (Error.internalSafe .unavailableError))) :=
    ⟨⟨_, rfl, rfl⟩, by simp⟩
  refine (retried_only_after_qos_iff rfl (Run.refl.step hstep)).mp ?_
  simp [RetriedOnlyAfterQos]

end ConjureRuntime.Service.Retry
