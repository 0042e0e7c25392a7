import ConjureRuntime.Foundation.Returns
import ConjureRuntime.Service.RetryLaw

/-!
# What a call leaves in its spans and metrics

Three layers watch a call: the root span and the timer around the retries see
how it ends, the span of an attempt sees what the retry layer makes of it, and
the host metrics see what the node did.  They stand above and below the layers
that turn responses into errors.
-/

namespace ConjureRuntime.Service.Telemetry

open ConjureRuntime.Foundation ConjureRuntime.Service.Retry

inductive Outcome where
  | success
  | failure
  deriving DecidableEq, Repr

/-- The tags of a span that `HttpSpanFuture` adds in the end. -/
structure SpanTags where
  outcome : Outcome
  statusCode : Option StatusCode
  deriving DecidableEq, Repr

def statusOf : Cause → Option StatusCode
  | .throttledError _ => some .tooManyRequests
  | .unavailableError => some .serviceUnavailable
  | .remoteError status _ => some status
  | _ => none

/-- `HttpSpanFuture::poll`, when the inner future is ready. -/
def httpSpan {β : Type} : Except Error (Response β) → SpanTags
  | .ok response =>
      ⟨if response.status.isSuccess then .success else .failure,
        some response.status⟩
  | .error error => ⟨.failure, statusOf error.cause⟩

/-- The `status` of the `client.response` timer that `MetricsService::call`
updates. -/
def clientResponse {β : Type} : Except Error (Response β) → Outcome
  | .ok _ => .success
  | .error _ => .failure

inductive HostTimer where
  | response1xx
  | response2xx
  | response3xx
  | response4xx
  | response5xx
  | responseQos
  | responseOther
  deriving DecidableEq, Repr

inductive HostUpdate where
  | timer (timer : HostTimer)
  | ioError
  deriving DecidableEq, Repr

/-- `HostMetrics::update`. -/
def hostTimer (status : StatusCode) : HostTimer :=
  if status.code = 429 ∨ status.code = 503 then .responseQos
  else if 100 ≤ status.code ∧ status.code ≤ 199 then .response1xx
  else if 200 ≤ status.code ∧ status.code ≤ 299 then .response2xx
  else if 300 ≤ status.code ∧ status.code ≤ 399 then .response3xx
  else if 400 ≤ status.code ∧ status.code ≤ 499 then .response4xx
  else if 500 ≤ status.code ∧ status.code ≤ 599 then .response5xx
  else .responseOther

/-- `NodeMetricsService::call`. -/
def nodeMetrics {β : Type} : Except Error (Response β) → HostUpdate
  | .ok response => .timer (hostTimer response.status)
  | .error _ => .ioError

/-- What an attempt comes to under the HTTP error layer: a service without
URIs has an `EmptyNodeSelectorService`, and otherwise some node is picked. -/
inductive Answer where
  | noUris
  | sent (node : Nat) (result : Except Cause (Response BodyStream))

namespace Answer

def toExcept : Answer → Except Error (Response BodyStream)
  | .noUris =>
      .error (Error.internalSafe (.foreign "service configured with no URIs"))
  | .sent _ result => mapError result

def status : Answer → Option StatusCode
  | .sent _ (.ok response) => some response.status
  | _ => none

def hostUpdate (node : Nat) : Answer → Option HostUpdate
  | .noUris => none
  | .sent at_ result =>
      if at_ = node then some (nodeMetrics (mapError result)) else none

end Answer

structure Try where
  write : Except Error Unit
  answer : Answer
  needsReset : Option Bool
  reset : Bool
  randomRange : Duration → Duration

namespace Try

def attempt (http : HttpErrorService) (try_ : Try) :
    Attempt (Response BodyStream) where
  write := try_.write
  response := http.call try_.answer.toExcept
  needsReset := try_.needsReset
  reset := try_.reset
  randomRange := try_.randomRange

/-- `send_raw`. -/
def result (http : HttpErrorService) (try_ : Try) :
    Except Error (Response BodyStream) :=
  sendRaw try_.write (http.call try_.answer.toExcept)

def WriterFailed (try_ : Try) : Prop :=
  ∃ error node cause, try_.write = .error error ∧
    try_.answer = .sent node (.error cause) ∧ hasRequestBodyError cause = true

end Try

/-- A call, with the `failures` and the other tags of the spans of its
attempts, its root span, the update of the timer and those of the hosts. -/
structure Call where
  loop : Loop (Response BodyStream)
  attempts : List (Nat × SpanTags)
  hosts : Nat → List HostUpdate
  root : Option SpanTags
  response : Option Outcome

namespace Call

def new (service : RetryService) (method : Method) : Call :=
  ⟨service.call _ method, [], fun _ => [], none, none⟩

/-- An iteration of the loop in `State::call`, and the return from it. -/
def iterate (service : RetryService) (http : HttpErrorService) (call : Call)
    (state : Retry.State) (try_ : Try) : Call :=
  let loop := service.iterate state (try_.attempt http)
  let returned :=
    match loop with
    | .returned result => some result
    | _ => none
  { loop := loop
    attempts := call.attempts ++
      [(state.attempt, httpSpan (try_.result http))]
    hosts := fun node =>
      call.hosts node ++ (try_.answer.hostUpdate node).toList
    root := returned.map httpSpan
    response := returned.map clientResponse }

def Step (service : RetryService) (http : HttpErrorService) (call : Call)
    (try_ : Try) (call' : Call) : Prop :=
  ∃ state, call.loop = .attempting state ∧
    call' = call.iterate service http state try_

end Call

variable {http : HttpErrorService} {service : RetryService} {try_ : Try}

/-! ## The span of one attempt -/

theorem httpError_cases (http : HttpErrorService)
    (response : Response BodyStream) :
    (response.status.isSuccess = true ∧
      http.call (.ok response) = .ok response) ∨
    (response.status.isSuccess = false ∧ ∃ error,
      http.call (.ok response) = .error error ∧
      statusOf error.cause = some response.status ∧
      hasRequestBodyError error.cause = false) := by
  dsimp only [HttpErrorService.call]
  by_cases hsuccess : response.status.isSuccess = true
  · exact .inl ⟨hsuccess, if_pos hsuccess⟩
  · refine .inr ⟨Bool.not_eq_true _ ▸ hsuccess, ?_⟩
    rw [if_neg hsuccess]
    by_cases hthrottled : response.status = .tooManyRequests
    · refine ⟨_, if_pos hthrottled, ?_⟩
      rw [http.tooManyRequests_cause, hthrottled]
      exact ⟨rfl, rfl⟩
    · rw [if_neg hthrottled]
      by_cases hunavailable : response.status = .serviceUnavailable
      · refine ⟨_, if_pos hunavailable, ?_⟩
        rw [http.unavailable_cause, hunavailable]
        exact ⟨rfl, rfl⟩
      · refine ⟨_, if_neg hunavailable, ?_⟩
        obtain ⟨decoded, hcause⟩ := http.remoteError_cause response
        rw [hcause]
        exact ⟨rfl, rfl⟩

theorem httpError_span (response : Response BodyStream) :
    httpSpan (http.call (.ok response)) =
      ⟨if response.status.isSuccess then .success else .failure,
        some response.status⟩ := by
  rcases httpError_cases http response with
    ⟨-, hcall⟩ | ⟨hfailure, error, hcall, hstatus, -⟩
  · rw [hcall]
    rfl
  · rw [hcall, httpSpan, hstatus, hfailure]
    rfl

theorem httpError_no_body_error {response : Response BodyStream}
    {error : Error} (h : http.call (.ok response) = .error error) :
    hasRequestBodyError error.cause = false := by
  rcases httpError_cases http response with
    ⟨-, hcall⟩ | ⟨-, error', hcall, -, hbody⟩
  · rw [hcall] at h
    cases h
  · rw [hcall] at h
    cases h
    exact hbody

theorem sendRaw_of_no_body_error {write : Except Error Unit}
    {result : Except Error (Response BodyStream)}
    (h : ∀ body error, write = .error body → result = .error error →
      hasRequestBodyError error.cause = false) :
    sendRaw write result = result := by
  cases write with
  | ok => cases result <;> rfl
  | error body =>
      cases result with
      | ok => rfl
      | error error =>
          simp [sendRaw, deconflictErrors, h body error rfl rfl]

theorem attempt_span (h : ¬ try_.WriterFailed) :
    httpSpan (try_.result http) =
      ⟨if try_.answer.status.any StatusCode.isSuccess then .success
        else .failure, try_.answer.status⟩ := by
  have hraw : try_.result http = http.call try_.answer.toExcept := by
    refine sendRaw_of_no_body_error fun body error hwrite hresult => ?_
    cases hanswer : try_.answer with
    | noUris =>
        rw [hanswer] at hresult
        cases hresult
        rfl
    | sent node result =>
        rw [hanswer] at hresult
        cases result with
        | ok response => exact httpError_no_body_error hresult
        | error cause =>
            cases hresult
            by_contra hbody
            rw [Bool.not_eq_false] at hbody
            exact h ⟨body, node, cause, hwrite, hanswer, hbody⟩
  rw [hraw]
  cases hanswer : try_.answer with
  | noUris => rfl
  | sent node result =>
      cases result with
      | ok response => exact httpError_span response
      | error cause => rfl

/-! ## The whole call -/

namespace Call

variable {call call' : Call} {tries : List Try} {method : Method}

structure Consistent (service : RetryService) (http : HttpErrorService)
    (tries : List Try) (call : Call) : Prop where
  attempt : ∀ state, call.loop = .attempting state →
    state.attempt = tries.length
  failures : call.attempts.map Prod.fst = List.range tries.length
  spans : call.attempts.map Prod.snd =
    tries.map fun try_ => httpSpan (try_.result http)
  hosts : ∀ node, call.hosts node =
    tries.filterMap fun try_ => try_.answer.hostUpdate node
  returned : ∀ result, call.loop = .returned result →
    (∃ try_, tries.getLast? = some try_ ∧ result = try_.result http) ∧
    call.root = some (httpSpan result) ∧
    call.response = some (clientResponse result)
  unfinished : (∀ result, call.loop ≠ .returned result) →
    call.root = none ∧ call.response = none

theorem new_consistent (service : RetryService) (http : HttpErrorService)
    (method : Method) : Consistent service http [] (new service method) where
  attempt state h := by
    cases h
    rfl
  failures := rfl
  spans := rfl
  hosts _ := rfl
  returned result h := by cases h
  unfinished _ := ⟨rfl, rfl⟩

theorem prepareForRetry_error {state : Retry.State}
    {attempt : Attempt (Response BodyStream)} {error error' : Error}
    {retryAfter : Option Duration}
    (h : service.prepareForRetry state attempt error retryAfter =
      .ok (.error error')) : error' = error := by
  unfold RetryService.prepareForRetry at h
  obtain ⟨next, -, h⟩ := bind_eq_ok h
  cases next with
  | none =>
      cases h
      rfl
  | some next =>
      dsimp only at h
      split at h
      · cases h
        rfl
      · obtain ⟨duration, -, h⟩ := bind_eq_ok h
        cases h

theorem iterate_returned {state : Retry.State}
    {result : Except Error (Response BodyStream)}
    (h : service.iterate state (try_.attempt http) = .returned result) :
    result = try_.result http := by
  have hresult : sendRaw (try_.attempt http).write
      (try_.attempt http).response = try_.result http := rfl
  unfold RetryService.iterate at h
  rw [hresult] at h
  cases hraw : try_.result http with
  | ok response =>
      rw [hraw] at h
      cases h
      rfl
  | error error =>
      rw [hraw] at h
      by_cases hretries : Retries state.idempotent error
      · rw [sendAttempt_of_retries hretries] at h
        dsimp only at h
        split at h
        · cases h
        · rename_i error' hprepare
          cases h
          rw [prepareForRetry_error hprepare]
        · cases h
      · rw [sendAttempt_of_not_retries hretries] at h
        cases h
        rfl

theorem Consistent.step (h : Consistent service http tries call)
    (hstep : Step service http call try_ call') :
    Consistent service http (tries ++ [try_]) call' := by
  obtain ⟨state, hloop, rfl⟩ := hstep
  have hattempt := h.attempt state hloop
  refine ⟨?_, ?_, ?_, ?_, ?_, ?_⟩
  · intro state' hnext
    obtain ⟨error, -, -, hprepare⟩ :=
      service.iterate_eq_attempting_iff.mp hnext
    obtain ⟨-, -, -, rfl⟩ := service.prepareForRetry_eq_ok_iff.mp hprepare
    simp [hattempt]
  · simp [Call.iterate, h.failures, hattempt, List.range_succ]
  · simp [Call.iterate, h.spans]
  · intro node
    rw [List.filterMap_append, ← h.hosts node]
    cases hupdate : try_.answer.hostUpdate node <;>
      simp [Call.iterate, hupdate]
  · intro result hreturned
    have hreturned' : service.iterate state (try_.attempt http) =
        .returned result := hreturned
    refine ⟨⟨try_, by simp, iterate_returned hreturned'⟩, ?_, ?_⟩
    · simp [Call.iterate, hreturned']
    · simp [Call.iterate, hreturned']
  · intro hunfinished
    cases hnext : service.iterate state (try_.attempt http) with
    | returned result => exact absurd hnext (hunfinished result)
    | attempting | panicked => simp [Call.iterate, hnext]

theorem run_consistent
    (run : Run (Step service http) (new service method) tries call) :
    Consistent service http tries call :=
  run.invariant (Consistent service http) (new_consistent service http method)
    fun h hstep => h.step hstep

end Call

def updateOf (tags : SpanTags) : HostUpdate :=
  match tags.statusCode with
  | some status => .timer (hostTimer status)
  | none => .ioError

/-- What the span of an attempt says about it.  Where the request failed by
the writer of its body, the span shows the error of the writer. -/
structure Reports (try_ : Try) (tags : SpanTags) : Prop where
  outcome : tags.outcome = .success ↔
    ∃ status, try_.answer.status = some status ∧ status.isSuccess = true
  status : ¬ try_.WriterFailed → tags.statusCode = try_.answer.status
  hosts : ¬ try_.WriterFailed → ∀ node update,
    try_.answer.hostUpdate node = some update → update = updateOf tags

theorem Try.WriterFailed.span (h : try_.WriterFailed) :
    (httpSpan (try_.result http)).outcome = .failure ∧
      try_.answer.status = none := by
  obtain ⟨error, node, cause, hwrite, hanswer, hbody⟩ := h
  have hresult : try_.result http = .error error := by
    have hhttp : http.call try_.answer.toExcept =
        .error (Error.internalSafe (.rawClientError cause)) := by
      rw [hanswer]
      rfl
    have hcause : hasRequestBodyError
        (Error.internalSafe (.rawClientError cause)).cause = true := hbody
    rw [Try.result, hwrite, hhttp, sendRaw, deconflictErrors, if_pos hcause]
  exact ⟨by rw [hresult]; rfl, by rw [hanswer]; rfl⟩

theorem attempt_reports (http : HttpErrorService) (try_ : Try) :
    Reports try_ (httpSpan (try_.result http)) := by
  refine ⟨?_, fun h => ?_, fun h node update hupdate => ?_⟩
  · by_cases hfailed : try_.WriterFailed
    · obtain ⟨houtcome, hstatus⟩ := @Try.WriterFailed.span http try_ hfailed
      simp [houtcome, hstatus]
    · rw [attempt_span hfailed]
      cases try_.answer.status <;> simp
  · rw [attempt_span h]
  · rw [attempt_span h]
    cases hanswer : try_.answer with
    | noUris => simp [hanswer, Answer.hostUpdate] at hupdate
    | sent at_ result =>
        simp only [hanswer, Answer.hostUpdate] at hupdate
        split at hupdate
        · cases hupdate
          cases result <;> rfl
        · cases hupdate

theorem outcome_eq (try_ : Try) :
    (httpSpan (try_.result http)).outcome =
      clientResponse (try_.result http) := by
  cases hresult : try_.result http with
  | error error => rfl
  | ok response =>
      have hcall : http.call try_.answer.toExcept = .ok response := by
        unfold Try.result at hresult
        cases hhttp : http.call try_.answer.toExcept with
        | ok =>
            rw [hhttp] at hresult
            cases hwrite : try_.write <;> rw [hwrite] at hresult <;>
              exact hresult
        | error =>
            rw [hhttp] at hresult
            cases hwrite : try_.write <;> rw [hwrite] at hresult <;>
              cases hresult
      have hsuccess : response.status.isSuccess = true := by
        cases hanswer : try_.answer.toExcept with
        | error error =>
            rw [hanswer] at hcall
            cases hcall
        | ok answered =>
            rw [hanswer] at hcall
            rcases httpError_cases http answered with
              ⟨hsuccess, hanswered⟩ | ⟨-, error, hanswered, -, -⟩
            · rw [hanswered] at hcall
              cases hcall
              exact hsuccess
            · rw [hanswered] at hcall
              cases hcall
      simp [httpSpan, clientResponse, hsuccess]

namespace Call

variable {call : Call} {tries : List Try} {method : Method}

/-- In every run of a call, for every choice of what is propagated to the
caller: the span of each attempt counts the failures before it and reports
the attempt, in agreement with the one update of the metrics of its node; and
when the call returns, its root span repeats the span of the last attempt, and
the call, the root span and the timer are a success together. -/
theorem telemetry_is_consistent
    (run : Run (Step service http) (new service method) tries call) :
    call.attempts.length = tries.length ∧
    (∀ (index : Nat) (try_ : Try) (span : Nat × SpanTags),
      tries[index]? = some try_ → call.attempts[index]? = some span →
        span.1 = index ∧ Reports try_ span.2) ∧
    (∀ node, call.hosts node =
      tries.filterMap fun try_ => try_.answer.hostUpdate node) ∧
    ∀ result, call.loop = .returned result →
      ∃ tags, call.attempts.getLast?.map Prod.snd = some tags ∧
        call.root = some tags ∧ call.response = some tags.outcome ∧
        (tags.outcome = .success ↔ ∃ response, result = .ok response) := by
  have h := run_consistent run
  have hlength : call.attempts.length = tries.length := by
    simpa using congrArg List.length h.failures
  refine ⟨hlength, ?_, h.hosts, ?_⟩
  · intro index try_ span htry hspan
    have hfailures : (call.attempts.map Prod.fst)[index]? = some span.1 := by
      simp [hspan]
    have htags : (call.attempts.map Prod.snd)[index]? = some span.2 := by
      simp [hspan]
    rw [h.failures, List.getElem?_range (by
      rw [← hlength]
      exact (List.getElem?_eq_some_iff.mp hspan).1)] at hfailures
    rw [h.spans, List.getElem?_map, htry, Option.map_some] at htags
    refine ⟨(Option.some.inj hfailures).symm, ?_⟩
    rw [← Option.some.inj htags]
    exact attempt_reports http try_
  · intro result hreturned
    obtain ⟨⟨try_, hlast, rfl⟩, hroot, hresponse⟩ :=
      h.returned result hreturned
    refine ⟨httpSpan (try_.result http), ?_, hroot, ?_, ?_⟩
    · rw [← List.getLast?_map, h.spans, List.getLast?_map, hlast,
        Option.map_some]
    · rw [hresponse]
      exact congrArg some (outcome_eq try_).symm
    · rw [outcome_eq]
      cases try_.result http <;> simp [clientResponse]

def secondTry : List Try :=
  [⟨.ok (), .sent 0 (.ok ⟨.serviceUnavailable, [], []⟩), none, false, id⟩,
    ⟨.ok (), .sent 1 (.ok ⟨.ok, [], []⟩), none, false, id⟩]

theorem secondTry_is_reported :
    ∃ call,
      Run (Step .default ⟨.automaticRetry, .wrapInNewError, fun _ _ => none⟩)
        (new .default .post) secondTry call ∧
      call.hosts 0 = [.timer .responseQos] ∧
      call.hosts 1 = [.timer .response2xx] ∧
      call.root = some ⟨.success, some .ok⟩ ∧
      call.attempts.length = 2 := by
  have h : ∃ call,
      Run (Step .default ⟨.automaticRetry, .wrapInNewError, fun _ _ => none⟩)
        (new .default .post) secondTry call ∧
      call.root = some ⟨.success, some .ok⟩ :=
    ⟨_, .step (.step .refl ⟨_, rfl, rfl⟩) ⟨_, rfl, rfl⟩, rfl⟩
  obtain ⟨call, run, hroot⟩ := h
  obtain ⟨hlength, -, hhosts, -⟩ := telemetry_is_consistent run
  refine ⟨call, run, ?_, ?_, hroot, hlength⟩
  · rw [hhosts]
    rfl
  · rw [hhosts]
    rfl

end Call

end ConjureRuntime.Service.Telemetry
