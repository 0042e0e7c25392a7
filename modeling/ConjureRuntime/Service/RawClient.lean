import ConjureRuntime.Service.BodyDelivery
import ConjureRuntime.Service.Retry

/-!
# Which error a failed request reports

When the writer of a streamed body fails, the HTTP client gets an error from
the body and fails too, and the error of the writer is the one to report.
Both raw clients have to keep the error of the body among the sources of
their own.
-/

namespace ConjureRuntime.Service

open ConjureRuntime.Foundation Retry

/-! ## The client for browsers -/

structure JsError where
  message : String
  deriving DecidableEq, Repr

namespace JsError

/-- `From<RequestBodyError>`, with the text that a `RequestBodyError` has. -/
def ofRequestBodyError (_ : RequestBodyError) : JsError :=
  ⟨"error writing body"⟩

def bodyTooLarge : JsError := ⟨"JsValue(\"body too large\")"⟩

/-- A `JsError` has no source. -/
def toCause (error : JsError) : Cause :=
  .foreign ("JsError: " ++ error.message)

end JsError

namespace JsClient

def maxBodySize : Nat := 50 * 1024 * 1024

def checkLimit (buf : Bytes) (limit : Nat) : Except JsError Unit :=
  if limit < buf.length then .error .bodyTooLarge else .ok ()

/-- The loop of `read_body`, over what `try_next` returns. -/
def readRest (limit : Nat) (buf : Bytes) :
    List (Except RequestBodyError Bytes) → Except JsError (Option Bytes)
  | [] => .ok (some buf)
  | .error error :: _ => .error (.ofRequestBodyError error)
  | .ok bytes :: rest => do
      checkLimit (buf ++ bytes) limit
      readRest limit (buf ++ bytes) rest

def readBody (limit : Nat) :
    List (Except RequestBodyError Bytes) → Except JsError (Option Bytes)
  | [] => .ok none
  | .error error :: _ => .error (.ofRequestBodyError error)
  | .ok first :: rest => do
      checkLimit first limit
      match rest with
      | [] => .ok (some first)
      | .error error :: _ => .error (.ofRequestBodyError error)
      | .ok second :: rest =>
          checkLimit (first ++ second) limit
          readRest limit (first ++ second) rest

/-- `RawClient::call`: what is done before the body is read, and what `fetch`
makes of the body, are the browser's. -/
def call {ρ : Type} (prepare : Except Cause Unit)
    (fetch : Option Bytes → Except Cause ρ)
    (items : List (Except RequestBodyError Bytes)) : Except Cause ρ := do
  prepare
  match readBody maxBodySize items with
  | .error error => .error error.toCause
  | .ok data => fetch data

end JsClient

/-! ## Requests that fail by their body -/

inductive RawClient where
  | hyper
  | js
  deriving DecidableEq, Repr

def Transfer.Event.item :
    Transfer.Event → Option (Except RequestBodyError Bytes)
  | .received frame => some (.ok frame)
  | .ended (.error error) => some (.error error)
  | _ => none

def Transfer.items (events : List Transfer.Event) :
    List (Except RequestBodyError Bytes) :=
  events.filterMap Transfer.Event.item

/-- The error of hyper for a request has the error that it has read from the
body among its sources. -/
def KeepsSource
    (hyperError : List (Except RequestBodyError Bytes) → Cause) : Prop :=
  ∀ {items : List (Except RequestBodyError Bytes)} {error},
    .error error ∈ items → hasRequestBodyError (hyperError items) = true

/-- The call of a raw client fails because of an error that it has read from
the body. -/
inductive FailsByBody {ρ : Type}
    (hyperError : List (Except RequestBodyError Bytes) → Cause) :
    RawClient → List (Except RequestBodyError Bytes) → Except Cause ρ →
      Prop where
  | hyper {items error} : .error error ∈ items →
      FailsByBody hyperError .hyper items (.error (hyperError items))
  | js {items error fetch} :
      JsClient.readBody JsClient.maxBodySize items =
        .error (.ofRequestBodyError error) →
      FailsByBody hyperError .js items
        (JsClient.call (.ok ()) fetch items)

def jsBodyError : Error :=
  .internalSafe (.rawClientError (JsError.ofRequestBodyError ⟨⟩).toCause)

namespace Transfer

variable {events : List Event} {event : Event} {transfer transfer' : Transfer}

/-! ## The result of the writer -/

theorem proceed_event {result : Except Error Unit}
    (h : transfer.proceed = some (event, transfer')) :
    event ≠ .writeBodyReturned result := by
  have hsendFailed (before : Transfer) (error : IoError) (send : Send) :
      (before.sendFailed error send).1 ≠ .writeBodyReturned result := by
    cases send <;> simp [sendFailed]
  have hevent : event = (event, transfer').1 := rfl
  rw [hevent]
  generalize (event, transfer') = outcome at h
  cases proceed_outcome h with
  | goesOn => simp
  | flushed before caller => cases caller <;> simp [flushed]
  | flushPending caller => cases caller <;> simp [flushPending]
  | flushFailed before error caller =>
      cases caller with
      | send send => exact hsendFailed before error send
      | pollWrite | pollFlush => simp [flushFailed]
  | sent before send => cases send <;> simp [sent]
  | sendFailed before error send => exact hsendFailed before error send
  | sendFlushed send => cases send <;> simp [sendFlushed]

theorem writer_of_writeBodyReturned {error : Error}
    (h : Step transfer (.writeBodyReturned (.error error)) transfer') :
    transfer'.writer = .returned (.error error) := by
  obtain ⟨op, h⟩ := h
  cases op with
  | proceed => exact absurd rfl (proceed_event h)
  | writeBodyReturns result =>
      rw [next, Option.ite_none_right_eq_some] at h
      obtain ⟨-, h⟩ := h
      cases result <;> cases h
      rfl
  | awaitPolled =>
      simp only [next, awaitPolled] at h
      split at h
      · split at h <;> cases h
      · cases h
  | pollWrite data =>
      rw [next, Option.ite_none_right_eq_some] at h
      obtain ⟨-, h⟩ := h
      rw [pollWrite] at h
      split at h <;> cases h
  | pollFlush | writeBytes =>
      rw [next, Option.ite_none_right_eq_some] at h
      obtain ⟨-, h⟩ := h
      cases h
  | dropWriter =>
      simp only [next] at h
      split at h <;> cases h
  | firstPoll | pollFrame | hangUp =>
      exact absurd trivial (client_event id h).failure

theorem writer_stays {result : Except Error Unit}
    (hreturned : transfer.writer = .returned result)
    (h : Step transfer event transfer') :
    transfer'.writer = .returned result := by
  obtain ⟨op, h⟩ := h
  cases op with
  | awaitPolled | pollWrite | pollFlush | writeBytes | writeBodyReturns
  | proceed | dropWriter => simp [next, proceed, hreturned] at h
  | firstPoll =>
      simp only [next, firstPoll] at h
      split at h <;> cases h
      exact hreturned
  | pollFrame =>
      simp only [next, pollFrame] at h
      split at h <;> cases h <;> exact hreturned
  | hangUp =>
      simp only [next, hangUp] at h
      split at h <;> cases h <;> exact hreturned

theorem writer_returned {error : Error} (run : Run Step new events transfer)
    (h : .writeBodyReturned (.error error) ∈ events) :
    transfer.writer = .returned (.error error) := by
  refine run.invariant (fun events transfer =>
    .writeBodyReturned (.error error) ∈ events →
      transfer.writer = .returned (.error error))
    (fun h => by cases h) ?_ h
  intro events transfer event transfer' ih hstep hmem
  rcases List.mem_append.mp hmem with hmem | hmem
  · exact writer_stays (ih hmem) hstep
  · rw [← List.mem_singleton.mp hmem] at hstep
    exact writer_of_writeBodyReturned hstep

end Transfer

/-! ## What `send_raw` returns -/

variable {ρ : Type}

theorem deconflict_hyper
    {hyperError : List (Except RequestBodyError Bytes) → Cause}
    (hsource : KeepsSource hyperError)
    {items : List (Except RequestBodyError Bytes)} {error}
    (hread : .error error ∈ items) (bodyError : Error) :
    deconflictErrors bodyError
      (.internalSafe (.rawClientError (hyperError items))) = bodyError :=
  if_pos (hsource hread)

theorem deconflict_js (bodyError : Error) :
    deconflictErrors bodyError jsBodyError = jsBodyError :=
  if_neg Bool.false_ne_true

/-- When a request fails because its body did, the error of the writer is
returned exactly by the client that keeps the link, unless both errors are the
same anyway. -/
theorem writers_error_returned_iff
    {hyperError : List (Except RequestBodyError Bytes) → Cause}
    (hsource : KeepsSource hyperError) {client : RawClient}
    {events : List Transfer.Event} {transfer : Transfer}
    (run : Run Transfer.Step .new events transfer) {error : Error}
    (hfails : .writeBodyReturned (.error error) ∈ events)
    {written : Except Error Unit}
    (hwritten : transfer.writer = .returned written)
    {response : Except Cause ρ}
    (hresponse : FailsByBody hyperError client (Transfer.items events)
      response) :
    sendRaw written (mapError response) = .error error ↔
      client = .hyper ∨ error = jsBodyError := by
  cases hwritten.symm.trans (Transfer.writer_returned run hfails)
  cases hresponse with
  | hyper hread =>
      refine iff_of_true ?_ (.inl rfl)
      exact congrArg Except.error (deconflict_hyper hsource hread error)
  | @js items bodyError fetch hread =>
      have hcall : JsClient.call (.ok ()) fetch (Transfer.items events) =
          .error (JsError.ofRequestBodyError ⟨⟩).toCause := by
        simp [JsClient.call, hread, bind, Except.bind]
      rw [hcall]
      have hraw : sendRaw (.error error)
          (mapError (.error (JsError.ofRequestBodyError ⟨⟩).toCause)) =
          (.error jsBodyError : Except Error ρ) :=
        congrArg Except.error (deconflict_js error)
      rw [hraw]
      constructor
      · intro heq
        cases heq
        exact .inr rfl
      · rintro (h | rfl)
        · cases h
        · rfl

/-! ## A writer that fails after two bytes -/

def writersError : Error := .internalSafe (.foreign "WriterError")

def failedBody : List Transfer.Event :=
  [.polled, .writeBody, .pollWrite [104, 105] (.ready (.ok 2)),
    .writeBodyReturned (.error writersError), .ended (.error ⟨⟩)]

theorem failedBody_run : ∃ transfer : Transfer,
    Run Transfer.Step .new failedBody transfer ∧
      transfer.writer = .returned (.error writersError) := by
  have hexec : ∃ transfer : Transfer, exec Transfer.next .new
      [.firstPoll, .awaitPolled, .pollWrite [104, 105],
        .writeBodyReturns (.error writersError), .pollFrame] =
        some (failedBody, transfer) ∧
      transfer.writer = .returned (.error writersError) := ⟨_, rfl, rfl⟩
  obtain ⟨transfer, hexec, hwriter⟩ := hexec
  have run : Run Transfer.Step _ _ _ := exec_run (fun h => ⟨_, h⟩) hexec
  exact ⟨transfer, run, hwriter⟩

def userBodyError (_ : List (Except RequestBodyError Bytes)) : Cause :=
  .foreignWithSource "hyper::Error" .requestBodyError

theorem hyper_returns_writers_error :
    sendRaw (.error writersError)
        (mapError (.error (userBodyError (Transfer.items failedBody)))) =
        (.error writersError : Except Error Unit) ↔
      RawClient.hyper = .hyper ∨ writersError = jsBodyError := by
  obtain ⟨transfer, run, hwriter⟩ := failedBody_run
  have hread : (.error ⟨⟩ : Except RequestBodyError Bytes) ∈
      Transfer.items failedBody := by simp [Transfer.items, failedBody,
        Transfer.Event.item]
  exact writers_error_returned_iff (fun _ => rfl) run
    (by simp [failedBody]) hwriter (.hyper hread)

/-- The client for browsers keeps only the text of the error of the body: its
own error is returned, and for an idempotent request it is retried, which the
error of the writer would not be. -/
theorem js_client_hides_writers_error :
    (∃ transfer : Transfer, Run Transfer.Step .new failedBody transfer ∧
      transfer.writer = .returned (.error writersError)) ∧
    ∃ response : Except Cause Unit,
      FailsByBody userBodyError .js (Transfer.items failedBody) response ∧
      sendRaw (.error writersError) (mapError response) =
        .error jsBodyError ∧
      jsBodyError ≠ writersError ∧ Retries true jsBodyError ∧
      ¬ Retries true writersError := by
  have hread : JsClient.readBody JsClient.maxBodySize
      (Transfer.items failedBody) = .error (.ofRequestBodyError ⟨⟩) := rfl
  have hresponse : FailsByBody userBodyError .js (Transfer.items failedBody)
      (JsClient.call (.ok ()) (fun _ => (.ok () : Except Cause Unit))
        (Transfer.items failedBody)) := .js hread
  refine ⟨failedBody_run, _, hresponse, rfl, by decide, ⟨rfl, rfl⟩, ?_⟩
  rintro ⟨-, hcause⟩
  exact hcause

end ConjureRuntime.Service
