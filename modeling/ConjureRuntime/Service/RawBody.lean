import ConjureRuntime.Foundation.Channel
import ConjureRuntime.Service.Error

/-!
# Streamed request bodies

The body of a streaming request is written by one task and read by another.
`BodyWriter` collects bytes in a buffer and sends them as frames through a
channel; `RawRequestBody`, on the side of the HTTP client, turns what it
receives into the frames of a body.  Neither side runs alone, so the writer is
cut where it touches the channel, and the two interleave at those points.
-/

namespace ConjureRuntime.Service

open ConjureRuntime.Foundation

abbrev Bytes := List UInt8

structure RequestBodyError where
  deriving DecidableEq, Repr

inductive RequestBodyPart where
  | frame (data : Bytes)
  | done
  deriving DecidableEq, Repr

/-- `RawRequestBodyInner`; `polled` tells whether the sender of that name is
still there. -/
inductive RawRequestBody where
  | empty
  | single (frame : Bytes)
  | stream (polled : Bool)
  deriving DecidableEq, Repr

/-- The end of `poll_frame`: the answer to `poll_next` on the receiver of a
stream, turned into a frame.  Whatever is not put back has become empty. -/
def RawRequestBody.pollFrame (body : RawRequestBody)
    (next : Poll (Option RequestBodyPart)) :
    Poll (Option (Except RequestBodyError Bytes)) × RawRequestBody :=
  match body with
  | .empty => (.ready none, .empty)
  | .single frame => (.ready (some (.ok frame)), .empty)
  | .stream _ =>
      match next with
      | .ready (some (.frame frame)) =>
          (.ready (some (.ok frame)), .stream false)
      | .ready (some .done) => (.ready none, .empty)
      | .ready none => (.ready (some (.error ⟨⟩)), .empty)
      | .pending => (.pending, .stream false)

/-- `io::Error::other`. -/
structure IoError where
  error : SendError
  deriving DecidableEq, Repr

def IoError.toError (_ : IoError) : Error :=
  .internalSafe (.foreign "std::io::Error")

inductive Oneshot where
  | pending
  | sent
  | canceled
  deriving DecidableEq, Repr

inductive Send where
  | writeBytes (data : Bytes)
  | finish
  deriving DecidableEq, Repr

def Send.part : Send → RequestBodyPart
  | .writeBytes data => .frame data
  | .finish => .done

/-- The callers of `poll_flush`. -/
inductive Flush where
  | pollWrite (data : Bytes)
  | pollFlush
  | send (send : Send)
  deriving DecidableEq, Repr

/-- Where the task that runs `Writer::write` is: at `polled`, in `write_body`,
in `poll_flush` before and after its `poll_ready`, in `SinkExt::send` before
and after its `poll_ready` and in the flush that ends it, or gone. -/
inductive Writer where
  | waiting
  | writing
  | flushing (caller : Flush)
  | flushReady (caller : Flush)
  | sending (send : Send)
  | sendReady (send : Send)
  | sendFlushing (send : Send)
  | returned (result : Except Error Unit)
  | dropped
  deriving DecidableEq

/-- A streamed body with both its ends; `body` is gone once the HTTP client
has dropped it. -/
structure Transfer where
  polled : Oneshot
  channel : Channel RequestBodyPart
  buf : Bytes
  writer : Writer
  body : Option RawRequestBody
  deriving DecidableEq

/-- `RawRequestBody::new` for a streaming body. -/
def Transfer.new : Transfer where
  polled := .pending
  channel := .new _ 1
  buf := []
  writer := .waiting
  body := some (.stream true)

namespace Transfer

inductive Op where
  | firstPoll
  | pollFrame
  | hangUp
  | awaitPolled
  | pollWrite (data : Bytes)
  | pollFlush
  | writeBytes (data : Bytes)
  | writeBodyReturns (result : Except Error Unit)
  | proceed
  | dropWriter
  deriving DecidableEq

inductive Event where
  | polled
  | pendingFrame
  | received (frame : Bytes)
  | ended (result : Except RequestBodyError Unit)
  | hungUp
  | writeBody
  | pollWrite (data : Bytes) (result : Poll (Except IoError Nat))
  | pollFlush (result : Poll (Except IoError Unit))
  | writeBytes (data : Bytes)
  | writeBytesReturned (result : Except IoError Unit)
  | writeBodyReturned (result : Except Error Unit)
  | doneSent
  | returned (result : Except Error Unit)
  | dropped
  | proceeded
  deriving DecidableEq

def close (transfer : Transfer) (writer : Writer) : Transfer :=
  { transfer with channel := transfer.channel.dropSender, writer := writer }

/-! ## The writer -/

def pollWrite (transfer : Transfer) (data : Bytes) : Event × Transfer :=
  if 4096 < transfer.buf.length then
    (.proceeded, { transfer with writer := .flushing (.pollWrite data) })
  else
    (.pollWrite data (.ready (.ok data.length)),
      { transfer with buf := transfer.buf ++ data, writer := .writing })

/-- The caller goes on after a `poll_flush` that is through. -/
def flushed (transfer : Transfer) : Flush → Event × Transfer
  | .pollWrite data =>
      (.pollWrite data (.ready (.ok data.length)),
        { transfer with buf := transfer.buf ++ data, writer := .writing })
  | .pollFlush =>
      (.pollFlush (.ready (.ok ())), { transfer with writer := .writing })
  | .send send => (.proceeded, { transfer with writer := .sending send })

/-- A future polls again, a caller of `poll_write` or `poll_flush` gets
`Pending`. -/
def flushPending (transfer : Transfer) : Flush → Event × Transfer
  | .pollWrite data =>
      (.pollWrite data .pending, { transfer with writer := .writing })
  | .pollFlush => (.pollFlush .pending, { transfer with writer := .writing })
  | .send send =>
      (.proceeded, { transfer with writer := .flushing (.send send) })

def sendFailed (transfer : Transfer) (error : IoError) :
    Send → Event × Transfer
  | .writeBytes _ =>
      (.writeBytesReturned (.error error), { transfer with writer := .writing })
  | .finish =>
      (.returned (.error error.toError),
        transfer.close (.returned (.error error.toError)))

def flushFailed (transfer : Transfer) (error : IoError) :
    Flush → Event × Transfer
  | .pollWrite data =>
      (.pollWrite data (.ready (.error error)),
        { transfer with writer := .writing })
  | .pollFlush =>
      (.pollFlush (.ready (.error error)), { transfer with writer := .writing })
  | .send send => transfer.sendFailed error send

def sent (transfer : Transfer) : Send → Event × Transfer
  | .writeBytes data =>
      (.proceeded, { transfer with writer := .sendFlushing (.writeBytes data) })
  | .finish => (.doneSent, { transfer with writer := .sendFlushing .finish })

/-- The send is over; a disconnected receiver counts as flushed. -/
def sendFlushed (transfer : Transfer) : Send → Event × Transfer
  | .writeBytes _ =>
      (.writeBytesReturned (.ok ()), { transfer with writer := .writing })
  | .finish => (.returned (.ok ()), transfer.close (.returned (.ok ())))

def proceed (transfer : Transfer) : Option (Event × Transfer) :=
  match transfer.writer with
  | .flushing caller =>
      if transfer.buf.isEmpty then some (transfer.flushed caller)
      else
        match transfer.channel.pollReady with
        | .pending => some (transfer.flushPending caller)
        | .ready (.error error) => some (transfer.flushFailed ⟨error⟩ caller)
        | .ready (.ok ()) =>
            some (.proceeded, { transfer with writer := .flushReady caller })
  | .flushReady caller =>
      match transfer.channel.startSend (.frame transfer.buf) with
      | (.ok (), channel) =>
          some ({ transfer with buf := [], channel := channel }.flushed caller)
      | (.error error, channel) =>
          some ({ transfer with buf := [], channel := channel }.flushFailed
            ⟨error⟩ caller)
  | .sending send =>
      match transfer.channel.pollReady with
      | .pending => some (.proceeded, transfer)
      | .ready (.error error) => some (transfer.sendFailed ⟨error⟩ send)
      | .ready (.ok ()) =>
          some (.proceeded, { transfer with writer := .sendReady send })
  | .sendReady send =>
      match transfer.channel.startSend send.part with
      | (.ok (), channel) =>
          some ({ transfer with channel := channel }.sent send)
      | (.error error, channel) =>
          some ({ transfer with channel := channel }.sendFailed ⟨error⟩ send)
  | .sendFlushing send =>
      match transfer.channel.pollReady with
      | .pending => some (.proceeded, transfer)
      | .ready _ => some (transfer.sendFlushed send)
  | _ => none

/-- `polled.await` and what `Writer::write` does with it. -/
def awaitPolled (transfer : Transfer) : Option (Event × Transfer) :=
  match transfer.polled with
  | .pending => none
  | .sent => some (.writeBody, { transfer with writer := .writing })
  | .canceled =>
      some (.returned (.ok ()), transfer.close (.returned (.ok ())))

def writeBodyReturns (transfer : Transfer) (result : Except Error Unit) :
    Event × Transfer :=
  match result with
  | .ok () =>
      (.writeBodyReturned (.ok ()),
        { transfer with writer := .flushing (.send .finish) })
  | .error error =>
      (.writeBodyReturned (.error error),
        transfer.close (.returned (.error error)))

/-! ## The HTTP client -/

/-- The start of the first `poll_frame`. -/
def firstPoll (transfer : Transfer) : Option (Event × Transfer) :=
  match transfer.body with
  | some (.stream true) =>
      some (.polled,
        { transfer with polled := .sent, body := some (.stream false) })
  | _ => none

def frameEvent :
    Poll (Option (Except RequestBodyError Bytes)) → Event
  | .pending => .pendingFrame
  | .ready none => .ended (.ok ())
  | .ready (some (.ok frame)) => .received frame
  | .ready (some (.error error)) => .ended (.error error)

/-- The rest of `poll_frame`; the receiver goes with a stream that is not put
back. -/
def pollFrame (transfer : Transfer) : Option (Event × Transfer) :=
  match transfer.body with
  | none | some (.stream true) => none
  | some (.stream false) =>
      let (next, channel) := transfer.channel.pollNext
      let (frame, body) := (RawRequestBody.stream false).pollFrame next
      some (frameEvent frame,
        { transfer with
          channel := if body = .empty then channel.dropReceiver else channel
          body := some body })
  | some body =>
      let (frame, body) := body.pollFrame .pending
      some (frameEvent frame, { transfer with body := some body })

/-- The HTTP client drops the body, at the latest with the connection. -/
def hangUp (transfer : Transfer) : Option (Event × Transfer) :=
  match transfer.body with
  | some (.stream polled) =>
      some (.hungUp,
        { transfer with
          polled := if polled then .canceled else transfer.polled
          channel := transfer.channel.dropReceiver
          body := none })
  | some _ => some (.hungUp, { transfer with body := none })
  | none => none

/-! ## Steps -/

def next (transfer : Transfer) : Op → Option (Event × Transfer)
  | .firstPoll => transfer.firstPoll
  | .pollFrame => transfer.pollFrame
  | .hangUp => transfer.hangUp
  | .awaitPolled =>
      if transfer.writer = .waiting then transfer.awaitPolled else none
  | .pollWrite data =>
      if transfer.writer = .writing then some (transfer.pollWrite data)
      else none
  | .pollFlush =>
      if transfer.writer = .writing then
        some (.proceeded, { transfer with writer := .flushing .pollFlush })
      else none
  | .writeBytes data =>
      if transfer.writer = .writing then
        some (.writeBytes data,
          { transfer with writer := .flushing (.send (.writeBytes data)) })
      else none
  | .writeBodyReturns result =>
      if transfer.writer = .writing then some (transfer.writeBodyReturns result)
      else none
  | .proceed => transfer.proceed
  | .dropWriter =>
      match transfer.writer with
      | .returned _ | .dropped => none
      | _ => some (.dropped, transfer.close .dropped)

def Step (transfer : Transfer) (event : Event) (transfer' : Transfer) : Prop :=
  ∃ op, transfer.next op = some (event, transfer')

/-! ## What an access to the channel comes to -/

/-- The call goes on to its next access, or it is through with its flush or
its send, or one of them has failed.  The access itself may have changed the
channel, and taken the buffer. -/
inductive Outcome (transfer : Transfer) : Event × Transfer → Prop where
  | goesOn (writer : Writer) (h : writer ≠ .waiting) :
      Outcome transfer (.proceeded, { transfer with writer := writer })
  | flushed (before : Transfer) (caller : Flush)
      (polled : before.polled = transfer.polled) (buf : before.buf = []) :
      Outcome transfer (before.flushed caller)
  | flushPending (caller : Flush) :
      Outcome transfer (transfer.flushPending caller)
  | flushFailed (before : Transfer) (error : IoError) (caller : Flush)
      (polled : before.polled = transfer.polled) :
      Outcome transfer (before.flushFailed error caller)
  | sent (before : Transfer) (send : Send)
      (polled : before.polled = transfer.polled) :
      Outcome transfer (before.sent send)
  | sendFailed (before : Transfer) (error : IoError) (send : Send)
      (polled : before.polled = transfer.polled) :
      Outcome transfer (before.sendFailed error send)
  | sendFlushed (send : Send) : Outcome transfer (transfer.sendFlushed send)

theorem proceed_outcome {transfer : Transfer} {result : Event × Transfer}
    (h : transfer.proceed = some result) : transfer.Outcome result := by
  cases hwriter : transfer.writer with
  | waiting | writing | returned | dropped => simp [proceed, hwriter] at h
  | flushing caller =>
      simp only [proceed, hwriter] at h
      split at h
      · rename_i hempty
        rw [← Option.some.inj h]
        exact .flushed transfer caller rfl (List.isEmpty_iff.mp hempty)
      · split at h <;> rw [← Option.some.inj h]
        · exact .flushPending caller
        · exact .flushFailed transfer _ caller rfl
        · exact .goesOn _ (by simp)
  | flushReady caller =>
      simp only [proceed, hwriter] at h
      split at h <;> rw [← Option.some.inj h]
      · exact .flushed _ caller (by rfl) (by rfl)
      · exact .flushFailed _ _ caller (by rfl)
  | sending send =>
      simp only [proceed, hwriter] at h
      split at h <;> rw [← Option.some.inj h]
      · exact .goesOn transfer.writer (by simp [hwriter])
      · exact .sendFailed transfer _ send rfl
      · exact .goesOn _ (by simp)
  | sendReady send =>
      simp only [proceed, hwriter] at h
      split at h <;> rw [← Option.some.inj h]
      · exact .sent _ send (by rfl)
      · exact .sendFailed _ _ send (by rfl)
  | sendFlushing send =>
      simp only [proceed, hwriter] at h
      split at h <;> rw [← Option.some.inj h]
      · exact .goesOn transfer.writer (by simp [hwriter])
      · exact .sendFlushed send

end Transfer

end ConjureRuntime.Service
