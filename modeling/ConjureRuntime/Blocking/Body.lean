import ConjureRuntime.Foundation.Transition
import ConjureRuntime.Service.RawBody

/-!
# One write of a blocking body

The shim asks a thread that may block to write the body, and receives it in
parts through a channel made for this one write.  The thread has the blocking
`BodyWriter`, which sends the parts; the shim forwards them to the async one.
Each side may leave while the other goes on.
-/

namespace ConjureRuntime.Blocking

open ConjureRuntime.Foundation ConjureRuntime.Service

inductive BodyPart where
  | data (bytes : Bytes)
  | error (error : Error)
  | done
  deriving DecidableEq

/-- What a `BodyWriter` sends parts for: the calls of the body, and what the
thread does once the body has been written or has failed. -/
inductive Caller where
  | write (length : Nat)
  | flush
  | writeBytes
  | finish
  | error
  deriving DecidableEq

/-- The thread: before the call of `write_body`, in it with the bytes that are
in the buffer, before and after `SinkExt::send` has put the next part into the
channel, or without the sender. -/
inductive Writer where
  | waiting
  | writing (buf : Bytes)
  | sending (caller : Caller) (parts : List BodyPart)
  | flushing (caller : Caller) (parts : List BodyPart)
  | gone
  deriving DecidableEq

/-- The shim: until its request is sent, at the receiver, at the async
`write_bytes`, or done. -/
inductive Reader where
  | requesting
  | receiving
  | forwarding
  | returned (result : Except Error Unit)
  | abandoned
  deriving DecidableEq

/-- A call of the shim's `write_body`; with what the body has written in it,
what of it was forwarded, what the body has returned, and the error that the
shim has received. -/
structure WriteBody where
  parts : Channel BodyPart
  writer : Writer
  reader : Reader
  wrote : Bytes
  forwarded : Bytes
  returned : Option (Except Error Unit)
  reached : Option Error
  deriving DecidableEq

namespace WriteBody

def new : WriteBody where
  parts := .new _ 1
  writer := .waiting
  reader := .requesting
  wrote := []
  forwarded := []
  returned := none
  reached := none

inductive Op where
  | requested
  | requestFailed (error : SendError)
  | receive
  | forwardReturned (result : Except IoError Unit)
  | abandon
  | start
  | write (data : Bytes)
  | flush
  | writeBytes (data : Bytes)
  | bodyReturns (result : Except Error Unit)
  | feed
  | flushed
  | drop
  deriving DecidableEq

inductive Event where
  | forwarded (bytes : Bytes)
  | returned (result : Except Error Unit)
  | abandoned
  | started
  | writeReturned (result : Except IoError Nat)
  | flushReturned (result : Except IoError Unit)
  | writeBytesReturned (result : Except IoError Unit)
  | bodyReturned (result : Except Error Unit)
  | dropped
  | proceeded
  deriving DecidableEq

/-! ## The blocking `BodyWriter` -/

/-- What `flush` sends. -/
def flushParts (buf : Bytes) : List BodyPart :=
  if buf = [] then [] else [.data buf]

/-- The sender goes with the `BodyWriter`. -/
def close (call : WriteBody) : WriteBody :=
  { call with parts := call.parts.dropSender, writer := .gone }

def sent (call : WriteBody) (result : Except IoError Unit) :
    Caller → Event × WriteBody
  | .write length =>
      (.writeReturned (result.map fun _ => length),
        { call with writer := .writing [] })
  | .flush => (.flushReturned result, { call with writer := .writing [] })
  | .writeBytes =>
      (.writeBytesReturned result, { call with writer := .writing [] })
  | .finish | .error => (.dropped, call.close)

def send (call : WriteBody) (caller : Caller) :
    List BodyPart → Event × WriteBody
  | [] => call.sent (.ok ()) caller
  | parts => (.proceeded, { call with writer := .sending caller parts })

def write (call : WriteBody) (buf data : Bytes) : Event × WriteBody :=
  let call := { call with wrote := call.wrote ++ data }
  if 4906 < data.length then
    call.send (.write data.length) (flushParts (buf ++ data))
  else
    (.writeReturned (.ok data.length),
      { call with writer := .writing (buf ++ data) })

def writeBytes (call : WriteBody) (buf data : Bytes) : Event × WriteBody :=
  { call with wrote := call.wrote ++ data }.send .writeBytes
    (flushParts buf ++ [BodyPart.data data])

/-- The rest of `stream` for one request. -/
def bodyReturns (call : WriteBody) (buf : Bytes) (result : Except Error Unit) :
    Event × WriteBody :=
  let call := { call with returned := some result }
  match result with
  | .ok () =>
      (.bodyReturned (.ok ()),
        { call with writer := .sending .finish (flushParts buf ++ [.done]) })
  | .error e =>
      (.bodyReturned (.error e),
        { call with writer := .sending .error [.error e] })

/-- `SinkExt::send`, up to where the part is in the channel. -/
def feed (call : WriteBody) : Option (Event × WriteBody) :=
  match call.writer with
  | .sending caller (part :: parts) =>
      match call.parts.pollReady with
      | .pending => none
      | .ready (.error error) => some (call.sent (.error ⟨error⟩) caller)
      | .ready (.ok ()) =>
          match call.parts.startSend part with
          | (.ok (), channel) =>
              some (.proceeded,
                { call with
                  parts := channel
                  writer := .flushing caller parts })
          | (.error error, channel) =>
              some ({ call with parts := channel }.sent (.error ⟨error⟩)
                caller)
  | _ => none

def flushed (call : WriteBody) : Option (Event × WriteBody) :=
  match call.writer with
  | .flushing caller parts =>
      match call.parts.pollReady with
      | .pending => none
      | .ready _ => some (call.send caller parts)
  | _ => none

/-! ## The shim -/

def leave (call : WriteBody) (reader : Reader) : WriteBody :=
  { call with parts := call.parts.dropReceiver, reader := reader }

def returns (call : WriteBody) (result : Except Error Unit) :
    Event × WriteBody :=
  (.returned result, call.leave (.returned result))

def sendError (_ : SendError) : Error :=
  .internalSafe (.foreign "futures::mpsc::SendError")

def aborted : Error := .internalSafe (.foreign "body write aborted")

/-- One round of the loop of `write_body`. -/
def receive (call : WriteBody) : Option (Event × WriteBody) :=
  match call.parts.pollNext with
  | (.pending, _) => none
  | (.ready (some (.data bytes)), parts) =>
      some (.forwarded bytes,
        { call with
          parts := parts
          reader := .forwarding
          forwarded := call.forwarded ++ bytes })
  | (.ready (some (.error e)), parts) =>
      some ({ call with parts := parts, reached := some e }.returns (.error e))
  | (.ready (some .done), parts) =>
      some ({ call with parts := parts }.returns (.ok ()))
  | (.ready none, parts) =>
      some ({ call with parts := parts }.returns (.error aborted))

/-! ## Steps -/

def next (call : WriteBody) : Op → Option (Event × WriteBody)
  | .requested =>
      if call.reader = .requesting then
        some (.proceeded, { call with reader := .receiving })
      else none
  | .requestFailed error =>
      if call.reader = .requesting then
        some (call.returns (.error (sendError error)))
      else none
  | .receive => if call.reader = .receiving then call.receive else none
  | .forwardReturned result =>
      if call.reader = .forwarding then
        match result with
        | .ok () => some (.proceeded, { call with reader := .receiving })
        | .error error => some (call.returns (.error error.toError))
      else none
  | .abandon =>
      match call.reader with
      | .requesting | .receiving | .forwarding =>
          some (.abandoned, call.leave .abandoned)
      | .returned _ | .abandoned => none
  | .start =>
      if call.writer = .waiting then
        some (.started, { call with writer := .writing [] })
      else none
  | .write data =>
      match call.writer with
      | .writing buf => some (call.write buf data)
      | _ => none
  | .flush =>
      match call.writer with
      | .writing buf => some (call.send .flush (flushParts buf))
      | _ => none
  | .writeBytes data =>
      match call.writer with
      | .writing buf => some (call.writeBytes buf data)
      | _ => none
  | .bodyReturns result =>
      match call.writer with
      | .writing buf => some (call.bodyReturns buf result)
      | _ => none
  | .feed => call.feed
  | .flushed => call.flushed
  | .drop =>
      match call.writer with
      | .waiting | .writing _ => some (.dropped, call.close)
      | _ => none

def Step (call : WriteBody) (event : Event) (call' : WriteBody) : Prop :=
  ∃ op, call.next op = some (event, call')

end WriteBody

end ConjureRuntime.Blocking
