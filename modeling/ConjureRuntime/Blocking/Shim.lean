import ConjureRuntime.Blocking.Body

/-!
# The blocking body shim

The async side has a body that only passes its calls on: each becomes a
request to the thread that may block, which takes them one by one and calls
the blocking body.  A call of the async side may be abandoned at any point,
and the thread may be gone.
-/

namespace ConjureRuntime.Blocking

open ConjureRuntime.Foundation ConjureRuntime.Service

/-- Requests carry senders, named by the call whose receiver they have. -/
inductive ShimRequest where
  | write (call : Nat)
  | reset (call : Nat)
  deriving DecidableEq, Repr

inductive Answer where
  | pending
  | sent (reset : Bool)
  | canceled
  deriving DecidableEq, Repr

inductive Resetter where
  | waiting
  | resetting
  | answering (reset : Bool)
  | gone
  deriving DecidableEq, Repr

inductive Awaiter where
  | requesting
  | awaiting
  | returned (reset : Bool)
  | abandoned
  deriving DecidableEq, Repr

/-- A call of the shim's `reset`; with what the body has answered. -/
structure Reset where
  answer : Answer
  resetter : Resetter
  awaiter : Awaiter
  answered : Option Bool
  deriving DecidableEq, Repr

def Reset.new : Reset := ⟨.pending, .waiting, .requesting, none⟩

/-- `BodyWriterShim`: with no call, in `SinkExt::send` before and after the
request is in the channel, waiting for what is sent back, or dropped. -/
inductive Shim where
  | idle
  | sending (request : ShimRequest)
  | flushing (request : ShimRequest)
  | calling (request : ShimRequest)
  | dropped
  deriving DecidableEq, Repr

/-- `BodyStreamer::stream`: at the receiver, in one of the arms of its loop, or
gone. -/
inductive Streamer where
  | receiving
  | serving (request : ShimRequest)
  | gone
  deriving DecidableEq, Repr

/-- Both sides, with the requests that entered the channel and those the body
was called for. -/
structure System where
  requests : Channel ShimRequest
  writes : List WriteBody
  resets : List Reset
  shim : Shim
  streamer : Streamer
  entered : List ShimRequest
  started : List ShimRequest

namespace System

/-- `shim`. -/
def new : System where
  requests := .new _ 1
  writes := []
  resets := []
  shim := .idle
  streamer := .receiving
  entered := []
  started := []

inductive Op where
  | callWrite
  | callReset
  | sendRequest
  | flushRequest
  | shimWrite (op : WriteBody.Op)
  | awaitReset
  | abandon
  | dropShim
  | nextRequest
  | streamWrite (op : WriteBody.Op)
  | resetReturns (reset : Bool)
  | sendAnswer
  | panic
  deriving DecidableEq

inductive Event where
  | called (request : ShimRequest)
  | entered (request : ShimRequest)
  | requestFailed (request : ShimRequest)
  | started (request : ShimRequest)
  | write (call : Nat) (event : WriteBody.Event)
  | bodyReset (call : Nat) (reset : Bool)
  | resetReturned (call : Nat) (reset : Bool)
  | abandoned (request : ShimRequest)
  | shimDropped
  | streamerGone
  | proceeded
  deriving DecidableEq

/-! ## Parts of the state -/

def stepWrite (system : System) (call : Nat) (op : WriteBody.Op) :
    Option (WriteBody.Event × System) :=
  match system.writes[call]? with
  | none => none
  | some write =>
      match write.next op with
      | none => none
      | some (event, write) =>
          some (event,
            { system with writes := system.writes.set call write })

def setReset (system : System) (call : Nat) (reset : Reset) : System :=
  { system with resets := system.resets.set call reset }

def dropSender (system : System) : ShimRequest → System
  | .write call =>
      match system.stepWrite call .drop with
      | some (_, system) => system
      | none => system
  | .reset call =>
      match system.resets[call]? with
      | some reset =>
          system.setReset call
            { reset with answer := .canceled, resetter := .gone }
      | none => system

/-- The thread leaves the loop; requests that are in the channel go with the
receiver. -/
def leave (system : System) : System :=
  { system.requests.queue.foldl dropSender system with
    requests := system.requests.dropReceiver
    streamer := .gone }

/-! ## The shim -/

/-- The call gives up on its request, and with it on the sender if that is
still its own. -/
def giveUp (system : System) : ShimRequest → System
  | .write call =>
      match system.stepWrite call .abandon with
      | some (_, system) => { system with shim := .idle }
      | none => system
  | .reset call =>
      match system.resets[call]? with
      | some reset =>
          { system.setReset call { reset with awaiter := .abandoned } with
            shim := .idle }
      | none => system

def failRequest (system : System) (error : SendError) : ShimRequest → System
  | .write call =>
      match system.stepWrite call (.requestFailed error) with
      | some (_, system) => { system with shim := .idle }
      | none => system
  | .reset call =>
      match system.resets[call]? with
      | some reset =>
          { system.setReset call { reset with awaiter := .returned false } with
            shim := .idle }
      | none => system

def sendRequest (system : System) (request : ShimRequest) :
    Option (Event × System) :=
  match system.requests.pollReady with
  | .pending => none
  | .ready (.error error) =>
      some (.requestFailed request,
        (system.failRequest error request).dropSender request)
  | .ready (.ok ()) =>
      match system.requests.startSend request with
      | (.ok (), requests) =>
          some (.entered request,
            { system with
              requests := requests
              shim := .flushing request
              entered := system.entered ++ [request] })
      | (.error error, _) =>
          some (.requestFailed request,
            (system.failRequest error request).dropSender request)

def flushRequest (system : System) (request : ShimRequest) :
    Option (Event × System) :=
  match system.requests.pollReady with
  | .pending => none
  | .ready _ =>
      match request with
      | .write call =>
          match system.stepWrite call .requested with
          | some (_, system) =>
              some (.proceeded, { system with shim := .calling request })
          | none => none
      | .reset call =>
          match system.resets[call]? with
          | some reset =>
              if reset.awaiter = .requesting then
                some (.proceeded,
                  { system.setReset call { reset with awaiter := .awaiting }
                    with shim := .calling request })
              else none
          | none => none

/-- The shim's part of a write: the loop of `write_body`. -/
def shimWrite (system : System) (call : Nat) (op : WriteBody.Op) :
    Option (Event × System) :=
  match op with
  | .receive | .forwardReturned _ =>
      match system.stepWrite call op with
      | some (.returned result, system) =>
          some (.write call (.returned result), { system with shim := .idle })
      | some (event, system) => some (.write call event, system)
      | none => none
  | _ => none

def awaitReset (system : System) (call : Nat) : Option (Event × System) :=
  match system.resets[call]? with
  | none => none
  | some reset =>
      match reset.awaiter, reset.answer with
      | .awaiting, .sent answer =>
          some (.resetReturned call answer,
            { system.setReset call { reset with awaiter := .returned answer }
              with shim := .idle })
      | .awaiting, .canceled =>
          some (.resetReturned call false,
            { system.setReset call { reset with awaiter := .returned false }
              with shim := .idle })
      | _, _ => none

/-! ## The thread -/

/-- The head of the loop of `stream`, and the call of the body. -/
def nextRequest (system : System) : Option (Event × System) :=
  match system.requests.pollNext with
  | (.pending, _) => none
  | (.ready none, _) => some (.streamerGone, system.leave)
  | (.ready (some request), requests) =>
      let system :=
        { system with
          requests := requests
          streamer := .serving request
          started := system.started ++ [request] }
      match request with
      | .write call =>
          match system.stepWrite call .start with
          | some (_, system) => some (.started request, system)
          | none => none
      | .reset call =>
          match system.resets[call]? with
          | some reset =>
              if reset.resetter = .waiting then
                some (.started request,
                  system.setReset call { reset with resetter := .resetting })
              else none
          | none => none

/-- The thread's part of a write; when the sender is gone the next request is
taken. -/
def streamWrite (system : System) (call : Nat) (op : WriteBody.Op) :
    Option (Event × System) :=
  match op with
  | .write _ | .flush | .writeBytes _ | .bodyReturns _ | .feed | .flushed =>
      match system.stepWrite call op with
      | some (.dropped, system) =>
          some (.write call .dropped, { system with streamer := .receiving })
      | some (event, system) => some (.write call event, system)
      | none => none
  | _ => none

def resetReturns (system : System) (call : Nat) (answer : Bool) :
    Option (Event × System) :=
  match system.resets[call]? with
  | none => none
  | some reset =>
      if reset.resetter = .resetting then
        some (.bodyReset call answer,
          system.setReset call
            { reset with
              resetter := .answering answer
              answered := some answer })
      else none

def sendAnswer (system : System) (call : Nat) : Option (Event × System) :=
  match system.resets[call]? with
  | none => none
  | some reset =>
      match reset.resetter with
      | .answering answer =>
          some (.proceeded,
            { system.setReset call
                { reset with answer := .sent answer, resetter := .gone } with
              streamer := .receiving })
      | _ => none

def inBody (system : System) : ShimRequest → Bool
  | .write call =>
      match system.writes[call]? with
      | some ⟨_, .writing _, _, _, _, _, _⟩ => true
      | _ => false
  | .reset call =>
      match system.resets[call]? with
      | some ⟨_, .resetting, _, _⟩ => true
      | _ => false

/-! ## Steps -/

def next (system : System) : Op → Option (Event × System)
  | .callWrite =>
      match system.shim with
      | .idle =>
          some (.called (.write system.writes.length),
            { system with
              writes := system.writes ++ [.new]
              shim := .sending (.write system.writes.length) })
      | _ => none
  | .callReset =>
      match system.shim with
      | .idle =>
          some (.called (.reset system.resets.length),
            { system with
              resets := system.resets ++ [.new]
              shim := .sending (.reset system.resets.length) })
      | _ => none
  | .sendRequest =>
      match system.shim with
      | .sending request => system.sendRequest request
      | _ => none
  | .flushRequest =>
      match system.shim with
      | .flushing request => system.flushRequest request
      | _ => none
  | .shimWrite op =>
      match system.shim with
      | .calling (.write call) => system.shimWrite call op
      | _ => none
  | .awaitReset =>
      match system.shim with
      | .calling (.reset call) => system.awaitReset call
      | _ => none
  | .abandon =>
      match system.shim with
      | .sending request =>
          some (.abandoned request,
            (system.giveUp request).dropSender request)
      | .flushing request | .calling request =>
          some (.abandoned request, system.giveUp request)
      | .idle | .dropped => none
  | .dropShim =>
      match system.shim with
      | .idle =>
          some (.shimDropped,
            { system with
              requests := system.requests.dropSender
              shim := .dropped })
      | _ => none
  | .nextRequest =>
      match system.streamer with
      | .receiving => system.nextRequest
      | _ => none
  | .streamWrite op =>
      match system.streamer with
      | .serving (.write call) => system.streamWrite call op
      | _ => none
  | .resetReturns answer =>
      match system.streamer with
      | .serving (.reset call) => system.resetReturns call answer
      | _ => none
  | .sendAnswer =>
      match system.streamer with
      | .serving (.reset call) => system.sendAnswer call
      | _ => none
  | .panic =>
      match system.streamer with
      | .serving request =>
          if system.inBody request then
            some (.streamerGone, (system.dropSender request).leave)
          else none
      | _ => none

def Step (system : System) (event : Event) (system' : System) : Prop :=
  ∃ op, system.next op = some (event, system')

end System

end ConjureRuntime.Blocking
