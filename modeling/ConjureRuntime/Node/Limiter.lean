import ConjureRuntime.Limiter.CiadAtomic
import Mathlib.Data.Finset.Basic
import Mathlib.Data.List.Nodup

/-!
# Nodes with a limiter

A request takes two permits at a node, one of the endpoint and then one of
the host.  It waits at all nodes that its selector chose, holding the
endpoint permits it already has, and starts at the first node whose host
permit it gets; its other acquisitions are then dropped.

A poll is one step, and so is a completion: the drop of the two permits, with
the update of each limit, the adjustment of its semaphore and the release, is
taken as a whole.  What the nodes do then is, at each limiter, a run of the
steps of `Ciad.System` in which a drop is not interrupted; drops that overlap
are studied there, where they can make an adjustment of the semaphore panic.

A request is named by its index, which is also its address in the queues of
the semaphores.
-/

namespace ConjureRuntime.Node

open ConjureRuntime.Service ConjureRuntime.Limiter ConjureRuntime.Foundation

structure Endpoint where
  method : Method
  pattern : String
  deriving DecidableEq

structure Limiter (ω : Type) where
  host : Ciad ω
  endpoints : Endpoint → Option (Ciad ω)

/-- The two permits, by the snapshots they keep. -/
structure Permit where
  endpoint : Nat
  host : Nat
  deriving DecidableEq

/-- The future of `Limiter::acquire`: not polled yet or dropped, waiting for
the endpoint permit, or waiting for the host permit with the endpoint permit
in hand. -/
inductive Acquisition where
  | idle
  | endpoint
  | host (endpointSnapshot : Nat)
  deriving DecidableEq

inductive Level where
  | endpoint
  | host
  deriving DecidableEq, Repr

namespace Limiter

variable {ω : Type}

def new (ω : Type) : Limiter ω := ⟨Ciad.new ω, fun _ => none⟩

/-- `entry(..).or_insert_with(CiadConcurrencyLimiter::new)`. -/
def entry (limiter : Limiter ω) (endpoint : Endpoint) : Ciad ω :=
  (limiter.endpoints endpoint).getD (Ciad.new ω)

def setEndpoint (limiter : Limiter ω) (endpoint : Endpoint)
    (ciad : Ciad ω) : Limiter ω :=
  { limiter with
    endpoints := Function.update limiter.endpoints endpoint (some ciad) }

structure Polled (ω : Type) where
  result : Acquisition ⊕ Permit
  granted : List Level
  wakes : List (Woken Nat ω)

def pollHost (willWake : ω → ω → Bool) (self : Nat) (waker : ω)
    (endpointSnapshot : Nat) (limiter : Limiter ω) :
    Except Panic (Polled ω × Limiter ω) := do
  let ((permit, woken), host) ← limiter.host.pollAcquire willWake self waker
  match permit with
  | some hostSnapshot =>
      pure (⟨.inr ⟨endpointSnapshot, hostSnapshot⟩, [.host], [woken]⟩,
        { limiter with host })
  | none =>
      pure (⟨.inl (.host endpointSnapshot), [], [woken]⟩,
        { limiter with host })

def pollEndpoint (willWake : ω → ω → Bool) (endpoint : Endpoint)
    (self : Nat) (waker : ω) (limiter : Limiter ω) :
    Except Panic (Polled ω × Limiter ω) := do
  let ((permit, woken), ciad) ←
    (limiter.entry endpoint).pollAcquire willWake self waker
  let limiter := limiter.setEndpoint endpoint ciad
  match permit with
  | some endpointSnapshot =>
      let (polled, limiter) ←
        pollHost willWake self waker endpointSnapshot limiter
      pure (⟨polled.result, .endpoint :: polled.granted,
        woken :: polled.wakes⟩, limiter)
  | none => pure (⟨.inl .endpoint, [], [woken]⟩, limiter)

/-- Poll the future of `acquire`. -/
def poll (willWake : ω → ω → Bool) (endpoint : Endpoint) (self : Nat)
    (waker : ω) (acquisition : Acquisition) (limiter : Limiter ω) :
    Except Panic (Polled ω × Limiter ω) :=
  match acquisition with
  | .idle | .endpoint => pollEndpoint willWake endpoint self waker limiter
  | .host endpointSnapshot =>
      pollHost willWake self waker endpointSnapshot limiter

/-- Drop the future of `acquire`: the acquisition it waits for first, then
the endpoint permit it holds. -/
def dropAcquire (endpoint : Endpoint) (self : Nat)
    (acquisition : Acquisition) (limiter : Limiter ω) :
    Except Panic (List (Woken Nat ω) × Limiter ω) :=
  match acquisition with
  | .idle => pure ([], limiter)
  | .endpoint => do
      let (woken, ciad) ←
        (limiter.entry endpoint).locked
          (ConjureRuntime.Limiter.dropAcquire self)
      pure ([woken], limiter.setEndpoint endpoint ciad)
  | .host endpointSnapshot => do
      let (woken, host) ←
        limiter.host.locked (ConjureRuntime.Limiter.dropAcquire self)
      let (wakes, ciad) ←
        (limiter.entry endpoint).dropPermit endpointSnapshot .ignore
      pure (woken :: wakes, { limiter.setEndpoint endpoint ciad with host })

/-- Drop both permits, in the order of the fields. -/
def dropPermit (endpoint : Endpoint) (permit : Permit)
    (endpointMode hostMode : Mode) (limiter : Limiter ω) :
    Except Panic (List (Woken Nat ω) × Limiter ω) := do
  let (wakes, ciad) ←
    (limiter.entry endpoint).dropPermit permit.endpoint endpointMode
  let (wakes', host) ← limiter.host.dropPermit permit.host hostMode
  pure (wakes ++ wakes', { limiter.setEndpoint endpoint ciad with host })

end Limiter

/-! ## Requests -/

/-- The nodes that the selector chose for a request. -/
structure Candidates where
  nodes : List Nat
  nonempty : nodes ≠ []
  nodup : nodes.Nodup

inductive Phase where
  | pending
  | running (node : Nat) (permit : Permit)
  | finished
  deriving DecidableEq

structure Request where
  endpoint : Endpoint
  candidates : Candidates
  polled : Bool
  acquisition : Nat → Acquisition
  phase : Phase

def Request.setAcquisition (request : Request) (node : Nat)
    (acquisition : Acquisition) : Request :=
  { request with
    acquisition := Function.update request.acquisition node acquisition }

/-- The limiters of the nodes, the requests, and those of them that were
woken after their last poll. -/
structure System (ω : Type) where
  limiter : Nat → Limiter ω
  requests : List Request
  woken : Finset Nat

inductive Op (ω : Type) where
  | call (endpoint : Endpoint) (candidates : Candidates)
  | poll (request : Nat) (order : List Nat) (waker : ω)
  | cancel (request : Nat)
  | complete (request : Nat) (result : Except Error (Response Unit))

structure Grant where
  node : Nat
  level : Level
  deriving DecidableEq

structure Event (ω : Type) where
  op : Op ω
  granted : List Grant

namespace System

variable {ω : Type}

def new (ω : Type) : System ω := ⟨fun _ => Limiter.new ω, [], ∅⟩

def setRequest (system : System ω) (index : Nat) (request : Request) :
    System ω :=
  { system with requests := system.requests.set index request }

def setLimiter (system : System ω) (node : Nat) (limiter : Limiter ω)
    (wakes : List (Woken Nat ω)) : System ω :=
  { system with
    limiter := Function.update system.limiter node limiter
    woken := system.woken ∪
      (wakes.filterMap fun woken => woken.map Prod.fst).toFinset }

section fields

variable (system : System ω) (index node : Nat) (request : Request)
  (limiter : Limiter ω) (wakes : List (Woken Nat ω))

@[simp] theorem setRequest_limiter :
    (system.setRequest index request).limiter = system.limiter := rfl

@[simp] theorem setRequest_requests :
    (system.setRequest index request).requests =
      system.requests.set index request := rfl

@[simp] theorem setLimiter_limiter :
    (system.setLimiter node limiter wakes).limiter =
      Function.update system.limiter node limiter := rfl

@[simp] theorem setLimiter_requests :
    (system.setLimiter node limiter wakes).requests =
      system.requests := rfl

end fields

def pollNodes (willWake : ω → ω → Bool) (index : Nat) (waker : ω) :
    List Nat → Request → System ω →
    Except Panic ((List Grant × Request) × System ω)
  | [], request, system => pure (([], request), system)
  | node :: order, request, system => do
      let (polled, limiter) ← (system.limiter node).poll willWake
        request.endpoint index waker (request.acquisition node)
      let system := system.setLimiter node limiter polled.wakes
      let granted := polled.granted.map (Grant.mk node)
      match polled.result with
      | .inl acquisition =>
          let request := request.setAcquisition node acquisition
          let ((later, request), system) ←
            pollNodes willWake index waker order request system
          pure ((granted ++ later, request), system)
      | .inr permit =>
          let request := request.setAcquisition node .idle
          pure ((granted, { request with phase := .running node permit }),
            system)

def dropNodes (index : Nat) :
    List Nat → Request → System ω → Except Panic (Request × System ω)
  | [], request, system => pure (request, system)
  | node :: nodes, request, system => do
      let (wakes, limiter) ← (system.limiter node).dropAcquire
        request.endpoint index (request.acquisition node)
      dropNodes index nodes (request.setAcquisition node .idle)
        (system.setLimiter node limiter wakes)

/-- A poll that returns `Poll::Pending`; wakeups count from here on. -/
def stayPending (system : System ω) (index : Nat) (request : Request) :
    System ω :=
  { system.setRequest index { request with polled := true } with
    woken := system.woken.erase index }

/-- `Future for Acquire` of the balanced selector; with one candidate this is
the acquisition of the other selectors.  The order is by the scores of the
moment. -/
def poll (willWake : ω → ω → Bool) (index : Nat) (order : List Nat)
    (waker : ω) (request : Request) (system : System ω) :
    Except Panic (List Grant × System ω) := do
  let ((granted, request), system) ←
    pollNodes willWake index waker order request system
  match request.phase with
  | .pending => pure (granted, system.stayPending index request)
  | _ =>
      let (request, system) ←
        dropNodes index request.candidates.nodes request system
      pure (granted, system.setRequest index request)

def cancel (index : Nat) (request : Request) (system : System ω) :
    Except Panic (System ω) := do
  let (request, system) ←
    dropNodes index request.candidates.nodes request system
  pure (system.setRequest index { request with phase := .finished })

def finish (index : Nat) (request : Request) (node : Nat) (permit : Permit)
    (endpointMode hostMode : Mode) (system : System ω) :
    Except Panic (System ω) := do
  let (wakes, limiter) ← (system.limiter node).dropPermit
    request.endpoint permit endpointMode hostMode
  pure ((system.setLimiter node limiter wakes).setRequest index
    { request with phase := .finished })

def next (willWake : ω → ω → Bool) (system : System ω) (op : Op ω) :
    Option (Except Panic (List Grant × System ω)) :=
  match op with
  | .call endpoint candidates =>
      let request : Request :=
        ⟨endpoint, candidates, false, fun _ => .idle, .pending⟩
      some (pure ([],
        { system with requests := system.requests ++ [request] }))
  | .poll index order waker => do
      let request ← system.requests[index]?
      if request.phase = .pending ∧ order.Perm request.candidates.nodes then
        some (poll willWake index order waker request system)
      else none
  | .cancel index => do
      let request ← system.requests[index]?
      match request.phase with
      | .pending => some (([], ·) <$> cancel index request system)
      | .running node permit =>
          some (([], ·) <$>
            finish index request node permit .ignore .ignore system)
      | .finished => none
  | .complete index result => do
      let request ← system.requests[index]?
      match request.phase with
      | .running node permit =>
          some (([], ·) <$> finish index request node permit
            (onResponse endpointOnSuccess endpointOnFailure result)
            (onResponse hostOnSuccess hostOnFailure result) system)
      | _ => none

/-- One poll, cancellation or completion that does not panic. -/
def Step (willWake : ω → ω → Bool) (system : System ω) (event : Event ω)
    (system' : System ω) : Prop :=
  system.next willWake event.op = some (.ok (event.granted, system'))

def tryNext (willWake : ω → ω → Bool) (system : System ω) (op : Op ω) :
    Option (Event ω × System ω) :=
  match system.next willWake op with
  | some (.ok (granted, system')) => some (⟨op, granted⟩, system')
  | _ => none

theorem tryNext_step {willWake : ω → ω → Bool} {system system' : System ω}
    {op : Op ω} {event : Event ω}
    (h : system.tryNext willWake op = some (event, system')) :
    Step willWake system event system' := by
  unfold tryNext at h
  split at h
  · rename_i granted next hnext
    cases h
    exact hnext
  · cases h

end System

end ConjureRuntime.Node
