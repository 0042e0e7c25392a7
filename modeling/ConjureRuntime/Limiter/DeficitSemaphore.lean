import ConjureRuntime.Foundation.Transition
import Mathlib.Algebra.Group.Nat.Defs
import Mathlib.Data.Finset.Insert
import Mathlib.Logic.Function.Basic

/-!
# The deficit semaphore

The asynchronous semaphore behind the concurrency limiters.  It tracks the
total number of permits and the number checked out separately, so that the
total can be adjusted while permits are out, and it queues its waiters in an
intrusive doubly linked list whose nodes live inside the pinned `Acquire`
futures.

An `Acquire` is named by its address in `α`; `node` is the heap of their
`node` fields.  Every operation runs under the mutex, as a computation that
keeps the state it had reached when it panics: the mutex is not poisoned.
-/

namespace ConjureRuntime.Limiter

def usizeMax : Nat := 2 ^ 64 - 1

def checkedAdd (a b : Nat) : Option Nat :=
  if a + b ≤ usizeMax then some (a + b) else none

def checkedSub (a b : Nat) : Option Nat :=
  if b ≤ a then some (a - b) else none

structure Node (α ω : Type*) where
  waker : Option ω
  next : Option α
  prev : Option α
  deriving DecidableEq

structure State (α ω : Type*) where
  totalPermits : Nat
  outstandingPermits : Nat
  head : Option α
  tail : Option α
  node : α → Option (Node α ω)

inductive Panic where
  | expect (message : String)
  | arithmeticOverflow
  | debugAssert
  | danglingPointer
  deriving DecidableEq, Repr

inductive Poll where
  | ready
  | pending
  deriving DecidableEq, Repr

/-- A computation under the semaphore's mutex. -/
abbrev Locked (α ω : Type) := EStateM Panic (State α ω)

/-- The waiter whose waker was taken, with that waker. -/
abbrev Woken (α ω : Type) := Option (α × ω)

namespace State

def new (α ω : Type*) (permits : Nat) : State α ω where
  totalPermits := permits
  outstandingPermits := 0
  head := none
  tail := none
  node := fun _ => none

def hasPermits {α ω : Type*} (state : State α ω) : Bool :=
  state.outstandingPermits < state.totalPermits

end State

variable {α ω : Type} [DecidableEq α]

def expect {β : Type} (message : String) : Option β → Locked α ω β
  | some value => pure value
  | none => throw (.expect message)

def debugAssert (condition : Bool) : Locked α ω Unit :=
  if condition then pure () else throw .debugAssert

/-- Read through a `NonNull<Node>`. -/
def deref (pointer : α) : Locked α ω (Node α ω) := do
  match (← get).node pointer with
  | some node => pure node
  | none => throw .danglingPointer

def store (pointer : α) (node : Option (Node α ω)) : Locked α ω Unit :=
  modify fun state =>
    { state with node := Function.update state.node pointer node }

def maybeWake : Locked α ω (Woken α ω) := do
  let state ← get
  if state.hasPermits then
    match state.head with
    | some head =>
        let node ← deref head
        match node.waker with
        | some waker =>
            store head (some { node with waker := none })
            pure (some (head, waker))
        | none => pure none
    | none => pure none
  else pure none

def addPermits (permits : Nat) : Locked α ω (Woken α ω) := do
  let total ← expect "permit count overflow"
    (checkedAdd (← get).totalPermits permits)
  modify fun state => { state with totalPermits := total }
  maybeWake

def removePermits (permits : Nat) : Locked α ω Unit := do
  let total ← expect "permit count underflow"
    (checkedSub (← get).totalPermits permits)
  modify fun state => { state with totalPermits := total }

/-- The first half of `dequeue`: the predecessor, or the head, skips the
node. -/
def relinkPrev (self : α) (node : Node α ω) : Locked α ω Unit := do
  match node.prev with
  | some prev =>
      let prevNode ← deref prev
      debugAssert (prevNode.next = some self)
      store prev (some { prevNode with next := node.next })
  | none =>
      debugAssert ((← get).head = some self)
      modify fun state => { state with head := node.next }

def relinkNext (self : α) (node : Node α ω) : Locked α ω Unit := do
  match node.next with
  | some next =>
      let nextNode ← deref next
      debugAssert (nextNode.prev = some self)
      store next (some { nextNode with prev := node.prev })
  | none =>
      debugAssert ((← get).tail = some self)
      modify fun state => { state with tail := node.prev }

def dequeue (self : α) : Locked α ω Unit := do
  relinkPrev self (← deref self)
  relinkNext self (← deref self)
  let node ← deref self
  store self (some { node with prev := none, next := none })

def pushBack (self : α) : Locked α ω Unit := do
  let node ← deref self
  debugAssert node.next.isNone
  debugAssert node.prev.isNone
  match (← get).tail with
  | some tail =>
      let tailNode ← deref tail
      debugAssert tailNode.next.isNone
      store tail (some { tailNode with next := some self })
      let node ← deref self
      store self (some { node with prev := some tail })
  | none => modify fun state => { state with head := some self }
  modify fun state => { state with tail := some self }

/-- `Drop for Acquire`: the node is freed together with its future. -/
def dropAcquire (self : α) : Locked α ω (Woken α ω) := do
  match (← get).node self with
  | some node =>
      let isHead := node.prev.isNone
      dequeue self
      store self none
      if isHead then maybeWake else pure none
  | none => pure none

def grantPermit : Locked α ω Unit :=
  modify fun state =>
    { state with outstandingPermits := state.outstandingPermits + 1 }

/-- The node of a polled `Acquire`, created and queued by the first poll. -/
def queuedNode (self : α) : Locked α ω (Node α ω) := do
  match (← get).node self with
  | some node => pure node
  | none =>
      store self (some { waker := none, next := none, prev := none })
      pushBack self
      deref self

/-- `Future for Acquire`; `willWake` is `Waker::will_wake`. -/
def poll (willWake : ω → ω → Bool) (self : α) (waker : ω) :
    Locked α ω (Poll × Woken α ω) := do
  let state ← get
  if state.head.isNone && state.hasPermits then
    grantPermit
    pure (.ready, none)
  else
    let node ← queuedNode self
    -- only the waiter at the head of the queue can take a permit
    if node.prev.isNone && (← get).hasPermits then
      dequeue self
      store self none
      grantPermit
      let woken ← maybeWake
      pure (.ready, woken)
    else
      unless node.waker.any (willWake · waker) do
        store self (some { node with waker := some waker })
      pure (.pending, none)

def dropPermit : Locked α ω (Woken α ω) := do
  match checkedSub (← get).outstandingPermits 1 with
  | some outstanding =>
      modify fun state => { state with outstandingPermits := outstanding }
  | none => throw .arithmeticOverflow
  maybeWake

/-! ## Runs of the whole semaphore -/

inductive Op (α ω : Type) where
  | poll (acquire : α) (waker : ω)
  | dropAcquire (acquire : α)
  | dropPermit
  | addPermits (permits : Nat)
  | removePermits (permits : Nat)

inductive Reply where
  | poll (result : Poll)
  | unit
  | panicked (panic : Panic)
  deriving DecidableEq

structure Event (α ω : Type) where
  op : Op α ω
  reply : Reply
  woken : Woken α ω

def perform (willWake : ω → ω → Bool) :
    Op α ω → Locked α ω (Reply × Woken α ω)
  | .poll acquire waker => do
      let (result, woken) ← poll willWake acquire waker
      pure (.poll result, woken)
  | .dropAcquire acquire => do pure (.unit, ← dropAcquire acquire)
  | .dropPermit => do pure (.unit, ← dropPermit)
  | .addPermits permits => do pure (.unit, ← addPermits permits)
  | .removePermits permits => do
      removePermits permits
      pure (.unit, none)

/-- The semaphore with the number of live `Permit` values and the `Acquire`
futures that have been dropped. -/
structure System (α ω : Type) where
  state : State α ω
  permits : Nat
  dropped : Finset α

namespace System

def new (α ω : Type) (permits : Nat) : System α ω :=
  ⟨State.new α ω permits, 0, ∅⟩

def Enabled (system : System α ω) : Op α ω → Prop
  | .poll acquire _ | .dropAcquire acquire => acquire ∉ system.dropped
  | .dropPermit => 0 < system.permits
  | .addPermits _ | .removePermits _ => True

instance (system : System α ω) (op : Op α ω) :
    Decidable (system.Enabled op) :=
  match op with
  | .poll acquire _ | .dropAcquire acquire =>
      inferInstanceAs (Decidable (acquire ∉ system.dropped))
  | .dropPermit => inferInstanceAs (Decidable (0 < system.permits))
  | .addPermits _ | .removePermits _ => inferInstanceAs (Decidable True)

def permitsAfter (permits : Nat) : Op α ω → Reply → Nat
  | .poll _ _, .poll .ready => permits + 1
  | .dropPermit, _ => permits - 1
  | _, _ => permits

def droppedAfter (dropped : Finset α) : Op α ω → Finset α
  | .dropAcquire acquire => insert acquire dropped
  | _ => dropped

def next (willWake : ω → ω → Bool) (system : System α ω) (op : Op α ω) :
    Event α ω × System α ω :=
  let (reply, woken, state) :=
    match (perform willWake op).run system.state with
    | .ok (reply, woken) state => (reply, woken, state)
    | .error panic state => (.panicked panic, none, state)
  (⟨op, reply, woken⟩,
    ⟨state, permitsAfter system.permits op reply,
      droppedAfter system.dropped op⟩)

/-- One operation on the semaphore, the mutex being held throughout. -/
def Step (willWake : ω → ω → Bool) (system : System α ω)
    (event : Event α ω) (system' : System α ω) : Prop :=
  system.Enabled event.op ∧ system.next willWake event.op = (event, system')

def tryNext (willWake : ω → ω → Bool) (system : System α ω)
    (op : Op α ω) : Option (Event α ω × System α ω) :=
  if system.Enabled op then some (system.next willWake op) else none

theorem tryNext_step {willWake : ω → ω → Bool} {system system' : System α ω}
    {op : Op α ω} {event : Event α ω}
    (h : system.tryNext willWake op = some (event, system')) :
    Step willWake system event system' := by
  unfold tryNext at h
  split at h
  · rename_i henabled
    simp only [Option.some.injEq] at h
    have hop : (system.next willWake op).1.op = op := rfl
    rw [h] at hop
    exact ⟨hop ▸ henabled, hop ▸ h⟩
  · cases h

end System

end ConjureRuntime.Limiter
