import ConjureRuntime.Limiter.DeficitSemaphore
import ConjureRuntime.Service.Error
import Mathlib.Algebra.Order.Floor.Semiring
import Mathlib.Data.Rat.Floor

/-!
# The concurrency limiter

"Cautious increase, aggressive decrease": a limit, an atomic number, that a
semaphore enforces.  A dropped permit first updates the limit in a
compare-and-exchange loop, then adjusts the total of the semaphore by the
difference of the integer parts, and gives its semaphore permit back last.
The limit is an exact rational here.

Every call of `acquire` and the life of the permit it returns is a thread;
each of its atomic operations is a step of its own.
-/

namespace ConjureRuntime.Limiter

open ConjureRuntime.Service

def initialLimit : Nat := 20
def backoffRatio : ℚ := 9 / 10
def minLimit : Nat := 1
def maxLimit : Nat := 1000000

inductive Mode where
  | ignore
  | success
  | dropped
  deriving DecidableEq, Repr

/-! ## Behaviors -/

section behaviors

variable {β : Type}

def hostOnSuccess (response : Response β) : Mode :=
  if response.status = .internalServerError ∨
      response.status = .tooManyRequests then .ignore
  else if response.status.isServerError then .dropped
  else .success

def hostOnFailure (error : Error) : Mode :=
  if error.cause.isRawClientError then .dropped else .ignore

def endpointOnSuccess (response : Response β) : Mode :=
  if response.status = .internalServerError ∨
      response.status = .tooManyRequests then .dropped
  else if response.status.isServerError then .ignore
  else .success

def endpointOnFailure (_ : Error) : Mode := .ignore

/-- `Permit::on_response` for the behavior given by its two functions. -/
def onResponse (onSuccess : Response β → Mode) (onFailure : Error → Mode) :
    Except Error (Response β) → Mode
  | .ok response => onSuccess response
  | .error error => onFailure error

end behaviors

/-! ## Updates of the limit -/

/-- The closure that a dropped permit passes to `update_limit`. -/
inductive Update where
  | success (inFlightSnapshot : Nat)
  | dropped
  deriving DecidableEq, Repr

namespace Update

def apply : Update → ℚ → Option ℚ
  | .success inFlightSnapshot, limit =>
      if ⌊limit * backoffRatio⌋₊ ≤ inFlightSnapshot then
        some (min (maxLimit : ℚ) (limit + 1 / limit))
      else none
  | .dropped, limit =>
      some (max (minLimit : ℚ) (⌊limit * backoffRatio⌋ : ℤ))

end Update

def Mode.update (inFlightSnapshot : Nat) : Mode → Option Update
  | .ignore => none
  | .success => some (.success inFlightSnapshot)
  | .dropped => some .dropped

structure Ciad (ω : Type) where
  semaphore : State Nat ω
  limit : ℚ
  inFlight : Nat

namespace Ciad

def new (ω : Type) : Ciad ω :=
  ⟨State.new Nat ω initialLimit, initialLimit, 0⟩

/-- A call of `acquire`, and then the permit it returned. -/
inductive Call where
  | acquiring
  | cancelled
  | granted
  | holding (inFlightSnapshot : Nat) (mode : Mode)
  | loading (update : Update)
  | exchanging (update : Update) (oldLimit : ℚ)
  | adjusting (oldLimit newLimit : Nat)
  | releasing
  | released
  deriving DecidableEq

inductive Op (ω : Type) where
  | acquire
  | poll (call : Nat) (waker : ω)
  | cancel (call : Nat)
  | count (call : Nat)
  | respond (call : Nat) (mode : Mode)
  | drop (call : Nat)
  | load (call : Nat)
  | exchange (call : Nat)
  | adjust (call : Nat)
  | release (call : Nat)

/-- An operation, the update that its compare-and-exchange stored, and the
panic it ended in. -/
structure Event (ω : Type) where
  op : Op ω
  accepted : Option Update
  panic : Option Panic

/-- The limiter, its calls, and the permits that panicking adjustments failed
to add and to remove. -/
structure System (ω : Type) where
  limiter : Ciad ω
  calls : List Call
  missedAdds : Nat
  missedRemovals : Nat

namespace System

variable {ω : Type}

def new (ω : Type) : System ω := ⟨Ciad.new ω, [], 0, 0⟩

def setCall (system : System ω) (call : Nat) (state : Call) : System ω :=
  { system with calls := system.calls.set call state }

/-- Run an operation of the semaphore on behalf of a call; the call goes on
in a state that depends on the result, or in `failed` after a panic, which
unwinds through the rest of its drop. -/
def onSemaphore {β : Type} (system : System ω) (op : Op ω) (call : Nat)
    (action : Locked Nat ω β) (state : β → Call) (failed : Call) :
    Event ω × System ω :=
  match action.run system.limiter.semaphore with
  | .ok result semaphore =>
      (⟨op, none, none⟩,
        { system with
          limiter := { system.limiter with semaphore }
          calls := system.calls.set call (state result) })
  | .error panic semaphore =>
      (⟨op, none, some panic⟩,
        { system with
          limiter := { system.limiter with semaphore }
          calls := system.calls.set call failed })

/-- The part of `update_limit` that follows the compare-and-exchange. -/
def adjust (system : System ω) (call oldLimit newLimit : Nat) :
    Event ω × System ω :=
  if oldLimit < newLimit then
    let (event, system') := system.onSemaphore (.adjust call) call
      (addPermits (newLimit - oldLimit)) (fun _ => .releasing) .releasing
    if event.panic.isSome then
      (event, { system' with
        missedAdds := system'.missedAdds + (newLimit - oldLimit) })
    else (event, system')
  else if newLimit < oldLimit then
    let (event, system') := system.onSemaphore (.adjust call) call
      (removePermits (oldLimit - newLimit)) (fun _ => .releasing) .releasing
    if event.panic.isSome then
      (event, { system' with
        missedRemovals := system'.missedRemovals + (oldLimit - newLimit) })
    else (event, system')
  else (⟨.adjust call, none, none⟩, system.setCall call .releasing)

def next (willWake : ω → ω → Bool) (system : System ω) (op : Op ω) :
    Option (Event ω × System ω) :=
  match op with
  | .acquire =>
      some (⟨op, none, none⟩,
        { system with calls := system.calls ++ [.acquiring] })
  | .poll call waker =>
      match system.calls[call]? with
      | some .acquiring =>
          some (system.onSemaphore op call (poll willWake call waker)
            (fun (result, _) =>
              match result with
              | .ready => .granted
              | .pending => .acquiring)
            .cancelled)
      | _ => none
  | .cancel call =>
      match system.calls[call]? with
      | some .acquiring =>
          some (system.onSemaphore op call (dropAcquire call)
            (fun _ => .cancelled) .cancelled)
      | _ => none
  | .count call =>
      match system.calls[call]? with
      | some .granted =>
          let inFlight := system.limiter.inFlight + 1
          some (⟨op, none, none⟩,
            { system.setCall call (.holding inFlight .ignore) with
              limiter := { system.limiter with inFlight } })
      | _ => none
  | .respond call mode =>
      match system.calls[call]? with
      | some (.holding inFlightSnapshot _) =>
          some (⟨op, none, none⟩,
            system.setCall call (.holding inFlightSnapshot mode))
      | _ => none
  | .drop call =>
      match system.calls[call]? with
      | some (.holding inFlightSnapshot mode) =>
          let inFlight := system.limiter.inFlight - 1
          let state :=
            match mode.update inFlightSnapshot with
            | some update => .loading update
            | none => .releasing
          some (⟨op, none, none⟩,
            { system.setCall call state with
              limiter := { system.limiter with inFlight } })
      | _ => none
  | .load call =>
      match system.calls[call]? with
      | some (.loading update) =>
          some (⟨op, none, none⟩,
            system.setCall call (.exchanging update system.limiter.limit))
      | _ => none
  | .exchange call =>
      match system.calls[call]? with
      | some (.exchanging update oldLimit) =>
          match update.apply oldLimit with
          | none => some (⟨op, none, none⟩, system.setCall call .releasing)
          | some newLimit =>
              if system.limiter.limit = oldLimit then
                some (⟨op, some update, none⟩,
                  { system.setCall call
                      (.adjusting ⌊oldLimit⌋₊ ⌊newLimit⌋₊) with
                    limiter := { system.limiter with limit := newLimit } })
              else
                some (⟨op, none, none⟩, system.setCall call
                  (.exchanging update system.limiter.limit))
      | _ => none
  | .adjust call =>
      match system.calls[call]? with
      | some (.adjusting oldLimit newLimit) =>
          some (system.adjust call oldLimit newLimit)
      | _ => none
  | .release call =>
      match system.calls[call]? with
      | some .releasing =>
          some (system.onSemaphore op call dropPermit
            (fun _ => .released) .released)
      | _ => none

def Step (willWake : ω → ω → Bool) (system : System ω) (event : Event ω)
    (system' : System ω) : Prop :=
  system.next willWake event.op = some (event, system')

@[simp] theorem onSemaphore_op {β : Type} (system : System ω) (op : Op ω)
    (call : Nat) (action : Locked Nat ω β) (state : β → Call)
    (failed : Call) :
    (system.onSemaphore op call action state failed).1.op = op := by
  unfold onSemaphore
  split <;> rfl

@[simp] theorem adjust_op (system : System ω)
    (call oldLimit newLimit : Nat) :
    (system.adjust call oldLimit newLimit).1.op = .adjust call := by
  unfold adjust
  split
  · dsimp only
    split <;> simp
  · split
    · dsimp only
      split <;> simp
    · rfl

theorem next_op {willWake : ω → ω → Bool} {system system' : System ω}
    {op : Op ω} {event : Event ω}
    (h : system.next willWake op = some (event, system')) :
    event.op = op := by
  cases op <;> simp only [next] at h
  all_goals grind [onSemaphore_op, adjust_op]

theorem next_step {willWake : ω → ω → Bool} {system system' : System ω}
    {op : Op ω} {event : Event ω}
    (h : system.next willWake op = some (event, system')) :
    Step willWake system event system' := by
  unfold Step
  rwa [next_op h]

end System

end Ciad

end ConjureRuntime.Limiter
