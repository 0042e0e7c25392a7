import ConjureRuntime.Foundation.Transition
import ConjureRuntime.Service.Http
import Mathlib.Algebra.Field.Defs
import Mathlib.Algebra.Ring.Int.Defs

/-!
# The reservoir of recent failures

A sum that loses a fixed factor with every interval that passes.  The decay is
applied by whoever comes next: every call reads the clock, compares it with
the time of the last decay, and makes up for the intervals in between.  The
values are those of a field here, and times are nanoseconds since the start.

Calls may follow one another or overlap; where they overlap, each of their
atomic operations is a step of its own.
-/

namespace ConjureRuntime.Node

open ConjureRuntime.Service

def decaysPerHalfLife : Nat := 10

structure CoarseExponentialDecayReservoir (α : Type) where
  value : α
  lastDecayNanos : Nat
  decayIntervalNanos : Nat

namespace CoarseExponentialDecayReservoir

inductive Panic where
  | arithmeticOverflow
  | divideByZero
  deriving DecidableEq, Repr

/-! ## Arithmetic on `u64` -/

/-- Subtraction; `overflowChecks` is the setting of the build profile. -/
def subU64 (overflowChecks : Bool) (a b : Nat) : Except Panic Nat :=
  if b ≤ a then .ok (a - b)
  else if overflowChecks then .error .arithmeticOverflow
  else .ok (a + 2 ^ 64 - b)

def fitU64 (overflowChecks : Bool) (result : Nat) : Except Panic Nat :=
  if result < 2 ^ 64 then .ok result
  else if overflowChecks then .error .arithmeticOverflow
  else .ok (result % 2 ^ 64)

def divU64 (a b : Nat) : Except Panic Nat :=
  if b = 0 then .error .divideByZero else .ok (a / b)

/-- `as i32`. -/
def asI32 (n : Nat) : Int := Int.bmod n (2 ^ 32)

/-! ## One call -/

variable {α : Type} [Field α]

def new (α : Type) [Field α] (halfLife : Duration) :
    CoarseExponentialDecayReservoir α where
  value := 0
  lastDecayNanos := 0
  decayIntervalNanos := halfLife.nanos % 2 ^ 64 / decaysPerHalfLife

/-- The arithmetic of `decay_if_necessary`: the decays that are due, if there
are any, and the time up to which they account. -/
def dueDecays (overflowChecks : Bool)
    (decayIntervalNanos nowNanos lastDecayNanosSnapshot : Nat) :
    Except Panic (Option (Nat × Nat)) := do
  let nanosSinceLastDecay ←
    subU64 overflowChecks nowNanos lastDecayNanosSnapshot
  let decays ← divU64 nanosSinceLastDecay decayIntervalNanos
  if decays = 0 then pure none
  else
    let nanos ← fitU64 overflowChecks (decays * decayIntervalNanos)
    let newDecayNanos ← fitU64 overflowChecks (lastDecayNanosSnapshot + nanos)
    pure (some (decays, newDecayNanos))

def decay (decayFactor : α) (decays : Int)
    (reservoir : CoarseExponentialDecayReservoir α) :
    CoarseExponentialDecayReservoir α :=
  { reservoir with value := reservoir.value * decayFactor ^ decays }

inductive Operation (α : Type) where
  | update (updates : α)
  | get

def Operation.apply (operation : Operation α)
    (reservoir : CoarseExponentialDecayReservoir α) :
    Option α × CoarseExponentialDecayReservoir α :=
  match operation with
  | .update updates =>
      (none, { reservoir with value := reservoir.value + updates })
  | .get => (some reservoir.value, reservoir)

/-! ## Calls one after the other -/

def decayIfNecessary (overflowChecks : Bool) (decayFactor : α)
    (nowNanos : Nat) (reservoir : CoarseExponentialDecayReservoir α) :
    Except Panic (CoarseExponentialDecayReservoir α) := do
  match ← dueDecays overflowChecks reservoir.decayIntervalNanos nowNanos
      reservoir.lastDecayNanos with
  | none => pure reservoir
  | some (decays, newDecayNanos) =>
      pure (decay decayFactor (asI32 decays)
        { reservoir with lastDecayNanos := newDecayNanos })

def perform (overflowChecks : Bool) (decayFactor : α) (elapsed : Duration)
    (operation : Operation α)
    (reservoir : CoarseExponentialDecayReservoir α) :
    Except Panic (Option α × CoarseExponentialDecayReservoir α) := do
  let reservoir ← decayIfNecessary overflowChecks decayFactor
    (elapsed.nanos % 2 ^ 64) reservoir
  pure (operation.apply reservoir)

def performAll (overflowChecks : Bool) (decayFactor : α) :
    List (Duration × Operation α) → CoarseExponentialDecayReservoir α →
    Except Panic (List (Option α) × CoarseExponentialDecayReservoir α)
  | [], reservoir => pure ([], reservoir)
  | (elapsed, operation) :: calls, reservoir => do
      let (result, reservoir) ←
        perform overflowChecks decayFactor elapsed operation reservoir
      let (results, reservoir) ←
        performAll overflowChecks decayFactor calls reservoir
      pure (result :: results, reservoir)

/-! ## Overlapping calls -/

/-- Where a call is: before its clock read, before its load, before its
compare-and-exchange, before its decay, before its last access of the value,
or at its end. -/
inductive Call (α : Type) where
  | starting (operation : Operation α)
  | clockRead (operation : Operation α) (nowNanos : Nat)
  | exchanging (operation : Operation α)
      (lastDecayNanosSnapshot decays newDecayNanos : Nat)
  | decaying (operation : Operation α) (decays : Int)
  | decayed (operation : Operation α)
  | returned (result : Option α)
  | panicked (panic : Panic)

namespace Call

def afterLoad (overflowChecks : Bool) (operation : Operation α)
    (decayIntervalNanos nowNanos lastDecayNanosSnapshot : Nat) : Call α :=
  match dueDecays overflowChecks decayIntervalNanos nowNanos
      lastDecayNanosSnapshot with
  | .error panic => .panicked panic
  | .ok none => .decayed operation
  | .ok (some (decays, newDecayNanos)) =>
      .exchanging operation lastDecayNanosSnapshot decays newDecayNanos

def pending : Call α → Int
  | .decaying _ decays => decays
  | _ => 0

end Call

inductive Op (α : Type) where
  | call (operation : Operation α)
  | readClock (call elapsedNanos : Nat)
  | load (call : Nat)
  | exchange (call : Nat)
  | decay (call : Nat)
  | finish (call : Nat)

inductive Event (α : Type) where
  | called
  | clockRead (call elapsedNanos : Nat)
  | loaded (call nowNanos lastDecayNanosSnapshot : Nat)
  | exchanged (call : Nat) (newDecayNanos : Option Nat)
  | decayed (call : Nat) (decays : Int)
  | returned (call : Nat) (result : Option α)

/-- The reservoir with the time at the last reading of the clock, the calls,
and the number of decay factors that the value was multiplied with. -/
structure System (α : Type) where
  reservoir : CoarseExponentialDecayReservoir α
  clock : Nat
  calls : List (Call α)
  applied : Int

namespace System

def new (α : Type) [Field α] (halfLife : Duration) : System α :=
  ⟨.new α halfLife, 0, [], 0⟩

def setCall (system : System α) (call : Nat) (state : Call α) : System α :=
  { system with calls := system.calls.set call state }

section fields

omit [Field α]

variable (system : System α) (call : Nat) (state : Call α)

@[simp] theorem setCall_reservoir :
    (system.setCall call state).reservoir = system.reservoir := rfl

@[simp] theorem setCall_clock :
    (system.setCall call state).clock = system.clock := rfl

@[simp] theorem setCall_calls :
    (system.setCall call state).calls = system.calls.set call state := rfl

@[simp] theorem setCall_applied :
    (system.setCall call state).applied = system.applied := rfl

end fields

def pending (system : System α) : Int :=
  (system.calls.map Call.pending).sum

def next (overflowChecks : Bool) (decayFactor : α) (system : System α) :
    Op α → Option (Event α × System α)
  | .call operation =>
      some (.called,
        { system with calls := system.calls ++ [.starting operation] })
  | .readClock call elapsedNanos =>
      match system.calls[call]? with
      | some (.starting operation) =>
          -- the clock does not go back; `as u64` cuts its readings off
          if system.clock ≤ elapsedNanos then
            some (.clockRead call elapsedNanos,
              { system.setCall call
                  (.clockRead operation (elapsedNanos % 2 ^ 64)) with
                clock := elapsedNanos })
          else none
      | _ => none
  | .load call =>
      match system.calls[call]? with
      | some (.clockRead operation nowNanos) =>
          let snapshot := system.reservoir.lastDecayNanos
          some (.loaded call nowNanos snapshot,
            system.setCall call (.afterLoad overflowChecks operation
              system.reservoir.decayIntervalNanos nowNanos snapshot))
      | _ => none
  | .exchange call =>
      match system.calls[call]? with
      | some (.exchanging operation snapshot decays newDecayNanos) =>
          if system.reservoir.lastDecayNanos = snapshot then
            some (.exchanged call (some newDecayNanos),
              { system.setCall call (.decaying operation (asI32 decays)) with
                reservoir := { system.reservoir with
                  lastDecayNanos := newDecayNanos } })
          else
            some (.exchanged call none,
              system.setCall call (.decayed operation))
      | _ => none
  | .decay call =>
      match system.calls[call]? with
      | some (.decaying operation decays) =>
          some (.decayed call decays,
            { system.setCall call (.decayed operation) with
              reservoir := system.reservoir.decay decayFactor decays
              applied := system.applied + decays })
      | _ => none
  | .finish call =>
      match system.calls[call]? with
      | some (.decayed operation) =>
          let (result, reservoir) := operation.apply system.reservoir
          some (.returned call result,
            { system.setCall call (.returned result) with reservoir })
      | _ => none

/-- One atomic operation of one call. -/
def Step (overflowChecks : Bool) (decayFactor : α) (system : System α)
    (event : Event α) (system' : System α) : Prop :=
  ∃ op, system.next overflowChecks decayFactor op = some (event, system')

end System

end CoarseExponentialDecayReservoir

end ConjureRuntime.Node
