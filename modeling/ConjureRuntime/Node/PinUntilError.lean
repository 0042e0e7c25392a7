import ConjureRuntime.Foundation.Transition
import ConjureRuntime.Service.Http
import Mathlib.Logic.Equiv.Basic

/-!
# Pinning to a node until it fails

All requests go to the node at the current pin; one that fails moves the pin
on, unless it finds that the pin has moved since it read it.  Either the nodes
stay where they are, or they are shuffled from time to time by whatever
request comes by.

Requests overlap; each of their atomic operations is a step of its own.
-/

namespace ConjureRuntime.Node.PinUntilError

open ConjureRuntime.Service

variable {n : Nat}

def reshuffleEvery : Duration := .fromSecs (10 * 60 - 30)

inductive Nodes where
  | fixed
  | reshuffling (intervalWithJitter : Duration)

/-- Nodes that are shuffled every so often; the jitter is drawn from a
minute. -/
def Nodes.withJitter (jitter : Duration) : Nodes :=
  .reshuffling ⟨reshuffleEvery.nanos + jitter.nanos⟩

def incrementHost {ε : Type} : Except ε StatusCode → Bool
  | .ok status => status.isServerError
  | .error _ => true

def newPin (pin : Fin n) : Fin n :=
  ⟨(pin + 1) % n, Nat.mod_lt _ pin.pos⟩

/-- What a request read, and how often the pin had been moved then. -/
structure Read (n : Nat) where
  pin : Fin n
  rotations : Nat

/-- The node of a request, and how often the nodes had been shuffled when it
got it. -/
structure Resolved (n : Nat) where
  read : Read n
  node : Fin n
  shuffles : Nat

/-- Where a request is: before its load of the pin, at the operations of
`reshuffle_if_necessary` and `get`, at its node, before its move of the pin,
or done. -/
inductive Request (n : Nat) where
  | starting
  | pinned (read : Read n)
  | clockRead (read : Read n) (now : Nat)
  | reshuffling (read : Read n) (now nextReshuffleNanos : Nat)
  | shuffling (read : Read n)
  | storing (read : Read n) (newShuffle : Equiv.Perm (Fin n))
  | resolving (read : Read n)
  | calling (resolved : Resolved n)
  | rotating (resolved : Resolved n)
  | done

inductive Op (n : Nat) where
  | call
  | loadPin (request : Nat)
  | getFixed (request : Nat)
  | readClock (request now : Nat)
  | loadNextReshuffle (request : Nat)
  | exchangeNextReshuffle (request : Nat)
  | loadShuffle (request : Nat) (newShuffle : Equiv.Perm (Fin n))
  | storeShuffle (request : Nat)
  | getShuffled (request : Nat)
  | answer (request : Nat) (status : Except Unit StatusCode)
  | exchangePin (request : Nat)

inductive Event (n : Nat) where
  | called
  | pinLoaded (request : Nat) (pin : Fin n)
  | clockRead (request now : Nat)
  | nextReshuffleLoaded (request : Nat) (due : Bool)
  | nextReshuffleExchanged (request : Nat) (exchanged : Bool)
  | shuffleLoaded (request : Nat)
  | shuffleStored (request : Nat)
  | resolved (request : Nat) (node : Fin n)
  | answered (request : Nat) (failed : Bool)
  | pinExchanged (request : Nat) (exchanged : Bool)

/-- The service with the clock and its requests; and how often the pin was
moved and the nodes were shuffled, and the nodes that failed since. -/
structure System (n : Nat) where
  nodes : Nodes
  currentPin : Fin n
  shuffle : Equiv.Perm (Fin n)
  nextReshuffleNanos : Nat
  clock : Nat
  requests : List (Request n)
  rotations : Nat
  shuffles : Nat
  failed : List (Fin n)

namespace System

/-- The service as its layer makes it, from nodes in the order of a first
shuffle. -/
def new (nodes : Nodes) (shuffle : Equiv.Perm (Fin n)) (hn : 0 < n) :
    System n where
  nodes
  currentPin := ⟨0, hn⟩
  shuffle
  nextReshuffleNanos :=
    match nodes with
    | .fixed => 0
    | .reshuffling intervalWithJitter => intervalWithJitter.nanos % 2 ^ 64
  clock := 0
  requests := []
  rotations := 0
  shuffles := 0
  failed := []

def setRequest (system : System n) (request : Nat) (state : Request n) :
    System n :=
  { system with requests := system.requests.set request state }

def nodeAt (system : System n) (pin : Fin n) : Fin n := system.shuffle pin

def resolve (system : System n) (read : Read n) : Resolved n :=
  ⟨read, system.nodeAt read.pin, system.shuffles⟩

def next (system : System n) : Op n → Option (Event n × System n)
  | .call =>
      some (.called, { system with requests := system.requests ++ [.starting] })
  | .loadPin request =>
      match system.requests[request]? with
      | some .starting =>
          some (.pinLoaded request system.currentPin,
            system.setRequest request
              (.pinned ⟨system.currentPin, system.rotations⟩))
      | _ => none
  | .getFixed request =>
      match system.nodes, system.requests[request]? with
      | .fixed, some (.pinned read) =>
          some (.resolved request (system.nodeAt read.pin),
            system.setRequest request (.calling (system.resolve read)))
      | _, _ => none
  | .readClock request now =>
      match system.nodes, system.requests[request]? with
      | .reshuffling _, some (.pinned read) =>
          if system.clock ≤ now then
            some (.clockRead request now,
              { system.setRequest request (.clockRead read now) with
                clock := now })
          else none
      | _, _ => none
  | .loadNextReshuffle request =>
      match system.requests[request]? with
      | some (.clockRead read now) =>
          if now < system.nextReshuffleNanos then
            some (.nextReshuffleLoaded request false,
              system.setRequest request (.resolving read))
          else
            some (.nextReshuffleLoaded request true,
              system.setRequest request
                (.reshuffling read now system.nextReshuffleNanos))
      | _ => none
  | .exchangeNextReshuffle request =>
      match system.nodes, system.requests[request]? with
      | .reshuffling intervalWithJitter,
          some (.reshuffling read now nextReshuffleNanos) =>
          if system.nextReshuffleNanos = nextReshuffleNanos then
            some (.nextReshuffleExchanged request true,
              { system.setRequest request (.shuffling read) with
                nextReshuffleNanos :=
                  (now + intervalWithJitter.nanos) % 2 ^ 64 })
          else
            some (.nextReshuffleExchanged request false,
              system.setRequest request (.resolving read))
      | _, _ => none
  | .loadShuffle request newShuffle =>
      match system.requests[request]? with
      | some (.shuffling read) =>
          -- a permutation of the one that was loaded
          some (.shuffleLoaded request,
            system.setRequest request (.storing read newShuffle))
      | _ => none
  | .storeShuffle request =>
      match system.requests[request]? with
      | some (.storing read newShuffle) =>
          some (.shuffleStored request,
            { system.setRequest request (.resolving read) with
              shuffle := newShuffle
              shuffles := system.shuffles + 1
              failed := [] })
      | _ => none
  | .getShuffled request =>
      match system.requests[request]? with
      | some (.resolving read) =>
          some (.resolved request (system.nodeAt read.pin),
            system.setRequest request (.calling (system.resolve read)))
      | _ => none
  | .answer request status =>
      match system.requests[request]? with
      | some (.calling resolved) =>
          if incrementHost status then
            some (.answered request true,
              { system.setRequest request (.rotating resolved) with
                failed := resolved.node :: system.failed })
          else
            some (.answered request false, system.setRequest request .done)
      | _ => none
  | .exchangePin request =>
      match system.requests[request]? with
      | some (.rotating resolved) =>
          if system.currentPin = resolved.read.pin then
            some (.pinExchanged request true,
              { system.setRequest request .done with
                currentPin := newPin resolved.read.pin
                rotations := system.rotations + 1
                failed := [] })
          else
            some (.pinExchanged request false, system.setRequest request .done)
      | _ => none

def Step (system : System n) (event : Event n) (system' : System n) : Prop :=
  ∃ op, system.next op = some (event, system')

end System

end ConjureRuntime.Node.PinUntilError
