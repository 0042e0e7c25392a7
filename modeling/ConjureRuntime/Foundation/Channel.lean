import Mathlib.Data.List.Basic

/-!
# Bounded channels with one sender

A first-in first-out queue between a sender, which waits for room, and a
receiver, which gets what is left after the sender is gone and then the end.
With one sender there is one slot more than the buffer asks for.
-/

namespace ConjureRuntime.Foundation

inductive Poll (α : Type*) where
  | pending
  | ready (value : α)
  deriving DecidableEq, Repr

inductive SendError where
  | full
  | disconnected
  deriving DecidableEq, Repr

structure Channel (α : Type*) where
  buffer : Nat
  queue : List α
  bounded : queue.length ≤ buffer + 1
  senderDropped : Bool
  receiverDropped : Bool
  deriving DecidableEq

namespace Channel

variable {α : Type*}

def new (α : Type*) (buffer : Nat) : Channel α where
  buffer := buffer
  queue := []
  bounded := by simp
  senderDropped := false
  receiverDropped := false

def pollReady (channel : Channel α) : Poll (Except SendError Unit) :=
  if channel.receiverDropped then .ready (.error .disconnected)
  else if channel.queue.length ≤ channel.buffer then .ready (.ok ())
  else .pending

def startSend (channel : Channel α) (item : α) :
    Except SendError Unit × Channel α :=
  if h : channel.queue.length ≤ channel.buffer then
    if channel.receiverDropped then (.error .disconnected, channel)
    else
      (.ok (), { channel with
        queue := channel.queue ++ [item]
        bounded := by simpa using h })
  else (.error .full, channel)

def pollNext (channel : Channel α) : Poll (Option α) × Channel α :=
  match h : channel.queue with
  | item :: rest =>
      (.ready (some item), { channel with
        queue := rest
        bounded := by
          have := channel.bounded
          simp only [h, List.length_cons] at this
          omega })
  | [] => (if channel.senderDropped then .ready none else .pending, channel)

def dropSender (channel : Channel α) : Channel α :=
  { channel with senderDropped := true }

def dropReceiver (channel : Channel α) : Channel α :=
  { channel with queue := [], bounded := by simp, receiverDropped := true }

variable {channel : Channel α}

@[simp] theorem new_queue (buffer : Nat) : (new α buffer).queue = [] := rfl

@[simp] theorem dropSender_queue :
    channel.dropSender.queue = channel.queue := rfl

@[simp] theorem dropSender_buffer :
    channel.dropSender.buffer = channel.buffer := rfl

@[simp] theorem dropSender_senderDropped :
    channel.dropSender.senderDropped = true := rfl

@[simp] theorem dropSender_receiverDropped :
    channel.dropSender.receiverDropped = channel.receiverDropped := rfl

@[simp] theorem dropReceiver_queue : channel.dropReceiver.queue = [] := rfl

@[simp] theorem dropReceiver_buffer :
    channel.dropReceiver.buffer = channel.buffer := rfl

@[simp] theorem dropReceiver_senderDropped :
    channel.dropReceiver.senderDropped = channel.senderDropped := rfl

@[simp] theorem dropReceiver_receiverDropped :
    channel.dropReceiver.receiverDropped = true := rfl

theorem pollReady_eq_ok_iff :
    channel.pollReady = .ready (.ok ()) ↔
      channel.receiverDropped = false ∧
        channel.queue.length ≤ channel.buffer := by
  unfold pollReady
  split <;> rename_i hdropped
  · simp [hdropped]
  · split <;> simp_all

theorem pollReady_eq_error {error : SendError}
    (h : channel.pollReady = .ready (.error error)) :
    channel.receiverDropped = true := by
  unfold pollReady at h
  split at h
  · assumption
  · split at h <;> cases h

theorem startSend_cases (item : α) :
    (∃ sent : Channel α, channel.startSend item = (.ok (), sent) ∧
      channel.receiverDropped = false ∧
      sent.queue = channel.queue ++ [item] ∧ sent.buffer = channel.buffer ∧
      sent.senderDropped = channel.senderDropped ∧
      sent.receiverDropped = false) ∨
    (∃ error, channel.startSend item = (.error error, channel) ∧
      (channel.receiverDropped = true ∨
        channel.buffer < channel.queue.length)) := by
  by_cases hroom : channel.queue.length ≤ channel.buffer
  · by_cases hdropped : channel.receiverDropped
    · exact .inr ⟨.disconnected, by simp [startSend, hroom, hdropped],
        .inl hdropped⟩
    · refine .inl ⟨_, by simp only [startSend, hroom, hdropped]; rfl, ?_⟩
      simp [hdropped]
  · exact .inr ⟨.full, by simp [startSend, hroom], .inr (by omega)⟩

theorem pollNext_cases :
    (∃ item rest, channel.queue = item :: rest ∧
      ∃ received : Channel α,
        channel.pollNext = (.ready (some item), received) ∧
        received.queue = rest ∧ received.buffer = channel.buffer ∧
        received.senderDropped = channel.senderDropped ∧
        received.receiverDropped = channel.receiverDropped) ∨
    (channel.queue = [] ∧ channel.pollNext =
      (if channel.senderDropped then .ready none else .pending, channel)) := by
  cases channel with
  | mk buffer queue bounded senderDropped receiverDropped =>
      cases queue with
      | nil => exact .inr ⟨rfl, rfl⟩
      | cons item rest => exact .inl ⟨item, rest, rfl, _, rfl, by simp⟩

end Channel

end ConjureRuntime.Foundation
