import ConjureRuntime.Blocking.Body
import Mathlib.Data.List.Infix

/-!
# What a write forwards

What was forwarded, what is in the channel and what is still to be sent are
together what the body has written.  How the write ended for the body is one
more part after them, so that the shim learns of it only when it has all the
bytes before it.
-/

namespace ConjureRuntime.Blocking

open ConjureRuntime.Foundation ConjureRuntime.Service

def Writer.IsBusy : Writer → Prop
  | .waiting | .writing _ => True
  | .sending caller _ | .flushing caller _ =>
      caller ≠ .finish ∧ caller ≠ .error
  | .gone => False

def Reader.IsLeft : Reader → Prop
  | .returned _ | .abandoned => True
  | .requesting | .receiving | .forwarding => False

namespace WriteBody

/-! ## Streams of parts -/

/-- The parts in the channel and those to be sent are data and then the end, if
there is one; `ends` holds of all bytes with those of the data. -/
def Stream (queue rest : List BodyPart) (forwarded : Bytes)
    (last : List BodyPart) (ends : Bytes → Prop) : Prop :=
  ∃ data : List Bytes, queue ++ rest = data.map .data ++ last ∧
    ends (forwarded ++ data.flatten)

variable {queue rest last : List BodyPart} {forwarded : Bytes}
  {ends ends' : Bytes → Prop}

theorem Stream.receive {bytes : Bytes}
    (h : Stream (.data bytes :: queue) rest forwarded last ends)
    (hlast : ∀ part ∈ last, ∀ bytes, part ≠ .data bytes) :
    Stream queue rest (forwarded ++ bytes) last ends := by
  obtain ⟨data, hqueue, hends⟩ := h
  cases data with
  | nil =>
      rw [List.map_nil, List.nil_append, List.cons_append] at hqueue
      exact absurd rfl (hlast (.data bytes) (hqueue ▸ List.mem_cons_self) bytes)
  | cons first data =>
      rw [List.map_cons, List.cons_append, List.cons_append] at hqueue
      obtain ⟨hfirst, htail⟩ := List.cons.inj hqueue
      cases hfirst
      refine ⟨data, htail, ?_⟩
      rw [List.append_assoc, ← List.flatten_cons]
      exact hends

theorem Stream.receive_last {part : BodyPart}
    (h : Stream (part :: queue) rest forwarded last ends)
    (hpart : ∀ bytes, part ≠ .data bytes) :
    part ∈ last ∧ ends forwarded := by
  obtain ⟨data, hqueue, hends⟩ := h
  cases data with
  | nil =>
      rw [List.map_nil, List.nil_append, List.cons_append] at hqueue
      rw [List.flatten_nil, List.append_nil] at hends
      exact ⟨hqueue ▸ List.mem_cons_self, hends⟩
  | cons first data =>
      rw [List.map_cons, List.cons_append, List.cons_append] at hqueue
      exact absurd (List.cons.inj hqueue).1 (hpart first)

theorem Stream.feed {part : BodyPart}
    (h : Stream queue (part :: rest) forwarded last ends) :
    Stream (queue ++ [part]) rest forwarded last ends := by
  obtain ⟨data, hqueue, hends⟩ := h
  exact ⟨data, by rw [List.append_assoc]; exact hqueue, hends⟩

theorem Stream.mono (h : Stream queue rest forwarded last ends)
    (himp : ∀ bytes, ends bytes → ends' bytes) :
    Stream queue rest forwarded last ends' := by
  obtain ⟨data, hqueue, hends⟩ := h
  exact ⟨data, hqueue, himp _ hends⟩

theorem Stream.append_last (h : Stream queue rest forwarded [] ends)
    (last : List BodyPart) :
    Stream queue (rest ++ last) forwarded last ends := by
  obtain ⟨data, hqueue, hends⟩ := h
  refine ⟨data, ?_, hends⟩
  rw [← List.append_assoc, hqueue, List.append_nil]

theorem Stream.append_data {bytes : Bytes}
    (h : Stream queue rest forwarded [] fun sent => ends (sent ++ bytes)) :
    Stream queue (rest ++ [.data bytes]) forwarded [] ends := by
  obtain ⟨data, hqueue, hends⟩ := h
  refine ⟨data ++ [bytes], ?_, ?_⟩
  · rw [← List.append_assoc, hqueue]
    simp
  · rw [List.flatten_append, List.flatten_singleton, ← List.append_assoc]
    exact hends

theorem Stream.flush {buf : Bytes}
    (h : Stream queue [] forwarded [] fun sent => ends (sent ++ buf)) :
    Stream queue (flushParts buf) forwarded [] ends := by
  unfold flushParts
  split
  · rename_i hempty
    exact h.mono fun sent hends => by rwa [hempty, List.append_nil] at hends
  · exact h.append_data

/-! ## Invariants of a call -/

variable {call call' : WriteBody} {event : Event}

def Sends (call : WriteBody) (rest last : List BodyPart)
    (ends : Bytes → Prop) : Prop :=
  Stream call.parts.queue rest call.forwarded last ends

def Flowing (call : WriteBody) (rest : List BodyPart) (buf : Bytes) : Prop :=
  call.Sends rest [] fun sent => sent ++ buf = call.wrote

def Finishing (call : WriteBody) (rest : List BodyPart) : Prop :=
  call.returned = some (.ok ()) ∧
    call.Sends rest [.done] fun sent => sent = call.wrote

def Failing (call : WriteBody) (rest : List BodyPart) : Prop :=
  ∃ e, call.returned = some (.error e) ∧
    call.Sends rest [.error e] fun sent => sent <+: call.wrote

def Cut (call : WriteBody) : Prop :=
  call.Sends [] [] fun sent => sent <+: call.wrote

def Pending (call : WriteBody) (parts : List BodyPart) : Caller → Prop
  | .finish => call.Finishing parts
  | .error => call.Failing parts
  | .write _ | .flush | .writeBytes => call.Flowing parts []

def Coming (call : WriteBody) : Prop :=
  match call.writer with
  | .waiting => call.Flowing [] []
  | .writing buf => call.Flowing [] buf
  | .sending caller parts | .flushing caller parts => call.Pending parts caller
  | .gone => call.Finishing [] ∨ call.Failing [] ∨ call.Cut

def Live (call : WriteBody) : Prop :=
  match call.writer with
  | .sending _ parts => parts ≠ []
  | .gone => call.parts.senderDropped = true
  | .waiting | .writing _ | .flushing _ _ => True

/-- The errors of `write_body` that are not the body's own. -/
def IsShimError (e : Error) : Prop :=
  (∃ error, e = sendError error) ∨ (∃ error : IoError, e = error.toError) ∨
    e = aborted

structure Invariant (call : WriteBody) : Prop where
  ordered : call.forwarded <+: call.wrote
  busy : call.writer.IsBusy → call.returned = none
  ok : call.reader = .returned (.ok ()) →
    call.returned = some (.ok ()) ∧ call.forwarded = call.wrote
  reached : ∀ e, call.reached = some e →
    call.reader = .returned (.error e) ∧ call.returned = some (.error e)
  failed : ∀ e, call.reader = .returned (.error e) →
    call.reached = some e ∨ IsShimError e
  left : call.parts.receiverDropped = true ↔ call.reader.IsLeft
  coming : call.parts.receiverDropped = false → call.Coming
  live : call.Live

theorem new_invariant : new.Invariant where
  ordered := List.nil_prefix
  busy _ := rfl
  ok := by simp [new]
  reached := by simp [new]
  failed := by simp [new]
  left := by simp [new, Channel.new, Reader.IsLeft]
  coming _ := ⟨[], rfl, rfl⟩
  live := trivial

/-! ## Steps of the thread -/

structure ThreadSide (call call' : WriteBody) : Prop where
  reader : call'.reader = call.reader
  forwarded : call'.forwarded = call.forwarded
  reached : call'.reached = call.reached
  receiver : call'.parts.receiverDropped = call.parts.receiverDropped
  wrote : call.wrote <+: call'.wrote
  returned : call.returned = none ∨
    (call'.returned = call.returned ∧ call'.wrote = call.wrote)
  busy : call'.writer.IsBusy → call'.returned = none
  live : call'.Live

theorem Invariant.of_thread (h : call.Invariant)
    (side : ThreadSide call call')
    (hcoming : call.parts.receiverDropped = false → call'.Coming) :
    call'.Invariant where
  ordered := by
    rw [side.forwarded]
    exact h.ordered.trans side.wrote
  busy := side.busy
  ok hreader := by
    obtain ⟨hreturned, hall⟩ := h.ok (side.reader ▸ hreader)
    rcases side.returned with hnone | ⟨hsame, hwrote⟩
    · rw [hnone] at hreturned
      cases hreturned
    · rw [hsame, side.forwarded, hwrote]
      exact ⟨hreturned, hall⟩
  reached e hreached := by
    obtain ⟨hreader, hreturned⟩ := h.reached e (side.reached ▸ hreached)
    rcases side.returned with hnone | ⟨hsame, -⟩
    · rw [hnone] at hreturned
      cases hreturned
    · rw [side.reader, hsame]
      exact ⟨hreader, hreturned⟩
  failed e hreader := by
    rw [side.reached]
    exact h.failed e (side.reader ▸ hreader)
  left := by rw [side.receiver, side.reader]; exact h.left
  coming hattached := hcoming (side.receiver ▸ hattached)
  live := side.live

theorem sent_coming {caller : Caller} (result : Except IoError Unit)
    (h : call.Pending [] caller) : (call.sent result caller).2.Coming := by
  cases caller with
  | write | flush | writeBytes => exact h
  | finish => exact .inl h
  | error => exact .inr (.inl h)

theorem send_coming {caller : Caller} {parts : List BodyPart}
    (h : call.Pending parts caller) : (call.send caller parts).2.Coming := by
  cases parts with
  | nil => exact sent_coming _ h
  | cons => exact h

theorem sent_side {caller : Caller} (result : Except IoError Unit)
    (hbusy : caller ≠ .finish ∧ caller ≠ .error → call.returned = none) :
    ThreadSide call (call.sent result caller).2 := by
  cases caller with
  | write | flush | writeBytes =>
      exact ⟨rfl, rfl, rfl, rfl, List.prefix_rfl, .inr ⟨rfl, rfl⟩,
        fun _ => hbusy ⟨by simp, by simp⟩, trivial⟩
  | finish | error =>
      exact ⟨rfl, rfl, rfl, rfl, List.prefix_rfl, .inr ⟨rfl, rfl⟩,
        fun hgone => hgone.elim, rfl⟩

theorem send_side {caller : Caller} {parts : List BodyPart}
    (hbusy : caller ≠ .finish ∧ caller ≠ .error → call.returned = none) :
    ThreadSide call (call.send caller parts).2 := by
  cases parts with
  | nil => exact sent_side _ hbusy
  | cons =>
      exact ⟨rfl, rfl, rfl, rfl, List.prefix_rfl, .inr ⟨rfl, rfl⟩, hbusy,
        List.cons_ne_nil _ _⟩

theorem Pending.feed {caller : Caller} {part : BodyPart}
    {parts : List BodyPart} {channel : Channel BodyPart}
    (h : call.Pending (part :: parts) caller)
    (hqueue : channel.queue = call.parts.queue ++ [part]) :
    { call with parts := channel }.Pending parts caller := by
  cases caller with
  | write | flush | writeBytes =>
      unfold Pending Flowing Sends at h ⊢
      rw [hqueue]
      exact Stream.feed h
  | finish =>
      obtain ⟨hreturned, hsends⟩ := h
      refine ⟨hreturned, ?_⟩
      unfold Sends at hsends ⊢
      rw [hqueue]
      exact hsends.feed
  | error =>
      obtain ⟨e, hreturned, hsends⟩ := h
      refine ⟨e, hreturned, ?_⟩
      unfold Sends at hsends ⊢
      rw [hqueue]
      exact hsends.feed

theorem Invariant.pending (h : call.Invariant) {caller : Caller}
    {parts : List BodyPart}
    (hwriter : call.writer = .sending caller parts ∨
      call.writer = .flushing caller parts)
    (hattached : call.parts.receiverDropped = false) :
    call.Pending parts caller := by
  have hcoming := h.coming hattached
  unfold Coming at hcoming
  rcases hwriter with hwriter | hwriter <;>
    · rw [hwriter] at hcoming
      exact hcoming

theorem Invariant.feed (h : call.Invariant)
    (hfeed : call.feed = some (event, call')) : call'.Invariant := by
  unfold WriteBody.feed at hfeed
  split at hfeed
  · rename_i caller part parts hwriter
    have hbusy : caller ≠ .finish ∧ caller ≠ .error → call.returned = none :=
      fun hcaller => h.busy (hwriter ▸ hcaller)
    split at hfeed
    · cases hfeed
    · rename_i error hready
      have hcall : call' = (call.sent (.error ⟨error⟩) caller).2 := by
        rw [Option.some.inj hfeed]
      have hdropped := Channel.pollReady_eq_error hready
      rw [hcall]
      exact h.of_thread (sent_side _ hbusy) fun hattached =>
        absurd (hdropped.symm.trans hattached) (by simp)
    · rename_i hready
      obtain ⟨hattached, hroom⟩ := Channel.pollReady_eq_ok_iff.mp hready
      rcases Channel.startSend_cases part with
        ⟨channel, hsend, -, hqueue, -, -, hreceiver⟩ |
        ⟨error, -, hdropped | hfull⟩
      · rw [hsend] at hfeed
        cases hfeed
        refine h.of_thread ⟨rfl, rfl, rfl, hreceiver.trans hattached.symm,
          List.prefix_rfl, .inr ⟨rfl, rfl⟩, hbusy, trivial⟩ fun _ => ?_
        exact (h.pending (.inl hwriter) hattached).feed hqueue
      · rw [hattached] at hdropped
        cases hdropped
      · omega
  · cases hfeed

theorem Invariant.flushed (h : call.Invariant)
    (hflushed : call.flushed = some (event, call')) : call'.Invariant := by
  unfold WriteBody.flushed at hflushed
  split at hflushed
  · rename_i caller parts hwriter
    have hbusy : caller ≠ .finish ∧ caller ≠ .error → call.returned = none :=
      fun hcaller => h.busy (hwriter ▸ hcaller)
    split at hflushed
    · cases hflushed
    · have hcall : call' = (call.send caller parts).2 := by
        rw [Option.some.inj hflushed]
      rw [hcall]
      exact h.of_thread (send_side hbusy) fun hattached =>
        send_coming (h.pending (.inr hwriter) hattached)
  · cases hflushed

section

variable {buf : Bytes}

theorem Invariant.writing (h : call.Invariant)
    (hwriter : call.writer = .writing buf) :
    call.returned = none ∧
      (call.parts.receiverDropped = false → call.Flowing [] buf) := by
  refine ⟨h.busy (hwriter ▸ trivial), fun hattached => ?_⟩
  have hcoming := h.coming hattached
  unfold Coming at hcoming
  rw [hwriter] at hcoming
  exact hcoming

theorem Flowing.stream {rest : List BodyPart} (h : call.Flowing rest buf) :
    Stream call.parts.queue rest call.forwarded [] fun sent =>
      sent ++ buf = call.wrote := h

theorem Flowing.of_stream {rest : List BodyPart}
    (h : Stream call.parts.queue rest call.forwarded [] fun sent =>
      sent ++ buf = call.wrote) : call.Flowing rest buf := h

theorem Flowing.append {rest : List BodyPart} (h : call.Flowing rest buf)
    (data : Bytes) :
    { call with wrote := call.wrote ++ data }.Flowing rest (buf ++ data) :=
  .of_stream (h.stream.mono fun sent hsent => by
    rw [← List.append_assoc, hsent])

theorem Flowing.flush (h : call.Flowing [] buf) :
    call.Flowing (flushParts buf) [] :=
  .of_stream (Stream.flush (h.stream.mono fun sent hsent => by
    rw [List.append_nil]
    exact hsent))

theorem Invariant.start (h : call.Invariant)
    (hwriter : call.writer = .waiting) :
    { call with writer := .writing [] }.Invariant := by
  refine h.of_thread ⟨rfl, rfl, rfl, rfl, List.prefix_rfl, .inr ⟨rfl, rfl⟩,
    fun _ => h.busy (hwriter ▸ trivial), trivial⟩ fun hattached => ?_
  have hcoming := h.coming hattached
  unfold Coming at hcoming
  rw [hwriter] at hcoming
  exact hcoming

theorem Invariant.flush (h : call.Invariant)
    (hwriter : call.writer = .writing buf) :
    (call.send .flush (flushParts buf)).2.Invariant := by
  obtain ⟨hreturned, hflowing⟩ := h.writing hwriter
  exact h.of_thread (send_side fun _ => hreturned) fun hattached =>
    send_coming (hflowing hattached).flush

theorem wrote_side (hreturned : call.returned = none) (data : Bytes)
    {call' : WriteBody}
    (side : ThreadSide { call with wrote := call.wrote ++ data } call')
    : ThreadSide call call' where
  reader := side.reader
  forwarded := side.forwarded
  reached := side.reached
  receiver := side.receiver
  wrote := (List.prefix_append _ _).trans side.wrote
  returned := .inl hreturned
  busy := side.busy
  live := side.live

theorem Invariant.write (h : call.Invariant)
    (hwriter : call.writer = .writing buf) (data : Bytes) :
    (call.write buf data).2.Invariant := by
  obtain ⟨hreturned, hflowing⟩ := h.writing hwriter
  unfold WriteBody.write
  dsimp only
  split
  · exact h.of_thread (wrote_side hreturned data (send_side fun _ => hreturned))
      fun hattached => send_coming ((hflowing hattached).append data).flush
  · exact h.of_thread (wrote_side hreturned data ⟨rfl, rfl, rfl, rfl,
      List.prefix_rfl, .inr ⟨rfl, rfl⟩, fun _ => hreturned, trivial⟩)
      fun hattached => (hflowing hattached).append data

theorem Invariant.writeBytes (h : call.Invariant)
    (hwriter : call.writer = .writing buf) (data : Bytes) :
    (call.writeBytes buf data).2.Invariant := by
  obtain ⟨hreturned, hflowing⟩ := h.writing hwriter
  refine h.of_thread (wrote_side hreturned data (send_side fun _ => hreturned))
    fun hattached => send_coming ?_
  have hflushed : call.Flowing (flushParts buf) [] := (hflowing hattached).flush
  have hwritten := (hflushed.append data).stream
  exact Flowing.of_stream (Stream.append_data (hwritten.mono
    fun sent hsent => by
      rw [List.append_nil]
      exact hsent))

theorem Invariant.bodyReturns (h : call.Invariant)
    (hwriter : call.writer = .writing buf) (result : Except Error Unit) :
    (call.bodyReturns buf result).2.Invariant := by
  obtain ⟨hreturned, hflowing⟩ := h.writing hwriter
  cases result with
  | ok =>
      refine h.of_thread ⟨rfl, rfl, rfl, rfl, List.prefix_rfl, .inl hreturned,
        fun hbusy => absurd rfl hbusy.1,
        List.append_ne_nil_of_right_ne_nil _ (List.cons_ne_nil _ _)⟩
        fun hattached => ⟨rfl, ?_⟩
      have hflushed := (hflowing hattached).flush.stream
      exact (hflushed.mono fun sent hsent => by
        rw [List.append_nil] at hsent
        exact hsent).append_last [.done]
  | error e =>
      refine h.of_thread ⟨rfl, rfl, rfl, rfl, List.prefix_rfl, .inl hreturned,
        fun hbusy => absurd rfl hbusy.2, List.cons_ne_nil _ _⟩
        fun hattached => ⟨e, rfl, ?_⟩
      exact ((hflowing hattached).stream.mono fun sent hsent =>
        ⟨buf, hsent⟩).append_last [.error e]

theorem Invariant.close (h : call.Invariant)
    (hwriter : call.writer = .waiting ∨ ∃ buf, call.writer = .writing buf) :
    call.close.Invariant := by
  refine h.of_thread ⟨rfl, rfl, rfl, rfl, List.prefix_rfl, .inr ⟨rfl, rfl⟩,
    fun hgone => hgone.elim, rfl⟩ fun hattached => .inr (.inr ?_)
  have hflowing : ∃ buf, call.Flowing [] buf := by
    have hcoming := h.coming hattached
    unfold Coming at hcoming
    rcases hwriter with hwriter | ⟨buf, hwriter⟩ <;>
      · rw [hwriter] at hcoming
        exact ⟨_, hcoming⟩
  obtain ⟨buf, hflowing⟩ := hflowing
  have hcut : call.Cut := by
    unfold Cut Sends
    exact hflowing.stream.mono fun sent hsent => ⟨buf, hsent⟩
  exact hcut

end

end WriteBody

end ConjureRuntime.Blocking
