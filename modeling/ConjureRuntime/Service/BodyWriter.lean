import ConjureRuntime.Service.RawBody

/-!
# Steps of the body writer

Whatever call the writer is in, a step of it moves bytes from the call to the
buffer and from there to the channel, without changing their order, or it is
the end of the writer.
-/

namespace ConjureRuntime.Service

open ConjureRuntime.Foundation

namespace Transfer

def Event.submittedData : Event → Bytes
  | .pollWrite data (.ready (.ok _)) => data
  | .writeBytes data => data
  | _ => []

def Event.receivedData : Event → Bytes
  | .received frame => frame
  | _ => []

def submitted (events : List Event) : Bytes :=
  events.flatMap Event.submittedData

def received (events : List Event) : Bytes := events.flatMap Event.receivedData

def Event.IsFailure : Event → Prop
  | .writeBodyReturned (.error _) | .returned (.error _) | .dropped => True
  | _ => False

structure Event.IsQuiet (event : Event) : Prop where
  receivedData : event.receivedData = []
  ended : ∀ result, event ≠ .ended result
  failure : ¬ event.IsFailure
  done : event ≠ .doneSent

variable {events : List Event} {event : Event} {transfer transfer' : Transfer}

@[simp] theorem submitted_append :
    submitted (events ++ [event]) =
      submitted events ++ event.submittedData := by
  simp [submitted]

@[simp] theorem received_append :
    received (events ++ [event]) = received events ++ event.receivedData := by
  simp [received]

end Transfer

/-! ## The writer, seen from the channel -/

/-- How far the writer is with the body: `done` once the end is sent. -/
inductive Phase where
  | writing
  | finishing
  | done
  | gone
  deriving DecidableEq

namespace Send

def phase : Send → Phase
  | .writeBytes _ => .writing
  | .finish => .finishing

def data : Send → Bytes
  | .writeBytes data => data
  | .finish => []

theorem phase_ne_gone (send : Send) : send.phase ≠ .gone := by
  cases send <;> simp [phase]

theorem phase_ne_done (send : Send) : send.phase ≠ .done := by
  cases send <;> simp [phase]

end Send

namespace Flush

def phase : Flush → Phase
  | .send future => future.phase
  | _ => .writing

/-- A `poll_write` has submitted its data only when it returns. -/
def data : Flush → Bytes
  | .send future => future.data
  | _ => []

theorem phase_ne_gone (caller : Flush) : caller.phase ≠ .gone := by
  cases caller with
  | pollWrite | pollFlush => simp [phase]
  | send future => exact Send.phase_ne_gone future

theorem phase_ne_done (caller : Flush) : caller.phase ≠ .done := by
  cases caller with
  | pollWrite | pollFlush => simp [phase]
  | send future => exact Send.phase_ne_done future

end Flush

namespace Writer

def phase : Writer → Phase
  | .waiting | .writing => .writing
  | .flushing caller | .flushReady caller => caller.phase
  | .sending send | .sendReady send => send.phase
  | .sendFlushing (.writeBytes _) => .writing
  | .sendFlushing .finish => .done
  | .returned _ | .dropped => .gone

theorem phase_ne_gone {writer : Writer}
    (hreturned : ∀ result, writer ≠ .returned result)
    (hdropped : writer ≠ .dropped) : writer.phase ≠ .gone := by
  cases writer with
  | waiting | writing => simp [phase]
  | flushing caller | flushReady caller => exact caller.phase_ne_gone
  | sending send | sendReady send => exact send.phase_ne_gone
  | sendFlushing send => cases send <;> simp [phase]
  | returned result => exact absurd rfl (hreturned result)
  | dropped => exact absurd rfl hdropped

def inflight : Writer → Bytes
  | .flushing caller | .flushReady caller => caller.data
  | .sending send | .sendReady send => send.data
  | _ => []

def Flushed : Writer → Prop
  | .sending _ | .sendReady _ | .sendFlushing .finish => True
  | _ => False

def Ready : Writer → Prop
  | .flushReady _ | .sendReady _ => True
  | _ => False

end Writer

namespace Transfer

def unsent (transfer : Transfer) : Bytes :=
  transfer.buf ++ transfer.writer.inflight

variable {events : List Event} {event : Event} {transfer transfer' : Transfer}

/-- What the writer relies on: its flushes empty the buffer, and nobody else
fills the channel. -/
structure Sound (transfer : Transfer) : Prop where
  flushed : transfer.writer.Flushed → transfer.buf = []
  ready : transfer.writer.Ready →
    transfer.channel.receiverDropped = false →
    transfer.channel.queue.length ≤ transfer.channel.buffer

structure Aside (transfer transfer' : Transfer) (event : Event) : Prop where
  body : transfer'.body = transfer.body
  receiver : transfer'.channel.receiverDropped =
    transfer.channel.receiverDropped
  receivedData : event.receivedData = []
  ended : ∀ result, event ≠ .ended result

inductive WriterEffect (transfer : Transfer) (event : Event)
    (transfer' : Transfer) : Prop where
  | works (frames : List Bytes)
      (queue : transfer.channel.receiverDropped = false →
        transfer'.channel.queue =
          transfer.channel.queue ++ frames.map .frame ∧
        transfer.unsent ++ event.submittedData =
          frames.flatten ++ transfer'.unsent)
      (sender : transfer'.channel.senderDropped =
        transfer.channel.senderDropped)
      (stays : transfer'.writer.phase = transfer.writer.phase ∨
        (transfer.writer.phase = .writing ∧
          transfer'.writer.phase = .finishing ∧
          event = .writeBodyReturned (.ok ())))
      (alive : transfer.writer.phase ≠ .gone)
      (done : transfer.writer.phase = .done →
        frames = [] ∧ event.submittedData = [])
      (quiet : event.IsQuiet)
  | finishes
      (queue : transfer'.channel.queue = transfer.channel.queue ++ [.done])
      (sender : transfer'.channel.senderDropped =
        transfer.channel.senderDropped)
      (before : transfer.writer.phase = .finishing)
      (after : transfer'.writer.phase = .done)
      (unsent : transfer.unsent = [] ∧ transfer'.unsent = [])
      (done : event = .doneSent)
  | leaves
      (queue : transfer'.channel.queue = transfer.channel.queue)
      (sender : transfer'.channel.senderDropped = true)
      (alive : transfer.writer.phase ≠ .gone)
      (after : transfer'.writer.phase = .gone)
      (submittedData : event.submittedData = [])
      (quiet : event ≠ .doneSent)

def WriterStep (transfer : Transfer) (event : Event) (transfer' : Transfer) :
    Prop :=
  transfer'.Sound ∧ Aside transfer transfer' event ∧
    WriterEffect transfer event transfer'

theorem sound_of_not (hflushed : ¬ transfer.writer.Flushed)
    (hready : ¬ transfer.writer.Ready) : transfer.Sound where
  flushed h := absurd h hflushed
  ready h := absurd h hready

theorem WriterStep.in_place (hsound : transfer'.Sound)
    (hchannel : transfer'.channel = transfer.channel)
    (hbody : transfer'.body = transfer.body)
    (hphase : transfer'.writer.phase = transfer.writer.phase)
    (halive : transfer.writer.phase ≠ .gone)
    (hbytes : transfer.unsent ++ event.submittedData = transfer'.unsent)
    (hdone : transfer.writer.phase = .done → event.submittedData = [])
    (hquiet : event.IsQuiet) :
    WriterStep transfer event transfer' := by
  refine ⟨hsound, ⟨hbody, by rw [hchannel], hquiet.receivedData,
    hquiet.ended⟩, .works [] (fun _ => ⟨by simp [hchannel], ?_⟩)
      (by rw [hchannel]) (.inl hphase) halive
      (fun h => ⟨rfl, hdone h⟩) hquiet⟩
  simpa using hbytes

theorem WriterStep.closes {before : Transfer} {result : Except Error Unit}
    (hqueue : transfer.channel = before.channel)
    (hbody : transfer.body = before.body)
    (halive : before.writer.phase ≠ .gone)
    (hevent : event = .returned result ∨ event = .writeBodyReturned result) :
    WriterStep before event (transfer.close (.returned result)) := by
  refine ⟨sound_of_not id id, ⟨hbody, ?_, ?_, ?_⟩, .leaves ?_ rfl halive rfl
    ?_ ?_⟩
  · simp [close, hqueue]
  · rcases hevent with rfl | rfl <;> rfl
  · rcases hevent with rfl | rfl <;> simp
  · simp [close, hqueue]
  · rcases hevent with rfl | rfl <;> rfl
  · rcases hevent with rfl | rfl <;> simp

/-! ### Calls that fail -/

theorem WriterStep.fails {before : Transfer}
    (hchannel : transfer.channel = before.channel)
    (hbody : transfer.body = before.body)
    (hphase : before.writer.phase = .writing)
    (hdropped : before.channel.receiverDropped = true)
    (hquiet : event.IsQuiet) :
    WriterStep before event { transfer with writer := .writing } := by
  refine ⟨sound_of_not id id, ⟨hbody, by rw [hchannel], hquiet.receivedData,
    hquiet.ended⟩, .works [] (by simp [hdropped]) (by rw [hchannel])
      (.inl hphase.symm) (by simp [hphase]) (by simp [hphase]) hquiet⟩

theorem sendFailed_step {before : Transfer} {error : IoError} {send : Send}
    (hchannel : transfer.channel = before.channel)
    (hbody : transfer.body = before.body)
    (hphase : before.writer.phase = send.phase)
    (hdropped : before.channel.receiverDropped = true)
    (h : transfer.sendFailed error send = (event, transfer')) :
    WriterStep before event transfer' := by
  cases send with
  | writeBytes data =>
      cases h
      exact .fails hchannel hbody hphase hdropped ⟨rfl, by simp, id, by simp⟩
  | finish =>
      cases h
      exact .closes hchannel hbody (by simp [hphase, Send.phase]) (.inl rfl)

theorem flushFailed_step {before : Transfer} {error : IoError}
    {caller : Flush} (hchannel : transfer.channel = before.channel)
    (hbody : transfer.body = before.body)
    (hphase : before.writer.phase = caller.phase)
    (hdropped : before.channel.receiverDropped = true)
    (h : transfer.flushFailed error caller = (event, transfer')) :
    WriterStep before event transfer' := by
  cases caller with
  | pollWrite | pollFlush =>
      cases h
      exact .fails hchannel hbody hphase hdropped ⟨rfl, by simp, id, by simp⟩
  | send future => exact sendFailed_step hchannel hbody hphase hdropped h

theorem receiverDropped_of_send (hsound : transfer.Sound)
    (hready : transfer.writer.Ready)
    (hfailed : transfer.channel.receiverDropped = true ∨
      transfer.channel.buffer < transfer.channel.queue.length) :
    transfer.channel.receiverDropped = true := by
  by_contra hopen
  have hroom := hsound.ready hready (by simpa using hopen)
  rcases hfailed with hdropped | hfull
  · exact hopen hdropped
  · omega

/-! ### Calls that go on -/

theorem flushed_spec {caller : Flush} (hbuf : transfer.buf = [])
    (h : transfer.flushed caller = (event, transfer')) :
    transfer'.Sound ∧ transfer'.channel = transfer.channel ∧
      transfer'.body = transfer.body ∧
      transfer'.writer.phase = caller.phase ∧
      caller.data ++ event.submittedData = transfer'.unsent ∧
      event.IsQuiet := by
  cases caller with
  | pollWrite data =>
      cases h
      refine ⟨sound_of_not id id, rfl, rfl, rfl, ?_,
        ⟨rfl, by simp, id, by simp⟩⟩
      simp [Flush.data, Event.submittedData, unsent, hbuf, Writer.inflight]
  | pollFlush =>
      cases h
      refine ⟨sound_of_not id id, rfl, rfl, rfl, ?_,
        ⟨rfl, by simp, id, by simp⟩⟩
      simp [Flush.data, Event.submittedData, unsent, hbuf, Writer.inflight]
  | send future =>
      cases h
      refine ⟨⟨fun _ => hbuf, fun h => h.elim⟩, rfl, rfl, rfl, ?_,
        ⟨rfl, by simp, id, by simp⟩⟩
      simp [Flush.data, Event.submittedData, unsent, hbuf, Writer.inflight]

theorem flushPending_step {caller : Flush}
    (hwriter : transfer.writer = .flushing caller)
    (h : transfer.flushPending caller = (event, transfer')) :
    WriterStep transfer event transfer' := by
  have hphase : transfer.writer.phase = caller.phase := by rw [hwriter]; rfl
  have halive := hphase.trans_ne caller.phase_ne_gone
  cases caller with
  | pollWrite | pollFlush =>
      cases h
      refine .in_place (sound_of_not id id) rfl rfl hphase.symm halive ?_
        (fun _ => rfl) ⟨rfl, by simp, id, by simp⟩
      simp [unsent, hwriter, Writer.inflight, Flush.data, Event.submittedData]
  | send future =>
      cases h
      refine .in_place (sound_of_not id id) rfl rfl hphase.symm halive ?_
        (fun _ => rfl) ⟨rfl, by simp, id, by simp⟩
      simp [unsent, hwriter, Event.submittedData]

/-! ### The accesses to the channel -/

theorem flushing_step {caller : Flush}
    (hwriter : transfer.writer = .flushing caller)
    (h : transfer.proceed = some (event, transfer')) :
    WriterStep transfer event transfer' := by
  have hphase : transfer.writer.phase = caller.phase := by rw [hwriter]; rfl
  have halive := hphase.trans_ne caller.phase_ne_gone
  simp only [proceed, hwriter] at h
  split at h
  · rename_i hempty
    have hbuf : transfer.buf = [] := List.isEmpty_iff.mp hempty
    obtain ⟨hsound, hchannel, hbody, hphase', hbytes, hquiet⟩ :=
      flushed_spec hbuf (Option.some.inj h)
    refine .in_place hsound hchannel hbody (hphase'.trans hphase.symm) halive
      ?_ ?_ hquiet
    · simpa [unsent, hwriter, hbuf, Writer.inflight] using hbytes
    · intro hdone
      exact absurd (hphase.symm.trans hdone) caller.phase_ne_done
  · split at h
    · exact flushPending_step hwriter (Option.some.inj h)
    · rename_i hready
      exact flushFailed_step rfl rfl hphase
        (Channel.pollReady_eq_error hready) (Option.some.inj h)
    · rename_i hready
      have hroom := (Channel.pollReady_eq_ok_iff.mp hready).2
      cases h
      refine .in_place ⟨fun h => h.elim, fun _ _ => hroom⟩ rfl rfl hphase.symm
        halive ?_ (fun _ => rfl) ⟨rfl, by simp, id, by simp⟩
      simp [unsent, hwriter, Writer.inflight, Event.submittedData]

theorem flushReady_step (hsound : transfer.Sound) {caller : Flush}
    (hwriter : transfer.writer = .flushReady caller)
    (h : transfer.proceed = some (event, transfer')) :
    WriterStep transfer event transfer' := by
  have hphase : transfer.writer.phase = caller.phase := by rw [hwriter]; rfl
  have hready : transfer.writer.Ready := by rw [hwriter]; trivial
  simp only [proceed, hwriter] at h
  rcases transfer.channel.startSend_cases (.frame transfer.buf) with
    ⟨sent, hsend, hopen, hqueue, hbuffer, hsender, hreceiver⟩ |
    ⟨error, hsend, hfailed⟩
  · rw [hsend] at h
    obtain ⟨hsound', hchannel, hbody, hphase', hbytes, hquiet⟩ :=
      flushed_spec rfl (Option.some.inj h)
    refine ⟨hsound', ⟨hbody, ?_, hquiet.receivedData, hquiet.ended⟩,
      .works [transfer.buf] (fun _ => ⟨?_, ?_⟩) ?_
        (.inl (hphase'.trans hphase.symm))
        (hphase.trans_ne caller.phase_ne_gone) ?_ hquiet⟩
    · rw [hchannel, hopen]
      exact hreceiver
    · rw [hchannel]
      exact hqueue
    · rw [← hbytes]
      simp [unsent, hwriter, Writer.inflight]
    · rw [hchannel]
      exact hsender
    · intro hdone
      exact absurd (hphase.symm.trans hdone) caller.phase_ne_done
  · rw [hsend] at h
    exact flushFailed_step (by rfl) (by rfl) hphase
      (receiverDropped_of_send hsound hready hfailed)
      (Option.some.inj h)

theorem sending_step (hsound : transfer.Sound) {send : Send}
    (hwriter : transfer.writer = .sending send)
    (h : transfer.proceed = some (event, transfer')) :
    WriterStep transfer event transfer' := by
  have hphase : transfer.writer.phase = send.phase := by rw [hwriter]; rfl
  have halive := hphase.trans_ne send.phase_ne_gone
  have hbuf := hsound.flushed (by rw [hwriter]; trivial)
  simp only [proceed, hwriter] at h
  split at h
  · cases h
    exact .in_place hsound rfl rfl rfl halive (by simp [Event.submittedData])
      (fun _ => rfl) ⟨rfl, by simp, id, by simp⟩
  · rename_i hready
    exact sendFailed_step rfl rfl hphase (Channel.pollReady_eq_error hready)
      (Option.some.inj h)
  · rename_i hready
    have hroom := (Channel.pollReady_eq_ok_iff.mp hready).2
    cases h
    refine .in_place ⟨fun _ => hbuf, fun _ _ => hroom⟩ rfl rfl hphase.symm
      halive ?_ (fun _ => rfl) ⟨rfl, by simp, id, by simp⟩
    simp [unsent, hwriter, Writer.inflight, Event.submittedData]

theorem sendReady_step (hsound : transfer.Sound) {send : Send}
    (hwriter : transfer.writer = .sendReady send)
    (h : transfer.proceed = some (event, transfer')) :
    WriterStep transfer event transfer' := by
  have hphase : transfer.writer.phase = send.phase := by rw [hwriter]; rfl
  have hready : transfer.writer.Ready := by rw [hwriter]; trivial
  have hbuf := hsound.flushed (by rw [hwriter]; trivial)
  simp only [proceed, hwriter] at h
  rcases transfer.channel.startSend_cases send.part with
    ⟨sent, hsend, hopen, hqueue, hbuffer, hsender, hreceiver⟩ |
    ⟨error, hsend, hfailed⟩
  · rw [hsend] at h
    cases send with
    | writeBytes data =>
        cases h
        refine ⟨sound_of_not id id,
          ⟨rfl, hreceiver.trans hopen.symm, rfl, by simp⟩,
          .works [data] (fun _ => ⟨hqueue, ?_⟩) hsender (.inl hphase.symm)
            (by simp [hphase, Send.phase]) (by simp [hphase, Send.phase])
            ⟨rfl, by simp, id, by simp⟩⟩
        simp [unsent, hwriter, hbuf, Writer.inflight, Send.data,
          Event.submittedData]
    | finish =>
        cases h
        refine ⟨⟨fun _ => hbuf, fun h => h.elim⟩,
          ⟨rfl, hreceiver.trans hopen.symm, rfl, by simp⟩,
          .finishes hqueue hsender hphase rfl ?_ rfl⟩
        simp [unsent, hwriter, hbuf, Writer.inflight, Send.data]
  · rw [hsend] at h
    exact sendFailed_step (by rfl) (by rfl) hphase
      (receiverDropped_of_send hsound hready hfailed)
      (Option.some.inj h)

theorem sendFlushing_step (hsound : transfer.Sound) {send : Send}
    (hwriter : transfer.writer = .sendFlushing send)
    (h : transfer.proceed = some (event, transfer')) :
    WriterStep transfer event transfer' := by
  have halive : transfer.writer.phase ≠ .gone := by
    cases send <;> simp [hwriter, Writer.phase]
  simp only [proceed, hwriter] at h
  split at h
  · cases h
    exact .in_place hsound rfl rfl rfl halive (by simp [Event.submittedData])
      (fun _ => rfl) ⟨rfl, by simp, id, by simp⟩
  · cases send with
    | writeBytes data =>
        cases h
        refine .in_place (sound_of_not id id) rfl rfl (by rw [hwriter]; rfl)
          halive ?_ (fun _ => rfl) ⟨rfl, by simp, id, by simp⟩
        simp [unsent, hwriter, Writer.inflight, Event.submittedData]
    | finish =>
        cases h
        exact .closes rfl rfl halive (.inl rfl)

theorem proceed_step (hsound : transfer.Sound)
    (h : transfer.proceed = some (event, transfer')) :
    WriterStep transfer event transfer' := by
  cases hwriter : transfer.writer with
  | flushing caller => exact flushing_step hwriter h
  | flushReady caller => exact flushReady_step hsound hwriter h
  | sending send => exact sending_step hsound hwriter h
  | sendReady send => exact sendReady_step hsound hwriter h
  | sendFlushing send => exact sendFlushing_step hsound hwriter h
  | waiting | writing | returned | dropped => simp [proceed, hwriter] at h

/-! ### The calls of the body -/

theorem awaitPolled_step (hwriter : transfer.writer = .waiting)
    (h : transfer.awaitPolled = some (event, transfer')) :
    WriterStep transfer event transfer' := by
  have hphase : transfer.writer.phase = .writing := by rw [hwriter]; rfl
  simp only [awaitPolled] at h
  split at h
  · cases h
  · cases h
    refine .in_place (sound_of_not id id) rfl rfl hphase.symm
      (by simp [hphase]) ?_ (fun _ => rfl) ⟨rfl, by simp, id, by simp⟩
    simp [unsent, hwriter, Writer.inflight, Event.submittedData]
  · cases h
    exact .closes rfl rfl (by simp [hphase]) (.inl rfl)

theorem pollWrite_step {data : Bytes} (hwriter : transfer.writer = .writing)
    (h : transfer.pollWrite data = (event, transfer')) :
    WriterStep transfer event transfer' := by
  have hphase : transfer.writer.phase = .writing := by rw [hwriter]; rfl
  unfold pollWrite at h
  split at h
  · cases h
    refine .in_place (sound_of_not id id) rfl rfl hphase.symm
      (by simp [hphase]) ?_ (fun _ => rfl) ⟨rfl, by simp, id, by simp⟩
    simp [unsent, hwriter, Writer.inflight, Flush.data, Event.submittedData]
  · cases h
    refine .in_place (sound_of_not id id) rfl rfl hphase.symm
      (by simp [hphase]) ?_ (by simp [hphase]) ⟨rfl, by simp, id, by simp⟩
    simp [unsent, hwriter, Writer.inflight, Event.submittedData]

theorem startFlush_step {caller : Flush} (hwriter : transfer.writer = .writing)
    (hcaller : caller.phase = .writing)
    (hdata : event.submittedData = caller.data) (hquiet : event.IsQuiet) :
    WriterStep transfer event
      { transfer with writer := .flushing caller } := by
  have hphase : transfer.writer.phase = .writing := by rw [hwriter]; rfl
  refine .in_place (sound_of_not id id) rfl rfl (hcaller.trans hphase.symm)
    (by simp [hphase]) ?_ (by simp [hphase]) hquiet
  simp [unsent, hwriter, Writer.inflight, hdata]

theorem writeBodyReturns_step {result : Except Error Unit}
    (hwriter : transfer.writer = .writing)
    (h : transfer.writeBodyReturns result = (event, transfer')) :
    WriterStep transfer event transfer' := by
  have hphase : transfer.writer.phase = .writing := by rw [hwriter]; rfl
  cases result with
  | ok _ =>
      cases h
      refine ⟨sound_of_not id id, ⟨rfl, rfl, rfl, by simp⟩,
        .works [] (fun _ => ⟨by simp, ?_⟩) rfl (.inr ⟨hphase, rfl, rfl⟩)
          (by simp [hphase]) (fun _ => ⟨rfl, rfl⟩)
          ⟨rfl, by simp, id, by simp⟩⟩
      simp [unsent, hwriter, Writer.inflight, Flush.data, Send.data,
        Event.submittedData]
  | error error =>
      cases h
      exact .closes rfl rfl (by simp [hphase]) (.inr rfl)

/-- The operations of the task that runs `Writer::write`. -/
def Op.IsWriter : Op → Prop
  | .firstPoll | .pollFrame | .hangUp => False
  | _ => True

theorem writer_step (hsound : transfer.Sound) {op : Op} (hop : op.IsWriter)
    (h : transfer.next op = some (event, transfer')) :
    WriterStep transfer event transfer' := by
  cases op with
  | firstPoll | pollFrame | hangUp => exact hop.elim
  | awaitPolled =>
      rw [next, Option.ite_none_right_eq_some] at h
      exact awaitPolled_step h.1 h.2
  | pollWrite data =>
      rw [next, Option.ite_none_right_eq_some] at h
      exact pollWrite_step h.1 (Option.some.inj h.2)
  | pollFlush =>
      rw [next, Option.ite_none_right_eq_some] at h
      obtain ⟨hwriter, h⟩ := h
      cases h
      exact startFlush_step hwriter rfl rfl ⟨rfl, by simp, id, by simp⟩
  | writeBytes data =>
      rw [next, Option.ite_none_right_eq_some] at h
      obtain ⟨hwriter, h⟩ := h
      cases h
      exact startFlush_step hwriter rfl rfl ⟨rfl, by simp, id, by simp⟩
  | writeBodyReturns result =>
      rw [next, Option.ite_none_right_eq_some] at h
      exact writeBodyReturns_step h.1 (Option.some.inj h.2)
  | proceed => exact proceed_step hsound h
  | dropWriter =>
      simp only [next] at h
      split at h
      · cases h
      · cases h
      · rename_i hreturned hdropped
        cases h
        exact ⟨sound_of_not id id, ⟨rfl, rfl, rfl, by simp⟩,
          .leaves rfl rfl (Writer.phase_ne_gone hreturned hdropped) rfl rfl
            (by simp)⟩

end Transfer

end ConjureRuntime.Service
