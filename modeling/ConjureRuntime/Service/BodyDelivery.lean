import ConjureRuntime.Foundation.Transition
import ConjureRuntime.Service.BodyWriter

/-!
# Delivery of streamed bodies

What the HTTP client has received is followed by what is in the channel, in
the buffer, and in the call under way; together these are the bytes that were
submitted.  The end of the body is one more element of the same queue, so it
arrives after all of them or not at all.
-/

namespace ConjureRuntime.Service.Transfer

open ConjureRuntime.Foundation

variable {events : List Event} {event : Event} {transfer transfer' : Transfer}
  {frames : List Bytes}

/-- While the body is being received, the channel holds the frames that are
next, and the end of the body after them once it is sent. -/
structure Live (events : List Event) (transfer : Transfer)
    (frames : List Bytes) : Prop where
  attached : transfer.channel.receiverDropped = false
  first : ∀ result, .ended result ∉ events
  queue : transfer.channel.queue =
    frames.map .frame ++ if .doneSent ∈ events then [.done] else []
  ordered : received events ++ frames.flatten <+: submitted events
  unsent : transfer.writer.phase ≠ .gone →
    submitted events = received events ++ frames.flatten ++ transfer.unsent
  done : .doneSent ∈ events →
    submitted events = received events ++ frames.flatten

structure Invariant (events : List Event) (transfer : Transfer) : Prop where
  sound : transfer.Sound
  ordered : received events <+: submitted events
  gone : transfer.writer.phase = .gone ↔
    transfer.channel.senderDropped = true
  failed : (∃ event ∈ events, event.IsFailure) →
    transfer.writer.phase = .gone
  finishing : transfer.writer.phase = .finishing →
    .writeBodyReturned (.ok ()) ∈ events
  done : .doneSent ∈ events → .writeBodyReturned (.ok ()) ∈ events ∧
    (transfer.writer.phase = .done ∨ transfer.writer.phase = .gone)
  doneSent : transfer.writer.phase = .done → .doneSent ∈ events
  streaming : ∀ frame, transfer.body ≠ some (.single frame)
  empty : transfer.body = some .empty → ∃ result, .ended result ∈ events
  live : ∀ polled, transfer.body = some (.stream polled) →
    ∃ frames, Live events transfer frames

theorem new_invariant : Invariant [] new where
  sound := ⟨fun h => h.elim, fun h => h.elim⟩
  ordered := List.nil_prefix
  gone := by simp [new, Writer.phase, Channel.new]
  failed := by simp
  finishing := by simp [new, Writer.phase]
  done := by simp
  doneSent := by simp [new, Writer.phase]
  streaming := by simp [new]
  empty := by simp [new]
  live := by
    intro polled _
    refine ⟨[], rfl, by simp, rfl, List.nil_prefix, ?_, by simp⟩
    intro _
    simp [new, submitted, received, unsent, Writer.inflight]

/-! ## Steps of the writer -/

theorem Live.of_writer (live : Live events transfer frames)
    (inv : Invariant events transfer)
    (aside : Aside transfer transfer' event)
    (effect : WriterEffect transfer event transfer') :
    ∃ frames, Live (events ++ [event]) transfer' frames := by
  have hattached := aside.receiver.trans live.attached
  have hfirst : ∀ result, .ended result ∉ events ++ [event] := by
    intro result hmem
    rcases List.mem_append.mp hmem with hmem | hmem
    · exact live.first result hmem
    · exact aside.ended result (List.mem_singleton.mp hmem).symm
  have hreceived : received (events ++ [event]) = received events := by
    simp [aside.receivedData]
  cases effect with
  | works sent hqueue hsender hstays halive hdone hquiet =>
      obtain ⟨hqueue, hbytes⟩ := hqueue live.attached
      have hsubmitted : submitted (events ++ [event]) =
          received events ++ (frames ++ sent).flatten ++ transfer'.unsent := by
        rw [submitted_append, live.unsent halive, List.flatten_append]
        simp only [List.append_assoc]
        rw [hbytes]
      have hlast : .doneSent ∈ events → sent = [] ∧ event.submittedData = [] :=
        fun h => hdone ((inv.done h).2.resolve_right halive)
      have hdoneSent :
          .doneSent ∈ events ++ [event] ↔ .doneSent ∈ events := by
        simp [hquiet.done.symm]
      refine ⟨frames ++ sent, hattached, hfirst, ?_, ?_, fun _ => ?_, ?_⟩
      · rw [hqueue, live.queue]
        by_cases h : .doneSent ∈ events
        · simp [h, (hlast h).1]
        · simp [h, hquiet.done.symm]
      · rw [hreceived, hsubmitted]
        exact List.prefix_append _ _
      · rw [hreceived, hsubmitted]
      · intro h
        have h := hdoneSent.mp h
        rw [hreceived, submitted_append, (hlast h).2, (hlast h).1,
          List.append_nil, List.append_nil]
        exact live.done h
  | finishes hqueue hsender hbefore hafter hunsent hdone =>
      subst hdone
      have hnot : .doneSent ∉ events := by
        intro h
        rcases (inv.done h).2 with hphase | hphase <;>
          rw [hbefore] at hphase <;> cases hphase
      have hsubmitted : submitted (events ++ [.doneSent]) =
          received events ++ frames.flatten := by
        rw [submitted_append, live.unsent (by simp [hbefore]), hunsent.1]
        simp [Event.submittedData]
      refine ⟨frames, hattached, hfirst, ?_, ?_, fun _ => ?_, fun _ => ?_⟩
      · simp [hqueue, live.queue, hnot]
      · have hall : received (events ++ [.doneSent]) ++ frames.flatten =
            submitted (events ++ [.doneSent]) := by
          rw [hreceived, hsubmitted]
        exact ⟨[], by rw [List.append_nil, hall]⟩
      · rw [hreceived, hsubmitted, hunsent.2, List.append_nil]
      · rw [hreceived, hsubmitted]
  | leaves hqueue hsender halive hafter hsubmitted hquiet =>
      have hsame : submitted (events ++ [event]) = submitted events := by
        simp [hsubmitted]
      refine ⟨frames, hattached, hfirst, ?_, ?_, fun h => absurd hafter h, ?_⟩
      · simp [hqueue, live.queue, hquiet.symm]
      · rw [hreceived, hsame]
        exact live.ordered
      · intro h
        rw [hreceived, hsame]
        exact live.done (by simpa [hquiet.symm] using h)

theorem Invariant.of_writer (inv : Invariant events transfer)
    (step : WriterStep transfer event transfer') :
    Invariant (events ++ [event]) transfer' := by
  obtain ⟨hsound, aside, effect⟩ := step
  have hordered :
      received (events ++ [event]) <+: submitted (events ++ [event]) := by
    rw [received_append, aside.receivedData, List.append_nil,
      submitted_append]
    exact inv.ordered.trans (List.prefix_append _ _)
  have hlive : ∀ polled, transfer'.body = some (.stream polled) →
      ∃ frames, Live (events ++ [event]) transfer' frames := by
    intro polled hbody
    obtain ⟨frames, live⟩ := inv.live polled (aside.body.symm.trans hbody)
    exact live.of_writer inv aside effect
  have hstreaming : ∀ frame, transfer'.body ≠ some (.single frame) := by
    rw [aside.body]
    exact inv.streaming
  have hempty : transfer'.body = some .empty →
      ∃ result, .ended result ∈ events ++ [event] := by
    rw [aside.body]
    intro hbody
    obtain ⟨result, hmem⟩ := inv.empty hbody
    exact ⟨result, List.mem_append_left _ hmem⟩
  have hbefore : transfer.writer.phase ≠ .gone →
      ∀ event ∈ events, ¬ event.IsFailure := by
    intro halive event hmem hfailure
    exact halive (inv.failed ⟨event, hmem, hfailure⟩)
  cases effect with
  | works sent hqueue hsender hstays halive hdone hquiet =>
      have halive' : transfer'.writer.phase ≠ .gone := by
        rcases hstays with hphase | ⟨-, hphase, -⟩
        · rwa [hphase]
        · simp [hphase]
      refine ⟨hsound, hordered, ?_, ?_, ?_, ?_, ?_, hstreaming, hempty,
        hlive⟩
      · rw [hsender, ← inv.gone]
        simp [halive, halive']
      · rintro ⟨failure, hmem, hfailure⟩
        rcases List.mem_append.mp hmem with hmem | hmem
        · exact absurd hfailure (hbefore halive failure hmem)
        · rw [List.mem_singleton.mp hmem] at hfailure
          exact absurd hfailure hquiet.failure
      · intro hfinishing
        rcases hstays with hphase | ⟨-, -, rfl⟩
        · exact List.mem_append_left _
            (inv.finishing (hphase.symm.trans hfinishing))
        · simp
      · intro h
        have h : .doneSent ∈ events := by
          simpa [hquiet.done.symm] using h
        obtain ⟨hreturned, hphase⟩ := inv.done h
        have hphase := hphase.resolve_right halive
        refine ⟨List.mem_append_left _ hreturned, .inl ?_⟩
        rcases hstays with hsame | ⟨hwriting, -⟩
        · rw [hsame, hphase]
        · rw [hphase] at hwriting
          cases hwriting
      · intro hphase
        rcases hstays with hsame | ⟨-, hfinishing, -⟩
        · exact List.mem_append_left _
            (inv.doneSent (hsame.symm.trans hphase))
        · rw [hphase] at hfinishing
          cases hfinishing
  | finishes hqueue hsender hphase hafter hunsent hdone =>
      subst hdone
      have halive : transfer.writer.phase ≠ .gone := by simp [hphase]
      refine ⟨hsound, hordered, ?_, ?_, ?_, ?_, ?_, hstreaming, hempty,
        hlive⟩
      · rw [hsender, ← inv.gone, hphase, hafter]
        simp
      · rintro ⟨failure, hmem, hfailure⟩
        rcases List.mem_append.mp hmem with hmem | hmem
        · exact absurd hfailure (hbefore halive failure hmem)
        · rw [List.mem_singleton.mp hmem] at hfailure
          exact hfailure.elim
      · intro hfinishing
        rw [hafter] at hfinishing
        cases hfinishing
      · intro _
        exact ⟨List.mem_append_left _ (inv.finishing hphase), .inl hafter⟩
      · intro _
        simp
  | leaves hqueue hsender halive hafter hsubmitted hquiet =>
      refine ⟨hsound, hordered, ?_, fun _ => hafter, ?_, ?_, ?_, hstreaming,
        hempty, hlive⟩
      · simp [hafter, hsender]
      · intro hfinishing
        rw [hafter] at hfinishing
        cases hfinishing
      · intro h
        have h : .doneSent ∈ events := by simpa [hquiet.symm] using h
        exact ⟨List.mem_append_left _ (inv.done h).1, .inr hafter⟩
      · intro hphase
        rw [hafter] at hphase
        cases hphase

/-! ## Steps of the HTTP client -/

structure Event.IsClient (event : Event) : Prop where
  submittedData : event.submittedData = []
  failure : ¬ event.IsFailure
  done : event ≠ .doneSent

theorem frameEvent_isClient
    (frame : Poll (Option (Except RequestBodyError Bytes))) :
    (frameEvent frame).IsClient := by
  rcases frame with _ | _ | _ | _ <;>
    exact ⟨rfl, id, by simp [frameEvent]⟩

theorem Invariant.of_client (inv : Invariant events transfer)
    (hevent : event.IsClient) (hwriter : transfer'.writer = transfer.writer)
    (hbuf : transfer'.buf = transfer.buf)
    (hsender : transfer'.channel.senderDropped =
      transfer.channel.senderDropped)
    (hroom : transfer'.channel.receiverDropped = false →
      transfer.channel.receiverDropped = false ∧
      transfer'.channel.queue.length ≤ transfer.channel.queue.length ∧
      transfer'.channel.buffer = transfer.channel.buffer)
    (hordered : received (events ++ [event]) <+: submitted events)
    (hstreaming : ∀ frame, transfer'.body ≠ some (.single frame))
    (hempty : transfer'.body = some .empty →
      ∃ result, .ended result ∈ events ++ [event])
    (hlive : ∀ polled, transfer'.body = some (.stream polled) →
      ∃ frames, Live (events ++ [event]) transfer' frames) :
    Invariant (events ++ [event]) transfer' where
  sound := by
    refine ⟨?_, ?_⟩
    · rw [hwriter, hbuf]
      exact inv.sound.flushed
    · rw [hwriter]
      intro hready hopen
      obtain ⟨hopen, hlength, hbuffer⟩ := hroom hopen
      have := inv.sound.ready hready hopen
      omega
  ordered := by
    rw [submitted_append, hevent.submittedData, List.append_nil]
    exact hordered
  gone := by rw [hwriter, hsender, inv.gone]
  failed := by
    rintro ⟨failure, hmem, hfailure⟩
    rw [hwriter]
    rcases List.mem_append.mp hmem with hmem | hmem
    · exact inv.failed ⟨failure, hmem, hfailure⟩
    · rw [List.mem_singleton.mp hmem] at hfailure
      exact absurd hfailure hevent.failure
  finishing := by
    rw [hwriter]
    exact fun h => List.mem_append_left _ (inv.finishing h)
  done := by
    intro h
    have h : .doneSent ∈ events := by simpa [hevent.done.symm] using h
    rw [hwriter]
    exact ⟨List.mem_append_left _ (inv.done h).1, (inv.done h).2⟩
  doneSent := by
    rw [hwriter]
    exact fun h => List.mem_append_left _ (inv.doneSent h)
  streaming := hstreaming
  empty := hempty
  live := hlive

theorem Live.of_client {rest : List Bytes} (live : Live events transfer frames)
    (hevent : event.IsClient) (hended : ∀ result, event ≠ .ended result)
    (hwriter : transfer'.writer = transfer.writer)
    (hbuf : transfer'.buf = transfer.buf)
    (hreceiver : transfer'.channel.receiverDropped =
      transfer.channel.receiverDropped)
    (hqueue : transfer'.channel.queue =
      rest.map .frame ++ if .doneSent ∈ events then [.done] else [])
    (hframes : frames.flatten = event.receivedData ++ rest.flatten) :
    Live (events ++ [event]) transfer' rest := by
  have hsubmitted : submitted (events ++ [event]) = submitted events := by
    simp [hevent.submittedData]
  have hreceived : received (events ++ [event]) ++ rest.flatten =
      received events ++ frames.flatten := by
    simp [hframes]
  have hdone : .doneSent ∈ events ++ [event] ↔ .doneSent ∈ events := by
    simp [hevent.done.symm]
  refine ⟨hreceiver.trans live.attached, ?_, ?_, ?_, ?_, ?_⟩
  · intro result hmem
    rcases List.mem_append.mp hmem with hmem | hmem
    · exact live.first result hmem
    · exact hended result (List.mem_singleton.mp hmem).symm
  · simp only [hdone]
    exact hqueue
  · rw [hreceived, hsubmitted]
    exact live.ordered
  · intro halive
    rw [hreceived, hsubmitted, live.unsent (by rwa [← hwriter])]
    simp [Transfer.unsent, hwriter, hbuf]
  · intro h
    rw [hreceived, hsubmitted]
    exact live.done (hdone.mp h)

theorem firstPoll_invariant (inv : Invariant events transfer)
    (h : transfer.firstPoll = some (event, transfer')) :
    Invariant (events ++ [event]) transfer' := by
  simp only [firstPoll] at h
  split at h
  · rename_i hbody
    cases h
    have hevent : Event.polled.IsClient := ⟨rfl, id, by simp⟩
    refine inv.of_client hevent rfl rfl rfl
      (fun h => ⟨h, Nat.le_refl _, rfl⟩) ?_
      (by simp) (by simp) ?_
    · simpa [Event.receivedData] using inv.ordered
    · intro polled _
      obtain ⟨frames, live⟩ := inv.live true hbody
      exact ⟨frames, live.of_client hevent (by simp) rfl rfl rfl live.queue
        rfl⟩
  · cases h

theorem hangUp_invariant (inv : Invariant events transfer)
    (h : transfer.hangUp = some (event, transfer')) :
    Invariant (events ++ [event]) transfer' := by
  have hordered : received (events ++ [.hungUp]) <+: submitted events := by
    simpa [Event.receivedData] using inv.ordered
  have hevent : Event.hungUp.IsClient := ⟨rfl, id, by simp⟩
  simp only [hangUp] at h
  split at h
  · cases h
    exact inv.of_client hevent rfl rfl rfl (by simp) hordered (by simp)
      (by simp) (by simp)
  · cases h
    exact inv.of_client hevent rfl rfl rfl (fun h => ⟨h, Nat.le_refl _, rfl⟩)
      hordered (by simp) (by simp) (by simp)
  · cases h

/-! ## The answers of `poll_frame` -/

theorem pollFrame_cases (live : Live events transfer frames)
    (hbody : transfer.body = some (.stream false))
    (h : transfer.pollFrame = some (event, transfer')) :
    (∃ frame rest channel, frames = frame :: rest ∧
      event = .received frame ∧
      transfer' = { transfer with channel := channel } ∧
      channel.queue = rest.map .frame ++
        (if .doneSent ∈ events then [.done] else []) ∧
      channel.buffer = transfer.channel.buffer ∧
      channel.senderDropped = transfer.channel.senderDropped ∧
      channel.receiverDropped = transfer.channel.receiverDropped) ∨
    (frames = [] ∧ ∃ result channel, event = .ended result ∧
      transfer' =
        { transfer with channel := channel, body := some .empty } ∧
      channel.senderDropped = transfer.channel.senderDropped ∧
      channel.receiverDropped = true ∧
      (result = .ok () ↔ .doneSent ∈ events) ∧
      (.doneSent ∈ events ∨ transfer.channel.senderDropped = true)) ∨
    (event = .pendingFrame ∧ transfer' = transfer ∧
      transfer.channel.senderDropped = false) := by
  simp only [pollFrame, hbody] at h
  rcases transfer.channel.pollNext_cases with
    ⟨item, rest, hitem, channel, hnext, hrest, hbuffer, hsender, hreceiver⟩ |
    ⟨hempty, hnext⟩
  · have hqueue := live.queue
    rw [hitem] at hqueue
    cases frames with
    | cons frame frames =>
        obtain ⟨rfl, rfl⟩ := List.cons.inj hqueue
        simp only [hnext, RawRequestBody.pollFrame] at h
        cases h
        exact .inl ⟨frame, frames, channel, rfl, rfl, by simp [← hbody],
          hrest, hbuffer, hsender, hreceiver⟩
    | nil =>
        by_cases hdone : .doneSent ∈ events
        · simp only [hdone, if_true] at hqueue
          obtain ⟨rfl, rfl⟩ := List.cons.inj hqueue
          simp only [hnext, RawRequestBody.pollFrame] at h
          cases h
          exact .inr (.inl ⟨rfl, .ok (), channel.dropReceiver, rfl, by simp,
            hsender, rfl, by simp [hdone], .inl hdone⟩)
        · simp [hdone] at hqueue
  · have hqueue := live.queue
    rw [hempty] at hqueue
    have hframes : frames = [] := by
      cases frames with
      | nil => rfl
      | cons frame frames => cases hqueue
    have hdone : .doneSent ∉ events := by
      intro hdone
      simp [hframes, hdone] at hqueue
    by_cases hsender : transfer.channel.senderDropped
    · simp only [hnext, hsender, if_true, RawRequestBody.pollFrame] at h
      cases h
      exact .inr (.inl ⟨hframes, .error ⟨⟩, transfer.channel.dropReceiver, rfl,
        by simp, rfl, rfl, by simp [hdone], .inr hsender⟩)
    · simp only [hnext, hsender, RawRequestBody.pollFrame] at h
      cases h
      exact .inr (.inr ⟨rfl, by simp [← hbody], by simpa using hsender⟩)

theorem pollFrame_empty (hbody : transfer.body = some .empty)
    (h : transfer.pollFrame = some (event, transfer')) :
    event = .ended (.ok ()) ∧ transfer' = transfer := by
  simp only [pollFrame, hbody, RawRequestBody.pollFrame] at h
  cases h
  exact ⟨rfl, by simp [← hbody]⟩

theorem pollFrame_invariant (inv : Invariant events transfer)
    (h : transfer.pollFrame = some (event, transfer')) :
    Invariant (events ++ [event]) transfer' := by
  rcases hbody : transfer.body with _ | _ | frame | _ | _
  · simp [pollFrame, hbody] at h
  · obtain ⟨rfl, rfl⟩ := pollFrame_empty hbody h
    refine inv.of_client (frameEvent_isClient (.ready none)) rfl rfl rfl
      (fun h => ⟨h, Nat.le_refl _, rfl⟩) ?_ inv.streaming
      (fun _ => ⟨.ok (), by simp⟩) (by simp [hbody])
    simpa [Event.receivedData, frameEvent] using inv.ordered
  · exact absurd hbody (inv.streaming frame)
  · obtain ⟨frames, live⟩ := inv.live false hbody
    rcases pollFrame_cases live hbody h with
      ⟨frame, rest, channel, rfl, rfl, rfl, hqueue, hbuffer, hsender,
        hreceiver⟩ |
      ⟨rfl, result, channel, rfl, rfl, hsender, hreceiver, -⟩ | ⟨rfl, rfl, -⟩
    · have hevent := frameEvent_isClient (.ready (some (.ok frame)))
      have live' := @Live.of_client _ _ _
        { transfer with channel := channel } _ rest live hevent
        (by simp [frameEvent]) rfl rfl hreceiver hqueue
        (by simp [frameEvent, Event.receivedData])
      refine inv.of_client hevent rfl rfl hsender (fun h => ⟨?_, ?_, hbuffer⟩)
        ?_ inv.streaming ?_ (fun _ _ => ⟨rest, live'⟩)
      · rw [← hreceiver]
        exact h
      · simp [hqueue, live.queue]
      · have hordered := live'.ordered
        rw [submitted_append, hevent.submittedData, List.append_nil]
          at hordered
        exact (List.prefix_append _ _).trans hordered
      · simp [hbody]
    · have hevent : (Event.ended result).IsClient := ⟨rfl, id, by simp⟩
      refine inv.of_client hevent rfl rfl hsender (by simp [hreceiver]) ?_
        (by simp) (fun _ => ⟨result, by simp⟩) (by simp)
      simpa [Event.receivedData] using inv.ordered
    · have hevent := frameEvent_isClient .pending
      refine inv.of_client hevent rfl rfl rfl (fun h => ⟨h, Nat.le_refl _, rfl⟩)
        ?_ inv.streaming (by simp [hbody]) ?_
      · simpa [Event.receivedData, frameEvent] using inv.ordered
      · exact fun _ _ => ⟨frames, live.of_client hevent (by simp) rfl rfl
          rfl live.queue rfl⟩
  · simp [pollFrame, hbody] at h

/-! ## Runs -/

theorem step_invariant (inv : Invariant events transfer)
    (h : Step transfer event transfer') :
    Invariant (events ++ [event]) transfer' := by
  obtain ⟨op, h⟩ := h
  cases op with
  | firstPoll => exact firstPoll_invariant inv h
  | pollFrame => exact pollFrame_invariant inv h
  | hangUp => exact hangUp_invariant inv h
  | awaitPolled | pollWrite | pollFlush | writeBytes | writeBodyReturns
  | proceed | dropWriter =>
      exact inv.of_writer (writer_step inv.sound (by trivial) h)

theorem run_invariant (run : Run Step new events transfer) :
    Invariant events transfer :=
  run.invariant Invariant new_invariant step_invariant

theorem client_event {op : Op} (hop : ¬ op.IsWriter)
    (h : transfer.next op = some (event, transfer')) : event.IsClient := by
  cases op with
  | firstPoll =>
      simp only [next, firstPoll] at h
      split at h <;> cases h
      exact ⟨rfl, id, by simp⟩
  | pollFrame =>
      simp only [next, pollFrame] at h
      split at h <;> cases h <;> exact frameEvent_isClient _
  | hangUp =>
      simp only [next, hangUp] at h
      split at h <;> cases h <;> exact ⟨rfl, id, by simp⟩
  | awaitPolled | pollWrite | pollFlush | writeBytes | writeBodyReturns
  | proceed | dropWriter => exact absurd trivial hop

theorem alive_of_doneSent (inv : Invariant events transfer)
    (h : Step transfer .doneSent transfer') :
    transfer.writer.phase ≠ .gone := by
  obtain ⟨op, h⟩ := h
  by_cases hop : op.IsWriter
  · obtain ⟨-, -, effect⟩ := writer_step inv.sound hop h
    cases effect with
    | works _ _ _ _ halive => exact halive
    | finishes _ _ hphase => simp [hphase]
    | leaves _ _ halive => exact halive
  · exact absurd rfl (client_event hop h).done

theorem submittedData_after_done (inv : Invariant events transfer)
    (hdone : .doneSent ∈ events) (h : Step transfer event transfer') :
    event.submittedData = [] := by
  obtain ⟨op, h⟩ := h
  by_cases hop : op.IsWriter
  · obtain ⟨-, -, effect⟩ := writer_step inv.sound hop h
    have hphase := (inv.done hdone).2
    cases effect with
    | works _ _ _ _ halive hlast =>
        exact (hlast (hphase.resolve_right halive)).2
    | finishes _ _ hbefore => simp [hbefore] at hphase
    | leaves _ _ _ _ hsubmitted => exact hsubmitted
  · exact (client_event hop h).submittedData

theorem ended_spec (inv : Invariant events transfer)
    (hfirst : ∀ result, .ended result ∉ events)
    {result : Except RequestBodyError Unit}
    (h : Step transfer (.ended result) transfer') :
    (result = .ok () ↔ .doneSent ∈ events) ∧
      (.doneSent ∈ events → received events = submitted events) := by
  obtain ⟨op, h⟩ := h
  by_cases hop : op.IsWriter
  · obtain ⟨-, aside, -⟩ := writer_step inv.sound hop h
    exact absurd rfl (aside.ended result)
  · cases op with
    | firstPoll =>
        simp only [next, firstPoll] at h
        split at h <;> cases h
    | hangUp =>
        simp only [next, hangUp] at h
        split at h <;> cases h
    | pollFrame =>
        rcases hbody : transfer.body with _ | _ | frame | _ | _
        · simp [next, pollFrame, hbody] at h
        · obtain ⟨result, hmem⟩ := inv.empty hbody
          exact absurd hmem (hfirst result)
        · exact absurd hbody (inv.streaming frame)
        · obtain ⟨frames, live⟩ := inv.live false hbody
          rcases pollFrame_cases live hbody h with
            ⟨frame, rest, channel, -, hevent, -⟩ |
            ⟨rfl, result', channel, hevent, -, -, -, hclean, -⟩ | ⟨hevent, -⟩
          · cases hevent
          · cases hevent
            refine ⟨hclean, fun hdone => ?_⟩
            simpa using (live.done hdone).symm
          · cases hevent
        · simp [next, pollFrame, hbody] at h
    | awaitPolled | pollWrite | pollFlush | writeBytes | writeBodyReturns
    | proceed | dropWriter => exact absurd trivial hop

theorem submitted_after_done {later : List Event} {last : Transfer}
    (inv : Invariant events transfer) (hdone : .doneSent ∈ events)
    (run : Run Step transfer later last) : submitted later = [] := by
  have h := run.invariant
    (fun later last => Invariant (events ++ later) last ∧ submitted later = [])
    ⟨by simpa using inv, rfl⟩ ?_
  · exact h.2
  · rintro later mid event last ⟨inv, hsubmitted⟩ hstep
    have hnone := submittedData_after_done inv
      (List.mem_append_left _ hdone) hstep
    refine ⟨by simpa using step_invariant inv hstep, ?_⟩
    rw [submitted_append, hsubmitted, hnone, List.append_nil]

def FailedBeforeDone (events : List Event) : Prop :=
  ∃ before failure after, events = before ++ failure :: after ∧
    failure.IsFailure ∧ .doneSent ∉ before

theorem not_doneSent_of_failed (run : Run Step new events transfer)
    (h : FailedBeforeDone events) : .doneSent ∉ events := by
  obtain ⟨before, failure, after, rfl, hfailure, hbefore⟩ := h
  obtain ⟨mid, first, rest⟩ :=
    @Run.split _ _ _ _ _ (before ++ [failure]) after (by simpa using run)
  intro hdone
  have hafter : .doneSent ∈ after := by
    rcases List.mem_append.mp hdone with h | h
    · exact absurd h hbefore
    · rcases List.mem_cons.mp h with rfl | h
      · exact hfailure.elim
      · exact h
  obtain ⟨between, last, rfl⟩ := List.append_of_mem hafter
  obtain ⟨here, second, rest⟩ := rest.split
  obtain ⟨there, hstep, -⟩ := rest.head_step
  have inv := run_invariant (first.trans second)
  exact alive_of_doneSent inv hstep (inv.failed ⟨failure, by simp, hfailure⟩)

/-- The HTTP client receives a prefix of what was submitted; its first end is
clean only after a body that returned successfully and was delivered as a
whole, and it is an error if the writer failed before. -/
theorem delivered_exactly_or_fails (run : Run Step new events transfer) :
    received events <+: submitted events ∧
    ∀ before result after, events = before ++ .ended result :: after →
      (∀ result, .ended result ∉ before) →
      (result = .ok () → .writeBodyReturned (.ok ()) ∈ before ∧
        received before = submitted events) ∧
      (FailedBeforeDone events → result = .error ⟨⟩) := by
  refine ⟨(run_invariant run).ordered, ?_⟩
  rintro before result after rfl hfirst
  obtain ⟨mid, first, rest⟩ := run.split
  obtain ⟨last, hstep, second⟩ := rest.head_step
  have inv := run_invariant first
  obtain ⟨hclean, hall⟩ := ended_spec inv hfirst hstep
  refine ⟨fun hok => ?_, fun hfailed => ?_⟩
  · have hdone := hclean.mp hok
    have hlater : submitted (.ended result :: after) = [] :=
      submitted_after_done inv hdone rest
    refine ⟨(inv.done hdone).1, ?_⟩
    rw [hall hdone]
    simp only [submitted, List.flatMap_append] at hlater ⊢
    rw [hlater, List.append_nil]
  · cases result with
    | error error => rfl
    | ok _ =>
        have hdone : .doneSent ∉ before ++ .ended (.ok ()) :: after :=
          not_doneSent_of_failed run hfailed
        exact absurd (List.mem_append_left _ (hclean.mp rfl)) hdone

def shortBody : List Event :=
  [.polled, .writeBody, .pollWrite [104, 105] (.ready (.ok 2)),
    .writeBodyReturned (.ok ()), .proceeded, .proceeded, .proceeded, .doneSent,
    .received [104, 105], .returned (.ok ())]

theorem short_body_delivered :
    ∃ transfer, Run Step new (shortBody ++ [.ended (.ok ())]) transfer ∧
      received shortBody <+: submitted shortBody ∧
      received shortBody = [104, 105] := by
  have run : ∃ transfer,
      Run Step new (shortBody ++ [.ended (.ok ())]) transfer :=
    ⟨_, @exec_run _ _ _ next Step (fun h => ⟨_, h⟩)
      [.firstPoll, .awaitPolled, .pollWrite [104, 105],
        .writeBodyReturns (.ok ()), .proceed, .proceed, .proceed, .proceed,
        .pollFrame, .proceed, .pollFrame] _ _ _ rfl⟩
  obtain ⟨transfer, run⟩ := run
  obtain ⟨hordered, hended⟩ := delivered_exactly_or_fails run
  refine ⟨transfer, run, hordered, ?_⟩
  exact ((hended shortBody (.ok ()) [] rfl (by simp [shortBody])).1 rfl).2

end ConjureRuntime.Service.Transfer
