import ConjureRuntime.Blocking.ShimEnds

/-!
# What the shim passes on

The body is called for the requests in the order in which they entered the
channel, for one at a time.  Each call of the shim ends with what the body has
returned in the call that was made for it, or fails.
-/

namespace ConjureRuntime.Blocking

open ConjureRuntime.Foundation ConjureRuntime.Service

theorem Reset.new_holds (gone : Prop) : Reset.new.Holds gone where
  unanswered _ := rfl
  answering a h := by cases h
  sent a h := by cases h
  left h := by cases h
  canceled h := by cases h
  returned a h := by cases h

namespace System

variable {system system' : System} {event : Event}

/-! ## Steps of the shim -/

theorem Invariant.of_calls (h : system.Invariant)
    (calls : CallsOnly system system')
    (resets : system'.ResetsHold (system.streamer = .gone)) :
    system'.Invariant :=
  h.of_moves calls.grows calls.moves (by rw [calls.streamer]; exact resets)

theorem Invariant.callWrite (h : system.Invariant) :
    { system with
      writes := system.writes ++ [WriteBody.new]
      shim := .sending (.write system.writes.length) }.Invariant := by
  refine h.of_calls ⟨⟨by simp, fun {call write} hwrite => ?_,
    fun h hgone => ⟨_, h, hgone⟩⟩, rfl, rfl, rfl, rfl⟩ h.resets
  rcases getElem?_append_singleton_cases hwrite with hbefore | ⟨rfl, rfl⟩
  · exact run_unchanged hbefore
  · have hnone : system.writes[system.writes.length]? = none :=
      List.getElem?_eq_none_iff.mpr (Nat.le_refl _)
    exact ⟨[], by rw [hnone]; exact .refl⟩

theorem Invariant.callReset (h : system.Invariant) :
    { system with
      resets := system.resets ++ [Reset.new]
      shim := .sending (.reset system.resets.length) }.Invariant := by
  refine h.of_calls ⟨⟨Nat.le_refl _, run_unchanged,
    fun {call reset} hreset hgone => ⟨reset, ?_, hgone⟩⟩, rfl, rfl, rfl, rfl⟩
    fun call reset hreset => ?_
  · have hlt := (List.getElem?_eq_some_iff.mp hreset).1
    simp only [List.getElem?_append_left hlt, hreset]
  · rcases getElem?_append_singleton_cases hreset with hbefore | ⟨-, rfl⟩
    · exact h.resets hbefore
    · exact Reset.new_holds _

theorem Invariant.sendRequest (h : system.Invariant) {request : ShimRequest}
    (hsend : system.sendRequest request = some (event, system')) :
    system'.Invariant := by
  have hfailed : ∀ error, system.requests.receiverDropped = true →
      ((system.failRequest error request).dropSender request).Invariant := by
    intro error hdropped
    have hgone := h.gone.mpr hdropped
    exact h.of_calls ((failRequest_calls system error request).trans
      (dropSender_calls _ request))
      ((h.resets.failRequest hgone error request).dropSender request
        fun _ _ => .inr hgone)
  unfold System.sendRequest at hsend
  split at hsend
  · cases hsend
  · rename_i error hready
    cases hsend
    exact hfailed error (Channel.pollReady_eq_error hready)
  · rename_i hready
    obtain ⟨hattached, hroom⟩ := Channel.pollReady_eq_ok_iff.mp hready
    rcases Channel.startSend_cases request with
      ⟨requests, hstart, -, hqueue, -, -, hreceiver⟩ |
      ⟨error, -, hdropped | hfull⟩
    · rw [hstart] at hsend
      cases hsend
      exact h.of_moves ((Grows.refl system).congr rfl rfl)
        (.enters request rfl hqueue (hreceiver.trans hattached.symm) rfl rfl)
        (h.resets.congr rfl)
    · rw [hattached] at hdropped
      cases hdropped
    · omega

theorem Invariant.setReset (h : system.Invariant) {call : Nat}
    {reset reset' : Reset} (hreset : system.resets[call]? = some reset)
    (hgone : reset.resetter = .gone → reset'.resetter = .gone)
    (hreset' : reset'.Holds (system.streamer = .gone)) :
    (system.setReset call reset').Invariant :=
  h.of_calls (setReset_calls hreset hgone)
    (h.resets.set (fun hgone => hgone) hreset')

theorem Invariant.setShim (h : system.Invariant) (shim : Shim) :
    { system with shim := shim }.Invariant :=
  h.of_calls ((CallsOnly.refl system).setShim shim) h.resets

theorem Invariant.setAwaiter (h : system.Invariant) {call : Nat}
    {reset : Reset} (hreset : system.resets[call]? = some reset)
    (awaiter : Awaiter) (shim : Shim)
    (canceled : reset.answer = .canceled →
      awaiter = .abandoned ∨ system.streamer = .gone)
    (returned : ∀ a, awaiter = .returned a →
      reset.answered = some a ∨ (a = false ∧ system.streamer = .gone)) :
    { system.setReset call { reset with awaiter := awaiter } with
      shim := shim }.Invariant := by
  have hset : (system.setReset call
      { reset with awaiter := awaiter }).Invariant :=
    h.setReset hreset (fun hgone => hgone)
      ((h.resets hreset).setAwaiter awaiter canceled returned)
  exact hset.setShim shim

theorem Invariant.stepWrite (h : system.Invariant) {call : Nat}
    {op : WriteBody.Op} {event : WriteBody.Event}
    (hstep : system.stepWrite call op = some (event, system')) :
    system'.Invariant := by
  obtain ⟨hcalls, hresets⟩ := stepWrite_calls hstep
  exact h.of_calls hcalls (h.resets.congr hresets)

theorem Invariant.flushRequest (h : system.Invariant) {request : ShimRequest}
    (hflush : system.flushRequest request = some (event, system')) :
    system'.Invariant := by
  unfold System.flushRequest at hflush
  split at hflush
  · cases hflush
  · cases request with
    | write call =>
        dsimp only at hflush
        split at hflush
        · rename_i stepped hstep
          cases hflush
          exact (h.stepWrite hstep).setShim _
        · cases hflush
    | reset call =>
        dsimp only at hflush
        split at hflush
        · rename_i reset hreset
          split at hflush
          · rename_i hrequesting
            cases hflush
            refine h.setAwaiter hreset .awaiting _ (fun hcanceled => ?_)
              fun a ha => by cases ha
            rcases (h.resets hreset).canceled hcanceled with
              habandoned | hgone
            · rw [hrequesting] at habandoned
              cases habandoned
            · exact .inr hgone
          · cases hflush
        · cases hflush

theorem Invariant.shimWrite (h : system.Invariant) {call : Nat}
    {op : WriteBody.Op}
    (hwrite : system.shimWrite call op = some (event, system')) :
    system'.Invariant := by
  obtain ⟨-, event', stepped, hstep, ⟨-, -, rfl⟩ | ⟨-, rfl⟩⟩ :=
    shimWrite_cases hwrite
  · exact (h.stepWrite hstep).setShim _
  · exact h.stepWrite hstep

theorem Invariant.awaitReset (h : system.Invariant) {call : Nat}
    (hawait : system.awaitReset call = some (event, system')) :
    system'.Invariant := by
  unfold System.awaitReset at hawait
  split at hawait
  · cases hawait
  · rename_i reset hreset
    have hholds := h.resets hreset
    split at hawait
    · rename_i answer hawaiting hanswer
      cases hawait
      refine h.setAwaiter hreset (.returned answer) .idle
        (fun hcanceled => ?_) fun a ha => ?_
      · rw [hanswer] at hcanceled
        cases hcanceled
      · cases ha
        exact .inl (hholds.sent answer hanswer)
    · rename_i hawaiting hanswer
      cases hawait
      have hgone : system.streamer = .gone := by
        rcases hholds.canceled hanswer with habandoned | hgone
        · rw [hawaiting] at habandoned
          cases habandoned
        · exact hgone
      refine h.setAwaiter hreset (.returned false) .idle (fun _ => .inr hgone)
        fun a ha => ?_
      cases ha
      exact .inr ⟨rfl, hgone⟩
    · cases hawait

theorem Invariant.giveUp (h : system.Invariant) (request : ShimRequest) :
    (system.giveUp request).Invariant :=
  h.of_calls (giveUp_calls system request) (h.resets.giveUp request).1

theorem Invariant.giveUp_unsent (h : system.Invariant)
    (request : ShimRequest) :
    ((system.giveUp request).dropSender request).Invariant := by
  obtain ⟨hresets, habandoned⟩ := h.resets.giveUp request
  exact h.of_calls ((giveUp_calls system request).trans
    (dropSender_calls _ request)) (hresets.dropSender request
      fun heq hreset => .inl (habandoned heq hreset))

/-! ## Steps of the thread -/

theorem Invariant.leave (h : system.Invariant)
    (hfinished : ∀ request, system.streamer = .serving request →
      system.Finished request) : system.leave.Invariant := by
  obtain ⟨hgrows, hresets, hentered, hstarted⟩ :=
    leave_spec system (h.resets.mono fun _ => trivial)
  exact h.of_moves hgrows (.leaves rfl rfl
    (fun request hserving => hgrows.finished (hfinished request hserving))
    hentered hstarted) (hresets.mono fun _ => rfl)

theorem finished_dropSender {request : ShimRequest}
    (hbody : system.inBody request = true) :
    (system.dropSender request).Finished request := by
  cases request with
  | write call =>
      unfold inBody at hbody
      dsimp only at hbody
      split at hbody
      · rename_i parts buf reader wrote forwarded returned reached hwrite
        have hlt := (List.getElem?_eq_some_iff.mp hwrite).1
        simp only [Finished, dropSender, stepWrite, hwrite, WriteBody.next,
          List.getElem?_set_self hlt]
        exact ⟨_, rfl, rfl⟩
      · cases hbody
  | reset call =>
      unfold inBody at hbody
      dsimp only at hbody
      split at hbody
      · rename_i hreset
        have hlt := (List.getElem?_eq_some_iff.mp hreset).1
        simp only [Finished, dropSender, hreset, System.setReset,
          List.getElem?_set_self hlt]
        exact ⟨_, rfl, rfl⟩
      · cases hbody

theorem Invariant.panic (h : system.Invariant) {request : ShimRequest}
    (hserving : system.streamer = .serving request)
    (hbody : system.inBody request = true) :
    (system.dropSender request).leave.Invariant := by
  have hcalls := dropSender_calls system request
  have hdropped : (system.dropSender request).ResetsHold True :=
    (h.resets.mono fun _ => trivial).dropSender request fun _ _ => .inr trivial
  obtain ⟨hgrows, hresets, hentered, hstarted⟩ :=
    leave_spec (system.dropSender request) hdropped
  refine h.of_moves (hcalls.grows.trans hgrows) (.leaves rfl rfl
    (fun other hother => ?_) (hentered.trans hcalls.entered)
    (hstarted.trans hcalls.started)) (hresets.mono fun _ => rfl)
  rw [hserving] at hother
  cases hother
  exact hgrows.finished (finished_dropSender hbody)

theorem Invariant.nextRequest (h : system.Invariant)
    (hreceiving : system.streamer = .receiving)
    (hnext : system.nextRequest = some (event, system')) :
    system'.Invariant := by
  have hthere : ∀ {gone : Prop}, system.streamer = .gone → gone := by
    intro gone hgone
    rw [hreceiving] at hgone
    cases hgone
  rcases nextRequest_cases hnext with
    ⟨call, requests, event', hqueue, hreceiver, hstep⟩ |
    ⟨call, reset, requests, hqueue, hreceiver, hreset, hwaiting, rfl⟩ | rfl
  · obtain ⟨hcalls, hresets⟩ := stepWrite_calls hstep
    have hgrows : Grows system
        { system with
          requests := requests
          streamer := .serving (.write call)
          started := system.started ++ [.write call] } :=
      (Grows.refl system).congr rfl rfl
    refine h.of_moves (hgrows.trans hcalls.grows)
      (.starts (.write call) hreceiving hcalls.streamer ?_ ?_
        hcalls.entered hcalls.started) ?_
    · rw [hcalls.requests]
      exact hqueue
    · rw [hcalls.requests]
      exact hreceiver
    · exact ResetsHold.congr (h.resets.mono hthere) hresets
  · have hholds := h.resets hreset
    have hgrows : Grows system (system.setReset call
        { reset with resetter := .resetting }) :=
      grows_setReset hreset fun hgone => by
        rw [hwaiting] at hgone
        cases hgone
    refine h.of_moves (hgrows.congr rfl rfl)
      (.starts (.reset call) hreceiving rfl hqueue hreceiver rfl rfl) ?_
    have hset : (system.setReset call
        { reset with resetter := .resetting }).ResetsHold
        (system.streamer = .gone) := by
      refine h.resets.set (fun hgone => hgone) ?_
      exact {
        unanswered := fun _ => hholds.unanswered (.inl hwaiting)
        answering := fun a ha => by cases ha
        sent := hholds.sent
        left := fun hgone => by cases hgone
        canceled := hholds.canceled
        returned := hholds.returned }
    exact ResetsHold.congr (hset.mono hthere) rfl
  · refine h.leave fun request hserving => ?_
    rw [hreceiving] at hserving
    cases hserving

theorem Invariant.streamWrite (h : system.Invariant) {call : Nat}
    {op : WriteBody.Op} (hserving : system.streamer = .serving (.write call))
    (hwrite : system.streamWrite call op = some (event, system')) :
    system'.Invariant := by
  obtain ⟨hop, event', stepped, hstep, ⟨heq, rfl⟩ | ⟨-, rfl⟩⟩ :=
    streamWrite_cases hwrite
  · subst heq
    have hgrows := grows_stepWrite hstep
    obtain ⟨write, write', hget, hnext, rfl⟩ := stepWrite_cases hstep
    have hgone := (WriteBody.thread_moves hop hnext).gone
    refine h.of_moves (hgrows.congr rfl rfl)
      (.finishes (.write call) hserving rfl ⟨write', ?_, hgone⟩ rfl rfl rfl rfl)
      ?_
    · exact List.getElem?_set_self (List.getElem?_eq_some_iff.mp hget).1
    · refine ResetsHold.congr (h.resets.mono fun hgone => ?_) rfl
      rw [hserving] at hgone
      cases hgone
  · exact h.stepWrite hstep

theorem Invariant.resetReturns (h : system.Invariant) {call : Nat}
    {answer : Bool}
    (hreturns : system.resetReturns call answer = some (event, system')) :
    system'.Invariant := by
  unfold System.resetReturns at hreturns
  split at hreturns
  · cases hreturns
  · rename_i reset hreset
    split at hreturns
    · rename_i hresetting
      cases hreturns
      have hholds := h.resets hreset
      have hnone := hholds.unanswered (.inr hresetting)
      refine h.of_calls (setReset_calls hreset fun hgone => ?_)
        (h.resets.set (fun hgone => hgone) ?_)
      · rw [hresetting] at hgone
        cases hgone
      · exact {
          unanswered := fun hthere => by rcases hthere with h | h <;> cases h
          answering := fun a ha => by
            cases ha
            rfl
          sent := fun a ha => by
            rw [hholds.sent a ha] at hnone
            cases hnone
          left := fun hgone => by cases hgone
          canceled := hholds.canceled
          returned := fun a ha => by
            rcases hholds.returned a ha with hsome | hgone
            · rw [hsome] at hnone
              cases hnone
            · exact .inr hgone }
    · cases hreturns

theorem Invariant.sendAnswer (h : system.Invariant) {call : Nat}
    (hserving : system.streamer = .serving (.reset call))
    (hsend : system.sendAnswer call = some (event, system')) :
    system'.Invariant := by
  unfold System.sendAnswer at hsend
  split at hsend
  · cases hsend
  · rename_i reset hreset
    split at hsend
    · rename_i answer hanswering
      cases hsend
      have hholds := h.resets hreset
      have hlt := (List.getElem?_eq_some_iff.mp hreset).1
      have hgrows : Grows system (system.setReset call
          { reset with answer := .sent answer, resetter := .gone }) :=
        grows_setReset hreset fun _ => rfl
      refine h.of_moves (hgrows.congr rfl rfl)
        (.finishes (.reset call) hserving rfl
          ⟨_, List.getElem?_set_self hlt, rfl⟩ rfl rfl rfl rfl) ?_
      have hset : (system.setReset call
          { reset with answer := .sent answer, resetter := .gone }).ResetsHold
          (system.streamer = .gone) := by
        refine h.resets.set (fun hgone => hgone) ?_
        exact {
          unanswered := fun hthere => by rcases hthere with h | h <;> cases h
          answering := fun a ha => by cases ha
          sent := fun a ha => by
            cases ha
            exact hholds.answering answer hanswering
          left := fun _ hpending => by cases hpending
          canceled := fun hcanceled => by cases hcanceled
          returned := hholds.returned }
      refine ResetsHold.congr (hset.mono fun hgone => ?_) rfl
      rw [hserving] at hgone
      cases hgone
    · cases hsend

/-! ## Runs -/

theorem Invariant.step (h : system.Invariant)
    (hstep : Step system event system') : system'.Invariant := by
  cases hstep.takes with
  | callWrite => exact h.callWrite
  | callReset => exact h.callReset
  | sendRequest _ hsend => exact h.sendRequest hsend
  | flushRequest _ hflush => exact h.flushRequest hflush
  | shimWrite _ hwrite => exact h.shimWrite hwrite
  | awaitReset _ hawait => exact h.awaitReset hawait
  | abandonUnsent => exact h.giveUp_unsent _
  | abandon => exact h.giveUp _
  | dropShim =>
      exact h.of_moves ((Grows.refl system).congr rfl rfl)
        (.stays rfl rfl rfl rfl rfl) (h.resets.congr rfl)
  | nextRequest receiving hnext => exact h.nextRequest receiving hnext
  | streamWrite serving hwrite => exact h.streamWrite serving hwrite
  | resetReturns _ hreturns => exact h.resetReturns hreturns
  | sendAnswer serving hsend => exact h.sendAnswer serving hsend
  | panic serving hbody => exact h.panic serving hbody

/-- What the async side may rely on: the body is called for the requests that
entered the channel, in their order and one at a time; a write forwards what
the body has written in it, from the start, and ends as the body has ended it
or with an error of its own; and a reset ends with the answer of the body, or
`false` when the thread is gone. -/
structure Refines (system : System) : Prop where
  ordered : system.started <+: system.entered
  queued : system.streamer ≠ .gone →
    system.entered = system.started ++ system.requests.queue
  alone : ∀ {request request'}, system.Running request →
    system.Running request' → request = request'
  forwarded : ∀ write ∈ system.writes, write.forwarded <+: write.wrote
  ok : ∀ write ∈ system.writes, write.reader = .returned (.ok ()) →
    write.returned = some (.ok ()) ∧ write.forwarded = write.wrote
  reached : ∀ write ∈ system.writes, ∀ e, write.reached = some e →
    write.reader = .returned (.error e) ∧ write.returned = some (.error e)
  failed : ∀ write ∈ system.writes, ∀ e,
    write.reader = .returned (.error e) →
    write.reached = some e ∨ WriteBody.IsShimError e
  reset : ∀ reset ∈ system.resets, ∀ answer,
    reset.awaiter = .returned answer →
    reset.answered = some answer ∨
      (answer = false ∧ system.streamer = .gone)

theorem Invariant.running (h : system.Invariant) {request : ShimRequest}
    (hrunning : system.Running request) :
    system.streamer = .serving request :=
  (h.served request hrunning.1).resolve_right hrunning.2

theorem Invariant.refines (h : system.Invariant) : system.Refines := by
  have hwrites : ∀ write ∈ system.writes, write.Invariant := by
    intro write hmem
    obtain ⟨call, hcall⟩ := List.getElem?_of_mem hmem
    exact h.writes hcall
  refine ⟨h.ordered, h.queued, ?_,
    fun write hmem => (hwrites write hmem).ordered,
    fun write hmem => (hwrites write hmem).ok,
    fun write hmem => (hwrites write hmem).reached,
    fun write hmem => (hwrites write hmem).failed, ?_⟩
  · intro request request' hrunning hrunning'
    have hsame := (h.running hrunning).symm.trans (h.running hrunning')
    cases hsame
    rfl
  · intro reset hmem answer hreturned
    obtain ⟨call, hcall⟩ := List.getElem?_of_mem hmem
    exact (h.resets hcall).returned answer hreturned

/-- In every run of the two sides, whatever is abandoned on the way. -/
theorem shim_refines {events : List Event}
    (run : Run Step new events system) : system.Refines :=
  (run.invariant (fun _ system => system.Invariant) new_invariant
    fun h hstep => h.step hstep).refines

def retriedOps : List Op :=
  [.callWrite, .sendRequest, .nextRequest, .flushRequest,
    .streamWrite (.write [1]), .streamWrite .flush, .streamWrite .feed,
    .shimWrite .receive, .abandon, .callReset, .sendRequest,
    .streamWrite .flushed, .streamWrite (.write [2]),
    .streamWrite (.bodyReturns (.ok ())), .streamWrite .feed, .nextRequest,
    .resetReturns true, .flushRequest, .sendAnswer, .awaitReset, .callWrite,
    .sendRequest, .nextRequest, .flushRequest, .streamWrite (.write [1]),
    .streamWrite (.write [2]), .streamWrite (.bodyReturns (.ok ())),
    .streamWrite .feed, .shimWrite .receive,
    .shimWrite (.forwardReturned (.ok ())), .streamWrite .flushed,
    .streamWrite .feed, .shimWrite .receive]

theorem retried_write_is_forwarded :
    ∃ events system, Run Step new events system ∧ system.Refines ∧
      (system.writes.map WriteBody.forwarded) = [[1], [1, 2]] ∧
      system.resets.map Reset.awaiter = [.returned true] := by
  have hexec : ∃ events system, exec next new retriedOps =
      some (events, system) ∧
      (system.writes.map WriteBody.forwarded) = [[1], [1, 2]] ∧
      system.resets.map Reset.awaiter = [.returned true] :=
    ⟨_, _, rfl, rfl, rfl⟩
  obtain ⟨events, system, hexec, hforwarded, hresets⟩ := hexec
  have run : Run Step new events system :=
    exec_run (fun h => ⟨_, h⟩) hexec
  exact ⟨events, system, run, shim_refines run, hforwarded, hresets⟩

end System

end ConjureRuntime.Blocking
