import ConjureRuntime.Blocking.BodyCalls
import ConjureRuntime.Blocking.Shim
import ConjureRuntime.Foundation.ListSum

/-!
# Calls of the shim

What holds of the requests and of the calls that they belong to.  A step moves
a request on, or changes what one call knows; the invariant is put together
from the two.
-/

namespace ConjureRuntime.Blocking

open ConjureRuntime.Foundation ConjureRuntime.Service

/-! ## Calls of the body -/

namespace WriteBody

variable {call call' : WriteBody} {event : Event} {events : List Event}

theorem Step.gone (hstep : Step call event call')
    (h : call.writer = .gone) : call'.writer = .gone := by
  obtain ⟨op, hnext⟩ := hstep
  cases takes_of_next hnext with
  | requested | requestFailed | forwarded | forwardFailed | abandon => exact h
  | receive _ hreceive => exact (receive_moves hreceive).1.trans h
  | start hwriter | write _ hwriter | flush hwriter | writeBytes _ hwriter
  | bodyReturns _ hwriter =>
      rw [h] at hwriter
      cases hwriter
  | feed hfeed => simp [WriteBody.feed, h] at hfeed
  | flushed hflushed => simp [WriteBody.flushed, h] at hflushed
  | drop hwriter => simp [h] at hwriter

theorem run_gone (run : Run Step call events call')
    (h : call.writer = .gone) : call'.writer = .gone :=
  run.invariant (fun _ call => call.writer = .gone) h
    fun h hstep => hstep.gone h

theorem run_invariant (run : Run Step call events call')
    (h : call.Invariant) : call'.Invariant :=
  run.invariant (fun _ call => call.Invariant) h fun h hstep => h.step hstep

end WriteBody

/-- What is known of a call of `reset`; `gone` tells that the thread is. -/
structure Reset.Holds (gone : Prop) (reset : Reset) : Prop where
  unanswered : reset.resetter = .waiting ∨ reset.resetter = .resetting →
    reset.answered = none
  answering : ∀ a, reset.resetter = .answering a → reset.answered = some a
  sent : ∀ a, reset.answer = .sent a → reset.answered = some a
  left : reset.resetter = .gone → reset.answer ≠ .pending
  canceled : reset.answer = .canceled → reset.awaiter = .abandoned ∨ gone
  returned : ∀ a, reset.awaiter = .returned a →
    reset.answered = some a ∨ (a = false ∧ gone)

theorem Reset.Holds.mono {gone gone' : Prop} {reset : Reset}
    (h : reset.Holds gone) (himp : gone → gone') : reset.Holds gone' where
  unanswered := h.unanswered
  answering := h.answering
  sent := h.sent
  left := h.left
  canceled hcanceled := (h.canceled hcanceled).imp_right himp
  returned a hreturned :=
    (h.returned a hreturned).imp_right fun ⟨ha, hgone⟩ => ⟨ha, himp hgone⟩

theorem Reset.Holds.setAwaiter {gone : Prop} {reset : Reset}
    (h : reset.Holds gone) (awaiter : Awaiter)
    (canceled : reset.answer = .canceled → awaiter = .abandoned ∨ gone)
    (returned : ∀ a, awaiter = .returned a →
      reset.answered = some a ∨ (a = false ∧ gone)) :
    { reset with awaiter := awaiter }.Holds gone where
  unanswered := h.unanswered
  answering := h.answering
  sent := h.sent
  left := h.left
  canceled := canceled
  returned := returned

namespace System

variable {system system' : System} {event : Event}

/-! ## Steps -/

inductive Takes (system : System) : Event → System → Prop where
  | callWrite (idle : system.shim = .idle) :
      Takes system (.called (.write system.writes.length))
        { system with
          writes := system.writes ++ [.new]
          shim := .sending (.write system.writes.length) }
  | callReset (idle : system.shim = .idle) :
      Takes system (.called (.reset system.resets.length))
        { system with
          resets := system.resets ++ [.new]
          shim := .sending (.reset system.resets.length) }
  | sendRequest {request : ShimRequest} {event : Event} {system' : System}
      (sending : system.shim = .sending request)
      (sends : system.sendRequest request = some (event, system')) :
      Takes system event system'
  | flushRequest {request : ShimRequest} {event : Event} {system' : System}
      (flushing : system.shim = .flushing request)
      (flushes : system.flushRequest request = some (event, system')) :
      Takes system event system'
  | shimWrite {call : Nat} {op : WriteBody.Op} {event : Event}
      {system' : System} (calling : system.shim = .calling (.write call))
      (writes : system.shimWrite call op = some (event, system')) :
      Takes system event system'
  | awaitReset {call : Nat} {event : Event} {system' : System}
      (calling : system.shim = .calling (.reset call))
      (awaits : system.awaitReset call = some (event, system')) :
      Takes system event system'
  | abandonUnsent {request : ShimRequest}
      (sending : system.shim = .sending request) :
      Takes system (.abandoned request)
        ((system.giveUp request).dropSender request)
  | abandon {request : ShimRequest}
      (inCall : system.shim = .flushing request ∨
        system.shim = .calling request) :
      Takes system (.abandoned request) (system.giveUp request)
  | dropShim (idle : system.shim = .idle) :
      Takes system .shimDropped
        { system with
          requests := system.requests.dropSender
          shim := .dropped }
  | nextRequest {event : Event} {system' : System}
      (receiving : system.streamer = .receiving)
      (takes : system.nextRequest = some (event, system')) :
      Takes system event system'
  | streamWrite {call : Nat} {op : WriteBody.Op} {event : Event}
      {system' : System} (serving : system.streamer = .serving (.write call))
      (writes : system.streamWrite call op = some (event, system')) :
      Takes system event system'
  | resetReturns {call : Nat} {answer : Bool} {event : Event}
      {system' : System} (serving : system.streamer = .serving (.reset call))
      (returns : system.resetReturns call answer = some (event, system')) :
      Takes system event system'
  | sendAnswer {call : Nat} {event : Event} {system' : System}
      (serving : system.streamer = .serving (.reset call))
      (sends : system.sendAnswer call = some (event, system')) :
      Takes system event system'
  | panic {request : ShimRequest} (serving : system.streamer = .serving request)
      (inBody : system.inBody request = true) :
      Takes system .streamerGone (system.dropSender request).leave

theorem Step.takes (hstep : Step system event system') :
    Takes system event system' := by
  obtain ⟨op, hnext⟩ := hstep
  cases op with
  | callWrite =>
      simp only [next] at hnext
      split at hnext
      next hidle =>
        cases hnext
        exact .callWrite hidle
      next => cases hnext
  | callReset =>
      simp only [next] at hnext
      split at hnext
      next hidle =>
        cases hnext
        exact .callReset hidle
      next => cases hnext
  | sendRequest =>
      simp only [next] at hnext
      split at hnext
      next hshim => exact .sendRequest hshim hnext
      next => cases hnext
  | flushRequest =>
      simp only [next] at hnext
      split at hnext
      next hshim => exact .flushRequest hshim hnext
      next => cases hnext
  | shimWrite op =>
      simp only [next] at hnext
      split at hnext
      next hshim => exact .shimWrite hshim hnext
      next => cases hnext
  | awaitReset =>
      simp only [next] at hnext
      split at hnext
      next hshim => exact .awaitReset hshim hnext
      next => cases hnext
  | abandon =>
      simp only [next] at hnext
      split at hnext
      next hshim =>
        cases hnext
        exact .abandonUnsent hshim
      next hshim =>
        cases hnext
        exact .abandon (.inl hshim)
      next hshim =>
        cases hnext
        exact .abandon (.inr hshim)
      next => cases hnext
      next => cases hnext
  | dropShim =>
      simp only [next] at hnext
      split at hnext
      next hidle =>
        cases hnext
        exact .dropShim hidle
      next => cases hnext
  | nextRequest =>
      simp only [next] at hnext
      split at hnext
      next hstreamer => exact .nextRequest hstreamer hnext
      next => cases hnext
  | streamWrite op =>
      simp only [next] at hnext
      split at hnext
      next hstreamer => exact .streamWrite hstreamer hnext
      next => cases hnext
  | resetReturns answer =>
      simp only [next] at hnext
      split at hnext
      next hstreamer => exact .resetReturns hstreamer hnext
      next => cases hnext
  | sendAnswer =>
      simp only [next] at hnext
      split at hnext
      next hstreamer => exact .sendAnswer hstreamer hnext
      next => cases hnext
  | panic =>
      simp only [next] at hnext
      split at hnext
      next hstreamer =>
        split at hnext
        next hbody =>
          cases hnext
          exact .panic hstreamer hbody
        next => cases hnext
      next => cases hnext

/-! ## The invariant -/

def Finished (system : System) : ShimRequest → Prop
  | .write call => ∃ write, system.writes[call]? = some write ∧
      write.writer = .gone
  | .reset call => ∃ reset, system.resets[call]? = some reset ∧
      reset.resetter = .gone

def Running (system : System) (request : ShimRequest) : Prop :=
  request ∈ system.started ∧ ¬ system.Finished request

def ResetsHold (system : System) (gone : Prop) : Prop :=
  ∀ ⦃call : Nat⦄ ⦃reset : Reset⦄, system.resets[call]? = some reset →
    reset.Holds gone

structure Invariant (system : System) : Prop where
  writes : ∀ {call : Nat} {write : WriteBody},
    system.writes[call]? = some write → write.Invariant
  resets : system.ResetsHold (system.streamer = .gone)
  gone : system.streamer = .gone ↔ system.requests.receiverDropped = true
  queued : system.streamer ≠ .gone →
    system.entered = system.started ++ system.requests.queue
  ordered : system.started <+: system.entered
  served : ∀ request ∈ system.started,
    system.streamer = .serving request ∨ system.Finished request

theorem new_invariant : new.Invariant where
  writes h := by simp [new] at h
  resets _ _ h := by simp [new] at h
  gone := by simp [new, Channel.new]
  queued _ := rfl
  ordered := List.nil_prefix
  served _ h := by cases h

/-! ## What a step does to the calls -/

structure Grows (system system' : System) : Prop where
  length : system.writes.length ≤ system'.writes.length
  writes : ∀ {call : Nat} {write' : WriteBody},
    system'.writes[call]? = some write' → ∃ events,
      Run WriteBody.Step ((system.writes[call]?).getD .new) events write'
  resets : ∀ {call : Nat} {reset : Reset}, system.resets[call]? = some reset →
    reset.resetter = .gone →
    ∃ reset', system'.resets[call]? = some reset' ∧ reset'.resetter = .gone

theorem run_unchanged {call : Nat} {write : WriteBody}
    (h : system.writes[call]? = some write) : ∃ events,
      Run WriteBody.Step ((system.writes[call]?).getD .new) events write :=
  ⟨[], by rw [h]; exact .refl⟩

theorem Grows.refl (system : System) : Grows system system where
  length := Nat.le_refl _
  writes h := run_unchanged h
  resets h hgone := ⟨_, h, hgone⟩

theorem Grows.trans {system'' : System} (first : Grows system system')
    (second : Grows system' system'') : Grows system system'' where
  length := Nat.le_trans first.length second.length
  writes {call write''} h := by
    obtain ⟨later, run'⟩ := second.writes h
    cases hmid : system'.writes[call]? with
    | some write' =>
        rw [hmid] at run'
        obtain ⟨events, run⟩ := first.writes hmid
        exact ⟨_, run.trans run'⟩
    | none =>
        have hbefore : system.writes[call]? = none := by
          have hlength := List.getElem?_eq_none_iff.mp hmid
          exact List.getElem?_eq_none_iff.mpr
            (Nat.le_trans first.length hlength)
        rw [hmid] at run'
        exact ⟨later, hbefore ▸ run'⟩
  resets h hgone := by
    obtain ⟨reset', h', hgone'⟩ := first.resets h hgone
    exact second.resets h' hgone'

theorem Grows.invariant (h : Grows system system')
    (hwrites : ∀ {call : Nat} {write : WriteBody},
      system.writes[call]? = some write → write.Invariant)
    {call : Nat} {write' : WriteBody}
    (hwrite' : system'.writes[call]? = some write') : write'.Invariant := by
  obtain ⟨events, run⟩ := h.writes hwrite'
  refine WriteBody.run_invariant run ?_
  cases hwrite : system.writes[call]? with
  | some write => exact hwrites hwrite
  | none => exact WriteBody.new_invariant

theorem Grows.finished (h : Grows system system') {request : ShimRequest}
    (hfinished : system.Finished request) : system'.Finished request := by
  cases request with
  | write call =>
      obtain ⟨write, hwrite, hgone⟩ := hfinished
      have hlt : call < system.writes.length :=
        (List.getElem?_eq_some_iff.mp hwrite).1
      have hlt' := Nat.lt_of_lt_of_le hlt h.length
      have hwrite' := List.getElem?_eq_getElem hlt'
      obtain ⟨events, run⟩ := h.writes hwrite'
      rw [hwrite] at run
      exact ⟨_, hwrite', WriteBody.run_gone run hgone⟩
  | reset call =>
      obtain ⟨reset, hreset, hgone⟩ := hfinished
      exact h.resets hreset hgone

theorem Grows.congr {system'' : System} (h : Grows system system')
    (hwrites : system''.writes = system'.writes)
    (hresets : system''.resets = system'.resets) : Grows system system'' where
  length := hwrites ▸ h.length
  writes := hwrites ▸ h.writes
  resets := hresets ▸ h.resets

theorem stepWrite_cases {call : Nat} {op : WriteBody.Op}
    {event : WriteBody.Event}
    (h : system.stepWrite call op = some (event, system')) :
    ∃ write write', system.writes[call]? = some write ∧
      write.next op = some (event, write') ∧
      system' = { system with writes := system.writes.set call write' } := by
  unfold stepWrite at h
  split at h
  · cases h
  · rename_i write hwrite
    split at h
    · cases h
    · rename_i event' write' hnext
      cases h
      exact ⟨write, write', hwrite, hnext, rfl⟩

theorem nextRequest_cases
    (h : system.nextRequest = some (event, system')) :
    (∃ (call : Nat) (requests : Channel ShimRequest)
      (event' : WriteBody.Event),
      system.requests.queue = .write call :: requests.queue ∧
      requests.receiverDropped = system.requests.receiverDropped ∧
      { system with
        requests := requests
        streamer := .serving (.write call)
        started := system.started ++ [ShimRequest.write call] }.stepWrite
          call .start = some (event', system')) ∨
    (∃ (call : Nat) (reset : Reset) (requests : Channel ShimRequest),
      system.requests.queue = .reset call :: requests.queue ∧
      requests.receiverDropped = system.requests.receiverDropped ∧
      system.resets[call]? = some reset ∧ reset.resetter = .waiting ∧
      system' = { system.setReset call { reset with resetter := .resetting }
        with
        requests := requests
        streamer := .serving (.reset call)
        started := system.started ++ [ShimRequest.reset call] }) ∨
    system' = system.leave := by
  rcases system.requests.pollNext_cases with
    ⟨request, queue, hqueue, requests, hpoll, rfl, -, -, hreceiver⟩ |
    ⟨-, hpoll⟩
  · simp only [nextRequest, hpoll] at h
    cases request with
    | write call =>
        dsimp only at h
        split at h
        · rename_i hstep
          cases h
          exact .inl ⟨call, requests, _, hqueue, hreceiver, hstep⟩
        · cases h
    | reset call =>
        dsimp only at h
        split at h
        · rename_i reset hreset
          split at h
          · rename_i hwaiting
            cases h
            exact .inr (.inl ⟨call, reset, requests, hqueue, hreceiver, hreset,
              hwaiting, rfl⟩)
          · cases h
        · cases h
  · simp only [nextRequest, hpoll] at h
    cases hsender : system.requests.senderDropped with
    | true =>
        simp only [hsender, if_true] at h
        cases h
        exact .inr (.inr rfl)
    | false => simp [hsender] at h

theorem grows_stepWrite {call : Nat} {op : WriteBody.Op}
    {event : WriteBody.Event}
    (h : system.stepWrite call op = some (event, system')) :
    Grows system system' := by
  obtain ⟨write, write', hwrite, hnext, rfl⟩ := stepWrite_cases h
  refine ⟨by simp, fun {other later} hlater => ?_, fun h hgone =>
    ⟨_, h, hgone⟩⟩
  rcases getElem?_set_cases hlater with ⟨rfl, rfl⟩ | ⟨-, hbefore⟩
  · rw [hwrite]
    exact ⟨_, .step .refl ⟨op, hnext⟩⟩
  · exact run_unchanged hbefore

theorem grows_setReset {call : Nat} {reset reset' : Reset}
    (hreset : system.resets[call]? = some reset)
    (hgone : reset.resetter = .gone → reset'.resetter = .gone) :
    Grows system (system.setReset call reset') := by
  refine ⟨Nat.le_refl _, fun h => run_unchanged h,
    fun {other before} hbefore hother => ?_⟩
  simp only [setReset, List.getElem?_set]
  split
  · rename_i heq
    subst heq
    cases hreset.symm.trans hbefore
    rw [if_pos (List.getElem?_eq_some_iff.mp hreset).1]
    exact ⟨reset', rfl, hgone hother⟩
  · exact ⟨before, hbefore, hother⟩

theorem ResetsHold.set {gone gone' : Prop} {call : Nat} {reset' : Reset}
    (h : system.ResetsHold gone) (himp : gone → gone')
    (hreset' : reset'.Holds gone') :
    (system.setReset call reset').ResetsHold gone' := by
  intro other reset hreset
  rcases getElem?_set_cases hreset with ⟨-, rfl⟩ | ⟨-, hbefore⟩
  · exact hreset'
  · exact (h hbefore).mono himp

/-! ## What a step does to the requests -/

inductive Moves (system system' : System) : Prop where
  | stays (streamer : system'.streamer = system.streamer)
      (queue : system'.requests.queue = system.requests.queue)
      (receiver : system'.requests.receiverDropped =
        system.requests.receiverDropped)
      (entered : system'.entered = system.entered)
      (started : system'.started = system.started)
  | enters (request : ShimRequest)
      (streamer : system'.streamer = system.streamer)
      (queue : system'.requests.queue = system.requests.queue ++ [request])
      (receiver : system'.requests.receiverDropped =
        system.requests.receiverDropped)
      (entered : system'.entered = system.entered ++ [request])
      (started : system'.started = system.started)
  | starts (request : ShimRequest) (receiving : system.streamer = .receiving)
      (streamer : system'.streamer = .serving request)
      (queue : system.requests.queue = request :: system'.requests.queue)
      (receiver : system'.requests.receiverDropped =
        system.requests.receiverDropped)
      (entered : system'.entered = system.entered)
      (started : system'.started = system.started ++ [request])
  | finishes (request : ShimRequest)
      (serving : system.streamer = .serving request)
      (streamer : system'.streamer = .receiving)
      (finished : system'.Finished request)
      (queue : system'.requests.queue = system.requests.queue)
      (receiver : system'.requests.receiverDropped =
        system.requests.receiverDropped)
      (entered : system'.entered = system.entered)
      (started : system'.started = system.started)
  | leaves (streamer : system'.streamer = .gone)
      (receiver : system'.requests.receiverDropped = true)
      (finished : ∀ request, system.streamer = .serving request →
        system'.Finished request)
      (entered : system'.entered = system.entered)
      (started : system'.started = system.started)

theorem Invariant.of_moves (h : system.Invariant) (grows : Grows system system')
    (moves : Moves system system')
    (resets : system'.ResetsHold (system'.streamer = .gone)) :
    system'.Invariant := by
  have hserved : ∀ request ∈ system.started,
      system.streamer = .serving request ∨ system'.Finished request :=
    fun request hmem => (h.served request hmem).imp_right grows.finished
  cases moves with
  | stays streamer queue receiver entered started =>
      refine ⟨grows.invariant h.writes, resets, ?_, ?_, ?_, ?_⟩
      · rw [streamer, receiver]
        exact h.gone
      · rw [streamer, queue, entered, started]
        exact h.queued
      · rw [entered, started]
        exact h.ordered
      · rw [streamer, started]
        exact hserved
  | enters request streamer queue receiver entered started =>
      refine ⟨grows.invariant h.writes, resets, ?_, ?_, ?_, ?_⟩
      · rw [streamer, receiver]
        exact h.gone
      · rw [streamer, queue, entered, started]
        intro hthere
        rw [h.queued hthere, List.append_assoc]
      · rw [entered, started]
        exact h.ordered.trans (List.prefix_append _ _)
      · rw [streamer, started]
        exact hserved
  | starts request receiving streamer queue receiver entered started =>
      have hthere : system.streamer ≠ .gone := by simp [receiving]
      have hall := h.queued hthere
      rw [queue] at hall
      refine ⟨grows.invariant h.writes, resets, ?_, ?_, ?_, ?_⟩
      · rw [streamer, receiver, ← h.gone, receiving]
        simp
      · rw [entered, started, hall]
        intro _
        simp
      · rw [entered, started, hall]
        exact ⟨system'.requests.queue, by simp⟩
      · rw [streamer, started]
        intro other hmem
        rcases List.mem_append.mp hmem with hmem | hmem
        · rcases hserved other hmem with hserving | hfinished
          · rw [receiving] at hserving
            cases hserving
          · exact .inr hfinished
        · exact .inl (by rw [List.mem_singleton.mp hmem])
  | finishes request serving streamer finished queue receiver entered started =>
      refine ⟨grows.invariant h.writes, resets, ?_, ?_, ?_, ?_⟩
      · rw [streamer, receiver, ← h.gone, serving]
        simp
      · rw [queue, entered, started]
        intro _
        exact h.queued (by simp [serving])
      · rw [entered, started]
        exact h.ordered
      · rw [started]
        intro other hmem
        rcases hserved other hmem with hserving | hfinished
        · rw [serving] at hserving
          cases hserving
          exact .inr finished
        · exact .inr hfinished
  | leaves streamer receiver finished entered started =>
      refine ⟨grows.invariant h.writes, resets, ?_, ?_, ?_, ?_⟩
      · simp [streamer, receiver]
      · exact fun hthere => absurd streamer hthere
      · rw [entered, started]
        exact h.ordered
      · rw [started]
        intro other hmem
        rcases hserved other hmem with hserving | hfinished
        · exact .inr (finished other hserving)
        · exact .inr hfinished

/-! ## What a step does besides -/

structure CallsOnly (system system' : System) : Prop where
  grows : Grows system system'
  requests : system'.requests = system.requests
  streamer : system'.streamer = system.streamer
  entered : system'.entered = system.entered
  started : system'.started = system.started

theorem CallsOnly.moves (h : CallsOnly system system') :
    Moves system system' :=
  .stays h.streamer (congrArg Channel.queue h.requests)
    (congrArg Channel.receiverDropped h.requests) h.entered h.started

theorem CallsOnly.refl (system : System) : CallsOnly system system :=
  ⟨.refl system, rfl, rfl, rfl, rfl⟩

theorem CallsOnly.trans {system'' : System} (first : CallsOnly system system')
    (second : CallsOnly system' system'') : CallsOnly system system'' :=
  ⟨first.grows.trans second.grows, second.requests.trans first.requests,
    second.streamer.trans first.streamer, second.entered.trans first.entered,
    second.started.trans first.started⟩

theorem CallsOnly.setShim (h : CallsOnly system system') (shim : Shim) :
    CallsOnly system { system' with shim := shim } :=
  ⟨h.grows.congr rfl rfl, h.requests, h.streamer, h.entered, h.started⟩

theorem stepWrite_calls {call : Nat} {op : WriteBody.Op}
    {event : WriteBody.Event}
    (h : system.stepWrite call op = some (event, system')) :
    CallsOnly system system' ∧ system'.resets = system.resets := by
  have hgrows := grows_stepWrite h
  obtain ⟨write, write', -, -, rfl⟩ := stepWrite_cases h
  exact ⟨⟨hgrows, rfl, rfl, rfl, rfl⟩, rfl⟩

theorem setReset_calls {call : Nat} {reset reset' : Reset}
    (hreset : system.resets[call]? = some reset)
    (hgone : reset.resetter = .gone → reset'.resetter = .gone) :
    CallsOnly system (system.setReset call reset') :=
  ⟨grows_setReset hreset hgone, rfl, rfl, rfl, rfl⟩

theorem dropSender_calls (system : System) (request : ShimRequest) :
    CallsOnly system (system.dropSender request) := by
  cases request with
  | write call =>
      unfold dropSender
      dsimp only
      split
      · rename_i event system' hstep
        exact (stepWrite_calls hstep).1
      · exact .refl system
  | reset call =>
      unfold dropSender
      dsimp only
      split
      · rename_i reset hreset
        exact setReset_calls hreset fun _ => rfl
      · exact .refl system

theorem giveUp_calls (system : System) (request : ShimRequest) :
    CallsOnly system (system.giveUp request) := by
  cases request with
  | write call =>
      unfold giveUp
      dsimp only
      split
      · rename_i event system' hstep
        exact (stepWrite_calls hstep).1.setShim .idle
      · exact .refl system
  | reset call =>
      unfold giveUp
      dsimp only
      split
      · rename_i reset hreset
        have hcalls : CallsOnly system (system.setReset call
            { reset with awaiter := .abandoned }) :=
          setReset_calls hreset fun h => h
        exact hcalls.setShim .idle
      · exact .refl system

theorem failRequest_calls (system : System) (error : SendError)
    (request : ShimRequest) :
    CallsOnly system (system.failRequest error request) := by
  cases request with
  | write call =>
      unfold failRequest
      dsimp only
      split
      · rename_i event system' hstep
        exact (stepWrite_calls hstep).1.setShim .idle
      · exact .refl system
  | reset call =>
      unfold failRequest
      dsimp only
      split
      · rename_i reset hreset
        have hcalls : CallsOnly system (system.setReset call
            { reset with awaiter := .returned false }) :=
          setReset_calls hreset fun h => h
        exact hcalls.setShim .idle
      · exact .refl system

section

variable {gone gone' : Prop}

theorem ResetsHold.congr (h : system.ResetsHold gone)
    (hresets : system'.resets = system.resets) : system'.ResetsHold gone := by
  intro call reset hreset
  exact h (hresets ▸ hreset)

theorem ResetsHold.mono (h : system.ResetsHold gone) (himp : gone → gone') :
    system.ResetsHold gone' :=
  fun _ _ hreset => (h hreset).mono himp

theorem ResetsHold.dropSender (h : system.ResetsHold gone)
    (request : ShimRequest)
    (hcancel : ∀ {call reset}, request = .reset call →
      system.resets[call]? = some reset → reset.awaiter = .abandoned ∨ gone) :
    (system.dropSender request).ResetsHold gone := by
  cases request with
  | write call =>
      unfold System.dropSender
      dsimp only
      split
      · rename_i event system' hstep
        exact h.congr (stepWrite_calls hstep).2
      · exact h
  | reset call =>
      unfold System.dropSender
      dsimp only
      split
      · rename_i reset hreset
        have hreset' := h hreset
        have hcanceled := hcancel rfl hreset
        refine h.set (fun hgone => hgone) ?_
        exact {
          unanswered := fun hthere => by rcases hthere with h | h <;> cases h
          answering := fun a ha => by cases ha
          sent := fun a ha => by cases ha
          left := fun _ h => by cases h
          canceled := fun _ => hcanceled
          returned := hreset'.returned }
      · exact h

theorem ResetsHold.giveUp (h : system.ResetsHold gone)
    (request : ShimRequest) :
    (system.giveUp request).ResetsHold gone ∧
      ∀ {call reset}, request = .reset call →
        (system.giveUp request).resets[call]? = some reset →
        reset.awaiter = .abandoned := by
  cases request with
  | write call =>
      refine ⟨?_, fun heq => by cases heq⟩
      unfold System.giveUp
      dsimp only
      split
      · rename_i event system' hstep
        have hresets := h.congr (stepWrite_calls hstep).2
        exact ResetsHold.congr hresets rfl
      · exact h
  | reset call =>
      unfold System.giveUp
      dsimp only
      split
      · rename_i reset hreset
        have hreset' := h hreset
        constructor
        · have hset : (system.setReset call
              { reset with awaiter := .abandoned }).ResetsHold gone := by
            exact h.set (fun hgone => hgone) (hreset'.setAwaiter .abandoned
              (fun _ => .inl rfl) fun a ha => by cases ha)
          exact hset.congr rfl
        · rintro other found heq hfound
          cases heq
          simp only [setReset, List.getElem?_set_self'] at hfound
          rw [hreset] at hfound
          cases hfound
          rfl
      · rename_i hnone
        refine ⟨h, ?_⟩
        rintro other found heq hfound
        cases heq
        rw [hnone] at hfound
        cases hfound

theorem ResetsHold.failRequest (h : system.ResetsHold gone) (hgone : gone)
    (error : SendError) (request : ShimRequest) :
    (system.failRequest error request).ResetsHold gone := by
  cases request with
  | write call =>
      unfold System.failRequest
      dsimp only
      split
      · rename_i event system' hstep
        have hresets := h.congr (stepWrite_calls hstep).2
        exact ResetsHold.congr hresets rfl
      · exact h
  | reset call =>
      unfold System.failRequest
      dsimp only
      split
      · rename_i reset hreset
        have hreset' := h hreset
        have hset : (system.setReset call
            { reset with awaiter := .returned false }).ResetsHold gone := by
          refine h.set (fun hgone => hgone) (hreset'.setAwaiter
            (.returned false) (fun _ => .inr hgone) fun a ha => ?_)
          cases ha
          exact .inr ⟨rfl, hgone⟩
        exact hset.congr rfl
      · exact h

end

theorem leave_spec (system : System) (h : system.ResetsHold True) :
    Grows system system.leave ∧ system.leave.ResetsHold True ∧
      system.leave.entered = system.entered ∧
      system.leave.started = system.started := by
  have hfold : ∀ (requests : List ShimRequest) (system : System),
      system.ResetsHold True →
      CallsOnly system (requests.foldl dropSender system) ∧
        (requests.foldl dropSender system).ResetsHold True := by
    intro requests
    induction requests with
    | nil => exact fun system h => ⟨.refl system, h⟩
    | cons request requests ih =>
        intro system h
        obtain ⟨hcalls, hresets⟩ := ih _ (h.dropSender request
          fun _ _ => .inr trivial)
        exact ⟨(dropSender_calls system request).trans hcalls, hresets⟩
  obtain ⟨hcalls, hresets⟩ := hfold system.requests.queue system h
  exact ⟨hcalls.grows.congr rfl rfl, hresets.congr rfl, hcalls.entered,
    hcalls.started⟩

end System

end ConjureRuntime.Blocking
