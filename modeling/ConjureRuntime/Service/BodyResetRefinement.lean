import ConjureRuntime.Service.BodyReset

/-!
# Streaming requests as sequences of attempts

Seen from far enough, a streaming request is the loop of attempts: what the
two sides of an attempt do between its start and its end shows only in their
results, and in whether the body was written.
-/

namespace ConjureRuntime.Service.BodyReset

open ConjureRuntime.Foundation ConjureRuntime.Service.Retry

variable {ρ : Type} {service : RetryService} {method : Method}
  {events : List (Event ρ)} {event : Event ρ} {loop loop' : Loop ρ}

def Gets (service : RetryService) (method : Method) (loop : Retry.Loop ρ) :
    Prop :=
  ∃ attempts, Run service.Step (service.call ρ method) attempts loop

structure Retrying (service : RetryService) (method : Method) (state : State)
    (write : Except Error Unit) (response : Except Error ρ) (error : Error)
    (retryAfter : Option Duration) : Prop where
  gets : Gets service method (.attempting state : Retry.Loop ρ)
  retry : sendAttempt (sendRaw write response) state =
    .ok (.retry error retryAfter)

def Refines (service : RetryService) (method : Method) : Loop ρ → Prop
  | .attempting state _ | .sleeping state =>
      Gets service method (.attempting state : Retry.Loop ρ)
  | .returned result => Gets service method (.returned result)
  | .panicked panic => Gets service method (.panicked panic : Retry.Loop ρ)
  | .failed state _ error retryAfter =>
      ∃ write, ∃ response : Except Error ρ,
        Retrying service method state write response error retryAfter
  | .allowed state error retryAfter | .resetting state error retryAfter =>
      ∃ before write, ∃ response : Except Error ρ,
        Retrying service method before write response error retryAfter ∧
        service.nextAttempt before = .ok (some state)
  | .backingOff state retryAfter =>
      ∃ before write error needsReset reset, ∃ response : Except Error ρ,
        Retrying service method before write response error retryAfter ∧
        service.nextAttempt before = .ok (some state) ∧
        ¬ (needsReset = some true ∧ reset = false)

theorem Gets.step {state : State} {loop : Retry.Loop ρ}
    (gets : Gets service method (.attempting state : Retry.Loop ρ))
    (attempt : Retry.Attempt ρ) (h : service.iterate state attempt = loop) :
    Gets service method loop := by
  obtain ⟨attempts, run⟩ := gets
  exact ⟨attempts ++ [attempt], run.step ⟨state, rfl, h.symm⟩⟩

theorem endAttempt_refines {state : State} {attempt : Attempt ρ}
    (gets : Gets service method (.attempting state : Retry.Loop ρ))
    (h : endAttempt state attempt = some (event, loop')) :
    Refines service method loop' := by
  unfold endAttempt at h
  split at h
  · rename_i write response hwriter hresponse
    cases h
    -- Nothing more is asked of an attempt that is not retried.
    have hstep := gets.step ⟨write, response, none, true, id⟩ rfl
    simp only [RetryService.iterate] at hstep
    split
    · rename_i error hsend
      simp only [hsend] at hstep
      exact hstep
    · rename_i response hsend
      simp only [hsend] at hstep
      exact hstep
    · rename_i error retryAfter hsend
      exact ⟨write, response, gets, hsend⟩
  · cases h

theorem checkLimit_refines {state : State} {needsReset : Bool} {error : Error}
    {retryAfter : Option Duration} {write : Except Error Unit}
    {response : Except Error ρ}
    (retrying : Retrying service method state write response error retryAfter) :
    Refines service method
      (checkLimit service state needsReset error retryAfter : Loop ρ) := by
  unfold checkLimit
  split
  · rename_i panic hnext
    refine retrying.gets.step ⟨write, response, none, true, id⟩ ?_
    simp [RetryService.iterate, retrying.retry, RetryService.prepareForRetry,
      hnext, bind, Except.bind]
  · rename_i hnext
    refine retrying.gets.step ⟨write, response, none, true, id⟩ ?_
    simp [RetryService.iterate, retrying.retry, RetryService.prepareForRetry,
      hnext, bind, Except.bind, pure, Except.pure]
  · rename_i state' hnext
    split
    · exact ⟨state, write, response, retrying, hnext⟩
    · exact ⟨state, write, error, none, true, response, retrying, hnext,
        by simp⟩

theorem resetReturns_refines {state before : State} {error : Error}
    {retryAfter : Option Duration} {write : Except Error Unit}
    {response : Except Error ρ} {ok : Bool}
    (retrying : Retrying service method before write response error retryAfter)
    (hnext : service.nextAttempt before = .ok (some state)) :
    Refines service method (if ok then .backingOff state retryAfter
      else .returned (.error error) : Loop ρ) := by
  cases ok with
  | true =>
      exact ⟨before, write, error, some true, true, response, retrying, hnext,
        by simp⟩
  | false =>
      refine retrying.gets.step ⟨write, response, some true, false, id⟩ ?_
      simp [RetryService.iterate, retrying.retry,
        RetryService.prepareForRetry, hnext, bind, Except.bind, pure,
        Except.pure]

theorem backOff_refines {state before : State} {error : Error}
    {retryAfter : Option Duration} {write : Except Error Unit}
    {response : Except Error ρ} {needsReset : Option Bool} {reset : Bool}
    (randomRange : Duration → Duration)
    (retrying : Retrying service method before write response error retryAfter)
    (hnext : service.nextAttempt before = .ok (some state))
    (hreset : ¬ (needsReset = some true ∧ reset = false)) :
    Refines service method
      (backOff service state retryAfter randomRange : Loop ρ) := by
  have hprepare : service.prepareForRetry before
      ⟨write, response, needsReset, reset, randomRange⟩ error retryAfter =
        (service.backoff state retryAfter randomRange).map
          fun _ => .ok state := by
    simp only [RetryService.prepareForRetry, hnext, bind, Except.bind,
      if_neg hreset]
    cases service.backoff state retryAfter randomRange <;> rfl
  unfold backOff
  split
  · rename_i panic hbackoff
    rw [hbackoff] at hprepare
    refine retrying.gets.step
      ⟨write, response, needsReset, reset, randomRange⟩ ?_
    simp [RetryService.iterate, retrying.retry, hprepare, Except.map]
  · rename_i duration hbackoff
    rw [hbackoff] at hprepare
    refine retrying.gets.step
      ⟨write, response, needsReset, reset, randomRange⟩ ?_
    simp [RetryService.iterate, retrying.retry, hprepare, Except.map]

theorem step_refines (refines : Refines service method loop)
    (h : Step service loop event loop') : Refines service method loop' := by
  obtain ⟨op, h⟩ := h
  cases loop with
  | attempting state attempt =>
      cases op with
      | body op =>
          simp only [next] at h
          split at h <;> cases h
          exact refines
      | respond response =>
          simp only [next] at h
          split at h <;> cases h
          exact refines
      | endAttempt => exact endAttempt_refines refines h
      | checkLimit | callReset | resetReturns | backOff | startAttempt =>
          cases h
  | failed state needsReset error retryAfter =>
      cases op <;> cases h
      obtain ⟨write, response, retrying⟩ := refines
      exact checkLimit_refines retrying
  | allowed state error retryAfter =>
      cases op <;> cases h
      exact refines
  | resetting state error retryAfter =>
      cases op <;> cases h
      obtain ⟨before, write, response, retrying, hnext⟩ := refines
      exact resetReturns_refines retrying hnext
  | backingOff state retryAfter =>
      cases op <;> cases h
      obtain ⟨before, write, error, needsReset, reset, response, retrying,
        hnext, hreset⟩ := refines
      exact backOff_refines _ retrying hnext hreset
  | sleeping state =>
      cases op <;> cases h
      exact refines
  | returned | panicked => cases op <;> cases h

theorem run_refines (run : Run (Step service) (call service ρ method) events
    loop) : Refines service method loop :=
  run.invariant (fun _ loop => Refines service method loop) ⟨[], .refl⟩
    fun refines hstep => step_refines refines hstep

end ConjureRuntime.Service.BodyReset
