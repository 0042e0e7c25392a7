import ConjureRuntime.Service.BodyReset
import ConjureRuntime.Service.BodyStart

/-!
# The body reset protocol

A body writer is written and reset in turn.  The tracker of an attempt knows
whether the writer was written since the last reset; the invariant is that
this is what the history says, at every point of the loop.
-/

namespace ConjureRuntime.Service.BodyReset

open ConjureRuntime.Foundation ConjureRuntime.Service.Retry

variable {ρ : Type} {service : RetryService} {events : List (Event ρ)}
  {event : Event ρ} {loop loop' : Loop ρ}

/-! ## What the history says -/

inductive WriterCall where
  | writeBody
  | reset
  deriving DecidableEq

def Event.writerCall : Event ρ → Option WriterCall
  | .body .writeBody => some .writeBody
  | .resetCalled => some .reset
  | _ => none

def writerCalls (events : List (Event ρ)) : List WriterCall :=
  events.filterMap Event.writerCall

def Event.isStart : Event ρ → Bool
  | .attemptStarted => true
  | _ => false

/-- The number of attempts; the first one starts with the call. -/
def attempts (events : List (Event ρ)) : Nat :=
  events.countP Event.isStart + 1

/-- The writer was written and not successfully reset after that. -/
def Dirty (events : List (Event ρ)) : Prop :=
  Since (· = .body .writeBody) (· = .resetReturned true) events

def Polled (events : List (Event ρ)) : Prop :=
  Since (· = .body .polled) (· = .attemptStarted) events

def LastError (error : Error) (events : List (Event ρ)) : Prop :=
  Since (· = .attemptEnded (.error error))
    (fun event => ∃ result, event = .attemptEnded result) events

@[simp] theorem writerCalls_append :
    writerCalls (events ++ [event]) =
      writerCalls events ++ event.writerCall.toList := by
  simp only [writerCalls, List.filterMap_append]
  cases h : event.writerCall <;> simp [h]

@[simp] theorem attempts_append :
    attempts (events ++ [event]) =
      attempts events + if event.isStart then 1 else 0 := by
  cases event <;> simp [attempts, Event.isStart]

theorem dirty_append :
    Dirty (events ++ [event]) ↔ event = .body .writeBody ∨
      (Dirty events ∧ event ≠ .resetReturned true) :=
  since_append

theorem polled_append :
    Polled (events ++ [event]) ↔ event = .body .polled ∨
      (Polled events ∧ event ≠ .attemptStarted) :=
  since_append

theorem lastError_append {error : Error} :
    LastError error (events ++ [event]) ↔
      event = .attemptEnded (.error error) ∨
      (LastError error events ∧ ¬ ∃ result, event = .attemptEnded result) :=
  since_append

/-! ## The invariant -/

/-- The calls so far end with `write_body` if the writer is dirty. -/
structure Tracks (events : List (Event ρ)) (needsReset : Bool) : Prop where
  dirty : needsReset = true ↔ Dirty events
  calls : (writerCalls events).length % 2 = needsReset.toNat

def Agrees (service : RetryService) (events : List (Event ρ)) :
    Loop ρ → Prop
  | .attempting state attempt =>
      Tracks events attempt.needsReset ∧ state.attempt + 1 = attempts events ∧
      (attempt.transfer.polled = .sent → Polled events) ∧
      (attempt.transfer.writer = .waiting → attempt.needsReset = false)
  | .failed state needsReset error _ =>
      Tracks events needsReset ∧ state.attempt + 1 = attempts events ∧
      LastError error events
  | .allowed state error _ =>
      Tracks events true ∧ state.attempt = attempts events ∧
      state.attempt ≤ service.maxNumRetries ∧ LastError error events
  | .resetting state error _ =>
      Dirty events ∧ (writerCalls events).length % 2 = 0 ∧
      state.attempt = attempts events ∧ LastError error events
  | .backingOff state _ | .sleeping state =>
      Tracks events false ∧ state.attempt = attempts events
  | .returned _ | .panicked _ => True

/-- The protocol of the calls on the body writer. -/
structure Protocol (service : RetryService) (events : List (Event ρ)) :
    Prop where
  alternate : Alternates .writeBody .reset (writerCalls events)
  clean : AtEach (· = .body .writeBody) (fun past => ¬ Dirty past) events
  dirty : AtEach (· = .resetCalled) Dirty events
  limit : AtEach (· = .resetCalled)
    (fun past => attempts past ≤ service.maxNumRetries) events
  polled : AtEach (· = .body .writeBody) Polled events

theorem Protocol.other (protocol : Protocol service events)
    (hwrite : event ≠ .body .writeBody) (hreset : event ≠ .resetCalled) :
    Protocol service (events ++ [event]) where
  alternate := by
    have : event.writerCall = none := by
      unfold Event.writerCall
      split <;> simp_all
    simpa [this] using protocol.alternate
  clean := atEach_append.mpr ⟨protocol.clean, fun h => absurd h hwrite⟩
  dirty := atEach_append.mpr ⟨protocol.dirty, fun h => absurd h hreset⟩
  limit := atEach_append.mpr ⟨protocol.limit, fun h => absurd h hreset⟩
  polled := atEach_append.mpr ⟨protocol.polled, fun h => absurd h hwrite⟩

theorem Protocol.writeBody (protocol : Protocol service events)
    (hclean : Tracks events false) (hpolled : Polled events) :
    Protocol service (events ++ [.body .writeBody]) where
  alternate := by
    have hcalls : (writerCalls events).length % 2 = 0 := hclean.calls
    rw [writerCalls_append]
    refine alternates_append.mpr ⟨protocol.alternate, ?_⟩
    rw [if_pos hcalls]
  clean := by
    refine atEach_append.mpr ⟨protocol.clean, fun _ hdirty => ?_⟩
    cases hclean.dirty.mpr hdirty
  dirty := atEach_append.mpr ⟨protocol.dirty, by simp⟩
  limit := atEach_append.mpr ⟨protocol.limit, by simp⟩
  polled := atEach_append.mpr ⟨protocol.polled, fun _ => hpolled⟩

theorem Protocol.resetCalled (protocol : Protocol service events)
    (hdirty : Tracks events true)
    (hlimit : attempts events ≤ service.maxNumRetries) :
    Protocol service (events ++ [.resetCalled]) where
  alternate := by
    have hcalls : (writerCalls events).length % 2 = 1 := hdirty.calls
    rw [writerCalls_append]
    refine alternates_append.mpr ⟨protocol.alternate, ?_⟩
    rw [if_neg (by omega)]
  clean := atEach_append.mpr ⟨protocol.clean, by simp⟩
  dirty := atEach_append.mpr
    ⟨protocol.dirty, fun _ => hdirty.dirty.mp rfl⟩
  limit := atEach_append.mpr ⟨protocol.limit, fun _ => hlimit⟩
  polled := atEach_append.mpr ⟨protocol.polled, by simp⟩

/-! ## Steps -/

theorem Tracks.other {needsReset : Bool} (tracks : Tracks events needsReset)
    (hwrite : event ≠ .body .writeBody) (hreset : event ≠ .resetCalled)
    (hok : event ≠ .resetReturned true) :
    Tracks (events ++ [event]) needsReset where
  dirty := by simp [dirty_append, hwrite, hok, tracks.dirty]
  calls := by
    have : event.writerCall = none := by
      unfold Event.writerCall
      split <;> simp_all
    simpa [this] using tracks.calls

theorem Tracks.writeBody (tracks : Tracks events false) :
    Tracks (events ++ [.body .writeBody]) true where
  dirty := by simp [dirty_append]
  calls := by
    have hcalls : (writerCalls events).length % 2 = 0 := tracks.calls
    simp only [writerCalls_append, Event.writerCall, Option.toList_some,
      List.length_append, List.length_singleton, Bool.toNat_true]
    omega

def Invariant (service : RetryService) (events : List (Event ρ))
    (loop : Loop ρ) : Prop :=
  Protocol service events ∧ Agrees service events loop

theorem body_invariant {state : State} {attempt : Attempt ρ}
    {op : Transfer.Op}
    (inv : Invariant service events (.attempting state attempt))
    (h : next service (.attempting state attempt) (.body op) =
      some (event, loop')) :
    Invariant service (events ++ [event]) loop' := by
  obtain ⟨protocol, tracks, hattempts, hpolled, hwaiting⟩ := inv
  simp only [next, Attempt.body] at h
  cases hnext : attempt.transfer.next op with
  | none => simp [hnext] at h
  | some result =>
      obtain ⟨bodyEvent, transfer⟩ := result
      simp only [hnext] at h
      cases h
      obtain ⟨hsent, hstart, hwaits⟩ := Transfer.next_started hnext
      have hattempts' : state.attempt + 1 =
          attempts (events ++ [Event.body bodyEvent]) := by
        simpa [Event.isStart] using hattempts
      have hpolled' : transfer.polled = .sent →
          Polled (events ++ [Event.body bodyEvent]) := by
        intro h
        rw [polled_append]
        rcases hsent h with h | rfl
        · exact .inr ⟨hpolled h, by simp⟩
        · exact .inl rfl
      by_cases hwrite : bodyEvent = .writeBody
      · subst hwrite
        obtain ⟨hasked, hwriter⟩ := hstart rfl
        rw [hwaiting hwriter] at tracks
        refine ⟨protocol.writeBody tracks (hpolled hasked), ?_, hattempts',
          hpolled', fun h => absurd rfl (hwaits h).2⟩
        simpa [hwaiting hwriter] using tracks.writeBody
      · refine ⟨protocol.other (by simpa using hwrite) (by simp), ?_,
          hattempts', hpolled', fun h => ?_⟩
        · simpa [hwrite] using
            tracks.other (by simpa using hwrite) (by simp) (by simp)
        · simpa [hwrite] using hwaiting (hwaits h).1

theorem endAttempt_invariant {state : State} {attempt : Attempt ρ}
    (inv : Invariant service events (.attempting state attempt))
    (h : endAttempt state attempt = some (event, loop')) :
    Invariant service (events ++ [event]) loop' := by
  obtain ⟨protocol, tracks, hattempts, -⟩ := inv
  unfold endAttempt at h
  split at h
  · rename_i write response hwriter hresponse
    cases h
    refine ⟨protocol.other (by simp) (by simp), ?_⟩
    split
    · trivial
    · trivial
    · rename_i error retryAfter hsend
      obtain ⟨hraw, -⟩ := sendAttempt_eq_retry_iff.mp hsend
      refine ⟨tracks.other (by simp) (by simp) (by simp), ?_, ?_⟩
      · simpa [Event.isStart] using hattempts
      · rw [lastError_append]
        exact .inl (by rw [hraw])
  · cases h

theorem checkLimit_invariant {state : State} {needsReset : Bool}
    {error : Error} {retryAfter : Option Duration}
    (inv : Invariant service events
      (.failed state needsReset error retryAfter : Loop ρ)) :
    Invariant service (events ++ [.limitChecked])
      (checkLimit service state needsReset error retryAfter) := by
  obtain ⟨protocol, tracks, hattempts, hlast⟩ := inv
  refine ⟨protocol.other (by simp) (by simp), ?_⟩
  unfold checkLimit
  split
  · trivial
  · trivial
  · rename_i state' hnext
    unfold RetryService.nextAttempt at hnext
    split at hnext
    · split at hnext <;> cases hnext
      have tracks' : Tracks (events ++ [.limitChecked]) needsReset :=
        tracks.other (by simp) (by simp) (by simp)
      have hattempts' : state.attempt + 1 =
          attempts (events ++ [Event.limitChecked]) := by
        simpa [Event.isStart] using hattempts
      split
      · rename_i hneeds
        rw [hneeds] at tracks'
        refine ⟨tracks', hattempts', by simp only; omega, ?_⟩
        rw [lastError_append]
        exact .inr ⟨hlast, by simp⟩
      · rename_i hneeds
        rw [Bool.not_eq_true] at hneeds
        rw [hneeds] at tracks'
        exact ⟨tracks', hattempts'⟩
    · cases hnext

theorem callReset_invariant {state : State} {error : Error}
    {retryAfter : Option Duration}
    (inv : Invariant service events
      (.allowed state error retryAfter : Loop ρ)) :
    Invariant service (events ++ [.resetCalled])
      (.resetting state error retryAfter) := by
  obtain ⟨protocol, tracks, hattempts, hlimit, hlast⟩ := inv
  have hcalls : (writerCalls events).length % 2 = 1 := tracks.calls
  refine ⟨protocol.resetCalled tracks (by omega), ?_, ?_, ?_, ?_⟩
  · rw [dirty_append]
    exact .inr ⟨tracks.dirty.mp rfl, by simp⟩
  · simp only [writerCalls_append, Event.writerCall, Option.toList_some,
      List.length_append, List.length_singleton]
    omega
  · simpa [Event.isStart] using hattempts
  · rw [lastError_append]
    exact .inr ⟨hlast, by simp⟩

theorem resetReturns_invariant {state : State} {error : Error}
    {retryAfter : Option Duration} {ok : Bool}
    (inv : Invariant service events
      (.resetting state error retryAfter : Loop ρ)) :
    Invariant service (events ++ [.resetReturned ok])
      (if ok then .backingOff state retryAfter
        else .returned (.error error)) := by
  obtain ⟨protocol, hdirty, hcalls, hattempts, -⟩ := inv
  refine ⟨protocol.other (by simp) (by simp), ?_⟩
  cases ok with
  | false => trivial
  | true =>
      refine ⟨⟨by simp [dirty_append], ?_⟩, ?_⟩
      · simpa [Event.writerCall] using hcalls
      · simpa [Event.isStart] using hattempts

theorem backOff_invariant {state : State} {retryAfter : Option Duration}
    {randomRange : Duration → Duration}
    (inv : Invariant service events (.backingOff state retryAfter : Loop ρ)) :
    Invariant service (events ++ [.backedOff])
      (backOff service state retryAfter randomRange) := by
  obtain ⟨protocol, tracks, hattempts⟩ := inv
  refine ⟨protocol.other (by simp) (by simp), ?_⟩
  unfold backOff
  split
  · trivial
  · refine ⟨tracks.other (by simp) (by simp) (by simp), ?_⟩
    simpa [Event.isStart] using hattempts

theorem startAttempt_invariant {state : State}
    (inv : Invariant service events (.sleeping state : Loop ρ)) :
    Invariant service (events ++ [.attemptStarted])
      (.attempting state (.new ρ)) := by
  obtain ⟨protocol, tracks, hattempts⟩ := inv
  refine ⟨protocol.other (by simp) (by simp),
    tracks.other (by simp) (by simp) (by simp), ?_, ?_, fun _ => rfl⟩
  · simpa [Event.isStart] using hattempts
  · intro h
    cases h

theorem respond_invariant {state : State} {attempt : Attempt ρ}
    {response : Except Error ρ}
    (inv : Invariant service events (.attempting state attempt)) :
    Invariant service (events ++ [.responded response])
      (.attempting state { attempt with response := some response }) := by
  obtain ⟨protocol, tracks, hattempts, hpolled, hwaiting⟩ := inv
  refine ⟨protocol.other (by simp) (by simp),
    tracks.other (by simp) (by simp) (by simp), ?_, fun h => ?_, hwaiting⟩
  · simpa [Event.isStart] using hattempts
  · rw [polled_append]
    exact .inr ⟨hpolled h, by simp⟩

theorem step_invariant (inv : Invariant service events loop)
    (h : Step service loop event loop') :
    Invariant service (events ++ [event]) loop' := by
  obtain ⟨op, h⟩ := h
  cases loop with
  | attempting state attempt =>
      cases op with
      | body op => exact body_invariant inv h
      | respond response =>
          simp only [next] at h
          split at h <;> cases h
          exact respond_invariant inv
      | endAttempt => exact endAttempt_invariant inv h
      | checkLimit | callReset | resetReturns | backOff | startAttempt =>
          cases h
  | failed state needsReset error retryAfter =>
      cases op <;> cases h
      exact checkLimit_invariant inv
  | allowed state error retryAfter =>
      cases op <;> cases h
      exact callReset_invariant inv
  | resetting state error retryAfter =>
      cases op <;> cases h
      exact resetReturns_invariant inv
  | backingOff state retryAfter =>
      cases op <;> cases h
      exact backOff_invariant inv
  | sleeping state =>
      cases op <;> cases h
      exact startAttempt_invariant inv
  | returned | panicked => cases op <;> cases h

/-! ## Runs -/

theorem call_invariant {method : Method} :
    Invariant service [] (call service ρ method) := by
  refine ⟨⟨trivial, by simp, by simp, by simp, by simp⟩,
    ⟨⟨by simp [Attempt.new, Dirty], rfl⟩, rfl, ?_, fun _ => rfl⟩⟩
  intro h
  cases h

theorem run_invariant {method : Method}
    (run : Run (Step service) (call service ρ method) events loop) :
    Invariant service events loop :=
  run.invariant (Invariant service) call_invariant step_invariant

theorem refused_step (inv : Invariant service events loop)
    (h : Step service loop (.resetReturned false) loop') :
    ∃ error, LastError error events ∧ loop' = .returned (.error error) := by
  obtain ⟨op, h⟩ := h
  obtain ⟨-, agrees⟩ := inv
  cases loop with
  | resetting state error retryAfter =>
      cases op <;> cases h
      exact ⟨error, agrees.2.2.2, rfl⟩
  | attempting state attempt =>
      cases op with
      | body op =>
          simp only [next] at h
          split at h <;> cases h
      | respond response =>
          simp only [next] at h
          split at h <;> cases h
      | endAttempt =>
          simp only [next, endAttempt] at h
          split at h <;> cases h
      | checkLimit | callReset | resetReturns | backOff | startAttempt =>
          cases h
  | failed | allowed | backingOff | sleeping | returned | panicked =>
      cases op <;> cases h

/-- In every run of a streaming request the writer is written and reset in
turn, a dirty writer is never written and a clean one never reset, no reset
follows the last retry, no unpolled body is written, and a refused reset is
the end. -/
theorem reset_protocol {method : Method}
    (run : Run (Step service) (call service ρ method) events loop) :
    Protocol service events ∧
    ∀ before after, events = before ++ .resetReturned false :: after →
      after = [] ∧
      ∃ error, LastError error before ∧ loop = .returned (.error error) := by
  refine ⟨(run_invariant run).1, ?_⟩
  rintro before after rfl
  obtain ⟨mid, first, rest⟩ := run.split
  obtain ⟨last, hstep, second⟩ := rest.head_step
  obtain ⟨error, hlast, rfl⟩ := refused_step (run_invariant first) hstep
  cases after with
  | nil => exact ⟨rfl, error, hlast, second.eq_of_nil⟩
  | cons event after =>
      obtain ⟨_, ⟨op, hop⟩, -⟩ := second.head_step
      cases op <;> cases hop

def lostConnection : Error :=
  .internalSafe (.rawClientError (.foreign "hyper_util::client::legacy::Error"))

def refusedReset : List (Event Unit) :=
  [.body .polled, .body .writeBody, .body (.writeBodyReturned (.ok ())),
    .body .proceeded, .body .proceeded, .body .doneSent,
    .body (.returned (.ok ())), .responded (.error lostConnection),
    .attemptEnded (.error lostConnection), .limitChecked, .resetCalled]

theorem refused_reset_returns_error :
    ∃ loop, Run (Step .default) (call .default Unit .get)
        (refusedReset ++ [.resetReturned false]) loop ∧
      Protocol .default (refusedReset ++ [.resetReturned false]) ∧
      ∃ error, LastError error refusedReset ∧
        loop = .returned (.error error) := by
  have run : ∃ loop, Run (Step .default) (call .default Unit .get)
      (refusedReset ++ [.resetReturned false]) loop :=
    ⟨_, @exec_run _ _ _ (next .default) (Step .default) (fun h => ⟨_, h⟩)
      [.body .firstPoll, .body .awaitPolled, .body (.writeBodyReturns (.ok ())),
        .body .proceed, .body .proceed, .body .proceed, .body .proceed,
        .respond (.error lostConnection), .endAttempt, .checkLimit, .callReset,
        .resetReturns false] _ _ _ rfl⟩
  obtain ⟨loop, run⟩ := run
  obtain ⟨protocol, hrefused⟩ := reset_protocol run
  exact ⟨loop, run, protocol, (hrefused _ [] rfl).2⟩

end ConjureRuntime.Service.BodyReset
