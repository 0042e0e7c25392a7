import ConjureRuntime.Blocking.ShimShifts

/-!
# What the shim forwards

The bytes that a write has forwarded are those of its events, whatever the
two sides do in other calls, and a write that has returned stays so.
-/

namespace ConjureRuntime.Blocking

open ConjureRuntime.Foundation ConjureRuntime.Service

namespace WriteBody

def Event.forwardedData : Event → Bytes
  | .forwarded bytes => bytes
  | _ => []

variable {call call' : WriteBody} {event : Event} {op : Op}

def Forwards (call : WriteBody) (result : Event × WriteBody) : Prop :=
  result.2.forwarded = call.forwarded ++ result.1.forwardedData

theorem sent_forwards (call : WriteBody) (result : Except IoError Unit)
    (caller : Caller) : call.Forwards (call.sent result caller) := by
  cases caller <;> exact (List.append_nil _).symm

theorem send_forwards (call : WriteBody) (caller : Caller)
    (parts : List BodyPart) : call.Forwards (call.send caller parts) := by
  cases parts with
  | nil => exact sent_forwards call _ caller
  | cons => exact (List.append_nil _).symm

theorem receive_forwards (h : call.receive = some (event, call')) :
    call.Forwards (event, call') := by
  unfold receive at h
  split at h <;> cases h <;> simp [Forwards, leave, Event.forwardedData]

theorem next_forwards (h : call.next op = some (event, call')) :
    call.Forwards (event, call') := by
  cases takes_of_next h with
  | receive _ receives => exact receive_forwards receives
  | requested | requestFailed | forwarded | forwardFailed | abandon | start
  | drop => exact (List.append_nil _).symm
  | write data _ writes =>
      rw [← writes]
      unfold WriteBody.write
      dsimp only
      split
      · exact send_forwards _ _ _
      · exact (List.append_nil _).symm
  | flush _ flushes =>
      rw [← flushes]
      exact send_forwards _ _ _
  | writeBytes data _ writes =>
      rw [← writes]
      exact send_forwards _ _ _
  | bodyReturns result _ returns =>
      rw [← returns]
      cases result <;> exact (List.append_nil _).symm
  | feed feeds =>
      unfold WriteBody.feed at feeds
      split at feeds
      · split at feeds
        · cases feeds
        · rw [← Option.some.inj feeds]
          exact sent_forwards _ _ _
        · split at feeds
          · cases feeds
            exact (List.append_nil _).symm
          · rw [← Option.some.inj feeds]
            exact sent_forwards _ _ _
      · cases feeds
  | flushed flushes =>
      unfold WriteBody.flushed at flushes
      split at flushes
      · split at flushes
        · cases flushes
        · rw [← Option.some.inj flushes]
          exact send_forwards _ _ _
      · cases flushes

theorem next_returned {result : Except Error Unit}
    (h : call.next op = some (event, call'))
    (hreturned : call.reader = .returned result) :
    call'.reader = .returned result := by
  by_cases hop : op.IsShim
  · cases takes_of_next h with
    | requested reader | requestFailed _ reader | receive reader
    | forwarded reader | forwardFailed _ reader =>
        rw [hreturned] at reader
        cases reader
    | abandon reader =>
        rw [hreturned] at reader
        exact absurd trivial reader
    | start | write | flush | writeBytes | bodyReturns | feed | flushed
    | drop => exact hop.elim
  · rw [(thread_moves hop h).reader]
    exact hreturned

end WriteBody

namespace System

def Event.forwardedData (call : Nat) : Event → Bytes
  | .write other event => if other = call then event.forwardedData else []
  | _ => []

variable {system system' : System} {event : Event} {request : ShimRequest}

def forwardedOf (system : System) (call : Nat) : Bytes :=
  ((system.writes[call]?).map WriteBody.forwarded).getD []

def HasReturned (system : System) (call : Nat) (result : Except Error Unit) :
    Prop :=
  ∃ write, system.writes[call]? = some write ∧
    write.reader = .returned result

structure Forwards (system : System) (data : Nat → Bytes) (system' : System) :
    Prop where
  length : system.writes.length ≤ system'.writes.length
  forwarded : ∀ call, system'.forwardedOf call =
    system.forwardedOf call ++ data call
  returned : ∀ {call result}, system.HasReturned call result →
    system'.HasReturned call result

abbrev Keeps (system system' : System) : Prop :=
  system.Forwards (fun _ => []) system'

theorem keeps_of_writes (h : system'.writes = system.writes) :
    system.Keeps system' where
  length := by rw [h]
  forwarded call := by simp [forwardedOf, h]
  returned := by
    unfold HasReturned
    rw [h]
    exact id

theorem Keeps.trans {data : Nat → Bytes} {system'' : System}
    (first : system.Keeps system') (second : system'.Forwards data system'') :
    system.Forwards data system'' where
  length := Nat.le_trans first.length second.length
  forwarded call := by simp [second.forwarded, first.forwarded]
  returned h := second.returned (first.returned h)

theorem Forwards.congr {data : Nat → Bytes} {system'' : System}
    (h : system.Forwards data system')
    (hwrites : system''.writes = system'.writes) :
    system.Forwards data system'' where
  length := by
    rw [hwrites]
    exact h.length
  forwarded call := by
    rw [← h.forwarded]
    simp only [forwardedOf, hwrites]
  returned hreturned := by
    unfold HasReturned
    rw [hwrites]
    exact h.returned hreturned

theorem stepWrite_forwards {call : Nat} {op : WriteBody.Op}
    {event : WriteBody.Event}
    (h : system.stepWrite call op = some (event, system')) :
    system.Forwards (fun other => (Event.write call event).forwardedData other)
      system' := by
  obtain ⟨write, write', hwrite, hnext, rfl⟩ := stepWrite_cases h
  have hlt := (List.getElem?_eq_some_iff.mp hwrite).1
  constructor
  · simp
  · intro other
    by_cases heq : call = other
    · subst heq
      simp only [forwardedOf, hwrite, List.getElem?_set_self hlt,
        Option.map_some, Option.getD_some, Event.forwardedData, if_true]
      exact WriteBody.next_forwards hnext
    · simp [forwardedOf, heq, Event.forwardedData]
  · rintro other result ⟨before, hbefore, hreturned⟩
    by_cases heq : call = other
    · subst heq
      cases hwrite.symm.trans hbefore
      exact ⟨write', by simp [hlt], WriteBody.next_returned hnext hreturned⟩
    · exact ⟨before, by simpa [heq] using hbefore, hreturned⟩

theorem stepWrite_keeps {call : Nat} {op : WriteBody.Op}
    {event : WriteBody.Event} (hevent : event.forwardedData = [])
    (h : system.stepWrite call op = some (event, system')) :
    system.Keeps system' := by
  have hforwards := stepWrite_forwards h
  refine ⟨hforwards.length, fun other => ?_, hforwards.returned⟩
  simpa [Event.forwardedData, hevent] using hforwards.forwarded other

theorem dropSender_keeps (system : System) (request : ShimRequest) :
    system.Keeps (system.dropSender request) := by
  cases request with
  | write call =>
      unfold dropSender
      dsimp only
      split
      · rename_i event system' hstep
        obtain ⟨write, write', -, hnext, -⟩ := stepWrite_cases hstep
        cases WriteBody.takes_of_next hnext with
        | drop => exact stepWrite_keeps rfl hstep
      · exact keeps_of_writes rfl
  | reset call =>
      unfold dropSender
      dsimp only
      split <;> exact keeps_of_writes rfl

theorem leave_keeps (system : System) : system.Keeps system.leave := by
  have hfold : ∀ (requests : List ShimRequest) (system : System),
      system.Keeps (requests.foldl dropSender system) := by
    intro requests
    induction requests with
    | nil => exact fun system => keeps_of_writes rfl
    | cons request requests ih =>
        exact fun system => (dropSender_keeps system request).trans (ih _)
  exact (hfold system.requests.queue system).congr rfl

theorem giveUp_keeps (system : System) (request : ShimRequest) :
    system.Keeps (system.giveUp request) := by
  cases request with
  | write call =>
      unfold giveUp
      dsimp only
      split
      · rename_i event system' hstep
        obtain ⟨write, write', -, hnext, -⟩ := stepWrite_cases hstep
        cases WriteBody.takes_of_next hnext with
        | abandon =>
            have hkeeps : system.Keeps system' := stepWrite_keeps rfl hstep
            exact hkeeps.congr rfl
      · exact keeps_of_writes rfl
  | reset call =>
      unfold giveUp
      dsimp only
      split <;> exact keeps_of_writes rfl

theorem failRequest_keeps (system : System) (error : SendError)
    (request : ShimRequest) :
    system.Keeps (system.failRequest error request) := by
  cases request with
  | write call =>
      unfold failRequest
      dsimp only
      split
      · rename_i event system' hstep
        obtain ⟨write, write', -, hnext, -⟩ := stepWrite_cases hstep
        cases WriteBody.takes_of_next hnext with
        | requestFailed =>
            have hkeeps : system.Keeps system' := stepWrite_keeps rfl hstep
            exact hkeeps.congr rfl
      · exact keeps_of_writes rfl
  | reset call =>
      unfold failRequest
      dsimp only
      split <;> exact keeps_of_writes rfl

/-! ## Steps -/

theorem Event.forwardedData_of_ne
    (h : ∀ call event', event ≠ .write call event') (call : Nat) :
    event.forwardedData call = [] := by
  cases event with
  | write other event' => exact absurd rfl (h other event')
  | _ => rfl

theorem Keeps.forwards (h : system.Keeps system')
    (hevent : ∀ call event', event ≠ .write call event') :
    system.Forwards event.forwardedData system' where
  length := h.length
  forwarded call := by
    rw [h.forwarded, Event.forwardedData_of_ne hevent]
  returned := h.returned

theorem unchanged_forwards (hwrites : system'.writes = system.writes)
    (hevent : ∀ call event', event ≠ .write call event') :
    system.Forwards event.forwardedData system' :=
  (keeps_of_writes hwrites).forwards hevent

theorem sendRequest_forwards
    (h : system.sendRequest request = some (event, system')) :
    system.Forwards event.forwardedData system' := by
  have hfail : ∀ error, system.Keeps
      ((system.failRequest error request).dropSender request) := fun error =>
    (failRequest_keeps system error request).trans (dropSender_keeps _ request)
  unfold System.sendRequest at h
  split at h
  · cases h
  · cases h
    exact (hfail _).forwards (by simp)
  · split at h
    · cases h
      exact unchanged_forwards rfl (by simp)
    · cases h
      exact (hfail _).forwards (by simp)

theorem flushRequest_forwards
    (h : system.flushRequest request = some (event, system')) :
    system.Forwards event.forwardedData system' := by
  unfold System.flushRequest at h
  split at h
  · cases h
  · cases request with
    | write call =>
        dsimp only at h
        split at h
        · rename_i event' stepped hstep
          obtain ⟨write, write', -, hnext, -⟩ := stepWrite_cases hstep
          cases h
          cases WriteBody.takes_of_next hnext with
          | requested =>
              have hkeeps : system.Keeps stepped := stepWrite_keeps rfl hstep
              exact Keeps.forwards (hkeeps.congr rfl) (by simp)
        · cases h
    | reset call =>
        dsimp only at h
        split at h
        · split at h
          · cases h
            exact unchanged_forwards rfl (by simp)
          · cases h
        · cases h

theorem shimWrite_event {call : Nat} {op : WriteBody.Op}
    (h : system.shimWrite call op = some (event, system')) :
    (op = .receive ∨ ∃ result, op = .forwardReturned result) ∧
      ∃ event' stepped, event = .write call event' ∧
        system.stepWrite call op = some (event', stepped) ∧
        system'.writes = stepped.writes := by
  unfold shimWrite at h
  split at h
  case h_3 => cases h
  all_goals
    refine ⟨by simp, ?_⟩
    split at h
    · rename_i hstep
      cases h
      exact ⟨_, _, rfl, hstep, rfl⟩
    · rename_i hstep
      cases h
      exact ⟨_, _, rfl, hstep, rfl⟩
    · cases h

theorem streamWrite_event {call : Nat} {op : WriteBody.Op}
    (h : system.streamWrite call op = some (event, system')) :
    ∃ event' stepped, event = .write call event' ∧
      system.stepWrite call op = some (event', stepped) ∧
      system'.writes = stepped.writes := by
  unfold streamWrite at h
  split at h
  case h_7 => cases h
  all_goals
    split at h
    · rename_i hstep
      cases h
      exact ⟨_, _, rfl, hstep, rfl⟩
    · rename_i hstep
      cases h
      exact ⟨_, _, rfl, hstep, rfl⟩
    · cases h

theorem awaitReset_forwards {call : Nat}
    (h : system.awaitReset call = some (event, system')) :
    system.Forwards event.forwardedData system' := by
  unfold System.awaitReset at h
  split at h
  · cases h
  · split at h
    · cases h
      exact unchanged_forwards rfl (by simp)
    · cases h
      exact unchanged_forwards rfl (by simp)
    · cases h

theorem nextRequest_forwards
    (h : system.nextRequest = some (event, system')) :
    system.Forwards event.forwardedData system' := by
  have hevent : ∀ call event', event ≠ .write call event' := by
    intro call event' heq
    subst heq
    unfold System.nextRequest at h
    split at h
    · cases h
    · cases h
    · split at h <;> dsimp only at h
      · split at h <;> cases h
      · split at h
        · split at h <;> cases h
        · cases h
  rcases nextRequest_cases h with
    ⟨call, requests, event', -, -, hstep⟩ |
    ⟨call, reset, requests, -, -, -, -, rfl⟩ | rfl
  · obtain ⟨write, write', -, hnext, -⟩ := stepWrite_cases hstep
    cases WriteBody.takes_of_next hnext with
    | start =>
        have hkeeps : system.Keeps { system with
            requests := requests
            streamer := .serving (.write call)
            started := system.started ++ [ShimRequest.write call] } :=
          keeps_of_writes rfl
        exact Keeps.forwards (hkeeps.trans (stepWrite_keeps rfl hstep)) hevent
  · exact unchanged_forwards rfl hevent
  · exact (leave_keeps system).forwards hevent

theorem Step.forwards (h : Step system event system') :
    system.Forwards event.forwardedData system' := by
  cases h.takes with
  | callWrite =>
      refine ⟨by simp, fun call => ?_, fun {call result} hreturned => ?_⟩
      · cases hnew : (system.writes ++ [WriteBody.new])[call]? with
        | none =>
            have hlength := List.getElem?_eq_none_iff.mp hnew
            rw [List.length_append] at hlength
            have hbefore : system.writes[call]? = none :=
              List.getElem?_eq_none_iff.mpr (by omega)
            simp [forwardedOf, hnew, hbefore, Event.forwardedData]
        | some write =>
            rcases getElem?_append_singleton_cases hnew with
              hbefore | ⟨rfl, rfl⟩
            · simp [forwardedOf, hnew, hbefore, Event.forwardedData]
            · simp [forwardedOf, WriteBody.new, Event.forwardedData]
      · obtain ⟨write, hwrite, hreader⟩ := hreturned
        have hlt := (List.getElem?_eq_some_iff.mp hwrite).1
        exact ⟨write, by rwa [List.getElem?_append_left hlt], hreader⟩
  | callReset | dropShim =>
      exact unchanged_forwards rfl (by simp)
  | sendRequest _ sends => exact sendRequest_forwards sends
  | flushRequest _ flushes => exact flushRequest_forwards flushes
  | shimWrite _ writes =>
      obtain ⟨-, event', stepped, rfl, hstep, hwrites⟩ := shimWrite_event writes
      exact (stepWrite_forwards hstep).congr hwrites
  | awaitReset _ awaits => exact awaitReset_forwards awaits
  | abandonUnsent =>
      exact Keeps.forwards ((giveUp_keeps _ _).trans (dropSender_keeps _ _))
        (by simp)
  | abandon => exact (giveUp_keeps _ _).forwards (by simp)
  | nextRequest _ takes => exact nextRequest_forwards takes
  | streamWrite _ writes =>
      obtain ⟨event', stepped, rfl, hstep, hwrites⟩ := streamWrite_event writes
      exact (stepWrite_forwards hstep).congr hwrites
  | resetReturns _ returns =>
      unfold System.resetReturns at returns
      split at returns
      · cases returns
      · split at returns
        · cases returns
          exact unchanged_forwards rfl (by simp)
        · cases returns
  | sendAnswer _ sends =>
      unfold System.sendAnswer at sends
      split at sends
      · cases sends
      · split at sends
        · cases sends
          exact unchanged_forwards rfl (by simp)
        · cases sends
  | panic =>
      exact Keeps.forwards ((dropSender_keeps _ _).trans (leave_keeps _))
        (by simp)

end System

end ConjureRuntime.Blocking
