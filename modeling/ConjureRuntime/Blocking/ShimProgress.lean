import ConjureRuntime.Blocking.ShimShifts

/-!
# The shim does not hang

Whoever waits does so for one who can go on: the shim for room in the channel
or for an answer, the thread for room among the parts of a write.  As long as
the body and the async writer return, the two sides stop only between calls.
-/

namespace ConjureRuntime.Blocking

open ConjureRuntime.Foundation ConjureRuntime.Service

def WriteBody.Op.IsStream : WriteBody.Op → Prop
  | .write _ | .flush | .writeBytes _ | .bodyReturns _ | .feed | .flushed =>
      True
  | _ => False

theorem WriteBody.thread_goes_on {call : WriteBody} (hlive : call.Live)
    (hactive : call.writer.far = .active)
    (hready : call.parts.pollReady ≠ .pending) :
    ∃ op, op.IsStream ∧ (call.next op).isSome := by
  unfold Live at hlive
  cases hwriter : call.writer with
  | waiting | gone =>
      rw [hwriter] at hactive
      cases hactive
  | writing buf =>
      exact ⟨.bodyReturns (.ok ()), trivial, by simp [next, hwriter]⟩
  | sending caller parts =>
      rw [hwriter] at hlive
      cases parts with
      | nil => exact absurd rfl hlive
      | cons part parts =>
          refine ⟨.feed, trivial, ?_⟩
          simp only [next, WriteBody.feed, hwriter]
          split
          next hpending => exact absurd hpending hready
          next => rfl
          next => split <;> rfl
  | flushing caller parts =>
      refine ⟨.flushed, trivial, ?_⟩
      simp only [next, WriteBody.flushed, hwriter]
      split
      next hpending => exact absurd hpending hready
      next => rfl

namespace System

variable {system system' : System} {event : Event} {request : ShimRequest}

def Op.GoesOn : Op → Prop
  | .callWrite | .callReset | .abandon | .dropShim | .panic => False
  | .sendRequest | .flushRequest | .shimWrite _ | .awaitReset | .nextRequest
  | .streamWrite _ | .resetReturns _ | .sendAnswer => True

def CanGoOn (system : System) : Prop :=
  ∃ op, op.GoesOn ∧ (system.next op).isSome

/-! ## The thread -/

theorem stepWrite_isSome {call : Nat} {write : WriteBody}
    {op : WriteBody.Op} (hwrite : system.writes[call]? = some write)
    (hnext : (write.next op).isSome) : (system.stepWrite call op).isSome := by
  obtain ⟨⟨event, write'⟩, hnext⟩ := Option.isSome_iff_exists.mp hnext
  simp only [stepWrite, hwrite, hnext]
  rfl

theorem streamWrite_isSome {call : Nat} {op : WriteBody.Op}
    (hop : op.IsStream) (hstep : (system.stepWrite call op).isSome) :
    (system.streamWrite call op).isSome := by
  obtain ⟨⟨event, stepped⟩, hstep⟩ := Option.isSome_iff_exists.mp hstep
  cases op with
  | requested | requestFailed | receive | forwardReturned | abandon | start
  | drop => exact hop.elim
  | write | flush | writeBytes | bodyReturns | feed | flushed =>
      simp only [System.streamWrite, hstep]
      cases event <;> rfl

theorem serving_write_goes_on {call : Nat} {write : WriteBody}
    (h : system.Linked) (serving : system.streamer = .serving (.write call))
    (hwrite : system.writes[call]? = some write) (hlive : write.Live)
    (hready : write.parts.pollReady ≠ .pending) : system.CanGoOn := by
  have hfar := (h.thread.serving serving).1
  simp only [far, hwrite, Option.map_some, Option.some.injEq] at hfar
  obtain ⟨op, hop, hnext⟩ := WriteBody.thread_goes_on hlive hfar hready
  refine ⟨.streamWrite op, trivial, ?_⟩
  simp only [next, serving]
  exact streamWrite_isSome hop (stepWrite_isSome hwrite hnext)

theorem serving_reset_goes_on {call : Nat} (h : system.Linked)
    (serving : system.streamer = .serving (.reset call)) : system.CanGoOn := by
  have hfar := (h.thread.serving serving).1
  obtain ⟨reset, hreset, hactive⟩ := Option.map_eq_some_iff.mp hfar
  cases hresetter : reset.resetter with
  | waiting | gone =>
      rw [hresetter] at hactive
      cases hactive
  | resetting =>
      refine ⟨.resetReturns true, trivial, ?_⟩
      simp [next, serving, System.resetReturns, hreset, hresetter]
  | answering answer =>
      refine ⟨.sendAnswer, trivial, ?_⟩
      simp [next, serving, System.sendAnswer, hreset, hresetter]

theorem serving_goes_on (hinv : system.Invariant) (h : system.Linked)
    (serving : system.streamer = .serving request)
    (hleft : system.shim.request ≠ some request) : system.CanGoOn := by
  cases request with
  | write call =>
      have hfar := (h.thread.serving serving).1
      obtain ⟨write, hwrite, -⟩ := Option.map_eq_some_iff.mp hfar
      have hwriteInv := hinv.writes hwrite
      have hnear : system.near (.write call) = some write.reader.near := by
        simp only [near, hwrite, Option.map_some]
      have hreader : write.reader.IsLeft := by
        have hstate := (h.shim.left hnear).resolve_left hleft
        cases hreader : write.reader with
        | returned | abandoned => trivial
        | requesting | receiving | forwarding =>
            rw [hreader] at hstate
            cases hstate
      have hdropped := hwriteInv.left.mpr hreader
      refine serving_write_goes_on h serving hwrite hwriteInv.live ?_
      simp [Channel.pollReady, hdropped]
  | reset call => exact serving_reset_goes_on h serving

theorem nextRequest_isSome (h : system.Linked)
    (hqueue : system.requests.queue ≠ []) : system.nextRequest.isSome := by
  rcases system.requests.pollNext_cases with
    ⟨request, queue, hhead, requests, hpoll, -⟩ | ⟨hnil, -⟩
  · have hmem : request ∈ system.requests.queue :=
      hhead ▸ List.mem_cons_self
    have hfar := (h.thread.queue request hmem).1
    simp only [System.nextRequest, hpoll]
    cases request with
    | write call =>
        obtain ⟨write, hwrite, hwaiting⟩ := Option.map_eq_some_iff.mp hfar
        have hwriter : write.writer = .waiting := by
          cases hwriter : write.writer <;> simp_all [Writer.far]
        have hstep : ({ system with
            requests := requests
            streamer := .serving (.write call)
            started := system.started ++
              [ShimRequest.write call] }.stepWrite call .start).isSome := by
          refine stepWrite_isSome hwrite ?_
          simp [WriteBody.next, hwriter]
        obtain ⟨⟨event, stepped⟩, hstep⟩ := Option.isSome_iff_exists.mp hstep
        simp only [hstep]
        rfl
    | reset call =>
        obtain ⟨reset, hreset, hwaiting⟩ := Option.map_eq_some_iff.mp hfar
        have hresetter : reset.resetter = .waiting := by
          cases hresetter : reset.resetter <;> simp_all [Resetter.far]
        simp [hreset, hresetter]
  · exact absurd hnil hqueue

theorem queue_goes_on (hinv : system.Invariant) (h : system.Linked)
    (hqueue : system.requests.queue ≠ [])
    (hother : ∀ request, system.shim.request = some request →
      system.streamer ≠ .serving request) : system.CanGoOn := by
  cases hstreamer : system.streamer with
  | receiving =>
      refine ⟨.nextRequest, trivial, ?_⟩
      simp only [next, hstreamer]
      exact nextRequest_isSome h hqueue
  | serving request =>
      exact serving_goes_on hinv h hstreamer fun hrequest =>
        hother request hrequest hstreamer
  | gone => exact absurd (h.thread.gone hstreamer) hqueue

/-! ## The shim -/

theorem queue_of_pending (h : system.requests.pollReady = .pending) :
    system.requests.queue ≠ [] := by
  intro hnil
  unfold Channel.pollReady at h
  split at h
  · cases h
  · rw [hnil] at h
    simp at h

theorem sending_goes_on (hinv : system.Invariant) (h : system.Linked)
    (sending : system.shim = .sending request) : system.CanGoOn := by
  cases hready : system.requests.pollReady with
  | pending =>
      refine queue_goes_on hinv h (queue_of_pending hready)
        fun other hother hserving => ?_
      rw [sending] at hother
      cases hother
      exact (h.shim.sending sending).2.2 (h.thread.serving hserving).2
  | ready result =>
      refine ⟨.sendRequest, trivial, ?_⟩
      simp only [next, sending, System.sendRequest, hready]
      cases result with
      | error => rfl
      | ok =>
          dsimp only
          split <;> rfl

theorem flushRequest_isSome {result : Except SendError Unit}
    (hnear : system.near request = some .requesting)
    (hready : system.requests.pollReady = .ready result) :
    (system.flushRequest request).isSome := by
  simp only [System.flushRequest, hready]
  cases request with
  | write call =>
      obtain ⟨write, hwrite, hrequesting⟩ := Option.map_eq_some_iff.mp hnear
      have hreader : write.reader = .requesting := by
        cases hreader : write.reader <;> simp_all [Reader.near]
      have hstep : (system.stepWrite call .requested).isSome :=
        stepWrite_isSome hwrite (by simp [WriteBody.next, hreader])
      obtain ⟨⟨event, stepped⟩, hstep⟩ := Option.isSome_iff_exists.mp hstep
      simp only [hstep]
      rfl
  | reset call =>
      obtain ⟨reset, hreset, hrequesting⟩ := Option.map_eq_some_iff.mp hnear
      have hawaiter : reset.awaiter = .requesting := by
        cases hawaiter : reset.awaiter <;> simp_all [Awaiter.near]
      simp [hreset, hawaiter]

theorem flushing_goes_on (hinv : system.Invariant) (h : system.Linked)
    (flushing : system.shim = .flushing request) : system.CanGoOn := by
  obtain ⟨hnear, -, hlast⟩ := h.shim.flushing flushing
  cases hready : system.requests.pollReady with
  | pending =>
      have hqueue := queue_of_pending hready
      refine queue_goes_on hinv h hqueue fun other hother hserving => ?_
      rw [flushing] at hother
      cases hother
      have hmem := List.getLast_mem hqueue
      rw [hlast _ (List.getLast?_eq_getLast_of_ne_nil hqueue)] at hmem
      exact h.thread.not_queued hserving hmem
  | ready result =>
      refine ⟨.flushRequest, trivial, ?_⟩
      simp only [next, flushing]
      exact flushRequest_isSome hnear hready

theorem calling_cases (h : system.Linked) (hinv : system.Invariant)
    (calling : system.shim = .calling request)
    (hfar : system.far request ≠ some .gone) :
    system.streamer = .serving request ∨ system.CanGoOn := by
  rcases h.thread.entered request (h.shim.calling calling).2 with
    hqueue | hserving | hgone
  · refine .inr (queue_goes_on hinv h (List.ne_nil_of_mem hqueue)
      fun other hother hserving => ?_)
    rw [calling] at hother
    cases hother
    exact h.thread.not_queued hserving hqueue
  · exact .inl hserving
  · exact absurd hgone hfar

theorem shimWrite_isSome {call : Nat} {op : WriteBody.Op}
    (hop : op = .receive ∨ ∃ result, op = .forwardReturned result)
    (hstep : (system.stepWrite call op).isSome) :
    (system.shimWrite call op).isSome := by
  obtain ⟨⟨event, stepped⟩, hstep⟩ := Option.isSome_iff_exists.mp hstep
  rcases hop with rfl | ⟨result, rfl⟩ <;>
    · simp only [System.shimWrite, hstep]
      cases event <;> rfl

theorem calling_write_goes_on {call : Nat} (hinv : system.Invariant)
    (h : system.Linked) (calling : system.shim = .calling (.write call)) :
    system.CanGoOn := by
  have hnear := (h.shim.calling calling).1
  obtain ⟨write, hwrite, hwaiting⟩ := Option.map_eq_some_iff.mp hnear
  have hgoesOn : ∀ op : WriteBody.Op,
      (op = .receive ∨ ∃ result, op = .forwardReturned result) →
      (write.next op).isSome → system.CanGoOn := by
    intro op hop hnext
    refine ⟨.shimWrite op, trivial, ?_⟩
    simp only [next, calling]
    exact shimWrite_isSome hop (stepWrite_isSome hwrite hnext)
  cases hreader : write.reader with
  | requesting | returned | abandoned =>
      rw [hreader] at hwaiting
      cases hwaiting
  | forwarding =>
      exact hgoesOn (.forwardReturned (.ok ())) (.inr ⟨_, rfl⟩)
        (by simp [WriteBody.next, hreader])
  | receiving =>
      rcases write.parts.pollNext_cases with
        ⟨part, queue, hqueue, channel, hpoll, -⟩ | ⟨hnil, hpoll⟩
      · refine hgoesOn .receive (.inl rfl) ?_
        simp only [WriteBody.next, hreader, if_true, WriteBody.receive, hpoll]
        cases part <;> rfl
      · cases hsender : write.parts.senderDropped with
        | true =>
            refine hgoesOn .receive (.inl rfl) ?_
            simp [WriteBody.next, hreader, WriteBody.receive, hpoll, hsender]
        | false =>
            have hlive := (hinv.writes hwrite).live
            have hfar : system.far (.write call) ≠ some .gone := by
              intro hgone
              simp only [far, hwrite, Option.map_some,
                Option.some.injEq] at hgone
              have hwriter : write.writer = .gone := by
                cases hwriter : write.writer <;> simp_all [Writer.far]
              unfold WriteBody.Live at hlive
              rw [hwriter] at hlive
              rw [hsender] at hlive
              cases hlive
            rcases calling_cases h hinv calling hfar with hserving | hcan
            · refine serving_write_goes_on h hserving hwrite hlive ?_
              simp only [Channel.pollReady, hnil]
              split <;> simp
            · exact hcan

theorem calling_reset_goes_on {call : Nat} (hinv : system.Invariant)
    (h : system.Linked) (calling : system.shim = .calling (.reset call)) :
    system.CanGoOn := by
  have hnear := (h.shim.calling calling).1
  obtain ⟨reset, hreset, hwaiting⟩ := Option.map_eq_some_iff.mp hnear
  have hawaiter : reset.awaiter = .awaiting := by
    cases hawaiter : reset.awaiter <;> simp_all [Awaiter.near]
  cases hanswer : reset.answer with
  | sent answer =>
      refine ⟨.awaitReset, trivial, ?_⟩
      simp [next, calling, System.awaitReset, hreset, hawaiter, hanswer]
  | canceled =>
      refine ⟨.awaitReset, trivial, ?_⟩
      simp [next, calling, System.awaitReset, hreset, hawaiter, hanswer]
  | pending =>
      have hfar : system.far (.reset call) ≠ some .gone := by
        intro hgone
        simp only [far, hreset, Option.map_some, Option.some.injEq] at hgone
        have hresetter : reset.resetter = .gone := by
          cases hresetter : reset.resetter <;> simp_all [Resetter.far]
        exact (hinv.resets hreset).left hresetter hanswer
      rcases calling_cases h hinv calling hfar with hserving | hcan
      · exact serving_reset_goes_on h hserving
      · exact hcan

/-! ## Runs -/

def AtRest (system : System) : Prop :=
  system.shim.request = none ∧
    (system.streamer = .gone ∨
      system.streamer = .receiving ∧ system.requests.queue = [])

/-- In every state of every run, something can go on or everything is done. -/
theorem never_hangs {events : List Event}
    (run : Run Step new events system) : system.CanGoOn ∨ system.AtRest := by
  obtain ⟨hinv, h⟩ := run_linked run
  have hidle : system.shim.request = none →
      system.CanGoOn ∨ system.AtRest := by
    intro hnone
    have hother : ∀ request, system.shim.request = some request →
        system.streamer ≠ .serving request := fun request hrequest => by
      rw [hnone] at hrequest
      cases hrequest
    cases hstreamer : system.streamer with
    | gone => exact .inr ⟨hnone, .inl hstreamer⟩
    | serving request =>
        exact .inl (serving_goes_on hinv h hstreamer (by simp [hnone]))
    | receiving =>
        by_cases hqueue : system.requests.queue = []
        · exact .inr ⟨hnone, .inr ⟨hstreamer, hqueue⟩⟩
        · exact .inl (queue_goes_on hinv h hqueue hother)
  cases hshim : system.shim with
  | idle => exact hidle (by rw [hshim]; rfl)
  | dropped => exact hidle (by rw [hshim]; rfl)
  | sending request => exact .inl (sending_goes_on hinv h hshim)
  | flushing request => exact .inl (flushing_goes_on hinv h hshim)
  | calling request =>
      cases request with
      | write call => exact .inl (calling_write_goes_on hinv h hshim)
      | reset call => exact .inl (calling_reset_goes_on hinv h hshim)

def crowdedOps : List Op :=
  [.callWrite, .sendRequest, .nextRequest, .flushRequest,
    .streamWrite (.write [1]), .streamWrite .flush, .streamWrite .feed,
    .abandon, .callReset, .sendRequest]

theorem crowded_goes_on :
    ∃ events system, Run Step new events system ∧
      system.requests.queue = [.reset 0] ∧
      system.streamer = .serving (.write 0) ∧
      (system.CanGoOn ∨ system.AtRest) := by
  have hexec : ∃ events system, exec next new crowdedOps =
      some (events, system) ∧ system.requests.queue = [.reset 0] ∧
      system.streamer = .serving (.write 0) := ⟨_, _, rfl, rfl, rfl⟩
  obtain ⟨events, system, hexec, hqueue, hserving⟩ := hexec
  have run : Run Step new events system :=
    exec_run (fun h => ⟨_, h⟩) hexec
  exact ⟨events, system, run, hqueue, hserving, never_hangs run⟩

end System

end ConjureRuntime.Blocking
