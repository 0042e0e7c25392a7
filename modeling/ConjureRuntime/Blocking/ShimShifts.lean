import ConjureRuntime.Blocking.ShimLinks

/-!
# What each step does to the calls

Every step is one of the shifts of the two ends, so each side stays at the
call that its state says in every run.
-/

namespace ConjureRuntime.Blocking

open ConjureRuntime.Foundation ConjureRuntime.Service

namespace System

variable {system system' : System} {event : Event}

/-! ## Steps -/

section

variable {request : ShimRequest}

theorem getElem?_concat_ne {α : Type} (items : List α) (item : α)
    {index : Nat} (hne : index ≠ items.length) :
    (items ++ [item])[index]? = items[index]? := by
  rcases Nat.lt_or_ge index items.length with hlt | hge
  · exact List.getElem?_append_left hlt
  · rw [List.getElem?_eq_none_iff.mpr hge, List.getElem?_eq_none_iff]
    simp only [List.length_append, List.length_singleton]
    omega

theorem shifts_callWrite (idle : system.shim = .idle) :
    Shifts system { system with
      writes := system.writes ++ [WriteBody.new]
      shim := .sending (.write system.writes.length) } := by
  refine .called (.write system.writes.length) idle rfl ?_ ?_ ?_
    ⟨fun other hne => ?_, fun other hne => ?_⟩ ⟨rfl, rfl, rfl⟩
  · simp [far]
  · simp [near, WriteBody.new, Reader.near]
  · simp [far, WriteBody.new, Writer.far]
  · cases other with
    | write other =>
        have hother : other ≠ system.writes.length := fun heq =>
          hne (heq ▸ rfl)
        simp only [near, getElem?_concat_ne _ _ hother]
    | reset => rfl
  · cases other with
    | write other =>
        have hother : other ≠ system.writes.length := fun heq =>
          hne (heq ▸ rfl)
        simp only [far, getElem?_concat_ne _ _ hother]
    | reset => rfl

theorem shifts_callReset (idle : system.shim = .idle) :
    Shifts system { system with
      resets := system.resets ++ [Reset.new]
      shim := .sending (.reset system.resets.length) } := by
  refine .called (.reset system.resets.length) idle rfl ?_ ?_ ?_
    ⟨fun other hne => ?_, fun other hne => ?_⟩ ⟨rfl, rfl, rfl⟩
  · simp [far]
  · simp [near, Reset.new, Awaiter.near]
  · simp [far, Reset.new, Resetter.far]
  · cases other with
    | reset other =>
        have hother : other ≠ system.resets.length := fun heq =>
          hne (heq ▸ rfl)
        simp only [near, getElem?_concat_ne _ _ hother]
    | write => rfl
  · cases other with
    | reset other =>
        have hother : other ≠ system.resets.length := fun heq =>
          hne (heq ▸ rfl)
        simp only [far, getElem?_concat_ne _ _ hother]
    | write => rfl

theorem shifts_unsent (sending : system.shim = .sending request)
    (hleaves : LeavesCall request system system')
    (hcalls : CallsOnly system system') :
    Shifts system (system'.dropSender request) := by
  have hloses := dropSender_loses system' request
  refine .unsent request sending (hloses.shim.trans hleaves.shim)
    (hloses.near ▸ hleaves.near)
    ⟨fun other hne => ?_, fun other hne => ?_⟩
    (.of_calls (hcalls.trans (dropSender_calls system' request)))
  · rw [hloses.touches.near other hne, hleaves.touches.near other hne]
  · rw [hloses.touches.far other hne, hleaves.touches.far other hne]

theorem shifts_sendRequest (hinv : system.Invariant) (h : system.Linked)
    (sending : system.shim = .sending request)
    (hsend : system.sendRequest request = some (event, system')) :
    Shifts system system' := by
  have hrequesting := (h.shim.sending sending).1
  have hfailed : ∀ error,
      Shifts system ((system.failRequest error request).dropSender request) :=
    fun error => shifts_unsent sending (failRequest_leaves error hrequesting)
      (failRequest_calls system error request)
  unfold System.sendRequest at hsend
  split at hsend
  · cases hsend
  · cases hsend
    exact hfailed _
  · rename_i hready
    obtain ⟨hattached, -⟩ := Channel.pollReady_eq_ok_iff.mp hready
    have there : system.streamer ≠ .gone := by
      intro hgone
      rw [hinv.gone.mp hgone] at hattached
      cases hattached
    rcases Channel.startSend_cases request with
      ⟨requests, hstart, -, hqueue, -, -, -⟩ | ⟨error, hstart, -⟩
    · rw [hstart] at hsend
      cases hsend
      exact .sent request sending rfl there (ends_congr rfl rfl).1
        (ends_congr rfl rfl).2 hqueue rfl rfl
    · rw [hstart] at hsend
      cases hsend
      exact hfailed _

theorem shifts_goesOn_write {call : Nat} {op : WriteBody.Op}
    {event : WriteBody.Event} {write' : WriteBody}
    (inCall : system.shim = .flushing (.write call) ∨
      system.shim = .calling (.write call))
    (hstep : system.stepWrite call op = some (event, system'))
    (hop : op.IsShim) (hwrite' : system'.writes[call]? = some write')
    (hnear : write'.reader.near = .waiting) :
    Shifts system { system' with shim := .calling (.write call) } := by
  obtain ⟨-, -, -, -, -, touches, -⟩ := stepWrite_ends hstep
  refine .goesOn (.write call) inCall rfl ?_ (touches.setShim _)
    ((far_setShim _ _).trans (stepWrite_far hop hstep))
    (.of_calls ((stepWrite_calls hstep).1.setShim _))
  simp only [near, hwrite', Option.map_some, hnear]

theorem shifts_flushRequest (flushing : system.shim = .flushing request)
    (hflush : system.flushRequest request = some (event, system')) :
    Shifts system system' := by
  unfold System.flushRequest at hflush
  split at hflush
  · cases hflush
  · cases request with
    | write call =>
        dsimp only at hflush
        split at hflush
        · rename_i stepped hstep
          cases hflush
          obtain ⟨write, write', -, hnext, hwrite', -, -⟩ :=
            stepWrite_ends hstep
          refine shifts_goesOn_write (.inl flushing) hstep trivial hwrite' ?_
          simp only [WriteBody.next] at hnext
          split at hnext
          · cases hnext
            rfl
          · cases hnext
        · cases hflush
    | reset call =>
        dsimp only at hflush
        split at hflush
        · rename_i reset hreset
          split at hflush
          · cases hflush
            obtain ⟨hreset', touches⟩ :=
              setReset_ends { reset with awaiter := .awaiting } hreset
            refine .goesOn (.reset call) (.inl flushing) rfl ?_
              (touches.setShim _)
              ((far_setShim _ _).trans (setReset_far _ hreset rfl))
              ⟨rfl, rfl, rfl⟩
            simp only [near, hreset', Option.map_some]
            rfl
          · cases hflush
        · cases hflush

theorem shifts_left (inCall : system.shim = .flushing request ∨
      system.shim = .calling request)
    (hleaves : LeavesCall request system system')
    (hcalls : CallsOnly system system') : Shifts system system' :=
  .left request inCall hleaves.shim hleaves.near hleaves.touches hleaves.far
    (.of_calls hcalls)

theorem shifts_shimWrite {call : Nat} {op : WriteBody.Op}
    (calling : system.shim = .calling (.write call))
    (hwrite : system.shimWrite call op = some (event, system')) :
    Shifts system system' := by
  obtain ⟨hop, event', stepped, hstep, hsystem'⟩ := shimWrite_cases hwrite
  have hshim : op.IsShim := by
    rcases hop with rfl | ⟨result, rfl⟩ <;> trivial
  obtain ⟨write, write', -, hnext, hwrite', -, hsame⟩ := stepWrite_ends hstep
  have hloop := WriteBody.near_of_loop hop hnext
  rcases hsystem' with ⟨result, heq, rfl⟩ | ⟨hne, rfl⟩
  · have hleft : write'.reader.near = .left := by
      rcases hloop with ⟨-, -, hleft⟩ | ⟨hgoes, -⟩
      · exact hleft
      · exact absurd heq (hgoes result)
    exact shifts_left (.inr calling)
      (leavesCall_stepWrite write' hstep hshim hwrite' hleft)
      ((stepWrite_calls hstep).1.setShim _)
  · have hwaiting : write'.reader.near = .waiting := by
      rcases hloop with ⟨result, heq, -⟩ | ⟨-, hwaiting⟩
      · exact absurd heq (hne result)
      · exact hwaiting
    have hstays : { system' with shim := .calling (.write call) } =
        system' := by
      rw [← calling, ← hsame]
    exact hstays ▸
      shifts_goesOn_write (.inr calling) hstep hshim hwrite' hwaiting

theorem shifts_awaitReset {call : Nat}
    (calling : system.shim = .calling (.reset call))
    (hawait : system.awaitReset call = some (event, system')) :
    Shifts system system' := by
  unfold System.awaitReset at hawait
  split at hawait
  · cases hawait
  · rename_i reset hreset
    have hleft : ∀ answer, Shifts system
        { system.setReset call { reset with awaiter := .returned answer } with
          shim := .idle } := by
      intro answer
      have hcalls : CallsOnly system (system.setReset call
          { reset with awaiter := .returned answer }) :=
        setReset_calls hreset fun hgone => hgone
      exact shifts_left (.inr calling) (leavesCall_setReset hreset rfl rfl)
        (hcalls.setShim .idle)
    split at hawait
    · cases hawait
      exact hleft _
    · cases hawait
      exact hleft false
    · cases hawait

/-! ## Steps of the thread -/

theorem shifts_starts_write {requests : Channel ShimRequest} {call : Nat}
    {event : WriteBody.Event} (receiving : system.streamer = .receiving)
    (queue : system.requests.queue = .write call :: requests.queue)
    (hstep : { system with
        requests := requests
        streamer := .serving (.write call)
        started := system.started ++ [ShimRequest.write call] }.stepWrite call
          .start = some (event, system')) : Shifts system system' := by
  obtain ⟨write, write', -, hnext, hwrite', touches, hshim⟩ :=
    stepWrite_ends hstep
  have hcalls := (stepWrite_calls hstep).1
  refine .starts (.write call) receiving hshim
    ((stepWrite_near id hstep).trans (ends_congr rfl rfl).1) ?_
    ⟨touches.near, touches.far⟩ (by rw [hcalls.requests]; exact queue)
    hcalls.streamer hcalls.entered
  simp only [WriteBody.next] at hnext
  split at hnext
  · cases hnext
    simp only [far, hwrite', Option.map_some]
    rfl
  · cases hnext

theorem shifts_leave (hlinked : system.ThreadLinked)
    (receiving : system.streamer = .receiving) :
    Shifts system system.leave := by
  have hleaves := leave_leaves fun request hmem =>
    (hlinked.queue request hmem).1
  refine .leaves hleaves.shim hleaves.near (fun request hended => ?_)
    (fun request hqueue _ => hleaves.others request hqueue) rfl rfl
    hleaves.entered
  rcases hended with hqueue | hserving
  · exact hleaves.queued request hqueue
  · rw [receiving] at hserving
    cases hserving

theorem shifts_nextRequest (h : system.Linked)
    (receiving : system.streamer = .receiving)
    (hnext : system.nextRequest = some (event, system')) :
    Shifts system system' := by
  rcases nextRequest_cases hnext with
    ⟨call, requests, event', hqueue, -, hstep⟩ |
    ⟨call, reset, requests, hqueue, -, hreset, -, rfl⟩ | rfl
  · exact shifts_starts_write receiving hqueue hstep
  · obtain ⟨hreset', touches⟩ :=
      setReset_ends { reset with resetter := .resetting } hreset
    have hsame := setReset_near
      { reset with resetter := .resetting } hreset rfl
    refine .starts (.reset call) receiving rfl
      ((ends_congr rfl rfl).1.trans hsame) ?_
      ⟨touches.near, touches.far⟩ hqueue rfl rfl
    change ((system.setReset call _).resets[call]?).map _ = _
    rw [hreset']
    rfl
  · exact shifts_leave h.thread receiving

theorem shifts_streamWrite {call : Nat} {op : WriteBody.Op}
    (serving : system.streamer = .serving (.write call))
    (hwrite : system.streamWrite call op = some (event, system')) :
    Shifts system system' := by
  obtain ⟨hop, event', stepped, hstep, hsystem'⟩ := streamWrite_cases hwrite
  obtain ⟨write, write', -, hnext, hwrite', touches, hshim⟩ :=
    stepWrite_ends hstep
  have hcalls := (stepWrite_calls hstep).1
  have hnear := stepWrite_near hop hstep
  have hfar : stepped.far (.write call) = some write'.writer.far := by
    simp only [far, hwrite', Option.map_some]
  rcases hsystem' with ⟨heq, rfl⟩ | ⟨hne, rfl⟩
  · subst heq
    have hgone := (WriteBody.thread_moves hop hnext).gone
    have hsame : { stepped with streamer := .receiving }.near =
          stepped.near ∧
        { stepped with streamer := .receiving }.far = stepped.far :=
      ends_congr rfl rfl
    refine .finishes (.write call) serving hshim
      (hsame.1.trans hnear) ?_ ⟨fun other hne => ?_, fun other hne => ?_⟩
      (congrArg Channel.queue hcalls.requests) rfl hcalls.entered
    · rw [hsame.2, hfar, hgone]
      rfl
    · rw [hsame.1, touches.near other hne]
    · rw [hsame.2, touches.far other hne]
  · have hactive := (WriteBody.thread_moves hop hnext).active hne
    exact .works (.write call) serving hshim hnear
      (by rw [hfar, hactive]) touches (.of_calls hcalls)

theorem shifts_resetReturns {call : Nat} {answer : Bool}
    (serving : system.streamer = .serving (.reset call))
    (hreturns : system.resetReturns call answer = some (event, system')) :
    Shifts system system' := by
  unfold System.resetReturns at hreturns
  split at hreturns
  · cases hreturns
  · rename_i reset hreset
    split at hreturns
    · cases hreturns
      obtain ⟨hreset', touches⟩ := setReset_ends { reset with
        resetter := .answering answer, answered := some answer } hreset
      refine .works (.reset call) serving rfl (setReset_near _ hreset rfl) ?_
        touches ⟨rfl, rfl, rfl⟩
      simp only [far, hreset', Option.map_some]
      rfl
    · cases hreturns

theorem shifts_sendAnswer {call : Nat}
    (serving : system.streamer = .serving (.reset call))
    (hsend : system.sendAnswer call = some (event, system')) :
    Shifts system system' := by
  unfold System.sendAnswer at hsend
  split at hsend
  · cases hsend
  · rename_i reset hreset
    split at hsend
    · rename_i answer hanswering
      cases hsend
      obtain ⟨hreset', touches⟩ := setReset_ends { reset with
        answer := .sent answer, resetter := .gone } hreset
      have hsame := setReset_near { reset with
        answer := .sent answer, resetter := .gone } hreset rfl
      refine .finishes (.reset call) serving rfl
        ((ends_congr rfl rfl).1.trans hsame) ?_ ⟨touches.near, touches.far⟩
        rfl rfl rfl
      change ((system.setReset call _).resets[call]?).map _ = _
      rw [hreset']
      rfl
    · cases hsend

theorem shifts_panic (h : system.Linked)
    (serving : system.streamer = .serving request)
    (hbody : system.inBody request = true) :
    Shifts system (system.dropSender request).leave := by
  have hloses := dropSender_loses system request
  have hcalls := dropSender_calls system request
  have hgone := (finished_iff _ _).mp (finished_dropSender hbody)
  have hnot := h.thread.not_queued serving
  have hqueue : (system.dropSender request).requests.queue =
      system.requests.queue := congrArg Channel.queue hcalls.requests
  have hleaves : Leaves (system.dropSender request)
      (system.dropSender request).leave :=
    leave_leaves fun other hmem => by
      rw [hqueue] at hmem
      have hne : other ≠ request := fun heq => hnot (heq ▸ hmem)
      rw [hloses.touches.far other hne]
      exact (h.thread.queue other hmem).1
  have hqueued := hleaves.queued
  have hothers := hleaves.others
  rw [hqueue] at hqueued hothers
  refine .leaves (hleaves.shim.trans hloses.shim)
    (hleaves.near.trans hloses.near) (fun other hended => ?_)
    (fun other hother hserving => ?_) rfl rfl
    (hleaves.entered.trans hcalls.entered)
  · rcases hended with hmem | hserving
    · exact hqueued other hmem
    · rw [serving] at hserving
      cases hserving
      rw [hothers request hnot, hgone]
  · have hne : other ≠ request := fun heq => hserving (heq ▸ serving)
    rw [hothers other hother, hloses.touches.far other hne]

/-! ## Runs -/

theorem Step.shifts (hinv : system.Invariant) (h : system.Linked)
    (hstep : Step system event system') : Shifts system system' := by
  cases hstep.takes with
  | callWrite idle => exact shifts_callWrite idle
  | callReset idle => exact shifts_callReset idle
  | sendRequest sending hsend => exact shifts_sendRequest hinv h sending hsend
  | flushRequest flushing hflush => exact shifts_flushRequest flushing hflush
  | shimWrite calling hwrite => exact shifts_shimWrite calling hwrite
  | awaitReset calling hawait => exact shifts_awaitReset calling hawait
  | @abandonUnsent request sending =>
      exact shifts_unsent sending
        (giveUp_leaves (h.shim.sending sending).1 (by simp))
        (giveUp_calls system request)
  | @abandon request inCall =>
      have hleaves : LeavesCall request system (system.giveUp request) := by
        rcases inCall with hflushing | hcalling
        · exact giveUp_leaves (h.shim.flushing hflushing).1 (by simp)
        · exact giveUp_leaves (h.shim.calling hcalling).1 (by simp)
      exact shifts_left inCall hleaves (giveUp_calls system request)
  | dropShim idle =>
      exact .closed idle rfl (ends_congr rfl rfl).1 (ends_congr rfl rfl).2
        ⟨rfl, rfl, rfl⟩
  | nextRequest receiving hnext => exact shifts_nextRequest h receiving hnext
  | streamWrite serving hwrite => exact shifts_streamWrite serving hwrite
  | resetReturns serving hreturns =>
      exact shifts_resetReturns serving hreturns
  | sendAnswer serving hsend => exact shifts_sendAnswer serving hsend
  | panic serving hbody => exact shifts_panic h serving hbody

theorem run_linked {events : List Event}
    (run : Run Step new events system) : system.Invariant ∧ system.Linked :=
  run.invariant (fun _ system => system.Invariant ∧ system.Linked)
    ⟨new_invariant, new_linked⟩ fun ⟨hinv, hlinked⟩ hstep =>
      ⟨hinv.step hstep, hlinked.shift (hstep.shifts hinv hlinked)⟩

end

end System

end ConjureRuntime.Blocking
