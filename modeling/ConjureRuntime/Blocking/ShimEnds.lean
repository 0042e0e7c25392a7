import ConjureRuntime.Blocking.ShimCalls

/-!
# The two ends of a call

The shim and the thread each hold one end of a call, and a step of one side
leaves the end of the other as it is.
-/

namespace ConjureRuntime.Blocking

open ConjureRuntime.Foundation ConjureRuntime.Service

inductive Near where
  | requesting
  | waiting
  | left
  deriving DecidableEq

inductive Far where
  | waiting
  | active
  | gone
  deriving DecidableEq

def Reader.near : Reader → Near
  | .requesting => .requesting
  | .receiving | .forwarding => .waiting
  | .returned _ | .abandoned => .left

def Awaiter.near : Awaiter → Near
  | .requesting => .requesting
  | .awaiting => .waiting
  | .returned _ | .abandoned => .left

def Writer.far : Writer → Far
  | .waiting => .waiting
  | .writing _ | .sending _ _ | .flushing _ _ => .active
  | .gone => .gone

def Resetter.far : Resetter → Far
  | .waiting => .waiting
  | .resetting | .answering _ => .active
  | .gone => .gone

/-! ## The two ends of a write -/

namespace WriteBody

variable {call call' : WriteBody} {op : Op} {event : Event}

def Op.IsShim : Op → Prop
  | .requested | .requestFailed _ | .receive | .forwardReturned _ | .abandon =>
      True
  | _ => False

theorem far_of_shim (hop : op.IsShim)
    (hnext : call.next op = some (event, call')) :
    call'.writer = call.writer := by
  cases takes_of_next hnext with
  | requested | requestFailed | forwarded | forwardFailed | abandon => rfl
  | receive _ hreceive => exact (receive_moves hreceive).1
  | start | write | flush | writeBytes | bodyReturns | feed | flushed | drop =>
      exact hop.elim

theorem near_of_loop
    (hop : op = .receive ∨ ∃ result, op = .forwardReturned result)
    (hnext : call.next op = some (event, call')) :
    (∃ result, event = .returned result ∧ call'.reader.near = .left) ∨
      (∀ result, event ≠ .returned result) ∧
        call'.reader.near = .waiting := by
  cases takes_of_next hnext with
  | receive _ hreceive =>
      rcases (receive_moves hreceive).2 with
        ⟨result, rfl, hreader⟩ | ⟨bytes, rfl, hreader⟩
      · exact .inl ⟨result, rfl, by rw [hreader]; rfl⟩
      · exact .inr ⟨by simp, by rw [hreader]; rfl⟩
  | forwarded => exact .inr ⟨by simp, rfl⟩
  | forwardFailed error => exact .inl ⟨_, rfl, rfl⟩
  | requested | requestFailed | abandon | start | write | flush | writeBytes
  | bodyReturns | feed | flushed | drop => simp at hop

structure ThreadMoves (call : WriteBody) (result : Event × WriteBody) :
    Prop where
  reader : result.2.reader = call.reader
  writer : result.1 = .dropped ∧ result.2.writer = .gone ∨
    result.1 ≠ .dropped ∧ result.2.writer.far = .active

theorem ThreadMoves.gone (h : call.ThreadMoves (.dropped, call')) :
    call'.writer = .gone := by
  rcases h.writer with ⟨-, hgone⟩ | ⟨hne, -⟩
  · exact hgone
  · exact absurd rfl hne

theorem ThreadMoves.active (h : call.ThreadMoves (event, call'))
    (hne : event ≠ .dropped) : call'.writer.far = .active := by
  rcases h.writer with ⟨heq, -⟩ | ⟨-, hactive⟩
  · exact absurd heq hne
  · exact hactive

theorem sent_moves (call : WriteBody) (result : Except IoError Unit)
    (caller : Caller) : call.ThreadMoves (call.sent result caller) := by
  cases caller with
  | write | flush | writeBytes => exact ⟨rfl, .inr ⟨by simp [sent], rfl⟩⟩
  | finish | error => exact ⟨rfl, .inl ⟨rfl, rfl⟩⟩

theorem send_moves (call : WriteBody) (caller : Caller)
    (parts : List BodyPart) : call.ThreadMoves (call.send caller parts) := by
  cases parts with
  | nil => exact sent_moves call _ caller
  | cons => exact ⟨rfl, .inr ⟨by simp [send], rfl⟩⟩

theorem thread_moves (hop : ¬ op.IsShim)
    (hnext : call.next op = some (event, call')) :
    call.ThreadMoves (event, call') := by
  cases takes_of_next hnext with
  | requested | requestFailed | receive | forwarded | forwardFailed
  | abandon => exact absurd trivial hop
  | start => exact ⟨rfl, .inr ⟨by simp, rfl⟩⟩
  | write data _ hwrites =>
      rw [← hwrites]
      unfold WriteBody.write
      dsimp only
      split
      · exact ⟨(send_moves _ _ _).reader, (send_moves _ _ _).writer⟩
      · exact ⟨rfl, .inr ⟨by simp, rfl⟩⟩
  | flush _ hflushes =>
      rw [← hflushes]
      exact send_moves _ _ _
  | writeBytes data _ hwrites =>
      rw [← hwrites]
      exact ⟨(send_moves _ _ _).reader, (send_moves _ _ _).writer⟩
  | bodyReturns result _ hreturns =>
      rw [← hreturns]
      cases result with
      | ok => exact ⟨rfl, .inr ⟨by simp [bodyReturns], rfl⟩⟩
      | error => exact ⟨rfl, .inr ⟨by simp [bodyReturns], rfl⟩⟩
  | feed hfeed =>
      unfold WriteBody.feed at hfeed
      split at hfeed
      · split at hfeed
        · cases hfeed
        · rw [← Option.some.inj hfeed]
          exact sent_moves _ _ _
        · split at hfeed
          · cases hfeed
            exact ⟨rfl, .inr ⟨by simp, rfl⟩⟩
          · rw [← Option.some.inj hfeed]
            exact ⟨(sent_moves _ _ _).reader, (sent_moves _ _ _).writer⟩
      · cases hfeed
  | flushed hflushed =>
      unfold WriteBody.flushed at hflushed
      split at hflushed
      · split at hflushed
        · cases hflushed
        · rw [← Option.some.inj hflushed]
          exact send_moves _ _ _
      · cases hflushed
  | drop => exact ⟨rfl, .inl ⟨rfl, rfl⟩⟩

end WriteBody

namespace System

variable {system system' : System} {event : Event}

def near (system : System) : ShimRequest → Option Near
  | .write call => (system.writes[call]?).map fun write => write.reader.near
  | .reset call => (system.resets[call]?).map fun reset => reset.awaiter.near

def far (system : System) : ShimRequest → Option Far
  | .write call => (system.writes[call]?).map fun write => write.writer.far
  | .reset call => (system.resets[call]?).map fun reset => reset.resetter.far

theorem ends_congr (hwrites : system'.writes = system.writes)
    (hresets : system'.resets = system.resets) :
    system'.near = system.near ∧ system'.far = system.far := by
  constructor <;>
    · funext request
      cases request <;> simp only [near, far, hwrites, hresets]

theorem near_setShim (system : System) (shim : Shim) :
    { system with shim := shim }.near = system.near :=
  (ends_congr rfl rfl).1

theorem far_setShim (system : System) (shim : Shim) :
    { system with shim := shim }.far = system.far :=
  (ends_congr rfl rfl).2

theorem finished_iff (system : System) (request : ShimRequest) :
    system.Finished request ↔ system.far request = some .gone := by
  cases request with
  | write call =>
      simp only [Finished, far, Option.map_eq_some_iff]
      refine exists_congr fun write => and_congr_right fun _ => ?_
      cases write.writer <;> simp [Writer.far]
  | reset call =>
      simp only [Finished, far, Option.map_eq_some_iff]
      refine exists_congr fun reset => and_congr_right fun _ => ?_
      cases reset.resetter <;> simp [Resetter.far]

structure Touches (request : ShimRequest) (system system' : System) :
    Prop where
  near : ∀ other, other ≠ request → system'.near other = system.near other
  far : ∀ other, other ≠ request → system'.far other = system.far other

theorem Touches.near_eq {request : ShimRequest}
    (h : Touches request system system')
    (hsame : system'.near request = system.near request) :
    system'.near = system.near := by
  funext other
  by_cases heq : other = request
  · rw [heq, hsame]
  · exact h.near other heq

theorem Touches.far_eq {request : ShimRequest}
    (h : Touches request system system')
    (hsame : system'.far request = system.far request) :
    system'.far = system.far := by
  funext other
  by_cases heq : other = request
  · rw [heq, hsame]
  · exact h.far other heq

theorem stepWrite_ends {call : Nat} {op : WriteBody.Op}
    {event : WriteBody.Event}
    (h : system.stepWrite call op = some (event, system')) :
    ∃ write write' : WriteBody, system.writes[call]? = some write ∧
      write.next op = some (event, write') ∧
      system'.writes[call]? = some write' ∧
      Touches (.write call) system system' ∧
      system'.shim = system.shim := by
  obtain ⟨write, write', hwrite, hnext, rfl⟩ := stepWrite_cases h
  have hlt := (List.getElem?_eq_some_iff.mp hwrite).1
  refine ⟨write, write', hwrite, hnext, by simp [hlt],
    ⟨fun other hne => ?_, fun other hne => ?_⟩, rfl⟩ <;>
    cases other with
    | write other =>
        have hcall : call ≠ other := fun heq => hne (heq ▸ rfl)
        simp only [near, far, List.getElem?_set_ne hcall]
    | reset => rfl

theorem stepWrite_far {call : Nat} {op : WriteBody.Op}
    {event : WriteBody.Event} (hop : op.IsShim)
    (h : system.stepWrite call op = some (event, system')) :
    system'.far = system.far := by
  obtain ⟨write, write', hwrite, hnext, hwrite', touches, -⟩ :=
    stepWrite_ends h
  refine touches.far_eq ?_
  simp only [far, hwrite, hwrite', Option.map_some,
    WriteBody.far_of_shim hop hnext]

theorem stepWrite_near {call : Nat} {op : WriteBody.Op}
    {event : WriteBody.Event} (hop : ¬ op.IsShim)
    (h : system.stepWrite call op = some (event, system')) :
    system'.near = system.near := by
  obtain ⟨write, write', hwrite, hnext, hwrite', touches, -⟩ :=
    stepWrite_ends h
  have hreader : write'.reader = write.reader :=
    (WriteBody.thread_moves hop hnext).reader
  refine touches.near_eq ?_
  simp only [near, hwrite, hwrite', Option.map_some, hreader]

theorem shimWrite_cases {call : Nat} {op : WriteBody.Op}
    (h : system.shimWrite call op = some (event, system')) :
    (op = .receive ∨ ∃ result, op = .forwardReturned result) ∧
      ∃ (event' : WriteBody.Event) (stepped : System),
        system.stepWrite call op = some (event', stepped) ∧
        ((∃ result, event' = .returned result ∧
            system' = { stepped with shim := .idle }) ∨
          ((∀ result, event' ≠ .returned result) ∧ system' = stepped)) := by
  unfold shimWrite at h
  split at h
  case h_3 => cases h
  all_goals
    refine ⟨by simp, ?_⟩
    split at h
    · rename_i hstep
      cases h
      exact ⟨_, _, hstep, .inl ⟨_, rfl, rfl⟩⟩
    · rename_i hne hstep
      cases h
      exact ⟨_, _, hstep, .inr ⟨hne, rfl⟩⟩
    · cases h

theorem streamWrite_cases {call : Nat} {op : WriteBody.Op}
    (h : system.streamWrite call op = some (event, system')) :
    ¬ op.IsShim ∧ ∃ (event' : WriteBody.Event) (stepped : System),
      system.stepWrite call op = some (event', stepped) ∧
      ((event' = .dropped ∧
          system' = { stepped with streamer := .receiving }) ∨
        (event' ≠ .dropped ∧ system' = stepped)) := by
  unfold streamWrite at h
  split at h
  case h_7 => cases h
  all_goals
    refine ⟨id, ?_⟩
    split at h
    · rename_i hstep
      cases h
      exact ⟨_, _, hstep, .inl ⟨rfl, rfl⟩⟩
    · rename_i hne hstep
      cases h
      exact ⟨_, _, hstep, .inr ⟨hne, rfl⟩⟩
    · cases h

theorem setReset_ends {call : Nat} {reset : Reset} (reset' : Reset)
    (h : system.resets[call]? = some reset) :
    (system.setReset call reset').resets[call]? = some reset' ∧
      Touches (.reset call) system (system.setReset call reset') := by
  have hlt := (List.getElem?_eq_some_iff.mp h).1
  refine ⟨by simp [setReset, hlt],
    ⟨fun other hne => ?_, fun other hne => ?_⟩⟩ <;>
    cases other with
    | reset other =>
        have hcall : call ≠ other := fun heq => hne (heq ▸ rfl)
        simp only [near, far, setReset, List.getElem?_set_ne hcall]
    | write => rfl

theorem setReset_far {call : Nat} {reset : Reset} (reset' : Reset)
    (h : system.resets[call]? = some reset)
    (hsame : reset'.resetter = reset.resetter) :
    (system.setReset call reset').far = system.far := by
  obtain ⟨hreset', touches⟩ := setReset_ends reset' h
  refine touches.far_eq ?_
  simp only [far, h, hreset', Option.map_some, hsame]

theorem setReset_near {call : Nat} {reset : Reset} (reset' : Reset)
    (h : system.resets[call]? = some reset)
    (hsame : reset'.awaiter = reset.awaiter) :
    (system.setReset call reset').near = system.near := by
  obtain ⟨hreset', touches⟩ := setReset_ends reset' h
  refine touches.near_eq ?_
  simp only [near, h, hreset', Option.map_some, hsame]

/-! ## Calls that are left, and senders that go -/

structure LeavesCall (request : ShimRequest) (system system' : System) :
    Prop where
  shim : system'.shim = .idle
  near : system'.near request = some .left
  touches : Touches request system system'
  far : system'.far = system.far

theorem Touches.setShim {request : ShimRequest}
    (h : Touches request system system') (shim : Shim) :
    Touches request system { system' with shim := shim } where
  near other hne := by rw [near_setShim, h.near other hne]
  far other hne := by rw [far_setShim, h.far other hne]

theorem leavesCall_stepWrite {call : Nat} {op : WriteBody.Op}
    {event : WriteBody.Event} (write' : WriteBody)
    (h : system.stepWrite call op = some (event, system'))
    (hop : op.IsShim) (hwrite' : system'.writes[call]? = some write')
    (hleft : write'.reader.near = .left) :
    LeavesCall (.write call) system { system' with shim := .idle } := by
  obtain ⟨-, -, -, -, -, touches, -⟩ := stepWrite_ends h
  refine ⟨rfl, ?_, touches.setShim _,
    (far_setShim _ _).trans (stepWrite_far hop h)⟩
  simp only [near, hwrite', Option.map_some, hleft]

theorem leavesCall_setReset {call : Nat} {reset reset' : Reset}
    (h : system.resets[call]? = some reset)
    (hsame : reset'.resetter = reset.resetter)
    (hleft : reset'.awaiter.near = .left) :
    LeavesCall (.reset call) system
      { system.setReset call reset' with shim := .idle } := by
  obtain ⟨hreset', touches⟩ := setReset_ends reset' h
  refine ⟨rfl, ?_, touches.setShim _,
    (far_setShim _ _).trans (setReset_far _ h hsame)⟩
  simp only [near, hreset', Option.map_some, hleft]

theorem giveUp_leaves {request : ShimRequest} {near : Near}
    (hnear : system.near request = some near) (hstill : near ≠ .left) :
    LeavesCall request system (system.giveUp request) := by
  cases request with
  | write call =>
      obtain ⟨write, hwrite, rfl⟩ := Option.map_eq_some_iff.mp hnear
      have hnext : write.next .abandon =
          some (.abandoned, write.leave .abandoned) := by
        unfold WriteBody.next
        cases hreader : write.reader <;> simp_all [Reader.near]
      have hlt := (List.getElem?_eq_some_iff.mp hwrite).1
      have hstep : system.stepWrite call .abandon = some (.abandoned,
          { system with
            writes := system.writes.set call (write.leave .abandoned) }) := by
        simp only [stepWrite, hwrite, hnext]
      simp only [giveUp, hstep]
      exact leavesCall_stepWrite (write.leave .abandoned) hstep trivial
        (List.getElem?_set_self hlt) rfl
  | reset call =>
      obtain ⟨reset, hreset, rfl⟩ := Option.map_eq_some_iff.mp hnear
      simp only [giveUp, hreset]
      exact leavesCall_setReset hreset rfl rfl

theorem failRequest_leaves {request : ShimRequest} (error : SendError)
    (hnear : system.near request = some .requesting) :
    LeavesCall request system (system.failRequest error request) := by
  cases request with
  | write call =>
      obtain ⟨write, hwrite, hrequesting⟩ := Option.map_eq_some_iff.mp hnear
      have hreader : write.reader = .requesting := by
        cases hreader : write.reader <;> simp_all [Reader.near]
      have hlt := (List.getElem?_eq_some_iff.mp hwrite).1
      have hstep : system.stepWrite call (.requestFailed error) =
          some (.returned (.error (WriteBody.sendError error)),
            { system with
              writes := system.writes.set call (write.leave
                (.returned (.error (WriteBody.sendError error)))) }) := by
        simp only [stepWrite, hwrite, WriteBody.next, hreader, if_true]
        rfl
      simp only [failRequest, hstep]
      exact leavesCall_stepWrite (write.leave _) hstep trivial
        (List.getElem?_set_self hlt) rfl
  | reset call =>
      obtain ⟨reset, hreset, -⟩ := Option.map_eq_some_iff.mp hnear
      simp only [failRequest, hreset]
      exact leavesCall_setReset hreset rfl rfl

structure LosesSender (request : ShimRequest) (system system' : System) :
    Prop where
  shim : system'.shim = system.shim
  near : system'.near = system.near
  touches : Touches request system system'

theorem LosesSender.refl (request : ShimRequest) (system : System) :
    LosesSender request system system :=
  ⟨rfl, rfl, fun _ _ => rfl, fun _ _ => rfl⟩

theorem dropSender_loses (system : System) (request : ShimRequest) :
    LosesSender request system (system.dropSender request) := by
  cases request with
  | write call =>
      unfold dropSender
      dsimp only
      split
      · rename_i event system' hstep
        obtain ⟨-, -, -, -, -, touches, hshim⟩ := stepWrite_ends hstep
        exact ⟨hshim, stepWrite_near id hstep, touches⟩
      · exact .refl _ system
  | reset call =>
      unfold dropSender
      dsimp only
      split
      · rename_i reset hreset
        exact ⟨rfl, setReset_near _ hreset rfl, (setReset_ends _ hreset).2⟩
      · exact .refl _ system

theorem dropSender_far {request : ShimRequest}
    (h : system.far request = some .waiting ∨
      system.far request = some .gone) :
    (system.dropSender request).far request = some .gone := by
  cases request with
  | write call =>
      have hfar : ∃ write, system.writes[call]? = some write ∧
          (write.writer = .waiting ∨ write.writer = .gone) := by
        rcases h with h | h <;>
          · obtain ⟨write, hwrite, hfar⟩ := Option.map_eq_some_iff.mp h
            refine ⟨write, hwrite, ?_⟩
            cases hwriter : write.writer <;> simp_all [Writer.far]
      obtain ⟨write, hwrite, hwaiting | hgone⟩ := hfar
      · have hlt := (List.getElem?_eq_some_iff.mp hwrite).1
        have hstep : system.stepWrite call .drop = some (.dropped,
            { system with writes := system.writes.set call write.close }) := by
          simp only [stepWrite, hwrite, WriteBody.next, hwaiting]
        simp only [dropSender, hstep, far, List.getElem?_set_self hlt]
        rfl
      · have hstep : system.stepWrite call .drop = none := by
          simp only [stepWrite, hwrite, WriteBody.next, hgone]
        simp only [dropSender, hstep, far, hwrite, Option.map_some, hgone]
        rfl
  | reset call =>
      have hsome : ∃ reset, system.resets[call]? = some reset := by
        rcases h with h | h <;>
          · obtain ⟨reset, hreset, -⟩ := Option.map_eq_some_iff.mp h
            exact ⟨reset, hreset⟩
      obtain ⟨reset, hreset⟩ := hsome
      have hlt := (List.getElem?_eq_some_iff.mp hreset).1
      simp only [dropSender, hreset, far, setReset,
        List.getElem?_set_self hlt]
      rfl

structure Leaves (system system' : System) : Prop where
  shim : system'.shim = system.shim
  near : system'.near = system.near
  queued : ∀ request ∈ system.requests.queue, system'.far request = some .gone
  others : ∀ request, request ∉ system.requests.queue →
    system'.far request = system.far request
  entered : system'.entered = system.entered

theorem leave_leaves (h : ∀ request ∈ system.requests.queue,
    system.far request = some .waiting) : Leaves system system.leave := by
  have hfold : ∀ (requests : List ShimRequest) (system : System),
      (∀ request ∈ requests, system.far request = some .waiting ∨
        system.far request = some .gone) →
      (requests.foldl dropSender system).shim = system.shim ∧
        (requests.foldl dropSender system).near = system.near ∧
        (∀ request ∈ requests,
          (requests.foldl dropSender system).far request = some .gone) ∧
        (∀ request, request ∉ requests →
          (requests.foldl dropSender system).far request =
            system.far request) ∧
        (requests.foldl dropSender system).entered = system.entered := by
    intro requests
    induction requests with
    | nil => exact fun system _ => ⟨rfl, rfl, by simp, fun _ _ => rfl, rfl⟩
    | cons first requests ih =>
        intro system hfar
        have hloses := dropSender_loses system first
        have hfirst := dropSender_far (hfar first List.mem_cons_self)
        obtain ⟨hshim, hnear, hqueued, hothers, hentered⟩ :=
          ih (system.dropSender first) fun request hmem => by
            by_cases heq : request = first
            · exact .inr (heq ▸ hfirst)
            · rw [hloses.touches.far request heq]
              exact hfar request (List.mem_cons_of_mem _ hmem)
        refine ⟨hshim.trans hloses.shim, hnear.trans hloses.near,
          fun request hmem => ?_, fun request hmem => ?_,
          hentered.trans (dropSender_calls system first).entered⟩
        · by_cases hrest : request ∈ requests
          · exact hqueued request hrest
          · have heq : request = first := by
              rcases List.mem_cons.mp hmem with heq | hrest'
              · exact heq
              · exact absurd hrest' hrest
            rw [List.foldl_cons, hothers request hrest, heq, hfirst]
        · have hne : request ≠ first := fun heq =>
            hmem (heq ▸ List.mem_cons_self)
          rw [List.foldl_cons,
            hothers request fun hrest => hmem (List.mem_cons_of_mem _ hrest),
            hloses.touches.far request hne]
  obtain ⟨hshim, hnear, hqueued, hothers, hentered⟩ :=
    hfold system.requests.queue system fun request hmem =>
      .inl (h request hmem)
  have hsame : system.leave.near =
        (system.requests.queue.foldl dropSender system).near ∧
      system.leave.far =
        (system.requests.queue.foldl dropSender system).far :=
    ends_congr rfl rfl
  exact ⟨hshim, hsame.1.trans hnear,
    fun request hmem => hsame.2 ▸ hqueued request hmem,
    fun request hmem => hsame.2 ▸ hothers request hmem, hentered⟩

end System

end ConjureRuntime.Blocking
