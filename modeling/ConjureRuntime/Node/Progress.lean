import ConjureRuntime.Foundation.ListSum
import ConjureRuntime.Node.LimiterInvariant

/-!
# The two levels of limiters do not get stuck

Every limiter stays in order along every run, so a waiter at the head of a
queue with a free permit has been woken.  When no request runs, no host
permit is out; the first waiter of some host then moves on, or nobody waits
for a host, so no endpoint permit is out either and an endpoint grants one.
The drop of the permits of a request is one step.
-/

namespace ConjureRuntime.Node

open ConjureRuntime.Limiter ConjureRuntime.Foundation

variable {ω : Type}

namespace Request

@[simp] theorem setAcquisition_phase (request : Request) (node : Nat)
    (acquisition : Acquisition) :
    (request.setAcquisition node acquisition).phase = request.phase := rfl

@[simp] theorem setAcquisition_endpoint (request : Request) (node : Nat)
    (acquisition : Acquisition) :
    (request.setAcquisition node acquisition).endpoint =
      request.endpoint := rfl

@[simp] theorem setAcquisition_self (request : Request) (node : Nat)
    (acquisition : Acquisition) :
    (request.setAcquisition node acquisition).acquisition node =
      acquisition := by
  simp [setAcquisition]

@[simp] theorem setAcquisition_of_ne (request : Request) {node other : Nat}
    (acquisition : Acquisition) (h : other ≠ node) :
    (request.setAcquisition node acquisition).acquisition other =
      request.acquisition other := by
  simp [setAcquisition, h]

@[simp] theorem stage_setAcquisition_of_ne (request : Request)
    {node other : Nat} (acquisition : Acquisition) (h : other ≠ node) :
    (request.setAcquisition node acquisition).stage other =
      request.stage other := by
  simp [stage, setAcquisition_of_ne, h]

/-- A request does not run at a node where it still acquires. -/
def Consistent (request : Request) : Prop :=
  ∀ node, request.acquisition node ≠ .idle →
    request.stage node = (request.acquisition node).stage

theorem Consistent.setIdle {request : Request} (h : request.Consistent)
    (node : Nat) : (request.setAcquisition node .idle).Consistent := by
  intro other hother
  by_cases heq : other = node
  · subst heq
    simp at hother
  · rw [setAcquisition_of_ne request .idle heq] at hother ⊢
    rw [stage_setAcquisition_of_ne request .idle heq]
    exact h other hother

theorem Consistent.stage_setIdle {request : Request}
    (h : request.Consistent) (node : Nat) :
    (request.setAcquisition node .idle).stage node =
      if request.acquisition node = .idle then request.stage node
      else .idle := by
  split
  · rename_i hidle
    simp [stage, hidle]
  · rename_i hne
    have hstage := h node hne
    cases hacquisition : request.acquisition node with
    | idle => exact absurd hacquisition hne
    | endpoint | host _ =>
        rw [hacquisition] at hstage
        cases hphase : request.phase with
        | running at_ permit =>
            have hat : at_ ≠ node := by
              rintro rfl
              simp [stage, hphase, Acquisition.stage] at hstage
            simp [stage, hphase, hat, Acquisition.stage]
        | pending | finished => simp [stage, hphase, Acquisition.stage]

theorem stage_of_phase {request : Request}
    (h : ∀ node permit, request.phase ≠ .running node permit)
    (node : Nat) :
    request.stage node = (request.acquisition node).stage := by
  cases hphase : request.phase with
  | running at_ permit => exact absurd hphase (h at_ permit)
  | pending | finished => simp [stage, hphase]

structure Same (request request' : Request) : Prop where
  endpoint : request'.endpoint = request.endpoint
  candidates : request'.candidates = request.candidates
  polled : request'.polled = request.polled

theorem Same.refl (request : Request) : Same request request := ⟨rfl, rfl, rfl⟩

structure WellFormed (request : Request) : Prop where
  inside : ∀ node, request.acquisition node ≠ .idle →
    node ∈ request.candidates.nodes
  polled : request.polled = true → request.phase = .pending →
    ∀ node ∈ request.candidates.nodes, request.acquisition node ≠ .idle
  settled : request.phase ≠ .pending →
    ∀ node, request.acquisition node = .idle

end Request

namespace System

def view (system : System ω) (node : Nat) : View := fun index =>
  system.requests[index]?.map fun request =>
    (request.endpoint, request.stage node)

/-- Every limiter is in order; `woken node` are the requests whose waiter at
the node may have lost its waker. -/
def Admits (system : System ω) (woken : Nat → Nat → Prop) : Prop :=
  ∀ node, (system.limiter node).Admits (system.view node) (woken node)

variable {system : System ω} {index : Nat} {request request' : Request}

theorem setRequest_view (hindex : index < system.requests.length)
    (request : Request) (node : Nat) :
    (system.setRequest index request).view node =
      (system.view node).set index request.endpoint
        (request.stage node) := by
  funext other
  by_cases h : other = index
  · subst h
    simp [view, View.set, hindex]
  · simp [view, View.set, h, Ne.symm h]

theorem request_of_view {node : Nat} {endpoint : Endpoint} {stage : Stage}
    (h : system.view node index = some (endpoint, stage)) :
    ∃ request : Request, system.requests[index]? = some request ∧
      request.endpoint = endpoint ∧ request.stage node = stage := by
  simpa [view] using h

theorem view_of_request {request : Request}
    (h : system.requests[index]? = some request) (node : Nat) :
    system.view node index = some (request.endpoint, request.stage node) := by
  simp [view, h]

theorem mem_setLimiter_woken (node : Nat) (limiter : Limiter ω)
    {wakes : List (Woken Nat ω)} {other : Nat} :
    other ∈ (system.setLimiter node limiter wakes).woken ↔
      other ∈ system.woken ∨ Ciad.WokenBy wakes other := by
  simp [setLimiter, Ciad.WokenBy]

theorem Admits.replace {woken woken' : Nat → Nat → Prop}
    (h : (system.setRequest index request).Admits woken)
    (hindex : index < system.requests.length) {node : Nat}
    {limiter : Limiter ω} (wakes : List (Woken Nat ω))
    (hlimiter : limiter.Admits
      ((system.view node).set index request'.endpoint
        (request'.stage node)) (woken' node))
    (hendpoint : request'.endpoint = request.endpoint)
    (hstage : ∀ other, other ≠ node →
      request'.stage other = request.stage other)
    (hwoken : ∀ other, other ≠ node → ∀ waiter, woken other waiter →
      woken' other waiter) :
    ((system.setLimiter node limiter wakes).setRequest index
      request').Admits woken' := by
  intro other
  have hview : ((system.setLimiter node limiter wakes).setRequest index
      request').view other = (system.view other).set index
        request'.endpoint (request'.stage other) :=
    setRequest_view hindex request' other
  rw [hview]
  by_cases heq : other = node
  · subst heq
    simpa using hlimiter
  · have hother := h other
    rw [setRequest_view hindex] at hother
    rw [hendpoint, hstage other heq]
    refine Limiter.Admits.mono ?_ (hwoken other heq)
    simpa [heq] using hother

/-! ## Polling the nodes of a request -/

variable {willWake : ω → ω → Bool} {waker : ω}

/-- The polls of the nodes in `order`, after those in `done`. -/
structure PollOutcome (willWake : ω → ω → Bool) (index : Nat)
    (order done : List Nat) (request : Request) (system : System ω)
    (granted : List Grant) (request' : Request) (system' : System ω) :
    Prop where
  requests : system'.requests = system.requests
  same : request.Same request'
  outside : ∀ node, node ∉ order →
    request'.acquisition node = request.acquisition node
  granted : (∃ node ∈ order, (system.limiter node).WouldGrant willWake
    request.endpoint index (request.acquisition node)) → granted ≠ []
  result :
    (request'.phase = .pending ∧
      (∀ node ∈ order, request'.acquisition node ≠ .idle) ∧
      (system'.setRequest index request').Admits fun node waiter =>
        waiter ∈ system'.woken ∧ (waiter = index → node ∉ done ++ order)) ∨
    ∃ node permit, request'.phase = .running node permit ∧
      request'.acquisition node = .idle ∧
      (system'.setRequest index request').Admits fun _ waiter =>
        waiter ∈ system'.woken

theorem pollNode_returns {done : List Nat}
    (hindex : index < system.requests.length)
    (h : (system.setRequest index request).Admits fun node waiter =>
      waiter ∈ system.woken ∧ (waiter = index → node ∉ done))
    (hpending : request.phase = .pending) (node : Nat) :
    Returns ((system.limiter node).poll willWake request.endpoint index waker
        (request.acquisition node))
      fun (polled, limiter) =>
        polled.stage ≠ .idle ∧
        (polled.stage = .running → polled.granted ≠ []) ∧
        ∀ request' : Request, request'.endpoint = request.endpoint →
          request'.stage node = polled.stage →
          (∀ other, other ≠ node →
            request'.stage other = request.stage other) →
          ((system.setLimiter node limiter polled.wakes).setRequest index
            request').Admits fun other waiter =>
              waiter ∈ (system.setLimiter node limiter polled.wakes).woken ∧
              (waiter = index → other ∉ done ++ [node]) := by
  have hlimiter := h node
  rw [setRequest_view hindex] at hlimiter
  have hview : (system.view node).set index request.endpoint
      (request.stage node) index =
      some (request.endpoint, (request.acquisition node).stage) := by
    rw [View.set_self, Request.stage_of_phase (by simp [hpending])]
  refine (Limiter.poll_effect hlimiter hview waker).mono ?_
  rintro ⟨polled, limiter⟩ ⟨hadmits, hnotIdle, hgranted⟩
  refine ⟨hnotIdle, hgranted, fun request' hendpoint hat hstage => ?_⟩
  refine h.replace hindex _ ?_ hendpoint hstage ?_
  · rw [View.set_set] at hadmits
    rw [hendpoint, hat]
    refine hadmits.mono ?_
    rintro waiter ⟨hwoken, hne⟩
    exact ⟨(mem_setLimiter_woken node limiter).mpr (hwoken.imp_left And.left),
      fun heq => absurd heq hne⟩
  · rintro other hne waiter ⟨hwoken, hdone⟩
    refine ⟨(mem_setLimiter_woken node limiter).mpr (.inl hwoken),
      fun heq => ?_⟩
    simpa [hne] using hdone heq

theorem PollOutcome.cons {node : Nat} {order done : List Nat}
    {acquisition : Acquisition} {limiter : Limiter ω}
    {polled : Limiter.Polled ω} {later : List Grant} {system' : System ω}
    (h : PollOutcome willWake index order (done ++ [node])
      (request.setAcquisition node acquisition)
      (system.setLimiter node limiter polled.wakes) later request' system')
    (hpoll : (system.limiter node).poll willWake request.endpoint index waker
      (request.acquisition node) = .ok (polled, limiter))
    (hfresh : node ∉ order) (hacquisition : acquisition ≠ .idle) :
    PollOutcome willWake index (node :: order) done request system
      (polled.granted.map (Grant.mk node) ++ later) request' system' := by
  refine ⟨h.requests,
    ⟨h.same.endpoint, h.same.candidates, h.same.polled⟩, ?_, ?_, ?_⟩
  · intro other hother
    rw [List.mem_cons, not_or] at hother
    rw [h.outside other hother.2,
      Request.setAcquisition_of_ne request acquisition hother.1]
  · rintro ⟨other, hother, hgrant⟩
    rcases List.mem_cons.mp hother with rfl | hother
    · have := Limiter.poll_granted hpoll hgrant
      simp [this]
    · have hne : other ≠ node := fun heq => hfresh (heq ▸ hother)
      have hrest := h.granted ⟨other, hother, by
        rw [Request.setAcquisition_of_ne request acquisition hne]
        simpa [hne] using hgrant⟩
      simp [hrest]
  · refine h.result.imp_left ?_
    rintro ⟨hphase, hqueued, hadmits⟩
    refine ⟨hphase, ?_, by simpa using hadmits⟩
    intro other hother
    rcases List.mem_cons.mp hother with rfl | hother
    · rwa [h.outside other hfresh, Request.setAcquisition_self]
    · exact hqueued other hother

theorem pollNodes_returns {order done : List Nat}
    (hindex : index < system.requests.length)
    (h : (system.setRequest index request).Admits fun node waiter =>
      waiter ∈ system.woken ∧ (waiter = index → node ∉ done))
    (hpending : request.phase = .pending) (hnodup : order.Nodup) :
    Returns (pollNodes willWake index waker order request system)
      fun ((granted, request'), system') =>
        PollOutcome willWake index order done request system granted
          request' system' := by
  induction order generalizing request system done with
  | nil =>
      exact .pure ⟨rfl, .refl request, fun _ _ => rfl, by simp,
        .inl ⟨hpending, by simp, by simpa using h⟩⟩
  | cons node order ih =>
      obtain ⟨hfresh, hnodup⟩ := List.nodup_cons.mp hnodup
      obtain ⟨⟨polled, limiter⟩, hpoll, hnotIdle, hgranted, hadmits⟩ :=
        @pollNode_returns _ _ _ _ willWake waker _ hindex h hpending node
      refine .bind (.of_eq hpoll rfl :
        Returns _ fun result => result = (polled, limiter)) ?_
      rintro _ rfl
      cases hresult : polled.result with
      | inl acquisition =>
          simp only [hresult]
          have hpolled : polled.stage = acquisition.stage := by
            simp [Limiter.Polled.stage, hresult]
          have hacquisition : acquisition ≠ .idle := by
            rintro rfl
            exact hnotIdle hpolled
          have hnext := hadmits (request.setAcquisition node acquisition) rfl
            (by simp [Request.stage, hpending, hpolled]) fun _ hne =>
              Request.stage_setAcquisition_of_ne request acquisition hne
          have hindex' : index < (system.setLimiter node limiter
              polled.wakes).requests.length := hindex
          refine (ih hindex' hnext hpending hnodup).bind ?_
          rintro ⟨⟨later, request'⟩, system'⟩ hlater
          exact .pure (hlater.cons hpoll hfresh hacquisition)
      | inr permit =>
          simp only [hresult]
          have hpolled : polled.stage = .running := by
            simp [Limiter.Polled.stage, hresult]
          have hnext := hadmits { request.setAcquisition node .idle with
              phase := .running node permit } rfl
            (by simp [Request.stage, hpolled]) fun other hne => by
              simp [Request.stage, hpending, hne.symm,
                Request.setAcquisition_of_ne, hne]
          refine .pure ⟨rfl, ⟨rfl, rfl, rfl⟩, fun other hother => ?_,
            fun _ => by simpa using hgranted hpolled,
            .inr ⟨node, permit, rfl,
              Request.setAcquisition_self request node .idle,
              fun other => (hnext other).mono fun _ => And.left⟩⟩
          rw [List.mem_cons, not_or] at hother
          exact Request.setAcquisition_of_ne request .idle hother.1

/-! ## Dropping the nodes of a request -/

structure DropOutcome (index : Nat) (nodes : List Nat) (request : Request)
    (system : System ω) (request' : Request) (system' : System ω) :
    Prop where
  requests : system'.requests = system.requests
  same : request.Same request'
  phase : request'.phase = request.phase
  acquisition : ∀ node, request'.acquisition node =
    if node ∈ nodes then .idle else request.acquisition node
  admits : (system'.setRequest index request').Admits fun _ waiter =>
    waiter ∈ system'.woken

theorem dropNodes_returns {nodes : List Nat}
    (hindex : index < system.requests.length)
    (h : (system.setRequest index request).Admits fun _ waiter =>
      waiter ∈ system.woken)
    (hconsistent : request.Consistent) :
    Returns (dropNodes index nodes request system)
      fun (request', system') =>
        DropOutcome index nodes request system request' system' := by
  induction nodes generalizing request system with
  | nil => exact .pure ⟨rfl, .refl request, rfl, by simp, h⟩
  | cons node nodes ih =>
      have hlimiter := h node
      rw [setRequest_view hindex] at hlimiter
      obtain ⟨⟨wakes, limiter⟩, hdrop, hadmits⟩ :=
        Limiter.dropAcquire_admits hlimiter (request.acquisition node)
          fun hne => by rw [View.set_self, hconsistent node hne]
      refine .bind (.of_eq hdrop rfl :
        Returns _ fun result => result = (wakes, limiter)) ?_
      rintro _ rfl
      have hnext : ((system.setLimiter node limiter wakes).setRequest index
          (request.setAcquisition node .idle)).Admits
          fun _ waiter =>
            waiter ∈ (system.setLimiter node limiter wakes).woken := by
        refine h.replace hindex wakes ?_ rfl ?_ ?_
        · rw [hconsistent.stage_setIdle]
          dsimp only at hadmits
          split at hadmits
          · rename_i hidle
            rw [if_pos hidle]
            exact hadmits.mono fun _ => (mem_setLimiter_woken node limiter).mpr
          · rename_i hne
            rw [if_neg hne]
            rw [View.set_set] at hadmits
            exact hadmits.mono fun _ => (mem_setLimiter_woken node limiter).mpr
        · exact fun other hne =>
            Request.stage_setAcquisition_of_ne request .idle hne
        · exact fun _ _ _ hwoken =>
            (mem_setLimiter_woken node limiter).mpr (.inl hwoken)
      have hindex' : index <
          (system.setLimiter node limiter wakes).requests.length := hindex
      refine (ih hindex' hnext (hconsistent.setIdle node)).mono ?_
      rintro ⟨request', system'⟩ hrest
      refine ⟨hrest.requests, ⟨hrest.same.endpoint, hrest.same.candidates,
        hrest.same.polled⟩, hrest.phase, ?_, hrest.admits⟩
      intro other
      rw [hrest.acquisition other]
      by_cases heq : other = node
      · simp [heq]
      · simp [heq, Request.setAcquisition_of_ne]

theorem dropCandidates_returns (hindex : index < system.requests.length)
    (h : (system.setRequest index request).Admits fun _ waiter =>
      waiter ∈ system.woken)
    (hconsistent : request.Consistent)
    (hinside : ∀ node, request.acquisition node ≠ .idle →
      node ∈ request.candidates.nodes) :
    Returns (dropNodes index request.candidates.nodes request system)
      fun (request', system') =>
        system'.requests = system.requests ∧
        request'.phase = request.phase ∧
        (∀ node, request'.acquisition node = .idle) ∧
        (system'.setRequest index request').Admits fun _ waiter =>
          waiter ∈ system'.woken := by
  refine (dropNodes_returns hindex h hconsistent).mono ?_
  rintro ⟨request', system'⟩ hdropped
  refine ⟨hdropped.requests, hdropped.phase, fun node => ?_,
    hdropped.admits⟩
  rw [hdropped.acquisition]
  split
  · rfl
  · rename_i hout
    exact not_not.mp (mt (hinside node) hout)

/-! ## The invariant -/

structure Invariant (system : System ω) : Prop where
  admits : system.Admits fun _ waiter => waiter ∈ system.woken
  wellFormed : ∀ (index : Nat) (request : Request),
    system.requests[index]? = some request → request.WellFormed

theorem new_inv : (System.new ω).Invariant where
  admits node := by
    refine (Limiter.new_admits _).congr_idle fun request => ?_
    simp [view, System.new]
  wellFormed := by simp [System.new]

theorem setRequest_of_request
    (h : system.requests[index]? = some request) :
    system.setRequest index request = system := by
  obtain ⟨hindex, rfl⟩ := List.getElem?_eq_some_iff.mp h
  simp [setRequest]

theorem wellFormed_setRequest
    (h : ∀ (index : Nat) (request : Request),
      system.requests[index]? = some request → request.WellFormed)
    (hrequest : request.WellFormed) (other : Nat) (request' : Request)
    (hother : (system.setRequest index request).requests[other]? =
      some request') :
    request'.WellFormed := by
  rcases getElem?_set_cases hother with ⟨-, rfl⟩ | ⟨-, hbefore⟩
  · exact hrequest
  · exact h other request' hbefore

theorem Admits.of_stage {woken : Nat → Nat → Prop}
    (h : (system.setRequest index request).Admits woken)
    (hindex : index < system.requests.length) (request' : Request)
    (hendpoint : request'.endpoint = request.endpoint)
    (hstage : ∀ node, request'.stage node = request.stage node) :
    (system.setRequest index request').Admits woken := by
  intro node
  have hnode := h node
  rw [setRequest_view hindex] at hnode ⊢
  rw [hendpoint, hstage]
  exact hnode

theorem call_inv (h : system.Invariant) (endpoint : Endpoint)
    (candidates : Candidates) :
    Invariant { system with
      requests := system.requests ++
        [⟨endpoint, candidates, false, fun _ => .idle, .pending⟩] } where
  admits node := by
    refine (h.admits node).congr_idle fun other endpoint' stage hstage => ?_
    rcases Nat.lt_trichotomy other system.requests.length with
      hlt | rfl | hgt
    · simp [view, List.getElem?_append_left hlt]
    · simp [view, Request.stage, Acquisition.stage, hstage.symm]
    · have hold : system.requests[other]? = none :=
        List.getElem?_eq_none hgt.le
      have hnew : (system.requests ++
          [⟨endpoint, candidates, false, fun _ => .idle,
            .pending⟩])[other]? = none := by
        apply List.getElem?_eq_none
        rw [List.length_append, List.length_singleton]
        exact hgt
      simp only [view, hold, hnew]
  wellFormed other request hother := by
    rcases List.mem_append.mp (List.mem_of_getElem? hother) with hmem | hmem
    · obtain ⟨index, hindex⟩ := List.getElem?_of_mem hmem
      exact h.wellFormed index request hindex
    · rw [List.mem_singleton.mp hmem]
      exact ⟨by simp, by simp, by simp⟩

theorem stayPending_inv (hindex : index < system.requests.length)
    (hwell : ∀ (index : Nat) (request : Request),
      system.requests[index]? = some request → request.WellFormed)
    (hphase : request.phase = .pending)
    (hinside : ∀ node, request.acquisition node ≠ .idle →
      node ∈ request.candidates.nodes)
    (hqueued : ∀ node ∈ request.candidates.nodes,
      request.acquisition node ≠ .idle)
    (h : (system.setRequest index request).Admits fun node waiter =>
      waiter ∈ system.woken ∧
        (waiter = index → node ∉ request.candidates.nodes)) :
    (system.stayPending index request).Invariant where
  admits node := by
    have hnode := h.of_stage hindex { request with polled := true } rfl
      (fun _ => rfl) node
    refine hnode.mono_active ?_
    rintro waiter endpoint stage hview hactive ⟨hwoken, hout⟩
    refine Finset.mem_erase.mpr ⟨?_, hwoken⟩
    rintro rfl
    rw [setRequest_view hindex, View.set_self] at hview
    refine hout rfl (hinside node fun hidle => hactive ?_)
    have hstage := congrArg Prod.snd (Option.some.inj hview)
    dsimp only at hstage
    rw [← hstage, Request.stage_of_phase (by simp [hphase])]
    simp [hidle, Acquisition.stage]
  wellFormed := wellFormed_setRequest hwell
    ⟨hinside, fun _ _ => hqueued, fun hne => absurd hphase hne⟩

theorem poll_returns (h : system.Invariant)
    (hrequest : system.requests[index]? = some request)
    (hpending : request.phase = .pending) {order : List Nat}
    (horder : order.Perm request.candidates.nodes) :
    Returns (poll willWake index order waker request system)
      fun (granted, system') => system'.Invariant ∧
        ((∃ node ∈ order, (system.limiter node).WouldGrant willWake
          request.endpoint index (request.acquisition node)) →
          granted ≠ []) := by
  have hindex : index < system.requests.length :=
    (List.getElem?_eq_some_iff.mp hrequest).1
  have hwell := h.wellFormed index request hrequest
  have hadmits : (system.setRequest index request).Admits
      fun node waiter => waiter ∈ system.woken ∧
        (waiter = index → node ∉ ([] : List Nat)) := by
    rw [setRequest_of_request hrequest]
    simpa using h.admits
  refine (pollNodes_returns hindex hadmits hpending
    (horder.nodup_iff.mpr request.candidates.nodup)).bind ?_
  rintro ⟨⟨granted, request'⟩, system'⟩ houtcome
  have hindex' : index < system'.requests.length := by
    rwa [houtcome.requests]
  have hwell' : ∀ (other : Nat) (request : Request),
      system'.requests[other]? = some request → request.WellFormed := by
    rw [houtcome.requests]
    exact h.wellFormed
  have hinside : ∀ node, request'.acquisition node ≠ .idle →
      node ∈ request'.candidates.nodes := by
    intro node hne
    rw [houtcome.same.candidates]
    by_cases hnode : node ∈ order
    · exact horder.mem_iff.mp hnode
    · rw [houtcome.outside node hnode] at hne
      exact hwell.inside node hne
  rcases houtcome.result with
    ⟨hphase, hqueued, hadmits'⟩ | ⟨node, permit, hphase, hidle, hadmits'⟩
  · simp only [hphase]
    refine .pure ⟨stayPending_inv hindex' hwell' hphase hinside ?_ ?_,
      houtcome.granted⟩
    · intro node hnode
      refine hqueued node (horder.mem_iff.mpr ?_)
      rwa [← houtcome.same.candidates]
    · refine fun node => (hadmits' node).mono ?_
      rintro waiter ⟨hwoken, hdone⟩
      refine ⟨hwoken, fun heq hnode => hdone heq ?_⟩
      rw [houtcome.same.candidates] at hnode
      simpa using horder.mem_iff.mpr hnode
  · simp only [hphase]
    have hconsistent : request'.Consistent := by
      intro other hne
      have hat : node ≠ other := by
        rintro rfl
        exact hne hidle
      simp [Request.stage, hphase, hat]
    refine (dropCandidates_returns hindex' hadmits' hconsistent hinside).bind ?_
    rintro ⟨request'', system''⟩ ⟨hrequests, hphase', hall, hadmits''⟩
    refine .pure ⟨⟨hadmits'', ?_⟩, houtcome.granted⟩
    refine wellFormed_setRequest ?_ ⟨?_, ?_, fun _ => hall⟩
    · rw [hrequests]
      exact hwell'
    · exact fun other hne => absurd (hall other) hne
    · intro _ hpending'
      simp [hphase', hphase] at hpending'

theorem cancel_returns (h : system.Invariant)
    (hrequest : system.requests[index]? = some request)
    (hpending : request.phase = .pending) :
    Returns (cancel index request system)
      fun system' => system'.Invariant := by
  have hindex : index < system.requests.length :=
    (List.getElem?_eq_some_iff.mp hrequest).1
  have hwell := h.wellFormed index request hrequest
  have hadmits := h.admits
  rw [← setRequest_of_request hrequest] at hadmits
  have hconsistent : request.Consistent := fun node _ =>
    Request.stage_of_phase (by simp [hpending]) node
  refine (dropCandidates_returns hindex hadmits hconsistent hwell.inside).bind
    ?_
  rintro ⟨request', system'⟩ ⟨hrequests, hphase, hall, hadmits'⟩
  have hindex' : index < system'.requests.length := by rwa [hrequests]
  refine .pure ⟨hadmits'.of_stage hindex' _ rfl fun node => ?_, ?_⟩
  · rw [Request.stage_of_phase (by simp),
      Request.stage_of_phase (by simp [hphase, hpending])]
  · refine wellFormed_setRequest ?_ ⟨?_, by simp, fun _ => hall⟩
    · rw [hrequests]
      exact h.wellFormed
    · exact fun node hne => absurd (hall node) hne

theorem finish_returns (h : system.Invariant)
    (hrequest : system.requests[index]? = some request) {node : Nat}
    {permit : Permit} (hrunning : request.phase = .running node permit)
    (endpointMode hostMode : Mode) :
    Returns (finish index request node permit endpointMode hostMode system)
      fun system' => system'.Invariant := by
  have hindex : index < system.requests.length :=
    (List.getElem?_eq_some_iff.mp hrequest).1
  have hwell := h.wellFormed index request hrequest
  have hidle := hwell.settled (by simp [hrunning])
  have hadmits := h.admits
  rw [← setRequest_of_request hrequest] at hadmits
  have hview : system.view node index =
      some (request.endpoint, .running) := by
    rw [view_of_request hrequest]
    simp [Request.stage, hrunning]
  refine (Limiter.dropPermit_admits (h.admits node) hview permit endpointMode
    hostMode).bind ?_
  rintro ⟨wakes, limiter⟩ hlimiter
  refine .pure ⟨hadmits.replace hindex wakes ?_ rfl ?_ ?_, ?_⟩
  · rw [Request.stage_of_phase (by simp), hidle]
    refine Limiter.Admits.mono hlimiter fun waiter hwoken => ?_
    exact (mem_setLimiter_woken node limiter).mpr hwoken
  · intro other hne
    rw [Request.stage_of_phase (by simp)]
    simp [Request.stage, hrunning, hne.symm]
  · exact fun _ _ _ hwoken =>
      (mem_setLimiter_woken node limiter).mpr (.inl hwoken)
  · exact wellFormed_setRequest h.wellFormed
      ⟨hwell.inside, by simp, fun _ => hidle⟩

theorem next_returns (h : system.Invariant) {op : Op ω}
    {action : Except Panic (List Grant × System ω)}
    (hnext : system.next willWake op = some action) :
    Returns action fun (_, system') => system'.Invariant := by
  cases op with
  | call endpoint candidates =>
      simp only [next, Option.some.injEq] at hnext
      subst hnext
      exact .pure (call_inv h endpoint candidates)
  | poll index order waker =>
      cases hrequest : system.requests[index]? with
      | none => simp [next, hrequest] at hnext
      | some request =>
          simp only [next, hrequest, Option.bind_eq_bind, Option.bind_some]
            at hnext
          split at hnext
          · rename_i hop
            cases hnext
            exact (poll_returns h hrequest hop.1 hop.2).mono fun _ => And.left
          · cases hnext
  | cancel index =>
      cases hrequest : system.requests[index]? with
      | none => simp [next, hrequest] at hnext
      | some request =>
          simp only [next, hrequest, Option.bind_eq_bind, Option.bind_some]
            at hnext
          split at hnext
          · rename_i hphase
            cases hnext
            exact (cancel_returns h hrequest hphase).map fun _ => id
          · rename_i hphase
            cases hnext
            exact (finish_returns h hrequest hphase .ignore .ignore).map
              fun _ => id
          · cases hnext
  | complete index result =>
      cases hrequest : system.requests[index]? with
      | none => simp [next, hrequest] at hnext
      | some request =>
          simp only [next, hrequest, Option.bind_eq_bind, Option.bind_some]
            at hnext
          split at hnext
          · rename_i hphase
            cases hnext
            exact (finish_returns h hrequest hphase _ _).map fun _ => id
          · cases hnext

theorem run_inv {events : List (Event ω)}
    (run : Run (Step willWake) (System.new ω) events system) :
    system.Invariant :=
  run.invariant (fun _ system => system.Invariant) new_inv
    fun h hstep => (next_returns h hstep).result rfl

/-! ## Some request can move -/

/-- Whatever the order of the nodes and the waker, polling the request gets
it a further permit. -/
def WouldAdvance (willWake : ω → ω → Bool) (system : System ω)
    (index : Nat) (request : Request) : Prop :=
  ∀ (order : List Nat) (waker : ω),
    order.Perm request.candidates.nodes →
    ∃ granted system',
      system.next willWake (.poll index order waker) =
        some (.ok (granted, system')) ∧ granted ≠ []

theorem wouldAdvance (h : system.Invariant)
    (hrequest : system.requests[index]? = some request)
    (hpending : request.phase = .pending) {node : Nat}
    (hnode : node ∈ request.candidates.nodes)
    (hgrant : (system.limiter node).WouldGrant willWake request.endpoint
      index (request.acquisition node)) :
    system.WouldAdvance willWake index request := by
  intro order waker horder
  have hpolls : Returns (poll willWake index order waker request system) _ :=
    poll_returns h hrequest hpending horder
  obtain ⟨⟨granted, system'⟩, hpoll, -, hgranted⟩ := hpolls
  refine ⟨granted, system', ?_,
    hgranted ⟨node, horder.mem_iff.mpr hnode, hgrant⟩⟩
  simp [next, hrequest, hpending, horder, hpoll]

/-- What `some_request_advances` claims when no request runs. -/
def SomeAdvances (willWake : ω → ω → Bool) (system : System ω) : Prop :=
  ∃ mover request, system.requests[mover]? = some request ∧
    request.phase = .pending ∧
    (request.polled = false ∨ mover ∈ system.woken) ∧
    system.WouldAdvance willWake mover request

def NoneRuns (system : System ω) : Prop :=
  ∀ (index : Nat) (request : Request) node permit,
    system.requests[index]? = some request →
    request.phase ≠ .running node permit

theorem not_running_of_noneRuns (hnone : system.NoneRuns) {node : Nat}
    {endpoint : Endpoint} :
    system.view node index ≠ some (endpoint, .running) := by
  intro hview
  obtain ⟨request, hrequest, -, hstage⟩ := request_of_view hview
  rw [Request.stage_of_phase fun node permit =>
    hnone index request node permit hrequest] at hstage
  cases hacquisition : request.acquisition node <;>
    simp [hacquisition, Acquisition.stage] at hstage

theorem waiting_advances (h : system.Invariant) (hnone : system.NoneRuns)
    {node : Nat} {endpoint : Endpoint} {stage : Stage}
    (hview : system.view node index = some (endpoint, stage))
    (hstage : stage ≠ .idle) (hwoken : index ∈ system.woken)
    (hgrant : ∀ request : Request, request.endpoint = endpoint →
      (request.acquisition node).stage = stage →
      (system.limiter node).WouldGrant willWake request.endpoint index
        (request.acquisition node)) :
    system.SomeAdvances willWake := by
  obtain ⟨request, hrequest, hendpoint, hat⟩ := request_of_view hview
  rw [Request.stage_of_phase fun node permit =>
    hnone index request node permit hrequest] at hat
  have hwell := h.wellFormed index request hrequest
  have hne : request.acquisition node ≠ .idle := by
    intro hidle
    rw [hidle] at hat
    exact hstage hat.symm
  have hpending : request.phase = .pending :=
    not_not.mp fun hphase => hne (hwell.settled hphase node)
  exact ⟨index, request, hrequest, hpending, .inr hwoken,
    wouldAdvance h hrequest hpending (hwell.inside node hne)
      (hgrant request hendpoint hat)⟩

theorem host_advances (h : system.Invariant) (hnone : system.NoneRuns)
    (node : Nat) (hwaits : ∃ waiter, (system.view node).WaitsHost waiter) :
    system.SomeAdvances willWake := by
  obtain ⟨waiter, hwaiter⟩ := hwaits
  have hholds : ∀ request, ¬ (system.view node).HoldsHost request := by
    rintro request ⟨endpoint, hview⟩
    exact not_running_of_noneRuns hnone hview
  rcases (h.admits node).host.progress hholds willWake with
    ⟨hempty, -⟩ | ⟨head, ⟨endpoint, hview⟩, hwoken, hgrant⟩
  · exact absurd hwaiter (hempty waiter)
  · refine waiting_advances h hnone hview (by simp) hwoken ?_
    intro request _ hstage
    cases hacquisition : request.acquisition node with
    | host endpointSnapshot => exact hgrant
    | idle | endpoint => simp [hacquisition, Acquisition.stage] at hstage

theorem endpoint_advances (h : system.Invariant) (hnone : system.NoneRuns)
    (hhost : ∀ node waiter, ¬ (system.view node).WaitsHost waiter)
    (hrequest : system.requests[index]? = some request)
    (hpending : request.phase = .pending) :
    system.SomeAdvances willWake := by
  obtain ⟨node, hnode⟩ :=
    List.exists_mem_of_ne_nil _ request.candidates.nonempty
  have hwell := h.wellFormed index request hrequest
  have hholds : ∀ other,
      ¬ (system.view node).HoldsEndpoint request.endpoint other := by
    rintro other (hview | hview)
    · exact hhost node other ⟨_, hview⟩
    · exact not_running_of_noneRuns hnone hview
  have hview := view_of_request hrequest node
  rw [Request.stage_of_phase (by simp [hpending])] at hview
  have hnot : (request.acquisition node).stage ≠ .host := by
    intro hstage
    rw [hstage] at hview
    exact hhost node index ⟨_, hview⟩
  rcases ((h.admits node).endpoint request.endpoint).progress hholds
    willWake with ⟨hempty, hgrant⟩ | ⟨head, hhead, hwoken, hgrant⟩
  · refine ⟨index, request, hrequest, hpending, .inl ?_,
      wouldAdvance h hrequest hpending hnode ?_⟩
    · refine Bool.eq_false_iff.mpr fun hpolled => ?_
      have hne := hwell.polled hpolled hpending node hnode
      cases hacquisition : request.acquisition node with
      | idle => exact hne hacquisition
      | endpoint =>
          rw [hacquisition] at hview
          exact hempty index hview
      | host endpointSnapshot =>
          simp [hacquisition, Acquisition.stage] at hnot
    · cases hacquisition : request.acquisition node with
      | host endpointSnapshot =>
          simp [hacquisition, Acquisition.stage] at hnot
      | idle | endpoint => exact hgrant index
  · refine waiting_advances h hnone hhead (by simp) hwoken ?_
    intro request' hendpoint hstage
    rw [hendpoint]
    cases hacquisition : request'.acquisition node with
    | endpoint => exact hgrant
    | idle | host => simp [hacquisition, Acquisition.stage] at hstage

end System

/-- While a request is unfinished, some request runs, or some pending one
that was never polled or was woken since gets a permit when it is polled. -/
theorem some_request_advances {willWake : ω → ω → Bool}
    {events : List (Event ω)} {system : System ω}
    (run : Run (System.Step willWake) (System.new ω) events system)
    {index : Nat} {request : Request}
    (hrequest : system.requests[index]? = some request)
    (hunfinished : request.phase ≠ .finished) :
    (∃ (runner : Nat) (request : Request) (node : Nat) (permit : Permit),
      system.requests[runner]? = some request ∧
      request.phase = .running node permit) ∨
    system.SomeAdvances willWake := by
  have h := System.run_inv run
  by_cases hrunning : ∃ (runner : Nat) (request : Request) (node : Nat)
      (permit : Permit), system.requests[runner]? = some request ∧
      request.phase = .running node permit
  · exact .inl hrunning
  · refine .inr ?_
    have hidle : system.NoneRuns :=
      fun other request node permit hother hphase =>
        hrunning ⟨other, request, node, permit, hother, hphase⟩
    by_cases hwaits : ∃ node waiter, (system.view node).WaitsHost waiter
    · obtain ⟨node, waiter, hwaiter⟩ := hwaits
      exact System.host_advances h hidle node ⟨waiter, hwaiter⟩
    · have hpending : request.phase = .pending := by
        cases hphase : request.phase with
        | pending => rfl
        | running node permit =>
            exact absurd hphase (hidle index request node permit hrequest)
        | finished => exact absurd hphase hunfinished
      exact System.endpoint_advances h hidle
        (fun node waiter hwaiter => hwaits ⟨node, waiter, hwaiter⟩)
        hrequest hpending

theorem second_request_advances :
    ∃ events system,
      Run (System.Step fun _ _ => true) (System.new Unit) events system ∧
      ((∃ (runner : Nat) (request : Request) (node : Nat) (permit : Permit),
          system.requests[runner]? = some request ∧
          request.phase = .running node permit) ∨
        system.SomeAdvances fun _ _ => true) := by
  let candidates : Candidates := ⟨[0, 1], by decide, by decide⟩
  have h : exec (System.tryNext fun _ _ => true) (System.new Unit)
      [.call ⟨.get, "/a"⟩ candidates, .poll 0 [1, 0] (), .cancel 0,
        .call ⟨.get, "/a"⟩ candidates] = some (_, _) := rfl
  have run := exec_run System.tryNext_step h
  exact ⟨_, _, run, @some_request_advances _ _ _ _ run 1 _ rfl (by decide)⟩

end ConjureRuntime.Node
