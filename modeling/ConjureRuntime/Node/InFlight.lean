import ConjureRuntime.Node.Admission
import ConjureRuntime.Node.Balanced
import Mathlib.Data.List.Count

/-!
# Requests in flight

The balanced selector counts the requests at each node itself, beside the
limiter.  A request is counted when it has its permits, and no more when its
guard is dropped, after an answer or when it is cancelled; each access to a
counter is a step of its own, so requests overlap in all of them.  A poll of
the limiters is one step, and so is the drop of the permits.
-/

namespace ConjureRuntime.Service.StatusCode

def isClientError (status : StatusCode) : Bool :=
  400 ≤ status.code ∧ status.code < 500

end ConjureRuntime.Service.StatusCode

namespace ConjureRuntime.Node.Balanced

open ConjureRuntime.Foundation ConjureRuntime.Service ConjureRuntime.Limiter

variable {ω : Type} {usizeMax : Nat}

/-! ## Calls -/

def failureWeight : ℚ := 10

/-- What an answer adds to the recent failures of a node. -/
def updateOf : Except Error (Response Unit) → Option ℚ
  | .ok response =>
      if response.status.isServerError then some failureWeight
      else if response.status.isClientError then some (failureWeight / 100)
      else none
  | .error _ => some failureWeight

/-- How far a request is with the counter of its node: it is not counted yet,
its guard is there, there is an answer with an update to come, or its guard is
dropped. -/
inductive Guard where
  | before
  | held (node : Nat)
  | answered (node : Nat) (update : Option ℚ)
  | dropped
  deriving DecidableEq

/-- The reservoir of recent failures by the updates it has got. -/
structure TrackedNode where
  inFlight : Nat
  updates : List ℚ

structure State (ω : Type) where
  limits : System ω
  nodes : Nat → TrackedNode
  guards : List Guard

/-- The scores that a call or a poll goes by are those that it has read, each
at some moment before. -/
inductive Op (ω : Type) (usizeMax : Nat) where
  | call (endpoint : Endpoint) (snapshots : List (Snapshot usizeMax Nat))
      (shuffle :
        List (Snapshot usizeMax Nat) → List (Snapshot usizeMax Nat))
  | poll (request : Nat) (scores : Nat → Score usizeMax) (waker : ω)
  | cancel (request : Nat)
  | enter (request : Nat)
  | complete (request : Nat) (result : Except Error (Response Unit))
  | update (request : Nat)
  | leave (request : Nat)

inductive Event (ω : Type) where
  | limits (event : Node.Event ω)
  | entered (request node : Nat)
  | updated (node : Nat) (update : ℚ)
  | left (request node : Nat)

/-- The order in which `Acquire::poll` polls the nodes. -/
def pollOrder (scores : Nat → Score usizeMax) (nodes : List Nat) : List Nat :=
  (sortByKey (nodes.map fun node => ⟨node, scores node⟩)).map Snapshot.node

namespace State

def new (ω : Type) : State ω := ⟨System.new ω, fun _ => ⟨0, []⟩, []⟩

def setNode (state : State ω) (node : Nat) (tracked : TrackedNode) :
    State ω :=
  { state with nodes := Function.update state.nodes node tracked }

def setGuard (state : State ω) (request : Nat) (guard : Guard) : State ω :=
  { state with guards := state.guards.set request guard }

def limited (willWake : ω → ω → Bool) (state : State ω) (op : Node.Op ω)
    (guards : List Guard) : Option (Event ω × State ω) :=
  match state.limits.tryNext willWake op with
  | some (event, limits) =>
      some (.limits event, { state with limits := limits, guards := guards })
  | none => none

section fields

variable (state : State ω) (request node : Nat) (tracked : TrackedNode)
  (guard : Guard)

@[simp] theorem setNode_limits :
    (state.setNode node tracked).limits = state.limits := rfl

@[simp] theorem setNode_nodes :
    (state.setNode node tracked).nodes =
      Function.update state.nodes node tracked := rfl

@[simp] theorem setNode_guards :
    (state.setNode node tracked).guards = state.guards := rfl

@[simp] theorem setGuard_limits :
    (state.setGuard request guard).limits = state.limits := rfl

@[simp] theorem setGuard_nodes :
    (state.setGuard request guard).nodes = state.nodes := rfl

@[simp] theorem setGuard_guards :
    (state.setGuard request guard).guards =
      state.guards.set request guard := rfl

end fields

/-- `InFlightGuard::new` with the addition before it. -/
def enter (state : State ω) (request node : Nat) : State ω :=
  let tracked := state.nodes node
  (state.setNode node
    { tracked with inFlight := tracked.inFlight + 1 }).setGuard request
      (.held node)

/-- `InFlightGuard::drop`. -/
def leave (state : State ω) (request node : Nat) : State ω :=
  let tracked := state.nodes node
  (state.setNode node
    { tracked with inFlight := tracked.inFlight - 1 }).setGuard request
      .dropped

def update (state : State ω) (request node : Nat) (update : ℚ) : State ω :=
  let tracked := state.nodes node
  (state.setNode node
    { tracked with updates := tracked.updates ++ [update] }).setGuard request
      (.answered node none)

def next (willWake : ω → ω → Bool) (state : State ω) :
    Op ω usizeMax → Option (Event ω × State ω)
  | .call endpoint snapshots shuffle =>
      let nodes := (acquire shuffle snapshots).map Snapshot.node
      if h : nodes ≠ [] ∧ nodes.Nodup then
        state.limited willWake (.call endpoint ⟨nodes, h.1, h.2⟩)
          (state.guards ++ [.before])
      else none
  | .poll index scores waker =>
      match state.limits.requests[index]? with
      | some request =>
          state.limited willWake (.poll index
            (pollOrder scores request.candidates.nodes) waker) state.guards
      | none => none
  | .cancel index =>
      match state.limits.requests[index]?, state.guards[index]? with
      | some request, some guard =>
          -- a request is not dropped between its permits and its guard
          if request.phase = .pending ∨ guard ≠ .before then
            state.limited willWake (.cancel index) state.guards
          else none
      | _, _ => none
  | .enter index =>
      match state.limits.requests[index]?, state.guards[index]? with
      | some request, some .before =>
          match request.phase with
          | .running node _ =>
              some (.entered index node, state.enter index node)
          | _ => none
      | _, _ => none
  | .complete index result =>
      match state.guards[index]? with
      | some (.held node) =>
          state.limited willWake (.complete index result)
            (state.guards.set index (.answered node (updateOf result)))
      | _ => none
  | .update index =>
      match state.guards[index]? with
      | some (.answered node (some update)) =>
          some (.updated node update, state.update index node update)
      | _ => none
  | .leave index =>
      match state.limits.requests[index]?, state.guards[index]? with
      | some _, some (.answered node none) =>
          some (.left index node, state.leave index node)
      | some request, some (.held node) =>
          if request.phase = .finished then
            some (.left index node, state.leave index node)
          else none
      | _, _ => none

def Step (usizeMax : Nat) (willWake : ω → ω → Bool) (state : State ω)
    (event : Event ω) (state' : State ω) : Prop :=
  ∃ op : Op ω usizeMax, state.next willWake op = some (event, state')

end State

/-! ## The order of the polls -/

variable {scores : Nat → Score usizeMax} {nodes : List Nat}

theorem pollOrder_perm : (pollOrder scores nodes).Perm nodes := by
  have hmap := (@sortByKey_perm _ _
    (nodes.map fun node => (⟨node, scores node⟩ : Snapshot usizeMax Nat))).map
      Snapshot.node
  rw [List.map_map] at hmap
  exact hmap.trans (List.Perm.of_eq (List.map_id' nodes))

theorem pollOrder_sorted : (pollOrder scores nodes).Pairwise
    fun a b => (scores a).score ≤ (scores b).score := by
  rw [pollOrder, List.pairwise_map]
  refine sortByKey_sorted.imp_of_mem fun {a b} ha hb hle => ?_
  have hscore : ∀ snapshot ∈ sortByKey
      (nodes.map fun node => (⟨node, scores node⟩ : Snapshot usizeMax Nat)),
      scores snapshot.node = snapshot.score := by
    intro snapshot hmem
    obtain ⟨node, -, rfl⟩ := List.mem_map.mp (sortByKey_perm.mem_iff.mp hmem)
    rfl
  rw [hscore a ha, hscore b hb]
  exact hle

end ConjureRuntime.Node.Balanced

/-! ## What the limiters do to the requests -/

namespace ConjureRuntime.Node.System

open ConjureRuntime.Foundation ConjureRuntime.Service ConjureRuntime.Limiter

variable {ω : Type} {willWake : ω → ω → Bool} {system system' : System ω}
  {index : Nat} {request request' : Request} {waker : ω}
  {event : Node.Event ω}

theorem tryNext_eq_some {op : Node.Op ω}
    (h : system.tryNext willWake op = some (event, system')) :
    system.next willWake op = some (.ok (event.granted, system')) := by
  unfold tryNext at h
  split at h
  · rename_i granted last hnext
    cases h
    exact hnext
  · cases h

theorem pollNodes_requests {order : List Nat} {granted : List Grant}
    (hpoll : pollNodes willWake index waker order request system =
      .ok ((granted, request'), system')) :
    system'.requests = system.requests := by
  induction order generalizing request system granted with
  | nil =>
      cases hpoll
      rfl
  | cons first order ih =>
      obtain ⟨⟨polled, limiter⟩, -, hpoll⟩ := bind_eq_ok hpoll
      cases hresult : polled.result with
      | inr permit =>
          simp only [hresult] at hpoll
          cases hpoll
          rfl
      | inl acquisition =>
          simp only [hresult] at hpoll
          obtain ⟨⟨⟨later, request''⟩, last⟩, hrest, hpoll⟩ := bind_eq_ok hpoll
          cases hpoll
          have hlast := ih hrest
          exact hlast

theorem poll_requests {order : List Nat} {granted : List Grant}
    (hpoll : poll willWake index order waker request system =
      .ok (granted, system')) :
    ∃ granted' polled mid request',
      pollNodes willWake index waker order request system =
        .ok ((granted', polled), mid) ∧
      request'.phase = polled.phase ∧
      system'.requests = system.requests.set index request' := by
  obtain ⟨⟨⟨granted', polled⟩, mid⟩, hnodes, hpoll⟩ := bind_eq_ok hpoll
  have hmid := pollNodes_requests hnodes
  cases hphase : polled.phase with
  | pending =>
      simp only [hphase] at hpoll
      cases hpoll
      exact ⟨_, polled, _, { polled with polled := true }, hnodes, rfl, by
        rw [← hmid]
        rfl⟩
  | running | finished =>
      simp only [hphase] at hpoll
      obtain ⟨⟨dropped, last⟩, hdrop, hpoll⟩ := bind_eq_ok hpoll
      obtain ⟨hphase', hrequests⟩ := dropNodes_phase hdrop
      cases hpoll
      exact ⟨_, polled, _, dropped, hnodes, hphase', by
        rw [← hmid, ← hrequests]
        rfl⟩

theorem tryNext_call {endpoint : Endpoint} {candidates : Candidates}
    (h : system.tryNext willWake (.call endpoint candidates) =
      some (event, system')) :
    ∃ request, request.phase = .pending ∧
      system'.requests = system.requests ++ [request] := by
  have hnext := Except.ok.inj (Option.some.inj (tryNext_eq_some h))
  obtain ⟨-, rfl⟩ := Prod.mk.inj hnext
  exact ⟨_, rfl, rfl⟩

theorem tryNext_poll {order : List Nat}
    (h : system.tryNext willWake (.poll index order waker) =
      some (event, system')) :
    ∃ request request', system.requests[index]? = some request ∧
      request.phase = .pending ∧
      system'.requests = system.requests.set index request' := by
  have hnext := tryNext_eq_some h
  cases hrequest : system.requests[index]? with
  | none => simp [next, hrequest] at hnext
  | some request =>
      simp only [next, hrequest, Option.bind_eq_bind, Option.bind_some]
        at hnext
      split at hnext
      · rename_i hready
        obtain ⟨-, -, -, request', -, -, hrequests⟩ :=
          poll_requests (Option.some.inj hnext)
        exact ⟨request, request', rfl, hready.1, hrequests⟩
      · cases hnext

theorem cancel_requests (h : cancel index request system = .ok system') :
    ∃ request', request'.phase = .finished ∧
      system'.requests = system.requests.set index request' := by
  obtain ⟨⟨request', last⟩, hdrop, h⟩ := bind_eq_ok h
  cases h
  exact ⟨{ request' with phase := .finished }, rfl, by
    rw [← (dropNodes_phase hdrop).2]
    rfl⟩

theorem finish_requests {node : Nat} {permit : Permit}
    {endpointMode hostMode : Mode}
    (h : finish index request node permit endpointMode hostMode system =
      .ok system') :
    ∃ request', request'.phase = .finished ∧
      system'.requests = system.requests.set index request' := by
  obtain ⟨⟨wakes, limiter⟩, -, h⟩ := bind_eq_ok h
  cases h
  exact ⟨{ request with phase := .finished }, rfl, rfl⟩

theorem tryNext_cancel
    (h : system.tryNext willWake (.cancel index) = some (event, system')) :
    ∃ request', request'.phase = .finished ∧
      system'.requests = system.requests.set index request' := by
  have hnext := tryNext_eq_some h
  cases hrequest : system.requests[index]? with
  | none => simp [next, hrequest] at hnext
  | some request =>
      simp only [next, hrequest, Option.bind_eq_bind, Option.bind_some]
        at hnext
      split at hnext
      · exact cancel_requests (map_eq_ok (Option.some.inj hnext))
      · exact finish_requests (map_eq_ok (Option.some.inj hnext))
      · cases hnext

theorem tryNext_complete {result : Except Error (Response Unit)}
    (h : system.tryNext willWake (.complete index result) =
      some (event, system')) :
    ∃ request', request'.phase = .finished ∧
      system'.requests = system.requests.set index request' := by
  have hnext := tryNext_eq_some h
  cases hrequest : system.requests[index]? with
  | none => simp [next, hrequest] at hnext
  | some request =>
      simp only [next, hrequest, Option.bind_eq_bind, Option.bind_some]
        at hnext
      split at hnext
      · exact finish_requests (map_eq_ok (Option.some.inj hnext))
      · cases hnext

end ConjureRuntime.Node.System

namespace ConjureRuntime.Node.Balanced

open ConjureRuntime.Foundation ConjureRuntime.Service ConjureRuntime.Limiter

variable {ω : Type} {usizeMax : Nat} {willWake : ω → ω → Bool}

/-! ## The counters -/

def Fits (request : Request) : Guard → Prop
  | .before => True
  | .held node =>
      request.phase = .finished ∨
        ∃ permit, request.phase = .running node permit
  | .answered _ _ | .dropped => request.phase = .finished

def AllFit (requests : List Request) (guards : List Guard) : Prop :=
  ∀ (index : Nat) (request : Request) (guard : Guard),
    requests[index]? = some request → guards[index]? = some guard →
    Fits request guard

def Guard.holds (node : Nat) : Guard → Bool
  | .held at_ | .answered at_ _ => at_ = node
  | _ => false

variable {index : Nat} {guard : Guard}

theorem AllFit.change {requests requests' : List Request}
    {guards guards' : List Guard} (h : AllFit requests guards)
    (hothers : ∀ other, other ≠ index →
      requests'[other]? = requests[other]? ∧
      guards'[other]? = guards[other]?)
    (hindex : ∀ request guard, requests'[index]? = some request →
      guards'[index]? = some guard → Fits request guard) :
    AllFit requests' guards' := by
  intro other request guard hrequest hguard
  by_cases heq : other = index
  · subst heq
    exact hindex request guard hrequest hguard
  · rw [(hothers other heq).1] at hrequest
    rw [(hothers other heq).2] at hguard
    exact h other request guard hrequest hguard

theorem AllFit.append {requests : List Request} {guards : List Guard}
    (h : AllFit requests guards) (hlength : guards.length = requests.length)
    (request : Request) :
    AllFit (requests ++ [request]) (guards ++ [.before]) := by
  intro index request' guard hrequest hguard
  rcases getElem?_append_singleton_cases hguard with hguard | ⟨-, rfl⟩
  · have hlt := (List.getElem?_eq_some_iff.mp hguard).1
    rw [List.getElem?_append_left (by omega)] at hrequest
    exact h index request' guard hrequest hguard
  · trivial

theorem getElem?_set_some {α : Type} {l : List α} {x y : α}
    (h : (l.set index x)[index]? = some y) : y = x :=
  (getElem?_set_cases h).elim And.right fun h => absurd rfl h.1

namespace State

structure Invariant (state : State ω) : Prop where
  limits : state.limits.Invariant
  length : state.guards.length = state.limits.requests.length
  fits : AllFit state.limits.requests state.guards
  counted : ∀ node,
    (state.nodes node).inFlight = state.guards.countP (Guard.holds node)

theorem new_invariant : (new ω).Invariant where
  limits := System.new_inv
  length := rfl
  fits := by
    intro index request guard hrequest
    simp [new, System.new] at hrequest
  counted := by simp [new]

variable {state state' : State ω} {node : Nat}

theorem limited_step {op : Node.Op ω} {guards : List Guard} {event : Event ω}
    (h : state.limited willWake op guards = some (event, state')) :
    ∃ event' limits, state.limits.tryNext willWake op =
        some (event', limits) ∧
      state' = { state with limits := limits, guards := guards } := by
  unfold limited at h
  split at h
  · rename_i event' limits hnext
    cases h
    exact ⟨event', limits, hnext, rfl⟩
  · cases h

theorem Invariant.counted_set (h : state.Invariant) {new : Guard}
    (hguard : state.guards[index]? = some guard) (node : Nat) :
    (state.guards.set index new).countP (Guard.holds node) +
        (if guard.holds node then 1 else 0) =
      (state.nodes node).inFlight + if new.holds node then 1 else 0 := by
  rw [countP_set_add hguard, h.counted]

theorem Invariant.limited (h : state.Invariant) {op : Node.Op ω}
    {event : Node.Event ω} {limits : System ω} {guards : List Guard}
    (hnext : state.limits.tryNext willWake op = some (event, limits))
    (hlength : guards.length = limits.requests.length)
    (hfits : AllFit limits.requests guards)
    (hcounted : ∀ node, guards.countP (Guard.holds node) =
      state.guards.countP (Guard.holds node)) :
    Invariant { state with limits := limits, guards := guards } where
  limits := (System.next_returns h.limits
    (System.tryNext_eq_some hnext)).result rfl
  length := hlength
  fits := hfits
  counted node := by rw [h.counted, hcounted]

theorem Invariant.enter (h : state.Invariant) {request : Request}
    {permit : Permit} (hrequest : state.limits.requests[index]? = some request)
    (hguard : state.guards[index]? = some .before)
    (hrunning : request.phase = .running node permit) :
    (state.enter index node).Invariant where
  limits := h.limits
  length := by simp [State.enter, h.length]
  fits := by
    refine h.fits.change (fun other hne =>
      ⟨rfl, List.getElem?_set_ne (Ne.symm hne)⟩) ?_
    intro request' guard' hrequest' hguard'
    cases hrequest.symm.trans hrequest'
    rw [getElem?_set_some hguard']
    exact .inr ⟨permit, hrunning⟩
  counted other := by
    have hcount := @h.counted_set _ _ _ _ (.held node) hguard other
    simp only [Guard.holds, Bool.false_eq_true, if_false, Nat.add_zero,
      decide_eq_true_eq] at hcount
    simp only [State.enter, setGuard_nodes, setGuard_guards, setNode_nodes,
      setNode_guards, hcount]
    by_cases heq : other = node
    · subst heq
      simp
    · simp [Function.update_of_ne heq, Ne.symm heq]

theorem Invariant.leave (h : state.Invariant) {request : Request}
    (hrequest : state.limits.requests[index]? = some request)
    (hguard : state.guards[index]? = some guard)
    (hholds : ∀ other, guard.holds other = decide (node = other))
    (hfinished : request.phase = .finished) :
    (state.leave index node).Invariant where
  limits := h.limits
  length := by simp [State.leave, h.length]
  fits := by
    refine h.fits.change (fun other hne =>
      ⟨rfl, List.getElem?_set_ne (Ne.symm hne)⟩) ?_
    intro request' guard' hrequest' hguard'
    cases hrequest.symm.trans hrequest'
    rw [getElem?_set_some hguard']
    exact hfinished
  counted other := by
    have hcount := @h.counted_set _ _ _ _ .dropped hguard other
    rw [hholds] at hcount
    simp only [Guard.holds, Bool.false_eq_true, if_false, Nat.add_zero,
      decide_eq_true_eq] at hcount
    simp only [State.leave, setGuard_nodes, setGuard_guards, setNode_nodes,
      setNode_guards]
    by_cases heq : other = node
    · subst heq
      rw [if_pos rfl] at hcount
      rw [Function.update_self]
      dsimp only
      omega
    · rw [if_neg (Ne.symm heq)] at hcount
      rw [Function.update_of_ne heq]
      exact hcount.symm

theorem Invariant.update (h : state.Invariant) {weight : ℚ}
    (hguard : state.guards[index]? =
      some (.answered node (some weight))) :
    (state.update index node weight).Invariant where
  limits := h.limits
  length := by simp [State.update, h.length]
  fits := by
    refine h.fits.change (fun other hne =>
      ⟨rfl, List.getElem?_set_ne (Ne.symm hne)⟩) ?_
    intro request' guard' hrequest' hguard'
    have hfinished := h.fits index request' _ hrequest' hguard
    rw [getElem?_set_some hguard']
    exact hfinished
  counted other := by
    have hcount := @h.counted_set _ _ _ _ (.answered node none) hguard other
    have hnode : (Function.update state.nodes node
        { state.nodes node with
          updates := (state.nodes node).updates ++ [weight] } other).inFlight =
        (state.nodes other).inFlight := by
      by_cases heq : other = node
      · subst heq
        rw [Function.update_self]
      · rw [Function.update_of_ne heq]
    simp only [State.update, setGuard_nodes, setGuard_guards, setNode_nodes,
      setNode_guards, hnode]
    exact (Nat.add_right_cancel hcount).symm

theorem Invariant.step (h : state.Invariant) {event : Event ω}
    (hstep : Step usizeMax willWake state event state') :
    state'.Invariant := by
  obtain ⟨op, hnext⟩ := hstep
  cases op with
  | call endpoint snapshots shuffle =>
      simp only [next] at hnext
      split at hnext
      · obtain ⟨event', limits, hlimits, rfl⟩ := limited_step hnext
        obtain ⟨request, -, hrequests⟩ := System.tryNext_call hlimits
        refine h.limited hlimits ?_ ?_ fun node => by simp [Guard.holds]
        · simp [hrequests, h.length]
        · rw [hrequests]
          exact h.fits.append h.length request
      · cases hnext
  | poll index scores waker =>
      simp only [next] at hnext
      split at hnext
      · obtain ⟨event', limits, hlimits, rfl⟩ := limited_step hnext
        obtain ⟨request, request', hrequest, hpending, hrequests⟩ :=
          System.tryNext_poll hlimits
        refine h.limited hlimits (by simp [hrequests, h.length]) ?_
          fun node => rfl
        rw [hrequests]
        refine h.fits.change (fun other hne =>
          ⟨List.getElem?_set_ne (Ne.symm hne), rfl⟩) ?_
        rintro request'' guard - hguard
        -- a request that waits is not counted
        have hfits := h.fits index request guard hrequest hguard
        cases guard with
        | before => trivial
        | held => simp [Fits, hpending] at hfits
        | answered | dropped => simp [Fits, hpending] at hfits
      · cases hnext
  | cancel index =>
      simp only [next] at hnext
      split at hnext
      · split at hnext
        · obtain ⟨event', limits, hlimits, rfl⟩ := limited_step hnext
          obtain ⟨request', hfinished, hrequests⟩ :=
            System.tryNext_cancel hlimits
          refine h.limited hlimits (by simp [hrequests, h.length]) ?_
            fun node => rfl
          rw [hrequests]
          refine h.fits.change (fun other hne =>
            ⟨List.getElem?_set_ne (Ne.symm hne), rfl⟩) ?_
          rintro request'' guard hrequest'' -
          rw [getElem?_set_some hrequest'']
          cases guard with
          | before => trivial
          | held => exact .inl hfinished
          | answered | dropped => exact hfinished
        · cases hnext
      · cases hnext
  | enter index =>
      simp only [next] at hnext
      split at hnext
      · rename_i request hrequest hguard
        split at hnext
        · rename_i node permit hrunning
          cases hnext
          exact h.enter hrequest hguard hrunning
        · cases hnext
      · cases hnext
  | complete index result =>
      simp only [next] at hnext
      split at hnext
      · rename_i node hguard
        obtain ⟨event', limits, hlimits, rfl⟩ := limited_step hnext
        obtain ⟨request', hfinished, hrequests⟩ :=
          System.tryNext_complete hlimits
        refine h.limited hlimits (by simp [hrequests, h.length]) ?_ ?_
        · rw [hrequests]
          refine h.fits.change (fun other hne =>
            ⟨List.getElem?_set_ne (Ne.symm hne),
              List.getElem?_set_ne (Ne.symm hne)⟩) ?_
          intro request'' guard hrequest'' hguard''
          rw [getElem?_set_some hrequest'', getElem?_set_some hguard'']
          exact hfinished
        · intro other
          exact Nat.add_right_cancel
            (countP_set_add hguard _ (Guard.holds other))
      · cases hnext
  | update index =>
      simp only [next] at hnext
      split at hnext
      · rename_i node weight hguard
        cases hnext
        exact h.update hguard
      · cases hnext
  | leave index =>
      simp only [next] at hnext
      split at hnext
      · rename_i request node hrequest hguard
        cases hnext
        exact h.leave hrequest hguard (fun other => rfl)
          (h.fits index request _ hrequest hguard)
      · rename_i request node hrequest hguard
        split at hnext
        · rename_i hfinished
          cases hnext
          exact h.leave hrequest hguard (fun other => rfl) hfinished
        · cases hnext
      · cases hnext

theorem run_invariant {events : List (Event ω)}
    (run : Run (Step usizeMax willWake) (new ω) events state) :
    state.Invariant :=
  run.invariant (fun _ state => state.Invariant) new_invariant
    fun h hstep => h.step hstep

/-! ## Two counts of the same requests -/

def starting (state : State ω) (node : Nat) : Nat :=
  (state.limits.requests.zip state.guards).countP fun (request, guard) =>
    decide (request.stage node = .running) && decide (guard = .before)

def leaving (state : State ω) (node : Nat) : Nat :=
  (state.limits.requests.zip state.guards).countP fun (request, guard) =>
    decide (request.phase = .finished) && guard.holds node

theorem stage_running_iff {request : Request} :
    request.stage node = .running ↔
      ∃ permit, request.phase = .running node permit := by
  have hacquisition : (request.acquisition node).stage ≠ .running := by
    cases request.acquisition node <;> simp [Acquisition.stage]
  unfold Request.stage
  cases hphase : request.phase with
  | pending | finished => simpa using hacquisition
  | running at_ permit =>
      by_cases heq : at_ = node
      · simp [heq]
      · simpa [heq] using hacquisition

theorem Fits.counts {request : Request} (h : Fits request guard)
    (node : Nat) :
    (if guard.holds node = true then 1 else 0) +
        (if (decide (request.stage node = .running) &&
          decide (guard = .before)) = true then 1 else 0) =
      (if decide (request.stage node = .running) = true then 1 else 0) +
        (if (decide (request.phase = .finished) && guard.holds node) = true
          then 1 else 0) := by
  cases guard with
  | before => simp [Guard.holds]
  | held at_ =>
      rcases h with hfinished | ⟨permit, hrunning⟩
      · have hstage : request.stage node ≠ .running := by
          rw [ne_eq, stage_running_iff, hfinished]
          simp
        simp [hfinished, hstage]
      · by_cases heq : at_ = node
        · have hstage : request.stage node = .running :=
            stage_running_iff.mpr ⟨permit, heq ▸ hrunning⟩
          simp [Guard.holds, heq, hstage, hrunning]
        · have hstage : request.stage node ≠ .running := by
            rw [ne_eq, stage_running_iff, hrunning]
            simp [heq]
          simp [Guard.holds, heq, hstage]
  | answered at_ update =>
      have hfinished : request.phase = .finished := h
      have hstage : request.stage node ≠ .running := by
        rw [ne_eq, stage_running_iff, hfinished]
        simp
      simp [hfinished, hstage]
  | dropped =>
      have hfinished : request.phase = .finished := h
      have hstage : request.stage node ≠ .running := by
        rw [ne_eq, stage_running_iff, hfinished]
        simp
      simp [Guard.holds, hstage]

theorem countP_balance {α : Type} {l : List α} {p q r t : α → Bool}
    (h : ∀ x ∈ l, (if p x = true then 1 else 0) +
      (if q x = true then 1 else 0) = (if r x = true then 1 else 0) +
      if t x = true then 1 else 0) :
    l.countP p + l.countP q = l.countP r + l.countP t := by
  induction l with
  | nil => rfl
  | cons x l ih =>
      have hhead := h x List.mem_cons_self
      have htail := ih fun y hy => h y (List.mem_cons_of_mem x hy)
      simp only [List.countP_cons]
      omega

theorem Invariant.balance (h : state.Invariant) (node : Nat) :
    (state.nodes node).inFlight + state.starting node =
      (state.limits.limiter node).host.permitsOut + state.leaving node := by
  have hguards : state.guards.countP (Guard.holds node) =
      (state.limits.requests.zip state.guards).countP
        fun call => call.2.holds node := by
    conv_lhs => rw [← List.map_snd_zip (Nat.le_of_eq h.length)]
    rw [List.countP_map]
    rfl
  have hrequests : state.limits.running node =
      (state.limits.requests.zip state.guards).countP
        fun call => decide (call.1.stage node = .running) := by
    unfold System.running
    conv_lhs => rw [← List.map_fst_zip (Nat.le_of_eq h.length.symm)]
    rw [List.countP_map]
    rfl
  rw [h.counted, h.limits.host_permitsOut, hguards, hrequests]
  refine countP_balance ?_
  rintro ⟨request, guard⟩ hmem
  obtain ⟨index, hindex⟩ := List.getElem?_of_mem hmem
  rw [List.getElem?_zip_eq_some] at hindex
  exact Fits.counts (h.fits index request guard hindex.1 hindex.2) node

theorem limited_event {op : Node.Op ω} {guards : List Guard}
    {event : Event ω}
    (h : state.limited willWake op guards = some (event, state')) :
    ∃ event', event = .limits event' := by
  unfold limited at h
  split at h
  · cases h
    exact ⟨_, rfl⟩
  · cases h

theorem left_step
    (h : Step usizeMax willWake state (.left index node) state') :
    ∃ guard, state.guards[index]? = some guard ∧
      guard.holds node = true ∧ state' = state.leave index node := by
  obtain ⟨op, hnext⟩ := h
  cases op with
  | call | poll | cancel | complete =>
      simp only [next] at hnext
      repeat' split at hnext
      all_goals first
        | cases hnext
        | (obtain ⟨event', hevent⟩ := limited_event hnext; cases hevent)
  | enter | update =>
      simp only [next] at hnext
      repeat' split at hnext
      all_goals cases hnext
  | leave index' =>
      simp only [next] at hnext
      split at hnext
      · rename_i hguard
        cases hnext
        exact ⟨_, hguard, by simp [Guard.holds], rfl⟩
      · rename_i hguard
        split at hnext
        · cases hnext
          exact ⟨_, hguard, by simp [Guard.holds], rfl⟩
        · cases hnext
      · cases hnext

/-- In every run, with requests that are cancelled anywhere on their way, the
counter of a node is the number of the guards that are there, and it never
goes below zero; and it differs from the host permits that the limiter has
given out exactly by the requests that are between the two. -/
theorem in_flight_counts {events : List (Event ω)}
    (run : Run (Step usizeMax willWake) (new ω) events state) (node : Nat) :
    (state.nodes node).inFlight = state.guards.countP (Guard.holds node) ∧
    (state.nodes node).inFlight + state.starting node =
      (state.limits.limiter node).host.permitsOut + state.leaving node ∧
    ∀ {index state'}, Step usizeMax willWake state (.left index node) state' →
      (state'.nodes node).inFlight + 1 = (state.nodes node).inFlight := by
  have h := run_invariant run
  refine ⟨h.counted node, h.balance node, fun hstep => ?_⟩
  obtain ⟨guard, hguard, hholds, rfl⟩ := left_step hstep
  have hpos : 0 < state.guards.countP (Guard.holds node) :=
    List.countP_pos_iff.mpr ⟨guard, List.mem_of_getElem? hguard, hholds⟩
  rw [← h.counted] at hpos
  simp only [leave, setGuard_nodes, setNode_nodes, Function.update_self]
  omega

def idleScore : Score 100 := .ofFailures 0 0 (by decide)

def busyScore : Score 100 := .ofFailures 3 2 (by decide)

def overlapping : List (Op Unit 100) :=
  [.call ⟨.get, "/a"⟩ [⟨0, idleScore⟩] id, .poll 0 (fun _ => idleScore) (),
    .enter 0, .call ⟨.get, "/a"⟩ [⟨0, busyScore⟩] id,
    .poll 1 (fun _ => idleScore) (), .cancel 0]

theorem overlapping_counts :
    ∃ events state state',
      Run (Step 100 fun _ _ => true) (new Unit) events state ∧
      Step 100 (fun _ _ => true) state (.left 0 0) state' ∧
      state.starting 0 = 1 ∧ state.leaving 0 = 1 ∧
      (state.nodes 0).inFlight = 1 ∧ (state'.nodes 0).inFlight = 0 ∧
      (state.limits.limiter 0).host.permitsOut = 1 := by
  have h : ∃ events state state',
      exec (next fun _ _ => true) (new Unit) overlapping =
        some (events, state) ∧
      state.next (fun _ _ => true) (.leave 0 : Op Unit 100) =
        some (.left 0 0, state') ∧
      state.starting 0 = 1 ∧ state.leaving 0 = 1 ∧
      state.guards.countP (Guard.holds 0) = 1 :=
    ⟨_, _, _, rfl, rfl, rfl, rfl, rfl⟩
  obtain ⟨events, state, state', hexec, hnext, hstarting, hleaving,
    hcount⟩ := h
  have run : Run (Step 100 fun _ _ => true) (new Unit) events state :=
    exec_run (fun h => ⟨_, h⟩) hexec
  have hstep : Step 100 (fun _ _ => true) state (.left 0 0) state' :=
    ⟨_, hnext⟩
  obtain ⟨hcounts, hbalance, hleft⟩ := in_flight_counts run 0
  have hleave := hleft hstep
  exact ⟨events, state, state', run, hstep, hstarting, hleaving, by omega,
    by omega, by omega⟩

/-! ## The node of least score -/

theorem pollNodes_least {limits limits' : System ω} {order : List Nat}
    {key : Nat → Nat} (hsorted : order.Pairwise fun a b => key a ≤ key b)
    {request request' : Request} {waker : ω} {granted : List Grant}
    (hpending : request.phase = .pending)
    (hpoll : System.pollNodes willWake index waker order request limits =
      .ok ((granted, request'), limits')) :
    (∃ at_ permit, at_ ∈ order ∧ request'.phase = .running at_ permit ∧
      ∀ node ∈ order, (limits.limiter node).WouldStart willWake
        request.endpoint index (request.acquisition node) →
        key at_ ≤ key node) ∨
    (request'.phase = .pending ∧ ∀ node ∈ order,
      ¬ (limits.limiter node).WouldStart willWake request.endpoint index
        (request.acquisition node)) := by
  induction order generalizing request limits granted with
  | nil =>
      cases hpoll
      exact .inr ⟨hpending, by simp⟩
  | cons first order ih =>
      obtain ⟨⟨polled, limiter⟩, hfirst, hpoll⟩ := bind_eq_ok hpoll
      obtain ⟨hleast, hsorted⟩ := List.pairwise_cons.mp hsorted
      cases hresult : polled.result with
      | inr permit =>
          simp only [hresult] at hpoll
          cases hpoll
          refine .inl ⟨first, permit, List.mem_cons_self, rfl, ?_⟩
          intro node hnode _
          rcases List.mem_cons.mp hnode with rfl | hnode
          · exact Nat.le_refl _
          · exact hleast node hnode
      | inl acquisition =>
          simp only [hresult] at hpoll
          have hnot : ¬ (limits.limiter first).WouldStart willWake
              request.endpoint index (request.acquisition first) := by
            intro hstart
            have hstage := (hstart waker).result hfirst
            cases acquisition <;>
              simp [Limiter.Polled.stage, hresult, Acquisition.stage]
                at hstage
          obtain ⟨⟨⟨later, request''⟩, last⟩, hrest, hpoll⟩ := bind_eq_ok hpoll
          cases hpoll
          have hpending' : (request.setAcquisition first
              acquisition).phase = .pending := hpending
          -- the polls of the first node leave the others as they were
          have hsame : ∀ node, node ≠ first →
              (((limits.setLimiter first limiter polled.wakes).limiter
                node).WouldStart willWake request.endpoint index
                  ((request.setAcquisition first acquisition).acquisition
                    node) ↔
              (limits.limiter node).WouldStart willWake request.endpoint
                index (request.acquisition node)) := by
            intro node hne
            rw [Request.setAcquisition_of_ne request acquisition hne]
            simp [System.setLimiter, hne]
          rcases ih hsorted hpending' hrest with
            ⟨at_, permit, hmem, hrunning, hat⟩ | ⟨hwaits, hnone⟩
          · refine .inl ⟨at_, permit, List.mem_cons_of_mem first hmem,
              hrunning, ?_⟩
            intro node hnode hstart
            by_cases heq : node = first
            · exact absurd (heq ▸ hstart) hnot
            · exact hat node
                ((List.mem_cons.mp hnode).resolve_left heq)
                ((hsame node heq).mpr hstart)
          · refine .inr ⟨hwaits, ?_⟩
            intro node hnode hstart
            by_cases heq : node = first
            · exact hnot (heq ▸ hstart)
            · exact hnone node
                ((List.mem_cons.mp hnode).resolve_left heq)
                ((hsame node heq).mpr hstart)

/-- In every run, a request that polls goes to a node of the least score
among those of its candidates that have room, whatever the scores are when it
polls, and it waits only if none has room. -/
theorem starts_at_least_score {events : List (Event ω)}
    (run : Run (Step usizeMax willWake) (new ω) events state)
    {request : Request}
    (hrequest : state.limits.requests[index]? = some request)
    (hpending : request.phase = .pending) (scores : Nat → Score usizeMax)
    (waker : ω) :
    ∃ event state' request',
      state.next willWake (.poll index scores waker) = some (event, state') ∧
      state'.limits.requests[index]? = some request' ∧
      ((∃ at_ permit, at_ ∈ request.candidates.nodes ∧
          request'.phase = .running at_ permit ∧
          ∀ node ∈ request.candidates.nodes,
            (state.limits.limiter node).Room request.endpoint index
              (request.acquisition node) →
            (scores at_).score ≤ (scores node).score) ∨
        (request'.phase = .pending ∧ ∀ node ∈ request.candidates.nodes,
          ¬ (state.limits.limiter node).Room request.endpoint index
            (request.acquisition node))) := by
  have h := (run_invariant run).limits
  have horder : (pollOrder scores request.candidates.nodes).Perm
      request.candidates.nodes := pollOrder_perm
  have hpolls : Returns (System.poll willWake index
      (pollOrder scores request.candidates.nodes) waker request
        state.limits) _ :=
    System.poll_returns h hrequest hpending horder
  obtain ⟨⟨granted, limits⟩, hpoll, -⟩ := hpolls
  obtain ⟨granted', polled, mid, request', hnodes, hphase, hrequests⟩ :=
    System.poll_requests hpoll
  have hnext : state.limits.tryNext willWake (.poll index
      (pollOrder scores request.candidates.nodes) waker) =
        some (⟨.poll index (pollOrder scores request.candidates.nodes) waker,
          granted⟩, limits) := by
    simp only [System.tryNext, System.next, hrequest, hpending, horder, hpoll,
      Option.bind_eq_bind, Option.bind_some, and_self, if_true]
  have hindex := (List.getElem?_eq_some_iff.mp hrequest).1
  have hroom : ∀ node, (state.limits.limiter node).Room request.endpoint
        index (request.acquisition node) →
      (state.limits.limiter node).WouldStart willWake request.endpoint index
        (request.acquisition node) :=
    fun node room => room.wouldStart (h.admits node)
  refine ⟨_, { state with limits := limits }, request', by
    simp only [next, hrequest, State.limited, hnext]
    rfl, ?_, ?_⟩
  · simp [hrequests, hindex]
  · rcases pollNodes_least pollOrder_sorted hpending hnodes with
      ⟨at_, permit, hmem, hrunning, hleast⟩ | ⟨hwaits, hnone⟩
    · refine .inl ⟨at_, permit, horder.mem_iff.mp hmem,
        hphase.trans hrunning, ?_⟩
      intro node hnode room
      exact hleast node (horder.mem_iff.mpr hnode) (hroom node room)
    · refine .inr ⟨hphase.trans hwaits, ?_⟩
      intro node hnode room
      exact hnone node (horder.mem_iff.mpr hnode) (hroom node room)

def busyFirst (node : Nat) : Score 100 :=
  if node = 0 then busyScore else idleScore

theorem busyFirst_starts_at_second :
    ∃ events state event state' request' permit,
      Run (Step 100 fun _ _ => true) (new Unit) events state ∧
      state.next (fun _ _ => true) (.poll 0 busyFirst () : Op Unit 100) =
        some (event, state') ∧
      state'.limits.requests[0]? = some request' ∧
      request'.phase = .running 1 permit := by
  have h : ∃ events state request,
      exec (next fun _ _ => true) (new Unit) [(.call ⟨.get, "/a"⟩
        [⟨0, busyScore⟩, ⟨1, idleScore⟩] id : Op Unit 100)] =
          some (events, state) ∧
      state.limits.requests[0]? = some request ∧
      request.phase = .pending ∧ request.candidates.nodes = [1, 0] ∧
      (state.limits.limiter 1).Room request.endpoint 0
        (request.acquisition 1) := by
    have hlimit : 0 < ⌊(initialLimit : ℚ)⌋₊ := by
      rw [Nat.floor_natCast]
      decide
    refine ⟨_, _, _, rfl, rfl, rfl, rfl, .inr ⟨?_, hlimit⟩, ?_, hlimit⟩
    · intro waiter hhead
      cases hhead
    · intro waiter hhead
      cases hhead
  obtain ⟨events, state, request, hexec, hrequest, hpending, hnodes,
    hroom⟩ := h
  have run : Run (Step 100 fun _ _ => true) (new Unit) events state :=
    exec_run (fun h => ⟨_, h⟩) hexec
  obtain ⟨event, state', request', hnext, hrequest',
      ⟨at_, permit, hmem, hrunning, hleast⟩ | ⟨-, hnone⟩⟩ :=
    starts_at_least_score run hrequest hpending busyFirst ()
  · have hle := hleast 1 (by simp [hnodes]) hroom
    rw [hnodes] at hmem
    have hat : at_ = 1 := by
      rcases List.mem_cons.mp hmem with rfl | hmem
      · rfl
      · rw [List.mem_singleton.mp hmem] at hle
        exact absurd hle (by decide)
    exact ⟨events, state, event, state', request', permit, run, hnext,
      hrequest', hat ▸ hrunning⟩
  · exact absurd hroom (hnone 1 (by simp [hnodes]))

end State

end ConjureRuntime.Node.Balanced
