import ConjureRuntime.Limiter.CiadSequential
import ConjureRuntime.Node.Admission

/-!
# What the nodes do is made of steps

A node takes the poll of an acquisition for one step, and the drop of a permit
with its update of the limit for another.  Each of them is a run of the steps
of a limiter that no other thread interrupts, and so what a run of the nodes
does to one limiter is a run of the steps of that limiter.
-/

namespace ConjureRuntime.Node

open ConjureRuntime.Limiter ConjureRuntime.Foundation
open ConjureRuntime.Limiter.Ciad.System (Goes)

inductive Part where
  | host
  | endpoint (endpoint : Endpoint)
  deriving DecidableEq

/-- Where the call of a request for the endpoint stands. -/
def Part.call (endpoint : Endpoint) :
    Part → Acquisition ⊕ Permit → Ciad.Call
  | .host, .inl _ => .acquiring
  | .host, .inr permit => .holding permit.host .ignore
  | .endpoint other, acquired =>
      if other = endpoint then
        match acquired with
        | .inl (.host endpointSnapshot) => .holding endpointSnapshot .ignore
        | .inl _ => .acquiring
        | .inr permit => .holding permit.endpoint .ignore
      else .acquiring

def Request.acquired (request : Request) (node : Nat) :
    Acquisition ⊕ Permit :=
  match request.phase with
  | .running at_ permit =>
      if at_ = node then .inr permit else .inl (request.acquisition node)
  | _ => .inl (request.acquisition node)

variable {ω : Type} {willWake : ω → ω → Bool} {endpoint : Endpoint}
  {self : Nat} {ciads : Ciad.System ω}

/-! ## One node -/

namespace Limiter

variable {limiter limiter' : Limiter ω}

def ciad (limiter : Limiter ω) : Part → Ciad ω
  | .host => limiter.host
  | .endpoint endpoint => limiter.entry endpoint

theorem setEndpoint_goes (limiter : Limiter ω) (part : Part)
    (state : Ciad.Call) {ciad : Ciad ω} {start final : Ciad.Call}
    (h : Goes willWake ciads self (limiter.entry endpoint) start ciad final)
    (hstate : part = .endpoint endpoint → state = start) :
    Goes willWake ciads self (limiter.ciad part) state
      ((limiter.setEndpoint endpoint ciad).ciad part)
      (if part = .endpoint endpoint then final else state) := by
  cases part with
  | host => exact .refl
  | endpoint other =>
      by_cases hother : other = endpoint
      · subst hother
        rw [hstate rfl, if_pos rfl]
        simpa only [Limiter.ciad, entry_setEndpoint_self] using h
      · rw [if_neg (by simpa using hother)]
        simp only [Limiter.ciad, entry_setEndpoint_of_ne ciad hother]
        exact .refl

theorem host_goes (limiter : Limiter ω) (part : Part)
    (state : Ciad.Call) {host : Ciad ω} {start final : Ciad.Call}
    (h : Goes willWake ciads self limiter.host start host final)
    (hstate : part = .host → state = start) :
    Goes willWake ciads self (limiter.ciad part) state
      (Limiter.ciad { limiter with host } part)
      (if part = .host then final else state) := by
  cases part with
  | host =>
      rw [hstate rfl, if_pos rfl]
      exact h
  | endpoint other => exact .refl

theorem call_waiting (part : Part) {acquisition : Acquisition}
    (h : acquisition = .idle ∨ acquisition = .endpoint) :
    part.call endpoint (.inl acquisition) = .acquiring := by
  rcases h with rfl | rfl <;> cases part <;> simp [Part.call]

section

variable (hself : self < ciads.calls.length) (part : Part)
include hself

theorem pollHost_goes (endpoint : Endpoint) {waker : ω}
    {endpointSnapshot : Nat} {polled : Polled ω}
    (h : pollHost willWake self waker endpointSnapshot limiter =
      .ok (polled, limiter')) :
    Goes willWake ciads self (limiter.ciad part)
      (part.call endpoint (.inl (.host endpointSnapshot)))
      (limiter'.ciad part) (part.call endpoint polled.result) := by
  obtain ⟨⟨⟨permit, woken⟩, host⟩, hacquire, hrest⟩ := bind_eq_ok h
  have hgoes : Goes willWake ciads self _ _ _ _ := host_goes limiter part
    (part.call endpoint (.inl (.host endpointSnapshot)))
    (Ciad.System.pollAcquire_goes hself hacquire) fun h => by rw [h]; rfl
  cases permit <;> cases hrest <;> cases part <;> exact hgoes

theorem pollEndpoint_goes {waker : ω} {polled : Polled ω}
    (h : pollEndpoint willWake endpoint self waker limiter =
      .ok (polled, limiter')) :
    Goes willWake ciads self (limiter.ciad part) .acquiring
      (limiter'.ciad part) (part.call endpoint polled.result) := by
  obtain ⟨⟨⟨permit, woken⟩, ciad⟩, hacquire, hrest⟩ := bind_eq_ok h
  have hgoes : Goes willWake ciads self _ _ _ _ := setEndpoint_goes limiter
    part .acquiring (Ciad.System.pollAcquire_goes hself hacquire) fun _ => rfl
  have hstate : ∀ endpointSnapshot, permit = some endpointSnapshot →
      (if part = .endpoint endpoint then Ciad.System.acquired permit
        else .acquiring) =
        part.call endpoint (.inl (.host endpointSnapshot)) := by
    rintro endpointSnapshot rfl
    cases part <;> simp [Part.call]
  cases permit with
  | none =>
      cases hrest
      simpa [call_waiting] using hgoes
  | some endpointSnapshot =>
      obtain ⟨⟨polled', last⟩, hpoll, hlast⟩ := bind_eq_ok hrest
      cases hlast
      rw [hstate endpointSnapshot rfl] at hgoes
      have hhost := pollHost_goes hself part endpoint hpoll
      exact hgoes.trans hhost

theorem poll_goes {waker : ω} {acquisition : Acquisition}
    {polled : Polled ω}
    (h : limiter.poll willWake endpoint self waker acquisition =
      .ok (polled, limiter')) :
    Goes willWake ciads self (limiter.ciad part)
      (part.call endpoint (.inl acquisition)) (limiter'.ciad part)
      (part.call endpoint polled.result) := by
  cases acquisition with
  | host endpointSnapshot => exact pollHost_goes hself part endpoint h
  | idle | endpoint =>
      rw [call_waiting part (by simp)]
      exact pollEndpoint_goes hself part h

theorem dropAcquire_goes {acquisition : Acquisition}
    {wakes : List (Woken Nat ω)}
    (h : limiter.dropAcquire endpoint self acquisition =
      .ok (wakes, limiter')) :
    ∃ state, Goes willWake ciads self (limiter.ciad part)
      (part.call endpoint (.inl acquisition)) (limiter'.ciad part)
      state := by
  cases acquisition with
  | idle =>
      cases h
      exact ⟨_, .refl⟩
  | endpoint =>
      obtain ⟨⟨woken, ciad⟩, hdrop, hrest⟩ := bind_eq_ok h
      cases hrest
      exact ⟨_, setEndpoint_goes limiter part _
        (Ciad.System.cancel_goes hself hdrop)
        fun h => by rw [h]; simp [Part.call]⟩
  | host endpointSnapshot =>
      obtain ⟨⟨woken, host⟩, hdrop, hrest⟩ := bind_eq_ok h
      obtain ⟨⟨wakes, ciad⟩, hpermit, hlast⟩ := bind_eq_ok hrest
      cases hlast
      have hhost : Goes willWake ciads self _ _ _ _ := host_goes limiter part
        (part.call endpoint (.inl (.host endpointSnapshot)))
        (Ciad.System.cancel_goes hself hdrop) fun h => by rw [h]; rfl
      refine ⟨_, hhost.trans (setEndpoint_goes { limiter with host } part _
        (Ciad.System.dropPermit_goes hself hpermit) fun h => ?_)⟩
      rw [h]
      simp [Part.call]

theorem dropPermit_goes {permit : Permit} {endpointMode hostMode : Mode}
    {wakes : List (Woken Nat ω)}
    (h : limiter.dropPermit endpoint permit endpointMode hostMode =
      .ok (wakes, limiter')) :
    ∃ state, Goes willWake ciads self (limiter.ciad part)
      (part.call endpoint (.inr permit)) (limiter'.ciad part) state := by
  obtain ⟨⟨wakes, ciad⟩, hendpoint, hrest⟩ := bind_eq_ok h
  obtain ⟨⟨wakes', host⟩, hhost, hlast⟩ := bind_eq_ok hrest
  cases hlast
  have hfirst : Goes willWake ciads self _ _ _ _ := setEndpoint_goes limiter
    part (part.call endpoint (.inr permit))
    (Ciad.System.dropPermit_goes hself hendpoint)
    fun h => by rw [h]; simp [Part.call]
  refine ⟨_, hfirst.trans (host_goes (limiter.setEndpoint endpoint ciad)
    part _ (Ciad.System.dropPermit_goes hself hhost) fun h => ?_)⟩
  rw [h]
  simp [Part.call]

end

end Limiter

/-! ## All nodes -/

namespace System

variable {system system' : System ω} {request request' : Request}
  {nodes : List Nat}

theorem setLimiter_ciad (node : Nat) (part : Part) {at_ : Nat}
    {limiter : Limiter ω} (wakes : List (Woken Nat ω)) :
    ((system.setLimiter at_ limiter wakes).limiter node).ciad part =
      if node = at_ then limiter.ciad part
      else (system.limiter node).ciad part := by
  by_cases h : node = at_
  · subst h
    simp
  · simp [h]

theorem setLimiter_goes {node : Nat} {part : Part} {at_ : Nat}
    {limiter : Limiter ω} {start final : Ciad.Call}
    (wakes : List (Woken Nat ω))
    (h : node = at_ → Goes willWake ciads self
      ((system.limiter at_).ciad part) start (limiter.ciad part) final)
    (hother : node ≠ at_ → final = start) :
    Goes willWake ciads self ((system.limiter node).ciad part) start
      (((system.setLimiter at_ limiter wakes).limiter node).ciad part)
      final := by
  rw [setLimiter_ciad]
  by_cases hnode : node = at_
  · subst hnode
    rw [if_pos rfl]
    exact h rfl
  · rw [if_neg hnode, hother hnode]
    exact .refl

theorem acquired_of_pending (h : request.phase = .pending) (node : Nat) :
    request.acquired node = .inl (request.acquisition node) := by
  simp [Request.acquired, h]

theorem dropNodes_idle {node : Nat} (part : Part)
    (hidle : request.acquisition node = .idle)
    (h : dropNodes self nodes request system = .ok (request', system')) :
    (system'.limiter node).ciad part = (system.limiter node).ciad part := by
  induction nodes generalizing request system with
  | nil =>
      cases h
      rfl
  | cons at_ nodes ih =>
      obtain ⟨⟨wakes, limiter⟩, hdrop, hrest⟩ := bind_eq_ok h
      have hidle' : (request.setAcquisition at_ .idle).acquisition node =
          .idle := by
        by_cases hne : node = at_
        · subst hne
          exact Request.setAcquisition_self ..
        · rwa [Request.setAcquisition_of_ne request .idle hne]
      rw [ih hidle' hrest, setLimiter_ciad]
      split
      next hnode =>
        subst hnode
        rw [hidle] at hdrop
        cases hdrop
        rfl
      next => rfl

section

variable (hself : self < ciads.calls.length) (node : Nat) (part : Part)
include hself

theorem pollNodes_goes {waker : ω} {granted : List Grant}
    (hpending : request.phase = .pending)
    (h : pollNodes willWake self waker nodes request system =
      .ok ((granted, request'), system')) :
    Goes willWake ciads self ((system.limiter node).ciad part)
        (part.call request.endpoint (request.acquired node))
        ((system'.limiter node).ciad part)
        (part.call request.endpoint (request'.acquired node)) ∧
      request'.endpoint = request.endpoint ∧
      system'.requests = system.requests ∧
      (request'.phase = .pending ∨ ∃ at_ permit,
        request'.phase = .running at_ permit ∧
          request'.acquisition at_ = .idle) := by
  induction nodes generalizing request system granted with
  | nil =>
      cases h
      exact ⟨.refl, rfl, rfl, .inl hpending⟩
  | cons at_ nodes ih =>
      obtain ⟨⟨polled, limiter⟩, hpoll, hrest⟩ := bind_eq_ok h
      have hgoes : Goes willWake ciads self _ _ _ _ :=
        Limiter.poll_goes hself part hpoll
      have hbefore := acquired_of_pending hpending
      cases hresult : polled.result with
      | inl acquisition =>
          simp only [hresult] at hrest hgoes
          obtain ⟨⟨⟨later, request''⟩, last⟩, hnodes, hlast⟩ :=
            bind_eq_ok hrest
          cases hlast
          have hpending' :
              (request.setAcquisition at_ acquisition).phase = .pending :=
            hpending
          obtain ⟨hlater, hendpoint, hrequests, hphase⟩ :=
            ih hpending' hnodes
          refine ⟨Goes.trans (setLimiter_goes polled.wakes ?_ ?_) hlater,
            hendpoint, hrequests, hphase⟩
          · rintro rfl
            rw [hbefore, acquired_of_pending hpending',
              Request.setAcquisition_self]
            exact hgoes
          · intro hne
            rw [hbefore, acquired_of_pending hpending',
              Request.setAcquisition_of_ne request acquisition hne]
            rfl
      | inr permit =>
          simp only [hresult] at hrest hgoes
          cases hrest
          refine ⟨setLimiter_goes polled.wakes ?_ ?_, rfl, rfl,
            .inr ⟨at_, permit, rfl, Request.setAcquisition_self ..⟩⟩
          · rintro rfl
            rw [hbefore]
            simpa [Request.acquired] using hgoes
          · intro hne
            rw [hbefore]
            simp [Request.acquired, Ne.symm hne,
              Request.setAcquisition_of_ne request .idle hne]

theorem dropNodes_goes
    (h : dropNodes self nodes request system = .ok (request', system')) :
    ∃ state, Goes willWake ciads self ((system.limiter node).ciad part)
      (part.call request.endpoint (.inl (request.acquisition node)))
      ((system'.limiter node).ciad part) state := by
  induction nodes generalizing request system with
  | nil =>
      cases h
      exact ⟨_, .refl⟩
  | cons at_ nodes ih =>
      obtain ⟨⟨wakes, limiter⟩, hdrop, hrest⟩ := bind_eq_ok h
      by_cases hnode : node = at_
      · subst hnode
        have hidle : (request.setAcquisition node .idle).acquisition node =
            .idle := Request.setAcquisition_self ..
        rw [dropNodes_idle part hidle hrest, setLimiter_ciad,
          if_pos rfl]
        exact Limiter.dropAcquire_goes hself part hdrop
      · obtain ⟨state, hgoes⟩ := ih hrest
        rw [setLimiter_ciad, if_neg hnode, Request.setAcquisition_endpoint,
          Request.setAcquisition_of_ne request .idle hnode] at hgoes
        exact ⟨state, hgoes⟩

end

theorem dropNodes_endpoint
    (h : dropNodes self nodes request system = .ok (request', system')) :
    request'.endpoint = request.endpoint := by
  induction nodes generalizing request system with
  | nil =>
      cases h
      rfl
  | cons at_ nodes ih =>
      obtain ⟨⟨wakes, limiter⟩, -, hrest⟩ := bind_eq_ok h
      have hafter : request'.endpoint =
          (request.setAcquisition at_ .idle).endpoint := ih hrest
      exact hafter

/-! ## Runs -/

/-- The limiter of the system is that of the node, and its calls stand where
the requests do that wait for the node or run there. -/
structure Simulates (node : Nat) (part : Part) (system : System ω)
    (ciads : Ciad.System ω) : Prop where
  limiter : ciads.limiter = (system.limiter node).ciad part
  length : ciads.calls.length = system.requests.length
  call : ∀ {index : Nat} {request : Request},
    system.requests[index]? = some request →
    (request.phase = .pending ∨
      ∃ permit, request.phase = .running node permit) →
    ciads.calls[index]? =
      some (part.call request.endpoint (request.acquired node))

variable {node : Nat} {part : Part} {index : Nat}

theorem Simulates.new :
    Simulates node part (System.new ω) (Ciad.System.new ω) where
  limiter := by cases part <;> rfl
  length := rfl
  call := by simp [System.new]

theorem Simulates.goes (h : Simulates node part system ciads)
    (request' : Request) {state : Ciad.Call}
    (hrequest : system.requests[index]? = some request)
    (hactive : request.phase = .pending ∨
      ∃ permit, request.phase = .running node permit)
    (hrequests : system'.requests = system.requests.set index request')
    (hgoes : Goes willWake ciads index ((system.limiter node).ciad part)
      (part.call request.endpoint (request.acquired node))
      ((system'.limiter node).ciad part) state)
    (hstate : (request'.phase = .pending ∨
        ∃ permit, request'.phase = .running node permit) →
      state = part.call request'.endpoint (request'.acquired node)) :
    ∃ events ciads', Run (Ciad.System.Step willWake) ciads events ciads' ∧
      Simulates node part system' ciads' := by
  have hcall := h.call hrequest hactive
  rw [← h.limiter] at hgoes
  obtain ⟨events, run⟩ := hgoes.run hcall
  refine ⟨events, _, run, rfl, ?_, ?_⟩
  · rw [hrequests, List.length_set, ← h.length]
    exact List.length_set
  · intro other request'' hother hactive'
    rw [hrequests] at hother
    rcases getElem?_set_cases hother with ⟨rfl, rfl⟩ | ⟨hne, hother⟩
    · rw [← hstate hactive']
      exact List.getElem?_set_self (List.getElem?_eq_some_iff.mp hcall).1
    · rw [← h.call hother hactive']
      exact List.getElem?_set_ne (Ne.symm hne)

theorem Simulates.elsewhere (h : Simulates node part system ciads)
    {request' : Request}
    (hrequests : system'.requests = system.requests.set index request')
    (hlimiter : (system'.limiter node).ciad part =
      (system.limiter node).ciad part)
    (hfinished : request'.phase = .finished) :
    Simulates node part system' ciads := by
  refine ⟨h.limiter.trans hlimiter.symm, ?_, ?_⟩
  · rw [hrequests, List.length_set, h.length]
  · intro other request'' hother hactive
    rw [hrequests] at hother
    rcases getElem?_set_cases hother with ⟨rfl, rfl⟩ | ⟨hne, hother⟩
    · simp [hfinished] at hactive
    · exact h.call hother hactive

theorem Simulates.lt (h : Simulates node part system ciads)
    (hrequest : system.requests[index]? = some request) :
    index < ciads.calls.length := by
  rw [h.length]
  exact (List.getElem?_eq_some_iff.mp hrequest).1

theorem Simulates.arrives (h : Simulates node part system ciads)
    (endpoint : Endpoint) (candidates : Candidates) :
    ∃ events ciads', Run (Ciad.System.Step willWake) ciads events ciads' ∧
      Simulates node part
        { system with
          requests := system.requests ++
            [⟨endpoint, candidates, false, fun _ => .idle, .pending⟩] }
        ciads' := by
  have hnew : ciads.next willWake .acquire =
      some (⟨.acquire, none, none⟩,
        { ciads with calls := ciads.calls ++ [.acquiring] }) := rfl
  refine ⟨_, _, Run.refl.step (Ciad.System.next_step hnew), h.limiter,
    by simp [h.length], ?_⟩
  intro other request hother hactive
  dsimp only at hother
  rcases getElem?_append_singleton_cases hother with
    hother | ⟨rfl, rfl⟩
  · have hcall := h.call hother hactive
    rw [← hcall]
    exact List.getElem?_append_left (List.getElem?_eq_some_iff.mp hcall).1
  · rw [← h.length]
    cases part <;> simp [Part.call, Request.acquired]

theorem Simulates.poll (h : Simulates node part system ciads)
    (hrequest : system.requests[index]? = some request)
    (hpending : request.phase = .pending) {order : List Nat} {waker : ω}
    {granted : List Grant}
    (hpoll : System.poll willWake index order waker request system =
      .ok (granted, system')) :
    ∃ events ciads', Run (Ciad.System.Step willWake) ciads events ciads' ∧
      Simulates node part system' ciads' := by
  have hindex := h.lt hrequest
  obtain ⟨⟨⟨granted', polled⟩, mid⟩, hnodes, hrest⟩ := bind_eq_ok hpoll
  obtain ⟨hgoes, hendpoint, hrequests, hphase | ⟨at_, permit, hphase, hidle⟩⟩ :=
    pollNodes_goes hindex node part hpending hnodes
  · simp only [hphase] at hrest
    cases hrest
    have hset : (mid.stayPending index polled).requests =
        system.requests.set index { polled with polled := true } := by
      rw [← hrequests]
      rfl
    refine h.goes _ hrequest (.inl hpending) hset hgoes fun _ => ?_
    rw [← hendpoint]
    rfl
  · simp only [hphase] at hrest
    obtain ⟨⟨dropped, last⟩, hdrop, hlast⟩ := bind_eq_ok hrest
    cases hlast
    obtain ⟨hphase', hrequests'⟩ := dropNodes_phase hdrop
    have hset : (last.setRequest index dropped).requests =
        system.requests.set index dropped := by
      rw [← hrequests, ← hrequests']
      rfl
    by_cases hnode : at_ = node
    · subst hnode
      have hsame := dropNodes_idle part hidle hdrop
      rw [← hsame] at hgoes
      refine h.goes dropped hrequest (.inl hpending) hset hgoes fun _ => ?_
      rw [dropNodes_endpoint hdrop, hendpoint]
      simp [Request.acquired, hphase', hphase]
    · have hwaits : polled.acquired node =
          .inl (polled.acquisition node) := by
        simp [Request.acquired, hphase, hnode]
      obtain ⟨state, hdrops⟩ : ∃ state,
          Goes willWake ciads index _ _ _ state :=
        dropNodes_goes hindex node part hdrop
      rw [hwaits] at hgoes
      rw [hendpoint] at hdrops
      refine h.goes dropped hrequest (.inl hpending) hset
        (hgoes.trans hdrops) ?_
      rintro (hactive | ⟨other, hactive⟩)
      · rw [hphase', hphase] at hactive
        cases hactive
      · rw [hphase', hphase] at hactive
        cases hactive
        exact absurd rfl hnode

theorem Simulates.cancel (h : Simulates node part system ciads)
    (hrequest : system.requests[index]? = some request)
    (hpending : request.phase = .pending)
    (hcancel : System.cancel index request system = .ok system') :
    ∃ events ciads', Run (Ciad.System.Step willWake) ciads events ciads' ∧
      Simulates node part system' ciads' := by
  obtain ⟨⟨dropped, last⟩, hdrop, hlast⟩ := bind_eq_ok hcancel
  cases hlast
  obtain ⟨state, hdrops⟩ : ∃ state, Goes willWake ciads index _ _ _ state :=
    dropNodes_goes (h.lt hrequest) node part hdrop
  rw [← acquired_of_pending hpending] at hdrops
  refine h.goes { dropped with phase := .finished } hrequest
    (.inl hpending) ?_ hdrops (by simp)
  rw [← (dropNodes_phase hdrop).2]
  rfl

theorem Simulates.finish (h : Simulates node part system ciads)
    (hrequest : system.requests[index]? = some request) {at_ : Nat}
    {permit : Permit} (hrunning : request.phase = .running at_ permit)
    {endpointMode hostMode : Mode}
    (hfinish : System.finish index request at_ permit endpointMode hostMode
      system = .ok system') :
    ∃ events ciads', Run (Ciad.System.Step willWake) ciads events ciads' ∧
      Simulates node part system' ciads' := by
  obtain ⟨⟨wakes, limiter⟩, hdrop, hlast⟩ := bind_eq_ok hfinish
  cases hlast
  by_cases hnode : node = at_
  · subst hnode
    obtain ⟨state, hdrops⟩ : ∃ state,
        Goes willWake ciads index _ _ _ state :=
      Limiter.dropPermit_goes (h.lt hrequest) part hdrop
    have hhas : request.acquired node = .inr permit := by
      simp [Request.acquired, hrunning]
    rw [← hhas] at hdrops
    have hgoes : Goes willWake ciads index _ _
        (((system.setLimiter node limiter wakes).limiter node).ciad part)
        state :=
      setLimiter_goes wakes (fun _ => hdrops) fun hne => absurd rfl hne
    exact h.goes { request with phase := .finished } hrequest
      (.inr ⟨permit, hrunning⟩) rfl hgoes (by simp)
  · refine ⟨[], ciads, .refl, h.elsewhere rfl ?_ rfl⟩
    exact (setLimiter_ciad node part wakes).trans (if_neg hnode)

/-- Every step of the nodes is, at one limiter, a run of its own steps. -/
theorem Simulates.step (h : Simulates node part system ciads)
    {event : Event ω} (hstep : Step willWake system event system') :
    ∃ events ciads', Run (Ciad.System.Step willWake) ciads events ciads' ∧
      Simulates node part system' ciads' := by
  obtain ⟨op, granted⟩ := event
  unfold Step at hstep
  cases op with
  | call endpoint candidates =>
      cases hstep
      exact h.arrives endpoint candidates
  | poll index order waker =>
      obtain ⟨request, hrequest, hpoll⟩ := Option.bind_eq_some_iff.mp hstep
      split at hpoll
      next hpending => exact h.poll hrequest hpending.1 (Option.some.inj hpoll)
      next => cases hpoll
  | cancel index =>
      obtain ⟨request, hrequest, hcancel⟩ :=
        Option.bind_eq_some_iff.mp hstep
      split at hcancel
      next hpending =>
        exact h.cancel hrequest hpending
          (map_eq_ok (Option.some.inj hcancel))
      next hrunning =>
        exact h.finish hrequest hrunning
          (map_eq_ok (Option.some.inj hcancel))
      next => cases hcancel
  | complete index result =>
      obtain ⟨request, hrequest, hcomplete⟩ :=
        Option.bind_eq_some_iff.mp hstep
      split at hcomplete
      next hrunning =>
        exact h.finish hrequest hrunning
          (map_eq_ok (Option.some.inj hcomplete))
      next => cases hcomplete

/-- What a run of the nodes does to a limiter of theirs, a run of that
limiter does. -/
theorem limiter_run (node : Nat) (part : Part) {events : List (Event ω)}
    (run : Run (Step willWake) (System.new ω) events system) :
    ∃ steps ciads, Run (Ciad.System.Step willWake) (Ciad.System.new ω) steps
        ciads ∧ Simulates node part system ciads := by
  induction run with
  | refl => exact ⟨[], _, .refl, .new⟩
  | step run hstep ih =>
      obtain ⟨steps, ciads, hsteps, hsimulates⟩ := ih
      obtain ⟨later, ciads', hlater, hsimulates'⟩ := hsimulates.step hstep
      exact ⟨steps ++ later, ciads', hsteps.trans hlater, hsimulates'⟩

end System

end ConjureRuntime.Node
