import ConjureRuntime.Node.Progress

/-!
# Requests start within the limits

The permits that are out at a limiter are the requests that hold them: the
host permits of a node are the requests running there, and the permits of an
endpoint are those together with its requests that wait for the host.  A
limit may fall below the number of permits that are out, but no permit is
handed out beyond it.  Requests that wait for a permit of their endpoint hold
nothing of the host, so a throttled endpoint does not lock out the others.

All this holds where every completion, the drop of the permits with the
update of the limits and the adjustment of the semaphores, is one step.
Between an exchange that lowers a limit and its adjustment a poll could still
start beyond it, and before the permits of a raised limit are added a request
with room would wait.
-/

namespace ConjureRuntime.Limiter.Ciad

open ConjureRuntime.Foundation

variable {ω : Type} {willWake : ω → ω → Bool} {limiter limiter' : Ciad ω}

def permitsOut (limiter : Ciad ω) : Nat :=
  limiter.semaphore.outstandingPermits

structure Guarded (limiter limiter' : Ciad ω) : Prop where
  limit : limiter'.limit = limiter.limit
  permits : limiter'.permitsOut ≤ limiter.permitsOut ∨
    limiter'.permitsOut ≤ ⌊limiter'.limit⌋₊

theorem Guarded.refl (limiter : Ciad ω) : Guarded limiter limiter :=
  ⟨rfl, .inl le_rfl⟩

theorem Guarded.trans {limiter'' : Ciad ω} (first : Guarded limiter limiter')
    (second : Guarded limiter' limiter'') : Guarded limiter limiter'' := by
  refine ⟨second.limit.trans first.limit, ?_⟩
  rcases second.permits with hle | hlimit
  · refine first.permits.imp hle.trans fun hfirst => ?_
    rw [second.limit]
    exact hle.trans hfirst
  · exact .inr hlimit

theorem Serves.permitsOut {queue : WaitQueue Nat ω}
    {waiting woken : Nat → Prop} {permits : Nat}
    (h : Serves limiter queue waiting permits woken) :
    limiter.permitsOut = permits :=
  h.represents.outstanding.trans h.outstanding

theorem locked_limit {β : Type} {action : Locked Nat ω β} {result : β}
    (h : locked action limiter = .ok (result, limiter')) :
    limiter'.limit = limiter.limit := by
  unfold locked at h
  split at h
  · cases h
    rfl
  · cases h

theorem pollAcquire_limit {self : Nat} {waker : ω}
    {result : Option Nat × Woken Nat ω}
    (h : limiter.pollAcquire willWake self waker = .ok (result, limiter')) :
    limiter'.limit = limiter.limit := by
  obtain ⟨⟨⟨polled, woken⟩, mid⟩, hlocked, h⟩ := bind_eq_ok h
  have hmid := locked_limit hlocked
  cases polled with
  | ready | pending =>
      cases h
      exact hmid

theorem dropPermit_ignore_limit {inFlightSnapshot : Nat}
    {wakes : List (Woken Nat ω)}
    (h : limiter.dropPermit inFlightSnapshot .ignore =
      .ok (wakes, limiter')) : limiter'.limit = limiter.limit := by
  simp only [dropPermit, Mode.update, pure_bind] at h
  obtain ⟨⟨released, last⟩, hlocked, h⟩ := bind_eq_ok h
  have hlimit := locked_limit hlocked
  cases h
  exact hlimit

theorem Admits.pollAcquire_guarded {waiting holding woken : Nat → Prop}
    (h : limiter.Admits waiting holding woken) {self : Nat} {waker : ω}
    {result : Option Nat × Woken Nat ω}
    (hpoll : limiter.pollAcquire willWake self waker =
      .ok (result, limiter')) : Guarded limiter limiter' := by
  obtain ⟨queue, holders, hserves, -⟩ := h
  have hlimit := pollAcquire_limit hpoll
  obtain ⟨hgrant, queue', ⟨hsome, hserves'⟩ | ⟨-, -, hserves'⟩⟩ :=
    (hserves.pollAcquire willWake self waker).result hpoll
  · refine ⟨hlimit, .inr ?_⟩
    have hbelow := (hgrant.mp hsome).2
    rw [hserves.total] at hbelow
    rw [hserves'.permitsOut, hlimit]
    exact hbelow
  · refine ⟨hlimit, .inl ?_⟩
    rw [hserves'.permitsOut, hserves.permitsOut]

theorem Admits.permitsOut {waiting holding woken : Nat → Prop}
    (h : limiter.Admits waiting holding woken) :
    ∃ holders : Finset Nat, limiter.permitsOut = holders.card ∧
      ∀ request, request ∈ holders ↔ holding request := by
  obtain ⟨queue, holders, hserves, hholders⟩ := h
  exact ⟨holders, hserves.permitsOut, hholders⟩

theorem Admits.permitsOut_le {waiting waiting' holding holding' woken
      woken' : Nat → Prop} (h : limiter.Admits waiting holding woken)
    (h' : limiter'.Admits waiting' holding' woken')
    (hholding : ∀ request, holding' request → holding request) :
    limiter'.permitsOut ≤ limiter.permitsOut := by
  obtain ⟨holders, hout, hholders⟩ := h.permitsOut
  obtain ⟨holders', hout', hholders'⟩ := h'.permitsOut
  rw [hout, hout']
  exact Finset.card_le_card fun request hmem =>
    (hholders request).mpr (hholding request ((hholders' request).mp hmem))

/-- Nobody else is first in the queue, and fewer permits are out than the
limit. -/
structure HasRoom (limiter : Ciad ω) (request : Nat) : Prop where
  queue : ∀ waiter, limiter.semaphore.head = some waiter → waiter = request
  permits : limiter.permitsOut < ⌊limiter.limit⌋₊

theorem head_enqueue_iff {queue : WaitQueue Nat ω} {self : Nat} :
    (queue.enqueue self).waiters.head? = some self ↔
      ∀ waiter, queue.waiters.head? = some waiter → waiter = self := by
  rw [WaitQueue.enqueue_waiters]
  cases hwaiters : queue.waiters with
  | nil => simp
  | cons first rest =>
      split <;> simp

theorem Admits.grants_iff {waiting holding woken : Nat → Prop}
    (h : limiter.Admits waiting holding woken) (self : Nat) (waker : ω) :
    Returns (limiter.pollAcquire willWake self waker)
      fun ((result, _), _) => result.isSome ↔ limiter.HasRoom self := by
  obtain ⟨queue, holders, hserves, -⟩ := h
  refine (hserves.pollAcquire willWake self waker).mono ?_
  rintro ⟨⟨result, wokenNow⟩, limiter'⟩ ⟨hgrant, -⟩
  dsimp only at hgrant ⊢
  rw [hgrant, head_enqueue_iff, hserves.total, ← hserves.permitsOut,
    ← hserves.represents.head_eq]
  exact ⟨fun ⟨hqueue, hpermits⟩ => ⟨hqueue, hpermits⟩,
    fun ⟨hqueue, hpermits⟩ => ⟨hqueue, hpermits⟩⟩

end ConjureRuntime.Limiter.Ciad

namespace ConjureRuntime.Node

open ConjureRuntime.Limiter ConjureRuntime.Foundation

variable {ω : Type} {willWake : ω → ω → Bool}

/-! ## One node -/

namespace Limiter

variable {limiter limiter' : Limiter ω} {view : View}
  {woken : Nat → Prop} {endpoint : Endpoint} {self : Nat} {waker : ω}

structure Guarded (limiter limiter' : Limiter ω) : Prop where
  host : limiter.host.Guarded limiter'.host
  endpoint : ∀ endpoint,
    (limiter.entry endpoint).Guarded (limiter'.entry endpoint)

theorem Guarded.refl (limiter : Limiter ω) : Guarded limiter limiter :=
  ⟨.refl _, fun _ => .refl _⟩

theorem Guarded.trans {limiter'' : Limiter ω}
    (first : Guarded limiter limiter') (second : Guarded limiter' limiter'') :
    Guarded limiter limiter'' :=
  ⟨first.host.trans second.host,
    fun endpoint => (first.endpoint endpoint).trans (second.endpoint endpoint)⟩

theorem Guarded.of_host {host : Ciad ω} (h : limiter.host.Guarded host) :
    Guarded limiter { limiter with host } :=
  ⟨h, fun _ => .refl _⟩

theorem Guarded.of_entry {ciad : Ciad ω}
    (h : (limiter.entry endpoint).Guarded ciad) :
    Guarded limiter (limiter.setEndpoint endpoint ciad) := by
  refine ⟨.refl _, fun endpoint' => ?_⟩
  by_cases hne : endpoint' = endpoint
  · subst hne
    rwa [entry_setEndpoint_self]
  · rw [entry_setEndpoint_of_ne ciad hne]
    exact .refl _

theorem pollHost_guarded {waits holds}
    (h : limiter.host.Admits waits holds woken)
    {endpointSnapshot : Nat} {polled : Polled ω}
    (hpoll : limiter.pollHost willWake self waker endpointSnapshot =
      .ok (polled, limiter')) : Guarded limiter limiter' := by
  obtain ⟨⟨⟨permit, wokenNow⟩, host⟩, hacquire, hpoll⟩ := bind_eq_ok hpoll
  have hguarded := h.pollAcquire_guarded hacquire
  cases permit with
  | some | none =>
      cases hpoll
      exact .of_host hguarded

theorem pollEndpoint_guarded (h : limiter.Admits view woken)
    {polled : Polled ω}
    (hpoll : limiter.pollEndpoint willWake endpoint self waker =
      .ok (polled, limiter')) : Guarded limiter limiter' := by
  obtain ⟨⟨⟨permit, wokenNow⟩, ciad⟩, hacquire, hpoll⟩ := bind_eq_ok hpoll
  have hguarded : Guarded limiter (limiter.setEndpoint endpoint ciad) :=
    .of_entry ((h.endpoint endpoint).pollAcquire_guarded hacquire)
  cases permit with
  | none =>
      cases hpoll
      exact hguarded
  | some endpointSnapshot =>
      obtain ⟨⟨polled', last⟩, hhost, hpoll⟩ := bind_eq_ok hpoll
      cases hpoll
      exact hguarded.trans (pollHost_guarded h.host hhost)

theorem poll_guarded (h : limiter.Admits view woken)
    {acquisition : Acquisition} {polled : Polled ω}
    (hpoll : limiter.poll willWake endpoint self waker acquisition =
      .ok (polled, limiter')) : Guarded limiter limiter' := by
  cases acquisition with
  | idle | endpoint => exact pollEndpoint_guarded h hpoll
  | host endpointSnapshot => exact pollHost_guarded h.host hpoll

theorem dropAcquire_limit {acquisition : Acquisition}
    {wakes : List (Woken Nat ω)}
    (hdrop : limiter.dropAcquire endpoint self acquisition =
      .ok (wakes, limiter')) :
    limiter'.host.limit = limiter.host.limit ∧ ∀ endpoint',
      (limiter'.entry endpoint').limit = (limiter.entry endpoint').limit := by
  have hentry : ∀ {ciad : Ciad ω} {host : Ciad ω},
      ciad.limit = (limiter.entry endpoint).limit → ∀ endpoint',
      (entry { limiter.setEndpoint endpoint ciad with host }
        endpoint').limit = (limiter.entry endpoint').limit := by
    intro ciad host hlimit endpoint'
    by_cases hne : endpoint' = endpoint
    · subst hne
      simpa [entry, setEndpoint] using hlimit
    · simp [entry, setEndpoint, hne]
  cases acquisition with
  | idle =>
      cases hdrop
      exact ⟨rfl, fun _ => rfl⟩
  | endpoint =>
      obtain ⟨⟨wokenNow, ciad⟩, hlocked, hdrop⟩ := bind_eq_ok hdrop
      cases hdrop
      exact ⟨rfl, hentry (Ciad.locked_limit hlocked)⟩
  | host endpointSnapshot =>
      obtain ⟨⟨wokenNow, host⟩, hlocked, hdrop⟩ := bind_eq_ok hdrop
      obtain ⟨⟨wakes', ciad⟩, hpermit, hdrop⟩ := bind_eq_ok hdrop
      cases hdrop
      exact ⟨Ciad.locked_limit hlocked,
        hentry (Ciad.dropPermit_ignore_limit hpermit)⟩

def WouldStart (willWake : ω → ω → Bool) (limiter : Limiter ω)
    (endpoint : Endpoint) (self : Nat) (acquisition : Acquisition) : Prop :=
  ∀ waker, Returns (limiter.poll willWake endpoint self waker acquisition)
    fun (polled, _) => polled.stage = .running

/-- There is room for the host permit, and for that of the endpoint unless
the acquisition has it already. -/
structure Room (limiter : Limiter ω) (endpoint : Endpoint) (request : Nat)
    (acquisition : Acquisition) : Prop where
  endpoint : acquisition.stage = .host ∨
    (limiter.entry endpoint).HasRoom request
  host : limiter.host.HasRoom request

theorem pollHost_starts_iff {waits holds}
    (h : limiter.host.Admits waits holds woken) (waker : ω)
    (endpointSnapshot : Nat) :
    Returns (limiter.pollHost willWake self waker endpointSnapshot)
      fun (polled, _) => polled.stage = .running ↔
        limiter.host.HasRoom self := by
  refine .bind (h.grants_iff self waker) ?_
  rintro ⟨⟨permit, wokenNow⟩, host⟩ hgrant
  dsimp only at hgrant ⊢
  rw [← hgrant]
  cases permit with
  | some hostSnapshot => exact .pure (by simp [Polled.stage])
  | none => exact .pure (by simp [Polled.stage, Acquisition.stage])

theorem poll_starts_iff (h : limiter.Admits view woken) (waker : ω)
    (acquisition : Acquisition) :
    Returns (limiter.poll willWake endpoint self waker acquisition)
      fun (polled, _) => polled.stage = .running ↔
        limiter.Room endpoint self acquisition := by
  have hendpoint : ∀ {acquisition : Acquisition},
      acquisition.stage ≠ .host →
      Returns (limiter.pollEndpoint willWake endpoint self waker)
        fun (polled, _) => polled.stage = .running ↔
          limiter.Room endpoint self acquisition := by
    intro acquisition hstage
    have hroom : limiter.Room endpoint self acquisition ↔
        (limiter.entry endpoint).HasRoom self ∧ limiter.host.HasRoom self :=
      ⟨fun h => ⟨h.endpoint.resolve_left hstage, h.host⟩,
        fun h => ⟨.inr h.1, h.2⟩⟩
    refine .bind ((h.endpoint endpoint).grants_iff self waker) ?_
    rintro ⟨⟨permit, wokenNow⟩, ciad⟩ hgrant
    dsimp only at hgrant ⊢
    rw [hroom, ← hgrant]
    cases permit with
    | none => exact .pure (by simp [Polled.stage, Acquisition.stage])
    | some endpointSnapshot =>
        have hhost : (limiter.setEndpoint endpoint ciad).host.Admits _ _ _ :=
          h.host
        refine .bind (pollHost_starts_iff hhost waker endpointSnapshot) ?_
        rintro ⟨polled, limiter'⟩ hstarts
        exact .pure (hstarts.trans (by simp [setEndpoint]))
  cases acquisition with
  | idle => exact hendpoint (by simp [Acquisition.stage])
  | endpoint => exact hendpoint (by simp [Acquisition.stage])
  | host endpointSnapshot =>
      refine (pollHost_starts_iff h.host waker endpointSnapshot).mono ?_
      rintro ⟨polled, limiter'⟩ hstarts
      exact hstarts.trans ⟨fun hroom => ⟨.inl rfl, hroom⟩, Room.host⟩

theorem Room.wouldStart (h : limiter.Admits view woken)
    {acquisition : Acquisition}
    (hroom : limiter.Room endpoint self acquisition) :
    limiter.WouldStart willWake endpoint self acquisition :=
  fun waker => (poll_starts_iff h waker acquisition).mono
    fun _ hstarts => hstarts.mpr hroom

structure WithinLimits (limiter limiter' : Limiter ω) : Prop where
  host : limiter'.host.permitsOut ≤ limiter.host.permitsOut ∨
    limiter'.host.permitsOut ≤ ⌊limiter'.host.limit⌋₊
  endpoint : ∀ endpoint,
    (limiter'.entry endpoint).permitsOut ≤
      (limiter.entry endpoint).permitsOut ∨
    (limiter'.entry endpoint).permitsOut ≤
      ⌊(limiter'.entry endpoint).limit⌋₊

theorem Guarded.withinLimits (h : Guarded limiter limiter') :
    WithinLimits limiter limiter' :=
  ⟨h.host.permits, fun endpoint => (h.endpoint endpoint).permits⟩

end Limiter

/-! ## All nodes -/

theorem Request.stage_of_idle {request : Request} {node : Nat}
    (hphase : ∀ node permit, request.phase ≠ .running node permit)
    (hidle : request.acquisition node = .idle) :
    request.stage node = .idle := by
  rw [Request.stage_of_phase hphase, hidle]
  rfl

namespace System

variable {system system' : System ω} {index : Nat}
  {request request' : Request} {waker : ω}

theorem pollNodes_guarded {order done : List Nat} {granted : List Grant}
    (hindex : index < system.requests.length)
    (h : (system.setRequest index request).Admits fun node waiter =>
      waiter ∈ system.woken ∧ (waiter = index → node ∉ done))
    (hpending : request.phase = .pending)
    (hpoll : pollNodes willWake index waker order request system =
      .ok ((granted, request'), system')) (node : Nat) :
    (system.limiter node).Guarded (system'.limiter node) := by
  induction order generalizing request system done granted with
  | nil =>
      cases hpoll
      exact .refl _
  | cons first order ih =>
      obtain ⟨⟨polled, limiter⟩, hfirst, hnotIdle, hgranted, hadmits⟩ :=
        @pollNode_returns _ _ _ _ willWake waker _ hindex h hpending first
      obtain ⟨⟨polled', limiter'⟩, hfirst', hpoll⟩ := bind_eq_ok hpoll
      rw [hfirst] at hfirst'
      cases hfirst'
      have hguarded : (system.limiter node).Guarded
          ((system.setLimiter first limiter polled.wakes).limiter node) := by
        by_cases heq : node = first
        · subst heq
          simpa using Limiter.poll_guarded (h node) hfirst
        · simpa [heq] using Limiter.Guarded.refl _
      cases hresult : polled.result with
      | inr permit =>
          simp only [hresult] at hpoll
          cases hpoll
          exact hguarded
      | inl acquisition =>
          simp only [hresult] at hpoll
          obtain ⟨⟨⟨later, request''⟩, last⟩, hrest, hpoll⟩ := bind_eq_ok hpoll
          cases hpoll
          have hstage : polled.stage = acquisition.stage := by
            simp [Limiter.Polled.stage, hresult]
          have hnext := hadmits (request.setAcquisition first acquisition) rfl
            (by simp [Request.stage, hpending, hstage]) fun _ hne =>
              Request.stage_setAcquisition_of_ne request acquisition hne
          exact hguarded.trans (ih hindex hnext hpending hrest)

theorem dropNodes_limit {nodes : List Nat}
    (hdrop : dropNodes index nodes request system =
      .ok (request', system')) (node : Nat) :
    (system'.limiter node).host.limit = (system.limiter node).host.limit ∧
      ∀ endpoint, ((system'.limiter node).entry endpoint).limit =
        ((system.limiter node).entry endpoint).limit := by
  induction nodes generalizing request system with
  | nil =>
      cases hdrop
      exact ⟨rfl, fun _ => rfl⟩
  | cons first nodes ih =>
      obtain ⟨⟨wakes, limiter⟩, hfirst, hdrop⟩ := bind_eq_ok hdrop
      obtain ⟨hhost, hentry⟩ := ih hdrop
      have hlimits := Limiter.dropAcquire_limit hfirst
      by_cases heq : node = first
      · subst heq
        simp only [setLimiter_limiter, Function.update_self] at hhost hentry
        exact ⟨hhost.trans hlimits.1,
          fun endpoint => (hentry endpoint).trans (hlimits.2 endpoint)⟩
      · simp only [setLimiter_limiter, Function.update_of_ne heq]
          at hhost hentry
        exact ⟨hhost, hentry⟩

/-! ## Steps -/

def Retreats (system system' : System ω) : Prop :=
  ∀ node other endpoint stage, stage ≠ .idle →
    system'.view node other = some (endpoint, stage) →
    system.view node other = some (endpoint, stage)

theorem Retreats.refl (system : System ω) : Retreats system system :=
  fun _ _ _ _ _ => id

theorem Retreats.permitsOut_le {woken woken' : Nat → Nat → Prop}
    (hretreats : Retreats system system') (h : system.Admits woken)
    (h' : system'.Admits woken') (node : Nat) :
    (system'.limiter node).host.permitsOut ≤
        (system.limiter node).host.permitsOut ∧
      ∀ endpoint, ((system'.limiter node).entry endpoint).permitsOut ≤
        ((system.limiter node).entry endpoint).permitsOut := by
  refine ⟨(h node).host.permitsOut_le (h' node).host ?_, fun endpoint =>
    ((h node).endpoint endpoint).permitsOut_le ((h' node).endpoint endpoint)
      ?_⟩
  · rintro other ⟨endpoint, hview⟩
    exact ⟨endpoint, hretreats node other endpoint _ (by simp) hview⟩
  · rintro other (hview | hview)
    · exact .inl (hretreats node other endpoint _ (by simp) hview)
    · exact .inr (hretreats node other endpoint _ (by simp) hview)

theorem setRequest_retreats {request request' : Request}
    (hindex : index < system.requests.length)
    (hrequests : system'.requests = system.requests)
    (hendpoint : request'.endpoint = request.endpoint)
    (hstage : ∀ node, request'.stage node = .idle ∨
      request'.stage node = request.stage node) :
    Retreats (system.setRequest index request)
      (system'.setRequest index request') := by
  intro node other endpoint stage hactive hview
  have hindex' : index < system'.requests.length := by rwa [hrequests]
  rw [setRequest_view hindex'] at hview
  rw [setRequest_view hindex]
  by_cases heq : other = index
  · subst heq
    rw [View.set_self, Option.some.injEq, Prod.mk.injEq] at hview ⊢
    obtain ⟨rfl, rfl⟩ := hview
    exact ⟨hendpoint.symm, ((hstage node).resolve_left hactive).symm⟩
  · have hsame : system'.view node other = system.view node other := by
      simp only [view, hrequests]
    simpa [View.set, heq, hsame] using hview

theorem call_retreats (endpoint : Endpoint) (candidates : Candidates) :
    Retreats system { system with
      requests := system.requests ++
        [⟨endpoint, candidates, false, fun _ => .idle, .pending⟩] } := by
  intro node other endpoint' stage hactive hview
  obtain ⟨request, hrequest, rfl, rfl⟩ := request_of_view hview
  rcases getElem?_append_singleton_cases hrequest with hbefore | ⟨-, rfl⟩
  · exact view_of_request hbefore node
  · exact absurd (Request.stage_of_idle (by simp) rfl) hactive

theorem finish_retreats (h : system.Invariant)
    (hrequest : system.requests[index]? = some request) {node : Nat}
    {permit : Permit} (hrunning : request.phase = .running node permit)
    {endpointMode hostMode : Mode}
    (hfinish : finish index request node permit endpointMode hostMode
      system = .ok system') : Retreats system system' := by
  have hindex := (List.getElem?_eq_some_iff.mp hrequest).1
  have hidle := (h.wellFormed index request hrequest).settled
    (by simp [hrunning])
  obtain ⟨⟨wakes, limiter⟩, -, hfinish⟩ := bind_eq_ok hfinish
  cases hfinish
  have hretreats := @setRequest_retreats ω system
    (system.setLimiter node limiter wakes) index request
    { request with phase := .finished } hindex rfl rfl fun other =>
      .inl (Request.stage_of_idle (by simp) (hidle other))
  rwa [setRequest_of_request hrequest] at hretreats

theorem cancel_retreats (h : system.Invariant)
    (hrequest : system.requests[index]? = some request)
    (hpending : request.phase = .pending)
    (hcancel : cancel index request system = .ok system') :
    Retreats system system' := by
  have hindex := (List.getElem?_eq_some_iff.mp hrequest).1
  have hadmits := h.admits
  rw [← setRequest_of_request hrequest] at hadmits
  obtain ⟨⟨request', last⟩, hdrop, hcancel⟩ := bind_eq_ok hcancel
  cases hcancel
  have hconsistent : request.Consistent := fun node _ =>
    Request.stage_of_phase (by simp [hpending]) node
  obtain ⟨hrequests, hsame, -, hacquisition, -⟩ :=
    (dropNodes_returns hindex hadmits hconsistent).result hdrop
  have hretreats := @setRequest_retreats ω system last index request
    { request' with phase := .finished } hindex hrequests hsame.endpoint
      fun node => .inl (Request.stage_of_idle (by simp) (by
        dsimp only
        rw [hacquisition]
        split
        · rfl
        · rename_i hout
          exact not_not.mp (mt
            ((h.wellFormed index request hrequest).inside node) hout)))
  rwa [setRequest_of_request hrequest] at hretreats

theorem poll_withinLimits (h : system.Invariant)
    (hrequest : system.requests[index]? = some request)
    (hpending : request.phase = .pending) {order : List Nat}
    (horder : order.Perm request.candidates.nodes) {granted : List Grant}
    (hpoll : poll willWake index order waker request system =
      .ok (granted, system')) (h' : system'.Invariant) (node : Nat) :
    (system.limiter node).WithinLimits (system'.limiter node) := by
  have hindex := (List.getElem?_eq_some_iff.mp hrequest).1
  have hadmits : (system.setRequest index request).Admits
      fun node waiter => waiter ∈ system.woken ∧
        (waiter = index → node ∉ ([] : List Nat)) := by
    rw [setRequest_of_request hrequest]
    simpa using h.admits
  obtain ⟨⟨⟨granted', request'⟩, mid⟩, hnodes, hpoll⟩ := bind_eq_ok hpoll
  have hguarded := pollNodes_guarded hindex hadmits hpending hnodes node
  have houtcome := (pollNodes_returns hindex hadmits hpending
    (horder.nodup_iff.mpr request.candidates.nodup)).result hnodes
  rcases houtcome.result with
    ⟨hphase, -, -⟩ | ⟨at_, permit, hphase, hidle, hadmits'⟩
  · simp only [hphase] at hpoll
    cases hpoll
    exact hguarded.withinLimits
  · simp only [hphase] at hpoll
    obtain ⟨⟨request'', last⟩, hdrop, hpoll⟩ := bind_eq_ok hpoll
    cases hpoll
    have hindex' : index < mid.requests.length := by
      rwa [houtcome.requests]
    have hconsistent : request'.Consistent := by
      intro other hne
      have hat : at_ ≠ other := by
        rintro rfl
        exact hne hidle
      simp [Request.stage, hphase, hat]
    have hdropped :=
      (dropNodes_returns hindex' hadmits' hconsistent).result hdrop
    have hretreats : Retreats (mid.setRequest index request')
        (last.setRequest index request'') :=
      setRequest_retreats hindex' hdropped.requests hdropped.same.endpoint
        fun other => by
          simp only [Request.stage, hdropped.phase, hphase,
            hdropped.acquisition]
          split
          · exact .inr rfl
          · split
            · exact .inl rfl
            · exact .inr rfl
    have hle := hretreats.permitsOut_le hadmits' h'.admits node
    have hlimit := dropNodes_limit hdrop node
    have hwithin := hguarded.withinLimits
    refine ⟨hwithin.host.imp hle.1.trans fun hhost => ?_,
      fun endpoint => (hwithin.endpoint endpoint).imp
        (hle.2 endpoint).trans fun hentry => ?_⟩
    · change _ ≤ ⌊(last.limiter node).host.limit⌋₊
      rw [hlimit.1]
      exact hle.1.trans hhost
    · change _ ≤ ⌊((last.limiter node).entry endpoint).limit⌋₊
      rw [hlimit.2 endpoint]
      exact (hle.2 endpoint).trans hentry

theorem map_eq_ok {action : Except Panic (System ω)}
    {granted : List Grant}
    (h : ((([] : List Grant), ·) <$> action) = .ok (granted, system')) :
    action = .ok system' := by
  cases action with
  | error panic => cases h
  | ok last => exact congrArg _ (congrArg Prod.snd (Except.ok.inj h))

theorem Step.withinLimits {event : Event ω} (h : system.Invariant)
    (hstep : Step willWake system event system') (node : Nat) :
    (system.limiter node).WithinLimits (system'.limiter node) := by
  have h' : system'.Invariant := (next_returns h hstep).result rfl
  have hofRetreats : Retreats system system' →
      (system.limiter node).WithinLimits (system'.limiter node) := by
    intro hretreats
    have hle := hretreats.permitsOut_le h.admits h'.admits node
    exact ⟨.inl hle.1, fun endpoint => .inl (hle.2 endpoint)⟩
  unfold Step at hstep
  cases hop : event.op with
  | call endpoint candidates =>
      rw [hop] at hstep
      obtain rfl : _ = system' :=
        congrArg Prod.snd (Except.ok.inj (Option.some.inj hstep))
      exact hofRetreats (call_retreats endpoint candidates)
  | poll index order waker =>
      cases hrequest : system.requests[index]? with
      | none => simp [next, hop, hrequest] at hstep
      | some request =>
          simp only [next, hop, hrequest, Option.bind_eq_bind,
            Option.bind_some] at hstep
          split at hstep
          · rename_i hready
            exact poll_withinLimits h hrequest hready.1 hready.2
              (Option.some.inj hstep) h' node
          · cases hstep
  | cancel index =>
      cases hrequest : system.requests[index]? with
      | none => simp [next, hop, hrequest] at hstep
      | some request =>
          simp only [next, hop, hrequest, Option.bind_eq_bind,
            Option.bind_some] at hstep
          split at hstep
          · rename_i hphase
            exact hofRetreats (cancel_retreats h hrequest hphase
              (map_eq_ok (Option.some.inj hstep)))
          · rename_i hphase
            exact hofRetreats (finish_retreats h hrequest hphase
              (map_eq_ok (Option.some.inj hstep)))
          · cases hstep
  | complete index result =>
      cases hrequest : system.requests[index]? with
      | none => simp [next, hop, hrequest] at hstep
      | some request =>
          simp only [next, hop, hrequest, Option.bind_eq_bind,
            Option.bind_some] at hstep
          split at hstep
          · rename_i hphase
            exact hofRetreats (finish_retreats h hrequest hphase
              (map_eq_ok (Option.some.inj hstep)))
          · cases hstep

/-! ## Room at a node -/

theorem pollNodes_starts {order : List Nat} {granted : List Grant}
    {node : Nat} (hnode : node ∈ order) (hpending : request.phase = .pending)
    (hstart : (system.limiter node).WouldStart willWake request.endpoint index
      (request.acquisition node))
    (hpoll : pollNodes willWake index waker order request system =
      .ok ((granted, request'), system')) :
    ∃ at_ permit, request'.phase = .running at_ permit := by
  induction order generalizing request system granted with
  | nil => simp at hnode
  | cons first order ih =>
      obtain ⟨⟨polled, limiter⟩, hfirst, hpoll⟩ := bind_eq_ok hpoll
      cases hresult : polled.result with
      | inr permit =>
          simp only [hresult] at hpoll
          cases hpoll
          exact ⟨first, permit, rfl⟩
      | inl acquisition =>
          simp only [hresult] at hpoll
          have hne : node ≠ first := by
            rintro rfl
            have hstage := (hstart waker).result hfirst
            cases acquisition <;>
              simp [Limiter.Polled.stage, hresult, Acquisition.stage]
                at hstage
          obtain ⟨⟨⟨later, request''⟩, last⟩, hrest, hpoll⟩ := bind_eq_ok hpoll
          cases hpoll
          have hpending' : (request.setAcquisition first
              acquisition).phase = .pending := hpending
          refine ih ((List.mem_cons.mp hnode).resolve_left hne) hpending' ?_
            hrest
          rw [Request.setAcquisition_of_ne request acquisition hne]
          simpa [hne] using hstart

theorem dropNodes_phase {nodes : List Nat}
    (hdrop : dropNodes index nodes request system =
      .ok (request', system')) :
    request'.phase = request.phase ∧ system'.requests = system.requests := by
  induction nodes generalizing request system with
  | nil =>
      cases hdrop
      exact ⟨rfl, rfl⟩
  | cons first nodes ih =>
      obtain ⟨⟨wakes, limiter⟩, -, hrest⟩ := bind_eq_ok hdrop
      have hrest : dropNodes index nodes (request.setAcquisition first .idle)
          (system.setLimiter first limiter wakes) =
          .ok (request', system') := hrest
      have hlast := ih hrest
      exact hlast

end System

/-! ## Runs -/

namespace System

variable {system system' : System ω} {events : List (Event ω)} {index : Nat}
  {request : Request}

def running (system : System ω) (node : Nat) : Nat :=
  system.requests.countP fun request => request.stage node = .running

/-- The requests of an endpoint that run at a node or wait there for the
host. -/
def admitted (system : System ω) (node : Nat) (endpoint : Endpoint) : Nat :=
  system.requests.countP fun request =>
    request.endpoint = endpoint ∧
      (request.stage node = .host ∨ request.stage node = .running)

theorem Invariant.host_permitsOut (h : system.Invariant) (node : Nat) :
    (system.limiter node).host.permitsOut = system.running node := by
  obtain ⟨holders, hout, hholders⟩ := (h.admits node).host.permitsOut
  rw [hout]
  refine card_eq_countP fun index => ?_
  rw [hholders]
  constructor
  · rintro ⟨endpoint, hview⟩
    obtain ⟨request, hrequest, -, hstage⟩ := request_of_view hview
    exact ⟨request, hrequest, decide_eq_true hstage⟩
  · rintro ⟨request, hrequest, hstage⟩
    refine ⟨request.endpoint, ?_⟩
    rw [view_of_request hrequest, of_decide_eq_true hstage]

theorem Invariant.endpoint_permitsOut (h : system.Invariant) (node : Nat)
    (endpoint : Endpoint) :
    ((system.limiter node).entry endpoint).permitsOut =
      system.admitted node endpoint := by
  obtain ⟨holders, hout, hholders⟩ :=
    ((h.admits node).endpoint endpoint).permitsOut
  rw [hout]
  refine card_eq_countP fun index => ?_
  rw [hholders]
  constructor
  · rintro (hview | hview) <;>
      obtain ⟨request, hrequest, hendpoint, hstage⟩ := request_of_view hview
    · exact ⟨request, hrequest, decide_eq_true ⟨hendpoint, .inl hstage⟩⟩
    · exact ⟨request, hrequest, decide_eq_true ⟨hendpoint, .inr hstage⟩⟩
  · rintro ⟨request, hrequest, hholds⟩
    obtain ⟨rfl, hstage | hstage⟩ := of_decide_eq_true hholds
    · refine .inl ?_
      rw [← hstage]
      exact view_of_request hrequest node
    · refine .inr ?_
      rw [← hstage]
      exact view_of_request hrequest node

/-- Whatever is polled, dropped or completed in whatever order, nothing
panics, the host permits of a node are the requests that run there, and the
permits of an endpoint are its requests that were admitted there. -/
theorem permits_are_requests
    (run : Run (Step willWake) (System.new ω) events system) :
    (∀ op action, system.next willWake op = some action →
      ∃ result, action = .ok result) ∧
    ∀ node,
      (system.limiter node).host.permitsOut = system.running node ∧
      ∀ endpoint, ((system.limiter node).entry endpoint).permitsOut =
        system.admitted node endpoint := by
  have h := run_inv run
  refine ⟨fun op action hnext => ?_, fun node =>
    ⟨h.host_permitsOut node, h.endpoint_permitsOut node⟩⟩
  obtain ⟨result, haction, -⟩ := next_returns h hnext
  exact ⟨result, haction⟩

private def atFirst : Candidates := ⟨[0], by decide, by decide⟩

def oneRunning : List (Op Unit) :=
  [.call ⟨.get, "/a"⟩ atFirst, .poll 0 [0] (),
    .call ⟨.get, "/a"⟩ atFirst]

theorem one_permit_is_one_request :
    ∃ events system,
      Run (Step fun _ _ => true) (System.new Unit) events system ∧
      system.running 0 = 1 ∧
      (system.limiter 0).host.permitsOut = system.running 0 := by
  have h : ∃ events system,
      exec (tryNext fun _ _ => true) (System.new Unit) oneRunning =
        some (events, system) ∧ system.running 0 = 1 := ⟨_, _, rfl, rfl⟩
  obtain ⟨events, system, hexec, hrunning⟩ := h
  have run := exec_run tryNext_step hexec
  exact ⟨events, system, run, hrunning, ((permits_are_requests run).2 0).1⟩

/-- The number of requests running at a node rises only as far as the limit
of the host, that of the admitted ones of an endpoint as far as its limit. -/
theorem starts_within_limits
    (run : Run (Step willWake) (System.new ω) events system)
    {event : Event ω} (hstep : Step willWake system event system')
    (node : Nat) :
    (system'.running node ≤ system.running node ∨
      system'.running node ≤ ⌊(system'.limiter node).host.limit⌋₊) ∧
    ∀ endpoint,
      system'.admitted node endpoint ≤ system.admitted node endpoint ∨
      system'.admitted node endpoint ≤
        ⌊((system'.limiter node).entry endpoint).limit⌋₊ := by
  have h := run_inv run
  have h' : system'.Invariant := (next_returns h hstep).result rfl
  obtain ⟨hhost, hendpoint⟩ := hstep.withinLimits h node
  rw [h.host_permitsOut, h'.host_permitsOut] at hhost
  refine ⟨hhost, fun endpoint => ?_⟩
  have hentry := hendpoint endpoint
  rwa [h.endpoint_permitsOut, h'.endpoint_permitsOut] at hentry

theorem second_start_within_limits :
    ∃ events system event system',
      Run (Step fun _ _ => true) (System.new Unit) events system ∧
      Step (fun _ _ => true) system event system' ∧
      system.running 0 < system'.running 0 ∧
      system'.running 0 ≤ ⌊(system'.limiter 0).host.limit⌋₊ := by
  have h : ∃ events system event system',
      exec (tryNext fun _ _ => true) (System.new Unit) oneRunning =
        some (events, system) ∧
      system.tryNext (fun _ _ => true) (.poll 1 [0] ()) =
        some (event, system') ∧
      system.running 0 = 1 ∧ system'.running 0 = 2 :=
    ⟨_, _, _, _, rfl, rfl, rfl, rfl⟩
  obtain ⟨events, system, event, system', hexec, hnext, hbefore, hafter⟩ := h
  have run := exec_run tryNext_step hexec
  have hstep := tryNext_step hnext
  have hwithin := (starts_within_limits run hstep 0).1
  exact ⟨events, system, event, system', run, hstep, by omega,
    hwithin.resolve_left (by omega)⟩

/-- A request that polls with room at one of its nodes starts, however many
requests of throttled endpoints wait there. -/
theorem starts_with_room
    (run : Run (Step willWake) (System.new ω) events system)
    (hrequest : system.requests[index]? = some request)
    (hpending : request.phase = .pending) {node : Nat}
    (hnode : node ∈ request.candidates.nodes)
    (room : (system.limiter node).Room request.endpoint index
      (request.acquisition node)) {order : List Nat}
    (horder : order.Perm request.candidates.nodes) (waker : ω) :
    ∃ granted system' request' at_ permit,
      system.next willWake (.poll index order waker) =
        some (.ok (granted, system')) ∧
      system'.requests[index]? = some request' ∧
      request'.phase = .running at_ permit := by
  have h := run_inv run
  have hindex := (List.getElem?_eq_some_iff.mp hrequest).1
  have hpolls : Returns (poll willWake index order waker request system) _ :=
    poll_returns h hrequest hpending horder
  obtain ⟨⟨granted, system'⟩, hpoll, -⟩ := hpolls
  have hpoll' := hpoll
  obtain ⟨⟨⟨granted', request'⟩, mid⟩, hnodes, hpoll'⟩ := bind_eq_ok hpoll'
  obtain ⟨at_, permit, hphase⟩ := pollNodes_starts
    (horder.mem_iff.mpr hnode) hpending
    (room.wouldStart (h.admits node)) hnodes
  have hadmits : (system.setRequest index request).Admits
      fun node waiter => waiter ∈ system.woken ∧
        (waiter = index → node ∉ ([] : List Nat)) := by
    rw [setRequest_of_request hrequest]
    simpa using h.admits
  have houtcome := (pollNodes_returns hindex hadmits hpending
    (horder.nodup_iff.mpr request.candidates.nodup)).result hnodes
  simp only [hphase] at hpoll'
  obtain ⟨⟨request'', last⟩, hdrop, hpoll'⟩ := bind_eq_ok hpoll'
  obtain ⟨hphase', hrequests⟩ := dropNodes_phase hdrop
  cases hpoll'
  refine ⟨granted, last.setRequest index request'', request'', at_, permit,
    ?_, ?_, hphase'.trans hphase⟩
  · simp only [next, hrequest, hpending, horder, hpoll,
      Option.bind_eq_bind, Option.bind_some, and_self, if_true]
  · have hlength : index < last.requests.length := by
      rwa [hrequests, houtcome.requests]
    simp [hlength]

theorem starts_next_to_running :
    ∃ events system,
      Run (Step fun _ _ => true) (System.new Unit) events system ∧
      ∃ granted system' request' at_ permit,
        system.next (fun _ _ => true) (.poll 1 [0] ()) =
          some (.ok (granted, system')) ∧
        system'.requests[1]? = some request' ∧
        request'.phase = .running at_ permit := by
  have hexec : exec (tryNext fun _ _ => true) (System.new Unit) oneRunning =
      some (_, _) := rfl
  have run := exec_run tryNext_step hexec
  have hlimit : 1 < ⌊(initialLimit : ℚ)⌋₊ := by
    rw [Nat.floor_natCast]
    decide
  refine ⟨_, _, run, @starts_with_room _ _ _ _ 1 _ run rfl rfl 0 (by decide)
    ⟨.inr ⟨?_, hlimit⟩, ?_, hlimit⟩ [0] (by decide) ()⟩
  · rintro waiter hhead
    cases hhead
  · rintro waiter hhead
    cases hhead

end System

end ConjureRuntime.Node
