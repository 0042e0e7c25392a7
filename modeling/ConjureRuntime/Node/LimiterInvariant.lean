import ConjureRuntime.Node.Limiter

/-!
# The limiters of the nodes stay in order

Where a request stands at a node says which of the two queues of the node it
is in and which permits it holds.  The limiters agree with it after every
acquisition that is polled or dropped and after every permit that is dropped,
and none of these panics.
-/

namespace ConjureRuntime.Node

open ConjureRuntime.Limiter ConjureRuntime.Foundation

inductive Stage where
  | idle
  | endpoint
  | host
  | running
  deriving DecidableEq

def Acquisition.stage : Acquisition → Stage
  | .idle => .idle
  | .endpoint => .endpoint
  | .host _ => .host

def Request.stage (request : Request) (node : Nat) : Stage :=
  match request.phase with
  | .running at_ _ =>
      if at_ = node then .running else (request.acquisition node).stage
  | _ => (request.acquisition node).stage

abbrev View := Nat → Option (Endpoint × Stage)

namespace View

def WaitsEndpoint (view : View) (endpoint : Endpoint) (request : Nat) :
    Prop :=
  view request = some (endpoint, .endpoint)

def HoldsEndpoint (view : View) (endpoint : Endpoint) (request : Nat) :
    Prop :=
  view request = some (endpoint, .host) ∨
    view request = some (endpoint, .running)

def WaitsHost (view : View) (request : Nat) : Prop :=
  ∃ endpoint, view request = some (endpoint, .host)

def HoldsHost (view : View) (request : Nat) : Prop :=
  ∃ endpoint, view request = some (endpoint, .running)

def set (view : View) (request : Nat) (endpoint : Endpoint)
    (stage : Stage) : View :=
  Function.update view request (some (endpoint, stage))

section set

variable (view : View) (self : Nat) (endpoint : Endpoint) (stage : Stage)
  (request : Nat)

theorem set_waitsHost :
    (view.set self endpoint stage).WaitsHost request ↔
      if request = self then stage = .host else view.WaitsHost request := by
  by_cases h : request = self <;> simp [WaitsHost, set, h]

theorem set_holdsHost :
    (view.set self endpoint stage).HoldsHost request ↔
      if request = self then stage = .running
      else view.HoldsHost request := by
  by_cases h : request = self <;> simp [HoldsHost, set, h]

theorem set_waitsEndpoint (endpoint' : Endpoint) :
    (view.set self endpoint stage).WaitsEndpoint endpoint' request ↔
      if request = self then endpoint = endpoint' ∧ stage = .endpoint
      else view.WaitsEndpoint endpoint' request := by
  by_cases h : request = self <;> simp [WaitsEndpoint, set, h]

theorem set_holdsEndpoint (endpoint' : Endpoint) :
    (view.set self endpoint stage).HoldsEndpoint endpoint' request ↔
      if request = self then
        endpoint = endpoint' ∧ (stage = .host ∨ stage = .running)
      else view.HoldsEndpoint endpoint' request := by
  by_cases h : request = self <;>
    simp [HoldsEndpoint, set, h, ← and_or_left]

@[simp] theorem set_set (endpoint' : Endpoint) (stage' : Stage) :
    (view.set self endpoint stage).set self endpoint' stage' =
      view.set self endpoint' stage' := by
  simp [set]

@[simp] theorem set_self :
    view.set self endpoint stage self = some (endpoint, stage) := by
  simp [set]

end set

end View

namespace Limiter

variable {ω : Type} {willWake : ω → ω → Bool} {limiter : Limiter ω}
  {view : View} {woken : Nat → Prop} {endpoint : Endpoint} {self : Nat}

@[simp] theorem entry_setEndpoint_self (ciad : Ciad ω) :
    (limiter.setEndpoint endpoint ciad).entry endpoint = ciad := by
  simp [entry, setEndpoint]

@[simp] theorem entry_setEndpoint_of_ne (ciad : Ciad ω) {endpoint' : Endpoint}
    (h : endpoint' ≠ endpoint) :
    (limiter.setEndpoint endpoint ciad).entry endpoint' =
      limiter.entry endpoint' := by
  simp [entry, setEndpoint, h]

@[simp] theorem setEndpoint_host (ciad : Ciad ω) :
    (limiter.setEndpoint endpoint ciad).host = limiter.host := rfl

structure Admits (limiter : Limiter ω) (view : View) (woken : Nat → Prop) :
    Prop where
  host : limiter.host.Admits view.WaitsHost view.HoldsHost woken
  endpoint : ∀ endpoint, (limiter.entry endpoint).Admits
    (view.WaitsEndpoint endpoint) (view.HoldsEndpoint endpoint) woken

theorem new_admits (woken : Nat → Prop) :
    (Limiter.new ω).Admits (fun _ => none) woken where
  host := by
    refine (Ciad.new_admits woken).congr ?_ ?_ (fun _ h => h.elim) <;>
      simp [View.WaitsHost, View.HoldsHost]
  endpoint endpoint := by
    refine (Ciad.new_admits woken).congr ?_ ?_ (fun _ h => h.elim) <;>
      simp [View.WaitsEndpoint, View.HoldsEndpoint]

theorem Admits.mono_active {woken' : Nat → Prop}
    (h : limiter.Admits view woken)
    (hwoken : ∀ request endpoint stage,
      view request = some (endpoint, stage) → stage ≠ .idle →
      woken request → woken' request) :
    limiter.Admits view woken' where
  host := h.host.congr (fun _ => Iff.rfl) (fun _ => Iff.rfl)
    fun request ⟨endpoint, hview⟩ =>
      hwoken request endpoint .host hview (by simp)
  endpoint endpoint := (h.endpoint endpoint).congr (fun _ => Iff.rfl)
    (fun _ => Iff.rfl) fun request hview =>
      hwoken request endpoint .endpoint hview (by simp)

theorem Admits.mono {woken' : Nat → Prop} (h : limiter.Admits view woken)
    (hwoken : ∀ request, woken request → woken' request) :
    limiter.Admits view woken' :=
  h.mono_active fun request _ _ _ _ => hwoken request

theorem Admits.congr_idle {view' : View} (h : limiter.Admits view woken)
    (hview : ∀ request endpoint stage, stage ≠ .idle →
      (view request = some (endpoint, stage) ↔
        view' request = some (endpoint, stage))) :
    limiter.Admits view' woken where
  host := by
    refine h.host.congr ?_ ?_ fun _ _ => id <;> intro request
    · exact exists_congr fun endpoint =>
        hview request endpoint .host (by simp)
    · exact exists_congr fun endpoint =>
        hview request endpoint .running (by simp)
  endpoint endpoint := by
    refine (h.endpoint endpoint).congr ?_ ?_ fun _ _ => id <;> intro request
    · exact hview request endpoint .endpoint (by simp)
    · exact or_congr (hview request endpoint .host (by simp))
        (hview request endpoint .running (by simp))

def Polled.stage (polled : Polled ω) : Stage :=
  match polled.result with
  | .inl acquisition => acquisition.stage
  | .inr _ => .running

theorem Admits.other_entry {woken' : Nat → Prop}
    (h : limiter.Admits view woken) {stage : Stage}
    (hview : view self = some (endpoint, stage)) {endpoint' : Endpoint}
    (hne : endpoint' ≠ endpoint) (stage' : Stage)
    (hwoken : ∀ request, woken request → woken' request) :
    (limiter.entry endpoint').Admits
      ((view.set self endpoint stage').WaitsEndpoint endpoint')
      ((view.set self endpoint stage').HoldsEndpoint endpoint')
      (fun request => woken' request ∧ request ≠ self) := by
  refine (h.endpoint endpoint').congr ?_ ?_ ?_
  · intro request
    rw [View.set_waitsEndpoint]
    by_cases heq : request = self
    · simp [heq, View.WaitsEndpoint, hview, hne.symm]
    · simp [heq]
  · intro request
    rw [View.set_holdsEndpoint]
    by_cases heq : request = self
    · simp [heq, View.HoldsEndpoint, hview, hne.symm]
    · simp [heq]
  · intro request hwaiting hpast
    refine ⟨hwoken request hpast, ?_⟩
    rintro rfl
    simp [View.WaitsEndpoint, hview, hne.symm] at hwaiting

/-! ## Polling an acquisition -/

theorem pollHost_admits
    (h : limiter.host.Admits view.WaitsHost view.HoldsHost woken)
    (hself : ¬ view.HoldsHost self) (willWake : ω → ω → Bool)
    (endpoint : Endpoint) (waker : ω) (endpointSnapshot : Nat) :
    Returns (limiter.pollHost willWake self waker endpointSnapshot)
      fun (polled, limiter') =>
        limiter'.endpoints = limiter.endpoints ∧
        limiter'.host.Admits (view.set self endpoint polled.stage).WaitsHost
          (view.set self endpoint polled.stage).HoldsHost
          (fun request => (woken request ∨
            Ciad.WokenBy polled.wakes request) ∧ request ≠ self) ∧
        (polled.stage = .host ∨
          polled.stage = .running ∧ polled.granted ≠ []) := by
  refine .bind (h.pollAcquire willWake waker hself) ?_
  rintro ⟨⟨permit, wokenNow⟩, host⟩ h'
  cases permit with
  | some hostSnapshot =>
      refine .pure ⟨rfl, h'.congr ?_ ?_ fun _ _ => id,
        .inr ⟨rfl, by simp⟩⟩
      · intro request
        rw [View.set_waitsHost]
        simp [Polled.stage]
      · intro request
        rw [View.set_holdsHost]
        simp [Polled.stage]
  | none =>
      refine .pure ⟨rfl, h'.congr ?_ ?_ fun _ _ => id, .inl rfl⟩
      · intro request
        rw [View.set_waitsHost]
        simp [Polled.stage, Acquisition.stage]
      · intro request
        rw [View.set_holdsHost]
        simp [Polled.stage, Acquisition.stage]

structure PollEffect (limiter : Limiter ω) (view : View)
    (woken : Nat → Prop) (endpoint : Endpoint) (request : Nat)
    (polled : Polled ω) : Prop where
  admits : limiter.Admits (view.set request endpoint polled.stage)
    (fun waiter => (woken waiter ∨ Ciad.WokenBy polled.wakes waiter) ∧
      waiter ≠ request)
  notIdle : polled.stage ≠ .idle
  granted : polled.stage = .running → polled.granted ≠ []

theorem pollHost_effect (h : limiter.Admits view woken)
    (hview : view self = some (endpoint, .host)) (waker : ω)
    (endpointSnapshot : Nat) :
    Returns (limiter.pollHost willWake self waker endpointSnapshot)
      fun (polled, limiter') =>
        PollEffect limiter' view woken endpoint self polled := by
  have hself : ¬ view.HoldsHost self := by simp [View.HoldsHost, hview]
  refine (pollHost_admits h.host hself willWake endpoint waker
    endpointSnapshot).mono ?_
  rintro ⟨polled, limiter'⟩ ⟨hendpoints, hhost, hstage⟩
  refine ⟨⟨hhost, fun endpoint' => ?_⟩, ?_, ?_⟩
  · have hentry : limiter'.entry endpoint' = limiter.entry endpoint' := by
      simp only [entry, hendpoints]
    rw [hentry]
    refine (h.endpoint endpoint').congr ?_ ?_ ?_
    · intro request
      rw [View.set_waitsEndpoint]
      by_cases heq : request = self
      · rcases hstage with hstage | ⟨hstage, -⟩ <;>
          simp [heq, View.WaitsEndpoint, hview, hstage]
      · simp [heq]
    · intro request
      rw [View.set_holdsEndpoint]
      by_cases heq : request = self
      · rcases hstage with hstage | ⟨hstage, -⟩ <;>
          simp [heq, View.HoldsEndpoint, hview, hstage]
      · simp [heq]
    · rintro request hwaiting hwoken
      refine ⟨.inl hwoken, ?_⟩
      rintro rfl
      simp [View.WaitsEndpoint, hview] at hwaiting
  · rcases hstage with hstage | ⟨hstage, -⟩ <;> simp [hstage]
  · intro hrunning
    exact (hstage.resolve_left (by simp [hrunning])).2

theorem pollEndpoint_effect (h : limiter.Admits view woken) {stage : Stage}
    (hview : view self = some (endpoint, stage))
    (hstage : stage = .idle ∨ stage = .endpoint) (waker : ω) :
    Returns (limiter.pollEndpoint willWake endpoint self waker)
      fun (polled, limiter') =>
        PollEffect limiter' view woken endpoint self polled := by
  have hholds : ∀ endpoint', ¬ view.HoldsEndpoint endpoint' self := by
    intro endpoint'
    rcases hstage with rfl | rfl <;> simp [View.HoldsEndpoint, hview]
  have hwaits : ¬ view.WaitsHost self := by
    rcases hstage with rfl | rfl <;> simp [View.WaitsHost, hview]
  have hruns : ¬ view.HoldsHost self := by
    rcases hstage with rfl | rfl <;> simp [View.HoldsHost, hview]
  refine .bind ((h.endpoint endpoint).pollAcquire willWake waker
    (hholds endpoint)) ?_
  rintro ⟨⟨permit, wokenNow⟩, ciad⟩ hciad
  cases permit with
  | none =>
      refine .pure ⟨⟨?_, fun endpoint' => ?_⟩, by simp [Polled.stage,
        Acquisition.stage], by simp [Polled.stage, Acquisition.stage]⟩
      · refine h.host.congr ?_ ?_ ?_
        · intro request
          rw [View.set_waitsHost]
          by_cases heq : request = self
          · simp [heq, hwaits, Polled.stage, Acquisition.stage]
          · simp [heq]
        · intro request
          rw [View.set_holdsHost]
          by_cases heq : request = self
          · simp [heq, hruns, Polled.stage, Acquisition.stage]
          · simp [heq]
        · intro request hwaiting hwoken
          refine ⟨.inl hwoken, ?_⟩
          rintro rfl
          exact hwaits hwaiting
      · by_cases hne : endpoint' = endpoint
        · subst hne
          rw [entry_setEndpoint_self]
          refine hciad.congr ?_ ?_ fun _ _ => id
          · intro request
            rw [View.set_waitsEndpoint]
            simp [Polled.stage, Acquisition.stage]
          · intro request
            rw [View.set_holdsEndpoint]
            simp [Polled.stage, Acquisition.stage]
        · rw [entry_setEndpoint_of_ne ciad hne]
          exact h.other_entry hview hne _ fun _ hwoken => .inl hwoken
  | some endpointSnapshot =>
      dsimp only
      have hhost : (limiter.setEndpoint endpoint ciad).host.Admits
          view.WaitsHost view.HoldsHost woken := h.host
      refine .bind (pollHost_admits hhost hruns willWake endpoint waker
        endpointSnapshot) ?_
      rintro ⟨polled, limiter'⟩ ⟨hendpoints, hhost', hstage'⟩
      have hentry : ∀ endpoint', limiter'.entry endpoint' =
          (limiter.setEndpoint endpoint ciad).entry endpoint' := by
        intro endpoint'
        simp only [entry, hendpoints]
      refine .pure ⟨⟨?_, fun endpoint' => ?_⟩, ?_, fun _ => by simp⟩
      · refine hhost'.congr (fun _ => Iff.rfl) (fun _ => Iff.rfl) ?_
        rintro request - ⟨hwoken, hne⟩
        exact ⟨hwoken.imp_right fun h => Ciad.wokenBy_cons.mpr (.inr h), hne⟩
      · rw [hentry]
        by_cases hne : endpoint' = endpoint
        · subst hne
          rw [entry_setEndpoint_self]
          refine hciad.congr ?_ ?_ ?_
          · intro request
            rw [View.set_waitsEndpoint]
            rcases hstage' with hstage' | ⟨hstage', -⟩ <;>
              simp only [Polled.stage] at hstage' <;>
              simp [Polled.stage, hstage']
          · intro request
            rw [View.set_holdsEndpoint]
            rcases hstage' with hstage' | ⟨hstage', -⟩ <;>
              simp only [Polled.stage] at hstage' <;>
              simp [Polled.stage, hstage']
          · rintro request - ⟨hwoken, hne⟩
            exact ⟨hwoken.imp_right fun h => Ciad.wokenBy_cons.mpr (.inl h),
              hne⟩
        · rw [entry_setEndpoint_of_ne ciad hne]
          exact h.other_entry hview hne _ fun _ hwoken => .inl hwoken
      · rcases hstage' with hstage' | ⟨hstage', -⟩ <;>
          simp only [Polled.stage] at hstage' <;>
          simp [Polled.stage, hstage']

theorem poll_effect (h : limiter.Admits view woken)
    {acquisition : Acquisition}
    (hview : view self = some (endpoint, acquisition.stage)) (waker : ω) :
    Returns (limiter.poll willWake endpoint self waker acquisition)
      fun (polled, limiter') =>
        PollEffect limiter' view woken endpoint self polled := by
  cases acquisition with
  | idle => exact pollEndpoint_effect h hview (.inl rfl) waker
  | endpoint => exact pollEndpoint_effect h hview (.inr rfl) waker
  | host endpointSnapshot =>
      exact pollHost_effect h hview waker endpointSnapshot

def WouldGrant (willWake : ω → ω → Bool) (limiter : Limiter ω)
    (endpoint : Endpoint) (self : Nat) : Acquisition → Prop
  | .idle | .endpoint => (limiter.entry endpoint).WouldGrant willWake self
  | .host _ => limiter.host.WouldGrant willWake self

theorem poll_granted {acquisition : Acquisition} {waker : ω}
    {polled : Polled ω} {limiter' : Limiter ω}
    (hpoll : limiter.poll willWake endpoint self waker acquisition =
      .ok (polled, limiter'))
    (hgrant : limiter.WouldGrant willWake endpoint self acquisition) :
    polled.granted ≠ [] := by
  cases acquisition with
  | host endpointSnapshot =>
      obtain ⟨⟨⟨permit, wokenNow⟩, host⟩, hacquire, hsome⟩ := hgrant waker
      obtain ⟨hostSnapshot, rfl⟩ := Option.isSome_iff_exists.mp hsome
      simp only [poll, pollHost, hacquire, bind, Except.bind, pure,
        Except.pure, Except.ok.injEq, Prod.mk.injEq] at hpoll
      simp [← hpoll.1]
  | idle | endpoint =>
      obtain ⟨⟨⟨permit, wokenNow⟩, ciad⟩, hacquire, hsome⟩ := hgrant waker
      obtain ⟨endpointSnapshot, rfl⟩ := Option.isSome_iff_exists.mp hsome
      simp only [poll, pollEndpoint, hacquire, bind, Except.bind] at hpoll
      split at hpoll
      · cases hpoll
      · simp only [pure, Except.pure, Except.ok.injEq, Prod.mk.injEq]
          at hpoll
        simp [← hpoll.1]

/-! ## Dropping an acquisition or the permits -/

private theorem and_ne_iff (p : Nat → Prop) (hself : ¬ p self)
    (request : Nat) : p request ∧ request ≠ self ↔ p request :=
  ⟨And.left, fun hp => ⟨hp, fun heq => hself (heq ▸ hp)⟩⟩

theorem setEndpoint_admits (ciad host : Ciad ω) {woken' : Nat → Prop}
    (h : limiter.Admits view woken) {stage : Stage}
    (hview : view self = some (endpoint, stage))
    (hwoken : ∀ request, woken request → woken' request)
    (hhost : host.Admits
      (fun request => view.WaitsHost request ∧ request ≠ self)
      (fun request => view.HoldsHost request ∧ request ≠ self) woken')
    (hciad : ciad.Admits
      (fun request => view.WaitsEndpoint endpoint request ∧ request ≠ self)
      (fun request => view.HoldsEndpoint endpoint request ∧ request ≠ self)
      woken') :
    Admits { limiter.setEndpoint endpoint ciad with host }
      (view.set self endpoint .idle) woken' := by
  refine ⟨hhost.congr ?_ ?_ fun _ _ => id, fun endpoint' => ?_⟩
  · intro request
    rw [View.set_waitsHost]
    by_cases heq : request = self <;> simp [heq]
  · intro request
    rw [View.set_holdsHost]
    by_cases heq : request = self <;> simp [heq]
  · by_cases hne : endpoint' = endpoint
    · subst hne
      have hentry : Limiter.entry
          { limiter.setEndpoint endpoint' ciad with host } endpoint' =
          ciad := entry_setEndpoint_self ciad
      rw [hentry]
      refine hciad.congr ?_ ?_ fun _ _ => id
      · intro request
        rw [View.set_waitsEndpoint]
        by_cases heq : request = self <;> simp [heq]
      · intro request
        rw [View.set_holdsEndpoint]
        by_cases heq : request = self <;> simp [heq]
    · have hentry : Limiter.entry
          { limiter.setEndpoint endpoint ciad with host } endpoint' =
          limiter.entry endpoint' := entry_setEndpoint_of_ne ciad hne
      rw [hentry]
      refine (h.other_entry hview hne .idle hwoken).congr (fun _ => Iff.rfl)
        (fun _ => Iff.rfl) fun _ _ => And.left

theorem dropAcquire_admits (h : limiter.Admits view woken)
    (acquisition : Acquisition)
    (hview : acquisition ≠ .idle →
      view self = some (endpoint, acquisition.stage)) :
    Returns (limiter.dropAcquire endpoint self acquisition)
      fun (wakes, limiter') =>
        limiter'.Admits
          (if acquisition = .idle then view
            else view.set self endpoint .idle)
          (fun request => woken request ∨ Ciad.WokenBy wakes request) := by
  cases acquisition with
  | idle => exact .pure (h.mono fun _ => .inl)
  | endpoint =>
      have hview : view self = some (endpoint, .endpoint) :=
        hview (by simp)
      refine .bind ((h.endpoint endpoint).dropAcquire self) ?_
      rintro ⟨wokenNow, ciad⟩ hciad
      refine .pure ?_
      rw [if_neg (by simp)]
      refine setEndpoint_admits ciad limiter.host h hview (fun _ => .inl)
        ?_ ?_
      · refine h.host.congr
          (fun request => (and_ne_iff view.WaitsHost ?_ request).symm)
          (fun request => (and_ne_iff view.HoldsHost ?_ request).symm)
          fun _ _ => .inl
        · simp [View.WaitsHost, hview]
        · simp [View.HoldsHost, hview]
      · refine hciad.congr (fun _ => Iff.rfl) (fun request =>
          (and_ne_iff (view.HoldsEndpoint endpoint) ?_ request).symm)
          fun _ _ => id
        simp [View.HoldsEndpoint, hview]
  | host endpointSnapshot =>
      have hview : view self = some (endpoint, .host) := hview (by simp)
      refine .bind (h.host.dropAcquire self) ?_
      rintro ⟨wokenNow, host⟩ hhost
      have hself : view.HoldsEndpoint endpoint self := .inl hview
      refine .bind ((h.endpoint endpoint).dropPermit hself endpointSnapshot
        .ignore) ?_
      rintro ⟨wakes, ciad⟩ hciad
      refine .pure ?_
      rw [if_neg (by simp)]
      refine setEndpoint_admits ciad host h hview (fun _ => .inl) ?_ ?_
      · refine hhost.congr (fun _ => Iff.rfl)
          (fun request => (and_ne_iff view.HoldsHost ?_ request).symm)
          fun _ _ hwoken => ?_
        · simp [View.HoldsHost, hview]
        · rw [Ciad.wokenBy_cons, ← or_assoc]
          exact .inl hwoken
      · refine hciad.congr (fun request => (and_ne_iff
          (view.WaitsEndpoint endpoint) ?_ request).symm)
          (fun _ => Iff.rfl) fun _ _ hwoken => ?_
        · simp [View.WaitsEndpoint, hview]
        · exact hwoken.imp_right fun h => Ciad.wokenBy_cons.mpr (.inr h)

theorem dropPermit_admits (h : limiter.Admits view woken)
    (hview : view self = some (endpoint, .running)) (permit : Permit)
    (endpointMode hostMode : Mode) :
    Returns (limiter.dropPermit endpoint permit endpointMode hostMode)
      fun (wakes, limiter') =>
        limiter'.Admits (view.set self endpoint .idle)
          (fun request => woken request ∨ Ciad.WokenBy wakes request) := by
  have hendpoint : view.HoldsEndpoint endpoint self := .inr hview
  have hhost : view.HoldsHost self := ⟨endpoint, hview⟩
  refine .bind ((h.endpoint endpoint).dropPermit hendpoint permit.endpoint
    endpointMode) ?_
  rintro ⟨wakes, ciad⟩ hciad
  refine .bind (h.host.dropPermit hhost permit.host hostMode) ?_
  rintro ⟨wakes', host⟩ hhost'
  refine .pure (setEndpoint_admits ciad host h hview (fun _ => .inl) ?_ ?_)
  · refine hhost'.congr (fun request =>
      (and_ne_iff view.WaitsHost ?_ request).symm)
      (fun _ => Iff.rfl) fun _ _ hwoken => ?_
    · simp [View.WaitsHost, hview]
    · exact hwoken.imp_right fun h => Ciad.wokenBy_append.mpr (.inr h)
  · refine hciad.congr (fun request => (and_ne_iff
      (view.WaitsEndpoint endpoint) ?_ request).symm)
      (fun _ => Iff.rfl) fun _ _ hwoken => ?_
    · simp [View.WaitsEndpoint, hview]
    · exact hwoken.imp_right fun h => Ciad.wokenBy_append.mpr (.inl h)

end Limiter

end ConjureRuntime.Node
