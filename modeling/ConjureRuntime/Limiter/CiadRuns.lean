import ConjureRuntime.Limiter.CiadSequential

/-!
# Runs of the limiter

Along every run the total of the semaphore and the integer part of the limit
differ by what the updates in flight still have to add and to remove.  An
addition that comes late can let a removal find too few permits: the last
section gives such a run, and the condition under which there is none.
-/

namespace ConjureRuntime.Limiter.Ciad

open ConjureRuntime.Foundation

variable {ω : Type}

/-! ## The accepted updates -/

def acceptedUpdates (events : List (Event ω)) : List Update :=
  events.filterMap Event.accepted

def Update.applyAll (updates : List Update) (limit : ℚ) : Option ℚ :=
  updates.foldlM (fun limit update => update.apply limit) limit

theorem Update.applyAll_append (updates : List Update) (update : Update)
    (limit : ℚ) :
    applyAll (updates ++ [update]) limit =
      (applyAll updates limit).bind update.apply := by
  simp only [applyAll, List.foldlM_append, List.foldlM_cons,
    List.foldlM_nil, bind_pure]
  rfl

theorem Update.applyAll_inRange {updates : List Update} {limit limit' : ℚ}
    (h : InRange limit) (happly : applyAll updates limit = some limit') :
    InRange limit' := by
  induction updates generalizing limit with
  | nil =>
      simp only [applyAll, List.foldlM_nil, pure, Option.some.injEq] at happly
      exact happly ▸ h
  | cons update updates ih =>
      cases hfirst : update.apply limit with
      | none => simp [applyAll, hfirst] at happly
      | some mid =>
          refine ih (Update.apply_inRange h hfirst) ?_
          simpa [applyAll, hfirst] using happly

/-! ## The balance -/

def NoPanic (message : String) (events : List (Event ω)) : Prop :=
  ∀ event ∈ events, event.panic ≠ some (.expect message)

def NoPermitPanic (events : List (Event ω)) : Prop :=
  NoPanic "permit count overflow" events ∧
    NoPanic "permit count underflow" events

theorem noPanic_append {message : String} {events : List (Event ω)}
    {event : Event ω} :
    NoPanic message (events ++ [event]) ↔
      NoPanic message events ∧ event.panic ≠ some (.expect message) := by
  simp [NoPanic, or_imp, forall_and]

structure Accounted (events : List (Event ω)) (system : System ω)
    (queue : WaitQueue Nat ω) : Prop where
  represents : Represents system.limiter.semaphore queue
  balance : queue.totalPermits + system.pendingAdds + system.missedAdds =
    ⌊system.limiter.limit⌋₊ + system.pendingRemovals +
      system.missedRemovals
  limit : Update.applyAll (acceptedUpdates events) initialLimit =
    some system.limiter.limit
  missedAdds : NoPanic "permit count overflow" events →
    system.missedAdds = 0
  missedRemovals : NoPanic "permit count underflow" events →
    system.missedRemovals = 0

theorem new_accounted :
    Accounted [] (System.new ω) (WaitQueue.new Nat ω initialLimit) where
  represents := new_represents _
  balance := by
    simp [System.new, Ciad.new, System.pendingAdds, System.pendingRemovals,
      WaitQueue.new, Nat.floor_natCast]
  limit := rfl
  missedAdds _ := rfl
  missedRemovals _ := rfl

@[simp] theorem acceptedUpdates_append (events : List (Event ω))
    (event : Event ω) :
    acceptedUpdates (events ++ [event]) =
      acceptedUpdates events ++ event.accepted.toList := by
  simp only [acceptedUpdates, List.filterMap_append, List.filterMap_cons,
    List.filterMap_nil]
  cases event.accepted <;> rfl

theorem applyAll_accepted_none {events : List (Event ω)} {event : Event ω}
    (h : event.accepted = none) :
    Update.applyAll (acceptedUpdates (events ++ [event])) initialLimit =
      Update.applyAll (acceptedUpdates events) initialLimit := by
  simp [acceptedUpdates_append, h]

theorem Accounted.step {willWake : ω → ω → Bool} {events : List (Event ω)}
    {system system' : System ω} {queue : WaitQueue Nat ω} {event : Event ω}
    (h : Accounted events system queue)
    (hstep : System.Step willWake system event system') :
    ∃ queue', Accounted (events ++ [event]) system' queue' ∧
      System.Effect system queue event system' queue' := by
  obtain ⟨queue', hrep, heffect⟩ := System.step_effect h.represents hstep
  refine ⟨queue', ?_, heffect⟩
  have hbalance := h.balance
  rcases heffect with hquiet | hexchanged | ⟨call, old, new, hadjusted⟩
  · have htotal := hquiet.total
    have hadds := hquiet.adds
    have hremovals := hquiet.removals
    refine ⟨hrep, ?_, ?_, ?_, ?_⟩
    · rw [hquiet.limit, hquiet.missedAdds, hquiet.missedRemovals]
      omega
    · rw [applyAll_accepted_none hquiet.accepted, hquiet.limit, h.limit]
    · intro hpanic
      rw [hquiet.missedAdds, h.missedAdds (noPanic_append.mp hpanic).1]
    · intro hpanic
      rw [hquiet.missedRemovals,
        h.missedRemovals (noPanic_append.mp hpanic).1]
  · have htotal := hexchanged.total
    have hadds := hexchanged.adds
    have hremovals := hexchanged.removals
    obtain ⟨update, haccepted, happly⟩ := hexchanged.update
    refine ⟨hrep, ?_, ?_, ?_, ?_⟩
    · rw [hexchanged.missedAdds, hexchanged.missedRemovals]
      omega
    · rw [acceptedUpdates_append, haccepted, Option.toList_some,
        Update.applyAll_append, h.limit, Option.bind_some, happly]
    · intro hpanic
      rw [hexchanged.missedAdds, h.missedAdds (noPanic_append.mp hpanic).1]
    · intro hpanic
      rw [hexchanged.missedRemovals,
        h.missedRemovals (noPanic_append.mp hpanic).1]
  · have hadds := hadjusted.adds
    have hremovals := hadjusted.removals
    have hlimit : Update.applyAll (acceptedUpdates (events ++ [event]))
        initialLimit = some system'.limiter.limit := by
      rw [applyAll_accepted_none hadjusted.accepted, hadjusted.limit,
        h.limit]
    rcases hadjusted.result with
      ⟨hpanic, hmissed, hmissed', hfits, htotal⟩ |
      ⟨hpanic, hlt, htotal, hmissed, hmissed'⟩ |
      ⟨hpanic, hgt, hshort, htotal, hmissed, hmissed'⟩
    · refine ⟨hrep, ?_, hlimit, ?_, ?_⟩
      · rw [hadjusted.limit]
        omega
      · intro hnone
        rw [hmissed, h.missedAdds (noPanic_append.mp hnone).1]
      · intro hnone
        rw [hmissed', h.missedRemovals (noPanic_append.mp hnone).1]
    · refine ⟨hrep, ?_, hlimit, ?_, ?_⟩
      · rw [hadjusted.limit]
        omega
      · intro hnone
        exact absurd hpanic (noPanic_append.mp hnone).2
      · intro hnone
        rw [hmissed', h.missedRemovals (noPanic_append.mp hnone).1]
    · refine ⟨hrep, ?_, hlimit, ?_, ?_⟩
      · rw [hadjusted.limit]
        omega
      · intro hnone
        rw [hmissed, h.missedAdds (noPanic_append.mp hnone).1]
      · intro hnone
        exact absurd hpanic (noPanic_append.mp hnone).2

theorem run_accounted {willWake : ω → ω → Bool} {events : List (Event ω)}
    {system : System ω}
    (run : Run (System.Step willWake) (System.new ω) events system) :
    ∃ queue, Accounted events system queue := by
  refine run.invariant
    (fun events system => ∃ queue, Accounted events system queue)
    ⟨_, new_accounted⟩ ?_
  rintro events system event system' ⟨queue, h⟩ hstep
  obtain ⟨queue', h', -⟩ := h.step hstep
  exact ⟨queue', h'⟩

theorem Accounted.inRange {events : List (Event ω)} {system : System ω}
    {queue : WaitQueue Nat ω} (h : Accounted events system queue) :
    InRange system.limiter.limit :=
  Update.applyAll_inRange initialLimit_inRange h.limit

/-! ## Limit and semaphore stay in step -/

/-- No update is between its compare-and-exchange and its adjustment. -/
def Settled (system : System ω) : Prop :=
  ∀ call ∈ system.calls, ∀ oldLimit newLimit,
    call ≠ .adjusting oldLimit newLimit

theorem Settled.pending {system : System ω} (h : Settled system) :
    system.pendingAdds = 0 ∧ system.pendingRemovals = 0 := by
  constructor
  · refine List.sum_eq_zero fun owed howed => ?_
    obtain ⟨call, hcall, rfl⟩ := List.mem_map.mp howed
    cases call with
    | adjusting oldLimit newLimit => exact absurd rfl (h _ hcall _ _)
    | _ => rfl
  · refine List.sum_eq_zero fun owed howed => ?_
    obtain ⟨call, hcall, rfl⟩ := List.mem_map.mp howed
    cases call with
    | adjusting oldLimit newLimit => exact absurd rfl (h _ hcall _ _)
    | _ => rfl

def acquireOps (call : Nat) : List (Op Unit) :=
  [.acquire, .poll call (), .count call]

def updateOps (call : Nat) (mode : Mode) : List (Op Unit) :=
  [.respond call mode, .drop call, .load call, .exchange call]

def finishOps (call : Nat) : List (Op Unit) := [.adjust call, .release call]

theorem failure_run :
    ∃ events system,
      Run (System.Step fun _ _ => true) (System.new Unit) events system ∧
      (∀ event ∈ events, event.panic = none) ∧
      system.limiter.limit = 18 ∧
      system.limiter.semaphore.totalPermits = 18 := by
  have h : (exec (System.next fun _ _ => true) (System.new Unit)
      (acquireOps 0 ++ updateOps 0 .dropped ++ finishOps 0)).map
        (fun result => (result.2.limiter.limit,
          result.2.limiter.semaphore.totalPermits,
          result.1.all fun event => event.panic = none)) =
      some (18, 18, true) := by
    decide +kernel
  obtain ⟨⟨events, system⟩, hexec, hresult⟩ := Option.map_eq_some_iff.mp h
  simp only [Prod.mk.injEq, List.all_eq_true, decide_eq_true_eq] at hresult
  obtain ⟨hlimit, htotal, hpanic⟩ := hresult
  exact ⟨events, system, exec_run System.next_step hexec, hpanic, hlimit,
    htotal⟩

theorem limit_and_semaphore_in_step {willWake : ω → ω → Bool}
    {events : List (Event ω)} {system : System ω}
    (run : Run (System.Step willWake) (System.new ω) events system)
    (hpanic : NoPermitPanic events) :
    system.limiter.semaphore.totalPermits + system.pendingAdds =
        ⌊system.limiter.limit⌋₊ + system.pendingRemovals ∧
      Update.applyAll (acceptedUpdates events) initialLimit =
        some system.limiter.limit ∧
      (1 ≤ system.limiter.limit ∧ system.limiter.limit ≤ 1000000) ∧
      (Settled system →
        system.limiter.semaphore.totalPermits =
            ⌊system.limiter.limit⌋₊ ∧
          1 ≤ system.limiter.semaphore.totalPermits) := by
  obtain ⟨queue, h⟩ := run_accounted run
  obtain ⟨hlower, hupper⟩ := h.inRange
  have hmissed := h.missedAdds hpanic.1
  have hmissed' := h.missedRemovals hpanic.2
  have htotal := h.represents.total
  have hbalance := h.balance
  have hone : 1 ≤ system.limiter.limit := by simpa [minLimit] using hlower
  refine ⟨by omega, h.limit, ⟨hone, by simpa [maxLimit] using hupper⟩, ?_⟩
  intro hsettled
  obtain ⟨hadds, hremovals⟩ := hsettled.pending
  have hfloor : 1 ≤ ⌊system.limiter.limit⌋₊ := Nat.floor_pos.mpr hone
  omega

theorem failure_removes_two_permits :
    ∃ events system,
      Run (System.Step fun _ _ => true) (System.new Unit) events system ∧
      NoPermitPanic events ∧ system.limiter.limit = 18 ∧
      system.limiter.semaphore.totalPermits + system.pendingAdds =
        ⌊system.limiter.limit⌋₊ + system.pendingRemovals := by
  obtain ⟨events, system, run, hpanic, hlimit, -⟩ := failure_run
  have hnone : NoPermitPanic events := by
    constructor <;> intro event hevent <;> simp [hpanic event hevent]
  exact ⟨events, system, run, hnone, hlimit,
    (limit_and_semaphore_in_step run hnone).1⟩

/-! ## Removals that the total covers -/

/-- When a removal is about to be made, the additions that other updates
still owe are at most the limit and the removals that others still owe. -/
def RemovalCovered (system : System ω) (op : Op ω) : Prop :=
  ∀ call oldLimit newLimit, op = .adjust call →
    system.calls[call]? = some (.adjusting oldLimit newLimit) →
    newLimit < oldLimit →
    system.pendingAdds + system.missedAdds ≤
      ⌊system.limiter.limit⌋₊ +
        (system.pendingRemovals - (oldLimit - newLimit))

def CoveredStep (willWake : ω → ω → Bool) (system : System ω)
    (event : Event ω) (system' : System ω) : Prop :=
  System.Step willWake system event system' ∧
    RemovalCovered system event.op

theorem Accounted.underflows_iff {events : List (Event ω)}
    {system system' : System ω} {queue queue' : WaitQueue Nat ω}
    {event : Event ω} (h : Accounted events system queue)
    (hprior : NoPanic "permit count underflow" events)
    (heffect : System.Effect system queue event system' queue') :
    event.panic ≠ some (.expect "permit count underflow") ↔
      RemovalCovered system event.op := by
  have hbalance := h.balance
  have hmissed := h.missedRemovals hprior
  rcases heffect with hquiet | hexchanged | ⟨call, old, new, hadjusted⟩
  · constructor
    · intro _ call _ _ hop
      exact absurd hop (hquiet.notAdjust call)
    · intro _
      exact hquiet.panic _
  · constructor
    · intro _ call _ _ hop
      exact absurd hop (hexchanged.notAdjust call)
    · intro _
      simp [hexchanged.panic]
  · have hremovals := hadjusted.removals
    have hsame : ∀ {call' old' new' : Nat}, event.op = .adjust call' →
        system.calls[call']? = some (.adjusting old' new') →
        old = old' ∧ new = new' := by
      intro call' old' new' hop hcall'
      obtain rfl : call = call' := by simpa [hadjusted.op] using hop
      simpa [hadjusted.adjusting] using hcall'
    rcases hadjusted.result with
      ⟨hpanic, -, -, hfits, -⟩ | ⟨hpanic, hlt, -⟩ |
      ⟨hpanic, hgt, hshort, -⟩
    · constructor
      · rintro - call' old' new' hop hcall' hlt'
        obtain ⟨rfl, rfl⟩ := hsame hop hcall'
        omega
      · simp [hpanic]
    · constructor
      · rintro - call' old' new' hop hcall' hlt'
        obtain ⟨rfl, rfl⟩ := hsame hop hcall'
        omega
      · simp [hpanic]
    · constructor
      · intro hne
        exact absurd hpanic hne
      · intro hcovered
        have := hcovered call old new hadjusted.op hadjusted.adjusting hgt
        omega

/-- No removal of a run underflows if and only if every one of them is
covered in the state in which it is made. -/
theorem never_underflows_iff_removals_covered {willWake : ω → ω → Bool}
    {events : List (Event ω)} {system : System ω}
    (run : Run (System.Step willWake) (System.new ω) events system) :
    NoPanic "permit count underflow" events ↔
      Run (CoveredStep willWake) (System.new ω) events system := by
  constructor
  · intro hpanic
    induction run with
    | refl => exact .refl
    | step run hstep ih =>
        obtain ⟨hprior, hevent⟩ := noPanic_append.mp hpanic
        obtain ⟨queue, h⟩ := run_accounted run
        obtain ⟨queue', -, heffect⟩ := h.step hstep
        exact .step (ih hprior)
          ⟨hstep, (h.underflows_iff hprior heffect).mp hevent⟩
  · intro covered
    clear run
    induction covered with
    | refl => simp [NoPanic]
    | step covered hstep ih =>
        have run := covered.mono fun h => h.1
        obtain ⟨queue, h⟩ := run_accounted run
        obtain ⟨queue', -, heffect⟩ := h.step hstep.1
        exact noPanic_append.mpr
          ⟨ih, (h.underflows_iff ih heffect).mpr hstep.2⟩

theorem removal_after_failure_is_covered :
    ∃ events system,
      Run (CoveredStep fun _ _ => true) (System.new Unit) events system ∧
      system.limiter.semaphore.totalPermits = 18 := by
  obtain ⟨events, system, run, hpanic, -, htotal⟩ := failure_run
  refine ⟨events, system, ?_, htotal⟩
  refine (never_underflows_iff_removals_covered run).mp ?_
  intro event hevent
  simp [hpanic event hevent]

/-! ## A run in which a removal finds too few permits -/

section underflow

open Ciad.System

variable {willWake : ω → ω → Bool} {system : System ω}
  {call total limit permitsOut inFlight inFlightSnapshot : Nat}

def idle (ω : Type) (total limit permitsOut inFlight : Nat) : Ciad ω :=
  ⟨{ State.new Nat ω total with outstandingPermits := permitsOut }, limit,
    inFlight⟩

def lowered (limit : Nat) : Nat := max minLimit (limit * 9 / 10)

theorem apply_dropped (limit : Nat) :
    Update.dropped.apply limit = some (lowered limit : ℚ) := by
  have hfloor : ⌊(limit : ℚ) * backoffRatio⌋ = ((limit * 9 / 10 : ℕ) : ℤ) := by
    have hratio : (limit : ℚ) * backoffRatio = (limit * 9 : ℕ) / (10 : ℕ) := by
      rw [backoffRatio]
      push_cast
      ring
    rw [hratio, Rat.floor_natCast_div_natCast]
    norm_cast
  simp only [Update.apply, hfloor, lowered, Int.cast_natCast, Nat.cast_max]

theorem pollAcquire_idle (waker : ω) (h : permitsOut < total) :
    (idle ω total limit permitsOut inFlight).pollAcquire willWake call waker =
      .ok ((some (inFlight + 1), none),
        idle ω total limit (permitsOut + 1) (inFlight + 1)) := by
  have hpoll : (poll willWake call waker).run
      (idle ω total limit permitsOut inFlight).semaphore =
      .ok (.ready, none)
        (idle ω total limit (permitsOut + 1) inFlight).semaphore := by
    have hfree : (State.hasPermits
        (idle ω total limit permitsOut inFlight).semaphore) = true :=
      decide_eq_true h
    rw [poll, get_bind_run, if_pos (by rw [hfree]; rfl)]
    rfl
  simp only [pollAcquire, locked, hpoll]
  rfl

theorem maybeWake_idle :
    Limiter.maybeWake.run (idle ω total limit permitsOut inFlight).semaphore =
      .ok none (idle ω total limit permitsOut inFlight).semaphore := by
  rw [Limiter.maybeWake, get_bind_run]
  split <;> rfl

theorem release_idle :
    locked Limiter.dropPermit (idle ω total limit (permitsOut + 1) inFlight) =
      .ok (none, idle ω total limit permitsOut inFlight) := by
  have hrun : Limiter.dropPermit.run
      (idle ω total limit (permitsOut + 1) inFlight).semaphore =
      .ok none (idle ω total limit permitsOut inFlight).semaphore := by
    rw [Limiter.dropPermit, get_bind_run]
    exact maybeWake_idle
  simp only [locked, hrun]
  rfl

theorem lowered_le (h : 1 ≤ limit) : lowered limit ≤ limit :=
  max_le h (by omega)

theorem removePermits_idle {permits : Nat} (h : permits ≤ total) :
    locked (removePermits permits)
        (idle ω total limit permitsOut inFlight) =
      .ok ((), idle ω (total - permits) limit permitsOut inFlight) := by
  have hrun : (removePermits permits).run
      (idle ω total limit permitsOut inFlight).semaphore =
      .ok () (idle ω (total - permits) limit permitsOut
        inFlight).semaphore := by
    have hchecked : checkedSub
        (idle ω total limit permitsOut inFlight).semaphore.totalPermits
        permits = some (total - permits) := if_pos h
    rw [removePermits, get_bind_run, hchecked]
    rfl
  simp only [locked, hrun]
  rfl

theorem updateLimit_idle (hlimit : 1 ≤ limit)
    (h : limit - lowered limit ≤ total) :
    (idle ω total limit permitsOut inFlight).updateLimit .dropped =
      .ok (none, idle ω (total - (limit - lowered limit)) (lowered limit)
        permitsOut inFlight) := by
  have hremove : locked (removePermits (limit - lowered limit))
      (idle ω total (lowered limit) permitsOut inFlight) = _ :=
    removePermits_idle h
  have hlimits : (idle ω total limit permitsOut inFlight).limit = limit := rfl
  have hle := lowered_le hlimit
  simp only [updateLimit, hlimits, apply_dropped, Nat.floor_natCast,
    if_neg (Nat.not_lt.mpr hle)]
  split
  next =>
    exact congrArg (· >>= fun result => .ok (none, result.2)) hremove
  next hsame =>
    rw [Nat.le_antisymm hle (Nat.le_of_not_lt hsame), Nat.sub_self]
    rfl

section goes

variable (hcall : call < system.calls.length)
include hcall

theorem lowers_goes :
    Goes willWake system call (idle ω total limit permitsOut inFlight)
      (.holding inFlightSnapshot .ignore)
      (idle ω total (lowered limit) permitsOut (inFlight - 1))
      (.adjusting limit (lowered limit)) := by
  have hexchange : Goes willWake system call
      (idle ω total limit permitsOut (inFlight - 1)) _ _ _ :=
    exchange_goes hcall (apply_dropped limit)
  refine (respond_goes hcall _ .dropped).trans
    ((drop_goes hcall _ .dropped).trans ((load_goes hcall _).trans ?_))
  simpa [idle, Nat.floor_natCast] using hexchange

theorem raises_goes :
    Goes willWake system call (idle ω total 1 permitsOut inFlight)
      (.holding inFlightSnapshot .ignore)
      (idle ω total 2 permitsOut (inFlight - 1)) (.adjusting 1 2) := by
  have happly : (Update.success inFlightSnapshot).apply 1 = some 2 := by
    have hfloor : ⌊(1 : ℚ) * backoffRatio⌋₊ = 0 := by
      rw [Nat.floor_eq_zero]
      norm_num [backoffRatio]
    rw [Update.apply, if_pos (hfloor ▸ Nat.zero_le _)]
    norm_num [maxLimit]
  have hexchange : Goes willWake system call
      (idle ω total 1 permitsOut (inFlight - 1)) _ _ _ :=
    exchange_goes hcall happly
  refine (respond_goes hcall _ .success).trans
    ((drop_goes hcall _ .success).trans ((load_goes hcall _).trans ?_))
  simpa [idle, Nat.floor_natCast] using hexchange

theorem failure_goes (hlimit : 1 ≤ limit)
    (hcovered : limit - lowered limit ≤ total) :
    Goes willWake system call (idle ω total limit (permitsOut + 1) inFlight)
      (.holding inFlightSnapshot .ignore)
      (idle ω (total - (limit - lowered limit)) (lowered limit) permitsOut
        (inFlight - 1)) .released := by
  have hupdate : (idle ω total limit (permitsOut + 1)
      (inFlight - 1)).updateLimit .dropped = _ :=
    updateLimit_idle hlimit hcovered
  exact (respond_goes hcall _ .dropped).trans
    ((drop_goes hcall _ .dropped).trans
      ((updateLimit_goes hcall hupdate).trans
        (release_goes hcall release_idle)))

end goes

theorem goes_run {limiter limiter' : Ciad ω} {state state' : Call}
    (hlimiter : system.limiter = limiter)
    (hcall : system.calls[call]? = some state)
    (h : call < system.calls.length →
      Goes willWake system call limiter state limiter' state') :
    ∃ events system', Run (System.Step willWake) system events system' ∧
      system'.limiter = limiter' ∧
      system'.calls = system.calls.set call state' := by
  subst hlimiter
  have hgoes := h (List.getElem?_eq_some_iff.mp hcall).1
  obtain ⟨events, run⟩ := hgoes.run hcall
  exact ⟨events, _, run, rfl, rfl⟩

theorem acquires_run (waker : ω)
    (hlimiter : system.limiter = idle ω total limit permitsOut inFlight)
    (h : permitsOut < total) :
    ∃ events system', Run (System.Step willWake) system events system' ∧
      system'.limiter = idle ω total limit (permitsOut + 1) (inFlight + 1) ∧
      system'.calls =
        system.calls ++ [.holding (inFlight + 1) .ignore] := by
  have hacquire : system.next willWake .acquire =
    some (⟨.acquire, none, none⟩,
      { system with calls := system.calls ++ [.acquiring] }) := rfl
  have hcall : (system.calls ++ [.acquiring])[system.calls.length]? =
      some .acquiring := by simp
  obtain ⟨events, system', run, hlimiter', hcalls⟩ : ∃ events system',
      Run (System.Step willWake)
        { system with calls := system.calls ++ [.acquiring] } events system' ∧
        _ :=
    goes_run hlimiter hcall fun hcall =>
      pollAcquire_goes hcall (pollAcquire_idle waker h)
  exact ⟨_, system', (Run.refl.step (next_step hacquire)).trans run,
    hlimiter', by simpa using hcalls⟩

theorem acquire_run (waker : ω) {permits : Nat}
    (h : permits ≤ initialLimit) :
    ∃ events system,
      Run (System.Step willWake) (System.new ω) events system ∧
      system.limiter =
        idle ω initialLimit initialLimit permits permits ∧
      system.calls =
        (List.range permits).map fun call => .holding (call + 1) .ignore := by
  induction permits with
  | zero => exact ⟨[], _, .refl, rfl, rfl⟩
  | succ permits ih =>
      obtain ⟨events, system, run, hlimiter, hcalls⟩ :=
        ih (Nat.le_of_succ_le h)
      obtain ⟨later, system', run', hlimiter', hcalls'⟩ : ∃ later system',
          Run (System.Step willWake) system later system' ∧ _ :=
        acquires_run waker hlimiter h
      refine ⟨_, system', run.trans run', hlimiter', ?_⟩
      rw [hcalls', hcalls, List.range_succ, List.map_append]
      rfl

def HeldFrom (system : System ω) (call permits : Nat) : Prop :=
  ∀ other, call ≤ other → other < permits →
    system.calls[other]? = some (.holding (other + 1) .ignore)

theorem HeldFrom.next {permits : Nat} {limiter limiter' : Ciad ω}
    {state : Call} (hheld : HeldFrom system call permits)
    (hlimiter : system.limiter = limiter) (hlt : call < permits)
    (h : call < system.calls.length →
      Goes willWake system call limiter (.holding (call + 1) .ignore)
        limiter' state) :
    ∃ events system', Run (System.Step willWake) system events system' ∧
      system'.limiter = limiter' ∧ system'.calls[call]? = some state ∧
      HeldFrom system' (call + 1) permits := by
  have hcall := hheld call le_rfl hlt
  obtain ⟨events, system', run, hlimiter', hcalls⟩ :=
    goes_run hlimiter hcall h
  refine ⟨events, system', run, hlimiter', ?_, fun other hle hother => ?_⟩
  · rw [hcalls]
    exact List.getElem?_set_self (List.getElem?_eq_some_iff.mp hcall).1
  · rw [hcalls, List.getElem?_set_ne (by omega)]
    exact hheld other (by omega) hother

theorem one_le_lowered_iterate (failures : Nat) :
    1 ≤ lowered^[failures] initialLimit := by
  cases failures with
  | zero => decide
  | succ failures =>
      rw [Function.iterate_succ_apply']
      exact le_max_left ..

theorem failures_run (waker : ω) (failures permits : Nat)
    (hpermits : permits ≤ initialLimit) (h : failures ≤ permits) :
    ∃ events system,
      Run (System.Step willWake) (System.new ω) events system ∧
      system.limiter = idle ω (lowered^[failures] initialLimit)
        (lowered^[failures] initialLimit) (permits - failures)
        (permits - failures) ∧
      HeldFrom system failures permits := by
  induction failures with
  | zero =>
      obtain ⟨events, system, run, hlimiter, hcalls⟩ : ∃ events system,
          Run (System.Step willWake) _ events system ∧ _ :=
        acquire_run waker hpermits
      refine ⟨events, system, run, hlimiter, fun call _ hcall => ?_⟩
      simp [hcalls, hcall]
  | succ failures ih =>
      obtain ⟨events, system, run, hlimiter, hheld⟩ :=
        ih (Nat.le_of_succ_le h)
      have hpositive := one_le_lowered_iterate failures
      have hone : permits - failures = permits - (failures + 1) + 1 := by
        omega
      rw [hone] at hlimiter
      obtain ⟨later, system', run', hlimiter', -, hheld'⟩ : ∃ later system',
          Run (System.Step willWake) system later system' ∧ _ :=
        hheld.next hlimiter h fun hcall =>
          failure_goes hcall hpositive (Nat.sub_le _ _)
      refine ⟨_, system', run.trans run', ?_, hheld'⟩
      rw [hlimiter', Function.iterate_succ_apply',
        Nat.sub_sub_self (lowered_le hpositive), Nat.add_sub_cancel]

theorem adjust_underflows {old new : Nat}
    (hcall : system.calls[call]? = some (.adjusting old new))
    (hlt : new < old)
    (htotal : system.limiter.semaphore.totalPermits < old - new) :
    ∃ system', System.Step willWake system
        ⟨.adjust call, none, some (.expect "permit count underflow")⟩ system' ∧
      system'.limiter = system.limiter := by
  have hrun := removePermits_underflow htotal
  simp only [System.Step, System.next, hcall, adjust,
    if_neg (Nat.lt_asymm hlt), if_pos hlt, onSemaphore, hrun]
  exact ⟨_, rfl, rfl⟩

/-- Of 18 permits 14 bring the limit down to 1.  Two successes then raise it
to 2 but do not get to add their permit, while a failure after each of them
brings it back to 1 and removes a permit at once. -/
theorem overtaken_additions_underflow :
    ∃ events system,
      Run (System.Step fun _ _ => true) (System.new Unit) events system ∧
      system.limiter.limit = 1 ∧
      system.limiter.semaphore.totalPermits = 0 ∧
      ¬ NoPanic "permit count underflow" events := by
  obtain ⟨_, failed, run, hlimiter, hheld⟩ : ∃ events failed,
      Run (System.Step fun _ _ => true) _ events failed ∧ _ :=
    failures_run () 14 18 (by decide) (by decide)
  obtain ⟨_, raised, run₁, hlimiter₁, -, hheld₁⟩ : ∃ events raised,
      Run (System.Step fun _ _ => true) failed events raised ∧
        raised.limiter = idle Unit 1 2 4 3 ∧ _ :=
    hheld.next hlimiter (by decide) raises_goes
  obtain ⟨_, lowered, run₂, hlimiter₂, -, hheld₂⟩ : ∃ events lowered,
      Run (System.Step fun _ _ => true) raised events lowered ∧
        lowered.limiter = idle Unit 0 1 3 2 ∧ _ :=
    hheld₁.next hlimiter₁ (by decide) fun hcall =>
      failure_goes hcall (by decide) (by decide)
  obtain ⟨_, again, run₃, hlimiter₃, -, hheld₃⟩ : ∃ events again,
      Run (System.Step fun _ _ => true) lowered events again ∧
        again.limiter = idle Unit 0 2 3 1 ∧ _ :=
    hheld₂.next hlimiter₂ (by decide) raises_goes
  obtain ⟨_, last, run₄, hlimiter₄, hcall₄, -⟩ : ∃ events last,
      Run (System.Step fun _ _ => true) again events last ∧
        last.limiter = idle Unit 0 1 3 0 ∧ _ :=
    hheld₃.next hlimiter₃ (by decide) lowers_goes
  have htotal : last.limiter.semaphore.totalPermits < 1 := by
    rw [hlimiter₄]
    decide
  obtain ⟨system, hstep, hlimiter⟩ :=
    adjust_underflows hcall₄ (by decide) htotal
  refine ⟨_, system, ((((run.trans run₁).trans run₂).trans run₃).trans
    run₄).step hstep, ?_, ?_, ?_⟩
  · rw [hlimiter, hlimiter₄]
    rfl
  · rw [hlimiter, hlimiter₄]
    rfl
  · intro hnone
    exact hnone _
      (List.mem_append_right _ (List.mem_singleton_self _)) rfl

end underflow

end ConjureRuntime.Limiter.Ciad
