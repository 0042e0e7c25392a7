import ConjureRuntime.Foundation.History
import ConjureRuntime.Foundation.ListSum
import ConjureRuntime.Foundation.Transition
import ConjureRuntime.Node.Reservoir
import Mathlib.Algebra.Field.Rat
import Mathlib.Algebra.Group.Nat.Defs

/-!
# Overlapping calls of the reservoir

A call reads the clock first and the time of the last decay after that.  As
long as no other call moves that time past the reading in between, the time
only moves forward, by whole intervals, and no interval is decayed twice.
A reading that `as u64` cuts off may lie behind the last decay from the start.
-/

namespace ConjureRuntime.Node.CoarseExponentialDecayReservoir

open ConjureRuntime.Foundation ConjureRuntime.Service

/-! ## The arithmetic of one call -/

theorem bmod_le_self (n m : Nat) : Int.bmod n m ≤ n := by
  have hmod : (n : Int) % m ≤ n := by
    exact_mod_cast Nat.mod_le n m
  rw [Int.bmod_def]
  split
  · exact hmod
  · exact le_trans (Int.sub_le_self _ (Int.natCast_nonneg m)) hmod

theorem asI32_le (n : Nat) : asI32 n ≤ n := bmod_le_self n (2 ^ 32)

theorem dueDecays_some {overflowChecks : Bool}
    {interval nowNanos snapshot decays newDecayNanos : Nat}
    (hnow : nowNanos < 2 ^ 64) (hsnapshot : snapshot ≤ nowNanos)
    (h : dueDecays overflowChecks interval nowNanos snapshot =
      .ok (some (decays, newDecayNanos))) :
    0 < interval ∧ newDecayNanos = snapshot + decays * interval ∧
      newDecayNanos ≤ nowNanos := by
  have hinterval : interval ≠ 0 := by
    rintro rfl
    simp [dueDecays, subU64, hsnapshot, divU64, bind, Except.bind] at h
  have hfloor : (nowNanos - snapshot) / interval * interval ≤
      nowNanos - snapshot := Nat.div_mul_le_self _ _
  have hnanos : (nowNanos - snapshot) / interval * interval < 2 ^ 64 := by
    omega
  have hnew : snapshot + (nowNanos - snapshot) / interval * interval <
      2 ^ 64 := by omega
  simp only [dueDecays, subU64, hsnapshot, if_true, divU64, hinterval,
    if_false, fitU64, hnanos, hnew, bind, Except.bind, pure,
    Except.pure] at h
  split at h
  · cases h
  · simp only [Except.ok.injEq, Option.some.injEq, Prod.mk.injEq] at h
    obtain ⟨rfl, rfl⟩ := h
    exact ⟨Nat.pos_of_ne_zero hinterval, rfl, by omega⟩

/-! ## What a step does -/

variable {α : Type} [Field α]

namespace Event

def InOrder : Event α → Prop
  | .loaded _ nowNanos snapshot => snapshot ≤ nowNanos
  | _ => True

/-- The call reads the clock, and the reading is not cut off. -/
def ReadsClock (call : Nat) : Event α → Prop
  | .clockRead reader elapsedNanos => reader = call ∧ elapsedNanos < 2 ^ 64
  | _ => False

def StoresPast (nowNanos : Nat) : Event α → Prop
  | .exchanged _ (some newDecayNanos) => nowNanos < newDecayNanos
  | _ => False

def lastAfter (lastDecayNanos : Nat) : Event α → Nat
  | .exchanged _ (some newDecayNanos) => newDecayNanos
  | _ => lastDecayNanos

end Event

/-- Since the call read the clock, another one has moved the last decay past
that reading; for a reading that was cut off, this may have been before. -/
def Overtaken (call nowNanos : Nat) (events : List (Event α)) : Prop :=
  Since (Event.StoresPast nowNanos) (Event.ReadsClock call) events

def NotOvertaken (events : List (Event α)) : Prop :=
  ∀ call nowNanos snapshot,
    AtEach (· = .loaded call nowNanos snapshot)
      (fun past => ¬ Overtaken call nowNanos past) events

namespace System

variable {overflowChecks : Bool} {decayFactor : α} {system system' : System α}
  {event : Event α}

omit [Field α] in
theorem getElem?_setCall {call other : Nat} {state state' : Call α}
    (h : (system.setCall call state).calls[other]? = some state') :
    (other ≠ call ∧ system.calls[other]? = some state') ∨
      (other = call ∧ state' = state) :=
  (getElem?_set_cases h).symm

def Effect (overflowChecks : Bool) (decayFactor : α) (system : System α)
    (event : Event α) (system' : System α) : Prop :=
  match event with
  | .called => ∃ operation, system' =
      { system with calls := system.calls ++ [.starting operation] }
  | .clockRead call elapsedNanos => ∃ operation,
      system.calls[call]? = some (.starting operation) ∧
      system.clock ≤ elapsedNanos ∧
      system' = { system.setCall call
          (.clockRead operation (elapsedNanos % 2 ^ 64)) with
        clock := elapsedNanos }
  | .loaded call nowNanos snapshot => ∃ operation,
      system.calls[call]? = some (.clockRead operation nowNanos) ∧
      snapshot = system.reservoir.lastDecayNanos ∧
      system' = system.setCall call (.afterLoad overflowChecks operation
        system.reservoir.decayIntervalNanos nowNanos snapshot)
  | .exchanged call (some newDecayNanos) => ∃ operation snapshot decays,
      system.calls[call]? =
        some (.exchanging operation snapshot decays newDecayNanos) ∧
      system.reservoir.lastDecayNanos = snapshot ∧
      system' = { system.setCall call (.decaying operation (asI32 decays))
        with reservoir := { system.reservoir with
          lastDecayNanos := newDecayNanos } }
  | .exchanged call none =>
      ∃ operation snapshot decays newDecayNanos,
      system.calls[call]? =
        some (.exchanging operation snapshot decays newDecayNanos) ∧
      system' = system.setCall call (.decayed operation)
  | .decayed call decays => ∃ operation,
      system.calls[call]? = some (.decaying operation decays) ∧
      system' = { system.setCall call (.decayed operation) with
        reservoir := system.reservoir.decay decayFactor decays
        applied := system.applied + decays }
  | .returned call result => ∃ operation,
      system.calls[call]? = some (.decayed operation) ∧
      result = (operation.apply system.reservoir).1 ∧
      system' = { system.setCall call (.returned result) with
        reservoir := (operation.apply system.reservoir).2 }

theorem Step.effect
    (h : Step overflowChecks decayFactor system event system') :
    Effect overflowChecks decayFactor system event system' := by
  obtain ⟨op, h⟩ := h
  cases op with
  | call operation =>
      cases h
      exact ⟨operation, rfl⟩
  | readClock call elapsedNanos =>
      simp only [next] at h
      split at h
      next operation hcall =>
        split at h
        next hclock =>
          cases h
          exact ⟨operation, hcall, hclock, rfl⟩
        next => cases h
      next => cases h
  | load call =>
      simp only [next] at h
      split at h
      next operation nowNanos hcall =>
        cases h
        exact ⟨operation, hcall, rfl, rfl⟩
      next => cases h
  | exchange call =>
      simp only [next] at h
      split at h
      next operation snapshot decays newDecayNanos hcall =>
        split at h
        next hlast =>
          cases h
          exact ⟨operation, snapshot, decays, hcall, hlast, rfl⟩
        next =>
          cases h
          exact ⟨operation, snapshot, decays, newDecayNanos, hcall, rfl⟩
      next => cases h
  | decay call =>
      simp only [next] at h
      split at h
      next operation decays hcall =>
        cases h
        exact ⟨operation, hcall, rfl⟩
      next => cases h
  | finish call =>
      simp only [next] at h
      split at h
      next operation hcall =>
        cases h
        exact ⟨operation, hcall, rfl, rfl⟩
      next => cases h

/-! ## What the calls have agreed on -/

def CallHolds (system : System α) : Call α → Prop
  | .clockRead _ nowNanos =>
      nowNanos ≤ system.clock ∧ nowNanos < 2 ^ 64
  | .exchanging _ snapshot decays newDecayNanos =>
      0 < system.reservoir.decayIntervalNanos ∧
      newDecayNanos =
        snapshot + decays * system.reservoir.decayIntervalNanos ∧
      newDecayNanos ≤ system.clock
  | _ => True

/-- The time of the last decay is a whole number of intervals, no later than
the clock, and as many decays were applied or are about to be. -/
structure Invariant (system : System α) : Prop where
  call : ∀ {call : Nat} {state : Call α},
    system.calls[call]? = some state → system.CallHolds state
  withinClock : system.reservoir.lastDecayNanos ≤ system.clock
  whole : system.reservoir.decayIntervalNanos ∣
    system.reservoir.lastDecayNanos
  bounded : system.applied + system.pending ≤
    (system.reservoir.lastDecayNanos /
      system.reservoir.decayIntervalNanos : Nat)

omit [Field α] in
theorem CallHolds.later {state : Call α} (h : system.CallHolds state)
    (hclock : system.clock ≤ system'.clock)
    (hinterval : system'.reservoir.decayIntervalNanos =
      system.reservoir.decayIntervalNanos) :
    system'.CallHolds state := by
  cases state with
  | clockRead operation nowNanos => exact ⟨h.1.trans hclock, h.2⟩
  | exchanging operation snapshot decays newDecayNanos =>
      simp only [CallHolds, hinterval]
      exact ⟨h.1, h.2.1, h.2.2.trans hclock⟩
  | starting | decaying | decayed | returned | panicked => trivial

omit [Field α] in
theorem Invariant.calls {call other : Nat} {state' : Call α}
    (h : system.Invariant) (state : Call α)
    (hcalls : system'.calls = (system.setCall call state).calls)
    (hclock : system.clock ≤ system'.clock)
    (hinterval : system'.reservoir.decayIntervalNanos =
      system.reservoir.decayIntervalNanos)
    (hstate : system'.CallHolds state)
    (hother : system'.calls[other]? = some state') :
    system'.CallHolds state' := by
  rw [hcalls] at hother
  rcases getElem?_setCall hother with ⟨-, hother⟩ | ⟨-, rfl⟩
  · exact (h.call hother).later hclock hinterval
  · exact hstate

omit [Field α] in
theorem pending_setCall {call : Nat} {old : Call α}
    (h : system.calls[call]? = some old) (state : Call α) :
    (system.setCall call state).pending =
      system.pending - old.pending + state.pending := by
  have := sum_map_set h state Call.pending
  simp only [pending, setCall_calls]
  omega

omit [Field α] in
theorem Invariant.set {call : Nat} {old : Call α} (h : system.Invariant)
    (hcall : system.calls[call]? = some old) (state : Call α)
    (hcalls : system'.calls = (system.setCall call state).calls)
    (hclock : system.clock ≤ system'.clock)
    (hlast : system'.reservoir.lastDecayNanos =
      system.reservoir.lastDecayNanos)
    (hinterval : system'.reservoir.decayIntervalNanos =
      system.reservoir.decayIntervalNanos)
    (hdecays : system'.applied + state.pending =
      system.applied + old.pending)
    (hstate : system'.CallHolds state) : system'.Invariant where
  call hother := h.calls state hcalls hclock hinterval hstate hother
  withinClock := by
    rw [hlast]
    exact h.withinClock.trans hclock
  whole := by
    rw [hlast, hinterval]
    exact h.whole
  bounded := by
    have hsame : system'.pending = (system.setCall call state).pending := by
      simp only [pending, hcalls]
    have hpending := pending_setCall hcall state
    have hbounded := h.bounded
    rw [hlast, hinterval]
    omega

theorem Invariant.new (halfLife : Duration) :
    (System.new α halfLife).Invariant where
  call := by simp [System.new]
  withinClock := Nat.le_refl 0
  whole := Nat.dvd_zero _
  bounded := by
    simp [System.new, CoarseExponentialDecayReservoir.new, pending]

omit [Field α] in
theorem afterLoad_holds (overflowChecks : Bool) {operation : Operation α}
    {nowNanos : Nat}
    (hread : system.CallHolds (.clockRead operation nowNanos))
    (horder : system.reservoir.lastDecayNanos ≤ nowNanos) :
    system.CallHolds (.afterLoad overflowChecks operation
      system.reservoir.decayIntervalNanos nowNanos
      system.reservoir.lastDecayNanos) ∧
    (Call.afterLoad overflowChecks operation
      system.reservoir.decayIntervalNanos nowNanos
      system.reservoir.lastDecayNanos).pending = 0 := by
  unfold Call.afterLoad
  split
  · exact ⟨trivial, rfl⟩
  · exact ⟨trivial, rfl⟩
  · rename_i decays newDecayNanos hdue
    obtain ⟨hpos, hnew, hle⟩ := dueDecays_some hread.2 horder hdue
    exact ⟨⟨hpos, hnew, hle.trans hread.1⟩, rfl⟩

omit [Field α] in
theorem Invariant.exchanged {call decays newDecayNanos : Nat}
    {operation : Operation α} {cast : Int} (h : system.Invariant)
    (hcall : system.calls[call]? = some (.exchanging operation
      system.reservoir.lastDecayNanos decays newDecayNanos))
    (hcast : cast ≤ decays) :
    Invariant { system.setCall call (.decaying operation cast) with
      reservoir := { system.reservoir with
        lastDecayNanos := newDecayNanos } } := by
  obtain ⟨hpos, rfl, hle⟩ := h.call hcall
  refine ⟨h.calls (.decaying operation cast) rfl (Nat.le_refl _) rfl
    trivial, hle, Nat.dvd_add h.whole (Nat.dvd_mul_left _ _), ?_⟩
  have hpending := pending_setCall hcall (.decaying operation cast)
  have hbounded := h.bounded
  simp only [Call.pending, Int.sub_zero] at hpending
  simp only [Nat.add_mul_div_right _ _ hpos, Int.natCast_add]
  refine (congrArg (system.applied + ·) hpending).trans_le ?_
  omega

theorem Invariant.step (h : system.Invariant)
    (hstep : Step overflowChecks decayFactor system event system')
    (horder : event.InOrder) : system'.Invariant := by
  have heffect := hstep.effect
  cases event with
  | called =>
      obtain ⟨operation, rfl⟩ := heffect
      refine ⟨?_, h.withinClock, h.whole, ?_⟩
      · intro other state' hother
        rcases List.mem_append.mp (List.mem_of_getElem? hother) with
          hmem | hmem
        · obtain ⟨before, hbefore⟩ := List.getElem?_of_mem hmem
          exact (h.call hbefore).later (Nat.le_refl _) rfl
        · cases List.mem_singleton.mp hmem
          trivial
      · simpa [pending, Call.pending] using h.bounded
  | clockRead call elapsedNanos =>
      obtain ⟨operation, hcall, hclock, rfl⟩ := heffect
      exact h.set hcall (.clockRead operation (elapsedNanos % 2 ^ 64)) rfl
        hclock rfl rfl rfl
        ⟨Nat.mod_le _ _, Nat.mod_lt _ (Nat.two_pow_pos 64)⟩
  | loaded call nowNanos snapshot =>
      obtain ⟨operation, hcall, rfl, rfl⟩ := heffect
      obtain ⟨hholds, hnone⟩ :=
        afterLoad_holds overflowChecks (h.call hcall) horder
      exact h.set hcall _ rfl (Nat.le_refl _) rfl rfl
        (congrArg (system.applied + ·) hnone) hholds
  | exchanged call newDecayNanos =>
      cases newDecayNanos with
      | none =>
          obtain ⟨operation, snapshot, decays, _, hcall, rfl⟩ := heffect
          exact h.set hcall (.decayed operation) rfl (Nat.le_refl _) rfl rfl rfl
            trivial
      | some newDecayNanos =>
          obtain ⟨operation, _, decays, hcall, rfl, rfl⟩ := heffect
          exact h.exchanged hcall (asI32_le decays)
  | decayed call decays =>
      obtain ⟨operation, hcall, rfl⟩ := heffect
      exact h.set hcall (.decayed operation) rfl (Nat.le_refl _) rfl rfl
        (Int.add_zero _) trivial
  | returned call result =>
      obtain ⟨operation, hcall, -, rfl⟩ := heffect
      have hlast : (operation.apply system.reservoir).2.lastDecayNanos =
          system.reservoir.lastDecayNanos := by cases operation <;> rfl
      have hinterval :
          (operation.apply system.reservoir).2.decayIntervalNanos =
            system.reservoir.decayIntervalNanos := by
        cases operation <;> rfl
      exact h.set hcall (.returned result) rfl (Nat.le_refl _) hlast hinterval
        rfl trivial

/-! ## Who was overtaken -/

def GuardedStep (overflowChecks : Bool) (decayFactor : α)
    (system : System α) (event : Event α) (system' : System α) : Prop :=
  Step overflowChecks decayFactor system event system' ∧ event.InOrder

def MayLoad (nowNanos : Nat) : Option (Call α) → Prop
  | none | some (.starting _) => True
  | some (.clockRead _ reading) => reading = nowNanos
  | _ => False

omit [Field α] in
theorem mayLoad_setCall {call other nowNanos : Nat} {state : Call α}
    (hstate : ¬ MayLoad nowNanos (some state))
    (h : MayLoad nowNanos (system.setCall other state).calls[call]?) :
    MayLoad nowNanos system.calls[call]? := by
  cases hafter : (system.setCall other state).calls[call]? with
  | none =>
      have hnone : system.calls[call]? = none := by
        simpa using hafter
      rw [hnone]
      trivial
  | some after =>
      rw [hafter] at h
      rcases getElem?_setCall hafter with ⟨-, hbefore⟩ | ⟨-, rfl⟩
      · rwa [hbefore]
      · exact absurd h hstate

omit [Field α] in
theorem not_mayLoad_afterLoad (overflowChecks : Bool)
    {operation : Operation α} {interval reading snapshot nowNanos : Nat} :
    ¬ MayLoad nowNanos (some (Call.afterLoad overflowChecks operation
      interval reading snapshot)) := by
  unfold Call.afterLoad
  split <;> exact id

theorem mayLoad_before {call nowNanos : Nat}
    (hstep : Step overflowChecks decayFactor system event system')
    (h : MayLoad nowNanos system'.calls[call]?) :
    (event = .clockRead call nowNanos ∧ nowNanos < 2 ^ 64) ∨
      (MayLoad nowNanos system.calls[call]? ∧ ¬ event.ReadsClock call) := by
  have heffect := hstep.effect
  cases event with
  | called =>
      obtain ⟨operation, rfl⟩ := heffect
      refine .inr ⟨?_, id⟩
      cases hbefore : system.calls[call]? with
      | none => trivial
      | some state =>
          rwa [List.getElem?_append_left
            (List.getElem?_eq_some_iff.mp hbefore).1, hbefore] at h
  | clockRead reader elapsedNanos =>
      obtain ⟨operation, hcall, -, rfl⟩ := heffect
      by_cases hreader : reader = call
      · subst hreader
        have hreading : elapsedNanos % 2 ^ 64 = nowNanos := by
          simpa [MayLoad, List.getElem?_set_self', hcall] using h
        by_cases hfits : elapsedNanos < 2 ^ 64
        · rw [Nat.mod_eq_of_lt hfits] at hreading
          exact .inl ⟨by rw [hreading], hreading ▸ hfits⟩
        · exact .inr ⟨by rw [hcall]; trivial, fun hread => hfits hread.2⟩
      · refine .inr ⟨?_, fun hread => hreader hread.1⟩
        simpa [List.getElem?_set_ne hreader] using h
  | loaded loader reading snapshot =>
      obtain ⟨operation, -, -, rfl⟩ := heffect
      exact .inr ⟨mayLoad_setCall (not_mayLoad_afterLoad _) h, id⟩
  | exchanged exchanger newDecayNanos =>
      refine .inr ⟨?_, id⟩
      cases newDecayNanos with
      | none =>
          obtain ⟨operation, _, _, _, -, rfl⟩ := heffect
          exact mayLoad_setCall id h
      | some newDecayNanos =>
          obtain ⟨operation, _, _, -, -, rfl⟩ := heffect
          exact mayLoad_setCall id h
  | decayed decayer decays =>
      obtain ⟨operation, -, rfl⟩ := heffect
      exact .inr ⟨mayLoad_setCall id h, id⟩
  | returned returner result =>
      obtain ⟨operation, -, -, rfl⟩ := heffect
      exact .inr ⟨mayLoad_setCall id h, id⟩

theorem Step.lastDecayNanos
    (hstep : Step overflowChecks decayFactor system event system') :
    system'.reservoir.lastDecayNanos =
      event.lastAfter system.reservoir.lastDecayNanos := by
  have heffect := hstep.effect
  cases event with
  | exchanged call newDecayNanos =>
      cases newDecayNanos with
      | none => obtain ⟨_, _, _, _, -, rfl⟩ := heffect; rfl
      | some newDecayNanos => obtain ⟨_, _, _, -, -, rfl⟩ := heffect; rfl
  | called => obtain ⟨_, rfl⟩ := heffect; rfl
  | clockRead => obtain ⟨_, -, -, -, rfl⟩ := heffect; rfl
  | loaded => obtain ⟨_, -, -, rfl⟩ := heffect; rfl
  | decayed => obtain ⟨_, -, rfl⟩ := heffect; rfl
  | returned =>
      obtain ⟨operation, -, -, rfl⟩ := heffect
      cases operation <;> rfl

theorem Invariant.lastDecayNanos_le (h : system.Invariant)
    (hstep : Step overflowChecks decayFactor system event system') :
    system.reservoir.lastDecayNanos ≤ system'.reservoir.lastDecayNanos := by
  rw [hstep.lastDecayNanos]
  have heffect := hstep.effect
  cases event with
  | exchanged call newDecayNanos =>
      cases newDecayNanos with
      | none => exact Nat.le_refl _
      | some newDecayNanos =>
          obtain ⟨_, _, decays, hcall, rfl, -⟩ := heffect
          obtain ⟨-, hnew, -⟩ := h.call hcall
          exact hnew ▸ Nat.le_add_right _ _
  | called | clockRead | loaded | decayed | returned => exact Nat.le_refl _

/-- Of the calls that have not loaded yet, those are overtaken whose reading
lies before the last decay. -/
def TracksOvertaken (events : List (Event α)) (system : System α) : Prop :=
  ∀ {call nowNanos : Nat}, MayLoad nowNanos system.calls[call]? →
    (Overtaken call nowNanos events ↔
      nowNanos < system.reservoir.lastDecayNanos)

theorem TracksOvertaken.step {events : List (Event α)}
    (h : TracksOvertaken events system) (hinv : system.Invariant)
    (hstep : Step overflowChecks decayFactor system event system') :
    TracksOvertaken (events ++ [event]) system' := by
  intro call nowNanos hcall
  rw [Overtaken, since_append]
  rcases mayLoad_before hstep hcall with ⟨rfl, hfits⟩ | ⟨hbefore, hread⟩
  · have hclock : system.clock ≤ nowNanos := by
      obtain ⟨_, -, hclock, -⟩ := hstep.effect
      exact hclock
    have hlast : ¬ nowNanos < system'.reservoir.lastDecayNanos := by
      rw [hstep.lastDecayNanos]
      exact Nat.not_lt.mpr (hinv.withinClock.trans hclock)
    have hread : Event.ReadsClock call (.clockRead call nowNanos : Event α) :=
      ⟨rfl, hfits⟩
    simp [Event.StoresPast, hread, hlast]
  · have hbefore : Overtaken call nowNanos events ↔
        nowNanos < system.reservoir.lastDecayNanos := h hbefore
    have hle := hinv.lastDecayNanos_le hstep
    rw [← Overtaken, hbefore, and_iff_left hread]
    rw [hstep.lastDecayNanos] at hle ⊢
    cases event with
    | exchanged other newDecayNanos =>
        cases newDecayNanos with
        | none => simp [Event.StoresPast, Event.lastAfter]
        | some newDecayNanos =>
            simp only [Event.StoresPast, Event.lastAfter] at hle ⊢
            omega
    | called | clockRead | loaded | decayed | returned =>
        simp [Event.StoresPast, Event.lastAfter]

variable {halfLife : Duration} {events : List (Event α)}

theorem guarded_invariant
    (run : Run (GuardedStep overflowChecks decayFactor)
      (System.new α halfLife) events system) :
    system.Invariant ∧ TracksOvertaken events system := by
  refine run.invariant
    (fun events system => system.Invariant ∧ TracksOvertaken events system)
    ⟨.new halfLife, fun _ => ?_⟩ ?_
  · simp [Overtaken, System.new, CoarseExponentialDecayReservoir.new]
  · intro events system event system' ⟨hinv, htracks⟩ ⟨hstep, horder⟩
    exact ⟨hinv.step hstep horder, htracks.step hinv hstep⟩

theorem guarded_iff :
    Run (GuardedStep overflowChecks decayFactor) (System.new α halfLife)
        events system ↔
      Run (Step overflowChecks decayFactor) (System.new α halfLife) events
        system ∧ NotOvertaken events := by
  constructor
  · intro run
    refine ⟨run.mono And.left, ?_⟩
    induction run with
    | refl => exact fun _ _ _ => atEach_nil
    | @step events system system' event run hstep ih =>
        intro call nowNanos snapshot
        refine atEach_append.mpr ⟨ih call nowNanos snapshot, ?_⟩
        rintro rfl
        obtain ⟨operation, hcall, rfl, -⟩ := hstep.1.effect
        have hload : MayLoad nowNanos system.calls[call]? := by
          rw [hcall]
          rfl
        rw [(guarded_invariant run).2 hload]
        exact Nat.not_lt.mpr hstep.2
  · rintro ⟨run, hnot⟩
    induction run with
    | refl => exact .refl
    | @step events system system' event run hstep ih =>
        have hbefore := fun call nowNanos snapshot =>
          atEach_append.mp (hnot call nowNanos snapshot)
        have run := ih fun call nowNanos snapshot =>
          (hbefore call nowNanos snapshot).1
        refine run.step ⟨hstep, ?_⟩
        cases event with
        | loaded call nowNanos snapshot =>
            obtain ⟨operation, hcall, rfl, -⟩ := hstep.effect
            have hovertaken := (hbefore call nowNanos _).2 rfl
            have hload : MayLoad nowNanos system.calls[call]? := by
              rw [hcall]
              rfl
            rw [(guarded_invariant run).2 hload] at hovertaken
            exact Nat.not_lt.mp hovertaken
        | called | clockRead | exchanged | decayed | returned => trivial

/-! ## Decay is safe unless a call is overtaken -/

/-- A step after which everything is as it should be: `now_nanos -
last_decay_nanos` did not underflow, the last decay did not move back nor past
the clock, and no interval was decayed twice. -/
structure SafeStep (overflowChecks : Bool) (decayFactor : α)
    (system : System α) (event : Event α) (system' : System α) : Prop where
  step : Step overflowChecks decayFactor system event system'
  noUnderflow : ∀ {call nowNanos snapshot},
    event = .loaded call nowNanos snapshot → snapshot ≤ nowNanos
  monotone : system.reservoir.lastDecayNanos ≤
    system'.reservoir.lastDecayNanos
  withinClock : system'.reservoir.lastDecayNanos ≤ system'.clock
  bounded : system'.applied + system'.pending ≤
    (system'.clock / system'.reservoir.decayIntervalNanos : Nat)

theorem SafeStep.guarded
    (h : SafeStep overflowChecks decayFactor system event system') :
    GuardedStep overflowChecks decayFactor system event system' := by
  refine ⟨h.step, ?_⟩
  cases event with
  | loaded => exact h.noUnderflow rfl
  | called | clockRead | exchanged | decayed | returned => trivial

theorem Invariant.safeStep (h : system.Invariant)
    (hstep : GuardedStep overflowChecks decayFactor system event system') :
    SafeStep overflowChecks decayFactor system event system' := by
  have h' := h.step hstep.1 hstep.2
  refine ⟨hstep.1, ?_, h.lastDecayNanos_le hstep.1, h'.withinClock, ?_⟩
  · rintro call nowNanos snapshot rfl
    exact hstep.2
  · refine h'.bounded.trans ?_
    exact_mod_cast Nat.div_le_div_right h'.withinClock

/-- The runs in which decay is safe are exactly those in which no call is
overtaken. -/
theorem decay_safe_iff :
    Run (SafeStep overflowChecks decayFactor) (System.new α halfLife)
        events system ↔
      Run (Step overflowChecks decayFactor) (System.new α halfLife) events
        system ∧ NotOvertaken events := by
  rw [← guarded_iff]
  constructor
  · exact fun run => run.mono SafeStep.guarded
  · intro run
    induction run with
    | refl => exact .refl
    | step run hstep ih =>
        exact .step ih ((guarded_invariant run).1.safeStep hstep)

theorem racing_calls_are_safe :
    ∃ events system,
      Run (SafeStep true (1 / 2 : ℚ)) (System.new ℚ ⟨100⟩) events system ∧
      system.calls.length = 3 ∧ system.reservoir.lastDecayNanos = 40 := by
  have h : exec (System.next true (1 / 2 : ℚ)) (System.new ℚ ⟨100⟩)
      [.call .get, .call .get, .call .get, .readClock 0 35, .readClock 1 38,
        .load 0, .load 1, .exchange 1, .exchange 0, .readClock 2 40, .load 2,
        .exchange 2] =
      some ([.called, .called, .called, .clockRead 0 35, .clockRead 1 38,
        .loaded 0 35 0, .loaded 1 38 0, .exchanged 1 (some 30),
        .exchanged 0 none, .clockRead 2 40, .loaded 2 40 30,
        .exchanged 2 (some 40)],
        ⟨⟨0, 40, 10⟩, 40, [.decayed .get, .decaying .get (asI32 3),
          .decaying .get (asI32 1)], 0⟩) := by
    simp [exec, next, System.new, CoarseExponentialDecayReservoir.new,
      setCall, Call.afterLoad, dueDecays, subU64, divU64, fitU64,
      decaysPerHalfLife, bind, Except.bind, pure, Except.pure]
  have run : Run (Step true (1 / 2 : ℚ)) _ _ _ :=
    exec_run (fun h => ⟨_, h⟩) h
  refine ⟨_, _, decay_safe_iff.mpr ⟨run, fun call nowNanos snapshot => ?_⟩,
    rfl, rfl⟩
  change AtEach _ _ ([] ++ [_] ++ [_] ++ [_] ++ [_] ++ [_] ++ [_] ++ [_] ++
    [_] ++ [_] ++ [_] ++ [_] ++ [_])
  simp only [atEach_append, atEach_nil, Overtaken, since_append, since_nil,
    Event.StoresPast, Event.ReadsClock]
  simp
  omega

/-- The second call takes the first one over: with overflow checks the first
one panics, and without them the last decay moves back to where it was. -/
theorem overtaken_call_underflows :
    (∃ events system,
      Run (Step true (1 / 2 : ℚ)) (System.new ℚ ⟨100⟩) events system ∧
      ¬ Run (SafeStep true (1 / 2 : ℚ)) (System.new ℚ ⟨100⟩) events
        system ∧
      system.calls[0]? = some (.panicked .arithmeticOverflow)) ∧
    ∃ events system event system',
      Run (Step false (1 / 2 : ℚ)) (System.new ℚ ⟨100⟩) events system ∧
      Step false (1 / 2 : ℚ) system event system' ∧
      system'.reservoir.lastDecayNanos <
        system.reservoir.lastDecayNanos := by
  constructor
  · have h : exec (System.next true (1 / 2 : ℚ)) (System.new ℚ ⟨100⟩)
        [.call .get, .call .get, .readClock 0 5, .readClock 1 100, .load 1,
          .exchange 1, .load 0] = some (_, _) := rfl
    refine ⟨_, _, exec_run (fun h => ⟨_, h⟩) h, fun run => ?_, rfl⟩
    have run : Run _ _ ([_, _, _, _, _, _] ++ [_]) _ := run
    obtain ⟨_, -, hlast⟩ := run.last_step
    exact absurd (hlast.noUnderflow rfl) (by decide)
  · have h : exec (System.next false (1 / 2 : ℚ)) (System.new ℚ ⟨100⟩)
        [.call .get, .call .get, .readClock 0 5, .readClock 1 100, .load 1,
          .exchange 1, .load 0] = some (_, _) := rfl
    exact ⟨_, _, _, _, exec_run (fun h => ⟨_, h⟩) h, ⟨.exchange 0, rfl⟩,
      by decide⟩

end System

end ConjureRuntime.Node.CoarseExponentialDecayReservoir
