import ConjureRuntime.Foundation.Returns
import ConjureRuntime.Foundation.Transition
import ConjureRuntime.Node.Reservoir
import Mathlib.Algebra.BigOperators.Group.List.Basic
import Mathlib.Algebra.BigOperators.Ring.List
import Mathlib.Algebra.Field.Rat
import Mathlib.Algebra.Group.Nat.Defs
import Mathlib.Algebra.GroupWithZero.Basic
import Mathlib.Tactic.NormNum

/-!
# Decay does not depend on who asks

For calls one after the other, the value is a sum over the updates so far,
each decayed by the intervals that ended since; calls in between only do a
part of that work earlier.
-/

namespace ConjureRuntime.Node.CoarseExponentialDecayReservoir

open ConjureRuntime.Foundation ConjureRuntime.Service

variable {α : Type} [Field α]

def updates (calls : List (Duration × Operation α)) : List (Duration × α) :=
  calls.filterMap fun call =>
    match call.2 with
    | .update updates => some (call.1, updates)
    | .get => none

/-- The updates, each decayed by the intervals that ended since. -/
def decayedSum (decayFactor : α) (interval now : Nat)
    (updates : List (Duration × α)) : α :=
  (updates.map fun update =>
    update.2 * decayFactor ^ (now / interval - update.1.nanos / interval)).sum

/-! ## One call -/

theorem asI32_eq {n : Nat} (h : n < 2 ^ 31) : asI32 n = n := by
  refine Int.bmod_eq_of_le ?_ ?_ <;> omega

theorem dueDecays_floor {overflowChecks : Bool}
    {interval earlier now : Nat} (hinterval : 0 < interval)
    (hle : earlier ≤ now) (hnow : now < 2 ^ 64) :
    dueDecays overflowChecks interval now (interval * (earlier / interval)) =
      .ok (if now / interval - earlier / interval = 0 then none
        else some (now / interval - earlier / interval,
          interval * (now / interval))) := by
  have hfloor : interval * (earlier / interval) ≤ now :=
    (Nat.mul_div_le earlier interval).trans hle
  have hmono : earlier / interval ≤ now / interval :=
    Nat.div_le_div_right hle
  have hdecays : (now - interval * (earlier / interval)) / interval =
      now / interval - earlier / interval := Nat.sub_mul_div _ _ _
  have hnanos : (now / interval - earlier / interval) * interval =
      interval * (now / interval) - interval * (earlier / interval) := by
    rw [Nat.mul_comm, Nat.mul_sub]
  have hlast := Nat.mul_div_le now interval
  have hbefore := Nat.mul_le_mul_left interval hmono
  have hnew : interval * (earlier / interval) +
      (interval * (now / interval) - interval * (earlier / interval)) =
      interval * (now / interval) := Nat.add_sub_of_le hbefore
  simp only [dueDecays, subU64, hfloor, if_true, divU64, hinterval.ne',
    if_false, hdecays, hnanos, fitU64, bind, Except.bind, pure, Except.pure]
  split
  · rfl
  · rw [if_pos (by omega)]
    simp only [hnew]
    rw [if_pos (by omega)]

theorem decayedSum_later (decayFactor : α) (interval : Nat)
    {earlier now : Nat} {updates : List (Duration × α)}
    (hupdates : ∀ update ∈ updates, update.1.nanos ≤ earlier)
    (hle : earlier ≤ now) :
    decayedSum decayFactor interval now updates =
      decayedSum decayFactor interval earlier updates *
        decayFactor ^ (now / interval - earlier / interval) := by
  rw [decayedSum, decayedSum, ← List.sum_map_mul_right]
  refine congrArg List.sum (List.map_congr_left fun update hmem => ?_)
  have hbefore : update.1.nanos / interval ≤ earlier / interval :=
    Nat.div_le_div_right (hupdates update hmem)
  have hmono : earlier / interval ≤ now / interval :=
    Nat.div_le_div_right hle
  have hsum : now / interval - update.1.nanos / interval =
      earlier / interval - update.1.nanos / interval +
        (now / interval - earlier / interval) := by omega
  rw [hsum, pow_add, mul_assoc]

structure Decayed (decayFactor : α) (interval now : Nat)
    (updates : List (Duration × α))
    (reservoir : CoarseExponentialDecayReservoir α) : Prop where
  decayIntervalNanos : reservoir.decayIntervalNanos = interval
  earlier : ∀ update ∈ updates, update.1.nanos ≤ now
  lastDecayNanos : reservoir.lastDecayNanos = interval * (now / interval)
  value : reservoir.value = decayedSum decayFactor interval now updates

variable {overflowChecks : Bool} {decayFactor : α} {interval : Nat}
  {reservoir : CoarseExponentialDecayReservoir α}

theorem Decayed.new (decayFactor : α) (halfLife : Duration) :
    Decayed decayFactor (new α halfLife).decayIntervalNanos 0 []
      (new α halfLife) := by
  refine ⟨rfl, by simp, ?_, by simp [decayedSum,
    CoarseExponentialDecayReservoir.new]⟩
  simp [CoarseExponentialDecayReservoir.new]

theorem Decayed.decayIfNecessary (overflowChecks : Bool) {earlier now : Nat}
    {updates : List (Duration × α)}
    (h : Decayed decayFactor interval earlier updates reservoir)
    (hinterval : 0 < interval) (hle : earlier ≤ now) (hnow : now < 2 ^ 64)
    (hdecays : now / interval < 2 ^ 31) :
    Returns (reservoir.decayIfNecessary overflowChecks decayFactor now)
      (Decayed decayFactor interval now updates) := by
  have hupdates := fun update hmem => (h.earlier update hmem).trans hle
  have hvalue := decayedSum_later decayFactor interval h.earlier hle
  unfold CoarseExponentialDecayReservoir.decayIfNecessary
  rw [h.decayIntervalNanos, h.lastDecayNanos,
    dueDecays_floor hinterval hle hnow]
  by_cases hnone : now / interval - earlier / interval = 0
  · have hsame : now / interval = earlier / interval :=
      Nat.le_antisymm (Nat.le_of_sub_eq_zero hnone)
        (Nat.div_le_div_right hle)
    rw [if_pos hnone]
    refine .of_eq rfl ⟨h.decayIntervalNanos, hupdates, ?_, ?_⟩
    · rw [h.lastDecayNanos, hsame]
    · rw [h.value, hvalue, hnone, pow_zero, mul_one]
  · rw [if_neg hnone]
    refine .of_eq rfl ⟨rfl, hupdates, rfl, ?_⟩
    have hcast : asI32 (now / interval - earlier / interval) =
        (now / interval - earlier / interval : Nat) :=
      asI32_eq ((Nat.sub_le _ _).trans_lt hdecays)
    simp only [decay, hcast, zpow_natCast, h.value, hvalue]

theorem Decayed.perform (overflowChecks : Bool) {earlier : Nat}
    {elapsed : Duration}
    {updates : List (Duration × α)} (operation : Operation α)
    (h : Decayed decayFactor interval earlier updates reservoir)
    (hinterval : 0 < interval) (hle : earlier ≤ elapsed.nanos)
    (hfits : elapsed.nanos < 2 ^ 64)
    (hdecays : elapsed.nanos / interval < 2 ^ 31) :
    Returns (reservoir.perform overflowChecks decayFactor elapsed operation)
      fun outcome =>
        Decayed decayFactor interval elapsed.nanos
          (updates ++
            CoarseExponentialDecayReservoir.updates [(elapsed, operation)])
          outcome.2 ∧
        (operation = .get → outcome.1 =
          some (decayedSum decayFactor interval elapsed.nanos updates)) := by
  have hdecay :=
    h.decayIfNecessary overflowChecks hinterval hle hfits hdecays
  unfold CoarseExponentialDecayReservoir.perform
  rw [Nat.mod_eq_of_lt hfits]
  refine hdecay.bind fun decayed hdecayed => .pure ?_
  cases operation with
  | get =>
      refine ⟨?_, fun _ => congrArg some hdecayed.value⟩
      simpa [Operation.apply, CoarseExponentialDecayReservoir.updates]
        using hdecayed
  | update updated =>
      refine ⟨⟨hdecayed.decayIntervalNanos, ?_, hdecayed.lastDecayNanos,
        ?_⟩, by simp⟩
      · intro update hmem
        rcases List.mem_append.mp hmem with hmem | hmem
        · exact hdecayed.earlier update hmem
        · cases List.mem_singleton.mp hmem
          exact Nat.le_refl _
      · simp [Operation.apply, CoarseExponentialDecayReservoir.updates,
          decayedSum, hdecayed.value]

/-! ## A sequence of calls -/

theorem performAll_concat {calls : List (Duration × Operation α)}
    {elapsed : Duration} {operation : Operation α}
    {results : List (Option α)} {result : Option α}
    {mid last : CoarseExponentialDecayReservoir α}
    (hcalls : performAll overflowChecks decayFactor calls reservoir =
      .ok (results, mid))
    (hperform : mid.perform overflowChecks decayFactor elapsed operation =
      .ok (result, last)) :
    performAll overflowChecks decayFactor (calls ++ [(elapsed, operation)])
      reservoir = .ok (results ++ [result], last) := by
  induction calls generalizing reservoir results with
  | nil =>
      cases hcalls
      rw [List.nil_append, performAll, hperform]
      rfl
  | cons call calls ih =>
      obtain ⟨⟨first, next⟩, hfirst, hrest⟩ := bind_eq_ok hcalls
      obtain ⟨⟨rest, final⟩, hcalls, hresults⟩ := bind_eq_ok hrest
      cases hresults
      rw [List.cons_append, performAll, hfirst]
      simp only [bind, Except.bind, ih hcalls]
      rfl

def InOrder (calls : List (Duration × Operation α)) : Prop :=
  calls.Pairwise fun call later => call.1.nanos ≤ later.1.nanos

theorem performAll_decayed (overflowChecks : Bool) (decayFactor : α)
    {calls : List (Duration × Operation α)}
    {halfLife : Duration} {now : Nat} (horder : InOrder calls)
    (hinterval : 0 < (new α halfLife).decayIntervalNanos)
    (hcalls : ∀ call ∈ calls, call.1.nanos ≤ now) (hnow : now < 2 ^ 64)
    (hdecays : now / (new α halfLife).decayIntervalNanos < 2 ^ 31) :
    Returns (performAll overflowChecks decayFactor calls (new α halfLife))
      fun outcome => ∃ earlier ≤ now,
        Decayed decayFactor (new α halfLife).decayIntervalNanos earlier
          (updates calls) outcome.2 := by
  induction calls using List.reverseRecOn generalizing now with
  | nil => exact .pure ⟨0, Nat.zero_le _, .new decayFactor halfLife⟩
  | append_singleton calls call ih =>
      obtain ⟨elapsed, operation⟩ := call
      have hlast : elapsed.nanos ≤ now :=
        hcalls (elapsed, operation) (by simp)
      have hfits := hlast.trans_lt hnow
      have hfloor := (Nat.div_le_div_right hlast).trans_lt hdecays
      obtain ⟨hbefore, -, hearlier⟩ := List.pairwise_append.mp horder
      have hbounded : ∀ before ∈ calls, before.1.nanos ≤ elapsed.nanos :=
        fun before hmem => hearlier before hmem _ (List.mem_singleton_self _)
      obtain ⟨⟨results, reservoir⟩, hdone, earlier, hle, hdecayed⟩ :=
        ih hbefore hbounded hfits hfloor
      obtain ⟨⟨result, last⟩, hperform, hlastDecayed, -⟩ :=
        hdecayed.perform overflowChecks operation hinterval hle hfits hfloor
      refine .of_eq (performAll_concat hdone hperform)
        ⟨elapsed.nanos, hlast, ?_⟩
      simpa [updates] using hlastDecayed

/-- After a call the last decay is the end of the last whole interval, and a
`get` returns the sum of the earlier updates, each decayed by the intervals
that ended since: whatever other `get`s there were. -/
theorem decay_path_independent (overflowChecks : Bool) (decayFactor : α)
    (halfLife elapsed : Duration) (calls : List (Duration × Operation α))
    (operation : Operation α)
    (horder : InOrder (calls ++ [(elapsed, operation)]))
    (hinterval : 0 < (new α halfLife).decayIntervalNanos)
    (hfits : elapsed.nanos < 2 ^ 64)
    (hdecays :
      elapsed.nanos / (new α halfLife).decayIntervalNanos < 2 ^ 31) :
    ∃ results result reservoir,
      performAll overflowChecks decayFactor
          (calls ++ [(elapsed, operation)]) (new α halfLife) =
        .ok (results ++ [result], reservoir) ∧
      reservoir.lastDecayNanos = (new α halfLife).decayIntervalNanos *
        (elapsed.nanos / (new α halfLife).decayIntervalNanos) ∧
      (operation = .get → result = some (decayedSum decayFactor
        (new α halfLife).decayIntervalNanos elapsed.nanos
        (updates calls))) := by
  obtain ⟨hbefore, -, hearlier⟩ := List.pairwise_append.mp horder
  obtain ⟨⟨results, reservoir⟩, hcalls, earlier, hle, hdecayed⟩ :=
    performAll_decayed overflowChecks decayFactor hbefore hinterval
      (fun before hmem =>
        hearlier before hmem _ (List.mem_singleton_self _)) hfits hdecays
  obtain ⟨⟨result, last⟩, hperform, hlast, hresult⟩ :=
    hdecayed.perform overflowChecks operation hinterval hle hfits hdecays
  exact ⟨results, result, last, performAll_concat hcalls hperform,
    hlast.lastDecayNanos, hresult⟩

/-- Two updates with other reads between them. -/
theorem decay_after_two_updates :
    ∃ results reservoir,
      performAll true (1 / 2 : ℚ)
          [(⟨3⟩, .update 8), (⟨14⟩, .get), (⟨25⟩, .update 4),
            (⟨39⟩, .get)] (new ℚ ⟨100⟩) =
        .ok (results, reservoir) ∧
      reservoir.lastDecayNanos = 30 ∧ results.getLast? = some (some 3) := by
  obtain ⟨results, result, reservoir, hcalls, hlast, hresult⟩ :=
    decay_path_independent true (1 / 2 : ℚ) ⟨100⟩ ⟨39⟩
      [(⟨3⟩, .update 8), (⟨14⟩, .get), (⟨25⟩, .update 4)] .get
      (by simp [InOrder]) (by decide) (by decide) (by decide)
  refine ⟨_, _, hcalls, hlast, ?_⟩
  rw [List.getLast?_concat, hresult rfl]
  simp [decayedSum, updates, CoarseExponentialDecayReservoir.new,
    decaysPerHalfLife]
  norm_num

/-! ## Alone among overlapping calls -/

namespace System

def withCall (system : System α) (clock : Nat) (call : Call α) : System α :=
  { system with clock, calls := system.calls ++ [call] }

variable {system : System α}

omit [Field α] in
@[simp] theorem withCall_getElem? {clock : Nat} {call : Call α} :
    (system.withCall clock call).calls[system.calls.length]? = some call := by
  simp [withCall]

omit [Field α] in
@[simp] theorem withCall_setCall {clock : Nat} {call state : Call α} :
    (system.withCall clock call).setCall system.calls.length state =
      system.withCall clock state := by
  simp [withCall, setCall]

theorem load_run (overflowChecks : Bool) (decayFactor : α)
    {elapsed : Duration} (operation : Operation α)
    (hclock : system.clock ≤ elapsed.nanos) :
    ∃ events, Run (Step overflowChecks decayFactor) system events
      (system.withCall elapsed.nanos (.afterLoad overflowChecks operation
        system.reservoir.decayIntervalNanos (elapsed.nanos % 2 ^ 64)
        system.reservoir.lastDecayNanos)) := by
  have hcall : Step overflowChecks decayFactor system .called
      (system.withCall system.clock (.starting operation)) :=
    ⟨.call operation, rfl⟩
  have hread : Step overflowChecks decayFactor
      (system.withCall system.clock (.starting operation))
      (.clockRead system.calls.length elapsed.nanos)
      (system.withCall elapsed.nanos
        (.clockRead operation (elapsed.nanos % 2 ^ 64))) := by
    refine ⟨.readClock system.calls.length elapsed.nanos, ?_⟩
    simp only [next, withCall_getElem?, withCall_setCall]
    exact if_pos hclock
  have hload : Step overflowChecks decayFactor
      (system.withCall elapsed.nanos
        (.clockRead operation (elapsed.nanos % 2 ^ 64)))
      (.loaded system.calls.length (elapsed.nanos % 2 ^ 64)
        system.reservoir.lastDecayNanos)
      (system.withCall elapsed.nanos (.afterLoad overflowChecks operation
        system.reservoir.decayIntervalNanos (elapsed.nanos % 2 ^ 64)
        system.reservoir.lastDecayNanos)) := by
    refine ⟨.load system.calls.length, ?_⟩
    simp only [next, withCall_getElem?, withCall_setCall]
    rfl
  exact ⟨_, .step (.step (.step .refl hcall) hread) hload⟩

theorem finish_step {clock : Nat} (operation : Operation α) :
    Step overflowChecks decayFactor
      (system.withCall clock (.decayed operation))
      (.returned system.calls.length (operation.apply system.reservoir).1)
      { system.withCall clock
          (.returned (operation.apply system.reservoir).1) with
        reservoir := (operation.apply system.reservoir).2 } := by
  refine ⟨.finish system.calls.length, ?_⟩
  simp only [next, withCall_getElem?, withCall_setCall]
  rfl

theorem perform_run (overflowChecks : Bool) (decayFactor : α)
    {elapsed : Duration} (operation : Operation α)
    (hclock : system.clock ≤ elapsed.nanos) :
    ∃ events system',
      Run (Step overflowChecks decayFactor) system events system' ∧
      system'.clock = elapsed.nanos ∧
      match system.reservoir.perform overflowChecks decayFactor elapsed
          operation with
      | .ok (result, reservoir) => system'.reservoir = reservoir ∧
          system'.calls = system.calls ++ [.returned result]
      | .error panic => system'.reservoir = system.reservoir ∧
          system'.calls = system.calls ++ [.panicked panic] := by
  obtain ⟨events, run⟩ :=
    load_run overflowChecks decayFactor operation hclock
  simp only [perform, decayIfNecessary]
  unfold Call.afterLoad at run
  cases hdue : dueDecays overflowChecks system.reservoir.decayIntervalNanos
      (elapsed.nanos % 2 ^ 64) system.reservoir.lastDecayNanos with
  | error panic =>
      simp only [hdue] at run
      exact ⟨_, _, run, rfl, rfl, rfl⟩
  | ok due =>
      cases due with
      | none =>
          simp only [hdue] at run
          exact ⟨_, _, run.step (finish_step operation), rfl, rfl, rfl⟩
      | some due =>
          obtain ⟨decays, newDecayNanos⟩ := due
          simp only [hdue] at run
          let decaying : System α := { system with reservoir :=
            { system.reservoir with lastDecayNanos := newDecayNanos } }
          have hexchange : Step overflowChecks decayFactor
              (system.withCall elapsed.nanos (.exchanging operation
                system.reservoir.lastDecayNanos decays newDecayNanos))
              (.exchanged system.calls.length (some newDecayNanos))
              (decaying.withCall elapsed.nanos
                (.decaying operation (asI32 decays))) := by
            refine ⟨.exchange system.calls.length, ?_⟩
            simp only [next, withCall_getElem?, withCall_setCall]
            exact if_pos rfl
          let decayed : System α := { system with
            reservoir := decay decayFactor (asI32 decays) decaying.reservoir
            applied := system.applied + asI32 decays }
          have hdecay : Step overflowChecks decayFactor
              (decaying.withCall elapsed.nanos
                (.decaying operation (asI32 decays)))
              (.decayed system.calls.length (asI32 decays))
              (decayed.withCall elapsed.nanos (.decayed operation)) := by
            refine ⟨.decay decaying.calls.length, ?_⟩
            simp only [next, withCall_getElem?, withCall_setCall]
            rfl
          exact ⟨_, _, ((run.step hexchange).step hdecay).step
            (finish_step operation), rfl, rfl, rfl⟩

theorem performAll_run {calls : List (Duration × Operation α)}
    {results : List (Option α)}
    {reservoir : CoarseExponentialDecayReservoir α}
    (horder : InOrder calls)
    (hclock : ∀ call ∈ calls, system.clock ≤ call.1.nanos)
    (h : system.reservoir.performAll overflowChecks decayFactor calls =
      .ok (results, reservoir)) :
    ∃ events system',
      Run (Step overflowChecks decayFactor) system events system' ∧
      system'.reservoir = reservoir ∧
      system'.calls = system.calls ++ results.map .returned := by
  induction calls generalizing system results with
  | nil =>
      cases h
      exact ⟨[], system, .refl, rfl, by simp⟩
  | cons call calls ih =>
      obtain ⟨⟨result, mid⟩, hfirst, hrest⟩ := bind_eq_ok h
      obtain ⟨⟨rest, final⟩, hcalls, hresults⟩ := bind_eq_ok hrest
      cases hresults
      obtain ⟨hlater, horder⟩ := List.pairwise_cons.mp horder
      obtain ⟨events, next, run, hnext, hreturned⟩ := perform_run
        overflowChecks decayFactor call.2 (hclock call List.mem_cons_self)
      rw [hfirst] at hreturned
      obtain ⟨rfl, hreturned⟩ := hreturned
      obtain ⟨events', last, run', hlast, hall⟩ := ih horder
        (fun later hmem => hnext ▸ hlater later hmem) hcalls
      refine ⟨_, last, run.trans run', hlast, ?_⟩
      rw [hall, hreturned, List.append_assoc]
      rfl

end System

end ConjureRuntime.Node.CoarseExponentialDecayReservoir
