import ConjureRuntime.Foundation.ListSum
import ConjureRuntime.Limiter.Ciad
import ConjureRuntime.Limiter.SemaphoreRuns
import Mathlib.Tactic.Linarith

/-!
# The limit and the total of the semaphore

An update stores the new limit first and adjusts the semaphore later, so the
two agree up to the adjustments of the updates in between.  Each step either
leaves the balance alone, stores a limit and owes the difference of the
integer parts, or settles what one update owes.
-/

namespace ConjureRuntime.Limiter.Ciad

open ConjureRuntime.Foundation

variable {ω : Type}

/-! ## Updates keep the limit in range -/

def InRange (limit : ℚ) : Prop := (minLimit : ℚ) ≤ limit ∧ limit ≤ maxLimit

theorem initialLimit_inRange : InRange initialLimit := by
  constructor <;> norm_num [minLimit, initialLimit, maxLimit]

theorem Update.apply_inRange {update : Update} {limit limit' : ℚ}
    (h : InRange limit) (happly : update.apply limit = some limit') :
    InRange limit' := by
  obtain ⟨hlower, hupper⟩ := h
  have hone : (1 : ℚ) ≤ limit := by simpa [minLimit] using hlower
  cases update with
  | success inFlightSnapshot =>
      simp only [Update.apply] at happly
      split at happly
      · simp only [Option.some.injEq] at happly
        subst happly
        have hstep : 0 ≤ 1 / limit := by positivity
        refine ⟨le_min ?_ ?_, min_le_left _ _⟩
        · norm_num [minLimit, maxLimit]
        · linarith
      · cases happly
  | dropped =>
      simp only [Update.apply, Option.some.injEq] at happly
      subst happly
      have hfloor : ((⌊limit * backoffRatio⌋ : ℤ) : ℚ) ≤ limit := by
        refine (Int.floor_le _).trans ?_
        unfold backoffRatio
        linarith
      refine ⟨le_max_left _ _, max_le ?_ (hfloor.trans hupper)⟩
      norm_num [minLimit, maxLimit]

/-! ## What the updates still owe -/

namespace Call

def pendingAdd : Call → Nat
  | .adjusting oldLimit newLimit => newLimit - oldLimit
  | _ => 0

def pendingRemoval : Call → Nat
  | .adjusting oldLimit newLimit => oldLimit - newLimit
  | _ => 0

end Call

namespace System

def pendingAdds (system : System ω) : Nat :=
  (system.calls.map Call.pendingAdd).sum

def pendingRemovals (system : System ω) : Nat :=
  (system.calls.map Call.pendingRemoval).sum

structure Quiet (system : System ω) (queue : WaitQueue Nat ω)
    (event : Event ω) (system' : System ω) (queue' : WaitQueue Nat ω) :
    Prop where
  total : queue'.totalPermits = queue.totalPermits
  limit : system'.limiter.limit = system.limiter.limit
  adds : system'.pendingAdds = system.pendingAdds
  removals : system'.pendingRemovals = system.pendingRemovals
  missedAdds : system'.missedAdds = system.missedAdds
  missedRemovals : system'.missedRemovals = system.missedRemovals
  accepted : event.accepted = none
  notAdjust : ∀ call, event.op ≠ .adjust call
  panic : ∀ message, event.panic ≠ some (.expect message)

structure Exchanged (system : System ω) (queue : WaitQueue Nat ω)
    (event : Event ω) (system' : System ω) (queue' : WaitQueue Nat ω) :
    Prop where
  total : queue'.totalPermits = queue.totalPermits
  update : ∃ update, event.accepted = some update ∧
    update.apply system.limiter.limit = some system'.limiter.limit
  adds : system'.pendingAdds = system.pendingAdds +
    (⌊system'.limiter.limit⌋₊ - ⌊system.limiter.limit⌋₊)
  removals : system'.pendingRemovals = system.pendingRemovals +
    (⌊system.limiter.limit⌋₊ - ⌊system'.limiter.limit⌋₊)
  missedAdds : system'.missedAdds = system.missedAdds
  missedRemovals : system'.missedRemovals = system.missedRemovals
  notAdjust : ∀ call, event.op ≠ .adjust call
  panic : event.panic = none

/-- How an adjustment ends: it moves the total, or it panics and is missed. -/
def AdjustResult (system : System ω) (queue : WaitQueue Nat ω)
    (event : Event ω) (system' : System ω) (queue' : WaitQueue Nat ω)
    (oldLimit newLimit : Nat) : Prop :=
  (event.panic = none ∧
    system'.missedAdds = system.missedAdds ∧
    system'.missedRemovals = system.missedRemovals ∧
    oldLimit - newLimit ≤ queue.totalPermits ∧
    queue'.totalPermits + (oldLimit - newLimit) =
      queue.totalPermits + (newLimit - oldLimit)) ∨
  (event.panic = some (.expect "permit count overflow") ∧
    oldLimit < newLimit ∧ queue'.totalPermits = queue.totalPermits ∧
    system'.missedAdds = system.missedAdds + (newLimit - oldLimit) ∧
    system'.missedRemovals = system.missedRemovals) ∨
  (event.panic = some (.expect "permit count underflow") ∧
    newLimit < oldLimit ∧ queue.totalPermits < oldLimit - newLimit ∧
    queue'.totalPermits = queue.totalPermits ∧
    system'.missedAdds = system.missedAdds ∧
    system'.missedRemovals =
      system.missedRemovals + (oldLimit - newLimit))

structure Adjusted (system : System ω) (queue : WaitQueue Nat ω)
    (event : Event ω) (system' : System ω) (queue' : WaitQueue Nat ω)
    (call oldLimit newLimit : Nat) : Prop where
  op : event.op = .adjust call
  adjusting : system.calls[call]? = some (.adjusting oldLimit newLimit)
  limit : system'.limiter.limit = system.limiter.limit
  adds : system'.pendingAdds + (newLimit - oldLimit) = system.pendingAdds
  removals : system'.pendingRemovals + (oldLimit - newLimit) =
    system.pendingRemovals
  accepted : event.accepted = none
  result : AdjustResult system queue event system' queue' oldLimit newLimit

def Effect (system : System ω) (queue : WaitQueue Nat ω) (event : Event ω)
    (system' : System ω) (queue' : WaitQueue Nat ω) : Prop :=
  Quiet system queue event system' queue' ∨
  Exchanged system queue event system' queue' ∨
  ∃ call oldLimit newLimit,
    Adjusted system queue event system' queue' call oldLimit newLimit

theorem pending_set {system : System ω} {call : Nat} {state : Call}
    (h : system.calls[call]? = some state) (state' : Call)
    (owed : Call → Nat) :
    ((system.calls.set call state').map owed).sum + owed state =
      (system.calls.map owed).sum + owed state' :=
  sum_map_set h state' owed

theorem quiet_of_set {system system' : System ω}
    {queue queue' : WaitQueue Nat ω} {event : Event ω} {call : Nat}
    {state state' : Call} (hcall : system.calls[call]? = some state)
    (hcalls : system'.calls = system.calls.set call state')
    (hadd : state.pendingAdd = state'.pendingAdd)
    (hremoval : state.pendingRemoval = state'.pendingRemoval)
    (htotal : queue'.totalPermits = queue.totalPermits)
    (hlimit : system'.limiter.limit = system.limiter.limit)
    (hmissed : system'.missedAdds = system.missedAdds ∧
      system'.missedRemovals = system.missedRemovals)
    (haccepted : event.accepted = none)
    (hop : ∀ call, event.op ≠ .adjust call)
    (hpanic : ∀ message, event.panic ≠ some (.expect message)) :
    Effect system queue event system' queue' := by
  refine .inl ⟨htotal, hlimit, ?_, ?_, hmissed.1, hmissed.2, haccepted, hop,
    hpanic⟩
  · have := pending_set hcall state' Call.pendingAdd
    simp only [pendingAdds, hcalls]
    omega
  · have := pending_set hcall state' Call.pendingRemoval
    simp only [pendingRemovals, hcalls]
    omega

/-! ## What one step does -/

section onSemaphore

variable {β : Type} {system : System ω} {op : Op ω} {call : Nat}
  {action : Locked Nat ω β} {state : β → Call} {failed : Call}
  {semaphore : State Nat ω}

theorem onSemaphore_ok {result : β}
    (h : action.run system.limiter.semaphore = .ok result semaphore) :
    system.onSemaphore op call action state failed =
      (⟨op, none, none⟩,
        { system with
          limiter := { system.limiter with semaphore }
          calls := system.calls.set call (state result) }) := by
  simp only [onSemaphore, h]

theorem onSemaphore_error {panic : Panic}
    (h : action.run system.limiter.semaphore = .error panic semaphore) :
    system.onSemaphore op call action state failed =
      (⟨op, none, some panic⟩,
        { system with
          limiter := { system.limiter with semaphore }
          calls := system.calls.set call failed }) := by
  simp only [onSemaphore, h]

end onSemaphore

private theorem dropPermit_none_out {state : State Nat ω}
    (h : state.outstandingPermits = 0) :
    dropPermit.run state = .error .arithmeticOverflow state := by
  have hsub : checkedSub state.outstandingPermits 1 = none := by
    rw [checkedSub, if_neg (by omega)]
  unfold dropPermit
  rw [get_bind_run, hsub]
  rfl

variable {willWake : ω → ω → Bool} {system system' : System ω}
  {queue : WaitQueue Nat ω} {event : Event ω} {call : Nat}

theorem poll_effect (h : Represents system.limiter.semaphore queue)
    {waker : ω} (hcall : system.calls[call]? = some .acquiring)
    (hnext : system.next willWake (.poll call waker) =
      some (event, system')) :
    ∃ queue', Represents system'.limiter.semaphore queue' ∧
      Effect system queue event system' queue' := by
  obtain ⟨semaphore, hrun, h'⟩ := h.poll willWake call waker
  simp only [next, hcall, onSemaphore_ok hrun, Option.some.injEq,
    Prod.mk.injEq] at hnext
  obtain ⟨rfl, rfl⟩ := hnext
  refine ⟨_, h', quiet_of_set hcall rfl ?_ ?_
    (queue.poll_totalPermits willWake call waker) rfl ⟨rfl, rfl⟩ rfl
    (by simp) (by simp)⟩
  · cases (queue.poll willWake call waker).1.1 <;> rfl
  · cases (queue.poll willWake call waker).1.1 <;> rfl

theorem cancel_effect (h : Represents system.limiter.semaphore queue)
    (hcall : system.calls[call]? = some .acquiring)
    (hnext : system.next willWake (.cancel call) = some (event, system')) :
    ∃ queue', Represents system'.limiter.semaphore queue' ∧
      Effect system queue event system' queue' := by
  obtain ⟨semaphore, hrun, h'⟩ := h.dropAcquire call
  simp only [next, hcall, onSemaphore_ok hrun, Option.some.injEq,
    Prod.mk.injEq] at hnext
  obtain ⟨rfl, rfl⟩ := hnext
  exact ⟨_, h', quiet_of_set hcall rfl rfl rfl
    (queue.dropAcquire_totalPermits call) rfl ⟨rfl, rfl⟩ rfl
    (by simp) (by simp)⟩

theorem release_effect (h : Represents system.limiter.semaphore queue)
    (hcall : system.calls[call]? = some .releasing)
    (hnext : system.next willWake (.release call) = some (event, system')) :
    ∃ queue', Represents system'.limiter.semaphore queue' ∧
      Effect system queue event system' queue' := by
  by_cases hpermit : 0 < queue.outstandingPermits
  · obtain ⟨semaphore, hrun, h'⟩ := h.dropPermit hpermit
    simp only [next, hcall, onSemaphore_ok hrun, Option.some.injEq,
      Prod.mk.injEq] at hnext
    obtain ⟨rfl, rfl⟩ := hnext
    exact ⟨_, h', quiet_of_set hcall rfl rfl rfl
      (by simp [WaitQueue.dropPermit]) rfl ⟨rfl, rfl⟩ rfl
      (by simp) (by simp)⟩
  · have hrun : dropPermit.run system.limiter.semaphore = _ :=
      dropPermit_none_out (by rw [h.outstanding]; omega)
    simp only [next, hcall, onSemaphore_error hrun, Option.some.injEq,
      Prod.mk.injEq] at hnext
    obtain ⟨rfl, rfl⟩ := hnext
    exact ⟨_, h, quiet_of_set hcall rfl rfl rfl rfl rfl ⟨rfl, rfl⟩ rfl
      (by simp) (by simp)⟩

theorem exchange_effect (h : Represents system.limiter.semaphore queue)
    {update : Update} {oldLimit : ℚ}
    (hcall : system.calls[call]? = some (.exchanging update oldLimit))
    (hnext : system.next willWake (.exchange call) =
      some (event, system')) :
    ∃ queue', Represents system'.limiter.semaphore queue' ∧
      Effect system queue event system' queue' := by
  simp only [next, hcall] at hnext
  cases happly : update.apply oldLimit with
  | none =>
      simp only [happly, Option.some.injEq, Prod.mk.injEq] at hnext
      obtain ⟨rfl, rfl⟩ := hnext
      exact ⟨queue, h, quiet_of_set hcall rfl rfl rfl rfl rfl ⟨rfl, rfl⟩ rfl
        (by simp) (by simp)⟩
  | some newLimit =>
      simp only [happly] at hnext
      split at hnext
      · rename_i hlimit
        simp only [Option.some.injEq, Prod.mk.injEq] at hnext
        obtain ⟨rfl, rfl⟩ := hnext
        subst hlimit
        refine ⟨queue, h, .inr (.inl ⟨rfl, ⟨update, rfl, happly⟩, ?_, ?_,
          rfl, rfl, by simp, rfl⟩)⟩
        · exact pending_set hcall _ Call.pendingAdd
        · exact pending_set hcall _ Call.pendingRemoval
      · simp only [Option.some.injEq, Prod.mk.injEq] at hnext
        obtain ⟨rfl, rfl⟩ := hnext
        exact ⟨queue, h, quiet_of_set hcall rfl rfl rfl rfl rfl ⟨rfl, rfl⟩
          rfl (by simp) (by simp)⟩

theorem adjust_effect (h : Represents system.limiter.semaphore queue)
    {oldLimit newLimit : Nat}
    (hcall : system.calls[call]? = some (.adjusting oldLimit newLimit))
    (hnext : system.next willWake (.adjust call) =
      some (event, system')) :
    ∃ queue', Represents system'.limiter.semaphore queue' ∧
      Adjusted system queue event system' queue' call oldLimit newLimit := by
  simp only [next, hcall, Option.some.injEq] at hnext
  unfold adjust at hnext
  have hadds := pending_set hcall .releasing Call.pendingAdd
  have hremovals := pending_set hcall .releasing Call.pendingRemoval
  simp only [Call.pendingAdd, Call.pendingRemoval, Nat.add_zero]
    at hadds hremovals
  rcases Nat.lt_trichotomy oldLimit newLimit with hlt | rfl | hgt
  · rw [if_pos hlt] at hnext
    by_cases hfits :
        queue.totalPermits + (newLimit - oldLimit) ≤ usizeMax
    · obtain ⟨semaphore, hrun, h'⟩ := h.addPermits hfits
      simp only [onSemaphore_ok hrun, Option.isSome_none,
        Bool.false_eq_true, if_false, Prod.mk.injEq] at hnext
      obtain ⟨rfl, rfl⟩ := hnext
      refine ⟨_, h', rfl, hcall, rfl, hadds, hremovals, rfl,
        .inl ⟨rfl, rfl, rfl, by omega, ?_⟩⟩
      simp only [WaitQueue.addPermits, WaitQueue.maybeWake_totalPermits]
      omega
    · have hrun : (addPermits (newLimit - oldLimit)).run
          system.limiter.semaphore = _ :=
        addPermits_overflow (by rw [h.total]; omega)
      simp only [onSemaphore_error hrun, Option.isSome_some, if_true,
        Prod.mk.injEq] at hnext
      obtain ⟨rfl, rfl⟩ := hnext
      exact ⟨queue, h, rfl, hcall, rfl, hadds, hremovals, rfl,
        .inr (.inl ⟨rfl, hlt, rfl, rfl, rfl⟩)⟩
  · simp only [lt_irrefl, if_false, Prod.mk.injEq] at hnext
    obtain ⟨rfl, rfl⟩ := hnext
    exact ⟨queue, h, rfl, hcall, rfl, hadds, hremovals, rfl,
      .inl ⟨rfl, rfl, rfl, by omega, rfl⟩⟩
  · rw [if_neg (by omega), if_pos hgt] at hnext
    by_cases hfits : oldLimit - newLimit ≤ queue.totalPermits
    · obtain ⟨semaphore, hrun, h'⟩ := h.removePermits hfits
      simp only [onSemaphore_ok hrun, Option.isSome_none,
        Bool.false_eq_true, if_false, Prod.mk.injEq] at hnext
      obtain ⟨rfl, rfl⟩ := hnext
      refine ⟨_, h', rfl, hcall, rfl, hadds, hremovals, rfl,
        .inl ⟨rfl, rfl, rfl, hfits, ?_⟩⟩
      simp only [WaitQueue.removePermits]
      omega
    · have hrun : (removePermits (oldLimit - newLimit)).run
          system.limiter.semaphore = _ :=
        removePermits_underflow (by rw [h.total]; omega)
      simp only [onSemaphore_error hrun, Option.isSome_some, if_true,
        Prod.mk.injEq] at hnext
      obtain ⟨rfl, rfl⟩ := hnext
      exact ⟨queue, h, rfl, hcall, rfl, hadds, hremovals, rfl,
        .inr (.inr ⟨rfl, hgt, by omega, rfl, rfl, rfl⟩)⟩

theorem step_effect (h : Represents system.limiter.semaphore queue)
    (hstep : Step willWake system event system') :
    ∃ queue', Represents system'.limiter.semaphore queue' ∧
      Effect system queue event system' queue' := by
  unfold Step at hstep
  generalize event.op = op at hstep
  cases op with
  | acquire =>
      simp only [next, Option.some.injEq, Prod.mk.injEq] at hstep
      obtain ⟨rfl, rfl⟩ := hstep
      refine ⟨queue, h, .inl ⟨rfl, rfl, ?_, ?_, rfl, rfl, rfl, by simp,
        by simp⟩⟩
      · simp [pendingAdds, Call.pendingAdd]
      · simp [pendingRemovals, Call.pendingRemoval]
  | poll call waker =>
      by_cases hcall : system.calls[call]? = some .acquiring
      · exact poll_effect h hcall hstep
      · simp [next] at hstep
  | cancel call =>
      by_cases hcall : system.calls[call]? = some .acquiring
      · exact cancel_effect h hcall hstep
      · simp [next] at hstep
  | count | respond | load =>
      simp only [next] at hstep
      split at hstep
      · rename_i hcall
        simp only [Option.some.injEq, Prod.mk.injEq] at hstep
        obtain ⟨rfl, rfl⟩ := hstep
        exact ⟨queue, h, quiet_of_set hcall rfl rfl rfl rfl rfl ⟨rfl, rfl⟩
          rfl (by simp) (by simp)⟩
      · cases hstep
  | drop call =>
      simp only [next] at hstep
      split at hstep
      · rename_i inFlightSnapshot mode hcall
        simp only [Option.some.injEq, Prod.mk.injEq] at hstep
        obtain ⟨rfl, rfl⟩ := hstep
        refine ⟨queue, h, quiet_of_set hcall rfl ?_ ?_ rfl rfl ⟨rfl, rfl⟩
          rfl (by simp) (by simp)⟩
        · cases mode <;> rfl
        · cases mode <;> rfl
      · cases hstep
  | exchange call =>
      have hnext := hstep
      simp only [next] at hstep
      split at hstep
      · rename_i hcall
        exact exchange_effect h hcall hnext
      · cases hstep
  | adjust call =>
      have hnext := hstep
      simp only [next] at hstep
      split at hstep
      · rename_i oldLimit newLimit hcall
        obtain ⟨queue', h', hadjusted⟩ := adjust_effect h hcall hnext
        exact ⟨queue', h', .inr (.inr ⟨call, _, _, hadjusted⟩)⟩
      · cases hstep
  | release call =>
      by_cases hcall : system.calls[call]? = some .releasing
      · exact release_effect h hcall hstep
      · simp [next] at hstep

end System

end ConjureRuntime.Limiter.Ciad
