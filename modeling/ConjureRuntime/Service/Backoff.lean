import ConjureRuntime.Service.Retry
import Mathlib.Algebra.Order.Ring.Nat

/-!
# The arithmetic of the backoff

The backoff of a retry is drawn below a bound that doubles from retry to
retry.  The number of retries and the slot size are configured independently
of each other, and neither is checked against the width of the shift or of a
duration.
-/

namespace ConjureRuntime.Service.Retry

/-- A panic of the arithmetic, or of `random_range` on an empty range. -/
inductive BackoffPanic where
  | arithmetic (panic : Panic)
  | emptyRange
  deriving DecidableEq, Repr

/-- `1 << (attempt - 1)` on `u32`; without overflow checks only the lowest
five bits of the shift count. -/
def shiftScale (overflowChecks : Bool) (attempt : Nat) : Except Panic Nat :=
  if attempt - 1 < 32 then .ok (2 ^ (attempt - 1))
  else if overflowChecks then .error .shiftOverflow
  else .ok (2 ^ ((attempt - 1) % 32))

/-- `random_range` from zero on. -/
def randomRange (choice : Duration → Duration) (max : Duration) :
    Except BackoffPanic Duration :=
  if max.nanos = 0 then .error .emptyRange else .ok (choice max)

/-- The choices of a random number generator. -/
def Samples (choice : Duration → Duration) : Prop :=
  ∀ max : Duration, 0 < max.nanos → (choice max).nanos < max.nanos

namespace RetryService

variable (service : RetryService) (overflowChecks : Bool)

def backoffMax (attempt : Nat) : Except Panic Duration :=
  match shiftScale overflowChecks attempt with
  | .error panic => .error panic
  | .ok scale => mulDuration service.backoffSlotSize scale

/-- The backoff of a retry without a `Retry-After`. -/
def sampleBackoff (attempt : Nat) (choice : Duration → Duration) :
    Except BackoffPanic Duration :=
  match service.backoffMax overflowChecks attempt with
  | .error panic => .error (.arithmetic panic)
  | .ok max =>
      if max = .fromSecs 0 then .ok (.fromSecs 0) else randomRange choice max

variable {ρ : Type}

/-- `prepare_for_retry` with the duration that it sleeps. -/
def prepareBackoff (state : State) (attempt : Attempt ρ) (error : Error)
    (retryAfter : Option Duration) :
    Except BackoffPanic (Except Error (State × Duration)) :=
  match service.nextAttempt state with
  | .error panic => .error (.arithmetic panic)
  | .ok none => .ok (.error error)
  | .ok (some state) =>
      if attempt.needsReset = some true ∧ attempt.reset = false then
        .ok (.error error)
      else
        match retryAfter with
        | some backoff => .ok (.ok (state, backoff))
        | none =>
            match service.sampleBackoff overflowChecks state.attempt
              attempt.randomRange with
            | .error panic => .error panic
            | .ok backoff => .ok (.ok (state, backoff))

/-! ## The bound of a retry -/

variable {service overflowChecks} {attempt : Nat}

@[simp] theorem backoffMax_checked (attempt : Nat) :
    service.backoffMax true attempt = service.backoffBound attempt := by
  unfold backoffMax shiftScale backoffBound
  by_cases h : attempt - 1 < 32
  · rw [if_pos h, if_pos h]
  · rw [if_neg h, if_neg h]
    rfl

theorem backoffMax_eq_ok_iff (hattempt : attempt ≤ 32) {bound : Duration} :
    service.backoffMax overflowChecks attempt = .ok bound ↔
      bound.nanos = service.backoffSlotSize.nanos * 2 ^ (attempt - 1) ∧
        bound.nanos ≤ Duration.max.nanos := by
  have hshift : attempt - 1 < 32 := by omega
  simp only [backoffMax, shiftScale, if_pos hshift, mulDuration]
  constructor
  · intro h
    split at h
    · cases h
      exact ⟨rfl, by assumption⟩
    · cases h
  · rintro ⟨hnanos, hfits⟩
    rw [if_pos (hnanos ▸ hfits), ← hnanos]

theorem sampleBackoff_of_max {bound : Duration}
    (hmax : service.backoffMax overflowChecks attempt = .ok bound)
    {choice : Duration → Duration} (hchoice : Samples choice) :
    ∃ backoff, service.sampleBackoff overflowChecks attempt choice =
        .ok backoff ∧
      (backoff.nanos < bound.nanos ∨
        bound.nanos = 0 ∧ backoff.nanos = 0) := by
  unfold sampleBackoff
  simp only [hmax]
  by_cases hzero : bound = .fromSecs 0
  · rw [if_pos hzero]
    exact ⟨_, rfl, .inr ⟨by rw [hzero]; rfl, rfl⟩⟩
  · have hnanos : bound.nanos ≠ 0 := by
      intro hnanos
      apply hzero
      obtain ⟨nanos⟩ := bound
      cases hnanos
      rfl
    rw [if_neg hzero, randomRange, if_neg hnanos]
    exact ⟨_, rfl, .inl (hchoice bound (Nat.pos_of_ne_zero hnanos))⟩

theorem nanos_ne_zero {bound : Duration} (h : bound ≠ .fromSecs 0) :
    bound.nanos ≠ 0 := by
  intro hnanos
  obtain ⟨nanos⟩ := bound
  cases hnanos
  exact h rfl

theorem prepareBackoff_checked (state : State) (attempt : Attempt ρ)
    (error : Error) (retryAfter : Option Duration) :
    (service.prepareBackoff true state attempt error retryAfter).map
        (Except.map Prod.fst) =
      (service.prepareForRetry state attempt error retryAfter).mapError
        .arithmetic := by
  unfold prepareBackoff prepareForRetry
  cases service.nextAttempt state with
  | error panic => rfl
  | ok next =>
      cases next with
      | none => rfl
      | some state =>
          simp only [bind, Except.bind]
          split
          · rfl
          · cases retryAfter with
            | some backoff => rfl
            | none =>
                unfold sampleBackoff backoff
                rw [backoffMax_checked]
                cases service.backoffBound state.attempt with
                | error panic => rfl
                | ok max =>
                    by_cases hzero : max = .fromSecs 0
                    · simp [hzero, bind, Except.bind, pure, Except.pure,
                        Except.map, Except.mapError]
                    · simp [hzero, randomRange, nanos_ne_zero hzero, bind,
                        Except.bind, pure, Except.pure, Except.map,
                        Except.mapError]

/-! ## All retries -/

variable (service overflowChecks) in
/-- The backoff of a retry is computed, it is below the bound, and the next
retry does not have a smaller bound. -/
structure BackoffSafe (ρ : Type) (retry : Nat) : Prop where
  computed : ∀ (state : State) (attempt : Attempt ρ) (error : Error),
    state.attempt + 1 = retry →
    ¬ (attempt.needsReset = some true ∧ attempt.reset = false) →
    Samples attempt.randomRange → ∃ bound backoff,
      service.backoffMax overflowChecks retry = .ok bound ∧
      service.prepareBackoff overflowChecks state attempt error none =
        .ok (.ok ({ state with attempt := retry }, backoff)) ∧
      (backoff.nanos < bound.nanos ∨
        service.backoffSlotSize.nanos = 0 ∧ backoff.nanos = 0)
  grows : retry + 1 ≤ service.maxNumRetries → ∃ bound next,
    service.backoffMax overflowChecks retry = .ok bound ∧
    service.backoffMax overflowChecks (retry + 1) = .ok next ∧
    bound.nanos ≤ next.nanos

variable (service overflowChecks) in
def BackoffFits : Prop :=
  service.maxNumRetries = 0 ∨
  (overflowChecks = false ∧ service.backoffSlotSize.nanos = 0) ∨
  (service.maxNumRetries ≤ 32 ∧
    service.backoffSlotSize.nanos * 2 ^ (service.maxNumRetries - 1) ≤
      Duration.max.nanos)

theorem bound_of_fits (h : service.BackoffFits overflowChecks)
    {retry : Nat} (hretry : 1 ≤ retry)
    (hlimit : retry ≤ service.maxNumRetries) : ∃ bound,
    service.backoffMax overflowChecks retry = .ok bound ∧
      (bound.nanos = service.backoffSlotSize.nanos * 2 ^ (retry - 1) ∨
        service.backoffSlotSize.nanos = 0 ∧ bound.nanos = 0) := by
  rcases h with hnone | ⟨rfl, hslot⟩ | ⟨hshift, hfits⟩
  · omega
  · have hscale : ∃ scale, shiftScale false retry = .ok scale := by
      by_cases hshift : retry - 1 < 32
      · exact ⟨_, if_pos hshift⟩
      · exact ⟨_, if_neg hshift⟩
    obtain ⟨scale, hscale⟩ := hscale
    refine ⟨⟨0⟩, ?_, .inr ⟨hslot, rfl⟩⟩
    simp [backoffMax, hscale, mulDuration, hslot]
  · have hle : service.backoffSlotSize.nanos * 2 ^ (retry - 1) ≤
        service.backoffSlotSize.nanos * 2 ^ (service.maxNumRetries - 1) :=
      Nat.mul_le_mul_left _ (Nat.pow_le_pow_right (by omega) (by omega))
    have hbound : service.backoffMax overflowChecks retry =
        .ok ⟨service.backoffSlotSize.nanos * 2 ^ (retry - 1)⟩ :=
      (backoffMax_eq_ok_iff (by omega)).mpr ⟨rfl, hle.trans hfits⟩
    exact ⟨_, hbound, .inl rfl⟩

theorem backoffSafe_of_fits (h : service.BackoffFits overflowChecks)
    {retry : Nat} (hretry : 1 ≤ retry)
    (hlimit : retry ≤ service.maxNumRetries) :
    service.BackoffSafe overflowChecks ρ retry where
  computed := by
    intro state attempt error hattempt hreset hsamples
    obtain ⟨bound, hmax, hbound⟩ := bound_of_fits h hretry hlimit
    obtain ⟨backoff, hsample, hbelow⟩ := sampleBackoff_of_max hmax hsamples
    have hwidth := service.maxNumRetries_lt
    have hnext : service.nextAttempt state =
        .ok (some { state with attempt := retry }) := by
      rw [nextAttempt, hattempt, if_pos (by omega), if_neg (by omega)]
    refine ⟨bound, backoff, hmax, ?_, hbelow.imp_right ?_⟩
    · simp only [prepareBackoff, hnext, if_neg hreset, hsample]
    · rintro ⟨hzero, hbackoff⟩
      rcases hbound with hnanos | ⟨hslot, _⟩
      · rw [hzero] at hnanos
        have hpow : 2 ^ (retry - 1) ≠ 0 := (Nat.two_pow_pos _).ne'
        exact ⟨(Nat.mul_eq_zero.mp hnanos.symm).resolve_right hpow, hbackoff⟩
      · exact ⟨hslot, hbackoff⟩
  grows := by
    intro hnext
    obtain ⟨bound, hmax, hbound⟩ := bound_of_fits h hretry hlimit
    obtain ⟨next, hmax', hbound'⟩ := bound_of_fits h (by omega) hnext
    refine ⟨bound, next, hmax, hmax', ?_⟩
    rcases hbound with hnanos | ⟨hslot, hzero⟩
    · rcases hbound' with hnanos' | ⟨hslot, hzero⟩
      · rw [hnanos, hnanos']
        exact Nat.mul_le_mul_left _
          (Nat.pow_le_pow_right (by omega) (by omega))
      · rw [hnanos, hslot, Nat.zero_mul]
        exact Nat.zero_le _
    · rw [hzero]
      exact Nat.zero_le _

def rawError : Error :=
  .internalSafe (.rawClientError (.foreign "hyper::Error"))

def failedAttempt (ρ : Type) (choice : Duration → Duration) : Attempt ρ where
  write := .ok ()
  response := .error rawError
  needsReset := none
  reset := false
  randomRange := choice

theorem fits_of_backoffSafe
    (h : ∀ retry, 1 ≤ retry → retry ≤ service.maxNumRetries →
      service.BackoffSafe overflowChecks ρ retry) :
    service.BackoffFits overflowChecks := by
  by_cases hnone : service.maxNumRetries = 0
  · exact .inl hnone
  · by_cases hshift : service.maxNumRetries ≤ 32
    · -- the last retry has the largest bound
      have hlast := h service.maxNumRetries (by omega) (Nat.le_refl _)
      obtain ⟨bound, _, hmax, _⟩ := hlast.computed
        ⟨false, service.maxNumRetries - 1⟩ (failedAttempt ρ fun _ => ⟨0⟩)
        rawError (Nat.sub_add_cancel (by omega)) (by simp [failedAttempt])
        fun max hmax => hmax
      obtain ⟨hnanos, hfits⟩ := (backoffMax_eq_ok_iff hshift).mp hmax
      exact .inr (.inr ⟨hshift, hnanos ▸ hfits⟩)
    · -- the shift has come round, so the bound starts again
      have hgrows := (h 32 (by omega) (by omega)).grows (by omega)
      obtain ⟨bound, next, hmax, hnext, hle⟩ := hgrows
      cases overflowChecks with
      | true => cases hnext
      | false =>
          obtain ⟨hnanos, _⟩ := (backoffMax_eq_ok_iff (Nat.le_refl _)).mp hmax
          have hscale : shiftScale false 33 = .ok 1 := rfl
          simp only [backoffMax, hscale, mulDuration] at hnext
          split at hnext
          · cases hnext
            simp only [hnanos] at hle
            exact .inr (.inl ⟨rfl, by omega⟩)
          · cases hnext

/-- The backoff of every retry that the configuration allows is safe exactly
when the last one fits. -/
theorem backoff_safe_iff (service : RetryService) (overflowChecks : Bool)
    (ρ : Type) :
    (∀ retry, 1 ≤ retry → retry ≤ service.maxNumRetries →
      service.BackoffSafe overflowChecks ρ retry) ↔
      service.BackoffFits overflowChecks :=
  ⟨fits_of_backoffSafe, fun h _ hretry hlimit =>
    backoffSafe_of_fits h hretry hlimit⟩

/-! ## More retries than bits -/

def manyRetries : RetryService :=
  { RetryService.default with
    maxNumRetries := 40
    maxNumRetries_lt := by decide }

def longSlots : RetryService :=
  { RetryService.default with backoffSlotSize := .max }

/-- The 33rd retry panics with overflow checks, and without them its bound is
that of the first one; the second retry panics in both cases when its bound is
no duration. -/
theorem late_retries_overflow :
    manyRetries.prepareBackoff true ⟨true, 32⟩
        (failedAttempt Unit fun _ => ⟨0⟩) rawError none =
      .error (.arithmetic .shiftOverflow) ∧
    manyRetries.backoffMax false 32 = .ok ⟨250 * 10 ^ 6 * 2 ^ 31⟩ ∧
    manyRetries.backoffMax false 33 = .ok ⟨250 * 10 ^ 6⟩ ∧
    longSlots.prepareBackoff false ⟨true, 1⟩
        (failedAttempt Unit fun _ => ⟨0⟩) rawError none =
      .error (.arithmetic .durationOverflow) ∧
    ∀ overflowChecks, ¬ (∀ retry, 1 ≤ retry →
      retry ≤ manyRetries.maxNumRetries →
      manyRetries.BackoffSafe overflowChecks Unit retry) := by
  have hlast : manyRetries.backoffMax false 32 =
      .ok ⟨250 * 10 ^ 6 * 2 ^ 31⟩ :=
    (backoffMax_eq_ok_iff (Nat.le_refl _)).mpr ⟨by decide, by decide⟩
  refine ⟨rfl, hlast, rfl, rfl, fun overflowChecks h => ?_⟩
  rcases fits_of_backoffSafe h with hnone | ⟨_, hslot⟩ | ⟨hshift, _⟩
  · cases hnone
  · cases hslot
  · exact absurd hshift (by decide)

end RetryService

end ConjureRuntime.Service.Retry
