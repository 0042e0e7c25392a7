import ConjureRuntime.Limiter.CiadAtomic

/-!
# The limiter without interference

When no other thread comes in between, the steps of a thread are those of the
whole operations: the poll of an acquisition and its count of the requests in
flight, and the drop of a permit with its update of the limit, its adjustment
of the semaphore and its release.
-/

namespace ConjureRuntime.Limiter.Ciad.System

open ConjureRuntime.Foundation

variable {ω : Type} {willWake : ω → ω → Bool} {system : System ω}
  {call : Nat} {state : Call} {limiter limiter' : Ciad ω}

def alone (system : System ω) (call : Nat) (limiter : Ciad ω)
    (state : Call) : System ω :=
  { system with limiter := limiter, calls := system.calls.set call state }

/-- The call has gone on by itself from one point to another. -/
def Goes (willWake : ω → ω → Bool) (system : System ω) (call : Nat)
    (limiter : Ciad ω) (state : Call) (limiter' : Ciad ω) (state' : Call) :
    Prop :=
  ∃ events, Run (Step willWake) (system.alone call limiter state) events
    (system.alone call limiter' state')

theorem Goes.refl : Goes willWake system call limiter state limiter state :=
  ⟨[], .refl⟩

theorem Goes.trans {state' state'' : Call} {limiter'' : Ciad ω}
    (first : Goes willWake system call limiter state limiter' state')
    (second : Goes willWake system call limiter' state' limiter'' state'') :
    Goes willWake system call limiter state limiter'' state'' := by
  obtain ⟨events, first⟩ := first
  obtain ⟨later, second⟩ := second
  exact ⟨events ++ later, first.trans second⟩

theorem Goes.of_next {state' : Call} (op : Op ω) (accepted : Option Update)
    (h : (system.alone call limiter state).next willWake op =
      some (⟨op, accepted, none⟩, system.alone call limiter' state')) :
    Goes willWake system call limiter state limiter' state' :=
  ⟨[] ++ [⟨op, accepted, none⟩], Run.refl.step (next_step h)⟩

@[simp] theorem alone_limiter :
    (system.alone call limiter state).limiter = limiter := rfl

@[simp] theorem alone_call (hcall : call < system.calls.length) :
    (system.alone call limiter state).calls[call]? = some state := by
  simp [alone, hcall]

@[simp] theorem setCall_alone (state' : Call) :
    (system.alone call limiter state).setCall call state' =
      system.alone call limiter state' := by
  simp [alone, setCall]

theorem onSemaphore_alone {β : Type} {action : Locked Nat ω β} {result : β}
    (h : locked action limiter = .ok (result, limiter')) (op : Op ω)
    (next : β → Call) (failed : Call) :
    (system.alone call limiter state).onSemaphore op call action next failed =
      (⟨op, none, none⟩, system.alone call limiter' (next result)) := by
  unfold locked at h
  unfold onSemaphore
  rw [alone_limiter]
  cases hrun : action.run limiter.semaphore with
  | ok result' semaphore =>
      rw [hrun] at h
      cases h
      simp [alone]
  | error panic semaphore =>
      rw [hrun] at h
      cases h

/-! ## The steps of one call -/

def polled : Poll → Call
  | .ready => .granted
  | .pending => .acquiring

section steps

variable (hcall : call < system.calls.length)
include hcall

theorem poll_goes {waker : ω} {result : Poll} {woken : Woken Nat ω}
    (h : locked (poll willWake call waker) limiter =
      .ok ((result, woken), limiter')) :
    Goes willWake system call limiter .acquiring limiter' (polled result) := by
  refine .of_next (.poll call waker) none ?_
  simp only [next, alone_call hcall]
  rw [onSemaphore_alone h]
  cases result <;> rfl

theorem count_goes :
    Goes willWake system call limiter .granted
      { limiter with inFlight := limiter.inFlight + 1 }
      (.holding (limiter.inFlight + 1) .ignore) := by
  refine .of_next (.count call) none ?_
  simp only [next, alone_call hcall, setCall_alone]
  rfl

theorem drop_goes (inFlightSnapshot : Nat) (mode : Mode) :
    Goes willWake system call limiter (.holding inFlightSnapshot mode)
      { limiter with inFlight := limiter.inFlight - 1 }
      (match mode.update inFlightSnapshot with
        | some update => .loading update
        | none => .releasing) := by
  refine .of_next (.drop call) none ?_
  simp only [next, alone_call hcall, setCall_alone]
  rfl

theorem load_goes (update : Update) :
    Goes willWake system call limiter (.loading update) limiter
      (.exchanging update limiter.limit) := by
  refine .of_next (.load call) none ?_
  simp only [next, alone_call hcall, setCall_alone]
  rfl

theorem exchange_goes {update : Update} {limit : ℚ}
    (h : update.apply limiter.limit = some limit) :
    Goes willWake system call limiter (.exchanging update limiter.limit)
      { limiter with limit } (.adjusting ⌊limiter.limit⌋₊ ⌊limit⌋₊) := by
  refine .of_next (.exchange call) (some update) ?_
  simp only [next, alone_call hcall, setCall_alone, h, alone_limiter,
    if_true]
  rfl

theorem exchange_gives_up {update : Update}
    (h : update.apply limiter.limit = none) :
    Goes willWake system call limiter (.exchanging update limiter.limit)
      limiter .releasing := by
  refine .of_next (.exchange call) none ?_
  simp only [next, alone_call hcall, setCall_alone, h]

theorem release_goes {woken : Woken Nat ω}
    (h : locked Limiter.dropPermit limiter = .ok (woken, limiter')) :
    Goes willWake system call limiter .releasing limiter' .released := by
  refine .of_next (.release call) none ?_
  simp only [next, alone_call hcall]
  rw [onSemaphore_alone h]

theorem cancel_goes {woken : Woken Nat ω}
    (h : locked (dropAcquire call) limiter = .ok (woken, limiter')) :
    Goes willWake system call limiter .acquiring limiter' .cancelled := by
  refine .of_next (.cancel call) none ?_
  simp only [next, alone_call hcall]
  rw [onSemaphore_alone h]

theorem updateLimit_goes {update : Update} {woken : Woken Nat ω}
    (h : limiter.updateLimit update = .ok (woken, limiter')) :
    Goes willWake system call limiter (.loading update) limiter'
      .releasing := by
  refine (load_goes hcall update).trans ?_
  unfold updateLimit at h
  cases happly : update.apply limiter.limit with
  | none =>
      rw [happly] at h
      cases h
      exact exchange_gives_up hcall happly
  | some limit =>
      rw [happly] at h
      refine (exchange_goes hcall happly).trans ?_
      refine .of_next (.adjust call) none ?_
      simp only [next, alone_call hcall, adjust]
      dsimp only at h
      split at h
      · rename_i hgrows
        rw [if_pos hgrows, onSemaphore_alone h]
        rfl
      · rename_i hgrows
        rw [if_neg hgrows]
        split at h
        · rename_i hshrinks
          obtain ⟨⟨_, last⟩, hremove, hlast⟩ := bind_eq_ok h
          cases hlast
          rw [if_pos hshrinks, onSemaphore_alone hremove]
          rfl
        · rename_i hshrinks
          cases h
          rw [if_neg hshrinks, setCall_alone]

theorem respond_goes (inFlightSnapshot : Nat) (mode : Mode) :
    Goes willWake system call limiter (.holding inFlightSnapshot .ignore)
      limiter (.holding inFlightSnapshot mode) := by
  refine .of_next (.respond call mode) none ?_
  simp only [next, alone_call hcall, setCall_alone]

/-! ## Whole operations -/

@[simp] def acquired : Option Nat → Call
  | some inFlightSnapshot => .holding inFlightSnapshot .ignore
  | none => .acquiring

theorem pollAcquire_goes {waker : ω} {permit : Option Nat}
    {woken : Woken Nat ω}
    (h : limiter.pollAcquire willWake call waker =
      .ok ((permit, woken), limiter')) :
    Goes willWake system call limiter .acquiring limiter'
      (acquired permit) := by
  obtain ⟨⟨⟨result, woken'⟩, mid⟩, hpoll, hrest⟩ := bind_eq_ok h
  have first : Goes willWake system call _ _ _ _ := poll_goes hcall hpoll
  refine first.trans ?_
  cases result with
  | ready =>
      cases hrest
      exact count_goes hcall
  | pending =>
      cases hrest
      exact .refl

theorem dropPermit_goes {inFlightSnapshot : Nat} {mode : Mode}
    {wakes : List (Woken Nat ω)}
    (h : limiter.dropPermit inFlightSnapshot mode = .ok (wakes, limiter')) :
    Goes willWake system call limiter (.holding inFlightSnapshot .ignore)
      limiter' .released := by
  refine (respond_goes hcall inFlightSnapshot mode).trans
    ((drop_goes hcall inFlightSnapshot mode).trans ?_)
  unfold dropPermit at h
  cases hupdate : mode.update inFlightSnapshot with
  | none =>
      rw [hupdate] at h
      obtain ⟨⟨adjusted, mid⟩, hadjusted, hrest⟩ := bind_eq_ok h
      obtain ⟨⟨released, last⟩, hlocked, hlast⟩ := bind_eq_ok hrest
      cases hadjusted
      cases hlast
      exact release_goes hcall hlocked
  | some update =>
      rw [hupdate] at h
      obtain ⟨⟨adjusted, mid⟩, hadjusted, hrest⟩ := bind_eq_ok h
      obtain ⟨⟨released, last⟩, hlocked, hlast⟩ := bind_eq_ok hrest
      cases hlast
      exact (updateLimit_goes hcall hadjusted).trans
        (release_goes hcall hlocked)

end steps

theorem Goes.run {state' : Call}
    (hcall : system.calls[call]? = some state)
    (h : Goes willWake system call system.limiter state limiter' state') :
    ∃ events, Run (Step willWake) system events
      (system.alone call limiter' state') := by
  obtain ⟨hlength, rfl⟩ := List.getElem?_eq_some_iff.mp hcall
  have hself :
      system.alone call system.limiter system.calls[call] = system := by
    simp [alone]
  obtain ⟨events, run⟩ := h
  rw [hself] at run
  exact ⟨events, run⟩

end ConjureRuntime.Limiter.Ciad.System
