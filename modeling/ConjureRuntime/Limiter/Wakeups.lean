import ConjureRuntime.Limiter.SemaphoreRuns

/-!
# No wakeup is lost

A waiter that is not polled again is woken through the waker of its last
poll.  The four operations that can free a permit for the waiter at the head
all end in `maybeWake`, so whenever a permit is free and somebody waits, the
head has been woken since it was last polled.
-/

namespace ConjureRuntime.Limiter

open ConjureRuntime.Foundation

variable {α ω : Type}

def Event.Polls (event : Event α ω) (acquire : α) : Prop :=
  ∃ waker, event.op = .poll acquire waker

/-- The last poll of the future registered a waker for `waker`; `later` are
the events after it. -/
def LastPolled (events : List (Event α ω)) (acquire : α) (waker : ω)
    (later : List (Event α ω)) : Prop :=
  ∃ before event, events = before ++ event :: later ∧
    event.op = .poll acquire waker ∧ ∀ other ∈ later, ¬ other.Polls acquire

/-- After its last poll the future was woken, through a waker that wakes the
task which polled it. -/
def WokenSinceLastPoll (willWake : ω → ω → Bool)
    (events : List (Event α ω)) (acquire : α) : Prop :=
  ∃ waker later, LastPolled events acquire waker later ∧
    ∃ event ∈ later, ∃ stored, event.woken = some (acquire, stored) ∧
      (stored = waker ∨ willWake stored waker)

def Registered (willWake : ω → ω → Bool) (events : List (Event α ω))
    (acquire : α) (stored : ω) : Prop :=
  ∃ waker later, LastPolled events acquire waker later ∧
    (stored = waker ∨ willWake stored waker)

variable {willWake : ω → ω → Bool} {events : List (Event α ω)}
  {event : Event α ω} {acquire : α} {waker stored : ω}

theorem LastPolled.append {later : List (Event α ω)}
    (h : LastPolled events acquire waker later)
    (hevent : ¬ event.Polls acquire) :
    LastPolled (events ++ [event]) acquire waker (later ++ [event]) := by
  obtain ⟨before, polled, rfl, hop, hlater⟩ := h
  refine ⟨before, polled, by simp, hop, ?_⟩
  intro other hother
  rcases List.mem_append.mp hother with hmem | hmem
  · exact hlater other hmem
  · rwa [List.mem_singleton.mp hmem]

theorem LastPolled.poll (h : event.op = .poll acquire waker) :
    LastPolled (events ++ [event]) acquire waker [] :=
  ⟨events, event, rfl, h, by simp⟩

theorem Registered.append (h : Registered willWake events acquire stored)
    (hevent : ¬ event.Polls acquire) :
    Registered willWake (events ++ [event]) acquire stored := by
  obtain ⟨waker, later, hlast, hstored⟩ := h
  exact ⟨waker, _, hlast.append hevent, hstored⟩

theorem Registered.wake (h : Registered willWake events acquire stored)
    (hevent : ¬ event.Polls acquire)
    (hwoken : event.woken = some (acquire, stored)) :
    WokenSinceLastPoll willWake (events ++ [event]) acquire := by
  obtain ⟨waker, later, hlast, hstored⟩ := h
  exact ⟨waker, _, hlast.append hevent, event, by simp, stored, hwoken,
    hstored⟩

theorem WokenSinceLastPoll.append
    (h : WokenSinceLastPoll willWake events acquire)
    (hevent : ¬ event.Polls acquire) :
    WokenSinceLastPoll willWake (events ++ [event]) acquire := by
  obtain ⟨waker, later, hlast, woke, hwoke, stored, hwoken, hstored⟩ := h
  exact ⟨waker, _, hlast.append hevent, woke,
    List.mem_append_left _ hwoke, stored, hwoken, hstored⟩

/-- A waiter without a waker has been woken since its last poll; the waker of
any other waiter is the one its last poll registered. -/
structure WakersRecorded (willWake : ω → ω → Bool)
    (events : List (Event α ω)) (queue : WaitQueue α ω) : Prop where
  registered : ∀ waiter ∈ queue.waiters, ∀ stored,
    queue.waker waiter = some stored →
    Registered willWake events waiter stored
  woken : ∀ waiter ∈ queue.waiters, queue.waker waiter = none →
    WokenSinceLastPoll willWake events waiter

variable [DecidableEq α]

theorem WakersRecorded.step {queue : WaitQueue α ω}
    (h : WakersRecorded willWake events queue)
    (hnodup : queue.waiters.Nodup) (op : Op α ω) :
    WakersRecorded willWake
      (events ++ [⟨op, (queue.perform willWake op).1.1,
        (queue.perform willWake op).1.2⟩])
      (queue.perform willWake op).2 := by
  have hcases := queue.perform_waiter willWake hnodup op
  generalize queue.perform willWake op = result at hcases ⊢
  obtain ⟨⟨reply, woken⟩, queue'⟩ := result
  dsimp only at hcases ⊢
  have hpolls : ∀ {waiter : α}, (∀ waker, op ≠ .poll waiter waker) →
      ¬ (⟨op, reply, woken⟩ : Event α ω).Polls waiter := by
    rintro waiter hop ⟨waker, hpoll⟩
    exact hop waker hpoll
  constructor
  · intro waiter hmem stored hstored
    rcases hcases waiter hmem with
      ⟨hop, hmem', hkept⟩ | ⟨-, -, -, -, hnone, -⟩ |
      ⟨waker, stored', hop, hstored', hwill⟩
    · exact (h.registered waiter hmem' stored
        (hkept.symm.trans hstored)).append (hpolls hop)
    · simp [hnone] at hstored
    · obtain rfl : stored' = stored := by
        simpa [hstored'] using hstored
      exact ⟨waker, [], LastPolled.poll hop, hwill⟩
  · intro waiter hmem hnone
    rcases hcases waiter hmem with
      ⟨hop, hmem', hkept⟩ | ⟨hop, hmem', waker, hw, -, hwoken⟩ |
      ⟨waker, stored, -, hstored, -⟩
    · exact (h.woken waiter hmem' (hkept.symm.trans hnone)).append
        (hpolls hop)
    · exact (h.registered waiter hmem' waker hw).wake (hpolls hop) hwoken
    · simp [hstored] at hnone

/-! ## The head has been woken -/

namespace WaitQueue

theorem perform_woke (willWake : ω → ω → Bool) {queue : WaitQueue α ω}
    (h : queue.Woke) (op : Op α ω) : (queue.perform willWake op).2.Woke := by
  cases op with
  | poll self waker =>
      simp only [perform]
      rcases queue.poll_cases willWake self waker with
        ⟨hempty, -, hpoll⟩ | ⟨-, -, hpoll⟩ | ⟨hhead, stored, -, hpoll⟩
      · simp [hpoll, Woke, hempty]
      · rw [hpoll]
        exact maybeWake_woke _
      · rw [hpoll]
        intro hpermits head hfirst
        simp only [setWaker_hasPermits, enqueue_hasPermits,
          setWaker_waiters] at hpermits hfirst
        have hne : head ≠ self := by
          rintro rfl
          exact hhead ⟨hfirst, hpermits⟩
        have hqueued : queue.waiters.head? = some head := by
          rw [enqueue_waiters] at hfirst
          split at hfirst
          · exact hfirst
          · cases hw : queue.waiters with
            | nil => simp [hw, Ne.symm hne] at hfirst
            | cons first rest => simpa [hw] using hfirst
        simpa [setWaker, hne, queue.enqueue_waker_of_ne hne] using
          h hpermits head hqueued
  | dropAcquire self =>
      simp only [perform, dropAcquire]
      by_cases hmem : self ∈ queue.waiters
      · rw [if_pos hmem]
        by_cases hfirst : queue.waiters.head? = some self
        · rw [if_pos hfirst]
          exact maybeWake_woke _
        · rw [if_neg hfirst]
          intro hpermits head hhead
          refine h hpermits head ?_
          cases hw : queue.waiters with
          | nil => simp [hw] at hmem
          | cons first rest =>
              have hne : first ≠ self := by simpa [hw] using hfirst
              simpa [hw, hne] using hhead
      · rwa [if_neg hmem]
  | dropPermit => exact maybeWake_woke _
  | addPermits permits =>
      simp only [perform]
      split
      · exact maybeWake_woke _
      · exact h
  | removePermits permits =>
      simp only [perform]
      split
      · intro hpermits head hhead
        refine h ?_ head hhead
        have hlt : queue.outstandingPermits < queue.totalPermits - permits :=
          of_decide_eq_true hpermits
        exact decide_eq_true (by omega)
      · exact h

end WaitQueue

theorem run_wakers {permits : Nat} {system : System α ω}
    (run : Run (System.Step willWake) (System.new α ω permits) events
      system) :
    ∃ queue, Tracks system queue ∧ WakersRecorded willWake events queue ∧
      queue.Woke := by
  refine run_invariant run
    (fun events queue => WakersRecorded willWake events queue ∧ queue.Woke)
    ⟨⟨by simp, by simp⟩, WaitQueue.new_woke permits⟩ ?_
  intro events queue op h hnodup
  exact ⟨h.1.step hnodup op, queue.perform_woke willWake h.2 op⟩

/-- Whenever a permit is free and the queue of waiters is not empty, the
waiter at its head holds no waker, because the waker of its last poll was
taken and woken. -/
theorem head_woken_when_permits_free {permits : Nat}
    {system : System α ω}
    (run : Run (System.Step willWake) (System.new α ω permits) events
      system)
    (hfree : system.state.outstandingPermits < system.state.totalPermits)
    {head : α} (hhead : system.state.head = some head) :
    (∃ node, system.state.node head = some node ∧ node.waker = none) ∧
      WokenSinceLastPoll willWake events head := by
  obtain ⟨queue, htracks, hrecorded, hwoke⟩ := run_wakers run
  have hrep := htracks.represents
  have hfirst : queue.waiters.head? = some head := by
    rw [← hrep.head_eq, hhead]
  have hpermits : queue.hasPermits := by
    rw [← hrep.hasPermits_eq]
    simpa [State.hasPermits] using hfree
  have hmem := List.mem_of_head? hfirst
  have hnone := hwoke hpermits head hfirst
  obtain ⟨node, hnode, hwaker⟩ := hrep.queued head hmem
  exact ⟨⟨node, hnode, hwaker.trans hnone⟩,
    hrecorded.woken head hmem hnone⟩

theorem released_permit_wakes_head :
    ∃ events system,
      Run (System.Step (· == ·)) (System.new Nat Nat 1) events system ∧
      system.state.head = some 1 ∧
      (∃ node, system.state.node 1 = some node ∧ node.waker = none) ∧
      WokenSinceLastPoll (· == ·) events 1 := by
  have h : exec (System.tryNext (· == ·)) (System.new Nat Nat 1)
      [.poll 0 10, .poll 1 11, .dropPermit] = some (_, _) := rfl
  have run := exec_run System.tryNext_step h
  exact ⟨_, _, run, rfl, head_woken_when_permits_free run (by decide) rfl⟩

end ConjureRuntime.Limiter
