import ConjureRuntime.Limiter.Wakeups

/-!
# Permits are granted in the order of the first polls

The queue keeps the futures that were polled and neither granted nor dropped,
in the order of their first polls.  Both paths of `poll` grant a permit only
to a future that is, once queued, the first of them.
-/

namespace ConjureRuntime.Limiter

open ConjureRuntime.Foundation

variable {α ω : Type}

def Event.Grants (event : Event α ω) (acquire : α) : Prop :=
  event.Polls acquire ∧ event.reply = .poll .ready

def Event.Drops (event : Event α ω) (acquire : α) : Prop :=
  event.op = .dropAcquire acquire

def FirstPolledBefore (events : List (Event α ω)) (first second : α) : Prop :=
  ∃ before after, events = before ++ after ∧
    (∃ event ∈ before, event.Polls first) ∧
    ∀ event ∈ before, ¬ event.Polls second

/-- The future was polled and has neither been granted a permit nor been
dropped. -/
def Waiting (events : List (Event α ω)) (acquire : α) : Prop :=
  (∃ event ∈ events, event.Polls acquire) ∧
    ∀ event ∈ events, ¬ event.Grants acquire ∧ ¬ event.Drops acquire

theorem FirstPolledBefore.of_append {events : List (Event α ω)}
    {later : List (Event α ω)} {first second : α}
    (h : FirstPolledBefore (events ++ later) first second)
    (hpolled : ∃ event ∈ events, event.Polls second) :
    FirstPolledBefore events first second := by
  obtain ⟨before, after, hsplit, hfirst, hsecond⟩ := h
  rcases List.append_eq_append_iff.mp hsplit with
    ⟨m, rfl, -⟩ | ⟨m, rfl, -⟩
  · obtain ⟨event, hmem, hevent⟩ := hpolled
    exact absurd hevent (hsecond event (List.mem_append_left _ hmem))
  · exact ⟨before, m, rfl, hfirst, hsecond⟩

theorem FirstPolledBefore.polled {events : List (Event α ω)}
    {event : Event α ω} {first second : α}
    (h : FirstPolledBefore (events ++ [event]) first second)
    (hevent : event.Polls second) :
    ∃ earlier ∈ events, earlier.Polls first := by
  obtain ⟨before, after, hsplit, ⟨earlier, hmem, hfirst⟩, hsecond⟩ := h
  rcases List.append_eq_append_iff.mp hsplit with
    ⟨m, rfl, hm⟩ | ⟨m, rfl, -⟩
  · cases m with
    | nil => exact ⟨earlier, by simpa using hmem, hfirst⟩
    | cons other m =>
        simp only [List.cons_append, List.cons.injEq] at hm
        exact absurd hevent (hsecond event (by simp [hm.1]))
  · exact ⟨earlier, List.mem_append_left _ hmem, hfirst⟩

structure QueueInOrder (events : List (Event α ω)) (waiters : List α) :
    Prop where
  polled : ∀ waiter ∈ waiters, ∃ event ∈ events, event.Polls waiter
  queued : ∀ acquire, Waiting events acquire → acquire ∈ waiters
  ordered : ∀ first second, Waiting events first → second ∈ waiters →
    FirstPolledBefore events first second →
    [first, second].Sublist waiters

theorem FirstPolledBefore.polled_first {events : List (Event α ω)}
    {first second : α} (h : FirstPolledBefore events first second) :
    ∃ event ∈ events, event.Polls first := by
  obtain ⟨before, after, rfl, ⟨event, hmem, hfirst⟩, -⟩ := h
  exact ⟨event, List.mem_append_left _ hmem, hfirst⟩

theorem Waiting.of_append {events : List (Event α ω)} {event : Event α ω}
    {acquire : α} (h : Waiting (events ++ [event]) acquire)
    (hpolled : ∃ earlier ∈ events, earlier.Polls acquire) :
    Waiting events acquire :=
  ⟨hpolled, fun other hother => h.2 other (List.mem_append_left _ hother)⟩

namespace QueueInOrder

variable {events : List (Event α ω)} {event : Event α ω}

theorem append {waiters : List α} (h : QueueInOrder events waiters)
    (hevent : ∀ acquire, ¬ event.Polls acquire) :
    QueueInOrder (events ++ [event]) waiters where
  polled waiter hmem := by
    obtain ⟨polled, hpolled, hwaiter⟩ := h.polled waiter hmem
    exact ⟨polled, List.mem_append_left _ hpolled, hwaiter⟩
  queued acquire hwaiting := by
    obtain ⟨polled, hpolled, hacquire⟩ := hwaiting.1
    rcases List.mem_append.mp hpolled with hmem | hmem
    · exact h.queued acquire
        (hwaiting.of_append ⟨polled, hmem, hacquire⟩)
    · rw [List.mem_singleton.mp hmem] at hacquire
      exact absurd hacquire (hevent acquire)
  ordered first second hwaiting hmem hbefore := by
    have hbefore' := hbefore.of_append (h.polled second hmem)
    exact h.ordered first second
      (hwaiting.of_append hbefore'.polled_first) hmem hbefore'

end QueueInOrder

variable [DecidableEq α]

namespace QueueInOrder

variable {events : List (Event α ω)} {event : Event α ω}

theorem enqueue {queue : WaitQueue α ω} {self : α}
    (h : QueueInOrder events queue.waiters) (hevent : event.Polls self)
    (hother : ∀ acquire, event.Polls acquire → acquire = self) :
    QueueInOrder (events ++ [event]) (queue.enqueue self).waiters := by
  have hmono : ∀ waiter ∈ queue.waiters,
      waiter ∈ (queue.enqueue self).waiters := by
    intro waiter hmem
    rw [WaitQueue.enqueue_waiters]
    split
    · exact hmem
    · exact List.mem_append_left _ hmem
  constructor
  · intro waiter hmem
    by_cases hself : waiter = self
    · exact ⟨event, by simp, hself ▸ hevent⟩
    · obtain ⟨polled, hpolled, hwaiter⟩ :=
        h.polled waiter (WaitQueue.mem_of_mem_enqueue hmem hself)
      exact ⟨polled, List.mem_append_left _ hpolled, hwaiter⟩
  · intro acquire hwaiting
    obtain ⟨polled, hpolled, hacquire⟩ := hwaiting.1
    rcases List.mem_append.mp hpolled with hmem | hmem
    · exact hmono acquire (h.queued acquire
        (hwaiting.of_append ⟨polled, hmem, hacquire⟩))
    · rw [List.mem_singleton.mp hmem] at hacquire
      rw [hother acquire hacquire]
      exact queue.mem_enqueue_waiters self
  · intro first second hwaiting hmem hbefore
    by_cases hsecond : second ∈ queue.waiters
    · have hbefore' := hbefore.of_append (h.polled second hsecond)
      have hsub := h.ordered first second
        (hwaiting.of_append hbefore'.polled_first) hsecond hbefore'
      rw [WaitQueue.enqueue_waiters]
      split
      · exact hsub
      · exact hsub.trans (List.sublist_append_left _ _)
    · have hself : second = self := by
        by_contra hne
        exact hsecond (WaitQueue.mem_of_mem_enqueue hmem hne)
      subst hself
      have hfirst := h.queued first
        (hwaiting.of_append (hbefore.polled hevent))
      rw [WaitQueue.enqueue_waiters, if_neg hsecond]
      exact (List.singleton_sublist.mpr hfirst).append
        (List.Sublist.refl [second])

theorem erase {waiters : List α} (h : QueueInOrder events waiters)
    (hnodup : waiters.Nodup) {acquire : α}
    (hdone : ¬ Waiting events acquire) :
    QueueInOrder events (waiters.erase acquire) where
  polled waiter hmem := h.polled waiter (List.mem_of_mem_erase hmem)
  queued other hwaiting := by
    have hne : other ≠ acquire := fun heq => hdone (heq ▸ hwaiting)
    exact (List.mem_erase_of_ne hne).mpr (h.queued other hwaiting)
  ordered first second hwaiting hmem hbefore := by
    have hfirst : first ≠ acquire := fun heq => hdone (heq ▸ hwaiting)
    have hsecond : second ≠ acquire := by
      rintro rfl
      exact hnodup.not_mem_erase hmem
    have hsub := (h.ordered first second hwaiting
      (List.mem_of_mem_erase hmem) hbefore).erase acquire
    simpa [hfirst, hsecond] using hsub

end QueueInOrder

def GrantsInOrder (events : List (Event α ω)) : Prop :=
  ∀ {before : List (Event α ω)} {event : Event α ω}
    {after : List (Event α ω)} {first second : α},
    events = before ++ event :: after → event.Grants second →
    FirstPolledBefore events first second →
    ∃ earlier ∈ before, earlier.Grants first ∨ earlier.Drops first

omit [DecidableEq α] in
theorem GrantsInOrder.append {events : List (Event α ω)}
    {event : Event α ω} (h : GrantsInOrder events)
    (hevent : ∀ {first second : α}, event.Grants second →
      FirstPolledBefore (events ++ [event]) first second →
      ∃ earlier ∈ events, earlier.Grants first ∨ earlier.Drops first) :
    GrantsInOrder (events ++ [event]) := by
  intro before granted after first second hsplit hgrants hbefore
  induction after using List.reverseRecOn with
  | nil =>
      obtain ⟨rfl, hlast⟩ := List.append_inj' hsplit rfl
      cases hlast
      exact hevent hgrants hbefore
  | append_singleton after last _ =>
      rw [← List.cons_append, ← List.append_assoc] at hsplit
      obtain ⟨rfl, -⟩ := List.append_inj' hsplit rfl
      exact h rfl hgrants
        (hbefore.of_append ⟨granted, by simp, hgrants.1⟩)

theorem QueueInOrder.not_waiting {queue : WaitQueue α ω}
    {events : List (Event α ω)} {event : Event α ω} {first second : α}
    (h : QueueInOrder events queue.waiters) (hnodup : queue.waiters.Nodup)
    (hpolls : event.Polls second)
    (hhead : (queue.enqueue second).waiters.head? = some second)
    (hbefore : FirstPolledBefore (events ++ [event]) first second) :
    ¬ Waiting events first := by
  intro hwaiting
  have hfirst := h.queued first hwaiting
  rw [WaitQueue.enqueue_waiters] at hhead
  split at hhead
  · rename_i hmem
    have hsub := h.ordered first second hwaiting hmem
      (hbefore.of_append (h.polled second hmem))
    obtain ⟨rest, hrest⟩ := List.head?_eq_some_iff.mp hhead
    rw [hrest] at hsub hnodup
    have hout := (List.nodup_cons.mp hnodup).1
    cases hsub with
    | cons _ hsub => exact hout (hsub.subset (by simp))
    | cons_cons _ hsub => exact hout (hsub.subset (by simp))
  · rename_i hmem
    cases hw : queue.waiters with
    | nil => simp [hw] at hfirst
    | cons head rest =>
        obtain rfl : head = second := by simpa [hw] using hhead
        simp [hw] at hmem

omit [DecidableEq α] in
theorem Event.not_polls {event : Event α ω} {op : Op α ω}
    (hop : event.op = op) (h : ∀ acquire waker, op ≠ .poll acquire waker)
    (acquire : α) : ¬ event.Polls acquire := by
  rintro ⟨waker, hpoll⟩
  exact h acquire waker (hop.symm.trans hpoll)

theorem queueInOrder_step {willWake : ω → ω → Bool}
    {events : List (Event α ω)} {queue : WaitQueue α ω}
    {event : Event α ω} (hqueue : QueueInOrder events queue.waiters)
    (hnodup : queue.waiters.Nodup)
    (hreply : event.reply = (queue.perform willWake event.op).1.1) :
    QueueInOrder (events ++ [event])
      (queue.perform willWake event.op).2.waiters := by
  rw [WaitQueue.perform_waiters, ← hreply]
  cases hop : event.op with
  | poll self waker =>
      have hpolls : event.Polls self := ⟨waker, hop⟩
      have hqueue' := hqueue.enqueue hpolls (by simp [Event.Polls, hop])
      cases hr : event.reply with
      | poll result =>
          cases result with
          | ready =>
              refine hqueue'.erase (WaitQueue.enqueue_nodup hnodup self) ?_
              intro hwaiting
              exact (hwaiting.2 event (by simp)).1 ⟨hpolls, hr⟩
          | pending => exact hqueue'
      | unit | panicked => exact hqueue'
  | dropAcquire self =>
      refine (hqueue.append (Event.not_polls hop (by simp))).erase hnodup ?_
      intro hwaiting
      exact (hwaiting.2 event (by simp)).2 hop
  | dropPermit | addPermits | removePermits =>
      exact hqueue.append (Event.not_polls hop (by simp))

theorem grantsInOrder_step {willWake : ω → ω → Bool}
    {events : List (Event α ω)} {queue : WaitQueue α ω}
    {event : Event α ω} (horder : GrantsInOrder events)
    (hqueue : QueueInOrder events queue.waiters)
    (hnodup : queue.waiters.Nodup)
    (hreply : event.reply = (queue.perform willWake event.op).1.1) :
    GrantsInOrder (events ++ [event]) := by
  refine horder.append ?_
  rintro first second ⟨⟨waker, hop⟩, hready⟩ hbefore
  rw [hready, hop] at hreply
  have hpolls : event.Polls second := ⟨waker, hop⟩
  have hhead : (queue.enqueue second).waiters.head? = some second := by
    have hresult := queue.poll_result willWake second waker
    simp only [WaitQueue.perform, Reply.poll.injEq] at hreply
    rw [← hreply] at hresult
    split at hresult
    · rename_i hhead
      exact hhead.1
    · cases hresult
  by_contra hkept
  push Not at hkept
  refine hqueue.not_waiting hnodup hpolls hhead hbefore ⟨?_, hkept⟩
  by_cases hmem : second ∈ queue.waiters
  · exact (hbefore.of_append (hqueue.polled second hmem)).polled_first
  · exact hbefore.polled hpolls

theorem run_grantsInOrder {willWake : ω → ω → Bool} {permits : Nat}
    {events : List (Event α ω)} {system : System α ω}
    (run : Run (System.Step willWake) (System.new α ω permits) events
      system) : GrantsInOrder events := by
  obtain ⟨queue, -, horder, -⟩ := run_invariant run
    (fun events queue => GrantsInOrder events ∧
      QueueInOrder events queue.waiters)
    (by
      refine ⟨by simp [GrantsInOrder], ⟨by simp, ?_, by simp⟩⟩
      rintro acquire ⟨⟨event, hmem, -⟩, -⟩
      simp at hmem)
    (fun op h hnodup => ⟨grantsInOrder_step h.1 h.2 hnodup rfl,
      queueInOrder_step h.2 hnodup rfl⟩)
  exact horder

/-- If one future was first polled before another, the other is granted a
permit only after the first was granted one or was dropped. -/
theorem grants_follow_first_polls {willWake : ω → ω → Bool} {permits : Nat}
    {before after : List (Event α ω)} {event : Event α ω}
    {system : System α ω} {first second : α}
    (run : Run (System.Step willWake) (System.new α ω permits)
      (before ++ event :: after) system)
    (hgrants : event.Grants second)
    (hbefore : FirstPolledBefore (before ++ event :: after) first second) :
    ∃ earlier ∈ before, earlier.Grants first ∨ earlier.Drops first :=
  run_grantsInOrder run rfl hgrants hbefore

theorem second_waiter_granted_after_drop :
    let before : List (Event Nat Nat) :=
      [⟨.poll 0 10, .poll .ready, none⟩, ⟨.poll 1 11, .poll .pending, none⟩,
        ⟨.poll 2 12, .poll .pending, none⟩, ⟨.dropAcquire 1, .unit, none⟩,
        ⟨.dropPermit, .unit, some (2, 12)⟩]
    let event : Event Nat Nat := ⟨.poll 2 12, .poll .ready, none⟩
    (∃ system, Run (System.Step (· == ·)) (System.new Nat Nat 1)
      (before ++ event :: []) system) ∧
    ∃ earlier ∈ before, earlier.Grants 1 ∨ earlier.Drops 1 := by
  intro before event
  have h : exec (System.tryNext (· == ·)) (System.new Nat Nat 1)
      [.poll 0 10, .poll 1 11, .poll 2 12, .dropAcquire 1, .dropPermit,
        .poll 2 12] = some (before ++ event :: [], _) := rfl
  have run := exec_run System.tryNext_step h
  have hgrants : event.Grants 2 := ⟨⟨12, rfl⟩, rfl⟩
  refine ⟨⟨_, run⟩, grants_follow_first_polls run hgrants
    ⟨before.take 2, _, rfl, ?_, ?_⟩⟩
  · exact ⟨⟨.poll 1 11, .poll .pending, none⟩, by simp [before], 11, rfl⟩
  · simp [before, Event.Polls]

end ConjureRuntime.Limiter
