import ConjureRuntime.Limiter.QueueRefinement

/-!
# Runs of the semaphore

Along a run of the linked semaphore the abstract queue performs the same
operations with the same replies and wakeups.  `perform_waiter` and
`perform_waiters` say once what an operation can do to a waiter and to the
order of the waiters; the wakeup and fairness results follow from them.
-/

namespace ConjureRuntime.Limiter

open ConjureRuntime.Foundation

variable {α ω : Type} [DecidableEq α]

namespace WaitQueue

def perform (willWake : ω → ω → Bool) (queue : WaitQueue α ω) :
    Op α ω → (Reply × Woken α ω) × WaitQueue α ω
  | .poll acquire waker =>
      let ((result, woken), queue') := queue.poll willWake acquire waker
      ((.poll result, woken), queue')
  | .dropAcquire acquire =>
      let (woken, queue') := queue.dropAcquire acquire
      ((.unit, woken), queue')
  | .dropPermit =>
      let (woken, queue') := queue.dropPermit
      ((.unit, woken), queue')
  | .addPermits permits =>
      if queue.totalPermits + permits ≤ usizeMax then
        let (woken, queue') := queue.addPermits permits
        ((.unit, woken), queue')
      else ((.panicked (.expect "permit count overflow"), none), queue)
  | .removePermits permits =>
      if permits ≤ queue.totalPermits then
        ((.unit, none), queue.removePermits permits)
      else ((.panicked (.expect "permit count underflow"), none), queue)

/-! ## What an operation does to one waiter -/

theorem maybeWake_waker (queue : WaitQueue α ω) (waiter : α) :
    queue.maybeWake.2.waker waiter = queue.waker waiter ∨
    ∃ waker, queue.waker waiter = some waker ∧
      queue.maybeWake.2.waker waiter = none ∧
      queue.maybeWake.1 = some (waiter, waker) := by
  rcases queue.maybeWake_cases with ⟨h, -⟩ | ⟨head, waker, -, -, hw, h⟩
  · simp [h]
  · rw [h]
    by_cases heq : waiter = head
    · subst heq
      exact .inr ⟨waker, hw, by simp, rfl⟩
    · exact .inl (by simp [setWaker, heq])

theorem enqueue_waker_of_ne (queue : WaitQueue α ω) {self waiter : α}
    (h : waiter ≠ self) :
    (queue.enqueue self).waker waiter = queue.waker waiter := by
  unfold enqueue
  split <;> simp [setWaker, h]

theorem mem_of_mem_enqueue {queue : WaitQueue α ω} {self waiter : α}
    (hmem : waiter ∈ (queue.enqueue self).waiters) (hne : waiter ≠ self) :
    waiter ∈ queue.waiters := by
  rw [enqueue_waiters] at hmem
  split at hmem
  · exact hmem
  · simpa [hne] using hmem

theorem enqueue_nodup {queue : WaitQueue α ω}
    (hnodup : queue.waiters.Nodup) (self : α) :
    (queue.enqueue self).waiters.Nodup := by
  rw [enqueue_waiters]
  split
  · exact hnodup
  · rename_i hout
    simpa using hnodup.concat hout

def WaiterStep (willWake : ω → ω → Bool) (queue : WaitQueue α ω)
    (op : Op α ω) (woken : Woken α ω) (queue' : WaitQueue α ω)
    (waiter : α) : Prop :=
  ((∀ waker, op ≠ .poll waiter waker) ∧ waiter ∈ queue.waiters ∧
    queue'.waker waiter = queue.waker waiter) ∨
  ((∀ waker, op ≠ .poll waiter waker) ∧ waiter ∈ queue.waiters ∧
    ∃ waker, queue.waker waiter = some waker ∧
      queue'.waker waiter = none ∧ woken = some (waiter, waker)) ∨
  ∃ waker stored, op = .poll waiter waker ∧
    queue'.waker waiter = some stored ∧
    (stored = waker ∨ willWake stored waker)

private theorem maybeWake_waiterStep {willWake : ω → ω → Bool}
    {queue before : WaitQueue α ω} {op : Op α ω} {waiter : α}
    (hop : ∀ waker, op ≠ .poll waiter waker)
    (hmem : waiter ∈ before.waiters)
    (hwaker : queue.waker waiter = before.waker waiter) :
    WaiterStep willWake before op queue.maybeWake.1 queue.maybeWake.2
      waiter := by
  rcases queue.maybeWake_waker waiter with h | ⟨waker, hw, hnone, hwoken⟩
  · exact .inl ⟨hop, hmem, h.trans hwaker⟩
  · exact .inr (.inl ⟨hop, hmem, waker, hwaker ▸ hw, hnone, hwoken⟩)

private theorem poll_waiterStep (willWake : ω → ω → Bool)
    {queue : WaitQueue α ω} (hnodup : queue.waiters.Nodup) (self : α)
    (waker : ω) {waiter : α}
    (hmem : waiter ∈ (queue.poll willWake self waker).2.waiters) :
    WaiterStep willWake queue (.poll self waker)
      (queue.poll willWake self waker).1.2
      (queue.poll willWake self waker).2 waiter := by
  rcases queue.poll_cases willWake self waker with
    ⟨hempty, -, h⟩ | ⟨-, -, h⟩ | ⟨-, stored, hstored, h⟩
  · simp [h, hempty] at hmem
  · rw [h] at hmem ⊢
    simp only [maybeWake_waiters, grant_waiters, remove_waiters] at hmem
    have hne : waiter ≠ self := by
      rintro rfl
      exact (enqueue_nodup hnodup waiter).not_mem_erase hmem
    refine maybeWake_waiterStep ?_ ?_ ?_
    · rintro waker' ⟨⟩
      exact hne rfl
    · exact mem_of_mem_enqueue (List.mem_of_mem_erase hmem) hne
    · simpa using queue.enqueue_waker_of_ne hne
  · rw [h] at hmem ⊢
    by_cases hself : waiter = self
    · subst hself
      exact .inr (.inr ⟨waker, stored, rfl, by simp, hstored⟩)
    · refine .inl ⟨?_, mem_of_mem_enqueue hmem hself, ?_⟩
      · rintro waker' ⟨⟩
        exact hself rfl
      · simpa [setWaker, hself] using queue.enqueue_waker_of_ne hself

theorem perform_waiter (willWake : ω → ω → Bool) {queue : WaitQueue α ω}
    (hnodup : queue.waiters.Nodup) (op : Op α ω) (waiter : α)
    (hmem : waiter ∈ (queue.perform willWake op).2.waiters) :
    WaiterStep willWake queue op (queue.perform willWake op).1.2
      (queue.perform willWake op).2 waiter := by
  cases op with
  | poll self waker => exact poll_waiterStep willWake hnodup self waker hmem
  | dropAcquire self =>
      simp only [perform, dropAcquire] at hmem ⊢
      split at hmem
      · rename_i hself
        rw [if_pos hself]
        split at hmem
        · rename_i hhead
          rw [if_pos hhead]
          simp only [maybeWake_waiters, remove_waiters] at hmem
          exact maybeWake_waiterStep (by simp) (List.mem_of_mem_erase hmem)
            rfl
        · rename_i hhead
          rw [if_neg hhead]
          exact .inl ⟨by simp, List.mem_of_mem_erase hmem, rfl⟩
      · rename_i hself
        rw [if_neg hself]
        exact .inl ⟨by simp, hmem, rfl⟩
  | dropPermit =>
      simp only [perform, dropPermit, maybeWake_waiters] at hmem ⊢
      exact maybeWake_waiterStep (by simp) hmem rfl
  | addPermits permits =>
      simp only [perform, addPermits] at hmem ⊢
      split at hmem
      · rename_i hfits
        rw [if_pos hfits]
        simp only [maybeWake_waiters] at hmem
        exact maybeWake_waiterStep (by simp) hmem rfl
      · rename_i hfits
        rw [if_neg hfits]
        exact .inl ⟨by simp, hmem, rfl⟩
  | removePermits permits =>
      simp only [perform] at hmem ⊢
      split at hmem
      · rename_i hfits
        rw [if_pos hfits]
        exact .inl ⟨by simp, hmem, rfl⟩
      · rename_i hfits
        rw [if_neg hfits]
        exact .inl ⟨by simp, hmem, rfl⟩

/-! ## What an operation does to the order of the waiters -/

def waitersAfter (queue : WaitQueue α ω) : Op α ω → Reply → List α
  | .poll acquire _, .poll .ready =>
      (queue.enqueue acquire).waiters.erase acquire
  | .poll acquire _, _ => (queue.enqueue acquire).waiters
  | .dropAcquire acquire, _ => queue.waiters.erase acquire
  | _, _ => queue.waiters

theorem mem_waitersAfter_poll {queue : WaitQueue α ω} {self waiter : α}
    {waker : ω} {reply : Reply}
    (hmem : waiter ∈ queue.waitersAfter (.poll self waker) reply) :
    waiter ∈ (queue.enqueue self).waiters := by
  cases reply with
  | poll result =>
      cases result with
      | ready => exact List.mem_of_mem_erase hmem
      | pending => exact hmem
  | unit => exact hmem
  | panicked panic => exact hmem

theorem poll_result (willWake : ω → ω → Bool) (queue : WaitQueue α ω)
    (self : α) (waker : ω) :
    (queue.poll willWake self waker).1.1 =
      if (queue.enqueue self).waiters.head? = some self ∧ queue.hasPermits
      then .ready else .pending := by
  rcases queue.poll_cases willWake self waker with
    ⟨hempty, hpermits, h⟩ | ⟨hhead, hpermits, h⟩ | ⟨hhead, stored, -, h⟩
  · simp [h, enqueue_waiters, hempty, hpermits]
  · simp [h, hhead, hpermits]
  · simp [h, hhead]

theorem poll_pending_woken {willWake : ω → ω → Bool}
    {queue : WaitQueue α ω} {self : α} {waker : ω}
    (h : (queue.poll willWake self waker).1.1 = .pending) :
    (queue.poll willWake self waker).1.2 = none := by
  rcases queue.poll_cases willWake self waker with
    ⟨-, -, hpoll⟩ | ⟨-, -, hpoll⟩ | ⟨-, stored, -, hpoll⟩
  · simp [hpoll] at h
  · simp [hpoll] at h
  · simp [hpoll]

theorem poll_waiters (willWake : ω → ω → Bool) (queue : WaitQueue α ω)
    (self : α) (waker : ω) :
    (queue.poll willWake self waker).2.waiters =
      queue.waitersAfter (.poll self waker)
        (.poll (queue.poll willWake self waker).1.1) := by
  rcases queue.poll_cases willWake self waker with
    ⟨hempty, -, h⟩ | ⟨-, -, h⟩ | ⟨-, stored, -, h⟩
  · simp [h, enqueue_waiters, hempty, waitersAfter]
  · simp [h, waitersAfter]
  · simp [h, waitersAfter]

@[simp] theorem dropAcquire_waiters (queue : WaitQueue α ω) (self : α) :
    (queue.dropAcquire self).2.waiters = queue.waiters.erase self := by
  unfold dropAcquire
  split
  · split <;> simp
  · rename_i hout
    exact (List.erase_of_not_mem hout).symm

theorem perform_waiters (willWake : ω → ω → Bool) (queue : WaitQueue α ω)
    (op : Op α ω) :
    (queue.perform willWake op).2.waiters =
      queue.waitersAfter op (queue.perform willWake op).1.1 := by
  cases op with
  | poll self waker => exact queue.poll_waiters willWake self waker
  | dropAcquire self => exact queue.dropAcquire_waiters self
  | dropPermit => simp [perform, dropPermit, waitersAfter]
  | addPermits permits =>
      simp only [perform, addPermits, waitersAfter]
      split <;> simp
  | removePermits permits =>
      simp only [perform, removePermits, waitersAfter]
      split <;> rfl

/-! ## What an operation does to the counts -/

theorem poll_outstandingPermits (willWake : ω → ω → Bool)
    (queue : WaitQueue α ω) (self : α) (waker : ω) :
    (queue.poll willWake self waker).2.outstandingPermits =
      match (queue.poll willWake self waker).1.1 with
      | .ready => queue.outstandingPermits + 1
      | .pending => queue.outstandingPermits := by
  rcases queue.poll_cases willWake self waker with
    ⟨-, -, h⟩ | ⟨-, -, h⟩ | ⟨-, stored, -, h⟩ <;> simp [h]

theorem poll_totalPermits (willWake : ω → ω → Bool)
    (queue : WaitQueue α ω) (self : α) (waker : ω) :
    (queue.poll willWake self waker).2.totalPermits = queue.totalPermits := by
  rcases queue.poll_cases willWake self waker with
    ⟨-, -, h⟩ | ⟨-, -, h⟩ | ⟨-, stored, -, h⟩ <;> simp [h]

@[simp] theorem dropAcquire_outstandingPermits (queue : WaitQueue α ω)
    (self : α) :
    (queue.dropAcquire self).2.outstandingPermits =
      queue.outstandingPermits := by
  unfold dropAcquire
  split
  · split <;> simp
  · rfl

@[simp] theorem dropAcquire_totalPermits (queue : WaitQueue α ω)
    (self : α) :
    (queue.dropAcquire self).2.totalPermits = queue.totalPermits := by
  unfold dropAcquire
  split
  · split <;> simp
  · rfl

theorem perform_outstandingPermits (willWake : ω → ω → Bool)
    (queue : WaitQueue α ω) (op : Op α ω) :
    (queue.perform willWake op).2.outstandingPermits =
      System.permitsAfter queue.outstandingPermits op
        (queue.perform willWake op).1.1 := by
  cases op with
  | poll self waker =>
      simp only [perform, poll_outstandingPermits]
      cases (queue.poll willWake self waker).1.1 <;> rfl
  | dropAcquire self => simp [perform, System.permitsAfter]
  | dropPermit => simp [perform, dropPermit, System.permitsAfter]
  | addPermits permits =>
      simp only [perform, addPermits, System.permitsAfter]
      split <;> simp
  | removePermits permits =>
      simp only [perform, removePermits, System.permitsAfter]
      split <;> rfl

end WaitQueue

/-! ## The abstract queue follows the run -/

/-- The state of the system represents the queue, and the permits the queue
counts as outstanding are the live ones. -/
structure Tracks (system : System α ω) (queue : WaitQueue α ω) : Prop where
  represents : Represents system.state queue
  permits : queue.outstandingPermits = system.permits
  live : ∀ waiter ∈ queue.waiters, waiter ∉ system.dropped

theorem perform_run {state : State α ω} {queue : WaitQueue α ω}
    (h : Represents state queue) (willWake : ω → ω → Bool) (op : Op α ω)
    (hpermit : op = .dropPermit → 0 < queue.outstandingPermits) :
    ∃ state', Represents state' (queue.perform willWake op).2 ∧
      ((perform willWake op).run state =
          .ok (queue.perform willWake op).1 state' ∨
        ∃ panic, (perform willWake op).run state = .error panic state' ∧
          (queue.perform willWake op).1 = (.panicked panic, none)) := by
  cases op with
  | poll self waker =>
      obtain ⟨state', hrun, h'⟩ := h.poll willWake self waker
      refine ⟨state', h', .inl ?_⟩
      unfold perform
      rw [run_bind _ hrun]
      rfl
  | dropAcquire self =>
      obtain ⟨state', hrun, h'⟩ := h.dropAcquire self
      refine ⟨state', h', .inl ?_⟩
      unfold perform
      rw [run_bind _ hrun]
      rfl
  | dropPermit =>
      obtain ⟨state', hrun, h'⟩ := h.dropPermit (hpermit rfl)
      refine ⟨state', h', .inl ?_⟩
      unfold perform
      rw [run_bind _ hrun]
      rfl
  | addPermits permits =>
      by_cases hfits : queue.totalPermits + permits ≤ usizeMax
      · obtain ⟨state', hrun, h'⟩ := h.addPermits hfits
        refine ⟨state', ?_, .inl ?_⟩
        · simpa [WaitQueue.perform, hfits] using h'
        · unfold perform
          rw [run_bind _ hrun]
          simp only [WaitQueue.perform, if_pos hfits]
          rfl
      · have hrun : (addPermits permits).run state = _ :=
          addPermits_overflow (by rw [h.total]; omega)
        refine ⟨state, ?_, .inr ⟨.expect "permit count overflow", ?_, ?_⟩⟩
        · simpa [WaitQueue.perform, hfits] using h
        · simp only [EStateM.run] at hrun
          simp [perform, EStateM.run, bind, EStateM.bind, hrun]
        · simp [WaitQueue.perform, hfits]
  | removePermits permits =>
      by_cases hfits : permits ≤ queue.totalPermits
      · obtain ⟨state', hrun, h'⟩ := h.removePermits hfits
        refine ⟨state', ?_, .inl ?_⟩
        · simpa [WaitQueue.perform, hfits] using h'
        · unfold perform
          rw [run_bind _ hrun]
          simp only [WaitQueue.perform, if_pos hfits]
          rfl
      · have hrun : (removePermits permits).run state = _ :=
          removePermits_underflow (by rw [h.total]; omega)
        refine ⟨state, ?_, .inr ⟨.expect "permit count underflow", ?_, ?_⟩⟩
        · simpa [WaitQueue.perform, hfits] using h
        · simp only [EStateM.run] at hrun
          simp [perform, EStateM.run, bind, EStateM.bind, hrun]
        · simp [WaitQueue.perform, hfits]

omit [DecidableEq α] in
theorem new_tracks (permits : Nat) :
    Tracks (System.new α ω permits) (WaitQueue.new α ω permits) :=
  ⟨new_represents permits, rfl, by simp⟩

theorem Tracks.step {willWake : ω → ω → Bool} {system system' : System α ω}
    {queue : WaitQueue α ω} {event : Event α ω} (h : Tracks system queue)
    (hstep : System.Step willWake system event system') :
    Tracks system' (queue.perform willWake event.op).2 ∧
      event = ⟨event.op, (queue.perform willWake event.op).1.1,
        (queue.perform willWake event.op).1.2⟩ := by
  obtain ⟨henabled, hnext⟩ := hstep
  generalize hop : event.op = op at henabled hnext ⊢
  have hpermit : op = .dropPermit → 0 < queue.outstandingPermits := by
    rintro rfl
    rw [h.permits]
    exact henabled
  obtain ⟨state', hrep, hrun⟩ :=
    perform_run h.represents willWake op hpermit
  have hnext' : system.next willWake op =
      (⟨op, (queue.perform willWake op).1.1,
          (queue.perform willWake op).1.2⟩,
        ⟨state', System.permitsAfter system.permits op
          (queue.perform willWake op).1.1,
          System.droppedAfter system.dropped op⟩) := by
    rcases hrun with hrun | ⟨panic, hrun, hreply⟩
    · simp only [System.next, hrun]
    · simp only [System.next, hrun, hreply]
  rw [hnext', Prod.mk.injEq] at hnext
  obtain ⟨rfl, rfl⟩ := hnext
  refine ⟨⟨hrep, ?_, ?_⟩, rfl⟩
  · rw [WaitQueue.perform_outstandingPermits, h.permits]
  · intro waiter hmem
    rw [WaitQueue.perform_waiters] at hmem
    cases op with
    | poll self waker =>
        simp only [System.droppedAfter]
        by_cases heq : waiter = self
        · subst heq
          exact henabled
        · apply h.live
          exact WaitQueue.mem_of_mem_enqueue
            (WaitQueue.mem_waitersAfter_poll hmem) heq
    | dropAcquire self =>
        simp only [WaitQueue.waitersAfter] at hmem
        simp only [System.droppedAfter, Finset.mem_insert, not_or]
        refine ⟨?_, h.live waiter (List.mem_of_mem_erase hmem)⟩
        rintro rfl
        exact h.represents.linked.nodup.not_mem_erase hmem
    | dropPermit | addPermits | removePermits =>
        simp only [WaitQueue.waitersAfter] at hmem
        simpa [System.droppedAfter] using h.live waiter hmem

theorem run_invariant {willWake : ω → ω → Bool} {permits : Nat}
    {events : List (Event α ω)} {system : System α ω}
    (run : Run (System.Step willWake) (System.new α ω permits) events system)
    (Inv : List (Event α ω) → WaitQueue α ω → Prop)
    (hnew : Inv [] (WaitQueue.new α ω permits))
    (hstep : ∀ {events} {queue : WaitQueue α ω} (op : Op α ω),
      Inv events queue → queue.waiters.Nodup →
      Inv (events ++ [⟨op, (queue.perform willWake op).1.1,
        (queue.perform willWake op).1.2⟩]) (queue.perform willWake op).2) :
    ∃ queue, Tracks system queue ∧ Inv events queue := by
  refine run.invariant
    (fun events system => ∃ queue, Tracks system queue ∧ Inv events queue)
    ⟨_, new_tracks permits, hnew⟩ ?_
  rintro events system event system' ⟨queue, htracks, hinv⟩ hsys
  obtain ⟨htracks', hevent⟩ := htracks.step hsys
  refine ⟨_, htracks', ?_⟩
  rw [hevent]
  exact hstep event.op hinv htracks.represents.linked.nodup

end ConjureRuntime.Limiter
