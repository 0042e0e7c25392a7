import ConjureRuntime.Limiter.SemaphoreRuns

/-!
# Permits are accounted for

The number of permits out is the number of permits that callers hold.  The
total may be taken below it while they do, but a permit is only granted while
there is room under the total.
-/

namespace ConjureRuntime.Limiter

open ConjureRuntime.Foundation

variable {α ω : Type} [DecidableEq α] {willWake : ω → ω → Bool}

namespace WaitQueue

variable {queue : WaitQueue α ω}

theorem poll_within (self : α) (waker : ω) :
    ((queue.poll willWake self waker).2.outstandingPermits =
        queue.outstandingPermits ∧
      (queue.poll willWake self waker).2.totalPermits =
        queue.totalPermits) ∨
    (queue.poll willWake self waker).2.outstandingPermits ≤
      (queue.poll willWake self waker).2.totalPermits := by
  rcases queue.poll_cases willWake self waker with
    ⟨-, hpermits, h⟩ | ⟨-, hpermits, h⟩ | ⟨-, stored, -, h⟩
  · have hfree : queue.outstandingPermits < queue.totalPermits :=
      of_decide_eq_true hpermits
    refine .inr ?_
    simp only [h, grant_outstandingPermits, grant_totalPermits]
    exact hfree
  · have hfree : queue.outstandingPermits < queue.totalPermits :=
      of_decide_eq_true hpermits
    refine .inr ?_
    simp only [h, maybeWake_outstandingPermits, maybeWake_totalPermits,
      grant_outstandingPermits, grant_totalPermits,
      remove_outstandingPermits, remove_totalPermits,
      enqueue_outstandingPermits, enqueue_totalPermits]
    exact hfree
  · simp [h]

theorem perform_grants (op : Op α ω)
    (h : queue.outstandingPermits <
      (queue.perform willWake op).2.outstandingPermits) :
    (queue.perform willWake op).2.outstandingPermits ≤
      (queue.perform willWake op).2.totalPermits := by
  cases op with
  | poll self waker =>
      rcases poll_within self waker with ⟨hsame, -⟩ | hwithin
      · exact absurd hsame (Nat.ne_of_gt h)
      · exact hwithin
  | dropAcquire | dropPermit | addPermits | removePermits =>
      rw [perform_outstandingPermits] at h
      simp only [System.permitsAfter] at h
      omega

theorem perform_within (op : Op α ω)
    (hop : ∀ permits, op ≠ .removePermits permits)
    (h : queue.outstandingPermits ≤ queue.totalPermits) :
    (queue.perform willWake op).2.outstandingPermits ≤
      (queue.perform willWake op).2.totalPermits := by
  cases op with
  | poll self waker =>
      rcases poll_within self waker with ⟨hout, htotal⟩ | hwithin
      · exact (hout.trans_le h).trans_eq htotal.symm
      · exact hwithin
  | dropAcquire self => simpa [perform] using h
  | dropPermit =>
      simp only [perform, dropPermit, maybeWake_outstandingPermits,
        maybeWake_totalPermits]
      omega
  | addPermits permits =>
      simp only [perform, addPermits]
      split
      · simp only [maybeWake_outstandingPermits, maybeWake_totalPermits]
        omega
      · exact h
  | removePermits permits => exact absurd rfl (hop permits)

end WaitQueue

theorem perform_reply (queue : WaitQueue α ω) (op : Op α ω) :
    (queue.perform willWake op).1.1 ≠ .panicked .arithmeticOverflow := by
  cases op with
  | poll | dropAcquire | dropPermit => simp [WaitQueue.perform]
  | addPermits permits | removePermits permits =>
      simp only [WaitQueue.perform]
      split <;> simp

theorem next_unfitting {system : System α ω} {op : Op α ω} {message : String}
    (h : (perform willWake op).run system.state =
      .error (.expect message) system.state)
    (hpermits : ∀ reply,
      System.permitsAfter system.permits op reply = system.permits)
    (hdropped : System.droppedAfter system.dropped op = system.dropped) :
    system.next willWake op =
      (⟨op, .panicked (.expect message), none⟩, system) := by
  simp only [System.next, h, hpermits, hdropped]

theorem next_overflow {system : System α ω} {permits : Nat}
    (h : usizeMax < system.state.totalPermits + permits) :
    system.next willWake (.addPermits permits) =
      (⟨.addPermits permits, .panicked (.expect "permit count overflow"),
        none⟩, system) := by
  have hrun := addPermits_overflow h
  simp only [EStateM.run] at hrun
  refine next_unfitting ?_ (fun _ => rfl) rfl
  simp [perform, EStateM.run, bind, EStateM.bind, hrun]

theorem next_underflow {system : System α ω} {permits : Nat}
    (h : system.state.totalPermits < permits) :
    system.next willWake (.removePermits permits) =
      (⟨.removePermits permits, .panicked (.expect "permit count underflow"),
        none⟩, system) := by
  have hrun := removePermits_underflow h
  simp only [EStateM.run] at hrun
  refine next_unfitting ?_ (fun _ => rfl) rfl
  simp [perform, EStateM.run, bind, EStateM.bind, hrun]

/-! ## Runs -/

def RemovesNothing (events : List (Event α ω)) : Prop :=
  ∀ event ∈ events, ∀ permits, event.op ≠ .removePermits permits

theorem run_within {permits : Nat} {events : List (Event α ω)}
    {system : System α ω}
    (run : Run (System.Step willWake) (System.new α ω permits) events
      system) :
    ∃ queue, Tracks system queue ∧ (RemovesNothing events →
      queue.outstandingPermits ≤ queue.totalPermits) := by
  refine run_invariant run (fun events queue => RemovesNothing events →
    queue.outstandingPermits ≤ queue.totalPermits) ?_ ?_
  · intro _
    exact Nat.zero_le _
  · intro events queue op ih _ hevents
    refine WaitQueue.perform_within op (fun permits => ?_) (ih ?_)
    · exact hevents _ (List.mem_append_right _ (List.mem_singleton_self _))
        permits
    · exact fun event hmem => hevents event (List.mem_append_left _ hmem)

structure Accounts (system : System α ω) (event : Event α ω)
    (system' : System α ω) : Prop where
  defined : event.reply ≠ .panicked .arithmeticOverflow
  grants : system.state.outstandingPermits <
      system'.state.outstandingPermits →
    system'.state.outstandingPermits ≤ system'.state.totalPermits
  overflow : ∀ permits, event.op = .addPermits permits →
    usizeMax < system.state.totalPermits + permits →
    event.reply = .panicked (.expect "permit count overflow") ∧
      system' = system
  underflow : ∀ permits, event.op = .removePermits permits →
    system.state.totalPermits < permits →
    event.reply = .panicked (.expect "permit count underflow") ∧
      system' = system

theorem Tracks.accounts {system system' : System α ω}
    {queue : WaitQueue α ω} {event : Event α ω} (h : Tracks system queue)
    (hstep : System.Step willWake system event system') :
    Accounts system event system' := by
  obtain ⟨h', hevent⟩ := h.step hstep
  have hrep := h.represents
  have hrep' := h'.represents
  refine ⟨?_, ?_, ?_, ?_⟩
  · rw [hevent]
    exact perform_reply queue event.op
  · rw [hrep.outstanding, hrep'.outstanding, hrep'.total]
    exact WaitQueue.perform_grants event.op
  · intro permits hop hoverflow
    have hnext := hstep.2
    rw [hop, next_overflow hoverflow, Prod.mk.injEq] at hnext
    exact ⟨hnext.1 ▸ rfl, hnext.2.symm⟩
  · intro permits hop hunderflow
    have hnext := hstep.2
    rw [hop, next_underflow hunderflow, Prod.mk.injEq] at hnext
    exact ⟨hnext.1 ▸ rfl, hnext.2.symm⟩

/-- In every reachable state the permits out are the live ones; whatever
happens next is accounted for; and without removals the permits out stay
within the total. -/
theorem permits_accounted {permits : Nat} {events : List (Event α ω)}
    {system : System α ω}
    (run : Run (System.Step willWake) (System.new α ω permits) events
      system) :
    system.state.outstandingPermits = system.permits ∧
      (∀ event system', System.Step willWake system event system' →
        Accounts system event system') ∧
      (RemovesNothing events → system.state.outstandingPermits ≤
        system.state.totalPermits) := by
  obtain ⟨queue, htracks, hwithin⟩ := run_within run
  have hrep := htracks.represents
  refine ⟨hrep.outstanding.trans htracks.permits,
    fun event system' hstep => htracks.accounts hstep, ?_⟩
  rw [hrep.outstanding, hrep.total]
  exact hwithin

theorem two_permits_out_of_one :
    ∃ events system,
      Run (System.Step (· == ·)) (System.new Nat Nat 2) events system ∧
      system.state.totalPermits = 1 ∧
      system.state.outstandingPermits = system.permits ∧
      system.permits = 2 := by
  have h : exec (System.tryNext (· == ·)) (System.new Nat Nat 2)
      [.poll 0 10, .poll 1 11, .removePermits 1, .removePermits 2] =
        some (_, _) := rfl
  have run := exec_run System.tryNext_step h
  exact ⟨_, _, run, rfl, (permits_accounted run).1, rfl⟩

end ConjureRuntime.Limiter
