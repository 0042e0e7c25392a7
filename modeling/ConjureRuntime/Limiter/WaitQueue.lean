import ConjureRuntime.Limiter.DeficitSemaphore

/-!
# The semaphore as a queue of waiters

What the deficit semaphore is for, without its links: a total, a number of
permits out, and the waiters in the order in which they were first polled,
each with the waker it registered and has not been woken through yet.
-/

namespace ConjureRuntime.Limiter

structure WaitQueue (α ω : Type) where
  totalPermits : Nat
  outstandingPermits : Nat
  waiters : List α
  waker : α → Option ω

namespace WaitQueue

variable {α ω : Type} [DecidableEq α]

def new (α ω : Type) (permits : Nat) : WaitQueue α ω :=
  ⟨permits, 0, [], fun _ => none⟩

def hasPermits (queue : WaitQueue α ω) : Bool :=
  queue.outstandingPermits < queue.totalPermits

def setWaker (queue : WaitQueue α ω) (waiter : α) (waker : Option ω) :
    WaitQueue α ω :=
  { queue with waker := Function.update queue.waker waiter waker }

def grant (queue : WaitQueue α ω) : WaitQueue α ω :=
  { queue with outstandingPermits := queue.outstandingPermits + 1 }

def enqueue (queue : WaitQueue α ω) (waiter : α) : WaitQueue α ω :=
  if waiter ∈ queue.waiters then queue
  else { queue.setWaker waiter none with
    waiters := queue.waiters ++ [waiter] }

def remove (queue : WaitQueue α ω) (waiter : α) : WaitQueue α ω :=
  { queue with waiters := queue.waiters.erase waiter }

def maybeWake (queue : WaitQueue α ω) : Woken α ω × WaitQueue α ω :=
  if queue.hasPermits then
    match queue.waiters.head? with
    | some head =>
        match queue.waker head with
        | some waker => (some (head, waker), queue.setWaker head none)
        | none => (none, queue)
    | none => (none, queue)
  else (none, queue)

def poll (willWake : ω → ω → Bool) (self : α) (waker : ω)
    (queue : WaitQueue α ω) : (Poll × Woken α ω) × WaitQueue α ω :=
  if queue.waiters = [] ∧ queue.hasPermits then
    ((.ready, none), queue.grant)
  else
    let queue := queue.enqueue self
    if queue.waiters.head? = some self ∧ queue.hasPermits then
      let (woken, queue) := (queue.remove self).grant.maybeWake
      ((.ready, woken), queue)
    else if (queue.waker self).any (willWake · waker) then
      ((.pending, none), queue)
    else ((.pending, none), queue.setWaker self (some waker))

def dropAcquire (self : α) (queue : WaitQueue α ω) :
    Woken α ω × WaitQueue α ω :=
  if self ∈ queue.waiters then
    if queue.waiters.head? = some self then (queue.remove self).maybeWake
    else (none, queue.remove self)
  else (none, queue)

def dropPermit (queue : WaitQueue α ω) : Woken α ω × WaitQueue α ω :=
  { queue with
    outstandingPermits := queue.outstandingPermits - 1 }.maybeWake

def addPermits (permits : Nat) (queue : WaitQueue α ω) :
    Woken α ω × WaitQueue α ω :=
  { queue with totalPermits := queue.totalPermits + permits }.maybeWake

def removePermits (permits : Nat) (queue : WaitQueue α ω) :
    WaitQueue α ω :=
  { queue with totalPermits := queue.totalPermits - permits }

/-! ## Lemmas on the operations -/

section fields

variable (queue : WaitQueue α ω) (waiter : α) (waker : Option ω)

section

omit [DecidableEq α]

@[simp] theorem new_waiters (permits : Nat) :
    (new α ω permits).waiters = [] := rfl

@[simp] theorem grant_waiters : queue.grant.waiters = queue.waiters := rfl

@[simp] theorem grant_waker : queue.grant.waker = queue.waker := rfl

@[simp] theorem grant_totalPermits :
    queue.grant.totalPermits = queue.totalPermits := rfl

@[simp] theorem grant_outstandingPermits :
    queue.grant.outstandingPermits = queue.outstandingPermits + 1 := rfl

end

@[simp] theorem setWaker_waiters :
    (queue.setWaker waiter waker).waiters = queue.waiters := rfl

@[simp] theorem setWaker_hasPermits :
    (queue.setWaker waiter waker).hasPermits = queue.hasPermits := rfl

@[simp] theorem setWaker_totalPermits :
    (queue.setWaker waiter waker).totalPermits = queue.totalPermits := rfl

@[simp] theorem setWaker_outstandingPermits :
    (queue.setWaker waiter waker).outstandingPermits =
      queue.outstandingPermits := rfl

@[simp] theorem setWaker_waker_self :
    (queue.setWaker waiter waker).waker waiter = waker := by
  simp [setWaker]

@[simp] theorem remove_waiters :
    (queue.remove waiter).waiters = queue.waiters.erase waiter := rfl

@[simp] theorem remove_waker :
    (queue.remove waiter).waker = queue.waker := rfl

@[simp] theorem remove_hasPermits :
    (queue.remove waiter).hasPermits = queue.hasPermits := rfl

@[simp] theorem remove_totalPermits :
    (queue.remove waiter).totalPermits = queue.totalPermits := rfl

@[simp] theorem remove_outstandingPermits :
    (queue.remove waiter).outstandingPermits =
      queue.outstandingPermits := rfl

@[simp] theorem enqueue_totalPermits :
    (queue.enqueue waiter).totalPermits = queue.totalPermits := by
  unfold enqueue
  split <;> rfl

@[simp] theorem enqueue_outstandingPermits :
    (queue.enqueue waiter).outstandingPermits =
      queue.outstandingPermits := by
  unfold enqueue
  split <;> rfl

@[simp] theorem enqueue_hasPermits :
    (queue.enqueue waiter).hasPermits = queue.hasPermits := by
  simp [hasPermits]

theorem enqueue_waiters :
    (queue.enqueue waiter).waiters =
      if waiter ∈ queue.waiters then queue.waiters
      else queue.waiters ++ [waiter] := by
  unfold enqueue
  split <;> simp [*]

theorem mem_enqueue_waiters : waiter ∈ (queue.enqueue waiter).waiters := by
  rw [enqueue_waiters]
  split <;> simp [*]

end fields

theorem setWaker_eq_self {queue : WaitQueue α ω} {waiter : α}
    {waker : Option ω} (h : queue.waker waiter = waker) :
    queue.setWaker waiter waker = queue := by
  subst h
  simp [setWaker]

theorem maybeWake_cases (queue : WaitQueue α ω) :
    (queue.maybeWake = (none, queue) ∧
      (queue.hasPermits → ∀ head, queue.waiters.head? = some head →
        queue.waker head = none)) ∨
    ∃ head waker, queue.hasPermits ∧ queue.waiters.head? = some head ∧
      queue.waker head = some waker ∧
      queue.maybeWake = (some (head, waker), queue.setWaker head none) := by
  unfold maybeWake
  by_cases hpermits : queue.hasPermits
  · rw [if_pos hpermits]
    cases hhead : queue.waiters.head? with
    | none => simp
    | some head =>
        cases hwaker : queue.waker head with
        | none => simp [hwaker]
        | some waker => simp [hpermits, hwaker]
  · simp [hpermits]

@[simp] theorem maybeWake_waiters (queue : WaitQueue α ω) :
    queue.maybeWake.2.waiters = queue.waiters := by
  rcases queue.maybeWake_cases with ⟨h, -⟩ | ⟨head, waker, -, -, -, h⟩ <;>
    simp [h]

@[simp] theorem maybeWake_totalPermits (queue : WaitQueue α ω) :
    queue.maybeWake.2.totalPermits = queue.totalPermits := by
  rcases queue.maybeWake_cases with ⟨h, -⟩ | ⟨head, waker, -, -, -, h⟩ <;>
    simp [h]

@[simp] theorem maybeWake_outstandingPermits (queue : WaitQueue α ω) :
    queue.maybeWake.2.outstandingPermits = queue.outstandingPermits := by
  rcases queue.maybeWake_cases with ⟨h, -⟩ | ⟨head, waker, -, -, -, h⟩ <;>
    simp [h]

theorem poll_cases (willWake : ω → ω → Bool) (self : α) (waker : ω)
    (queue : WaitQueue α ω) :
    (queue.waiters = [] ∧ queue.hasPermits ∧
      queue.poll willWake self waker = ((.ready, none), queue.grant)) ∨
    ((queue.enqueue self).waiters.head? = some self ∧ queue.hasPermits ∧
      queue.poll willWake self waker =
        ((.ready, ((queue.enqueue self).remove self).grant.maybeWake.1),
          ((queue.enqueue self).remove self).grant.maybeWake.2)) ∨
    (¬ ((queue.enqueue self).waiters.head? = some self ∧
        queue.hasPermits) ∧
      ∃ stored, (stored = waker ∨ willWake stored waker) ∧
        queue.poll willWake self waker =
          ((.pending, none),
            (queue.enqueue self).setWaker self (some stored))) := by
  unfold poll
  by_cases hfast : queue.waiters = [] ∧ queue.hasPermits
  · rw [if_pos hfast]
    exact .inl ⟨hfast.1, hfast.2, rfl⟩
  · rw [if_neg hfast]
    dsimp only
    rw [enqueue_hasPermits]
    by_cases hhead : (queue.enqueue self).waiters.head? = some self ∧
        queue.hasPermits
    · rw [if_pos hhead]
      exact .inr (.inl ⟨hhead.1, hhead.2, rfl⟩)
    · rw [if_neg hhead]
      refine .inr (.inr ⟨hhead, ?_⟩)
      cases hstored : (queue.enqueue self).waker self with
      | none => exact ⟨waker, .inl rfl, rfl⟩
      | some stored =>
          by_cases hwake : willWake stored waker = true
          · have hkept := setWaker_eq_self hstored
            exact ⟨stored, .inr hwake, by simp [hwake, hkept]⟩
          · refine ⟨waker, .inl rfl, ?_⟩
            simp [hwake]

/-! ## The waiter at the head has been woken -/

/-- If a permit is free, the waker of the waiter at the head was taken. -/
def Woke (queue : WaitQueue α ω) : Prop :=
  queue.hasPermits → ∀ head, queue.waiters.head? = some head →
    queue.waker head = none

omit [DecidableEq α] in
theorem new_woke (permits : Nat) : (new α ω permits).Woke := by
  simp [Woke]

theorem maybeWake_woke (queue : WaitQueue α ω) : queue.maybeWake.2.Woke := by
  rcases queue.maybeWake_cases with ⟨h, hwoke⟩ | ⟨head, waker, -, hhead, -, h⟩
  · rw [h]
    exact hwoke
  · rw [h]
    intro _ head' hhead'
    rw [setWaker_waiters, hhead] at hhead'
    cases hhead'
    simp

end WaitQueue

end ConjureRuntime.Limiter
