import ConjureRuntime.Foundation.Returns
import ConjureRuntime.Limiter.CiadAccounting
import ConjureRuntime.Limiter.Wakeups
import Mathlib.Data.Finset.Card

/-!
# The limiter one operation at a time

Polling an acquisition, dropping one, and dropping a permit together with its
update of the limit, with nothing in between.  `Serves` is what every such
operation keeps: the total of the semaphore is the integer part of the limit,
the waiters and the permits out are the given ones, and a waiter that lost
its waker was woken.
-/

namespace ConjureRuntime.Limiter.Ciad

open ConjureRuntime.Foundation

variable {ω : Type}

def locked {β : Type} (action : Locked Nat ω β) (limiter : Ciad ω) :
    Except Panic (β × Ciad ω) :=
  match action.run limiter.semaphore with
  | .ok result semaphore => .ok (result, { limiter with semaphore })
  | .error panic _ => .error panic

/-- Poll the future of `acquire`; the result is the snapshot of the requests
in flight that its permit keeps. -/
def pollAcquire (willWake : ω → ω → Bool) (self : Nat) (waker : ω)
    (limiter : Ciad ω) :
    Except Panic ((Option Nat × Woken Nat ω) × Ciad ω) := do
  let ((result, woken), limiter) ← locked (poll willWake self waker) limiter
  match result with
  | .ready =>
      let inFlight := limiter.inFlight + 1
      pure ((some inFlight, woken), { limiter with inFlight })
  | .pending => pure ((none, woken), limiter)

def updateLimit (update : Update) (limiter : Ciad ω) :
    Except Panic (Woken Nat ω × Ciad ω) :=
  match update.apply limiter.limit with
  | none => pure (none, limiter)
  | some limit =>
      let oldLimit := ⌊limiter.limit⌋₊
      let newLimit := ⌊limit⌋₊
      if oldLimit < newLimit then
        locked (addPermits (newLimit - oldLimit)) { limiter with limit }
      else if newLimit < oldLimit then do
        let (_, limiter) ← locked (removePermits (oldLimit - newLimit))
          { limiter with limit }
        pure (none, limiter)
      else pure (none, { limiter with limit })

/-- `Drop for Permit`, the permit of the semaphore included. -/
def dropPermit (inFlightSnapshot : Nat) (mode : Mode) (limiter : Ciad ω) :
    Except Panic (List (Woken Nat ω) × Ciad ω) := do
  let limiter := { limiter with inFlight := limiter.inFlight - 1 }
  let (adjusted, limiter) ←
    match mode.update inFlightSnapshot with
    | some update => updateLimit update limiter
    | none => pure (none, limiter)
  let (released, limiter) ← locked Limiter.dropPermit limiter
  pure ([adjusted, released], limiter)

/-! ## What the operations keep -/

structure Serves (limiter : Ciad ω) (queue : WaitQueue Nat ω)
    (waiting : Nat → Prop) (permits : Nat) (woken : Nat → Prop) : Prop where
  represents : Represents limiter.semaphore queue
  total : queue.totalPermits = ⌊limiter.limit⌋₊
  inRange : InRange limiter.limit
  outstanding : queue.outstandingPermits = permits
  waiters : ∀ waiter, waiter ∈ queue.waiters ↔ waiting waiter
  woke : queue.Woke
  registered : ∀ waiter ∈ queue.waiters, queue.waker waiter = none →
    woken waiter

def WokenBy (wakes : List (Woken Nat ω)) (waiter : Nat) : Prop :=
  ∃ waker, some (waiter, waker) ∈ wakes

theorem wokenBy_append {wakes wakes' : List (Woken Nat ω)} {waiter : Nat} :
    WokenBy (wakes ++ wakes') waiter ↔
      WokenBy wakes waiter ∨ WokenBy wakes' waiter := by
  simp [WokenBy, exists_or]

theorem wokenBy_cons {woken : Woken Nat ω} {wakes : List (Woken Nat ω)}
    {waiter : Nat} :
    WokenBy (woken :: wakes) waiter ↔
      WokenBy [woken] waiter ∨ WokenBy wakes waiter :=
  @wokenBy_append ω [woken] wakes waiter

theorem locked_returns {β : Type} {action : Locked Nat ω β}
    (limiter : Ciad ω) {result : β} {semaphore : State Nat ω}
    (h : action.run limiter.semaphore = .ok result semaphore)
    {post : β × Ciad ω → Prop}
    (hpost : post (result, { limiter with semaphore })) :
    Returns (locked action limiter) post :=
  .of_eq (by simp only [locked, h]) hpost

theorem new_serves (woken : Nat → Prop) :
    Serves (Ciad.new ω) (WaitQueue.new Nat ω initialLimit)
      (fun _ => False) 0 woken where
  represents := new_represents _
  total := by simp [Ciad.new, WaitQueue.new, Nat.floor_natCast]
  inRange := initialLimit_inRange
  outstanding := rfl
  waiters := by simp
  woke := WaitQueue.new_woke _
  registered := by simp

namespace Serves

variable {willWake : ω → ω → Bool} {limiter : Ciad ω}
  {queue : WaitQueue Nat ω} {waiting woken : Nat → Prop} {permits : Nat}

theorem congr {waiting' woken' : Nat → Prop} {permits' : Nat}
    (h : Serves limiter queue waiting permits woken)
    (hwaiting : ∀ waiter, waiting waiter ↔ waiting' waiter)
    (hpermits : permits = permits')
    (hwoken : ∀ waiter, waiting waiter → woken waiter → woken' waiter) :
    Serves limiter queue waiting' permits' woken' where
  represents := h.represents
  total := h.total
  inRange := h.inRange
  outstanding := h.outstanding.trans hpermits
  waiters waiter := (h.waiters waiter).trans (hwaiting waiter)
  woke := h.woke
  registered waiter hmem hnone :=
    hwoken waiter ((h.waiters waiter).mp hmem) (h.registered waiter hmem hnone)

theorem wake (h : Serves limiter queue waiting permits woken)
    (wakes : List (Woken Nat ω)) :
    Serves limiter queue waiting permits
      (fun waiter => woken waiter ∨ WokenBy wakes waiter) :=
  h.congr (fun _ => Iff.rfl) rfl fun _ _ => .inl

theorem withInFlight (h : Serves limiter queue waiting permits woken)
    (inFlight : Nat) :
    Serves { limiter with inFlight } queue waiting permits woken :=
  ⟨h.represents, h.total, h.inRange, h.outstanding, h.waiters, h.woke,
    h.registered⟩

theorem one_le_total (h : Serves limiter queue waiting permits woken) :
    1 ≤ queue.totalPermits := by
  rw [h.total]
  exact Nat.floor_pos.mpr (by simpa [minLimit] using h.inRange.1)

theorem perform (h : Serves limiter queue waiting permits woken)
    (op : Limiter.Op Nat ω) (willWake : ω → ω → Bool) (limiter' : Ciad ω)
    (hrep : Represents limiter'.semaphore (queue.perform willWake op).2)
    (htotal : (queue.perform willWake op).2.totalPermits =
      ⌊limiter'.limit⌋₊)
    (hrange : InRange limiter'.limit) :
    Serves limiter' (queue.perform willWake op).2
      (fun waiter => waiter ∈ (queue.perform willWake op).2.waiters)
      (queue.perform willWake op).2.outstandingPermits
      (fun waiter => (woken waiter ∨
        WokenBy [(queue.perform willWake op).1.2] waiter) ∧
        ∀ waker, op ≠ .poll waiter waker) where
  represents := hrep
  total := htotal
  inRange := hrange
  outstanding := rfl
  waiters _ := Iff.rfl
  woke := queue.perform_woke willWake h.woke op
  registered := by
    intro waiter hmem hnone
    rcases queue.perform_waiter willWake h.represents.linked.nodup op _ hmem
      with ⟨hop, hmem', hkept⟩ | ⟨hop, hmem', waker, -, -, hwoken⟩ |
        ⟨waker, stored, -, hstored, -⟩
    · exact ⟨.inl (h.registered waiter hmem' (hkept ▸ hnone)), hop⟩
    · exact ⟨.inr ⟨waker, by simp [hwoken]⟩, hop⟩
    · simp [hstored] at hnone

theorem pollAcquire (h : Serves limiter queue waiting permits woken)
    (willWake : ω → ω → Bool) (self : Nat) (waker : ω) :
    Returns (limiter.pollAcquire willWake self waker)
      fun ((result, wokenNow), limiter') =>
        (result.isSome ↔ (queue.enqueue self).waiters.head? = some self ∧
          permits < queue.totalPermits) ∧
        ∃ queue',
          (result.isSome ∧ Serves limiter' queue'
            (fun waiter => waiting waiter ∧ waiter ≠ self) (permits + 1)
            (fun waiter => woken waiter ∨ WokenBy [wokenNow] waiter)) ∨
          (result = none ∧ wokenNow = none ∧ Serves limiter' queue'
            (fun waiter => waiting waiter ∨ waiter = self) permits
            (fun waiter => woken waiter ∧ waiter ≠ self)) := by
  obtain ⟨semaphore, hrun, hrep⟩ := h.represents.poll willWake self waker
  have hserves := h.perform (.poll self waker) willWake
    { limiter with semaphore } hrep
    (by simpa [WaitQueue.perform, WaitQueue.poll_totalPermits]
      using h.total) h.inRange
  have hresult := queue.poll_result willWake self waker
  have hout := queue.poll_outstandingPermits willWake self waker
  have hwaiters := queue.poll_waiters willWake self waker
  have hquiet := @WaitQueue.poll_pending_woken _ _ _ willWake queue self waker
  have hpermits : queue.hasPermits = true ↔ permits < queue.totalPermits := by
    rw [← h.outstanding]
    exact decide_eq_true_iff
  have hmem : ∀ waiter, waiter ∈ (queue.enqueue self).waiters ↔
      waiting waiter ∨ waiter = self := by
    intro waiter
    rw [WaitQueue.enqueue_waiters, ← h.waiters waiter]
    split
    · rename_i hself
      exact ⟨.inl, fun hor => hor.elim id fun heq => heq ▸ hself⟩
    · simp
  have hnodup := WaitQueue.enqueue_nodup h.represents.linked.nodup self
  refine Returns.bind (locked_returns _ hrun rfl :
    Returns _ fun out => out = (_, _)) ?_
  rintro _ rfl
  simp only [WaitQueue.perform] at hserves
  generalize queue.poll willWake self waker = polled at *
  obtain ⟨⟨result, wokenNow⟩, queue'⟩ := polled
  dsimp only at hresult hout hwaiters hquiet hserves ⊢
  by_cases hgrant : (queue.enqueue self).waiters.head? = some self ∧
      permits < queue.totalPermits
  · rw [if_pos ⟨hgrant.1, hpermits.mpr hgrant.2⟩] at hresult
    subst hresult
    dsimp only [WaitQueue.waitersAfter] at hout hwaiters
    refine .pure ⟨by simp [hgrant], queue', .inl ⟨rfl, ?_⟩⟩
    refine (hserves.withInFlight _).congr ?_ ?_ ?_
    · intro waiter
      rw [hwaiters, hnodup.mem_erase_iff, hmem]
      tauto
    · rw [hout, h.outstanding]
    · exact fun waiter _ hwoken => hwoken.1
  · rw [if_neg (by rwa [hpermits])] at hresult
    subst hresult
    obtain rfl := hquiet rfl
    dsimp only [WaitQueue.waitersAfter] at hout hwaiters
    refine .pure ⟨by simp [hgrant], queue', .inr ⟨rfl, rfl, ?_⟩⟩
    refine hserves.congr ?_ ?_ ?_
    · intro waiter
      rw [hwaiters, hmem]
    · rw [hout, h.outstanding]
    · rintro waiter - ⟨hwoken, hop⟩
      refine ⟨hwoken.resolve_right (by simp [WokenBy]), ?_⟩
      rintro rfl
      exact hop waker rfl

theorem dropAcquire (h : Serves limiter queue waiting permits woken)
    (self : Nat) :
    Returns (locked (Limiter.dropAcquire self) limiter)
      fun (wokenNow, limiter') => ∃ queue', Serves limiter' queue'
        (fun waiter => waiting waiter ∧ waiter ≠ self) permits
        (fun waiter => woken waiter ∨ WokenBy [wokenNow] waiter) := by
  obtain ⟨semaphore, hrun, hrep⟩ := h.represents.dropAcquire self
  have hserves := h.perform (.dropAcquire self) (fun _ _ => true)
    { limiter with semaphore } hrep
    (by simpa [WaitQueue.perform] using h.total) h.inRange
  refine locked_returns limiter hrun ?_
  refine ⟨_, hserves.congr ?_ ?_ ?_⟩
  · intro waiter
    rw [WaitQueue.perform_waiters, WaitQueue.waitersAfter,
      h.represents.linked.nodup.mem_erase_iff, h.waiters, and_comm]
  · simpa [WaitQueue.perform] using h.outstanding
  · exact fun waiter _ hwoken => hwoken.1

theorem addPermits (h : Serves limiter queue waiting permits woken)
    {limit : ℚ} (hrange : InRange limit)
    (hgrows : ⌊limiter.limit⌋₊ ≤ ⌊limit⌋₊) :
    Returns (locked (Limiter.addPermits (⌊limit⌋₊ - ⌊limiter.limit⌋₊))
        { limiter with limit })
      fun (wokenNow, limiter') => ∃ queue', Serves limiter' queue'
        waiting permits
        (fun waiter => woken waiter ∨ WokenBy [wokenNow] waiter) := by
  have htotal := h.total
  have hmax : ⌊limit⌋₊ ≤ maxLimit := Nat.floor_le_of_le hrange.2
  have hfits : queue.totalPermits + (⌊limit⌋₊ - ⌊limiter.limit⌋₊) ≤
      usizeMax := by
    have : maxLimit ≤ usizeMax := by decide
    omega
  obtain ⟨semaphore, hrun, hrep⟩ := h.represents.addPermits hfits
  have hperform : (queue.perform (fun _ _ => true)
        (.addPermits (⌊limit⌋₊ - ⌊limiter.limit⌋₊))) =
      ((.unit, (queue.addPermits (⌊limit⌋₊ - ⌊limiter.limit⌋₊)).1),
        (queue.addPermits (⌊limit⌋₊ - ⌊limiter.limit⌋₊)).2) := by
    simp only [WaitQueue.perform, if_pos hfits]
  have hserves := h.perform (.addPermits (⌊limit⌋₊ - ⌊limiter.limit⌋₊))
    (fun _ _ => true) { limiter with semaphore, limit }
  rw [hperform] at hserves
  have hserves := hserves hrep (by
    simp only [WaitQueue.addPermits, WaitQueue.maybeWake_totalPermits]
    omega) hrange
  refine locked_returns { limiter with limit } hrun ?_
  refine ⟨_, hserves.congr ?_ ?_ ?_⟩
  · intro waiter
    rw [← h.waiters, WaitQueue.addPermits, WaitQueue.maybeWake_waiters]
  · rw [← h.outstanding, WaitQueue.addPermits,
      WaitQueue.maybeWake_outstandingPermits]
  · exact fun waiter _ hwoken => hwoken.1

theorem removePermits (h : Serves limiter queue waiting permits woken)
    {limit : ℚ} (hrange : InRange limit)
    (hshrinks : ⌊limit⌋₊ ≤ ⌊limiter.limit⌋₊) :
    Returns (locked (Limiter.removePermits (⌊limiter.limit⌋₊ - ⌊limit⌋₊))
        { limiter with limit })
      fun (_, limiter') => ∃ queue', Serves limiter' queue'
        waiting permits woken := by
  have htotal := h.total
  have hfits : ⌊limiter.limit⌋₊ - ⌊limit⌋₊ ≤ queue.totalPermits := by
    omega
  obtain ⟨semaphore, hrun, hrep⟩ := h.represents.removePermits hfits
  refine locked_returns { limiter with limit } hrun ?_
  refine ⟨_, hrep, ?_, hrange, h.outstanding, h.waiters, ?_, h.registered⟩
  · simp only [WaitQueue.removePermits]
    omega
  · have := queue.perform_woke (fun _ _ => true) h.woke
      (.removePermits (⌊limiter.limit⌋₊ - ⌊limit⌋₊))
    simpa only [WaitQueue.perform, if_pos hfits] using this

theorem updateLimit (h : Serves limiter queue waiting permits woken)
    (update : Update) :
    Returns (limiter.updateLimit update)
      fun (wokenNow, limiter') => ∃ queue', Serves limiter' queue'
        waiting permits
        (fun waiter => woken waiter ∨ WokenBy [wokenNow] waiter) := by
  unfold Ciad.updateLimit
  cases happly : update.apply limiter.limit with
  | none => exact .pure ⟨queue, h.wake _⟩
  | some limit =>
      have hrange := Update.apply_inRange h.inRange happly
      dsimp only
      split
      · exact h.addPermits hrange (by omega)
      · split
        · refine .bind (h.removePermits hrange (by omega)) ?_
          rintro ⟨_, limiter'⟩ ⟨queue', h'⟩
          exact .pure ⟨queue', h'.wake _⟩
        · have htotal : queue.totalPermits = ⌊limit⌋₊ := by
            rw [h.total]
            omega
          have h' : Serves { limiter with limit } queue waiting permits woken :=
            ⟨h.represents, htotal, hrange, h.outstanding,
              h.waiters, h.woke, h.registered⟩
          exact .pure ⟨queue, h'.wake _⟩

theorem releasePermit
    (h : Serves limiter queue waiting (permits + 1) woken) :
    Returns (locked Limiter.dropPermit limiter)
      fun (wokenNow, limiter') => ∃ queue', Serves limiter' queue'
        waiting permits
        (fun waiter => woken waiter ∨ WokenBy [wokenNow] waiter) := by
  obtain ⟨semaphore, hrun, hrep⟩ := h.represents.dropPermit
    (by rw [h.outstanding]; omega)
  have hserves := h.perform .dropPermit (fun _ _ => true)
    { limiter with semaphore } hrep
    (by simpa [WaitQueue.perform, WaitQueue.dropPermit] using h.total)
    h.inRange
  refine locked_returns limiter hrun ?_
  refine ⟨_, hserves.congr ?_ ?_ ?_⟩
  · intro waiter
    rw [WaitQueue.perform_waiters, ← h.waiters]
    rfl
  · rw [WaitQueue.perform_outstandingPermits, h.outstanding]
    rfl
  · exact fun waiter _ hwoken => hwoken.1

theorem dropPermit (h : Serves limiter queue waiting (permits + 1) woken)
    (inFlightSnapshot : Nat) (mode : Mode) :
    Returns (limiter.dropPermit inFlightSnapshot mode)
      fun (wakes, limiter') => ∃ queue', Serves limiter' queue'
        waiting permits
        (fun waiter => woken waiter ∨ WokenBy wakes waiter) := by
  have h₁ := h.withInFlight (limiter.inFlight - 1)
  have hrelease : ∀ {adjusted limiter'} {queue' : WaitQueue Nat ω},
      Serves limiter' queue' waiting (permits + 1)
        (fun waiter => woken waiter ∨ WokenBy [adjusted] waiter) →
      Returns (do
          let (released, limiter') ← locked Limiter.dropPermit limiter'
          pure ([adjusted, released], limiter') : Except Panic _)
        fun (wakes, limiter') => ∃ queue', Serves limiter' queue'
          waiting permits
          (fun waiter => woken waiter ∨ WokenBy wakes waiter) := by
    intro adjusted limiter' queue' h'
    refine .bind h'.releasePermit ?_
    rintro ⟨released, limiter''⟩ ⟨queue'', h''⟩
    refine .pure ⟨queue'', h''.congr (fun _ => Iff.rfl) rfl ?_⟩
    intro waiter _ hwoken
    rw [wokenBy_cons, ← or_assoc]
    exact hwoken
  unfold Ciad.dropPermit
  cases hupdate : mode.update inFlightSnapshot with
  | none =>
      exact hrelease (h₁.wake [none])
  | some update =>
      refine .bind (h₁.updateLimit update) ?_
      rintro ⟨adjusted, limiter'⟩ ⟨queue', h'⟩
      exact hrelease h'

end Serves

/-! ## Who waits and who holds a permit -/

/-- The limiter is in order, and exactly the given requests wait for a permit
and hold one. -/
def Admits (limiter : Ciad ω) (waiting holding woken : Nat → Prop) : Prop :=
  ∃ queue, ∃ holders : Finset Nat,
    Serves limiter queue waiting holders.card woken ∧
      ∀ request, request ∈ holders ↔ holding request

def WouldGrant (willWake : ω → ω → Bool) (limiter : Ciad ω) (self : Nat) :
    Prop :=
  ∀ waker, Returns (limiter.pollAcquire willWake self waker)
    fun ((result, _), _) => result.isSome

theorem new_admits (woken : Nat → Prop) :
    (Ciad.new ω).Admits (fun _ => False) (fun _ => False) woken :=
  ⟨_, ∅, new_serves woken, by simp⟩

namespace Admits

variable {willWake : ω → ω → Bool} {limiter : Ciad ω}
  {waiting holding woken : Nat → Prop}

theorem congr {waiting' holding' woken' : Nat → Prop}
    (h : limiter.Admits waiting holding woken)
    (hwaiting : ∀ request, waiting request ↔ waiting' request)
    (hholding : ∀ request, holding request ↔ holding' request)
    (hwoken : ∀ request, waiting request → woken request →
      woken' request) :
    limiter.Admits waiting' holding' woken' := by
  obtain ⟨queue, holders, hserves, hholders⟩ := h
  exact ⟨queue, holders, hserves.congr hwaiting rfl hwoken,
    fun request => (hholders request).trans (hholding request)⟩

theorem pollAcquire (h : limiter.Admits waiting holding woken)
    (willWake : ω → ω → Bool) {self : Nat} (waker : ω)
    (hself : ¬ holding self) :
    Returns (limiter.pollAcquire willWake self waker)
      fun ((result, wokenNow), limiter') =>
        limiter'.Admits
          (fun request => if request = self then result = none
            else waiting request)
          (fun request => if request = self then result ≠ none
            else holding request)
          (fun request => (woken request ∨ WokenBy [wokenNow] request) ∧
            request ≠ self) := by
  obtain ⟨queue, holders, hserves, hholders⟩ := h
  refine (hserves.pollAcquire willWake self waker).mono ?_
  rintro ⟨⟨result, wokenNow⟩, limiter'⟩
    ⟨-, queue', ⟨hsome, h'⟩ | ⟨rfl, -, h'⟩⟩
  · have hresult := Option.isSome_iff_ne_none.mp hsome
    have hout : self ∉ holders := fun hmem => hself ((hholders self).mp hmem)
    refine ⟨queue', insert self holders, h'.congr ?_ ?_ ?_, ?_⟩
    · intro request
      by_cases heq : request = self
      · simp [heq, hresult]
      · simp [heq]
    · rw [Finset.card_insert_of_notMem hout]
    · rintro request ⟨-, hne⟩ hwoken
      exact ⟨hwoken, hne⟩
    · intro request
      by_cases heq : request = self
      · simp [heq, hresult]
      · simp [heq, hholders]
  · refine ⟨queue', holders, h'.congr ?_ rfl ?_, ?_⟩
    · intro request
      by_cases heq : request = self <;> simp [heq]
    · rintro request - ⟨hwoken, hne⟩
      exact ⟨.inl hwoken, hne⟩
    · intro request
      by_cases heq : request = self
      · simp [heq, hholders, hself]
      · simp [heq, hholders]

theorem dropAcquire (h : limiter.Admits waiting holding woken)
    (self : Nat) :
    Returns (limiter.locked (Limiter.dropAcquire self))
      fun (wokenNow, limiter') =>
        limiter'.Admits (fun request => waiting request ∧ request ≠ self)
          holding
          (fun request => woken request ∨ WokenBy [wokenNow] request) := by
  obtain ⟨queue, holders, hserves, hholders⟩ := h
  refine (hserves.dropAcquire self).mono ?_
  rintro ⟨wokenNow, limiter'⟩ ⟨queue', h'⟩
  exact ⟨queue', holders, h', hholders⟩

theorem dropPermit (h : limiter.Admits waiting holding woken) {self : Nat}
    (hself : holding self) (inFlightSnapshot : Nat) (mode : Mode) :
    Returns (limiter.dropPermit inFlightSnapshot mode)
      fun (wakes, limiter') =>
        limiter'.Admits waiting
          (fun request => holding request ∧ request ≠ self)
          (fun request => woken request ∨ WokenBy wakes request) := by
  obtain ⟨queue, holders, hserves, hholders⟩ := h
  have hmem : self ∈ holders := (hholders self).mpr hself
  have hcard := Finset.card_erase_add_one hmem
  rw [← hcard] at hserves
  refine (hserves.dropPermit inFlightSnapshot mode).mono ?_
  rintro ⟨wakes, limiter'⟩ ⟨queue', h'⟩
  refine ⟨queue', holders.erase self, h', fun request => ?_⟩
  rw [Finset.mem_erase, hholders, and_comm]

theorem progress (h : limiter.Admits waiting holding woken)
    (hholding : ∀ request, ¬ holding request) (willWake : ω → ω → Bool) :
    ((∀ request, ¬ waiting request) ∧
      ∀ self, limiter.WouldGrant willWake self) ∨
    ∃ head, waiting head ∧ woken head ∧
      limiter.WouldGrant willWake head := by
  obtain ⟨queue, holders, hserves, hholders⟩ := h
  obtain rfl : holders = ∅ := by
    refine Finset.eq_empty_of_forall_notMem fun request hmem => ?_
    exact hholding request ((hholders request).mp hmem)
  rw [Finset.card_empty] at hserves
  have hone := hserves.one_le_total
  have hgrant : ∀ self, (queue.enqueue self).waiters.head? = some self →
      limiter.WouldGrant willWake self := by
    intro self hfirst waker
    refine (hserves.pollAcquire willWake self waker).mono ?_
    rintro ⟨⟨result, wokenNow⟩, limiter'⟩ ⟨hresult, -⟩
    exact hresult.mpr ⟨hfirst, hone⟩
  cases hwaiters : queue.waiters with
  | nil =>
      refine .inl ⟨?_, ?_⟩
      · intro request hwaiting
        have := (hserves.waiters request).mpr hwaiting
        simp [hwaiters] at this
      · intro self
        exact hgrant self (by simp [WaitQueue.enqueue_waiters, hwaiters])
  | cons head rest =>
      have hmem : head ∈ queue.waiters := by simp [hwaiters]
      have hpermits : queue.hasPermits := by
        have := hserves.outstanding
        exact decide_eq_true (by omega)
      have hnone := hserves.woke hpermits head (by simp [hwaiters])
      refine .inr ⟨head, (hserves.waiters head).mp hmem,
        hserves.registered head hmem hnone, hgrant head ?_⟩
      simp [WaitQueue.enqueue_waiters, hwaiters]

end Admits

end ConjureRuntime.Limiter.Ciad
