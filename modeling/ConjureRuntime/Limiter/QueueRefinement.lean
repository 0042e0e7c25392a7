import ConjureRuntime.Foundation.Linked
import ConjureRuntime.Limiter.WaitQueue

/-!
# The intrusive list implements the queue of waiters

`Represents` relates the linked nodes of the semaphore to the abstract queue.
Every operation, run on a state that represents a queue, neither panics nor
follows a dangling pointer, returns what the abstract operation returns and
leaves a state that represents the abstract result.
-/

namespace ConjureRuntime.Limiter

open ConjureRuntime.Foundation

variable {α ω : Type}

namespace State

def nextOf (state : State α ω) (pointer : α) : Option α :=
  (state.node pointer).bind Node.next

def prevOf (state : State α ω) (pointer : α) : Option α :=
  (state.node pointer).bind Node.prev

end State

/-- The queued nodes form the list; nothing is said about other nodes. -/
structure Chained (state : State α ω) (queue : WaitQueue α ω) : Prop where
  total : state.totalPermits = queue.totalPermits
  outstanding : state.outstandingPermits = queue.outstandingPermits
  linked : Linked state.nextOf state.prevOf state.head state.tail
    queue.waiters
  queued : ∀ waiter ∈ queue.waiters, ∃ node,
    state.node waiter = some node ∧ node.waker = queue.waker waiter

structure Represents (state : State α ω) (queue : WaitQueue α ω) : Prop
    extends Chained state queue where
  absent : ∀ acquire, acquire ∉ queue.waiters → state.node acquire = none

theorem new_represents (permits : Nat) :
    Represents (State.new α ω permits) (WaitQueue.new α ω permits) where
  total := rfl
  outstanding := rfl
  linked := Linked.nil _ _
  queued := by simp
  absent := by simp [State.new]

/-! ## Running the primitive steps -/

section primitives

variable (state : State α ω) (pointer : α)

theorem deref_run {node : Node α ω} (h : state.node pointer = some node) :
    (deref pointer).run state = .ok node state := by
  have hget : (get : Locked α ω (State α ω)) state = .ok state state := rfl
  simp [deref, EStateM.run, bind, EStateM.bind, hget, h, pure, EStateM.pure]

theorem debugAssert_run {condition : Bool} (h : condition = true) :
    (debugAssert condition : Locked α ω Unit).run state = .ok () state := by
  simp [debugAssert, h, EStateM.run, pure, EStateM.pure]

theorem get_bind_run {β : Type} (rest : State α ω → Locked α ω β) :
    (get >>= rest).run state = (rest state).run state := rfl

theorem modify_run (f : State α ω → State α ω) :
    (modify f : Locked α ω Unit).run state = .ok () (f state) := rfl

theorem expect_run {β : Type} (message : String) (value : β) :
    (expect message (some value) : Locked α ω β).run state =
      .ok value state := rfl

theorem run_bind {β γ : Type} {first : Locked α ω β}
    {second : β → Locked α ω γ} {state' : State α ω} {value : β}
    (h : first.run state = .ok value state') :
    (first >>= second).run state = (second value).run state' := by
  simp only [EStateM.run] at h
  simp [EStateM.run, bind, EStateM.bind, h]

theorem store_run [DecidableEq α] (node : Option (Node α ω)) :
    (store pointer node).run state = .ok ()
      { state with node := Function.update state.node pointer node } := rfl

end primitives

namespace Chained

variable {state : State α ω} {queue : WaitQueue α ω}

theorem hasPermits_eq (h : Chained state queue) :
    state.hasPermits = queue.hasPermits := by
  simp [State.hasPermits, WaitQueue.hasPermits, h.total, h.outstanding]

theorem head_eq (h : Chained state queue) :
    state.head = queue.waiters.head? :=
  h.linked.head_eq

theorem prev_eq_none_iff (h : Chained state queue) {waiter : α}
    {node : Node α ω} (hmem : waiter ∈ queue.waiters)
    (hnode : state.node waiter = some node) :
    node.prev = none ↔ queue.waiters.head? = some waiter := by
  have := h.linked.prev_eq_none_iff hmem
  rw [h.head_eq] at this
  simpa [State.prevOf, hnode] using this

end Chained

variable [DecidableEq α]

namespace Chained

variable {state : State α ω} {queue : WaitQueue α ω}

theorem store_outside (h : Chained state queue) {pointer : α}
    (hout : pointer ∉ queue.waiters) (node : Option (Node α ω)) :
    Chained
      { state with node := Function.update state.node pointer node }
      queue where
  total := h.total
  outstanding := h.outstanding
  linked := by
    refine h.linked.congr ?_ ?_ <;> intro waiter hmem <;>
      · have hne : waiter ≠ pointer := fun heq => hout (heq ▸ hmem)
        simp [State.nextOf, State.prevOf, hne]
  queued := by
    intro waiter hmem
    have hne : waiter ≠ pointer := fun heq => hout (heq ▸ hmem)
    simpa [hne] using h.queued waiter hmem

theorem store_waker (h : Chained state queue) {waiter : α}
    {node : Node α ω} (hnode : state.node waiter = some node)
    (waker : Option ω) :
    Chained
      { state with
        node := Function.update state.node waiter
          (some { node with waker := waker }) }
      (queue.setWaker waiter waker) where
  total := h.total
  outstanding := h.outstanding
  linked := by
    refine h.linked.congr ?_ ?_ <;> intro other _ <;>
      · by_cases heq : other = waiter
        · subst heq
          simp [State.nextOf, State.prevOf, hnode]
        · simp [State.nextOf, State.prevOf, heq]
  queued := by
    intro other hmem
    by_cases heq : other = waiter
    · subst heq
      exact ⟨{ node with waker := waker }, by simp⟩
    · simpa [WaitQueue.setWaker, heq] using h.queued other hmem

end Chained

namespace Represents

variable {state : State α ω} {queue : WaitQueue α ω}

theorem node_isSome_iff (h : Represents state queue) (acquire : α) :
    (state.node acquire).isSome ↔ acquire ∈ queue.waiters := by
  constructor
  · intro hsome
    by_contra hout
    simp [h.absent acquire hout] at hsome
  · intro hmem
    obtain ⟨node, hnode, -⟩ := h.queued acquire hmem
    simp [hnode]

theorem store_waker (h : Represents state queue) {waiter : α}
    {node : Node α ω} (hnode : state.node waiter = some node)
    (waker : Option ω) :
    Represents
      { state with
        node := Function.update state.node waiter
          (some { node with waker := waker }) }
      (queue.setWaker waiter waker) where
  toChained := h.toChained.store_waker hnode waker
  absent := by
    intro acquire hout
    have hmem := (h.node_isSome_iff waiter).mp (by simp [hnode])
    have hne : acquire ≠ waiter := fun heq => hout (heq ▸ hmem)
    simpa [hne] using h.absent acquire hout

theorem maybeWake (h : Represents state queue) :
    ∃ state', Limiter.maybeWake.run state = .ok queue.maybeWake.1 state' ∧
      Represents state' queue.maybeWake.2 := by
  unfold Limiter.maybeWake
  rw [get_bind_run]
  unfold WaitQueue.maybeWake
  rw [← h.hasPermits_eq]
  by_cases hpermits : state.hasPermits
  · rw [if_pos hpermits, if_pos hpermits, ← h.head_eq]
    cases hhead : state.head with
    | none => exact ⟨state, rfl, h⟩
    | some head =>
        have hmem : head ∈ queue.waiters := by
          apply List.mem_of_head?
          rw [← h.head_eq, hhead]
        obtain ⟨node, hnode, hwaker⟩ := h.queued head hmem
        dsimp only
        rw [run_bind state (deref_run state head hnode), ← hwaker]
        cases hw : node.waker with
        | none => exact ⟨state, rfl, h⟩
        | some waker => exact ⟨_, rfl, h.store_waker hnode none⟩
  · rw [if_neg hpermits, if_neg hpermits]
    exact ⟨state, rfl, h⟩

end Represents

/-! ## Unlinking and linking a node -/

theorem relinkPrev_run {state : State α ω} {self : α} {node : Node α ω}
    (hprev : ∀ prev, node.prev = some prev →
      ∃ prevNode, state.node prev = some prevNode ∧
        prevNode.next = some self)
    (hhead : node.prev = none → state.head = some self) :
    (relinkPrev self node).run state = .ok ()
      { state with
        head := if node.prev = none then node.next else state.head
        node := fun pointer =>
          if node.prev = some pointer then
            (state.node pointer).map fun n => { n with next := node.next }
          else state.node pointer } := by
  unfold relinkPrev
  cases hp : node.prev with
  | none =>
      dsimp only
      rw [get_bind_run,
        run_bind state (debugAssert_run state (by simp [hhead hp])),
        modify_run]
      simp
  | some prev =>
      obtain ⟨prevNode, hnode, hnext⟩ := hprev prev hp
      dsimp only
      rw [run_bind state (deref_run state prev hnode),
        run_bind state (debugAssert_run state (by simp [hnext])), store_run]
      congr 2
      funext pointer
      by_cases heq : prev = pointer
      · subst heq
        simp [hnode]
      · simp [heq, Ne.symm heq]

theorem relinkNext_run {state : State α ω} {self : α} {node : Node α ω}
    (hnext : ∀ next, node.next = some next →
      ∃ nextNode, state.node next = some nextNode ∧
        nextNode.prev = some self)
    (htail : node.next = none → state.tail = some self) :
    (relinkNext self node).run state = .ok ()
      { state with
        tail := if node.next = none then node.prev else state.tail
        node := fun pointer =>
          if node.next = some pointer then
            (state.node pointer).map fun n => { n with prev := node.prev }
          else state.node pointer } := by
  unfold relinkNext
  cases hn : node.next with
  | none =>
      dsimp only
      rw [get_bind_run,
        run_bind state (debugAssert_run state (by simp [htail hn])),
        modify_run]
      simp
  | some next =>
      obtain ⟨nextNode, hnode, hprev⟩ := hnext next hn
      dsimp only
      rw [run_bind state (deref_run state next hnode),
        run_bind state (debugAssert_run state (by simp [hprev])), store_run]
      congr 2
      funext pointer
      by_cases heq : next = pointer
      · subst heq
        simp [hnode]
      · simp [heq, Ne.symm heq]

/-- The heap after `dequeue`: both neighbours skip the node. -/
def unlinked (heap : α → Option (Node α ω)) (self : α) (node : Node α ω)
    (pointer : α) : Option (Node α ω) :=
  if pointer = self then some { node with prev := none, next := none }
  else (heap pointer).map fun n =>
    { n with
      next := if node.prev = some pointer then node.next else n.next
      prev := if node.next = some pointer then node.prev else n.prev }

theorem dequeue_run {state : State α ω} {self : α} {node : Node α ω}
    (hnode : state.node self = some node)
    (hprev : ∀ prev, node.prev = some prev → prev ≠ self ∧
      ∃ prevNode, state.node prev = some prevNode ∧
        prevNode.next = some self)
    (hnext : ∀ next, node.next = some next → next ≠ self ∧
      ∃ nextNode, state.node next = some nextNode ∧
        nextNode.prev = some self)
    (hhead : node.prev = none → state.head = some self)
    (htail : node.next = none → state.tail = some self) :
    (dequeue self).run state = .ok ()
      { state with
        head := if node.prev = none then node.next else state.head
        tail := if node.next = none then node.prev else state.tail
        node := unlinked state.node self node } := by
  have hprevNe : node.prev ≠ some self := fun h => (hprev self h).1 rfl
  have hnextNe : node.next ≠ some self := fun h => (hnext self h).1 rfl
  have hprevRun := relinkPrev_run (fun prev h => (hprev prev h).2) hhead
  generalize hstate₁ : State.mk _ _ _ _ _ = state₁ at hprevRun
  have hnode₁ : state₁.node self = some node := by
    simp [← hstate₁, hprevNe, hnode]
  have hnextNode₁ : ∀ next, node.next = some next →
      ∃ nextNode, state₁.node next = some nextNode ∧
        nextNode.prev = some self := by
    intro next hn
    obtain ⟨-, nextNode, hnextNode, hback⟩ := hnext next hn
    by_cases hp : node.prev = some next
    · exact ⟨{ nextNode with next := node.next },
        by simp [← hstate₁, hp, hnextNode], hback⟩
    · exact ⟨nextNode, by simp [← hstate₁, hp, hnextNode], hback⟩
  have hnextRun := relinkNext_run hnextNode₁
    (by simpa [← hstate₁] using htail)
  generalize hstate₂ : State.mk _ _ _ _ _ = state₂ at hnextRun
  have hnode₂ : state₂.node self = some node := by
    simp [← hstate₂, hnextNe, hnode₁]
  unfold dequeue
  rw [run_bind _ (deref_run state self hnode), run_bind _ hprevRun,
    run_bind _ (deref_run state₁ self hnode₁), run_bind _ hnextRun,
    run_bind _ (deref_run state₂ self hnode₂), store_run]
  subst hstate₂ hstate₁
  congr 2
  funext pointer
  by_cases hself : pointer = self
  · subst hself
    simp [unlinked]
  · cases hp : state.node pointer <;>
      by_cases h₁ : node.prev = some pointer <;>
        by_cases h₂ : node.next = some pointer <;>
          simp [unlinked, hself, hp, h₁, h₂]

/-- The heap after `pushBack`: the old tail leads to the node. -/
def linkedBack (heap : α → Option (Node α ω)) (self : α)
    (node : Node α ω) (tail : Option α) (pointer : α) :
    Option (Node α ω) :=
  if pointer = self then some { node with prev := tail }
  else (heap pointer).map fun n =>
    { n with next := if tail = some pointer then some self else n.next }

theorem pushBack_run {state : State α ω} {self : α} {node : Node α ω}
    (hnode : state.node self = some node)
    (hnext : node.next = none) (hprev : node.prev = none)
    (htail : ∀ tail, state.tail = some tail → tail ≠ self ∧
      ∃ tailNode, state.node tail = some tailNode ∧ tailNode.next = none)
    (hhead : state.tail = none ↔ state.head = none) :
    (pushBack self).run state = .ok ()
      { state with
        head := state.head.or (some self)
        tail := some self
        node := linkedBack state.node self node state.tail } := by
  unfold pushBack
  rw [run_bind _ (deref_run state self hnode),
    run_bind _ (debugAssert_run state (by simp [hnext])),
    run_bind _ (debugAssert_run state (by simp [hprev])), get_bind_run]
  cases ht : state.tail with
  | none =>
      dsimp only
      rw [run_bind _ (modify_run state _), modify_run]
      congr 2
      · simp [hhead.mp ht]
      · funext pointer
        by_cases hself : pointer = self
        · subst hself
          simp [linkedBack, hnode, ← hprev]
        · cases hp : state.node pointer <;> simp [linkedBack, hself, hp]
  | some tail =>
      obtain ⟨hne, tailNode, htailNode, htailNext⟩ := htail tail ht
      dsimp only
      have hstored := store_run state tail
        (some { tailNode with next := some self })
      generalize hstate₁ : State.mk _ _ _ _ _ = state₁ at hstored
      have hnode₁ : state₁.node self = some node := by
        simp [← hstate₁, Ne.symm hne, hnode]
      rw [run_bind _ (deref_run state tail htailNode),
        run_bind _ (debugAssert_run state (by simp [htailNext])),
        run_bind _ hstored, run_bind _ (deref_run state₁ self hnode₁),
        run_bind _ (store_run state₁ self _), modify_run]
      subst hstate₁
      congr 2
      · cases hh : state.head with
        | none => simp [hhead.mpr hh] at ht
        | some head => simp
      · funext pointer
        by_cases hself : pointer = self
        · subst hself
          simp [linkedBack]
        · by_cases heq : pointer = tail
          · subst heq
            simp [linkedBack, hself, htailNode]
          · cases hp : state.node pointer <;>
              simp [linkedBack, hself, heq, Ne.symm heq, hp]

namespace Chained

variable {state : State α ω} {queue : WaitQueue α ω}

omit [DecidableEq α] in
theorem node_at_split (h : Chained state queue) {l r : List α} {self : α}
    (hsplit : queue.waiters = l ++ self :: r) :
    ∃ node, state.node self = some node ∧
      node.waker = queue.waker self ∧ node.prev = l.getLast? ∧
      node.next = r.head? := by
  obtain ⟨node, hnode, hwaker⟩ := h.queued self (by simp [hsplit])
  refine ⟨node, hnode, hwaker, ?_, ?_⟩
  · simpa [State.prevOf, hnode] using h.linked.prev_eq hsplit
  · simpa [State.nextOf, hnode] using h.linked.next_eq hsplit

omit [DecidableEq α] in
theorem prev_at_split (h : Chained state queue) {l r : List α}
    {self prev : α} (hsplit : queue.waiters = l ++ self :: r)
    (hlast : l.getLast? = some prev) :
    prev ≠ self ∧ ∃ prevNode, state.node prev = some prevNode ∧
      prevNode.next = some self := by
  have hnodup := h.linked.nodup
  rw [hsplit] at hnodup
  have hne : prev ≠ self := (List.nodup_append.mp hnodup).2.2 prev
    (List.mem_of_getLast? hlast) self (by simp)
  obtain ⟨l, rfl⟩ := List.getLast?_eq_some_iff.mp hlast
  have hsplit : queue.waiters = l ++ prev :: self :: r := by simp [hsplit]
  obtain ⟨prevNode, hnode, -, -, hnext⟩ := h.node_at_split hsplit
  exact ⟨hne, prevNode, hnode, hnext⟩

omit [DecidableEq α] in
theorem next_at_split (h : Chained state queue) {l r : List α}
    {self next : α} (hsplit : queue.waiters = l ++ self :: r)
    (hfirst : r.head? = some next) :
    next ≠ self ∧ ∃ nextNode, state.node next = some nextNode ∧
      nextNode.prev = some self := by
  have hnodup := h.linked.nodup
  rw [hsplit] at hnodup
  have hne : next ≠ self := by
    rintro rfl
    exact (List.nodup_cons.mp (List.nodup_append.mp hnodup).2.1).1
      (List.mem_of_head? hfirst)
  obtain ⟨r, rfl⟩ := List.head?_eq_some_iff.mp hfirst
  have hsplit : queue.waiters = (l ++ [self]) ++ next :: r := by simp [hsplit]
  obtain ⟨nextNode, hnode, -, hprev, -⟩ := h.node_at_split hsplit
  exact ⟨hne, nextNode, hnode, by simpa using hprev⟩

theorem dequeue_at_split (h : Chained state queue) {l r : List α} {self : α}
    {node : Node α ω} (hsplit : queue.waiters = l ++ self :: r)
    (hnode : state.node self = some node) (hprev : node.prev = l.getLast?)
    (hnext : node.next = r.head?) :
    (Limiter.dequeue self).run state = .ok ()
      { state with
        head := l.head?.or r.head?
        tail := r.getLast?.or l.getLast?
        node := unlinked state.node self node } := by
  have hfirst : node.prev = none → state.head = some self := by
    intro hp
    rw [hprev, List.getLast?_eq_none_iff] at hp
    simp [h.head_eq, hsplit, hp]
  have hlast : node.next = none → state.tail = some self := by
    intro hn
    rw [hnext, List.head?_eq_none_iff] at hn
    simp [h.linked.tail_eq, hsplit, hn]
  have hhead : (if node.prev = none then node.next else state.head) =
      l.head?.or r.head? := by
    rw [hprev, hnext, h.head_eq, hsplit]
    cases l <;> simp
  have htail : (if node.next = none then node.prev else state.tail) =
      r.getLast?.or l.getLast? := by
    rw [hprev, hnext, h.linked.tail_eq, hsplit]
    cases r <;> simp
  rw [dequeue_run hnode
    (fun prev hp => h.prev_at_split hsplit (hprev ▸ hp))
    (fun next hn => h.next_at_split hsplit (hnext ▸ hn)) hfirst hlast,
    hhead, htail]

theorem unlinked_chained (h : Chained state queue) {l r : List α} {self : α}
    {node : Node α ω} (hsplit : queue.waiters = l ++ self :: r)
    (hprev : node.prev = l.getLast?) (hnext : node.next = r.head?) :
    Chained
      { state with
        head := l.head?.or r.head?
        tail := r.getLast?.or l.getLast?
        node := unlinked state.node self node }
      (queue.remove self) := by
  have hlinked := h.linked
  rw [hsplit] at hlinked
  have hout : self ∉ l ++ r :=
    (List.nodup_cons.mp (List.nodup_middle.mp hlinked.nodup)).1
  have hwaiters : (queue.remove self).waiters = l ++ r := by
    rw [WaitQueue.remove_waiters, hsplit, List.erase_append_right _
      (fun hmem => hout (List.mem_append_left _ hmem)), List.erase_cons_head]
  have hother : ∀ other ∈ l ++ r, other ≠ self ∧
      ∃ n, state.node other = some n ∧ n.waker = queue.waker other := by
    intro other hmem
    refine ⟨fun heq => hout (heq ▸ hmem), h.queued other ?_⟩
    rw [hsplit]
    exact (List.mem_append.mp hmem).elim (by simp_all) (by simp_all)
  refine ⟨h.total, h.outstanding, ?_, ?_⟩
  · rw [hwaiters]
    refine hlinked.erase ?_ ?_ <;> intro other hmem <;>
      · obtain ⟨hne, n, hn, -⟩ := hother other hmem
        simp [State.nextOf, State.prevOf, unlinked, hne, hn, hprev, hnext]
  · intro other hmem
    rw [hwaiters] at hmem
    obtain ⟨hne, n, hn, hwaker⟩ := hother other hmem
    simp [unlinked, hne, hn, hwaker]

theorem dequeue (h : Chained state queue) {self : α}
    (hmem : self ∈ queue.waiters) :
    ∃ state', (Limiter.dequeue self).run state = .ok () state' ∧
      Chained state' (queue.remove self) ∧
      ∀ other, other ∉ queue.waiters →
        state'.node other = state.node other := by
  obtain ⟨l, r, hsplit⟩ := List.append_of_mem hmem
  obtain ⟨node, hnode, -, hprev, hnext⟩ := h.node_at_split hsplit
  refine ⟨_, h.dequeue_at_split hsplit hnode hprev hnext,
    h.unlinked_chained hsplit hprev hnext, ?_⟩
  intro other hout
  rw [hsplit, List.mem_append, List.mem_cons, not_or, not_or] at hout
  have hprevOther : node.prev ≠ some other := fun hp =>
    hout.1 (List.mem_of_getLast? (hprev ▸ hp))
  have hnextOther : node.next ≠ some other := fun hn =>
    hout.2.2 (List.mem_of_head? (hnext ▸ hn))
  cases hn : state.node other <;>
    simp [unlinked, hout.2.1, hprevOther, hnextOther, hn]

theorem pushBack_at_end (h : Chained state queue) {self : α}
    {node : Node α ω} (hout : self ∉ queue.waiters)
    (hnode : state.node self = some node) (hnext : node.next = none)
    (hprev : node.prev = none) :
    (Limiter.pushBack self).run state = .ok ()
      { state with
        head := state.head.or (some self)
        tail := some self
        node := linkedBack state.node self node state.tail } := by
  have htail : ∀ tail, state.tail = some tail → tail ≠ self ∧
      ∃ tailNode, state.node tail = some tailNode ∧
        tailNode.next = none := by
    intro tail ht
    rw [h.linked.tail_eq] at ht
    obtain ⟨l, hsplit⟩ := List.getLast?_eq_some_iff.mp ht
    obtain ⟨tailNode, htailNode, -, -, htailNext⟩ :=
      h.node_at_split (l := l) (r := []) hsplit
    refine ⟨?_, tailNode, htailNode, htailNext⟩
    rintro rfl
    exact hout (List.mem_of_getLast? ht)
  have hhead : state.tail = none ↔ state.head = none := by
    rw [h.linked.tail_eq_none_iff, h.linked.head_eq_none_iff]
  exact pushBack_run hnode hnext hprev htail hhead

theorem linkedBack_linked (h : Chained state queue) {self : α}
    {node : Node α ω} (hout : self ∉ queue.waiters)
    (hnext : node.next = none) {state' : State α ω}
    (hnodes : state'.node = linkedBack state.node self node state.tail) :
    Linked state'.nextOf state'.prevOf (state.head.or (some self))
      (some self) (queue.waiters ++ [self]) := by
  have hne : ∀ other ∈ queue.waiters, other ≠ self :=
    fun other hmem heq => hout (heq ▸ hmem)
  refine h.linked.append hout ?_ ?_ ?_ ?_
  · intro other hmem
    obtain ⟨n, hn, -⟩ := h.queued other hmem
    simp [State.nextOf, hnodes, linkedBack, hne other hmem, hn]
  · intro other hmem
    obtain ⟨n, hn, -⟩ := h.queued other hmem
    simp [State.prevOf, hnodes, linkedBack, hne other hmem, hn]
  · simp [State.nextOf, hnodes, linkedBack, hnext]
  · simp [State.prevOf, hnodes, linkedBack]

theorem pushBack (h : Chained state queue) {self : α}
    (hout : self ∉ queue.waiters)
    (hnode : state.node self = some ⟨none, none, none⟩) :
    ∃ state', (Limiter.pushBack self).run state = .ok () state' ∧
      Chained state' (queue.enqueue self) ∧
      ∀ other, other ≠ self → other ∉ queue.waiters →
        state'.node other = state.node other := by
  have henqueue : (queue.enqueue self).waiters = queue.waiters ++ [self] := by
    rw [WaitQueue.enqueue_waiters, if_neg hout]
  refine ⟨_, h.pushBack_at_end hout hnode rfl rfl, ⟨?_, ?_, ?_, ?_⟩, ?_⟩
  · simpa using h.total
  · simpa using h.outstanding
  · rw [henqueue]
    exact h.linkedBack_linked hout rfl rfl
  · intro other hmem
    rw [henqueue, List.mem_append, List.mem_singleton] at hmem
    by_cases heq : other = self
    · subst heq
      simp [linkedBack, WaitQueue.enqueue, hout, WaitQueue.setWaker]
    · obtain ⟨n, hn, hwaker⟩ := h.queued other (hmem.resolve_right heq)
      simp [linkedBack, heq, hn, WaitQueue.enqueue, hout,
        WaitQueue.setWaker, hwaker]
  · intro other hself hout'
    have htailOther : state.tail ≠ some other := by
      intro ht
      rw [h.linked.tail_eq] at ht
      exact hout' (List.mem_of_getLast? ht)
    cases hn : state.node other <;>
      simp [linkedBack, hself, htailOther, hn]

omit [DecidableEq α] in
theorem withOutstanding (h : Chained state queue) (permits : Nat) :
    Chained { state with outstandingPermits := permits }
      { queue with outstandingPermits := permits } :=
  ⟨h.total, rfl, h.linked, h.queued⟩

end Chained

namespace Represents

variable {state : State α ω} {queue : WaitQueue α ω}

omit [DecidableEq α] in
theorem grantPermit (h : Represents state queue) :
    ∃ state', (Limiter.grantPermit : Locked α ω Unit).run state =
        .ok () state' ∧ Represents state' queue.grant := by
  refine ⟨_, modify_run state _, ?_, h.absent⟩
  have := h.toChained.withOutstanding (queue.outstandingPermits + 1)
  rw [← h.outstanding] at this
  simpa [WaitQueue.grant, h.outstanding] using this

theorem dequeue (h : Represents state queue) {self : α}
    (hmem : self ∈ queue.waiters) {β : Type} (rest : Locked α ω β) :
    ∃ state', Represents state' (queue.remove self) ∧
      (Limiter.dequeue self >>= fun _ => store self none >>= fun _ =>
        rest).run state = rest.run state' := by
  obtain ⟨state', hrun, hchained, hframe⟩ := h.toChained.dequeue hmem
  have hout : self ∉ (queue.remove self).waiters := by
    rw [WaitQueue.remove_waiters]
    exact h.linked.nodup.not_mem_erase
  refine ⟨_, ⟨hchained.store_outside hout none, ?_⟩, ?_⟩
  · intro acquire hacquire
    by_cases heq : acquire = self
    · simp [heq]
    · have hout' : acquire ∉ queue.waiters := by
        intro hmem'
        apply hacquire
        rw [WaitQueue.remove_waiters]
        exact (List.mem_erase_of_ne heq).mpr hmem'
      simp only [Function.update_of_ne heq]
      rw [hframe acquire hout', h.absent acquire hout']
  · rw [run_bind _ hrun, run_bind _ (store_run state' self none)]

theorem queuedNode (h : Represents state queue) (self : α) :
    ∃ state' node, (Limiter.queuedNode self).run state = .ok node state' ∧
      Represents state' (queue.enqueue self) ∧
      state'.node self = some node := by
  unfold Limiter.queuedNode
  rw [get_bind_run]
  by_cases hmem : self ∈ queue.waiters
  · obtain ⟨node, hnode, -⟩ := h.queued self hmem
    rw [hnode]
    refine ⟨state, node, rfl, ?_, hnode⟩
    rwa [WaitQueue.enqueue, if_pos hmem]
  · rw [h.absent self hmem]
    have hstored := h.toChained.store_outside hmem
      (some ⟨none, none, none⟩)
    obtain ⟨state', hrun, hchained, hframe⟩ :=
      hstored.pushBack hmem (by simp)
    obtain ⟨node, hnode, -⟩ :=
      hchained.queued self (queue.mem_enqueue_waiters self)
    refine ⟨state', node, ?_, ⟨hchained, ?_⟩, hnode⟩
    · dsimp only
      rw [run_bind _ (store_run state self _), run_bind _ hrun,
        deref_run _ _ hnode]
    · intro acquire hout
      rw [WaitQueue.enqueue_waiters, if_neg hmem, List.mem_append,
        not_or, List.mem_singleton] at hout
      rw [hframe acquire hout.2 hout.1]
      simpa [hout.2] using h.absent acquire hout.1

theorem poll (h : Represents state queue) (willWake : ω → ω → Bool)
    (self : α) (waker : ω) :
    ∃ state', (Limiter.poll willWake self waker).run state =
        .ok (queue.poll willWake self waker).1 state' ∧
      Represents state' (queue.poll willWake self waker).2 := by
  have hfast : (state.head.isNone && state.hasPermits) = true ↔
      queue.waiters = [] ∧ queue.hasPermits := by
    rw [Bool.and_eq_true, Option.isNone_iff_eq_none,
      h.linked.head_eq_none_iff, h.hasPermits_eq]
  unfold Limiter.poll WaitQueue.poll
  rw [get_bind_run]
  by_cases hgrant : queue.waiters = [] ∧ queue.hasPermits
  · rw [if_pos hgrant, if_pos (hfast.mpr hgrant)]
    obtain ⟨state', hrun, h'⟩ := h.grantPermit
    exact ⟨state', by rw [run_bind _ hrun]; rfl, h'⟩
  · rw [if_neg hgrant, if_neg (mt hfast.mp hgrant)]
    obtain ⟨state₁, node, hrun₁, h₁, hnode⟩ := h.queuedNode self
    have hmem := queue.mem_enqueue_waiters self
    rw [run_bind _ hrun₁, get_bind_run]
    dsimp only
    generalize queue.enqueue self = queue₁ at h₁ hmem
    have hslow : (node.prev.isNone && state₁.hasPermits) = true ↔
        queue₁.waiters.head? = some self ∧ queue₁.hasPermits := by
      rw [Bool.and_eq_true, Option.isNone_iff_eq_none,
        h₁.prev_eq_none_iff hmem hnode, h₁.hasPermits_eq]
    by_cases hhead : queue₁.waiters.head? = some self ∧ queue₁.hasPermits
    · rw [if_pos hhead, if_pos (hslow.mpr hhead)]
      obtain ⟨state₂, h₂, hrun₂⟩ := h₁.dequeue hmem (do
        Limiter.grantPermit
        let woken ← Limiter.maybeWake
        pure (Poll.ready, woken))
      obtain ⟨state₃, hrun₃, h₃⟩ := h₂.grantPermit
      obtain ⟨state₄, hrun₄, h₄⟩ := h₃.maybeWake
      refine ⟨state₄, ?_, h₄⟩
      rw [hrun₂, run_bind _ hrun₃, run_bind _ hrun₄]
      rfl
    · rw [if_neg hhead, if_neg (mt hslow.mp hhead)]
      obtain ⟨node', hnode', hwaker⟩ := h₁.queued self hmem
      obtain rfl : node = node' := by simpa [hnode] using hnode'
      rw [← hwaker]
      by_cases hwake : node.waker.any (willWake · waker) = true
      · refine ⟨state₁, ?_, by rwa [if_pos hwake]⟩
        rw [if_pos hwake, if_pos hwake]
        rfl
      · refine ⟨_, ?_, by
          rw [if_neg hwake]
          exact h₁.store_waker hnode (some waker)⟩
        rw [if_neg hwake, if_neg hwake]
        rfl

theorem dropAcquire (h : Represents state queue) (self : α) :
    ∃ state', (Limiter.dropAcquire self).run state =
        .ok (queue.dropAcquire self).1 state' ∧
      Represents state' (queue.dropAcquire self).2 := by
  unfold Limiter.dropAcquire WaitQueue.dropAcquire
  rw [get_bind_run]
  by_cases hmem : self ∈ queue.waiters
  · obtain ⟨node, hnode, -⟩ := h.queued self hmem
    have hhead : node.prev.isNone = true ↔
        queue.waiters.head? = some self := by
      rw [Option.isNone_iff_eq_none, h.prev_eq_none_iff hmem hnode]
    rw [hnode, if_pos hmem]
    dsimp only
    obtain ⟨state₁, h₁, hrun₁⟩ := h.dequeue hmem
      (if node.prev.isNone = true then Limiter.maybeWake else pure none)
    rw [hrun₁]
    by_cases hfirst : queue.waiters.head? = some self
    · rw [if_pos hfirst, if_pos (hhead.mpr hfirst)]
      exact h₁.maybeWake
    · rw [if_neg hfirst, if_neg (mt hhead.mp hfirst)]
      exact ⟨state₁, rfl, h₁⟩
  · rw [h.absent self hmem, if_neg hmem]
    exact ⟨state, rfl, h⟩

theorem dropPermit (h : Represents state queue)
    (hpermit : 0 < queue.outstandingPermits) :
    ∃ state', Limiter.dropPermit.run state =
        .ok queue.dropPermit.1 state' ∧
      Represents state' queue.dropPermit.2 := by
  have hsub : checkedSub state.outstandingPermits 1 =
      some (queue.outstandingPermits - 1) := by
    rw [h.outstanding, checkedSub, if_pos (by omega)]
  have h₁ : Represents
      { state with outstandingPermits := queue.outstandingPermits - 1 }
      { queue with outstandingPermits := queue.outstandingPermits - 1 } :=
    ⟨h.toChained.withOutstanding _, h.absent⟩
  obtain ⟨state', hrun, h'⟩ := h₁.maybeWake
  refine ⟨state', ?_, h'⟩
  unfold Limiter.dropPermit
  rw [get_bind_run, hsub]
  dsimp only
  rw [run_bind _ (modify_run state _), hrun]
  rfl

theorem addPermits (h : Represents state queue) {permits : Nat}
    (hfits : queue.totalPermits + permits ≤ usizeMax) :
    ∃ state', (Limiter.addPermits permits).run state =
        .ok (queue.addPermits permits).1 state' ∧
      Represents state' (queue.addPermits permits).2 := by
  have hadd : checkedAdd state.totalPermits permits =
      some (queue.totalPermits + permits) := by
    rw [h.total, checkedAdd, if_pos hfits]
  have h₁ : Represents
      { state with totalPermits := queue.totalPermits + permits }
      { queue with totalPermits := queue.totalPermits + permits } :=
    ⟨⟨rfl, h.outstanding, h.linked, h.queued⟩, h.absent⟩
  obtain ⟨state', hrun, h'⟩ := h₁.maybeWake
  refine ⟨state', ?_, h'⟩
  unfold Limiter.addPermits
  rw [get_bind_run, hadd, run_bind _ (expect_run state _ _),
    run_bind _ (modify_run state _), hrun]
  rfl

omit [DecidableEq α] in
theorem removePermits (h : Represents state queue) {permits : Nat}
    (hfits : permits ≤ queue.totalPermits) :
    ∃ state', (Limiter.removePermits permits).run state = .ok () state' ∧
      Represents state' (queue.removePermits permits) := by
  have hsub : checkedSub state.totalPermits permits =
      some (queue.totalPermits - permits) := by
    rw [h.total, checkedSub, if_pos hfits]
  refine ⟨{ state with totalPermits := queue.totalPermits - permits }, ?_,
    ⟨⟨rfl, h.outstanding, h.linked, h.queued⟩, h.absent⟩⟩
  unfold Limiter.removePermits
  rw [get_bind_run, hsub, run_bind _ (expect_run state _ _),
    modify_run]

end Represents

/-! ## Adjustments that do not fit -/

theorem addPermits_overflow {state : State α ω} {permits : Nat}
    (h : usizeMax < state.totalPermits + permits) :
    (addPermits permits).run state =
      .error (.expect "permit count overflow") state := by
  have hadd : checkedAdd state.totalPermits permits = none := by
    rw [checkedAdd, if_neg (by omega)]
  unfold addPermits
  rw [get_bind_run, hadd]
  rfl

omit [DecidableEq α] in
theorem removePermits_underflow {state : State α ω} {permits : Nat}
    (h : state.totalPermits < permits) :
    (removePermits permits).run state =
      .error (.expect "permit count underflow") state := by
  have hsub : checkedSub state.totalPermits permits = none := by
    rw [checkedSub, if_neg (by omega)]
  unfold removePermits
  rw [get_bind_run, hsub]
  rfl

end ConjureRuntime.Limiter
