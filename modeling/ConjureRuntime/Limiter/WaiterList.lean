import ConjureRuntime.Foundation.History
import ConjureRuntime.Limiter.Fairness

/-!
# The waiters in memory

The nodes of the queued futures are one doubly linked list, whatever has been
polled and dropped, and `push_back` and `dequeue` do to it what appending and
erasing do to the sequence of the nodes.
-/

namespace ConjureRuntime.Limiter

open ConjureRuntime.Foundation

variable {α ω : Type} [DecidableEq α]

/-! ## The list in memory -/

/-- The links, from the head and from the tail, run through the nodes in this
order, and each of them is alive. -/
structure State.IsList (state : State α ω) (nodes : List α) : Prop where
  linked : Linked state.nextOf state.prevOf state.head state.tail nodes
  alive : ∀ node ∈ nodes, (state.node node).isSome

namespace State.IsList

variable {state : State α ω} {nodes : List α}

def queueOf (state : State α ω) (nodes : List α) : WaitQueue α ω where
  totalPermits := state.totalPermits
  outstandingPermits := state.outstandingPermits
  waiters := nodes
  waker pointer := (state.node pointer).bind Node.waker

omit [DecidableEq α] in
theorem chained (h : state.IsList nodes) :
    Chained state (queueOf state nodes) where
  total := rfl
  outstanding := rfl
  linked := h.linked
  queued := by
    intro waiter hmem
    obtain ⟨node, hnode⟩ := Option.isSome_iff_exists.mp (h.alive waiter hmem)
    exact ⟨node, hnode, by simp [queueOf, hnode]⟩

omit [DecidableEq α] in
theorem of_chained {queue : WaitQueue α ω} (h : Chained state queue) :
    state.IsList queue.waiters where
  linked := h.linked
  alive := by
    intro waiter hmem
    obtain ⟨node, hnode, -⟩ := h.queued waiter hmem
    simp [hnode]

theorem dequeue (h : state.IsList nodes) {self : α} (hmem : self ∈ nodes) :
    ∃ state', (Limiter.dequeue self).run state = .ok () state' ∧
      state'.IsList (nodes.erase self) ∧
      state'.nextOf self = none ∧ state'.prevOf self = none := by
  obtain ⟨l, r, hsplit⟩ := List.append_of_mem hmem
  obtain ⟨node, hnode, -, hprev, hnext⟩ := h.chained.node_at_split hsplit
  refine ⟨_, h.chained.dequeue_at_split hsplit hnode hprev hnext,
    of_chained (h.chained.unlinked_chained hsplit hprev hnext), ?_, ?_⟩
  · simp [State.nextOf, unlinked]
  · simp [State.prevOf, unlinked]

theorem pushBack (h : state.IsList nodes) {self : α} (hout : self ∉ nodes)
    {waker : Option ω} (hnode : state.node self = some ⟨waker, none, none⟩) :
    ∃ state', (Limiter.pushBack self).run state = .ok () state' ∧
      state'.IsList (nodes ++ [self]) := by
  refine ⟨_, h.chained.pushBack_at_end hout hnode rfl rfl,
    h.chained.linkedBack_linked hout rfl rfl, ?_⟩
  intro other hmem
  by_cases heq : other = self
  · simp [linkedBack, heq]
  · have hold : other ∈ nodes := by simpa [heq] using hmem
    obtain ⟨n, hn⟩ := Option.isSome_iff_exists.mp (h.alive other hold)
    simp [linkedBack, heq, hn]

end State.IsList

/-! ## The sequence of the queued futures -/

/-- A poll that stays pending appends its future, unless it is queued; a poll
that is granted a permit and a drop erase theirs. -/
def Event.sequence (nodes : List α) (event : Event α ω) : List α :=
  match event.op, event.reply with
  | .poll acquire _, .poll .ready => nodes.erase acquire
  | .poll acquire _, _ =>
      if acquire ∈ nodes then nodes else nodes ++ [acquire]
  | .dropAcquire acquire, _ => nodes.erase acquire
  | _, _ => nodes

def sequence (events : List (Event α ω)) : List α :=
  events.foldl Event.sequence []

def Queued (events : List (Event α ω)) (acquire : α) : Prop :=
  Since (fun event => event.Polls acquire ∧ event.reply = .poll .pending)
    (fun event => event.Grants acquire ∨ event.Drops acquire) events

/-- No assertion of the list has failed, and no dangling pointer has been
followed. -/
def Event.KeepsLinks (event : Event α ω) : Prop :=
  event.reply ≠ .panicked .debugAssert ∧
    event.reply ≠ .panicked .danglingPointer

variable {willWake : ω → ω → Bool} {events : List (Event α ω)}
  {event : Event α ω}

@[simp] theorem sequence_append :
    sequence (events ++ [event]) = event.sequence (sequence events) := by
  simp [sequence]

theorem perform_sequence (queue : WaitQueue α ω) (op : Op α ω) :
    (queue.perform willWake op).2.waiters =
      Event.sequence queue.waiters
        ⟨op, (queue.perform willWake op).1.1,
          (queue.perform willWake op).1.2⟩ := by
  rw [WaitQueue.perform_waiters]
  cases op with
  | poll self waker =>
      have henqueue := queue.enqueue_waiters self
      simp only [WaitQueue.perform]
      cases (queue.poll willWake self waker).1.1 with
      | pending => exact henqueue
      | ready =>
          by_cases hmem : self ∈ queue.waiters
          · simp [WaitQueue.waitersAfter, Event.sequence, henqueue, hmem]
          · simp [WaitQueue.waitersAfter, Event.sequence, henqueue, hmem,
              List.erase_append_right, List.erase_of_not_mem hmem]
  | dropAcquire | dropPermit | addPermits | removePermits => rfl

theorem perform_keepsLinks (queue : WaitQueue α ω) (op : Op α ω) :
    Event.KeepsLinks ⟨op, (queue.perform willWake op).1.1,
      (queue.perform willWake op).1.2⟩ := by
  cases op with
  | poll | dropAcquire | dropPermit =>
      simp [Event.KeepsLinks, WaitQueue.perform]
  | addPermits permits | removePermits permits =>
      simp only [Event.KeepsLinks, WaitQueue.perform]
      split <;> simp

theorem mem_sequence {nodes : List α} (hnodup : nodes.Nodup)
    (hreply : ∀ acquire, event.Polls acquire →
      ∃ result, event.reply = .poll result) (acquire : α) :
    acquire ∈ event.sequence nodes ↔
      (event.Polls acquire ∧ event.reply = .poll .pending) ∨
        (acquire ∈ nodes ∧
          ¬ (event.Grants acquire ∨ event.Drops acquire)) := by
  obtain ⟨op, reply, woken⟩ := event
  cases op with
  | poll self waker =>
      obtain ⟨result, rfl⟩ := hreply self ⟨waker, rfl⟩
      cases result with
      | ready =>
          simp [Event.sequence, Event.Polls, Event.Grants, Event.Drops,
            hnodup.mem_erase_iff, and_comm, eq_comm]
      | pending =>
          by_cases hself : self ∈ nodes
          · by_cases heq : self = acquire
            · simp [Event.sequence, Event.Polls, Event.Grants, Event.Drops,
                ← heq, hself]
            · simp [Event.sequence, Event.Polls, Event.Grants, Event.Drops,
                hself, heq]
          · simp [Event.sequence, Event.Polls, Event.Grants, Event.Drops,
              hself, or_comm, eq_comm]
  | dropAcquire self =>
      simp [Event.sequence, Event.Polls, Event.Grants, Event.Drops,
        hnodup.mem_erase_iff, and_comm, eq_comm]
  | dropPermit | addPermits | removePermits =>
      simp [Event.sequence, Event.Polls, Event.Grants, Event.Drops]

omit [DecidableEq α] in
theorem queued_append {acquire : α} :
    Queued (events ++ [event]) acquire ↔
      (event.Polls acquire ∧ event.reply = .poll .pending) ∨
        (Queued events acquire ∧
          ¬ (event.Grants acquire ∨ event.Drops acquire)) :=
  since_append

/-! ## Runs -/

structure Sequenced (events : List (Event α ω)) (queue : WaitQueue α ω) :
    Prop where
  waiters : queue.waiters = sequence events
  queued : ∀ acquire, acquire ∈ queue.waiters ↔ Queued events acquire
  keepsLinks : ∀ event ∈ events, event.KeepsLinks

theorem Sequenced.perform {queue : WaitQueue α ω}
    (h : Sequenced events queue) (hnodup : queue.waiters.Nodup)
    (op : Op α ω) :
    Sequenced (events ++ [⟨op, (queue.perform willWake op).1.1,
      (queue.perform willWake op).1.2⟩]) (queue.perform willWake op).2 where
  waiters := by
    rw [perform_sequence, sequence_append, h.waiters]
  queued := by
    intro acquire
    rw [perform_sequence, queued_append, ← h.queued]
    refine mem_sequence hnodup ?_ acquire
    rintro other ⟨waker, rfl⟩
    exact ⟨_, rfl⟩
  keepsLinks := by
    intro event hmem
    rcases List.mem_append.mp hmem with hmem | hmem
    · exact h.keepsLinks event hmem
    · rw [List.mem_singleton.mp hmem]
      exact perform_keepsLinks queue op

theorem run_sequenced {permits : Nat} {system : System α ω}
    (run : Run (System.Step willWake) (System.new α ω permits) events
      system) :
    ∃ queue, Tracks system queue ∧ Sequenced events queue :=
  run_invariant run Sequenced
    ⟨rfl, by simp [Queued, WaitQueue.new], by simp⟩
    fun op h hnodup => h.perform hnodup op

/-- In every reachable state the nodes in memory are those of the queued
futures, linked in the order of the sequence; a node without a predecessor is
the first; and whatever the list, `push_back` appends to it and `dequeue`
erases from it, so that no assertion fails. -/
theorem intrusive_list_refines_queue {permits : Nat} {system : System α ω}
    (run : Run (System.Step willWake) (System.new α ω permits) events
      system) :
    system.state.IsList (sequence events) ∧
    (∀ acquire, acquire ∈ sequence events ↔ Queued events acquire) ∧
    (∀ acquire, (system.state.node acquire).isSome ↔
      Queued events acquire) ∧
    (∀ acquire node, system.state.node acquire = some node →
      (node.prev = none ↔ (sequence events).head? = some acquire)) ∧
    (∀ event ∈ events, event.KeepsLinks) ∧
    (∀ (state : State α ω) (nodes : List α), state.IsList nodes →
      (∀ self waker, self ∉ nodes →
        state.node self = some ⟨waker, none, none⟩ →
        ∃ state', (pushBack self).run state = .ok () state' ∧
          state'.IsList (nodes ++ [self])) ∧
      ∀ self ∈ nodes,
        ∃ state', (dequeue self).run state = .ok () state' ∧
          state'.IsList (nodes.erase self) ∧
          state'.nextOf self = none ∧ state'.prevOf self = none) := by
  obtain ⟨queue, htracks, hsequenced⟩ := run_sequenced run
  have hrep := htracks.represents
  have hnode := fun acquire =>
    (hrep.node_isSome_iff acquire).trans (hsequenced.queued acquire)
  rw [← hsequenced.waiters]
  refine ⟨State.IsList.of_chained hrep.toChained, hsequenced.queued, hnode,
    ?_, hsequenced.keepsLinks, ?_⟩
  · intro acquire node hacquire
    refine hrep.toChained.prev_eq_none_iff ?_ hacquire
    exact (hrep.node_isSome_iff acquire).mp (by simp [hacquire])
  · intro state nodes hlist
    refine ⟨fun self waker hout hnode => hlist.pushBack hout hnode, ?_⟩
    intro self hmem
    exact hlist.dequeue hmem

/-- The middle one of three waiters is dropped, and then the first is granted
its permit. -/
theorem middle_waiter_dropped :
    ∃ events system,
      Run (System.Step (· == ·)) (System.new Nat Nat 0) events system ∧
      sequence events = [2] ∧ system.state.head = some 2 ∧
      system.state.IsList [2] := by
  have h : exec (System.tryNext (· == ·)) (System.new Nat Nat 0)
      [.poll 0 10, .poll 1 11, .poll 2 12, .dropAcquire 1, .addPermits 1,
        .poll 0 10] = some (_, _) := rfl
  have run := exec_run System.tryNext_step h
  exact ⟨_, _, run, rfl, rfl, (intrusive_list_refines_queue run).1⟩

end ConjureRuntime.Limiter
