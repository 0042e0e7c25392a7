import ConjureRuntime.Foundation.ListSum
import ConjureRuntime.Node.PinUntilError
import Mathlib.Data.List.Nodup
import Mathlib.Data.List.Range

/-!
# Indices under reshuffles

The shuffle of the nodes is a vector of indices, and the pin an index into it.
The vector is loaded, put into another order and stored again by whatever
request exchanged the time of the next reshuffle, while other requests load
it, move the pin, or are about to store a vector of their own.

Here all indices are plain numbers, as they are in the code, and using one out
of bounds is a panic.
-/

namespace ConjureRuntime.Node.Reshuffle

open ConjureRuntime.Foundation ConjureRuntime.Service

/-- Where a request is: before its load of the pin, at the operations of
`reshuffle_if_necessary` and `get`, at its node, before its move of the pin,
or done.  One that reshuffles remembers for which deadline. -/
inductive Request where
  | starting
  | pinned (pin : Nat)
  | clockRead (pin now : Nat)
  | reshuffling (pin now nextReshuffleNanos : Nat)
  | shuffling (pin deadline : Nat)
  | storing (pin deadline : Nat) (newShuffle : List Nat)
  | resolving (pin : Nat)
  | calling (pin node : Nat)
  | rotating (pin : Nat)
  | done
  | panicked
  deriving DecidableEq

inductive Op where
  | call
  | loadPin (request : Nat)
  | readClock (request now : Nat)
  | loadNextReshuffle (request : Nat)
  | exchangeNextReshuffle (request : Nat)
  | loadShuffle (request : Nat) (newShuffle : List Nat)
  | storeShuffle (request : Nat)
  | getShuffled (request : Nat)
  | answer (request : Nat) (status : Except Unit StatusCode)
  | exchangePin (request : Nat)

inductive Event where
  | called
  | pinLoaded (request pin : Nat)
  | clockRead (request now : Nat)
  | nextReshuffleLoaded (request : Nat) (due : Bool)
  | nextReshuffleExchanged (request now deadline next : Nat)
  | nextReshuffleKept (request : Nat)
  | shuffleLoaded (request : Nat)
  | shuffleStored (request deadline : Nat)
  | resolved (request node : Nat)
  | panicked (request : Nat)
  | answered (request : Nat) (failed : Bool)
  | pinExchanged (request : Nat) (exchanged : Bool)
  deriving DecidableEq

/-- The atomics of the nodes and the service, the clock and the requests. -/
structure System where
  shuffle : List Nat
  nextReshuffleNanos : Nat
  currentPin : Nat
  clock : Nat
  requests : List Request

/-- `interval_with_jitter`, in nanoseconds. -/
def intervalWithJitter (jitter : Duration) : Nat :=
  PinUntilError.reshuffleEvery.nanos + jitter.nanos

namespace System

def new (interval : Nat) (shuffle : List Nat) : System where
  shuffle
  nextReshuffleNanos := interval % 2 ^ 64
  currentPin := 0
  clock := 0
  requests := []

def setRequest (system : System) (request : Nat) (state : Request) :
    System :=
  { system with requests := system.requests.set request state }

/-- `ReshufflingNodes::get`, once it does not reshuffle; `none` when an index
is out of bounds. -/
def get (len : Nat) (shuffle : List Nat) (idx : Nat) : Option Nat := do
  let shuffledIdx ← shuffle[idx]?
  if shuffledIdx < len then some shuffledIdx else none

variable (len interval : Nat)

def next (system : System) : Op → Option (Event × System)
  | .call =>
      some (.called, { system with requests := system.requests ++ [.starting] })
  | .loadPin request =>
      match system.requests[request]? with
      | some .starting =>
          some (.pinLoaded request system.currentPin,
            system.setRequest request (.pinned system.currentPin))
      | _ => none
  | .readClock request now =>
      match system.requests[request]? with
      | some (.pinned pin) =>
          if system.clock ≤ now then
            some (.clockRead request now,
              { system.setRequest request (.clockRead pin now) with
                clock := now })
          else none
      | _ => none
  | .loadNextReshuffle request =>
      match system.requests[request]? with
      | some (.clockRead pin now) =>
          if now < system.nextReshuffleNanos then
            some (.nextReshuffleLoaded request false,
              system.setRequest request (.resolving pin))
          else
            some (.nextReshuffleLoaded request true,
              system.setRequest request
                (.reshuffling pin now system.nextReshuffleNanos))
      | _ => none
  | .exchangeNextReshuffle request =>
      match system.requests[request]? with
      | some (.reshuffling pin now nextReshuffleNanos) =>
          -- the sum of durations is cut down to a `u64`
          let newNextReshuffleNanos := (now + interval) % 2 ^ 64
          if system.nextReshuffleNanos = nextReshuffleNanos then
            some (.nextReshuffleExchanged request now nextReshuffleNanos
                newNextReshuffleNanos,
              { system.setRequest request
                  (.shuffling pin nextReshuffleNanos) with
                nextReshuffleNanos := newNextReshuffleNanos })
          else
            some (.nextReshuffleKept request,
              system.setRequest request (.resolving pin))
      | _ => none
  | .loadShuffle request newShuffle =>
      match system.requests[request]? with
      | some (.shuffling pin deadline) =>
          -- `entropy.shuffle` permutes the vector that was loaded
          if newShuffle.Perm system.shuffle then
            some (.shuffleLoaded request,
              system.setRequest request (.storing pin deadline newShuffle))
          else none
      | _ => none
  | .storeShuffle request =>
      match system.requests[request]? with
      | some (.storing pin deadline newShuffle) =>
          some (.shuffleStored request deadline,
            { system.setRequest request (.resolving pin) with
              shuffle := newShuffle })
      | _ => none
  | .getShuffled request =>
      match system.requests[request]? with
      | some (.resolving pin) =>
          match get len system.shuffle pin with
          | some node =>
              some (.resolved request node,
                system.setRequest request (.calling pin node))
          | none =>
              some (.panicked request, system.setRequest request .panicked)
      | _ => none
  | .answer request status =>
      match system.requests[request]? with
      | some (.calling pin _) =>
          if PinUntilError.incrementHost status then
            some (.answered request true,
              system.setRequest request (.rotating pin))
          else
            some (.answered request false, system.setRequest request .done)
      | _ => none
  | .exchangePin request =>
      match system.requests[request]? with
      | some (.rotating pin) =>
          let newPin := (pin + 1) % len
          if system.currentPin = pin then
            some (.pinExchanged request true,
              { system.setRequest request .done with currentPin := newPin })
          else
            some (.pinExchanged request false, system.setRequest request .done)
      | _ => none

def Step (system : System) (event : Event) (system' : System) : Prop :=
  ∃ op, system.next len interval op = some (event, system')

end System

/-! ## Permutations of the indices -/

section Shuffle

variable {len : Nat} {shuffle : List Nat}

theorem mem_shuffle_iff (h : shuffle.Perm (List.range len)) {node : Nat} :
    node ∈ shuffle ↔ node < len := by
  rw [h.mem_iff, List.mem_range]

theorem get_eq_some_iff (h : shuffle.Perm (List.range len)) {idx node : Nat} :
    System.get len shuffle idx = some node ↔ shuffle[idx]? = some node := by
  unfold System.get
  cases hidx : shuffle[idx]? with
  | none => simp
  | some shuffledIdx =>
      have hlt : shuffledIdx < len :=
        (mem_shuffle_iff h).mp (List.mem_of_getElem? hidx)
      simp [hlt]

theorem get_isSome (h : shuffle.Perm (List.range len)) {idx : Nat}
    (hidx : idx < len) :
    ∃ node < len, System.get len shuffle idx = some node := by
  have hlength : shuffle.length = len := by simpa using h.length_eq
  have hsome : shuffle[idx]? = some shuffle[idx] :=
    List.getElem?_eq_getElem (hlength.symm ▸ hidx)
  exact ⟨_, (mem_shuffle_iff h).mp (List.mem_of_getElem? hsome),
    (get_eq_some_iff h).mpr hsome⟩

theorem existsUnique_get (h : shuffle.Perm (List.range len)) {node : Nat}
    (hnode : node < len) :
    ∃! idx, idx < len ∧ System.get len shuffle idx = some node := by
  have hlength : shuffle.length = len := by simpa using h.length_eq
  have hnodup : shuffle.Nodup := h.symm.nodup List.nodup_range
  obtain ⟨idx, hidx, rfl⟩ :=
    List.mem_iff_getElem.mp ((mem_shuffle_iff h).mpr hnode)
  refine ⟨idx, ⟨hlength ▸ hidx, (get_eq_some_iff h).mpr
    (List.getElem?_eq_getElem hidx)⟩, ?_⟩
  rintro other ⟨hother, hget⟩
  rw [get_eq_some_iff h] at hget
  obtain ⟨hlt, heq⟩ := List.getElem?_eq_some_iff.mp hget
  exact (List.Nodup.getElem_inj_iff hnodup).mp heq

end Shuffle

/-! ## The indices are in bounds -/

def Request.Sound (len : Nat) : Request → Prop
  | .starting | .done => True
  | .panicked => False
  | .pinned pin | .clockRead pin _ | .reshuffling pin _ _ | .shuffling pin _
  | .resolving pin | .rotating pin => pin < len
  | .storing pin _ newShuffle => pin < len ∧ newShuffle.Perm (List.range len)
  | .calling pin node => pin < len ∧ node < len

namespace System

variable {len interval : Nat} {system system' : System} {event : Event}

structure Invariant (len : Nat) (system : System) : Prop where
  shuffle : system.shuffle.Perm (List.range len)
  pin : system.currentPin < len
  requests : ∀ {request : Nat} {state : Request},
    system.requests[request]? = some state → state.Sound len

theorem Invariant.setRequest (inv : Invariant len system) (request : Nat)
    {state : Request} (hstate : state.Sound len) :
    Invariant len (system.setRequest request state) where
  shuffle := inv.shuffle
  pin := inv.pin
  requests := by
    intro other state' hother
    rcases getElem?_set_cases hother with ⟨_, rfl⟩ | ⟨_, hother⟩
    · exact hstate
    · exact inv.requests hother

theorem new_invariant {shuffle : List Nat} (hlen : 2 ≤ len)
    (hshuffle : shuffle.Perm (List.range len)) :
    Invariant len (new interval shuffle) where
  shuffle := hshuffle
  pin := Nat.lt_of_lt_of_le Nat.zero_lt_two hlen
  requests := by simp [new]

theorem Invariant.step (inv : Invariant len system)
    (h : Step len interval system event system') :
    Invariant len system' ∧ ∀ request, event ≠ .panicked request := by
  obtain ⟨op, h⟩ := h
  cases op with
  | call =>
      cases h
      refine ⟨⟨inv.shuffle, inv.pin, ?_⟩, by simp⟩
      intro request state hstate
      rcases getElem?_append_singleton_cases hstate with hstate | ⟨_, rfl⟩
      · exact inv.requests hstate
      · trivial
  | loadPin request =>
      simp only [next] at h
      split at h
      · cases h
        exact ⟨inv.setRequest request inv.pin, by simp⟩
      · cases h
  | readClock request now =>
      simp only [next] at h
      split at h
      · rename_i pin hstate
        have hpin : pin < len := inv.requests hstate
        split at h
        · cases h
          have hnext : Invariant len
              (system.setRequest request (.clockRead pin now)) :=
            inv.setRequest request hpin
          exact ⟨⟨hnext.shuffle, hnext.pin, hnext.requests⟩, by simp⟩
        · cases h
      · cases h
  | loadNextReshuffle request =>
      simp only [next] at h
      split at h
      · rename_i pin now hstate
        have hpin : pin < len := inv.requests hstate
        split at h <;> cases h <;>
          exact ⟨inv.setRequest request hpin, by simp⟩
      · cases h
  | exchangeNextReshuffle request =>
      simp only [next] at h
      split at h
      · rename_i pin now deadline hstate
        have hpin : pin < len := inv.requests hstate
        split at h
        · cases h
          have hnext : Invariant len
              (system.setRequest request (.shuffling pin deadline)) :=
            inv.setRequest request hpin
          exact ⟨⟨hnext.shuffle, hnext.pin, hnext.requests⟩, by simp⟩
        · cases h
          exact ⟨inv.setRequest request hpin, by simp⟩
      · cases h
  | loadShuffle request newShuffle =>
      simp only [next] at h
      split at h
      · rename_i pin deadline hstate
        have hpin : pin < len := inv.requests hstate
        split at h
        · rename_i hperm
          cases h
          exact ⟨inv.setRequest request ⟨hpin, hperm.trans inv.shuffle⟩,
            by simp⟩
        · cases h
      · cases h
  | storeShuffle request =>
      simp only [next] at h
      split at h
      · rename_i pin deadline newShuffle hstate
        cases h
        obtain ⟨hpin, hperm⟩ := inv.requests hstate
        have hnext : Invariant len
            (system.setRequest request (.resolving pin)) :=
          inv.setRequest request hpin
        exact ⟨⟨hperm, hnext.pin, hnext.requests⟩, by simp⟩
      · cases h
  | getShuffled request =>
      simp only [next] at h
      split at h
      · rename_i pin hstate
        have hpin : pin < len := inv.requests hstate
        obtain ⟨node, hnode, hget⟩ := get_isSome inv.shuffle hpin
        simp only [hget] at h
        cases h
        exact ⟨inv.setRequest request ⟨hpin, hnode⟩, by simp⟩
      · cases h
  | answer request status =>
      simp only [next] at h
      split at h
      · rename_i pin node hstate
        have hpin : pin < len := (inv.requests hstate).1
        split at h <;> cases h
        · exact ⟨inv.setRequest request hpin, by simp⟩
        · exact ⟨inv.setRequest request trivial, by simp⟩
      · cases h
  | exchangePin request =>
      simp only [next] at h
      split at h
      · have hdone : Invariant len (system.setRequest request .done) :=
          inv.setRequest request trivial
        split at h <;> cases h
        · refine ⟨⟨hdone.shuffle, ?_, hdone.requests⟩, by simp⟩
          exact Nat.mod_lt _ (Nat.lt_of_le_of_lt (Nat.zero_le _) inv.pin)
        · exact ⟨hdone, by simp⟩
      · cases h

end System

/-! ## Deadlines -/

def Request.deadline : Request → Option Nat
  | .shuffling _ deadline | .storing _ deadline _ => some deadline
  | _ => none

def Request.Timed : Request → Prop
  | .reshuffling _ now nextReshuffleNanos => nextReshuffleNanos ≤ now
  | _ => True

def Event.stored : Event → Option Nat
  | .shuffleStored _ deadline => some deadline
  | _ => none

def Event.IsQuiet : Event → Prop
  | .nextReshuffleExchanged _ _ _ _ | .shuffleStored _ _ => False
  | _ => True

theorem Event.IsQuiet.stored {event : Event} (h : event.IsQuiet) :
    event.stored = none := by
  cases event with
  | shuffleStored => exact h.elim
  | _ => rfl

/-- The sum of the clock reading and the interval fits a `u64`. -/
def Event.InTime (interval : Nat) : Event → Prop
  | .nextReshuffleExchanged _ now _ _ => now + interval < 2 ^ 64
  | _ => True

namespace System

variable {len interval : Nat} {system system' : System} {event : Event}

inductive Effect (interval : Nat) (system : System) (event : Event)
    (system' : System) : Prop where
  | called (requests : system'.requests = system.requests ++ [.starting])
      (next : system'.nextReshuffleNanos = system.nextReshuffleNanos)
      (quiet : event.IsQuiet)
  | kept (request : Nat) (old new : Request)
      (found : system.requests[request]? = some old)
      (requests : system'.requests = system.requests.set request new)
      (deadline : new.deadline = old.deadline)
      (timed : old.Timed → new.Timed)
      (next : system'.nextReshuffleNanos = system.nextReshuffleNanos)
      (quiet : event.IsQuiet)
  | exchanged (request pin now : Nat)
      (found : system.requests[request]? =
        some (.reshuffling pin now system.nextReshuffleNanos))
      (requests : system'.requests = system.requests.set request
        (.shuffling pin system.nextReshuffleNanos))
      (next : system'.nextReshuffleNanos = (now + interval) % 2 ^ 64)
      (event : event = .nextReshuffleExchanged request now
        system.nextReshuffleNanos system'.nextReshuffleNanos)
  | stored (request pin deadline : Nat) (newShuffle : List Nat)
      (found : system.requests[request]? =
        some (.storing pin deadline newShuffle))
      (requests : system'.requests = system.requests.set request
        (.resolving pin))
      (next : system'.nextReshuffleNanos = system.nextReshuffleNanos)
      (event : event = .shuffleStored request deadline)

theorem effect_of_step (h : Step len interval system event system') :
    Effect interval system event system' := by
  obtain ⟨op, h⟩ := h
  cases op with
  | call =>
      cases h
      exact .called rfl rfl trivial
  | loadPin request =>
      simp only [next] at h
      split at h
      · rename_i hstate
        cases h
        exact .kept request _ _ hstate rfl rfl id rfl trivial
      · cases h
  | readClock request now =>
      simp only [next] at h
      split at h
      · rename_i hstate
        split at h
        · cases h
          exact .kept request _ _ hstate rfl rfl id rfl trivial
        · cases h
      · cases h
  | loadNextReshuffle request =>
      simp only [next] at h
      split at h
      · rename_i hstate
        split at h
        · cases h
          exact .kept request _ _ hstate rfl rfl id rfl trivial
        · rename_i hdue
          cases h
          exact .kept request _ _ hstate rfl rfl
            (fun _ => Nat.le_of_not_lt hdue) rfl trivial
      · cases h
  | exchangeNextReshuffle request =>
      simp only [next] at h
      split at h
      · rename_i pin now deadline hstate
        split at h
        · rename_i hsame
          cases h
          cases hsame
          exact .exchanged request pin now hstate rfl rfl rfl
        · cases h
          exact .kept request _ _ hstate rfl rfl (fun _ => trivial) rfl
            trivial
      · cases h
  | loadShuffle request newShuffle =>
      simp only [next] at h
      split at h
      · rename_i hstate
        split at h
        · cases h
          exact .kept request _ _ hstate rfl rfl id rfl trivial
        · cases h
      · cases h
  | storeShuffle request =>
      simp only [next] at h
      split at h
      · rename_i pin deadline newShuffle hstate
        cases h
        exact .stored request pin deadline newShuffle hstate rfl rfl rfl
      · cases h
  | getShuffled request =>
      simp only [next] at h
      split at h
      · rename_i hstate
        split at h <;> cases h <;>
          exact .kept request _ _ hstate rfl rfl id rfl trivial
      · cases h
  | answer request status =>
      simp only [next] at h
      split at h
      · rename_i hstate
        split at h <;> cases h <;>
          exact .kept request _ _ hstate rfl rfl id rfl trivial
      · cases h
  | exchangePin request =>
      simp only [next] at h
      split at h
      · rename_i hstate
        split at h <;> cases h <;>
          exact .kept request _ _ hstate rfl rfl id rfl trivial
      · cases h

def AllTimed (system : System) : Prop :=
  ∀ {request : Nat} {state : Request},
    system.requests[request]? = some state → state.Timed

theorem AllTimed.step (h : system.AllTimed)
    (hstep : Step len interval system event system') : system'.AllTimed := by
  intro other state hother
  cases effect_of_step hstep with
  | called requests =>
      rw [requests] at hother
      rcases getElem?_append_singleton_cases hother with hother | ⟨_, rfl⟩
      · exact h hother
      · trivial
  | kept request old new found requests _ timed =>
      rw [requests] at hother
      rcases getElem?_set_cases hother with ⟨_, rfl⟩ | ⟨_, hother⟩
      · exact timed (h found)
      · exact h hother
  | exchanged request pin now _ requests =>
      rw [requests] at hother
      rcases getElem?_set_cases hother with ⟨_, rfl⟩ | ⟨_, hother⟩
      · trivial
      · exact h hother
  | stored request pin deadline newShuffle _ requests =>
      rw [requests] at hother
      rcases getElem?_set_cases hother with ⟨_, rfl⟩ | ⟨_, hother⟩
      · trivial
      · exact h hother

theorem new_allTimed {shuffle : List Nat} :
    (new interval shuffle).AllTimed := by
  simp [AllTimed, new]

theorem exchange_raises {request now deadline raised : Nat}
    (h : system.AllTimed)
    (hstep : Step len interval system
      (.nextReshuffleExchanged request now deadline raised) system') :
    system.nextReshuffleNanos = deadline ∧
      system'.nextReshuffleNanos = raised ∧
      (now + interval < 2 ^ 64 → deadline + interval ≤ raised) := by
  cases effect_of_step hstep with
  | called _ _ quiet => exact quiet.elim
  | kept _ _ _ _ _ _ _ _ quiet => exact quiet.elim
  | exchanged request pin now found requests next event =>
      cases event
      refine ⟨rfl, rfl, fun hfits => ?_⟩
      have hpassed : system.nextReshuffleNanos ≤ now := h found
      rw [next, Nat.mod_eq_of_lt hfits]
      exact Nat.add_le_add_right hpassed interval
  | stored _ _ _ _ _ _ _ event => cases event

/-! ## One reshuffle for a deadline -/

def storedDeadlines (events : List Event) : List Nat :=
  events.filterMap Event.stored

/-- Every deadline belongs to one request that is about to reshuffle, or to
one reshuffle, and all of them have been raised since. -/
structure Deadlines (events : List Event) (system : System) : Prop where
  pending : ∀ {request : Nat} {state : Request} {deadline : Nat},
    system.requests[request]? = some state →
    state.deadline = some deadline →
    deadline < system.nextReshuffleNanos ∧ deadline ∉ storedDeadlines events
  distinct : ∀ {request other : Nat} {state state' : Request}
    {deadline : Nat}, system.requests[request]? = some state →
    system.requests[other]? = some state' →
    state.deadline = some deadline → state'.deadline = some deadline →
    request = other
  nodup : (storedDeadlines events).Nodup
  passed : ∀ deadline ∈ storedDeadlines events,
    deadline < system.nextReshuffleNanos

variable {events : List Event}

theorem new_deadlines {shuffle : List Nat} :
    Deadlines [] (new interval shuffle) where
  pending := by simp [new]
  distinct := by simp [new]
  nodup := List.nodup_nil
  passed := by simp [storedDeadlines]

theorem Deadlines.of_quiet (h : Deadlines events system)
    (hback : ∀ {request : Nat} {state : Request} {deadline : Nat},
      system'.requests[request]? = some state →
      state.deadline = some deadline →
      ∃ before : Request, system.requests[request]? = some before ∧
        before.deadline = some deadline)
    (hnext : system'.nextReshuffleNanos = system.nextReshuffleNanos)
    (hquiet : event.IsQuiet) : Deadlines (events ++ [event]) system' := by
  have hstored : storedDeadlines (events ++ [event]) =
      storedDeadlines events := by
    simp [storedDeadlines, hquiet.stored]
  refine ⟨?_, ?_, hstored ▸ h.nodup, ?_⟩
  · intro request state deadline hstate hdeadline
    obtain ⟨before, hbefore, hdeadline⟩ := hback hstate hdeadline
    rw [hnext, hstored]
    exact h.pending hbefore hdeadline
  · intro request other state state' deadline hstate hstate' hdeadline
      hdeadline'
    obtain ⟨before, hbefore, hdeadline⟩ := hback hstate hdeadline
    obtain ⟨before', hbefore', hdeadline'⟩ := hback hstate' hdeadline'
    exact h.distinct hbefore hbefore' hdeadline hdeadline'
  · rw [hnext, hstored]
    exact h.passed

theorem Deadlines.step (h : Deadlines events system)
    (htimed : system.AllTimed) (hinterval : 0 < interval)
    (hstep : Step len interval system event system')
    (hfits : event.InTime interval) :
    Deadlines (events ++ [event]) system' := by
  cases effect_of_step hstep with
  | called requests next quiet =>
      refine h.of_quiet ?_ next quiet
      intro request state deadline hstate hdeadline
      rw [requests] at hstate
      rcases getElem?_append_singleton_cases hstate with hstate | ⟨_, rfl⟩
      · exact ⟨state, hstate, hdeadline⟩
      · cases hdeadline
  | kept request old new found requests same _ next quiet =>
      refine h.of_quiet ?_ next quiet
      intro other state deadline hstate hdeadline
      rw [requests] at hstate
      rcases getElem?_set_cases hstate with ⟨rfl, rfl⟩ | ⟨_, hstate⟩
      · exact ⟨old, found, same.symm.trans hdeadline⟩
      · exact ⟨state, hstate, hdeadline⟩
  | exchanged request pin now found requests next event =>
      cases event
      have hpassed : system.nextReshuffleNanos ≤ now := htimed found
      have hraised :
          system.nextReshuffleNanos < system'.nextReshuffleNanos := by
        rw [next, Nat.mod_eq_of_lt hfits]
        omega
      have hstored : storedDeadlines (events ++
          [.nextReshuffleExchanged request now system.nextReshuffleNanos
            system'.nextReshuffleNanos]) = storedDeadlines events := by
        simp [storedDeadlines, Event.stored]
      refine ⟨?_, ?_, hstored ▸ h.nodup, ?_⟩
      · intro other state deadline hstate hdeadline
        rw [requests] at hstate
        rw [hstored]
        rcases getElem?_set_cases hstate with ⟨_, rfl⟩ | ⟨_, hstate⟩
        · cases hdeadline
          exact ⟨hraised, fun hmem => Nat.lt_irrefl _ (h.passed _ hmem)⟩
        · obtain ⟨hlt, hnew⟩ := h.pending hstate hdeadline
          exact ⟨hlt.trans hraised, hnew⟩
      · intro one other state state' deadline hstate hstate' hdeadline
          hdeadline'
        rw [requests] at hstate hstate'
        rcases getElem?_set_cases hstate with ⟨rfl, rfl⟩ | ⟨_, hbefore⟩
        · cases hdeadline
          rcases getElem?_set_cases hstate' with ⟨rfl, _⟩ | ⟨_, hbefore'⟩
          · rfl
          · have hlt := (h.pending hbefore' hdeadline').1
            exact absurd hlt (Nat.lt_irrefl _)
        · rcases getElem?_set_cases hstate' with ⟨rfl, rfl⟩ | ⟨_, hbefore'⟩
          · cases hdeadline'
            have hlt := (h.pending hbefore hdeadline).1
            exact absurd hlt (Nat.lt_irrefl _)
          · exact h.distinct hbefore hbefore' hdeadline hdeadline'
      · intro deadline hdeadline
        rw [hstored] at hdeadline
        exact (h.passed deadline hdeadline).trans hraised
  | stored request pin deadline newShuffle found requests next event =>
      cases event
      have hstored : storedDeadlines (events ++
          [.shuffleStored request deadline]) =
            storedDeadlines events ++ [deadline] := by
        simp [storedDeadlines, Event.stored]
      obtain ⟨hlt, hnew⟩ := h.pending found rfl
      have hother {other : Nat} {state : Request} {deadline' : Nat}
          (hstate : system'.requests[other]? = some state)
          (hdeadline : state.deadline = some deadline') :
          other ≠ request ∧ system.requests[other]? = some state := by
        rw [requests] at hstate
        rcases getElem?_set_cases hstate with ⟨_, rfl⟩ | hstate
        · cases hdeadline
        · exact hstate
      refine ⟨?_, ?_, ?_, ?_⟩
      · intro other state deadline' hstate hdeadline
        obtain ⟨hne, hstate⟩ := hother hstate hdeadline
        obtain ⟨hlt', hnew'⟩ := h.pending hstate hdeadline
        rw [next, hstored]
        refine ⟨hlt', ?_⟩
        simp only [List.mem_append, List.mem_singleton, not_or]
        refine ⟨hnew', ?_⟩
        rintro rfl
        exact hne (h.distinct hstate found hdeadline rfl)
      · intro one other state state' deadline' hstate hstate' hdeadline
          hdeadline'
        exact h.distinct (hother hstate hdeadline).2
          (hother hstate' hdeadline').2 hdeadline hdeadline'
      · rw [hstored, List.nodup_append_comm]
        exact List.nodup_cons.mpr ⟨hnew, h.nodup⟩
      · intro deadline' hdeadline
        rw [hstored] at hdeadline
        rw [next]
        rcases List.mem_append.mp hdeadline with hmem | hmem
        · exact h.passed deadline' hmem
        · rw [List.mem_singleton.mp hmem]
          exact hlt

/-! ## Whole runs -/

theorem invariant_of_run {shuffle : List Nat} (hlen : 2 ≤ len)
    (hshuffle : shuffle.Perm (List.range len))
    (run : Run (Step len interval) (new interval shuffle) events system) :
    Invariant len system ∧ system.AllTimed ∧
      ∀ request, .panicked request ∉ events := by
  refine run.invariant (fun events system => Invariant len system ∧
    system.AllTimed ∧ ∀ request, .panicked request ∉ events)
    ⟨new_invariant hlen hshuffle, new_allTimed, by simp⟩ ?_
  rintro events system event system' ⟨inv, htimed, hfree⟩ hstep
  obtain ⟨inv', hevent⟩ := inv.step hstep
  refine ⟨inv', htimed.step hstep, fun request hmem => ?_⟩
  rcases List.mem_append.mp hmem with hmem | hmem
  · exact hfree request hmem
  · exact hevent request (List.mem_singleton.mp hmem).symm

theorem deadlines_of_run {shuffle : List Nat} (hinterval : 0 < interval)
    (run : Run (Step len interval) (new interval shuffle) events system)
    (hfits : ∀ event ∈ events, event.InTime interval) :
    Deadlines events system := by
  have hboth := run.invariant (fun events system => system.AllTimed ∧
    ((∀ event ∈ events, event.InTime interval) → Deadlines events system))
    ⟨new_allTimed, fun _ => new_deadlines⟩ (by
      rintro events system event system' ⟨htimed, hdeadlines⟩ hstep
      refine ⟨htimed.step hstep, fun hfits => ?_⟩
      have hbefore := hdeadlines fun event hevent =>
        hfits event (List.mem_append_left _ hevent)
      exact hbefore.step htimed hinterval hstep (hfits event (by simp)))
  exact hboth.2 hfits

/-- In every interleaving of requests the stored shuffle is a permutation of
the indices and the pin is one of them, so that no index is out of bounds and
every node is in exactly one slot.  As long as the clock readings plus the
interval fit a `u64`, every exchange raises the time of the next reshuffle by
the interval, and there is at most one reshuffle for each such time. -/
theorem indices_stay_valid {shuffle : List Nat} {jitter : Duration}
    (hlen : 2 ≤ len) (hshuffle : shuffle.Perm (List.range len))
    (run : Run (Step len (intervalWithJitter jitter))
      (new (intervalWithJitter jitter) shuffle) events system) :
    (system.shuffle.Perm (List.range len) ∧ system.currentPin < len) ∧
    (∀ request, .panicked request ∉ events) ∧
    (∀ node < len, ∃! idx, idx < len ∧
      get len system.shuffle idx = some node) ∧
    (∀ {request now deadline raised system'},
      Step len (intervalWithJitter jitter) system
        (.nextReshuffleExchanged request now deadline raised) system' →
      system.nextReshuffleNanos = deadline ∧
        system'.nextReshuffleNanos = raised ∧
        (now + intervalWithJitter jitter < 2 ^ 64 →
          deadline + intervalWithJitter jitter ≤ raised)) ∧
    ((∀ event ∈ events, event.InTime (intervalWithJitter jitter)) →
      (storedDeadlines events).Nodup) := by
  obtain ⟨inv, htimed, hfree⟩ := invariant_of_run hlen hshuffle run
  have hinterval : 0 < intervalWithJitter jitter :=
    Nat.lt_of_lt_of_le (by decide) (Nat.le_add_right _ _)
  refine ⟨⟨inv.shuffle, inv.pin⟩, hfree, ?_, ?_, ?_⟩
  · exact fun node hnode => existsUnique_get inv.shuffle hnode
  · exact fun hstep => exchange_raises htimed hstep
  · exact fun hfits => (deadlines_of_run hinterval run hfits).nodup

/-! ## Two requests after the deadline -/

def reshuffleOps (request now : Nat) (newShuffle : List Nat) : List Op :=
  [.call, .loadPin request, .readClock request now,
    .loadNextReshuffle request, .exchangeNextReshuffle request,
    .loadShuffle request newShuffle, .storeShuffle request]

def reshuffleEvents (request now deadline raised : Nat) : List Event :=
  [.called, .pinLoaded request 0, .clockRead request now,
    .nextReshuffleLoaded request true,
    .nextReshuffleExchanged request now deadline raised,
    .shuffleLoaded request, .shuffleStored request deadline]

def shortInterval : Nat := intervalWithJitter ⟨0⟩

theorem shuffled_twice_in_time :
    ∃ system, Run (Step 2 shortInterval) (new shortInterval [0, 1])
        (reshuffleEvents 0 shortInterval shortInterval (2 * shortInterval) ++
          reshuffleEvents 1 (2 * shortInterval) (2 * shortInterval)
            (3 * shortInterval)) system ∧
      (system.shuffle.Perm (List.range 2) ∧ system.currentPin < 2) ∧
      (storedDeadlines
        (reshuffleEvents 0 shortInterval shortInterval (2 * shortInterval) ++
          reshuffleEvents 1 (2 * shortInterval) (2 * shortInterval)
            (3 * shortInterval))).Nodup := by
  have hexec : ∃ system, exec (next 2 shortInterval) (new shortInterval [0, 1])
      (reshuffleOps 0 shortInterval [1, 0] ++
        reshuffleOps 1 (2 * shortInterval) [0, 1]) =
      some (reshuffleEvents 0 shortInterval shortInterval (2 * shortInterval) ++
        reshuffleEvents 1 (2 * shortInterval) (2 * shortInterval)
          (3 * shortInterval), system) := ⟨_, rfl⟩
  obtain ⟨system, hexec⟩ := hexec
  have run : Run (Step 2 shortInterval) _ _ _ :=
    exec_run (fun h => ⟨_, h⟩) hexec
  have hvalid := indices_stay_valid (by decide) (by decide) run
  obtain ⟨hin, _, _, _, honce⟩ := hvalid
  refine ⟨system, run, hin, honce ?_⟩
  have hfits : shortInterval + intervalWithJitter ⟨0⟩ < 2 ^ 64 ∧
      2 * shortInterval + intervalWithJitter ⟨0⟩ < 2 ^ 64 := by decide
  simpa [reshuffleEvents, Event.InTime] using hfits

/-- After 584 years the sum no longer fits: the exchange raises nothing, and
the same deadline is met again. -/
theorem late_deadline_met_twice :
    ∃ system, Run (Step 2 shortInterval) (new shortInterval [0, 1])
        (reshuffleEvents 0 (2 ^ 64) shortInterval shortInterval ++
          reshuffleEvents 1 (2 ^ 64) shortInterval shortInterval) system ∧
      ¬ shortInterval + shortInterval ≤ shortInterval ∧
      storedDeadlines
        (reshuffleEvents 0 (2 ^ 64) shortInterval shortInterval ++
          reshuffleEvents 1 (2 ^ 64) shortInterval shortInterval) =
        [shortInterval, shortInterval] := by
  have hexec : ∃ system, exec (next 2 shortInterval) (new shortInterval [0, 1])
      (reshuffleOps 0 (2 ^ 64) [1, 0] ++ reshuffleOps 1 (2 ^ 64) [0, 1]) =
      some (reshuffleEvents 0 (2 ^ 64) shortInterval shortInterval ++
        reshuffleEvents 1 (2 ^ 64) shortInterval shortInterval, system) :=
    ⟨_, rfl⟩
  obtain ⟨system, hexec⟩ := hexec
  have run : Run (Step 2 shortInterval) _ _ _ :=
    exec_run (fun h => ⟨_, h⟩) hexec
  exact ⟨system, run, by decide, rfl⟩

end System

end ConjureRuntime.Node.Reshuffle
