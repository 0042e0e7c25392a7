import ConjureRuntime.Foundation.Shared
import ConjureRuntime.Foundation.Transition
import ConjureRuntime.Limiter.CiadAccounting

/-!
# Gauges over the limiters

Every node that a service ever had at an index puts its host limiter into the
same two gauges, which refer to it weakly.  Reading a gauge goes through its
limiters one at a time under the lock of the gauge, while requests go on to
change them and drop their last references.
-/

namespace ConjureRuntime.Node

open ConjureRuntime.Foundation ConjureRuntime.Limiter

/-- What the gauges read of a `CiadConcurrencyLimiter<HostLevel>`. -/
structure HostLimiter where
  limit : ℚ
  inFlight : Nat

def HostLimiter.new : HostLimiter := ⟨initialLimit, 0⟩

structure Reduce (ι ν : Type) where
  default : ν
  map : ι → ν
  reduce : ν → ν → ν

def limitReducer : Reduce HostLimiter ℚ := ⟨0, HostLimiter.limit, min⟩

def inFlightReducer : Reduce HostLimiter Nat :=
  ⟨0, HostLimiter.inFlight, (· + ·)⟩

namespace Reduce

variable {ι ν : Type} (reducer : Reduce ι ν)

def accumulate (value : Option ν) (newValue : ν) : Option ν :=
  match value with
  | some value => some (reducer.reduce value newValue)
  | none => some newValue

def fold (values : List ν) : ν :=
  (values.foldl reducer.accumulate none).getD reducer.default

end Reduce

namespace WeakReducingGauge

/-- What a strong reference to a limiter is for: a node that is not in the
gauge yet, a read of the other gauge, a node, the future of `acquire`, a
permit, or a permit that is being dropped and may still have to update the
limit. -/
inductive Role where
  | built
  | reader
  | node
  | acquiring
  | permit (inFlightSnapshot : Nat)
  | returned (update : Option Update)
  deriving DecidableEq

namespace Role

def isPermit : Role → Bool
  | .permit _ => true
  | _ => false

def inUse : Role → Bool
  | .built | .reader => false
  | _ => true

def weight (role : Role) : Nat := if role.isPermit then 1 else 0

end Role

structure Handle where
  role : Role
  address : Nat
  deriving DecidableEq

/-- The progress of `Vec::retain` in `value`. -/
structure Reading (ν : Type) where
  rest : List Nat
  kept : List Nat
  upgraded : Option Nat
  value : Option ν

structure State (ν : Type) where
  limiters : Heap HostLimiter
  handles : List (Option Handle)
  entries : List Nat
  reading : Option (Reading ν)

inductive Op where
  | build
  | push (handle : Nat)
  | acquire (handle : Nat)
  | grant (handle : Nat)
  | giveBack (handle : Nat) (mode : Mode)
  | updateLimit (handle : Nat)
  | borrow (address : Nat)
  | drop (handle : Nat)
  | lock
  | upgrade
  | sample
  | finish
  deriving DecidableEq

inductive Event (ν : Type) where
  | request (op : Op)
  | pushed (address : Nat)
  | locked
  | upgraded (address : Nat)
  | pruned (address : Nat)
  | sampled (address : Nat) (value : ν)
  | read (value : ν)

namespace State

variable {ν : Type}

def new (ν : Type) : State ν := ⟨[], [], [], none⟩

def handle? (state : State ν) (handle : Nat) : Option Handle :=
  state.handles[handle]?.join

def setHandle (state : State ν) (index : Nat) (handle : Option Handle) :
    State ν :=
  { state with handles := state.handles.set index handle }

section fields

variable (state : State ν) (index : Nat) (handle : Option Handle)

@[simp] theorem setHandle_limiters :
    (state.setHandle index handle).limiters = state.limiters := rfl

@[simp] theorem setHandle_handles :
    (state.setHandle index handle).handles =
      state.handles.set index handle := rfl

@[simp] theorem setHandle_entries :
    (state.setHandle index handle).entries = state.entries := rfl

@[simp] theorem setHandle_reading :
    (state.setHandle index handle).reading = state.reading := rfl

end fields

/-- `LimitedNode::new`, up to the push. -/
def build (state : State ν) : State ν :=
  { state with
    limiters := state.limiters.alloc .new
    handles := state.handles ++ [some ⟨.built, state.limiters.length⟩] }

def push (state : State ν) (index address : Nat) : State ν :=
  { state.setHandle index (some ⟨.node, address⟩) with
    entries := state.entries ++ [address] }

def clone (state : State ν) (role : Role) (address : Nat) : State ν :=
  { state with
    limiters := state.limiters.share address
    handles := state.handles ++ [some ⟨role, address⟩] }

def change (state : State ν) (index : Nat) (handle : Handle)
    (limiter : HostLimiter) : State ν :=
  { state.setHandle index (some handle) with
    limiters := state.limiters.put handle.address limiter }

def drop (state : State ν) (index address : Nat) : State ν :=
  { state.setHandle index none with
    limiters := state.limiters.release address }

def nextHandle (state : State ν) (op : Op) (index : Nat) :
    Option (Event ν × State ν) :=
  match state.handle? index with
  | none => none
  | some ⟨role, address⟩ =>
      match op, role with
      | .push _, .built =>
          if state.reading.isNone then
            some (.pushed address, state.push index address)
          else none
      | .acquire _, .node => some (.request op, state.clone .acquiring address)
      | .grant _, .acquiring =>
          (state.limiters.value? address).map fun limiter =>
            let inFlight := limiter.inFlight + 1
            (.request op, state.change index ⟨.permit inFlight, address⟩
              { limiter with inFlight := inFlight })
      | .giveBack _ mode, .permit inFlightSnapshot =>
          (state.limiters.value? address).map fun limiter =>
            (.request op, state.change index
              ⟨.returned (mode.update inFlightSnapshot), address⟩
              { limiter with inFlight := limiter.inFlight - 1 })
      | .updateLimit _, .returned (some update) =>
          (state.limiters.value? address).map fun limiter =>
            (.request op, state.change index ⟨.returned none, address⟩
              { limiter with
                limit := (update.apply limiter.limit).getD limiter.limit })
      | .drop _, .reader | .drop _, .node | .drop _, .acquiring
      | .drop _, .returned none =>
          some (.request op, state.drop index address)
      | _, _ => none

/-- A step of `WeakReducingGauge::value`. -/
def nextRead (reducer : Reduce HostLimiter ν) (state : State ν) :
    Op → Option (Event ν × State ν)
  | .lock =>
      if state.reading.isNone then
        some (.locked,
          { state with reading := some ⟨state.entries, [], none, none⟩ })
      else none
  | .upgrade =>
      match state.reading with
      | some ⟨address :: rest, kept, none, value⟩ =>
          if 0 < state.limiters.strong address then
            some (.upgraded address, { state with
              limiters := state.limiters.share address
              reading := some ⟨rest, kept, some address, value⟩ })
          else
            some (.pruned address, { state with
              reading := some ⟨rest, kept, none, value⟩ })
      | _ => none
  | .sample =>
      match state.reading with
      | some ⟨rest, kept, some address, value⟩ =>
          (state.limiters.value? address).map fun limiter =>
            let newValue := reducer.map limiter
            (.sampled address newValue, { state with
              limiters := state.limiters.release address
              reading := some ⟨rest, kept ++ [address], none,
                reducer.accumulate value newValue⟩ })
      | _ => none
  | .finish =>
      match state.reading with
      | some ⟨[], kept, none, value⟩ =>
          some (.read (value.getD reducer.default),
            { state with entries := kept, reading := none })
      | _ => none
  | _ => none

def next (reducer : Reduce HostLimiter ν) (state : State ν) (op : Op) :
    Option (Event ν × State ν) :=
  match op with
  | .build => some (.request op, state.build)
  | .borrow address =>
      if 0 < state.limiters.strong address then
        some (.request op, state.clone .reader address)
      else none
  | .push index | .acquire index | .grant index | .giveBack index _
  | .updateLimit index | .drop index => state.nextHandle op index
  | .lock | .upgrade | .sample | .finish => state.nextRead reducer op

def Step (reducer : Reduce HostLimiter ν) (state : State ν)
    (event : Event ν) (state' : State ν) : Prop :=
  ∃ op, state.next reducer op = some (event, state')

def listed (state : State ν) : List Nat :=
  match state.reading with
  | none => state.entries
  | some reading => reading.kept ++ reading.upgraded.toList ++ reading.rest

def owners (state : State ν) : Multiset Nat :=
  held (state.handles.map (Option.map Handle.address)) +
    ((state.reading.bind Reading.upgraded).toList : Multiset Nat)

def permitAt (address : Nat) : Option Handle → Bool
  | some ⟨.permit _, at_⟩ => at_ = address
  | _ => false

/-! ## What a step does -/

variable {reducer : Reduce HostLimiter ν} {state state' : State ν}
  {event : Event ν}

inductive Effect (reducer : Reduce HostLimiter ν) (state : State ν) :
    Event ν → State ν → Prop where
  | build : Effect reducer state (.request .build) state.build
  | push {index address : Nat} (idle : state.reading = none)
      (handle : state.handle? index = some ⟨.built, address⟩) :
      Effect reducer state (.pushed address) (state.push index address)
  | acquire {op : Op} {index address : Nat}
      (handle : state.handle? index = some ⟨.node, address⟩) :
      Effect reducer state (.request op) (state.clone .acquiring address)
  | borrow {op : Op} {address : Nat}
      (alive : 0 < state.limiters.strong address) :
      Effect reducer state (.request op) (state.clone .reader address)
  | change {op : Op} {index address : Nat} {role role' : Role}
      {limiter limiter' : HostLimiter}
      (handle : state.handle? index = some ⟨role, address⟩)
      (value : state.limiters.value? address = some limiter)
      (inUse : role.inUse = true) (built' : role' ≠ .built)
      (inFlight : limiter'.inFlight =
        limiter.inFlight + Role.weight role' - Role.weight role)
      (limit : Ciad.InRange limiter.limit → Ciad.InRange limiter'.limit) :
      Effect reducer state (.request op)
        (state.change index ⟨role', address⟩ limiter')
  | drop {op : Op} {index address : Nat} {role : Role}
      (handle : state.handle? index = some ⟨role, address⟩)
      (permit : role.isPermit = false) :
      Effect reducer state (.request op) (state.drop index address)
  | lock (idle : state.reading = none) :
      Effect reducer state .locked
        { state with reading := some ⟨state.entries, [], none, none⟩ }
  | upgrade {address : Nat} {rest kept : List Nat} {value : Option ν}
      (reading : state.reading = some ⟨address :: rest, kept, none, value⟩)
      (alive : 0 < state.limiters.strong address) :
      Effect reducer state (.upgraded address) { state with
        limiters := state.limiters.share address
        reading := some ⟨rest, kept, some address, value⟩ }
  | prune {address : Nat} {rest kept : List Nat} {value : Option ν}
      (reading : state.reading = some ⟨address :: rest, kept, none, value⟩)
      (dead : state.limiters.strong address = 0) :
      Effect reducer state (.pruned address) { state with
        reading := some ⟨rest, kept, none, value⟩ }
  | sample {address : Nat} {rest kept : List Nat} {value : Option ν}
      {limiter : HostLimiter}
      (reading : state.reading = some ⟨rest, kept, some address, value⟩)
      (limiter_eq : state.limiters.value? address = some limiter) :
      Effect reducer state (.sampled address (reducer.map limiter)) { state with
        limiters := state.limiters.release address
        reading := some ⟨rest, kept ++ [address], none,
          reducer.accumulate value (reducer.map limiter)⟩ }
  | finish {kept : List Nat} {value : Option ν}
      (reading : state.reading = some ⟨[], kept, none, value⟩) :
      Effect reducer state (.read (value.getD reducer.default))
        { state with entries := kept, reading := none }

theorem applied_inRange {update : Update} {limit : ℚ}
    (h : Ciad.InRange limit) :
    Ciad.InRange ((update.apply limit).getD limit) := by
  cases hupdate : update.apply limit with
  | none => exact h
  | some limit' => exact Ciad.Update.apply_inRange h hupdate

theorem nextHandle_effect {op : Op} {index : Nat}
    (h : state.nextHandle op index = some (event, state')) :
    Effect reducer state event state' := by
  unfold nextHandle at h
  split at h
  · cases h
  · rename_i role address hhandle
    split at h
    · split at h
      · rename_i hidle
        cases h
        exact .push (Option.isNone_iff_eq_none.mp hidle) hhandle
      · cases h
    · cases h
      exact .acquire hhandle
    · obtain ⟨limiter, hvalue, h⟩ := Option.map_eq_some_iff.mp h
      cases h
      exact .change hhandle hvalue rfl (by simp) rfl id
    · obtain ⟨limiter, hvalue, h⟩ := Option.map_eq_some_iff.mp h
      cases h
      exact .change hhandle hvalue rfl (by simp) rfl id
    · obtain ⟨limiter, hvalue, h⟩ := Option.map_eq_some_iff.mp h
      cases h
      exact .change hhandle hvalue rfl (by simp) rfl applied_inRange
    · cases h
      exact .drop hhandle rfl
    · cases h
      exact .drop hhandle rfl
    · cases h
      exact .drop hhandle rfl
    · cases h
      exact .drop hhandle rfl
    · cases h

theorem step_effect (h : Step reducer state event state') :
    Effect reducer state event state' := by
  obtain ⟨op, h⟩ := h
  cases op with
  | build =>
      cases h
      exact .build
  | borrow address =>
      simp only [next] at h
      split at h
      · rename_i halive
        cases h
        exact .borrow halive
      · cases h
  | push | acquire | grant | giveBack | updateLimit | drop =>
      exact nextHandle_effect h
  | lock =>
      simp only [next, nextRead] at h
      split at h
      · rename_i hidle
        cases h
        exact .lock (Option.isNone_iff_eq_none.mp hidle)
      · cases h
  | upgrade =>
      simp only [next, nextRead] at h
      split at h
      · rename_i hreading
        split at h
        · rename_i halive
          cases h
          exact .upgrade hreading halive
        · rename_i hdead
          cases h
          exact .prune hreading (Nat.eq_zero_of_not_pos hdead)
      · cases h
  | sample =>
      simp only [next, nextRead] at h
      split at h
      · rename_i hreading
        obtain ⟨limiter, hlimiter, h⟩ := Option.map_eq_some_iff.mp h
        cases h
        exact .sample hreading hlimiter
      · cases h
  | finish =>
      simp only [next, nextRead] at h
      split at h
      · rename_i hreading
        cases h
        exact .finish hreading
      · cases h

/-! ## The references -/

variable {index address : Nat} {role : Role} {handle handle' : Handle}

theorem getElem?_of_handle? (h : state.handle? index = some handle) :
    state.handles[index]? = some (some handle) := by
  unfold handle? at h
  cases hhandle : state.handles[index]? with
  | none => simp [hhandle] at h
  | some found =>
      rw [hhandle] at h
      exact congrArg some h

theorem mem_of_handle? (h : state.handle? index = some handle) :
    some handle ∈ state.handles :=
  List.mem_of_getElem? (getElem?_of_handle? h)

theorem handle?_of_mem (h : some handle ∈ state.handles) :
    ∃ index, state.handle? index = some handle := by
  obtain ⟨index, hindex⟩ := List.getElem?_of_mem h
  exact ⟨index, by simp [handle?, hindex]⟩

theorem handle?_setHandle {new : Option Handle} {other : Nat}
    (h : (state.setHandle index new).handle? other = some handle) :
    (other = index ∧ new = some handle) ∨
      (other ≠ index ∧ state.handle? other = some handle) := by
  rcases getElem?_set_cases (getElem?_of_handle? h) with
    ⟨hother, hnew⟩ | ⟨hother, hold⟩
  · exact .inl ⟨hother, hnew.symm⟩
  · exact .inr ⟨hother, by simp [handle?, hold]⟩

theorem held_handles_set (h : state.handles[index]? = some (some handle))
    (hsame : handle'.address = handle.address) :
    held ((state.handles.set index (some handle')).map
        (Option.map Handle.address)) =
      held (state.handles.map (Option.map Handle.address)) := by
  have hget : (state.handles.map (Option.map Handle.address))[index]? =
      some (some handle'.address) := by
    simp [h, hsame]
  obtain ⟨hlt, hget⟩ := List.getElem?_eq_some_iff.mp hget
  rw [List.map_set, Option.map_some, ← hget, List.set_getElem_self]

theorem held_handles_drop (h : state.handles[index]? = some (some handle)) :
    handle.address ::ₘ held ((state.handles.set index none).map
        (Option.map Handle.address)) =
      held (state.handles.map (Option.map Handle.address)) := by
  rw [List.map_set, Option.map_none]
  exact held_set (by simp [h])

theorem mem_owners (h : some handle ∈ state.handles) :
    handle.address ∈ state.owners := by
  refine Multiset.mem_add.mpr (.inl (mem_held.mpr ?_))
  exact List.mem_map.mpr ⟨some handle, h, rfl⟩

/-! ## The invariant -/

structure Invariant (state : State ν) : Prop where
  owned : state.limiters.Owned state.owners
  counted : ∀ {address limiter},
    state.limiters.value? address = some limiter →
      limiter.inFlight = state.handles.countP (permitAt address)
  inRange : ∀ {address limiter},
    state.limiters.value? address = some limiter →
      Ciad.InRange limiter.limit
  bound : ∀ address ∈ state.listed, address < state.limiters.length
  nodup : state.listed.Nodup
  live : ∀ handle, some handle ∈ state.handles →
    handle.role.inUse = true → handle.address ∈ state.listed
  fresh : ∀ index address, state.handle? index = some ⟨.built, address⟩ →
    address ∉ state.listed ∧ ∀ other,
      state.handle? other = some ⟨.built, address⟩ → other = index

theorem new_invariant : (new ν).Invariant where
  owned := by
    intro address
    simp [new, owners, held, Heap.strong]
  counted h := by simp [new, Heap.value?] at h
  inRange h := by simp [new, Heap.value?] at h
  bound := by simp [new, listed]
  nodup := by simp [new, listed]
  live := by simp [new]
  fresh := by simp [new, handle?]

theorem permitAt_some (role : Role) (at_ : Nat) :
    (if permitAt address (some ⟨role, at_⟩) = true then 1 else 0) =
      if at_ = address then role.weight else 0 := by
  cases role <;> by_cases h : at_ = address <;>
    simp [permitAt, Role.weight, Role.isPermit, h]

theorem Invariant.unused (h : state.Invariant)
    (hhandle : state.handle? index = some handle) :
    handle.address < state.limiters.length :=
  h.owned.lt_length (mem_owners (mem_of_handle? hhandle))

theorem handle?_append {new : Handle} {limiters : Heap HostLimiter}
    {other : Nat}
    (h : State.handle? { state with
      limiters := limiters, handles := state.handles ++ [some new] } other =
        some handle) :
    state.handle? other = some handle ∨
      (other = state.handles.length ∧ handle = new) := by
  rcases getElem?_append_singleton_cases (getElem?_of_handle? h) with
    hold | ⟨hlast, hnew⟩
  · exact .inl (by simp [handle?, hold])
  · exact .inr ⟨hlast, Option.some.inj hnew⟩

theorem Invariant.build (h : state.Invariant) : state.build.Invariant where
  owned := by
    have hadd : state.build.owners =
        state.limiters.length ::ₘ state.owners := by
      simp [State.build, owners]
    rw [hadd]
    exact h.owned.alloc
  counted {address limiter} hvalue := by
    have hlast : permitAt address (some ⟨.built, state.limiters.length⟩) =
        false := rfl
    simp only [State.build, List.countP_append, List.countP_singleton, hlast,
      Bool.false_eq_true, if_false, Nat.add_zero]
    rcases Heap.value?_alloc_cases hvalue with ⟨-, hvalue⟩ | ⟨rfl, rfl⟩
    · exact h.counted hvalue
    · refine (List.countP_eq_zero.mpr ?_).symm
      rintro (_ | ⟨role, at_⟩) hmem hpermit
      · simp [permitAt] at hpermit
      · have hlt := h.owned.lt_length (mem_owners hmem)
        cases role <;> simp [permitAt] at hpermit
        exact absurd hpermit (Nat.ne_of_lt hlt)
  inRange {address limiter} hvalue := by
    rcases Heap.value?_alloc_cases hvalue with ⟨-, hvalue⟩ | ⟨rfl, rfl⟩
    · exact h.inRange hvalue
    · exact Ciad.initialLimit_inRange
  bound := by
    intro address hmem
    have hlt := h.bound address hmem
    simp only [State.build, Heap.alloc, List.length_append]
    omega
  nodup := h.nodup
  live := by
    intro handle hmem hinUse
    rcases List.mem_append.mp hmem with hmem | hmem
    · exact h.live handle hmem hinUse
    · simp only [List.mem_singleton, Option.some.injEq] at hmem
      subst hmem
      cases hinUse
  fresh := by
    intro index address hhandle
    rcases handle?_append hhandle with hhandle | ⟨rfl, hnew⟩
    · obtain ⟨hlisted, honly⟩ := h.fresh index address hhandle
      refine ⟨hlisted, fun other hother => ?_⟩
      rcases handle?_append hother with hother | ⟨rfl, hnew⟩
      · exact honly other hother
      · cases hnew
        exact absurd (h.unused hhandle) (Nat.lt_irrefl _)
    · cases hnew
      refine ⟨fun hmem => Nat.lt_irrefl _ (h.bound _ hmem),
        fun other hother => ?_⟩
      rcases handle?_append hother with hother | ⟨rfl, -⟩
      · exact absurd (h.unused hother) (Nat.lt_irrefl _)
      · rfl

theorem Invariant.clone (h : state.Invariant) {role : Role}
    (howner : address ∈ state.owners) (hbuilt : role ≠ .built)
    (hpermit : role.isPermit = false)
    (hlisted : role.inUse = true → address ∈ state.listed) :
    (state.clone role address).Invariant where
  owned := by
    have hadd : (state.clone role address).owners =
        address ::ₘ state.owners := by
      simp [State.clone, owners]
    rw [hadd]
    exact h.owned.share howner
  counted {address' limiter} hvalue := by
    have hlast : permitAt address' (some ⟨role, address⟩) = false := by
      cases role <;> simp_all [permitAt, Role.isPermit]
    simp only [State.clone, Heap.value?_share] at hvalue
    simp only [State.clone, List.countP_append, List.countP_singleton, hlast,
      Bool.false_eq_true, if_false, Nat.add_zero]
    exact h.counted hvalue
  inRange {address' limiter} hvalue := by
    simp only [State.clone, Heap.value?_share] at hvalue
    exact h.inRange hvalue
  bound := by
    intro other hmem
    have hlt := h.bound other hmem
    simpa [State.clone, Heap.share] using hlt
  nodup := h.nodup
  live := by
    intro handle hmem hinUse
    rcases List.mem_append.mp hmem with hmem | hmem
    · exact h.live handle hmem hinUse
    · simp only [List.mem_singleton, Option.some.injEq] at hmem
      subst hmem
      exact hlisted hinUse
  fresh := by
    intro index' address' hindex'
    rcases handle?_append hindex' with hindex' | ⟨rfl, hnew⟩
    · obtain ⟨hnotListed, honly⟩ := h.fresh index' address' hindex'
      refine ⟨hnotListed, fun other hother => ?_⟩
      rcases handle?_append hother with hother | ⟨rfl, hnew⟩
      · exact honly other hother
      · exact absurd (congrArg Handle.role hnew).symm hbuilt
    · exact absurd (congrArg Handle.role hnew).symm hbuilt

theorem Invariant.change (h : state.Invariant) {role role' : Role}
    {limiter limiter' : HostLimiter}
    (hhandle : state.handle? index = some ⟨role, address⟩)
    (hvalue : state.limiters.value? address = some limiter)
    (hinUse : role.inUse = true) (hbuilt' : role' ≠ .built)
    (hinFlight : limiter'.inFlight =
      limiter.inFlight + role'.weight - role.weight)
    (hlimit : Ciad.InRange limiter.limit → Ciad.InRange limiter'.limit) :
    (state.change index ⟨role', address⟩ limiter').Invariant := by
  have hget := getElem?_of_handle? hhandle
  have hlt := Heap.lt_length_of_value? hvalue
  refine ⟨?_, ?_, ?_, ?_, h.nodup, ?_, ?_⟩
  · have howners : (state.change index ⟨role', address⟩ limiter').owners =
        state.owners := by
      have hheld := @held_handles_set _ _ _ _ ⟨role', address⟩ hget rfl
      simp only [State.change, owners, setHandle_handles, setHandle_reading,
        hheld]
    rw [howners]
    exact h.owned.put
  · intro other value hother
    have hcount := countP_set_add hget (some ⟨role', address⟩)
      (permitAt other)
    rw [permitAt_some, permitAt_some] at hcount
    simp only [State.change, setHandle_handles]
    rcases Heap.value?_put_cases hlt hother with ⟨rfl, rfl⟩ | ⟨hne, hother⟩
    · rw [if_pos rfl, if_pos rfl, ← h.counted hvalue] at hcount
      omega
    · rw [if_neg (Ne.symm hne), if_neg (Ne.symm hne)] at hcount
      rw [h.counted hother]
      exact hcount.symm
  · intro other value hother
    rcases Heap.value?_put_cases hlt hother with ⟨rfl, rfl⟩ | ⟨hne, hother⟩
    · exact hlimit (h.inRange hvalue)
    · exact h.inRange hother
  · intro other hmem
    have hlt := h.bound other hmem
    simpa [State.change, Heap.put] using hlt
  · intro handle hmem hinUse'
    obtain ⟨other, hother⟩ := handle?_of_mem hmem
    rcases handle?_setHandle hother with ⟨-, hnew⟩ | ⟨-, hold⟩
    · cases hnew
      exact h.live ⟨role, address⟩ (mem_of_handle? hhandle) hinUse
    · exact h.live handle (mem_of_handle? hold) hinUse'
  · intro index' address' hindex'
    rcases handle?_setHandle hindex' with ⟨-, hnew⟩ | ⟨-, hold⟩
    · cases hnew
      exact absurd rfl hbuilt'
    · obtain ⟨hlisted, honly⟩ := h.fresh index' address' hold
      refine ⟨hlisted, fun other hother => ?_⟩
      rcases handle?_setHandle hother with ⟨-, hnew⟩ | ⟨-, hother⟩
      · cases hnew
        exact absurd rfl hbuilt'
      · exact honly other hother

theorem Invariant.push (h : state.Invariant) (hidle : state.reading = none)
    (hhandle : state.handle? index = some ⟨.built, address⟩) :
    (state.push index address).Invariant := by
  have hget := getElem?_of_handle? hhandle
  have hlt := h.unused hhandle
  obtain ⟨hfresh, honly⟩ := h.fresh index address hhandle
  have hlisted : state.listed = state.entries := by simp [listed, hidle]
  have hlisted' : (state.push index address).listed =
      state.listed ++ [address] := by
    simp [State.push, listed, hidle]
  refine ⟨?_, ?_, ?_, ?_, ?_, ?_, ?_⟩
  · have hheld := @held_handles_set _ _ _ _ ⟨.node, address⟩ hget rfl
    have howners : (state.push index address).owners = state.owners := by
      simp only [State.push, owners, setHandle_handles, setHandle_reading,
        hheld]
    rw [howners]
    exact h.owned
  · intro other value hother
    have hcount := countP_set_add hget (some ⟨.node, address⟩)
      (permitAt other)
    rw [h.counted hother]
    exact hcount.symm
  · intro other value hother
    exact h.inRange hother
  · rw [hlisted']
    intro other hmem
    rcases List.mem_append.mp hmem with hmem | hmem
    · exact h.bound other hmem
    · rw [List.mem_singleton.mp hmem]
      exact hlt
  · rw [hlisted']
    exact List.nodup_append'.mpr ⟨h.nodup, List.nodup_singleton _,
      List.disjoint_singleton.mpr hfresh⟩
  · rw [hlisted']
    intro handle hmem hinUse
    obtain ⟨other, hother⟩ := handle?_of_mem hmem
    rcases handle?_setHandle hother with ⟨-, hnew⟩ | ⟨-, hold⟩
    · cases hnew
      exact List.mem_append_right _ List.mem_cons_self
    · exact List.mem_append_left _
        (h.live handle (mem_of_handle? hold) hinUse)
  · rw [hlisted']
    intro index' address' hindex'
    rcases handle?_setHandle hindex' with ⟨-, hnew⟩ | ⟨hne, hold⟩
    · cases hnew
    · obtain ⟨hlisted, honly'⟩ := h.fresh index' address' hold
      have haddress : address' ≠ address := by
        rintro rfl
        exact hne (honly index' hold)
      refine ⟨?_, fun other hother => ?_⟩
      · simp [hlisted, haddress]
      · rcases handle?_setHandle hother with ⟨-, hnew⟩ | ⟨-, hother⟩
        · cases hnew
        · exact honly' other hother

theorem Invariant.drop (h : state.Invariant)
    (hhandle : state.handle? index = some ⟨role, address⟩)
    (hpermit : role.isPermit = false) :
    (state.drop index address).Invariant := by
  have hget := getElem?_of_handle? hhandle
  have hstays : ∀ {other handle},
      (state.drop index address).handle? other = some handle →
      state.handle? other = some handle := by
    intro other handle hother
    rcases handle?_setHandle hother with ⟨-, hnew⟩ | ⟨-, hold⟩
    · cases hnew
    · exact hold
  refine ⟨?_, ?_, ?_, ?_, h.nodup, ?_, ?_⟩
  · have howners : state.owners =
        address ::ₘ (state.drop index address).owners := by
      have hheld := held_handles_drop hget
      simp only [State.drop, owners, setHandle_handles, setHandle_reading,
        ← hheld, Multiset.cons_add]
    have howned := h.owned
    rw [howners] at howned
    exact howned.release
  · intro other value hother
    have hcount := countP_set_add hget none (permitAt other)
    have hweight : role.weight = 0 := by simp [Role.weight, hpermit]
    simp only [State.drop, Heap.value?_release] at hother
    rw [permitAt_some, hweight, ite_self] at hcount
    rw [h.counted hother]
    exact hcount.symm
  · intro other value hother
    simp only [State.drop, Heap.value?_release] at hother
    exact h.inRange hother
  · intro other hmem
    have hlt := h.bound other hmem
    simpa [State.drop, Heap.release] using hlt
  · intro handle hmem hinUse
    obtain ⟨other, hother⟩ := handle?_of_mem hmem
    exact h.live handle (mem_of_handle? (hstays hother)) hinUse
  · intro index' address' hindex'
    obtain ⟨hlisted, honly⟩ := h.fresh index' address' (hstays hindex')
    exact ⟨hlisted, fun other hother => honly other (hstays hother)⟩

theorem Invariant.read (h : state.Invariant)
    (hhandles : state'.handles = state.handles)
    (hlength : state'.limiters.length = state.limiters.length)
    (hvalues : ∀ address, state'.limiters.value? address =
      state.limiters.value? address)
    (howned : state'.limiters.Owned state'.owners)
    (hlisted : state'.listed.Sublist state.listed)
    (hlive : ∀ handle, some handle ∈ state.handles →
      handle.address ∈ state.listed → handle.address ∈ state'.listed) :
    state'.Invariant := by
  have hhandle? : ∀ index, state'.handle? index = state.handle? index :=
    fun index => by simp only [handle?, hhandles]
  refine ⟨howned, ?_, ?_, ?_, h.nodup.sublist hlisted, ?_, ?_⟩
  · intro address limiter hvalue
    rw [hvalues] at hvalue
    rw [hhandles]
    exact h.counted hvalue
  · intro address limiter hvalue
    rw [hvalues] at hvalue
    exact h.inRange hvalue
  · intro address hmem
    rw [hlength]
    exact h.bound address (hlisted.subset hmem)
  · intro handle hmem hinUse
    rw [hhandles] at hmem
    exact hlive handle hmem (h.live handle hmem hinUse)
  · intro index address hindex
    rw [hhandle?] at hindex
    obtain ⟨hnotListed, honly⟩ := h.fresh index address hindex
    refine ⟨fun hmem => hnotListed (hlisted.subset hmem),
      fun other hother => ?_⟩
    rw [hhandle?] at hother
    exact honly other hother

theorem Invariant.step (h : state.Invariant)
    (hstep : Step reducer state event state') : state'.Invariant := by
  cases step_effect hstep with
  | build => exact h.build
  | push hidle hhandle => exact h.push hidle hhandle
  | acquire hhandle =>
      have hmem := mem_of_handle? hhandle
      exact h.clone (mem_owners hmem) (by simp) rfl
        fun _ => h.live _ hmem rfl
  | borrow halive =>
      exact h.clone (h.owned.strong_pos.mp halive) (by simp) rfl (by
        simp [Role.inUse])
  | change hhandle hvalue hinUse hbuilt' hinFlight hlimit =>
      exact h.change hhandle hvalue hinUse hbuilt' hinFlight hlimit
  | drop hhandle hpermit => exact h.drop hhandle hpermit
  | lock hidle =>
      refine h.read rfl rfl (fun _ => rfl) ?_ ?_ ?_
      · simpa [owners, hidle] using h.owned
      · simp [listed, hidle]
      · simp [listed, hidle]
  | @upgrade address rest kept value hreading halive =>
      refine h.read rfl (by simp [Heap.share]) (fun _ => by simp) ?_ ?_ ?_
      · have hmem := h.owned.strong_pos.mp halive
        have hshare := h.owned.share hmem
        simpa [owners, hreading, add_comm] using hshare
      · simp [listed, hreading]
      · simp [listed, hreading]
  | @prune address rest kept value hreading hdead =>
      refine h.read rfl rfl (fun _ => rfl) ?_ ?_ ?_
      · simpa [owners, hreading] using h.owned
      · simp [listed, hreading]
      · intro handle hmem hlisted
        have hpos := h.owned.strong_pos.mpr (mem_owners hmem)
        have hne : handle.address ≠ address := by
          rintro rfl
          omega
        simpa [listed, hreading, hne] using hlisted
  | @sample address rest kept value limiter hreading hlimiter =>
      refine h.read rfl (by simp [Heap.release]) (fun _ => by simp) ?_ ?_ ?_
      · have howned := h.owned
        have howners : state.owners = address ::ₘ
            held (state.handles.map (Option.map Handle.address)) := by
          simp [owners, hreading, add_comm]
        rw [howners] at howned
        simpa [owners] using howned.release
      · simp [listed, hreading]
      · simp [listed, hreading]
  | finish hreading =>
      refine h.read rfl rfl (fun _ => rfl) ?_ ?_ ?_
      · simpa [owners, hreading] using h.owned
      · simp [listed, hreading]
      · simp [listed, hreading]

theorem run_invariant {events : List (Event ν)}
    (run : Run (Step reducer) (new ν) events state) : state.Invariant :=
  run.invariant (fun _ state => state.Invariant) new_invariant
    fun h hstep => h.step hstep

end State

end WeakReducingGauge

end ConjureRuntime.Node
