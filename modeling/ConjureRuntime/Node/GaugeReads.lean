import ConjureRuntime.Node.Gauges

/-!
# Reads of the gauges

A read of a gauge among the steps of the requests takes one sample of each
limiter in use; a read with nothing in between is exact.
-/

namespace ConjureRuntime.Node.WeakReducingGauge.State

open ConjureRuntime.Foundation ConjureRuntime.Limiter

variable {ν : Type} {reducer : Reduce HostLimiter ν} {state state' : State ν}
  {event : Event ν} {address : Nat}

/-! ## Reads among the requests -/

def samples (events : List (Event ν)) : List (Nat × ν) :=
  events.foldl (fun samples event =>
    match event with
    | .locked => []
    | .sampled address value => samples ++ [(address, value)]
    | _ => samples) []

def pushed (events : List (Event ν)) : List Nat :=
  events.filterMap fun
    | .pushed address => some address
    | _ => none

structure Recorded (reducer : Reduce HostLimiter ν) (events : List (Event ν))
    (state : State ν) : Prop where
  listed : state.listed.Sublist (pushed events)
  kept : ∀ reading, state.reading = some reading →
    reading.kept = (samples events).map Prod.fst
  value : ∀ reading, state.reading = some reading →
    reading.value =
      ((samples events).map Prod.snd).foldl reducer.accumulate none

theorem samples_append (events : List (Event ν)) (event : Event ν) :
    samples (events ++ [event]) =
      match event with
      | .locked => []
      | .sampled address value => samples events ++ [(address, value)]
      | _ => samples events := by
  simp only [samples, List.foldl_append, List.foldl_cons, List.foldl_nil]

theorem pushed_append (events : List (Event ν)) (event : Event ν) :
    (pushed events).Sublist (pushed (events ++ [event])) := by
  rw [pushed, pushed, List.filterMap_append]
  exact List.sublist_append_left _ _

theorem Recorded.same {events : List (Event ν)}
    (h : Recorded reducer events state)
    (hlisted : state'.listed.Sublist (pushed (events ++ [event])))
    (hreading : state'.reading = state.reading)
    (hsamples : samples (events ++ [event]) = samples events) :
    Recorded reducer (events ++ [event]) state' where
  listed := hlisted
  kept reading hsome := by
    rw [hsamples]
    exact h.kept reading (hreading ▸ hsome)
  value reading hsome := by
    rw [hsamples]
    exact h.value reading (hreading ▸ hsome)

theorem Recorded.step {events : List (Event ν)}
    (h : Recorded reducer events state)
    (hstep : Step reducer state event state') :
    Recorded reducer (events ++ [event]) state' := by
  have hgrows := h.listed.trans (pushed_append events event)
  cases step_effect hstep with
  | build => exact h.same hgrows rfl (samples_append events _)
  | @push index address hidle hhandle =>
      refine h.same ?_ rfl (samples_append events _)
      have hlisted : (state.push index address).listed =
          state.listed ++ [address] := by
        simp [State.push, State.listed, hidle]
      have hpushed : pushed (events ++ [.pushed address]) =
          pushed events ++ [address] := by
        simp [pushed]
      rw [hlisted, hpushed]
      exact h.listed.append_right [address]
  | acquire hhandle => exact h.same hgrows rfl (samples_append events _)
  | borrow halive => exact h.same hgrows rfl (samples_append events _)
  | change hhandle hvalue hinUse hbuilt' hinFlight hlimit =>
      exact h.same hgrows rfl (samples_append events _)
  | drop hhandle hpermit => exact h.same hgrows rfl (samples_append events _)
  | lock hidle =>
      refine ⟨?_, ?_, ?_⟩
      · simpa [State.listed, hidle] using hgrows
      · rintro reading hreading
        cases hreading
        rw [samples_append]
        rfl
      · rintro reading hreading
        cases hreading
        rw [samples_append]
        rfl
  | upgrade hreading halive =>
      have hkept := h.kept _ hreading
      have hvalue := h.value _ hreading
      refine ⟨?_, ?_, ?_⟩
      · simpa [State.listed, hreading] using hgrows
      · rintro reading hsome
        cases hsome
        rw [samples_append]
        exact hkept
      · rintro reading hsome
        cases hsome
        rw [samples_append]
        exact hvalue
  | prune hreading hdead =>
      have hkept := h.kept _ hreading
      have hvalue := h.value _ hreading
      refine ⟨?_, ?_, ?_⟩
      · refine List.Sublist.trans ?_ hgrows
        simp [State.listed, hreading]
      · rintro reading hsome
        cases hsome
        rw [samples_append]
        exact hkept
      · rintro reading hsome
        cases hsome
        rw [samples_append]
        exact hvalue
  | sample hreading hlimiter =>
      have hkept := h.kept _ hreading
      have hvalue := h.value _ hreading
      refine ⟨?_, ?_, ?_⟩
      · simpa [State.listed, hreading] using hgrows
      · rintro reading hsome
        cases hsome
        rw [samples_append]
        simp only [List.map_append, ← hkept, List.map_cons, List.map_nil]
      · rintro reading hsome
        cases hsome
        rw [samples_append]
        simp only [List.map_append, List.foldl_append, ← hvalue,
          List.map_cons, List.map_nil, List.foldl_cons, List.foldl_nil]
  | finish hreading =>
      refine ⟨?_, ?_, ?_⟩
      · simpa [State.listed, hreading] using hgrows
      · rintro reading hsome
        cases hsome
      · rintro reading hsome
        cases hsome

theorem run_recorded {events : List (Event ν)}
    (run : Run (Step reducer) (new ν) events state) :
    Recorded reducer events state :=
  run.invariant (Recorded reducer)
    ⟨List.Sublist.refl _, by simp [new], by simp [new]⟩
    fun h hstep => h.step hstep

/-- In every run, a read gives the reduction of one sample of each limiter
that is still in use, in the order in which they were put in, whatever the
requests did meanwhile; a sample is what the limiter was at that moment, with
one request in flight for each permit. -/
theorem reads_all_in_use {events : List (Event ν)}
    (run : Run (Step reducer) (new ν) events state) :
    (∀ {address value state'},
      Step reducer state (.sampled address value) state' →
        ∃ limiter, state.limiters.value? address = some limiter ∧
          value = reducer.map limiter ∧ Ciad.InRange limiter.limit ∧
          limiter.inFlight = state.handles.countP (permitAt address)) ∧
    ∀ {value state'}, Step reducer state (.read value) state' →
      value = reducer.fold ((samples events).map Prod.snd) ∧
      ((samples events).map Prod.fst).Nodup ∧
      ((samples events).map Prod.fst).Sublist (pushed events) ∧
      ∀ handle, some handle ∈ state.handles → handle.role.inUse = true →
        handle.address ∈ (samples events).map Prod.fst := by
  have h := run_invariant run
  have hrecorded := run_recorded run
  refine ⟨fun hstep => ?_, fun hstep => ?_⟩
  · cases step_effect hstep with
    | sample hreading hlimiter =>
        exact ⟨_, hlimiter, rfl, h.inRange hlimiter, h.counted hlimiter⟩
  · cases step_effect hstep with
    | finish hreading =>
        have hkept := hrecorded.kept _ hreading
        have hvalue := hrecorded.value _ hreading
        have hlisted : state.listed = (samples events).map Prod.fst := by
          rw [← hkept]
          simp [State.listed, hreading]
        refine ⟨by rw [Reduce.fold, ← hvalue], ?_, ?_, ?_⟩
        · rw [← hlisted]
          exact h.nodup
        · rw [← hlisted]
          exact hrecorded.listed
        · intro handle hmem hinUse
          rw [← hlisted]
          exact h.live handle hmem hinUse

def startsWhileRead : List Op :=
  [.build, .push 0, .acquire 0, .grant 1, .acquire 0, .lock, .upgrade,
    .grant 2, .drop 0, .sample]

theorem startsWhileRead_reads :
    ∃ events state state',
      Run (Step inFlightReducer) (new Nat) events state ∧
      Step inFlightReducer state (.read 2) state' ∧
      (samples events).map Prod.fst = [0] ∧
      2 = inFlightReducer.fold ((samples events).map Prod.snd) := by
  have h : ∃ events state state',
      exec (next inFlightReducer) (new Nat) startsWhileRead =
        some (events, state) ∧
      state.next inFlightReducer .finish = some (.read 2, state') ∧
      some ⟨.permit 1, 0⟩ ∈ state.handles ∧ pushed events = [0] :=
    ⟨_, _, _, rfl, rfl, by decide, rfl⟩
  obtain ⟨events, state, state', hexec, hnext, hpermit, hpushed⟩ := h
  have run : Run (Step inFlightReducer) (new Nat) events state :=
    exec_run (fun h => ⟨_, h⟩) hexec
  have hstep : Step inFlightReducer state (.read 2) state' := ⟨_, hnext⟩
  obtain ⟨hvalue, -, hsublist, hinUse⟩ := (reads_all_in_use run).2 hstep
  have hmem := hinUse ⟨.permit 1, 0⟩ hpermit rfl
  rw [hpushed] at hsublist
  refine ⟨events, state, state', run, hstep, ?_, hvalue⟩
  rcases List.sublist_singleton.mp hsublist with hnone | hone
  · rw [hnone] at hmem
    cases hmem
  · exact hone

/-! ## Reads with nothing in between -/

def alive (limiters : Heap HostLimiter) (entries : List Nat) : List Nat :=
  entries.filter fun address => 0 < limiters.strong address

def values (limiters : Heap HostLimiter) (entries : List Nat) :
    List HostLimiter :=
  (alive limiters entries).filterMap limiters.value?

theorem read_rest {rest : List Nat} (kept : List Nat) (value : Option ν)
    (hreading : state.reading = some ⟨rest, kept, none, value⟩)
    (hbound : ∀ address ∈ rest, address < state.limiters.length) :
    ∃ events, Run (Step reducer) state
      (events ++ [.read ((((values state.limiters rest).map
        reducer.map).foldl reducer.accumulate value).getD reducer.default)])
      { state with
        entries := kept ++ alive state.limiters rest
        reading := none } := by
  induction rest generalizing state kept value with
  | nil =>
      refine ⟨[], .step .refl ⟨.finish, ?_⟩⟩
      simp [next, nextRead, hreading, alive, values]
  | cons address rest ih =>
      have hrest : ∀ other ∈ rest, other < state.limiters.length :=
        fun other hmem => hbound other (List.mem_cons_of_mem address hmem)
      by_cases halive : 0 < state.limiters.strong address
      · obtain ⟨limiter, hvalue⟩ := Heap.exists_value?
          (hbound address List.mem_cons_self)
        let upgraded : State ν := { state with
          limiters := state.limiters.share address
          reading := some ⟨rest, kept, some address, value⟩ }
        let sampled : State ν := { state with
          reading := some ⟨rest, kept ++ [address], none,
            reducer.accumulate value (reducer.map limiter)⟩ }
        have hupgrade : Step reducer state (.upgraded address) upgraded :=
          ⟨.upgrade, by simp [next, nextRead, hreading, halive, upgraded]⟩
        have hsample : Step reducer upgraded
            (.sampled address (reducer.map limiter)) sampled :=
          ⟨.sample, by simp [next, nextRead, hvalue, upgraded, sampled]⟩
        obtain ⟨events, hrun⟩ := @ih sampled _ _ rfl hrest
        have first := (Run.refl.step hupgrade).step hsample
        refine ⟨[.upgraded address, .sampled address (reducer.map limiter)] ++
          events, ?_⟩
        have hrun := first.trans hrun
        simpa [alive, values, halive, hvalue, sampled] using hrun
      · let pruned : State ν := { state with
          reading := some ⟨rest, kept, none, value⟩ }
        have hprune : Step reducer state (.pruned address) pruned :=
          ⟨.upgrade, by simp [next, nextRead, hreading, halive, pruned]⟩
        obtain ⟨events, hrun⟩ := @ih pruned _ _ rfl hrest
        refine ⟨.pruned address :: events, ?_⟩
        have hrun := (Run.refl.step hprune).trans hrun
        simpa [alive, values, halive, pruned] using hrun

theorem Invariant.alive_of_inUse (h : state.Invariant)
    (hidle : state.reading = none) {handle : Handle}
    (hmem : some handle ∈ state.handles) (hinUse : handle.role.inUse = true) :
    handle.address ∈ alive state.limiters state.entries := by
  have hlisted := h.live handle hmem hinUse
  simp only [listed, hidle] at hlisted
  refine List.mem_filter.mpr ⟨hlisted, decide_eq_true ?_⟩
  exact h.owned.strong_pos.mpr (mem_owners hmem)

theorem read_alone (h : state.Invariant) (hidle : state.reading = none) :
    ∃ reads, Run (Step reducer) state
      (.locked :: reads ++ [.read (reducer.fold
        ((values state.limiters state.entries).map reducer.map))])
      { state with entries := alive state.limiters state.entries } := by
  have hbound : ∀ address ∈ state.entries,
      address < state.limiters.length := by
    intro address hmem
    exact h.bound address (by simpa [listed, hidle] using hmem)
  let locked : State ν := { state with
    reading := some ⟨state.entries, [], none, none⟩ }
  have hlock : Step reducer state .locked locked :=
    ⟨.lock, by simp [next, nextRead, hidle, locked]⟩
  obtain ⟨reads, hrun⟩ := @read_rest _ reducer locked _ [] none rfl hbound
  refine ⟨reads, ?_⟩
  have hrun := (Run.refl.step hlock).trans hrun
  simpa [Reduce.fold, locked, hidle] using hrun

/-! ### Requests in flight -/

def isPermit : Option Handle → Bool
  | some ⟨.permit _, _⟩ => true
  | _ => false

theorem fold_inFlight (counts : List Nat) (value : Option Nat) :
    (counts.foldl inFlightReducer.accumulate value).getD 0 =
      value.getD 0 + counts.sum := by
  induction counts generalizing value with
  | nil => simp
  | cons count counts ih =>
      rw [List.foldl_cons, ih, List.sum_cons, ← Nat.add_assoc]
      cases value <;> simp [Reduce.accumulate, inFlightReducer]

theorem sum_permitAt {handles : List (Option Handle)} {addresses : List Nat}
    (hnodup : addresses.Nodup)
    (hmem : ∀ handle, some handle ∈ handles → handle.role.inUse = true →
      handle.address ∈ addresses) :
    (addresses.map fun address => handles.countP (permitAt address)).sum =
      handles.countP isPermit := by
  induction handles with
  | nil => simp
  | cons handle handles ih =>
      have hrest := ih fun other hother =>
        hmem other (List.mem_cons_of_mem handle hother)
      have hone : (addresses.map fun address =>
          if permitAt address handle = true then 1 else 0).sum =
            if isPermit handle = true then 1 else 0 := by
        rcases handle with _ | ⟨role, at_⟩
        · simp [permitAt, isPermit]
        · cases role with
          | permit snapshot =>
              have hat : at_ ∈ addresses :=
                hmem ⟨.permit snapshot, at_⟩ List.mem_cons_self rfl
              have hcount := List.count_eq_one_of_mem hnodup hat
              refine (List.sum_map_eq_nsmul_single at_ _ ?_).trans ?_
              · intro other hne _
                simp [permitAt, Ne.symm hne]
              · simp [permitAt, isPermit, hcount]
          | _ => simp [permitAt, isPermit]
      simp only [List.countP_cons, List.sum_map_add, hrest, hone]

/-- In every run, a read of the in-flight gauge with nothing in between shows
the number of permits that are out, whichever of the nodes that the service
had at the index they are from. -/
theorem in_flight_gauge_exact {state : State Nat} {events : List (Event Nat)}
    (run : Run (Step inFlightReducer) (new Nat) events state)
    (hidle : state.reading = none) :
    ∃ reads, Run (Step inFlightReducer) state
      (.locked :: reads ++ [.read (state.handles.countP isPermit)])
      { state with entries := alive state.limiters state.entries } := by
  have h := run_invariant run
  have hcounts : (values state.limiters state.entries).map
      inFlightReducer.map = (alive state.limiters state.entries).map
        fun address => state.handles.countP (permitAt address) := by
    rw [values, List.map_filterMap, ← List.filterMap_eq_map]
    refine List.filterMap_congr fun address hmem => ?_
    have hpos := of_decide_eq_true (List.mem_filter.mp hmem).2
    obtain ⟨limiter, hvalue⟩ :=
      Heap.exists_value? (Heap.lt_length_of_strong hpos)
    rw [hvalue, Option.map_some, Function.comp_apply]
    exact congrArg some (h.counted hvalue)
  have hnodup : (alive state.limiters state.entries).Nodup := by
    have hlisted := h.nodup
    simp only [listed, hidle] at hlisted
    exact hlisted.filter _
  obtain ⟨reads, hrun⟩ := @read_alone _ inFlightReducer _ h hidle
  refine ⟨reads, ?_⟩
  have hfold : inFlightReducer.fold ((values state.limiters
      state.entries).map inFlightReducer.map) =
        state.handles.countP isPermit := by
    have hsum := fold_inFlight
      ((values state.limiters state.entries).map inFlightReducer.map) none
    rw [Option.getD_none, Nat.zero_add] at hsum
    exact hsum.trans (by
      rw [hcounts]
      exact sum_permitAt hnodup fun handle => h.alive_of_inUse hidle)
  rwa [hfold] at hrun

def outlivesNode : List Op :=
  [.build, .push 0, .acquire 0, .grant 1, .drop 0]

theorem outlivesNode_is_counted :
    ∃ events state state' reads,
      Run (Step inFlightReducer) (new Nat) events state ∧
      Run (Step inFlightReducer) state (.locked :: reads ++ [.read 1])
        state' := by
  have h : ∃ events state,
      exec (next inFlightReducer) (new Nat) outlivesNode =
        some (events, state) ∧
      state.reading = none ∧ state.handles.countP isPermit = 1 :=
    ⟨_, _, rfl, rfl, rfl⟩
  obtain ⟨events, state, hexec, hidle, hcount⟩ := h
  have run : Run (Step inFlightReducer) (new Nat) events state :=
    exec_run (fun h => ⟨_, h⟩) hexec
  obtain ⟨reads, hreads⟩ := in_flight_gauge_exact run hidle
  rw [hcount] at hreads
  exact ⟨events, state, _, reads, run, hreads⟩

/-! ### The limit -/

theorem fold_limit (limits : List ℚ) (value : ℚ) :
    ∃ least, limits.foldl limitReducer.accumulate (some value) = some least ∧
      least ∈ value :: limits ∧ ∀ limit ∈ value :: limits, least ≤ limit := by
  induction limits generalizing value with
  | nil => exact ⟨value, rfl, by simp⟩
  | cons limit limits ih =>
      obtain ⟨least, hfold, hmem, hleast⟩ := ih (min value limit)
      refine ⟨least, hfold, ?_, ?_⟩
      · rcases List.mem_cons.mp hmem with rfl | hmem
        · rcases min_choice value limit with hmin | hmin <;> simp [hmin]
        · simp [hmem]
      · have hmin := hleast _ List.mem_cons_self
        intro other hother
        rcases List.mem_cons.mp hother with rfl | hother
        · exact hmin.trans (min_le_left _ _)
        · rcases List.mem_cons.mp hother with rfl | hother
          · exact hmin.trans (min_le_right _ _)
          · exact hleast other (List.mem_cons_of_mem _ hother)

theorem mem_values {limiter : HostLimiter} :
    limiter ∈ values state.limiters state.entries ↔
      ∃ address ∈ alive state.limiters state.entries,
        state.limiters.value? address = some limiter := by
  simp [values, List.mem_filterMap]

/-- In every run, a read of the limit gauge with nothing in between shows the
least limit of the limiters that are still there, which is in range, or zero
when no node and no request has one. -/
theorem limit_gauge_exact {state : State ℚ} {events : List (Event ℚ)}
    (run : Run (Step limitReducer) (new ℚ) events state)
    (hidle : state.reading = none) :
    ∃ reads value, Run (Step limitReducer) state
      (.locked :: reads ++ [.read value])
      { state with entries := alive state.limiters state.entries } ∧
    ((value = 0 ∧
        ∀ handle, some handle ∈ state.handles → handle.role.inUse = false) ∨
      (Ciad.InRange value ∧
        (∃ address limiter, 0 < state.limiters.strong address ∧
          state.limiters.value? address = some limiter ∧
          limiter.limit = value) ∧
        ∀ handle limiter, some handle ∈ state.handles →
          handle.role.inUse = true →
          state.limiters.value? handle.address = some limiter →
            value ≤ limiter.limit)) := by
  have h := run_invariant run
  obtain ⟨reads, hrun⟩ := @read_alone _ limitReducer _ h hidle
  refine ⟨reads, _, hrun, ?_⟩
  cases hvalues : values state.limiters state.entries with
  | nil =>
      refine .inl ⟨rfl, fun handle hmem => ?_⟩
      by_contra hinUse
      rw [Bool.not_eq_false] at hinUse
      have halive := h.alive_of_inUse hidle hmem hinUse
      have hpos := of_decide_eq_true (List.mem_filter.mp halive).2
      obtain ⟨limiter, hvalue⟩ :=
        Heap.exists_value? (Heap.lt_length_of_strong hpos)
      have hnone := mem_values.mpr ⟨_, halive, hvalue⟩
      rw [hvalues] at hnone
      cases hnone
  | cons first rest =>
      obtain ⟨least, hfold, hmem, hleast⟩ :=
        fold_limit (rest.map HostLimiter.limit) first.limit
      have hshown : limitReducer.fold ((first :: rest).map
          limitReducer.map) = least := congrArg (·.getD 0) hfold
      rw [hshown]
      have hmem : least ∈ (values state.limiters state.entries).map
          HostLimiter.limit := by
        rw [hvalues]
        exact hmem
      obtain ⟨limiter, hlimiter, rfl⟩ := List.mem_map.mp hmem
      obtain ⟨address, halive, hvalue⟩ := mem_values.mp hlimiter
      have hpos := of_decide_eq_true (List.mem_filter.mp halive).2
      refine .inr ⟨h.inRange hvalue, ⟨address, limiter, hpos, hvalue, rfl⟩, ?_⟩
      intro handle other hhandle hinUse hother
      have halive := h.alive_of_inUse hidle hhandle hinUse
      have hmem := mem_values.mpr ⟨_, halive, hother⟩
      rw [hvalues] at hmem
      exact hleast _ (List.mem_map_of_mem hmem)

theorem outlivesNode_limit_is_shown :
    ∃ events state state' reads value,
      Run (Step limitReducer) (new ℚ) events state ∧
      Run (Step limitReducer) state (.locked :: reads ++ [.read value])
        state' ∧
      Ciad.InRange value := by
  have h : ∃ events state,
      exec (next limitReducer) (new ℚ) outlivesNode = some (events, state) ∧
      state.reading = none ∧ some ⟨.permit 1, 0⟩ ∈ state.handles :=
    ⟨_, _, rfl, rfl, by decide⟩
  obtain ⟨events, state, hexec, hidle, hpermit⟩ := h
  have run : Run (Step limitReducer) (new ℚ) events state :=
    exec_run (fun h => ⟨_, h⟩) hexec
  obtain ⟨reads, value, hreads, ⟨-, hnone⟩ | ⟨hrange, -⟩⟩ :=
    limit_gauge_exact run hidle
  · cases hnone ⟨.permit 1, 0⟩ hpermit
  · exact ⟨events, state, _, reads, value, run, hreads, hrange⟩

end ConjureRuntime.Node.WeakReducingGauge.State
