import ConjureRuntime.Foundation.History
import ConjureRuntime.Foundation.Transition
import ConjureRuntime.Node.HostMetricsSteps

/-!
# Runs of the host metrics registry

Which handles and snapshots are alive is a matter of what was given out and
dropped so far.  The registry agrees with that history after every run.
-/

namespace ConjureRuntime.Node.HostMetricsRegistry

open ConjureRuntime.Foundation

variable {registry registry' : HostMetricsRegistry} {event : Event}
  {events : List Event} {key : HostId} {handle snapshot metrics : Nat}
  {contents : HostMap}

def HandleAlive (events : List Event) (key : HostId) (handle metrics : Nat) :
    Prop :=
  Since (· = .got key handle metrics) (· = .handleDropped handle) events

def SnapshotAlive (events : List Event) (snapshot : Nat) (contents : HostMap) :
    Prop :=
  Since (· = .hosts snapshot contents) (· = .snapshotDropped snapshot) events

def Holds (registry : HostMetricsRegistry) (key : HostId)
    (handle metrics : Nat) : Prop :=
  registry.handles[handle]? = some (some metrics) ∧
    registry.Named metrics key

def Shows (registry : HostMetricsRegistry) (snapshot : Nat)
    (contents : HostMap) : Prop :=
  ∃ map, registry.snapshots[snapshot]? = some (some map) ∧
    registry.maps.value? map = some contents

/-! ## Steps -/

theorem named_iff (sound : Sound registry) (keeps : Keeps registry registry')
    (hmem : some metrics ∈ registry.handles) :
    registry'.Named metrics key ↔ registry.Named metrics key := by
  refine ⟨fun hnamed => ?_, fun hnamed => hnamed.mono keeps.metrics⟩
  obtain ⟨key', hnamed', -⟩ := sound.registered metrics hmem
  rwa [hnamed.unique (hnamed'.mono keeps.metrics)]

theorem value?_iff (sound : Sound registry) (keeps : Keeps registry registry')
    {map : Nat} (hmem : some map ∈ registry.snapshots)
    (hmem' : some map ∈ registry'.snapshots) :
    registry'.maps.value? map = some contents ↔
      registry.maps.value? map = some contents := by
  obtain ⟨value, hvalue⟩ := Heap.exists_value? (sound.maps.lt_length
    (Multiset.mem_cons_of_mem (mem_held.mpr hmem)))
  rw [hvalue, keeps.maps map value hmem hmem' hvalue]

theorem holds_iff (sound : Sound registry) (keeps : Keeps registry registry')
    (effect : Effect registry registry' event) :
    registry'.Holds key handle metrics ↔
      event = .got key handle metrics ∨
        (registry.Holds key handle metrics ∧
          event ≠ .handleDropped handle) := by
  have hold : registry.handles[handle]? = some (some metrics) →
      (registry'.Named metrics key ↔ registry.Named metrics key) :=
    fun h => named_iff sound keeps (List.mem_of_getElem? h)
  have hsame : registry'.handles = registry.handles →
      (registry'.Holds key handle metrics ↔
        registry.Holds key handle metrics) := by
    intro hhandles
    rw [Holds, Holds, hhandles]
    exact and_congr_right hold
  cases effect with
  | got hhandles _ hnamed =>
      simp only [ne_eq, reduceCtorEq, not_false_eq_true, and_true]
      rw [Holds, hhandles]
      constructor
      · rintro ⟨hget, hnamed'⟩
        rcases getElem?_append_singleton_cases hget with hget | ⟨rfl, heq⟩
        · exact .inr ⟨hget, (hold hget).mp hnamed'⟩
        · cases heq
          exact .inl (by rw [hnamed.unique hnamed'])
      · rintro (heq | ⟨hget, hnamed'⟩)
        · cases heq
          exact ⟨by simp, hnamed⟩
        · refine ⟨?_, (hold hget).mpr hnamed'⟩
          obtain ⟨hlt, -⟩ := List.getElem?_eq_some_iff.mp hget
          rw [List.getElem?_append_left hlt, hget]
  | hosts hhandles _ _ => simp [hsame hhandles]
  | iterated heq _ _ => simp [heq]
  | @handleDropped dropped _ _ hhandles _ =>
      simp only [reduceCtorEq, false_or, ne_eq, Event.handleDropped.injEq]
      rw [Holds, hhandles]
      constructor
      · rintro ⟨hget, hnamed⟩
        rcases getElem?_set_cases hget with ⟨-, heq⟩ | ⟨hne, hget⟩
        · cases heq
        · exact ⟨⟨hget, (hold hget).mp hnamed⟩, Ne.symm hne⟩
      · rintro ⟨⟨hget, hnamed⟩, hne⟩
        rw [List.getElem?_set_ne hne]
        exact ⟨hget, (hold hget).mpr hnamed⟩
  | snapshotDropped _ hhandles _ => simp [hsame hhandles]

theorem shows_iff (sound : Sound registry) (keeps : Keeps registry registry')
    (effect : Effect registry registry' event) :
    registry'.Shows snapshot contents ↔
      event = .hosts snapshot contents ∨
        (registry.Shows snapshot contents ∧
          event ≠ .snapshotDropped snapshot) := by
  have hold : ∀ map, registry.snapshots[snapshot]? = some (some map) →
      registry'.snapshots[snapshot]? = some (some map) →
      (registry'.maps.value? map = some contents ↔
        registry.maps.value? map = some contents) :=
    fun _ h h' => value?_iff sound keeps (List.mem_of_getElem? h)
      (List.mem_of_getElem? h')
  have hsame : registry'.snapshots = registry.snapshots →
      (registry'.Shows snapshot contents ↔
        registry.Shows snapshot contents) := by
    intro hsnapshots
    rw [Shows, Shows, hsnapshots]
    refine exists_congr fun map => and_congr_right fun h => hold map h ?_
    rwa [hsnapshots]
  cases effect with
  | got _ hsnapshots _ => simp [hsame hsnapshots]
  | @hosts map _ _ hsnapshots hvalue =>
      simp only [ne_eq, reduceCtorEq, not_false_eq_true, and_true]
      constructor
      · rintro ⟨map', hget', hvalue'⟩
        have hget := hget'
        rw [hsnapshots] at hget
        rcases getElem?_append_singleton_cases hget with hget | ⟨rfl, heq⟩
        · exact .inr ⟨map', hget, (hold map' hget hget').mp hvalue'⟩
        · cases heq
          cases hvalue.symm.trans hvalue'
          exact .inl rfl
      · rintro (heq | ⟨map', hget, hvalue'⟩)
        · cases heq
          exact ⟨map, by simp [hsnapshots], hvalue⟩
        · obtain ⟨hlt, -⟩ := List.getElem?_eq_some_iff.mp hget
          have hget' : registry'.snapshots[snapshot]? = some (some map') := by
            rw [hsnapshots, List.getElem?_append_left hlt, hget]
          exact ⟨map', hget', (hold map' hget hget').mpr hvalue'⟩
  | iterated heq _ _ => simp [heq]
  | handleDropped _ _ hsnapshots => simp [hsame hsnapshots]
  | @snapshotDropped dropped _ _ _ hsnapshots =>
      simp only [reduceCtorEq, false_or, ne_eq, Event.snapshotDropped.injEq]
      constructor
      · rintro ⟨map, hget', hvalue⟩
        have hget := hget'
        rw [hsnapshots] at hget
        rcases getElem?_set_cases hget with ⟨-, heq⟩ | ⟨hne, hget⟩
        · cases heq
        · exact ⟨⟨map, hget, (hold map hget hget').mp hvalue⟩, Ne.symm hne⟩
      · rintro ⟨⟨map, hget, hvalue⟩, hne⟩
        have hget' : registry'.snapshots[snapshot]? = some (some map) := by
          rw [hsnapshots, List.getElem?_set_ne hne, hget]
        exact ⟨map, hget', (hold map hget hget').mpr hvalue⟩

/-! ## Runs -/

structure Recorded (events : List Event) (registry : HostMetricsRegistry) :
    Prop where
  sound : Sound registry
  handles : ∀ key handle metrics, HandleAlive events key handle metrics ↔
    registry.Holds key handle metrics
  snapshots : ∀ snapshot contents, SnapshotAlive events snapshot contents ↔
    registry.Shows snapshot contents

theorem new_recorded : Recorded [] new where
  sound := new_sound
  handles key handle metrics := by simp [HandleAlive, Holds, new]
  snapshots snapshot contents := by simp [SnapshotAlive, Shows, new]

theorem step_recorded (recorded : Recorded events registry)
    (h : Step registry event registry') :
    Recorded (events ++ [event]) registry' := by
  obtain ⟨keeps, effect⟩ := step_effect recorded.sound h
  refine ⟨keeps.sound, fun key handle metrics => ?_,
    fun snapshot contents => ?_⟩
  · rw [HandleAlive, since_append, holds_iff recorded.sound keeps effect,
      ← recorded.handles]
    rfl
  · rw [SnapshotAlive, since_append, shows_iff recorded.sound keeps effect,
      ← recorded.snapshots]
    rfl

theorem run_recorded (run : Run Step new events registry) :
    Recorded events registry :=
  run.invariant Recorded new_recorded step_recorded

/-- While a handle for a host is alive, a `get` returns the same metrics for
it; a snapshot that is alive shows what it was returned with; and where no
snapshot is alive, the next one shows the hosts of the handles that are. -/
theorem host_metrics_sound (run : Run Step new events registry) :
    (∀ key handle metrics, HandleAlive events key handle metrics →
      (registry.get key.service key.host key.port).1 =
        .got key registry.handles.length metrics) ∧
    (∀ snapshot contents, SnapshotAlive events snapshot contents →
      registry.next (.iter snapshot) =
        some (.iterated snapshot contents.values, registry)) ∧
    ((∀ snapshot contents, ¬ SnapshotAlive events snapshot contents) →
      ∃ contents, registry.hosts.1 =
          .hosts registry.snapshots.length contents ∧
        ∀ key metrics, contents.lookup key = some metrics ↔
          ∃ handle, HandleAlive events key handle metrics) := by
  have recorded := run_recorded run
  have sound := recorded.sound
  refine ⟨fun key handle metrics halive => ?_,
    fun snapshot contents halive => ?_, fun hnone => ?_⟩
  · obtain ⟨hhandle, hnamed⟩ := (recorded.handles _ _ _).mp halive
    have hlookup := sound.lookup_of_named (List.mem_of_getElem? hhandle) hnamed
    have hgot : (registry.get key.service key.host key.port).1 =
        .got key registry.handles.length
          (registry.makeMut.entry key).1 := rfl
    rw [hgot, get_address sound hgot hlookup]
  · obtain ⟨map, hsnapshot, hvalue⟩ := (recorded.snapshots _ _).mp halive
    simp [next, hsnapshot, hvalue]
  · have hsnapshots : ∀ map, some map ∉ registry.snapshots := by
      intro map hmem
      obtain ⟨snapshot, hsnapshot⟩ := List.getElem?_of_mem hmem
      obtain ⟨contents, hvalue⟩ := Heap.exists_value? (sound.maps.lt_length
        (Multiset.mem_cons_of_mem (mem_held.mpr hmem)))
      exact hnone snapshot contents
        ((recorded.snapshots _ _).mpr ⟨map, hsnapshot, hvalue⟩)
    obtain ⟨contents, hevent, hcontents⟩ := hosts_contents sound hsnapshots
    refine ⟨contents, hevent, fun key metrics => ?_⟩
    rw [hcontents]
    constructor
    · rintro ⟨hmem, hnamed⟩
      obtain ⟨handle, hhandle⟩ := List.getElem?_of_mem hmem
      exact ⟨handle, (recorded.handles _ _ _).mpr ⟨hhandle, hnamed⟩⟩
    · rintro ⟨handle, halive⟩
      obtain ⟨hhandle, hnamed⟩ := (recorded.handles _ _ _).mp halive
      exact ⟨List.mem_of_getElem? hhandle, hnamed⟩

/-! ## A host that is gone -/

def gcOps : List Op :=
  [.get "service" "localhost" 1234, .get "service" "localhost" 5678, .hosts,
    .dropSnapshot 0, .dropHandle 1]

/-- The host of the handle that is left is the only one in the next
snapshot. -/
theorem dropped_host_is_collected :
    ∃ events registry contents, Run Step new events registry ∧
      registry.hosts.1 = .hosts 1 contents ∧
      contents.keys = [⟨"service", "localhost", 1234⟩] ∧
      ∀ key metrics, contents.lookup key = some metrics ↔
        ∃ handle, HandleAlive events key handle metrics := by
  have hexec : exec next new gcOps = some (_, _) := rfl
  have run : Run Step new _ _ := exec_run (fun h => ⟨_, h⟩) hexec
  obtain ⟨contents, hevent, hcontents⟩ := (host_metrics_sound run).2.2
    fun snapshot contents halive => by
      obtain ⟨map, hthere, -⟩ :=
        ((run_recorded run).snapshots snapshot contents).mp halive
      cases snapshot with
      | zero => cases hthere
      | succ snapshot => cases hthere
  refine ⟨_, _, contents, run, hevent, ?_, hcontents⟩
  cases hevent
  rfl

end ConjureRuntime.Node.HostMetricsRegistry
