import ConjureRuntime.Node.HostMetrics

/-!
# Steps of the host metrics registry

The counts of all metrics and maps are those of their owners: a map is owned
by the registry and the snapshots, metrics by the handles and by the maps that
they are in.  So a map is changed in place only where no snapshot shares it,
and metrics are cleared out only where no handle holds them.
-/

namespace ConjureRuntime.Node

open ConjureRuntime.Foundation

/-! ## Maps -/

namespace HostMap

variable {map : HostMap} {key : HostId} {address : Nat} {keep : Nat → Bool}

theorem mem_values : address ∈ map.values ↔
    ∃ key, map.lookup key = some address := by
  rw [values, List.mem_map]
  constructor
  · rintro ⟨⟨key, address⟩, hmem, rfl⟩
    exact ⟨key, AList.mem_lookup_iff.mpr hmem⟩
  · rintro ⟨key, hlookup⟩
    exact ⟨⟨key, address⟩, AList.mem_lookup_iff.mp hlookup, rfl⟩

theorem values_insert (h : map.lookup key = none) :
    values (map.insert key address) = address :: map.values := by
  rw [values, AList.entries_insert_of_notMem (AList.lookup_eq_none.mp h)]
  rfl

theorem lookup_retain : (map.retain keep).lookup key = some address ↔
    map.lookup key = some address ∧ keep address = true := by
  have hmem : ∀ map : HostMap, map.lookup key = some address ↔
      ⟨key, address⟩ ∈ map.entries := fun _ => AList.mem_lookup_iff
  rw [hmem, hmem, retain, List.mem_filter]

@[simp] theorem values_retain :
    (map.retain keep).values = map.values.filter keep := by
  rw [values, values, List.filter_map]
  rfl

theorem retain_add_dropped (map : HostMap) (keep : Nat → Bool) :
    ((map.retain keep).values : Multiset Nat) +
        (map.retain fun address => !keep address).values =
      map.values := by
  rw [values_retain, values_retain, Multiset.coe_add, Multiset.coe_eq_coe]
  exact List.filter_append_perm keep map.values

end HostMap

namespace HostMetricsRegistry

variable {registry registry' : HostMetricsRegistry} {event : Event}
  {key : HostId} {address : Nat}

/-! ## The invariant -/

def Named (registry : HostMetricsRegistry) (address : Nat) (key : HostId) :
    Prop :=
  ∃ metrics, registry.metrics.value? address = some metrics ∧
    metrics.hostId = key

structure Sound (registry : HostMetricsRegistry) : Prop where
  metrics : registry.metrics.Owned
    (held registry.handles + registry.maps.refs HostMap.values)
  maps : registry.maps.Owned (registry.map ::ₘ held registry.snapshots)
  freed : ∀ map value, registry.maps.value? map = some value →
    registry.maps.strong map = 0 → value = ∅
  named : ∀ map value key address, registry.maps.value? map = some value →
    value.lookup key = some address → registry.Named address key
  registered : ∀ address, some address ∈ registry.handles →
    ∃ key, registry.Named address key ∧
      registry.contents.lookup key = some address

theorem Named.unique {key' : HostId} (h : registry.Named address key)
    (h' : registry.Named address key') : key = key' := by
  obtain ⟨metrics, hmetrics, rfl⟩ := h
  obtain ⟨metrics', hmetrics', rfl⟩ := h'
  cases hmetrics.symm.trans hmetrics'
  rfl

theorem Named.mono (h : registry.Named address key)
    (hmetrics : ∀ address value, registry.metrics.value? address = some value →
      registry'.metrics.value? address = some value) :
    registry'.Named address key := by
  obtain ⟨metrics, hvalue, hkey⟩ := h
  exact ⟨metrics, hmetrics address metrics hvalue, hkey⟩

namespace Sound

theorem value?_map (sound : Sound registry) :
    registry.maps.value? registry.map = some registry.contents := by
  obtain ⟨value, hvalue⟩ := Heap.exists_value?
    (sound.maps.lt_length (Multiset.mem_cons_self _ _))
  rw [contents, hvalue]
  rfl

theorem owned_contents (sound : Sound registry)
    (h : registry.contents.lookup key = some address) :
    address ∈ held registry.handles +
      registry.maps.refs HostMap.values := by
  rw [Multiset.mem_add]
  exact .inr (Heap.mem_refs sound.value?_map
    (HostMap.mem_values.mpr ⟨key, h⟩))

theorem named_contents (sound : Sound registry)
    (h : registry.contents.lookup key = some address) :
    registry.Named address key :=
  sound.named registry.map registry.contents key address sound.value?_map h

theorem lookup_of_named (sound : Sound registry)
    (hhandle : some address ∈ registry.handles)
    (hnamed : registry.Named address key) :
    registry.contents.lookup key = some address := by
  obtain ⟨key', hnamed', hlookup⟩ := sound.registered address hhandle
  rwa [hnamed.unique hnamed']

theorem shared (sound : Sound registry)
    (hhandle : some address ∈ registry.handles)
    (hlookup : registry.contents.lookup key = some address) :
    1 < registry.metrics.strong address := by
  have hrefs : address ∈ registry.maps.refs HostMap.values :=
    Heap.mem_refs sound.value?_map (HostMap.mem_values.mpr ⟨key, hlookup⟩)
  have hheld := Multiset.count_pos.mpr (mem_held.mpr hhandle)
  have hrefs := Multiset.count_pos.mpr hrefs
  rw [sound.metrics address, Multiset.count_add]
  omega

theorem values_nodup (sound : Sound registry) :
    registry.contents.values.Nodup := by
  refine registry.contents.nodupKeys.nodup.map_on ?_
  rintro ⟨key, address⟩ hmem ⟨key', address'⟩ hmem' heq
  have heq : address = address' := heq
  subst heq
  have hnamed := sound.named_contents (AList.mem_lookup_iff.mpr hmem)
  have hnamed' := sound.named_contents (AList.mem_lookup_iff.mpr hmem')
  rw [hnamed.unique hnamed']

theorem not_mem_snapshots (sound : Sound registry)
    (hone : registry.maps.strong registry.map = 1) :
    some registry.map ∉ registry.snapshots := by
  intro hmem
  have hcount := sound.maps registry.map
  rw [hone, Multiset.count_cons_self] at hcount
  have hpos := Multiset.count_pos.mpr (mem_held.mpr hmem)
  omega

end Sound

/-! ## Copy on write -/

structure Internal (registry registry' : HostMetricsRegistry) : Prop where
  sound : Sound registry'
  handles : registry'.handles = registry.handles
  snapshots : registry'.snapshots = registry.snapshots
  metrics : ∀ address value, registry.metrics.value? address = some value →
    registry'.metrics.value? address = some value
  maps : ∀ map value, some map ∈ registry.snapshots →
    registry.maps.value? map = some value →
    registry'.maps.value? map = some value

/-- `make_mut` leaves the registry with a map of its own. -/
structure MadeMut (registry registry' : HostMetricsRegistry) : Prop
    extends Internal registry registry' where
  contents : registry'.contents = registry.contents
  own : registry'.maps.strong registry'.map = 1

theorem cloneMap_value? {map : Nat} {value : HostMap}
    (h : registry.maps.value? map = some value) :
    registry.cloneMap.maps.value? map = some value := by
  rw [cloneMap, Heap.value?_release,
    Heap.value?_alloc (Heap.lt_length_of_value? h), h]

theorem cloneMap_metric {value : HostMetrics}
    (h : registry.metrics.value? address = some value) :
    registry.cloneMap.metrics.value? address = some value := by
  rw [cloneMap, Heap.value?_shareAll, h]

theorem value?_of_cloneMap {map : Nat} {value : HostMap}
    (h : registry.cloneMap.maps.value? map = some value)
    (hne : map ≠ registry.cloneMap.map) :
    registry.maps.value? map = some value := by
  have hlt := Heap.lt_length_of_value? h
  rw [cloneMap, Heap.value?_release] at h
  rwa [Heap.value?_alloc] at h
  simp only [cloneMap, Heap.release, Heap.alloc, List.length_modify,
    List.length_append, List.length_singleton] at hlt hne
  omega

theorem cloneMap_contents (registry : HostMetricsRegistry) :
    registry.cloneMap.maps.value? registry.cloneMap.map =
        some registry.contents ∧
      registry.cloneMap.contents = registry.contents := by
  have h : registry.cloneMap.maps.value? registry.cloneMap.map =
      some registry.contents := by
    rw [cloneMap, Heap.value?_release, Heap.value?_alloc_self]
  refine ⟨h, ?_⟩
  rw [contents, h]
  rfl

theorem cloneMap_maps (sound : Sound registry) :
    registry.cloneMap.maps.Owned
      (registry.cloneMap.map ::ₘ held registry.snapshots) := by
  have h : (registry.maps.alloc registry.contents).Owned _ :=
    sound.maps.alloc
  rw [Multiset.cons_swap] at h
  exact h.release

theorem cloneMap_metrics (sound : Sound registry) :
    registry.cloneMap.metrics.Owned
      (held registry.handles +
        registry.cloneMap.maps.refs HostMap.values) := by
  have hrefs : registry.cloneMap.maps.refs HostMap.values =
      registry.maps.refs HostMap.values + registry.contents.values := by
    rw [cloneMap, Heap.refs_release, Heap.refs_alloc]
  rw [hrefs, ← add_assoc]
  refine sound.metrics.shareAll fun address hmem => ?_
  obtain ⟨key, hlookup⟩ := HostMap.mem_values.mp hmem
  exact sound.owned_contents hlookup

theorem cloneMap_freed (sound : Sound registry)
    (hshared : registry.maps.strong registry.map ≠ 1) {map : Nat}
    {value : HostMap} (hvalue : registry.cloneMap.maps.value? map = some value)
    (hzero : registry.cloneMap.maps.strong map = 0) : value = ∅ := by
  have hnot : map ∉ registry.cloneMap.map ::ₘ held registry.snapshots := by
    rw [← (cloneMap_maps sound).strong_pos, hzero]
    exact Nat.lt_irrefl 0
  rw [Multiset.mem_cons, not_or] at hnot
  obtain ⟨hnew, hsnapshots⟩ := hnot
  have hold : map ≠ registry.map := by
    rintro rfl
    have hcount := sound.maps registry.map
    rw [Multiset.count_cons_self,
      Multiset.count_eq_zero_of_notMem hsnapshots] at hcount
    exact hshared hcount
  have hfree : registry.maps.strong map = 0 := by
    rw [sound.maps map, Multiset.count_cons_of_ne hold,
      Multiset.count_eq_zero_of_notMem hsnapshots]
  exact sound.freed map value (value?_of_cloneMap hvalue hnew) hfree

theorem cloneMap_own (sound : Sound registry) :
    registry.cloneMap.maps.strong registry.cloneMap.map = 1 := by
  have hnot : registry.maps.length ∉ held registry.snapshots := by
    intro hmem
    have hlt := sound.maps.lt_length (Multiset.mem_cons_of_mem hmem)
    exact Nat.lt_irrefl _ hlt
  rw [cloneMap_maps sound, Multiset.count_cons_self]
  exact congrArg (· + 1) (Multiset.count_eq_zero_of_notMem hnot)

theorem cloneMap_sound (sound : Sound registry)
    (hshared : registry.maps.strong registry.map ≠ 1) :
    Sound registry.cloneMap where
  metrics := cloneMap_metrics sound
  maps := cloneMap_maps sound
  freed _ _ := cloneMap_freed sound hshared
  named := by
    intro map value key address hvalue hlookup
    have hnamed : registry.Named address key := by
      by_cases hnew : map = registry.cloneMap.map
      · rw [hnew, (cloneMap_contents registry).1] at hvalue
        cases hvalue
        exact sound.named_contents hlookup
      · exact sound.named map value key address
          (value?_of_cloneMap hvalue hnew) hlookup
    exact hnamed.mono fun _ _ => cloneMap_metric
  registered := by
    intro address hmem
    obtain ⟨key, hnamed, hlookup⟩ := sound.registered address hmem
    refine ⟨key, hnamed.mono fun _ _ => cloneMap_metric, ?_⟩
    rw [(cloneMap_contents registry).2, hlookup]

theorem makeMut_spec (sound : Sound registry) :
    MadeMut registry registry.makeMut := by
  unfold makeMut
  split
  · rename_i hone
    exact ⟨⟨sound, rfl, rfl, fun _ _ h => h, fun _ _ _ h => h⟩, rfl, hone⟩
  · rename_i hshared
    exact ⟨⟨cloneMap_sound sound hshared, rfl, rfl, fun _ _ => cloneMap_metric,
      fun _ _ _ => cloneMap_value?⟩, (cloneMap_contents registry).2,
      cloneMap_own sound⟩

/-! ## Changes of the map -/

theorem Internal.replace (sound : Sound registry)
    (hown : registry.maps.strong registry.map = 1)
    (metrics : Heap HostMetrics) (new : HostMap)
    (howned : metrics.Owned (held registry.handles +
      (registry.maps.put registry.map new).refs HostMap.values))
    (hkeep : ∀ address value, registry.metrics.value? address = some value →
      metrics.value? address = some value)
    (hnamed : ∀ key address, new.lookup key = some address →
      registry.contents.lookup key = some address ∨
        ∃ value, metrics.value? address = some value ∧ value.hostId = key)
    (hregistered : ∀ key address, some address ∈ registry.handles →
      registry.contents.lookup key = some address →
      new.lookup key = some address) :
    Internal registry
        { registry with
          metrics := metrics
          maps := registry.maps.put registry.map new } ∧
      (registry.maps.put registry.map new).value? registry.map =
        some new := by
  have hself : (registry.maps.put registry.map new).value? registry.map =
      some new :=
    Heap.value?_put_self (Heap.lt_length_of_value? sound.value?_map)
  refine ⟨⟨?_, rfl, rfl, hkeep, fun map value hmem hvalue => ?_⟩, hself⟩
  · refine ⟨howned, sound.maps.put, fun map value hvalue hzero => ?_,
      fun map value key address hvalue hlookup => ?_,
      fun address hmem => ?_⟩
    · simp only [Heap.strong_put] at hvalue hzero
      by_cases heq : map = registry.map
      · rw [heq, hown] at hzero
        cases hzero
      · rw [Heap.value?_put_ne heq] at hvalue
        exact sound.freed map value hvalue hzero
    · by_cases heq : map = registry.map
      · simp only [heq, hself] at hvalue
        cases hvalue
        rcases hnamed key address hlookup with hold | hnew
        · exact (sound.named_contents hold).mono hkeep
        · exact hnew
      · simp only [Heap.value?_put_ne heq] at hvalue
        exact (sound.named map value key address hvalue hlookup).mono hkeep
    · obtain ⟨key, hname, hlookup⟩ := sound.registered address hmem
      refine ⟨key, hname.mono hkeep, ?_⟩
      rw [contents, hself]
      exact hregistered key address hmem hlookup
  · have hne : map ≠ registry.map := by
      rintro rfl
      exact sound.not_mem_snapshots hown hmem
    exact (Heap.value?_put_ne hne).trans hvalue

theorem refs_put_map (sound : Sound registry) (new : HostMap) :
    (registry.maps.put registry.map new).refs HostMap.values +
        registry.contents.values =
      registry.maps.refs HostMap.values + new.values :=
  Heap.refs_put sound.value?_map

theorem entry_spec (sound : Sound registry)
    (hown : registry.maps.strong registry.map = 1) (key : HostId) :
    Internal registry (registry.entry key).2 ∧
      (registry.entry key).2.contents.lookup key =
        some (registry.entry key).1 := by
  unfold entry
  split
  · rename_i metrics hlookup
    exact ⟨⟨sound, rfl, rfl, fun _ _ h => h, fun _ _ _ h => h⟩, hlookup⟩
  · rename_i hnone
    have hrefs := refs_put_map sound
      (registry.contents.insert key registry.metrics.length)
    rw [HostMap.values_insert hnone, ← Multiset.cons_coe, Multiset.add_cons,
      ← Multiset.cons_add] at hrefs
    have howned : (registry.metrics.alloc
        (.new key.service key.host key.port)).Owned _ := sound.metrics.alloc
    rw [← Multiset.add_cons, ← add_right_cancel hrefs] at howned
    obtain ⟨hinternal, hself⟩ := Internal.replace sound hown _ _ howned
      (fun address value hvalue => by
        rw [Heap.value?_alloc (Heap.lt_length_of_value? hvalue), hvalue])
      (fun key' address hlookup => by
        by_cases heq : key' = key
        · rw [heq, AList.lookup_insert] at hlookup
          cases hlookup
          exact .inr ⟨_, Heap.value?_alloc_self, by rw [heq]; rfl⟩
        · rw [AList.lookup_insert_ne heq] at hlookup
          exact .inl hlookup)
      (fun key' address _ hlookup => by
        have hne : key' ≠ key := by
          rintro rfl
          rw [hnone] at hlookup
          cases hlookup
        rwa [AList.lookup_insert_ne hne])
    refine ⟨hinternal, ?_⟩
    rw [contents, hself]
    exact AList.lookup_insert registry.contents

theorem retain_spec (sound : Sound registry)
    (hown : registry.maps.strong registry.map = 1) :
    Internal registry registry.retain ∧
      ∀ key address, registry.retain.contents.lookup key = some address ↔
        registry.contents.lookup key = some address ∧
          1 < registry.metrics.strong address := by
  have hlive : ∀ key address,
      (registry.contents.retain fun metrics =>
        decide (1 < registry.metrics.strong metrics)).lookup key =
          some address ↔
        registry.contents.lookup key = some address ∧
          1 < registry.metrics.strong address := by
    intro key address
    rw [HostMap.lookup_retain, decide_eq_true_iff]
  have howned : registry.retain.metrics.Owned (held registry.handles +
      registry.retain.maps.refs HostMap.values) := by
    refine Heap.Owned.releaseAll ?_
    have hrefs := refs_put_map sound (registry.contents.retain fun metrics =>
      decide (1 < registry.metrics.strong metrics))
    rw [← HostMap.retain_add_dropped registry.contents fun metrics =>
      decide (1 < registry.metrics.strong metrics),
      ← add_assoc, add_right_comm] at hrefs
    rw [add_assoc]
    exact (add_right_cancel hrefs) ▸ sound.metrics
  obtain ⟨hinternal, hself⟩ := Internal.replace sound hown _ _ howned
    (fun address value hvalue => by
      rw [retain, Heap.value?_releaseAll, hvalue])
    (fun key address hlookup => .inl ((hlive key address).mp hlookup).1)
    (fun key address hmem hlookup => (hlive key address).mpr
      ⟨hlookup, sound.shared hmem hlookup⟩)
  refine ⟨hinternal, fun key address => ?_⟩
  have hcontents : registry.retain.contents =
      registry.contents.retain fun metrics =>
        decide (1 < registry.metrics.strong metrics) :=
    congrArg (·.getD ∅) hself
  rw [hcontents, hlive]

theorem Internal.trans {last : HostMetricsRegistry}
    (first : Internal registry registry') (second : Internal registry' last) :
    Internal registry last where
  sound := second.sound
  handles := second.handles.trans first.handles
  snapshots := second.snapshots.trans first.snapshots
  metrics address value h :=
    second.metrics address value (first.metrics address value h)
  maps map value hmem h := by
    refine second.maps map value ?_ (first.maps map value hmem h)
    rwa [first.snapshots]

/-! ## The operations -/

/-- What every step keeps: metrics, and the maps of the snapshots that are
there before and after it. -/
structure Keeps (registry registry' : HostMetricsRegistry) : Prop where
  sound : Sound registry'
  metrics : ∀ address value, registry.metrics.value? address = some value →
    registry'.metrics.value? address = some value
  maps : ∀ map value, some map ∈ registry.snapshots →
    some map ∈ registry'.snapshots →
    registry.maps.value? map = some value →
    registry'.maps.value? map = some value

inductive Effect (registry registry' : HostMetricsRegistry) : Event → Prop where
  | got {key : HostId} {address : Nat} (handles : registry'.handles =
        registry.handles ++ [some address])
      (snapshots : registry'.snapshots = registry.snapshots)
      (named : registry'.Named address key) :
      Effect registry registry' (.got key registry.handles.length address)
  | hosts {map contents} (handles : registry'.handles = registry.handles)
      (snapshots : registry'.snapshots = registry.snapshots ++ [some map])
      (value : registry'.maps.value? map = some contents) :
      Effect registry registry' (.hosts registry.snapshots.length contents)
  | iterated {snapshot map contents} (same : registry' = registry)
      (there : registry.snapshots[snapshot]? = some (some map))
      (value : registry.maps.value? map = some contents) :
      Effect registry registry' (.iterated snapshot contents.values)
  | handleDropped {handle address : Nat}
      (there : registry.handles[handle]? = some (some address))
      (handles : registry'.handles = registry.handles.set handle none)
      (snapshots : registry'.snapshots = registry.snapshots) :
      Effect registry registry' (.handleDropped handle)
  | snapshotDropped {snapshot map}
      (there : registry.snapshots[snapshot]? = some (some map))
      (handles : registry'.handles = registry.handles)
      (snapshots : registry'.snapshots =
        registry.snapshots.set snapshot none) :
      Effect registry registry' (.snapshotDropped snapshot)

theorem Sound.give (sound : Sound registry)
    (hlookup : registry.contents.lookup key = some address) :
    Sound
      { registry with
        metrics := registry.metrics.share address
        handles := registry.handles ++ [some address] } := by
  have hmetrics : ∀ other value,
      registry.metrics.value? other = some value →
      (registry.metrics.share address).value? other = some value :=
    fun other value h => Heap.value?_share.trans h
  refine ⟨?_, sound.maps, sound.freed,
    fun map value key' other hvalue hother =>
      (sound.named map value key' other hvalue hother).mono hmetrics,
    fun other hmem => ?_⟩
  · have h := sound.metrics.share (sound.owned_contents hlookup)
    rwa [← Multiset.cons_add, ← held_append] at h
  · rcases List.mem_append.mp hmem with hmem | hmem
    · obtain ⟨key', hnamed, hother⟩ := sound.registered other hmem
      exact ⟨key', hnamed.mono hmetrics, hother⟩
    · cases List.mem_singleton.mp hmem
      exact ⟨key, (sound.named_contents hlookup).mono hmetrics, hlookup⟩

theorem get_step (sound : Sound registry) (service host : String)
    (port : UInt16) :
    Keeps registry (registry.get service host port).2 ∧
      Effect registry (registry.get service host port).2
        (registry.get service host port).1 := by
  have made := makeMut_spec sound
  obtain ⟨hentry, hlookup⟩ :=
    entry_spec made.sound made.own ⟨service, host, port⟩
  have hinternal := made.toInternal.trans hentry
  have hgiven := hinternal.sound.give hlookup
  rw [hinternal.handles] at hgiven
  have hmetrics : ∀ address value,
      registry.metrics.value? address = some value →
      (registry.get service host port).2.metrics.value? address =
        some value :=
    fun address value h =>
      Heap.value?_share.trans (hinternal.metrics address value h)
  refine ⟨⟨?_, hmetrics, fun map value hmem _ => hinternal.maps map value hmem⟩,
    .got ?_ hinternal.snapshots ?_⟩
  · rw [get, hinternal.handles]
    exact hgiven
  · rw [get, hinternal.handles]
  · exact (hinternal.sound.named_contents hlookup).mono
      fun address value h => Heap.value?_share.trans h

theorem get_address (sound : Sound registry) {service host : String}
    {port : UInt16} {handle found : Nat}
    (h : (registry.get service host port).1 = .got key handle found)
    (hlookup : registry.contents.lookup key = some address) :
    found = address := by
  have made := makeMut_spec sound
  rw [← made.contents] at hlookup
  cases h
  rw [entry, hlookup]

theorem Sound.snapshot (sound : Sound registry) :
    Sound
      { registry with
        maps := registry.maps.share registry.map
        snapshots := registry.snapshots ++ [some registry.map] } := by
  have hmem := Multiset.mem_cons_self registry.map (held registry.snapshots)
  refine ⟨?_, ?_, fun map value hvalue hzero => ?_,
    fun map value key address hvalue hlookup => ?_,
    fun address hmem => ?_⟩
  · simp only [Heap.refs_share]
    exact sound.metrics
  · simp only [held_append]
    exact sound.maps.share hmem
  · rw [Heap.value?_share] at hvalue
    simp only [Heap.strong_share (sound.maps.lt_length hmem)] at hzero
    exact sound.freed map value hvalue (Nat.add_eq_zero_iff.mp hzero).1
  · rw [Heap.value?_share] at hvalue
    exact sound.named map value key address hvalue hlookup
  · obtain ⟨key, hnamed, hlookup⟩ := sound.registered address hmem
    refine ⟨key, hnamed, ?_⟩
    rw [contents, Heap.value?_share]
    exact hlookup

theorem hosts_step (sound : Sound registry) :
    Keeps registry registry.hosts.2 ∧
      Effect registry registry.hosts.2 registry.hosts.1 := by
  have made := makeMut_spec sound
  have hinternal := made.toInternal.trans
    (retain_spec made.sound made.own).1
  have hsnapshot := hinternal.sound.snapshot
  have hlength : registry.makeMut.retain.snapshots.length =
      registry.snapshots.length := by rw [hinternal.snapshots]
  refine ⟨⟨hsnapshot, hinternal.metrics, fun map value hmem _ h => ?_⟩, ?_⟩
  · exact Heap.value?_share.trans (hinternal.maps map value hmem h)
  · simp only [hosts, hlength]
    have hvalue : (registry.makeMut.retain.maps.share
        registry.makeMut.retain.map).value? registry.makeMut.retain.map =
          some registry.makeMut.retain.contents :=
      Heap.value?_share.trans hinternal.sound.value?_map
    refine .hosts hinternal.handles ?_ hvalue
    simp only [hinternal.snapshots]

theorem hosts_contents (sound : Sound registry)
    (hnone : ∀ map, some map ∉ registry.snapshots) :
    ∃ contents, registry.hosts.1 =
        .hosts registry.snapshots.length contents ∧
      ∀ key address, contents.lookup key = some address ↔
        some address ∈ registry.handles ∧ registry.Named address key := by
  have hheld : held registry.snapshots = 0 :=
    Multiset.eq_zero_of_forall_notMem fun map hmem =>
      hnone map (mem_held.mp hmem)
  have hown : registry.maps.strong registry.map = 1 := by
    rw [sound.maps, hheld, Multiset.count_cons_self, Multiset.count_zero]
  have hmake : registry.makeMut = registry := if_pos hown
  obtain ⟨hinternal, hretain⟩ := retain_spec sound hown
  -- All metrics are owned by the handles and by this one map.
  have hrefs : registry.maps.refs HostMap.values =
      registry.contents.values := by
    refine Heap.refs_eq_of_others sound.value?_map fun map value hne h => ?_
    have hfree : registry.maps.strong map = 0 := by
      rw [sound.maps, hheld, Multiset.count_cons_of_ne hne,
        Multiset.count_zero]
    rw [sound.freed map value h hfree]
    rfl
  refine ⟨registry.retain.contents, ?_, fun key address => ?_⟩
  · simp only [hosts, hmake]
    rw [hinternal.snapshots]
  rw [hretain]
  constructor
  · rintro ⟨hlookup, hstrong⟩
    refine ⟨?_, sound.named_contents hlookup⟩
    have hcount := List.nodup_iff_count_le_one.mp sound.values_nodup address
    rw [sound.metrics, hrefs, Multiset.count_add, Multiset.coe_count]
      at hstrong
    exact mem_held.mp (Multiset.count_pos.mp (by omega))
  · rintro ⟨hmem, hnamed⟩
    have hlookup := sound.lookup_of_named hmem hnamed
    exact ⟨hlookup, sound.shared hmem hlookup⟩

theorem dropHandle_step (sound : Sound registry) {handle : Nat}
    (hthere : registry.handles[handle]? = some (some address))
    (hregistry' : registry' =
      { registry with
        metrics := registry.metrics.release address
        handles := registry.handles.set handle none }) :
    Keeps registry registry' ∧
      Effect registry registry' (.handleDropped handle) := by
  subst hregistry'
  have hmetrics : ∀ other value,
      registry.metrics.value? other = some value →
      (registry.metrics.release address).value? other = some value :=
    fun other value h => Heap.value?_release.trans h
  refine ⟨⟨⟨?_, sound.maps, sound.freed,
    fun map value key other hvalue hlookup =>
      (sound.named map value key other hvalue hlookup).mono hmetrics,
    fun other hmem => ?_⟩, hmetrics, fun _ _ _ _ h => h⟩,
    .handleDropped hthere rfl rfl⟩
  · have h := sound.metrics
    rw [← held_set hthere, Multiset.cons_add] at h
    exact h.release
  · have hmem : some other ∈ registry.handles := by
      rcases List.mem_or_eq_of_mem_set hmem with hmem | heq
      · exact hmem
      · cases heq
    obtain ⟨key, hnamed, hlookup⟩ := sound.registered other hmem
    exact ⟨key, hnamed.mono hmetrics, hlookup⟩

theorem count_owners (sound : Sound registry) {snapshot map : Nat}
    (hthere : registry.snapshots[snapshot]? = some (some map)) :
    registry.maps.Owned (map ::ₘ registry.map ::ₘ
      held (registry.snapshots.set snapshot none)) := by
  have h := sound.maps
  rwa [← held_set hthere, Multiset.cons_swap] at h

theorem releaseShared_sound (sound : Sound registry) {snapshot map : Nat}
    (hthere : registry.snapshots[snapshot]? = some (some map))
    (hshared : registry.maps.strong map ≠ 1) :
    Sound
      { registry with
        snapshots := registry.snapshots.set snapshot none
        maps := registry.maps.release map } := by
  have howned := count_owners sound hthere
  refine ⟨?_, howned.release, fun other value hvalue hzero => ?_,
    fun other value key address hvalue hlookup => ?_,
    fun address hmem => ?_⟩
  · simp only [Heap.refs_release]
    exact sound.metrics
  · rw [Heap.value?_release] at hvalue
    refine sound.freed other value hvalue ?_
    have hpos := howned.strong_pos.mpr (Multiset.mem_cons_self map _)
    simp only [Heap.strong_release] at hzero
    split at hzero
    · rename_i heq
      rw [heq] at hzero
      omega
    · exact hzero
  · rw [Heap.value?_release] at hvalue
    exact sound.named other value key address hvalue hlookup
  · obtain ⟨key, hnamed, hlookup⟩ := sound.registered address hmem
    refine ⟨key, hnamed, ?_⟩
    rw [contents, Heap.value?_release]
    exact hlookup

theorem releaseLast_sound (sound : Sound registry) {snapshot map : Nat}
    {last : HostMap}
    (hthere : registry.snapshots[snapshot]? = some (some map))
    (hlast : registry.maps.strong map = 1)
    (hvalue : registry.maps.value? map = some last) :
    Sound
        { registry with
          snapshots := registry.snapshots.set snapshot none
          metrics := registry.metrics.releaseAll last.values
          maps := (registry.maps.put map ∅).release map } ∧
      registry.map ≠ map ∧
        some map ∉ registry.snapshots.set snapshot none := by
  have howned := count_owners sound hthere
  have hcount := howned map
  rw [hlast, Multiset.count_cons_self] at hcount
  have hnot : map ∉ registry.map ::ₘ
      held (registry.snapshots.set snapshot none) :=
    Multiset.count_eq_zero.mp (by omega)
  rw [Multiset.mem_cons, not_or, mem_held] at hnot
  obtain ⟨hmap, hsnapshots⟩ := hnot
  have hmetrics : ∀ other value,
      registry.metrics.value? other = some value →
      (registry.metrics.releaseAll last.values).value? other = some value :=
    fun other value h => Heap.value?_releaseAll.trans h
  have hput : (registry.maps.put map ∅).value? map = some ∅ :=
    Heap.value?_put_self (Heap.lt_length_of_value? hvalue)
  refine ⟨⟨?_, howned.put.release, fun other value hother hzero => ?_,
    fun other value key address hother hlookup => ?_,
    fun address hmem => ?_⟩, Ne.symm hmap, hsnapshots⟩
  · simp only [Heap.refs_release]
    have hrefs : (registry.maps.put map ∅).refs HostMap.values +
        last.values = registry.maps.refs HostMap.values + HostMap.values ∅ :=
      Heap.refs_put hvalue
    have hempty : HostMap.values ∅ = [] := rfl
    rw [hempty, Multiset.coe_nil, add_zero] at hrefs
    refine Heap.Owned.releaseAll ?_
    rw [add_assoc, hrefs]
    exact sound.metrics
  · rw [Heap.value?_release] at hother
    simp only [Heap.strong_release, Heap.strong_put] at hzero
    by_cases heq : other = map
    · rw [heq, hput] at hother
      exact (Option.some.inj hother).symm
    · rw [Heap.value?_put_ne heq] at hother
      rw [if_neg heq] at hzero
      exact sound.freed other value hother hzero
  · rw [Heap.value?_release] at hother
    by_cases heq : other = map
    · rw [heq, hput] at hother
      cases hother
      cases hlookup
    · rw [Heap.value?_put_ne heq] at hother
      exact (sound.named other value key address hother hlookup).mono hmetrics
  · obtain ⟨key, hnamed, hlookup⟩ := sound.registered address hmem
    refine ⟨key, hnamed.mono hmetrics, ?_⟩
    rw [contents, Heap.value?_release, Heap.value?_put_ne (Ne.symm hmap)]
    exact hlookup

theorem dropSnapshot_step (sound : Sound registry) {snapshot map : Nat}
    (hthere : registry.snapshots[snapshot]? = some (some map)) :
    Keeps registry
        ({ registry with
          snapshots := registry.snapshots.set snapshot none }.releaseMap
            map) ∧
      Effect registry
        ({ registry with
          snapshots := registry.snapshots.set snapshot none }.releaseMap map)
        (.snapshotDropped snapshot) := by
  obtain ⟨last, hvalue⟩ := Heap.exists_value?
    ((count_owners sound hthere).lt_length (Multiset.mem_cons_self map _))
  unfold releaseMap
  split
  · rename_i hlast
    obtain ⟨hsound, -, hgone⟩ :=
      releaseLast_sound sound hthere hlast hvalue
    simp only [hvalue, Option.getD_some]
    refine ⟨⟨hsound, fun other value h => ?_, fun other value _ hmem h => ?_⟩,
      .snapshotDropped hthere rfl rfl⟩
    · exact Heap.value?_releaseAll.trans h
    · have hne : other ≠ map := by
        rintro rfl
        exact hgone hmem
      exact Heap.value?_release.trans ((Heap.value?_put_ne hne).trans h)
  · rename_i hshared
    exact ⟨⟨releaseShared_sound sound hthere hshared, fun _ _ h => h,
      fun _ _ _ _ h => Heap.value?_release.trans h⟩,
      .snapshotDropped hthere rfl rfl⟩

/-! ## Any step -/

theorem step_effect (sound : Sound registry)
    (h : Step registry event registry') :
    Keeps registry registry' ∧ Effect registry registry' event := by
  obtain ⟨op, h⟩ := h
  cases op with
  | get service host port =>
      cases h
      exact get_step sound service host port
  | hosts =>
      cases h
      exact hosts_step sound
  | iter snapshot =>
      simp only [next] at h
      split at h
      · rename_i map hthere
        obtain ⟨contents, hvalue, h⟩ := Option.map_eq_some_iff.mp h
        cases h
        exact ⟨⟨sound, fun _ _ h => h, fun _ _ _ _ h => h⟩,
          .iterated rfl hthere hvalue⟩
      · cases h
  | dropHandle handle =>
      simp only [next] at h
      split at h
      · rename_i metrics hthere
        cases h
        exact dropHandle_step sound hthere rfl
      · cases h
  | dropSnapshot snapshot =>
      simp only [next] at h
      split at h
      · rename_i map hthere
        cases h
        exact dropSnapshot_step sound hthere
      · cases h

theorem new_value? {map : Nat} {value : HostMap}
    (h : new.maps.value? map = some value) : value = ∅ := by
  cases map with
  | zero => exact (Option.some.inj h).symm
  | succ map => cases h

theorem new_sound : Sound new where
  metrics _ := rfl
  maps map := by
    cases map with
    | zero => rfl
    | succ map => simp [new, held, Heap.strong]
  freed map value h _ := new_value? h
  named map value key address h hlookup := by
    rw [new_value? h] at hlookup
    cases hlookup
  registered address hmem := by cases hmem

end HostMetricsRegistry

end ConjureRuntime.Node
