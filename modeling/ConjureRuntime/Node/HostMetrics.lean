import Mathlib.Data.List.AList
import ConjureRuntime.Foundation.Shared

/-!
# The host metrics registry

The registry keeps the metrics of every host in a map behind an `Arc`.  It
gives out handles to the metrics and snapshots of the map; the map is copied
when it is to be changed while a snapshot shares it, and the metrics of hosts
that nobody holds a handle to are cleared out when a snapshot is taken.
-/

namespace ConjureRuntime.Node

open ConjureRuntime.Foundation

structure HostId where
  service : String
  host : String
  port : UInt16
  deriving DecidableEq

/-- What of the metrics of a host never changes. -/
structure HostMetrics where
  serviceName : String
  hostname : String
  port : UInt16
  deriving DecidableEq

namespace HostMetrics

def new (service host : String) (port : UInt16) : HostMetrics :=
  ⟨service, host, port⟩

def hostId (metrics : HostMetrics) : HostId :=
  ⟨metrics.serviceName, metrics.hostname, metrics.port⟩

end HostMetrics

abbrev HostMap := AList fun _ : HostId => Nat

namespace HostMap

def values (map : HostMap) : List Nat := map.entries.map Sigma.snd

def retain (map : HostMap) (keep : Nat → Bool) : HostMap where
  entries := map.entries.filter fun entry => keep entry.2
  nodupKeys := map.nodupKeys.sublist List.filter_sublist

end HostMap

/-- All metrics and maps that were ever made, the map of the registry, and the
handles and snapshots that were given out, until they are dropped. -/
structure HostMetricsRegistry where
  metrics : Heap HostMetrics
  maps : Heap HostMap
  map : Nat
  handles : List (Option Nat)
  snapshots : List (Option Nat)

namespace HostMetricsRegistry

def new : HostMetricsRegistry where
  metrics := []
  maps := [⟨1, ∅⟩]
  map := 0
  handles := []
  snapshots := []

inductive Op where
  | get (service host : String) (port : UInt16)
  | hosts
  | iter (snapshot : Nat)
  | dropHandle (handle : Nat)
  | dropSnapshot (snapshot : Nat)
  deriving DecidableEq

/-- Handles and snapshots are numbered in the order in which they are given
out. -/
inductive Event where
  | got (key : HostId) (handle : Nat) (metrics : Nat)
  | hosts (snapshot : Nat) (contents : HostMap)
  | iterated (snapshot : Nat) (metrics : List Nat)
  | handleDropped (handle : Nat)
  | snapshotDropped (snapshot : Nat)

def contents (registry : HostMetricsRegistry) : HostMap :=
  (registry.maps.value? registry.map).getD ∅

/-- A copy of the map takes its place, and clones the `Arc`s that are in it. -/
def cloneMap (registry : HostMetricsRegistry) : HostMetricsRegistry :=
  { registry with
    metrics := registry.metrics.shareAll registry.contents.values
    maps := (registry.maps.alloc registry.contents).release registry.map
    map := registry.maps.length }

/-- `Arc::make_mut`. -/
def makeMut (registry : HostMetricsRegistry) : HostMetricsRegistry :=
  if registry.maps.strong registry.map = 1 then registry
  else registry.cloneMap

/-- `HashMap::entry` with `or_insert_with`: where the metrics of the host are,
which are made if there are none. -/
def entry (registry : HostMetricsRegistry) (key : HostId) :
    Nat × HostMetricsRegistry :=
  match registry.contents.lookup key with
  | some metrics => (metrics, registry)
  | none =>
      (registry.metrics.length,
        { registry with
          metrics := registry.metrics.alloc
            (.new key.service key.host key.port)
          maps := registry.maps.put registry.map
            (registry.contents.insert key registry.metrics.length) })

def get (registry : HostMetricsRegistry) (service host : String)
    (port : UInt16) : Event × HostMetricsRegistry :=
  let key := ⟨service, host, port⟩
  let entry := registry.makeMut.entry key
  (.got key registry.handles.length entry.1,
    { entry.2 with
      metrics := entry.2.metrics.share entry.1
      handles := entry.2.handles ++ [some entry.1] })

/-- `HashMap::retain`, which drops what it does not keep. -/
def retain (registry : HostMetricsRegistry) : HostMetricsRegistry :=
  let live := fun metrics => decide (1 < registry.metrics.strong metrics)
  { registry with
    metrics := registry.metrics.releaseAll
      (registry.contents.retain fun metrics => !live metrics).values
    maps := registry.maps.put registry.map (registry.contents.retain live) }

def hosts (registry : HostMetricsRegistry) : Event × HostMetricsRegistry :=
  let registry := registry.makeMut.retain
  (.hosts registry.snapshots.length registry.contents,
    { registry with
      maps := registry.maps.share registry.map
      snapshots := registry.snapshots ++ [some registry.map] })

/-- A map is dropped, and with its last `Arc` what is in it. -/
def releaseMap (registry : HostMetricsRegistry) (map : Nat) :
    HostMetricsRegistry :=
  if registry.maps.strong map = 1 then
    { registry with
      metrics := registry.metrics.releaseAll
        ((registry.maps.value? map).getD ∅).values
      maps := (registry.maps.put map ∅).release map }
  else { registry with maps := registry.maps.release map }

def next (registry : HostMetricsRegistry) :
    Op → Option (Event × HostMetricsRegistry)
  | .get service host port => some (registry.get service host port)
  | .hosts => some registry.hosts
  | .iter snapshot =>
      match registry.snapshots[snapshot]? with
      | some (some map) =>
          (registry.maps.value? map).map fun contents =>
            (.iterated snapshot contents.values, registry)
      | _ => none
  | .dropHandle handle =>
      match registry.handles[handle]? with
      | some (some metrics) =>
          some (.handleDropped handle,
            { registry with
              metrics := registry.metrics.release metrics
              handles := registry.handles.set handle none })
      | _ => none
  | .dropSnapshot snapshot =>
      match registry.snapshots[snapshot]? with
      | some (some map) =>
          some (.snapshotDropped snapshot,
            { registry with
              snapshots := registry.snapshots.set snapshot none }.releaseMap
                map)
      | _ => none

def Step (registry : HostMetricsRegistry) (event : Event)
    (registry' : HostMetricsRegistry) : Prop :=
  ∃ op, registry.next op = some (event, registry')

end HostMetricsRegistry

end ConjureRuntime.Node
