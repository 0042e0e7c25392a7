import Mathlib.Data.List.Chain
import ConjureRuntime.Client.PerHostRuns
import ConjureRuntime.Foundation.ListSum

/-!
# The host index of per-host clients

The gauges of a host's limiter carry the index of the host.  The nodes of a
client get theirs from the list of URIs whenever a state is built; a per-host
client has its index from the list in which its host first stood, and takes it
along to every later one.
-/

namespace ConjureRuntime.Client

open ConjureRuntime.Foundation ConjureRuntime.Service

variable {ε σ κ : Type} {build : Build ε σ κ}
  {perHost perHost' : PerHostClients σ κ} {config : ServiceConfig σ}
  {visited : List Url} {uri : Url} {reload : Reload σ κ}

/-! ## Indices and gauges -/

/-- The indices of the nodes that `NodeSelectorLayer::new` makes. -/
def hostIndices (config : ServiceConfig σ) (overrideHostIndex : Option Nat) :
    List Nat :=
  config.uris.mapIdx fun i _ => overrideHostIndex.getD i

inductive LimiterMetric where
  | max
  | inFlight
  deriving DecidableEq

structure MetricId where
  name : LimiterMetric
  service : String
  hostIndex : Nat
  deriving DecidableEq

/-- The gauges that `LimitedNode::new` pushes the limiter to. -/
def limiterGauges (service : String) (idx : Nat) : List MetricId :=
  [⟨.max, service, idx⟩, ⟨.inFlight, service, idx⟩]

def RawClient.gauges (service : String) (client : RawClient σ κ) :
    List MetricId :=
  (hostIndices client.subscription.source
    client.overrideHostIndex).flatMap (limiterGauges service)

/-- The index that the client of a host has after a reload that lists the host
at `i`: that of its handle, if there is one. -/
def PerHostClients.indexAfter (perHost : PerHostClients σ κ) (uri : Url)
    (i : Nat) : Option Nat :=
  match perHost.clientHandles.lookup ⟨uri⟩ with
  | some name => (perHost.store name).bind RawClient.overrideHostIndex
  | none => some i

/-- Every host of the configuration has a client whose state was built with
the position of the host, and no two clients share a gauge. -/
structure Indexed (build : Build ε σ κ) (perHost : PerHostClients σ κ) :
    Prop where
  position : ∀ {i uri}, perHost.config.uris[i]? = some uri →
    ∃ name client, perHost.published.lookup ⟨uri⟩ = some name ∧
      perHost.store name = some client ∧
      client.overrideHostIndex = some i ∧
      client.Runs build (perHost.config.forHost uri)
  apart : ∀ {uri other name name' client client'}, uri ≠ other →
    perHost.published.lookup ⟨uri⟩ = some name →
    perHost.store name = some client →
    perHost.published.lookup ⟨other⟩ = some name' →
    perHost.store name' = some client' →
    ∀ service, (client.gauges service).Disjoint (client'.gauges service)

/-- No host that stays in the configuration moves. -/
def StaysPut (config config' : ServiceConfig σ) : Prop :=
  ∀ (i j : Nat) (uri : Url), config.uris[i]? = some uri →
    config'.uris[j]? = some uri → i = j

section

variable [DecidableEq σ] {refreshable : Refreshable}

/-- A configuration whose URIs are distinct, and all of whose states can be
built. -/
def BuiltPush (build : Build ε σ κ) (refreshable : Refreshable)
    (perHost : PerHostClients σ κ) (update : Update ε σ)
    (perHost' : PerHostClients σ κ) : Prop :=
  Push build refreshable perHost update perHost' ∧
    update.config.uris.Nodup ∧
    (perHost.runs refreshable update.config = true →
      Succeeds build refreshable update.environment perHost update.config
        update.config.uris)

def IndexedPush (build : Build ε σ κ) (refreshable : Refreshable)
    (perHost : PerHostClients σ κ) (update : Update ε σ)
    (perHost' : PerHostClients σ κ) : Prop :=
  BuiltPush build refreshable perHost update perHost' ∧
    Indexed build perHost'

/-! ## The indices of one reload -/

def Numbered (perHost : PerHostClients σ κ) (visited : List Url)
    (reload : Reload σ κ) : Prop :=
  ∀ (i : Nat) (uri : Url) (name : Nat), visited[i]? = some uri →
    reload.newClientHandles.lookup ⟨uri⟩ = some name →
    ∃ client, reload.store name = some client ∧
      client.overrideHostIndex = perHost.indexAfter uri i

variable {environment : Nat → ε × ε}

theorem Visited.injective
    (hvisited : Visited build refreshable environment perHost config visited
      reload) {other : Url} {name : Nat}
    (huri : reload.newClientHandles.lookup ⟨uri⟩ = some name)
    (hother : reload.newClientHandles.lookup ⟨other⟩ = some name) :
    uri = other := by
  obtain ⟨-, client, hclient, hconfig⟩ := hvisited.handles uri name huri
  obtain ⟨-, client', hclient', hconfig'⟩ :=
    hvisited.handles other name hother
  cases hclient.symm.trans hclient'
  have huris := congrArg ServiceConfig.uris (hconfig.symm.trans hconfig')
  simpa [ServiceConfig.forHost] using huris

theorem Numbered.inserted {reload' : Reload σ κ} {name : Nat}
    {client : RawClient σ κ} (hnumbered : Numbered perHost visited reload)
    (huri : uri ∉ visited)
    (hstore : reload'.store =
      Function.update reload.store name (some client))
    (hhandles : reload'.newClientHandles =
      reload.newClientHandles.insert ⟨uri⟩ name)
    (hvisited : Visited build refreshable environment perHost config
      (visited ++ [uri]) reload')
    (hindex : client.overrideHostIndex =
      perHost.indexAfter uri visited.length) :
    Numbered perHost (visited ++ [uri]) reload' := by
  have hname : reload'.newClientHandles.lookup ⟨uri⟩ = some name := by
    rw [hhandles, AList.lookup_insert]
  intro i other found hlisted hfound
  rcases getElem?_append_singleton_cases hlisted with hi | ⟨rfl, rfl⟩
  · have hne : other ≠ uri :=
      fun heq => huri (heq ▸ List.mem_of_getElem? hi)
    have hapart : found ≠ name := by
      rintro rfl
      exact hne (hvisited.injective hfound hname)
    rw [hhandles, AList.lookup_insert_ne (by simpa using hne)] at hfound
    obtain ⟨client', hclient', hindex'⟩ := hnumbered i other found hi hfound
    refine ⟨client', ?_, hindex'⟩
    rw [hstore, Function.update_of_ne hapart, hclient']
  · cases Option.some.inj (hfound.symm.trans hname)
    exact ⟨client, by rw [hstore, Function.update_self], hindex⟩

theorem Numbered.skipped {reload' : Reload σ κ}
    (hnumbered : Numbered perHost visited reload) (huri : uri ∉ visited)
    (hvisited : Visited build refreshable environment perHost config visited
      reload)
    (hstore : reload'.store = reload.store)
    (hhandles : reload'.newClientHandles = reload.newClientHandles) :
    Numbered perHost (visited ++ [uri]) reload' := by
  intro i other found hlisted hfound
  rw [hhandles] at hfound
  rw [hstore]
  rcases getElem?_append_singleton_cases hlisted with hi | ⟨-, rfl⟩
  · exact hnumbered i other found hi hfound
  · exact absurd (hvisited.handles other found hfound).1 huri

theorem visit_numbered (inv : Invariant build perHost)
    (hvisited : Visited build refreshable environment perHost config visited
      reload)
    (huri : uri ∉ visited) (hnumbered : Numbered perHost visited reload) :
    Numbered perHost (visited ++ [uri])
      (visit build refreshable (environment visited.length) config
        visited.length uri reload) := by
  have hleft := hvisited.left uri
  rw [if_neg huri] at hleft
  unfold visit
  split
  · rename_i name hhandle
    split
    · rename_i client hclient
      refine hnumbered.inserted huri rfl rfl
        (hvisited.first_listing inv hhandle hclient) ?_
      have hold := hvisited.waiting inv hhandle
      rw [hhandle] at hleft
      rw [PerHostClients.indexAfter, ← hleft]
      simp [← hold, hclient, RawClient.refresh]
    · exact hnumbered.skipped huri hvisited rfl rfl
  · rename_i hhandle
    split
    · rename_i client hclient
      refine hnumbered.inserted huri rfl rfl
        (hvisited.built inv hhandle hclient) ?_
      rw [hhandle] at hleft
      rw [PerHostClients.indexAfter, ← hleft]
      exact (rawClient_eq_ok hclient).2.2.1
    · exact hnumbered.skipped huri hvisited rfl rfl

theorem visitAll_numbered (inv : Invariant build perHost) {uris : List Url}
    (hvisited : Visited build refreshable environment perHost config visited
      reload)
    (hnodup : (visited ++ uris).Nodup)
    (hnumbered : Numbered perHost visited reload) :
    Numbered perHost (visited ++ uris)
      (visitAll build refreshable environment config visited.length uris
        reload) := by
  induction uris generalizing visited reload with
  | nil => simpa [visitAll] using hnumbered
  | cons uri uris ih =>
      have huri : uri ∉ visited := fun hmem =>
        (List.nodup_append.mp hnodup).2.2 uri hmem uri (by simp) rfl
      have hnext := visit_numbered inv hvisited huri hnumbered
      have hsplit : visited ++ uri :: uris = visited ++ [uri] ++ uris := by
        simp
      rw [hsplit] at hnodup ⊢
      have h := ih (visit_visited inv uri hvisited) hnodup hnext
      simpa [visitAll] using h

theorem reload_numbered (refreshable : Refreshable)
    (inv : Invariant build perHost) (environment : Nat → ε × ε)
    (hnodup : config.uris.Nodup) :
    Numbered perHost config.uris
      (perHost.reload build refreshable environment config) := by
  have hstart : Numbered perHost []
      { store := perHost.store
        next := perHost.next
        clientHandles := perHost.clientHandles
        newClientHandles := ∅
        clients := ∅
        errors := [] } := by
    intro i uri name hi
    simp at hi
  exact visitAll_numbered inv (.start inv) hnodup hstart

end

/-! ## Configurations that can be built -/

/-- What a run of configurations that can be built keeps: the hosts of the last
one have a client each, which is published and runs the state built for its
host. -/
structure Settled (build : Build ε σ κ) (perHost : PerHostClients σ κ) :
    Prop where
  invariant : Invariant build perHost
  attached : Attached perHost
  nodup : perHost.config.uris.Nodup
  hosts : ∀ uri, ⟨uri⟩ ∈ perHost.published ↔ uri ∈ perHost.config.uris
  listed : ∀ uri name, perHost.clientHandles.lookup ⟨uri⟩ = some name →
    uri ∈ perHost.config.uris
  running : ∀ uri name, perHost.clientHandles.lookup ⟨uri⟩ = some name →
    ∃ client, perHost.store name = some client ∧
      client.Runs build (perHost.config.forHost uri)

theorem Settled.lookup (settled : Settled build perHost)
    (huri : uri ∈ perHost.config.uris) :
    ∃ name, perHost.published.lookup ⟨uri⟩ = some name ∧
      perHost.clientHandles.lookup ⟨uri⟩ = some name := by
  obtain ⟨name, hname⟩ := Option.isSome_iff_exists.mp
    (AList.lookup_isSome.mpr ((settled.hosts uri).mpr huri))
  exact ⟨name, hname, settled.attached uri name hname⟩

theorem Settled.client (settled : Settled build perHost) {i : Nat}
    (huri : uri ∈ perHost.config.uris)
    (hindex : ∀ name client,
      perHost.clientHandles.lookup ⟨uri⟩ = some name →
      perHost.store name = some client →
      client.overrideHostIndex = some i) :
    ∃ name client, perHost.published.lookup ⟨uri⟩ = some name ∧
      perHost.store name = some client ∧
      client.overrideHostIndex = some i ∧
      client.Runs build (perHost.config.forHost uri) := by
  obtain ⟨name, hpublished, hhandle⟩ := settled.lookup huri
  obtain ⟨client, hstore, hruns⟩ := settled.running uri name hhandle
  exact ⟨name, client, hpublished, hstore,
    hindex name client hhandle hstore, hruns⟩

theorem disjoint_limiterGauges {service : String} {idx idx' : Nat}
    (h : idx ≠ idx') :
    (limiterGauges service idx).Disjoint (limiterGauges service idx') := by
  intro gauge hgauge hgauge'
  simp only [limiterGauges, List.mem_cons, List.not_mem_nil, or_false]
    at hgauge hgauge'
  rcases hgauge with rfl | rfl <;> rcases hgauge' with heq | heq <;>
    exact h (congrArg MetricId.hostIndex heq)

theorem gauges_of_forHost {client : RawClient σ κ} {i : Nat}
    (hruns : client.Runs build (config.forHost uri))
    (hindex : client.overrideHostIndex = some i) (service : String) :
    client.gauges service = limiterGauges service i := by
  unfold RawClient.gauges
  rw [hruns.1, hindex]
  simp [hostIndices, ServiceConfig.forHost]

theorem Settled.indexed (settled : Settled build perHost)
    (hposition : ∀ i uri name client, perHost.config.uris[i]? = some uri →
      perHost.clientHandles.lookup ⟨uri⟩ = some name →
      perHost.store name = some client →
      client.overrideHostIndex = some i) :
    Indexed build perHost := by
  refine ⟨fun {i uri} hi => settled.client (List.mem_of_getElem? hi)
    fun name client => hposition i uri name client hi, ?_⟩
  have hgauges : ∀ uri name client,
      perHost.published.lookup ⟨uri⟩ = some name →
      perHost.store name = some client →
      ∃ i, perHost.config.uris[i]? = some uri ∧
        ∀ service, client.gauges service = limiterGauges service i := by
    intro uri name client hname hclient
    have hhandle := settled.attached uri name hname
    obtain ⟨i, hi⟩ := List.getElem?_of_mem (settled.listed uri name hhandle)
    have hindex := hposition i uri name client hi hhandle hclient
    obtain ⟨client', hclient', hruns⟩ := settled.running uri name hhandle
    cases hclient'.symm.trans hclient
    exact ⟨i, hi, gauges_of_forHost hruns hindex⟩
  intro uri other name name' client client' hne hname hclient hname' hclient'
    service
  obtain ⟨i, hi, hi'⟩ := hgauges uri name client hname hclient
  obtain ⟨j, hj, hj'⟩ := hgauges other name' client' hname' hclient'
  rw [hi', hj']
  refine disjoint_limiterGauges fun heq => hne ?_
  rw [heq] at hi
  exact Option.some.inj (hi.symm.trans hj)

theorem Indexed.indexAfter (settled : Settled build perHost)
    (indexed : Indexed build perHost) {i : Nat}
    (hi : perHost.config.uris[i]? = some uri) (j : Nat) :
    perHost.indexAfter uri j = some i := by
  obtain ⟨name, client, hname, hclient, hindex, -⟩ := indexed.position hi
  rw [PerHostClients.indexAfter, settled.attached uri name hname]
  simp [hclient, hindex]

theorem Settled.indexAfter (settled : Settled build perHost)
    (huri : uri ∉ perHost.config.uris) (j : Nat) :
    perHost.indexAfter uri j = some j := by
  rw [PerHostClients.indexAfter]
  cases hhandle : perHost.clientHandles.lookup ⟨uri⟩ with
  | none => rfl
  | some name => exact absurd (settled.listed uri name hhandle) huri

/-! ## Sequences of configurations -/

theorem isChain_concat {configs : List (ServiceConfig σ)}
    {last : ServiceConfig σ} (hlast : configs.getLast? = some last) :
    (configs ++ [config]).IsChain StaysPut ↔
      configs.IsChain StaysPut ∧ StaysPut last config := by
  rw [List.isChain_append, hlast]
  simp

theorem staysPut_of_added {config' : ServiceConfig σ}
    (hadded : config.uris <+: config'.uris) (hnodup : config'.uris.Nodup) :
    StaysPut config config' := by
  intro i j uri hi hj
  obtain ⟨rest, hrest⟩ := hadded
  obtain ⟨hlt, -⟩ := List.getElem?_eq_some_iff.mp hi
  have hlt' : i < config'.uris.length := by
    rw [← hrest, List.length_append]
    omega
  have hi' : config'.uris[i]? = some uri := by
    rw [← hrest, List.getElem?_append_left hlt, hi]
  exact (List.getElem?_inj hlt' hnodup).mp (hi'.trans hj.symm)

theorem empty_settled (config : ServiceConfig σ) :
    Settled build
      (.empty { config with uris := [] } : PerHostClients σ κ) where
  invariant := ⟨by simp [PerHostClients.empty],
    by simp [PerHostClients.empty], by simp [PerHostClients.empty],
    by simp [PerHostClients.empty]⟩
  attached := by simp [PerHostClients.empty, Attached]
  nodup := List.nodup_nil
  hosts := by simp [PerHostClients.empty]
  listed := by simp [PerHostClients.empty]
  running := by simp [PerHostClients.empty]

/-! ## One configuration -/

variable [DecidableEq σ] {refreshable : Refreshable} {update : Update ε σ}

theorem push_numbered (settled : Settled build perHost)
    (hruns : perHost.runs refreshable update.config = true)
    (hnodup : update.config.uris.Nodup)
    (h : Push build refreshable perHost update perHost') :
    ∀ i uri name client, update.config.uris[i]? = some uri →
      perHost'.clientHandles.lookup ⟨uri⟩ = some name →
      perHost'.store name = some client →
      client.overrideHostIndex = perHost.indexAfter uri i := by
  intro i uri name client hi hname hclient
  rw [h, PerHostClients.push, if_pos hruns] at hname hclient
  obtain ⟨client', hclient', hindex⟩ := reload_numbered refreshable
    settled.invariant update.environment hnodup i uri name hi hname
  cases hclient.symm.trans hclient'
  exact hindex

theorem push_settled (settled : Settled build perHost)
    (h : BuiltPush build refreshable perHost update perHost') :
    Settled build perHost' := by
  obtain ⟨rfl, hnodup, hsucceeds⟩ := h
  have inv := settled.invariant
  by_cases hruns : perHost.runs refreshable update.config = true
  · have hsucceeds := hsucceeds hruns
    have hpublishes : Publishes build refreshable update.environment perHost
          update.config ∨
        ∀ uri, ⟨uri⟩ ∈ perHost.published ↔ uri ∈ update.config.uris := by
      by_cases hsame : ∀ uri,
          ⟨uri⟩ ∈ perHost.published ↔ uri ∈ update.config.uris
      · exact .inr hsame
      · exact .inl ⟨hruns, hsucceeds, .inr hsame⟩
    have hattached := push_attached inv settled.attached (hpublishes.imp_right
      fun hsame => ⟨hnodup, fun uri => (hsame uri).mp⟩)
    obtain ⟨reload, hvisited, hstore, -, hhandles, hpublished⟩ :=
      push_runs update.environment inv hruns
    have hnone := hvisited.errors.mpr hsucceeds
    refine
      { invariant := push_invariant inv
        attached := hattached
        nodup := by rwa [push_config]
        hosts := fun uri => ?_
        listed := fun uri name hname => ?_
        running := fun uri name hname => ?_ }
    · rw [push_config]
      rcases hpublished with ⟨-, hpublished⟩ | ⟨hnot, hpublished⟩ <;>
        rw [hpublished]
      · rw [← hvisited.hosts hnone]
      · exact (or_iff_right hnot).mp hpublishes uri
    · rw [hhandles] at hname
      rw [push_config]
      exact (hvisited.handles uri name hname).1
    · rw [hhandles] at hname
      rw [push_config, hstore]
      obtain ⟨client, hclient, -, hclientRuns⟩ := hvisited.runs hnone hname
      exact ⟨client, hclient, hclientRuns⟩
  · rw [push_of_not_runs hruns]
    exact settled

theorem push_indexed_iff (settled : Settled build perHost)
    (indexed : Indexed build perHost)
    (h : BuiltPush build refreshable perHost update perHost') :
    Indexed build perHost' ↔ StaysPut perHost.config update.config := by
  have settled' := push_settled settled h
  obtain ⟨hpush, hnodup, -⟩ := h
  have hconfig : perHost'.config = update.config := by
    rw [hpush, push_config]
  by_cases hruns : perHost.runs refreshable update.config = true
  · have hnumbered := push_numbered settled hruns hnodup hpush
    constructor
    · intro indexed' i j uri hi hj
      rw [← hconfig] at hj
      obtain ⟨name, client, hname, hclient, hindex, -⟩ :=
        indexed'.position hj
      rw [hconfig] at hj
      have hafter := hnumbered j uri name client hj
        (settled'.attached uri name hname) hclient
      rw [hindex, indexed.indexAfter settled hi] at hafter
      exact (Option.some.inj hafter).symm
    · intro hstays
      refine settled'.indexed fun j uri name client hj hname hclient => ?_
      rw [hconfig] at hj
      rw [hnumbered j uri name client hj hname hclient]
      by_cases huri : uri ∈ perHost.config.uris
      · obtain ⟨i, hi⟩ := List.getElem?_of_mem huri
        rw [indexed.indexAfter settled hi, hstays i j uri hi hj]
      · exact settled.indexAfter huri j
  · rw [hpush, push_of_not_runs hruns, config_of_not_runs hruns]
    refine iff_of_true indexed fun i j uri hi hj => ?_
    obtain ⟨hlt, -⟩ := List.getElem?_eq_some_iff.mp hi
    exact (List.getElem?_inj hlt hnodup).mp (hi.trans hj.symm)

/-! ## Runs -/

variable {environment : Nat → ε × ε}

theorem start_indexed (hnodup : config.uris.Nodup)
    (hstart : perHostClientsInner build refreshable environment config =
      .ok perHost) :
    Settled build perHost ∧ Indexed build perHost ∧
      perHost.config = config := by
  obtain ⟨inv, attached, hhosts, -⟩ := start_attached hstart
  have hempty : Settled build _ := empty_settled config
  have hvisited :=
    reload_visited refreshable hempty.invariant environment config
  have hnumbered :=
    reload_numbered refreshable hempty.invariant environment hnodup
  simp only [perHostClientsInner] at hstart
  split at hstart
  · cases hstart
  · rename_i hlast
    cases hstart
    have hnone := List.getLast?_eq_none_iff.mp hlast
    have settled : Settled build _ :=
      { invariant := inv
        attached
        nodup := hnodup
        hosts := hhosts
        listed := fun uri name hname => (hvisited.handles uri name hname).1
        running := fun uri name hname => by
          obtain ⟨client, hclient, -, hruns⟩ := hvisited.runs hnone hname
          exact ⟨client, hclient, hruns⟩ }
    refine ⟨settled, settled.indexed fun i uri name client hi hname hclient =>
      ?_, rfl⟩
    obtain ⟨client', hclient', hindex⟩ := hnumbered i uri name hi hname
    cases hclient.symm.trans hclient'
    rw [hindex, hempty.indexAfter List.not_mem_nil i]

theorem run_settled (settled : Settled build perHost)
    (indexed : Indexed build perHost) {updates : List (Update ε σ)}
    (run : Run (IndexedPush build refreshable) perHost updates perHost') :
    Settled build perHost' ∧ Indexed build perHost' ∧
      (perHost.config :: updates.map Update.config).getLast? =
        some perHost'.config := by
  refine run.invariant (fun updates perHost' =>
    Settled build perHost' ∧ Indexed build perHost' ∧
      (perHost.config :: updates.map Update.config).getLast? =
        some perHost'.config)
    ⟨settled, indexed, rfl⟩ ?_
  rintro updates mid update last ⟨hmid, -, -⟩ ⟨hpush, hlast⟩
  refine ⟨push_settled hmid hpush, hlast, ?_⟩
  rw [hpush.1, push_config, List.map_append, ← List.cons_append]
  exact List.getLast?_concat

theorem run_indexed_iff (settled : Settled build perHost)
    (indexed : Indexed build perHost) {updates : List (Update ε σ)} :
    Run (IndexedPush build refreshable) perHost updates perHost' ↔
      Run (BuiltPush build refreshable) perHost updates perHost' ∧
        (perHost.config :: updates.map Update.config).IsChain StaysPut := by
  constructor
  · intro run
    refine ⟨run.mono fun h => h.1, ?_⟩
    induction run with
    | refl => exact List.isChain_singleton _
    | step run h ih =>
        obtain ⟨hmid, hindexed, hlast⟩ := run_settled settled indexed run
        rw [List.map_append, ← List.cons_append]
        refine (isChain_concat hlast).mpr ⟨ih, ?_⟩
        exact (push_indexed_iff hmid hindexed h.1).mp h.2
  · rintro ⟨run, hchain⟩
    induction run with
    | refl => exact .refl
    | step run h ih =>
        rw [List.map_append, ← List.cons_append] at hchain
        have run := ih (List.isChain_append.mp hchain).1
        obtain ⟨hmid, hindexed, hlast⟩ := run_settled settled indexed run
        have hstays := ((isChain_concat hlast).mp hchain).2
        exact run.step ⟨h, (push_indexed_iff hmid hindexed h).mpr hstays⟩

/-- The first configuration leaves every client with the position of its host,
and a run of later ones does so after each of them if and only if no host that
stays is ever moved. -/
theorem host_index_is_position_iff (hnodup : config.uris.Nodup)
    (hstart : perHostClientsInner build refreshable environment config =
      .ok perHost) :
    Indexed build perHost ∧ ∀ updates perHost',
      Run (IndexedPush build refreshable) perHost updates perHost' ↔
        Run (BuiltPush build refreshable) perHost updates perHost' ∧
          (config :: updates.map Update.config).IsChain StaysPut := by
  obtain ⟨settled, indexed, hconfig⟩ := start_indexed hnodup hstart
  refine ⟨indexed, fun updates perHost' => ?_⟩
  rw [← hconfig]
  exact run_indexed_iff settled indexed

/-! ## A host that moves up -/

def buildAny : Build Unit Unit (ServiceConfig Unit × Option Nat) :=
  fun _ config overrideHostIndex => .ok (config, overrideHostIndex)

def hosts (uris : List Url) : ServiceConfig Unit := ⟨uris, ()⟩

def anywhere : Nat → Unit × Unit := fun _ => ((), ())

theorem buildAny_succeeds (refreshable : Refreshable)
    (perHost : PerHostClients Unit (ServiceConfig Unit × Option Nat))
    (config : ServiceConfig Unit) :
    Succeeds buildAny refreshable anywhere perHost config config.uris := by
  rintro uri before other after - rfl
  unfold Answers
  split
  · exact ⟨⟨_, rfl⟩, ⟨_, rfl⟩⟩
  · intro client _ _
    exact ⟨_, rfl⟩

/-- A host is added behind the others. -/
theorem added_host_is_indexed :
    ∃ perHost perHost',
      perHostClientsInner buildAny (.ofEqual false true) anywhere
          (hosts ["https://a", "https://b"]) = .ok perHost ∧
      Run (IndexedPush buildAny (.ofEqual false true)) perHost
        ([] ++ [⟨hosts ["https://a", "https://b", "https://c"], anywhere⟩])
        perHost' := by
  have hstart : ∃ perHost, perHostClientsInner buildAny
      (.ofEqual false true) anywhere (hosts ["https://a", "https://b"]) =
        .ok perHost := ⟨_, rfl⟩
  obtain ⟨perHost, hstart⟩ := hstart
  have run : Run (BuiltPush buildAny (.ofEqual false true)) perHost
      ([] ++ [⟨hosts ["https://a", "https://b", "https://c"], anywhere⟩])
      _ :=
    Run.refl.step ⟨rfl, by decide, fun _ => buildAny_succeeds _ _ _⟩
  refine ⟨perHost, _, hstart,
    ((host_index_is_position_iff (by decide) hstart).2 _ _).mpr ⟨run, ?_⟩⟩
  exact List.isChain_pair.mpr (staysPut_of_added (by decide) (by decide))

/-- `a` goes and `c` comes: `b` keeps the index that it had behind `a`, and
`c` gets the same one. -/
theorem moved_host_shares_its_index :
    ∃ perHost perHost' client client',
      perHostClientsInner buildAny (.ofEqual false true) anywhere
          (hosts ["https://a", "https://b"]) = .ok perHost ∧
      Run (BuiltPush buildAny (.ofEqual false true)) perHost
        ([] ++ [⟨hosts ["https://b", "https://c"], anywhere⟩]) perHost' ∧
      (perHost'.published.lookup ⟨"https://b"⟩).bind perHost'.store =
        some client ∧
      (perHost'.published.lookup ⟨"https://c"⟩).bind perHost'.store =
        some client' ∧
      client.overrideHostIndex = some 1 ∧
      client'.overrideHostIndex = some 1 ∧
      client.gauges "service" = client'.gauges "service" ∧
      ¬ Indexed buildAny perHost' := by
  refine ⟨_, _, _, _, rfl,
    Run.refl.step ⟨rfl, by decide, fun _ => buildAny_succeeds _ _ _⟩,
    rfl, rfl, rfl, rfl, rfl, fun indexed => ?_⟩
  have hfirst : (hosts ["https://b", "https://c"]).uris[0]? =
      some "https://b" := rfl
  obtain ⟨name, client, hname, hclient, hindex, -⟩ :=
    indexed.position hfirst
  cases hname
  cases hclient
  cases hindex

end ConjureRuntime.Client
