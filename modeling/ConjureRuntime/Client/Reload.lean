import ConjureRuntime.Client.PerHostClients
import ConjureRuntime.Foundation.History

/-!
# One reload of the per-host clients

The closure goes through the URIs of a configuration once.  The first listing
of a host takes its handle and refreshes the client; every further one finds
no handle and puts a second client in place of the first.
-/

namespace ConjureRuntime.Client

open ConjureRuntime.Foundation ConjureRuntime.Service

variable {ε σ κ : Type} {build : Build ε σ κ}
  {perHost : PerHostClients σ κ} {config : ServiceConfig σ}
  {visited : List Url} {uri : Url} {reload : Reload σ κ}

/-! ## Clients -/

def RawClient.Consistent (build : Build ε σ κ) (client : RawClient σ κ) :
    Prop :=
  client.subscription.Consistent (rebuild build client.overrideHostIndex)

def RawClient.Runs (build : Build ε σ κ) (client : RawClient σ κ)
    (config : ServiceConfig σ) : Prop :=
  client.subscription.source = config ∧
    ∃ environment,
      build environment config client.overrideHostIndex = .ok client.state

theorem RawClient.Consistent.runs_iff {client : RawClient σ κ}
    (h : client.Consistent build) :
    client.Runs build config ↔ client.subscription.source = config := by
  constructor
  · exact And.left
  · rintro rfl
    exact ⟨rfl, h.made⟩

def Builds (build : Build ε σ κ) (environment : ε) (config : ServiceConfig σ)
    (uri : Url) (overrideHostIndex : Option Nat) : Prop :=
  ∃ state, build environment (config.forHost uri) overrideHostIndex = .ok state

theorem rawClient_eq_ok {environment : ε × ε} {overrideHostIndex : Option Nat}
    {client : RawClient σ κ}
    (h : rawClient build environment (config.forHost uri) overrideHostIndex =
      .ok client) :
    client.Consistent build ∧ client.serviceConfig = config.forHost uri ∧
      client.overrideHostIndex = overrideHostIndex ∧
      client.subscription.succeeded = true := by
  unfold rawClient at h
  cases hfirst : build environment.1 (config.forHost uri)
      overrideHostIndex with
  | error error =>
      rw [hfirst] at h
      cases h
  | ok state =>
      rw [hfirst] at h
      cases hsecond : Subscription.trySubscribe
          (rebuild build overrideHostIndex environment.2)
          (config.forHost uri) with
      | error error =>
          simp [hsecond, bind, Except.bind] at h
      | ok subscription =>
          simp only [hsecond, bind, Except.bind, pure, Except.pure,
            Except.ok.injEq] at h
          subst h
          obtain ⟨hconsistent, hvalue, hsucceeded⟩ :=
            Subscription.Consistent.trySubscribe hsecond
          exact ⟨hconsistent, hvalue, rfl, hsucceeded⟩

theorem rawClient_ok_iff {environment : ε × ε}
    {overrideHostIndex : Option Nat} :
    (∃ client, rawClient build environment (config.forHost uri)
        overrideHostIndex = .ok client) ↔
      Builds build environment.1 config uri overrideHostIndex ∧
        Builds build environment.2 config uri overrideHostIndex := by
  unfold rawClient Builds Subscription.trySubscribe rebuild
  cases build environment.1 (config.forHost uri) overrideHostIndex <;>
    cases build environment.2 (config.forHost uri) overrideHostIndex <;>
    simp [bind, Except.bind, pure, Except.pure]

/-! ## What a reload starts from -/

/-- The clients that the handles refresh have the last configuration, and
those that are published are of the hosts that they are published for. -/
structure Invariant (build : Build ε σ κ) (perHost : PerHostClients σ κ) :
    Prop where
  fresh : ∀ name client, perHost.store name = some client →
    name < perHost.next
  consistent : ∀ name client, perHost.store name = some client →
    client.Consistent build
  handles : ∀ uri name, perHost.clientHandles.lookup ⟨uri⟩ = some name →
    ∃ client, perHost.store name = some client ∧
      client.serviceConfig = perHost.config.forHost uri
  published : ∀ uri name, perHost.published.lookup ⟨uri⟩ = some name →
    ∃ client, perHost.store name = some client ∧
      client.serviceConfig.uris = [uri]

theorem Invariant.injective (inv : Invariant build perHost) {other : Url}
    {name : Nat} (huri : perHost.clientHandles.lookup ⟨uri⟩ = some name)
    (hother : perHost.clientHandles.lookup ⟨other⟩ = some name) :
    uri = other := by
  obtain ⟨client, hclient, hconfig⟩ := inv.handles uri name huri
  obtain ⟨client', hclient', hconfig'⟩ := inv.handles other name hother
  cases hclient.symm.trans hclient'
  have huris := congrArg ServiceConfig.uris (hconfig.symm.trans hconfig')
  simpa [ServiceConfig.forHost] using huris

theorem Invariant.uri_eq (inv : Invariant build perHost) {other : Url}
    {name : Nat} (huri : perHost.published.lookup ⟨uri⟩ = some name)
    (hother : perHost.clientHandles.lookup ⟨other⟩ = some name) :
    uri = other := by
  obtain ⟨client, hclient, huris⟩ := inv.published uri name huri
  obtain ⟨client', hclient', hconfig⟩ := inv.handles other name hother
  cases hclient.symm.trans hclient'
  rw [hconfig] at huris
  simpa [ServiceConfig.forHost, eq_comm] using huris

section

variable [DecidableEq σ] {refreshable : Refreshable}

def Answers (build : Build ε σ κ) (refreshable : Refreshable)
    (environment : ε × ε) (perHost : PerHostClients σ κ)
    (config : ServiceConfig σ) (uri : Url) (before : List Url) : Prop :=
  match if uri ∈ before then none else perHost.clientHandles.lookup ⟨uri⟩ with
  | none => Builds build environment.1 config uri (some before.length) ∧
      Builds build environment.2 config uri (some before.length)
  | some name => ∀ client, perHost.store name = some client →
      client.subscription.runs refreshable (config.forHost uri) = true →
      Builds build environment.1 config uri client.overrideHostIndex

def Succeeds (build : Build ε σ κ) (refreshable : Refreshable)
    (environment : Nat → ε × ε) (perHost : PerHostClients σ κ)
    (config : ServiceConfig σ) (visited : List Url) : Prop :=
  ∀ uri, AtEach (· = uri) (fun before => Answers build refreshable
    (environment before.length) perHost config uri before) visited

theorem succeeds_append {environment : Nat → ε × ε} :
    Succeeds build refreshable environment perHost config
        (visited ++ [uri]) ↔
      Succeeds build refreshable environment perHost config visited ∧
        Answers build refreshable (environment visited.length) perHost config
          uri visited := by
  constructor
  · intro h
    exact ⟨fun other => (atEach_append.mp (h other)).1,
      (atEach_append.mp (h uri)).2 rfl⟩
  · rintro ⟨hbefore, hlast⟩ other
    refine atEach_append.mpr ⟨hbefore other, ?_⟩
    rintro rfl
    exact hlast

theorem RawClient.Consistent.refresh {client : RawClient σ κ}
    (h : client.Consistent build) (refreshable : Refreshable)
    (environment : ε) (config : ServiceConfig σ) :
    (client.refresh build refreshable environment config).2.Consistent
      build :=
  Subscription.Consistent.refresh refreshable environment h config

theorem RawClient.Consistent.refresh_runs {client : RawClient σ κ}
    (h : client.Consistent build) (refreshable : Refreshable)
    {environment : ε}
    (hbuilds : Builds build environment config uri
      client.overrideHostIndex) :
    (client.refresh build refreshable environment
      (config.forHost uri)).2.Runs build (config.forHost uri) :=
  (h.refresh refreshable environment _).runs_iff.mpr
    (Subscription.Consistent.refresh_source refreshable h hbuilds)

/-! ## The loop over the URIs -/

structure Visited (build : Build ε σ κ) (refreshable : Refreshable)
    (environment : Nat → ε × ε) (perHost : PerHostClients σ κ)
    (config : ServiceConfig σ) (visited : List Url) (reload : Reload σ κ) :
    Prop where
  left : ∀ uri, reload.clientHandles.lookup ⟨uri⟩ =
    if uri ∈ visited then none else perHost.clientHandles.lookup ⟨uri⟩
  clients : reload.clients = reload.newClientHandles
  next : perHost.next ≤ reload.next
  fresh : ∀ name client, reload.store name = some client →
    name < reload.next
  consistent : ∀ name client, reload.store name = some client →
    client.Consistent build
  handles : ∀ uri name, reload.newClientHandles.lookup ⟨uri⟩ = some name →
    uri ∈ visited ∧ ∃ client, reload.store name = some client ∧
      client.serviceConfig = config.forHost uri
  untouched : ∀ name < perHost.next,
    (∀ uri ∈ visited, perHost.clientHandles.lookup ⟨uri⟩ ≠ some name) →
    reload.store name = perHost.store name
  refreshed : ∀ uri ∈ visited, ∀ name client,
    perHost.clientHandles.lookup ⟨uri⟩ = some name →
    perHost.store name = some client →
    reload.store name = some (client.refresh build refreshable
      (environment (visited.idxOf uri)).1 (config.forHost uri)).2
  kept : visited.Nodup → ∀ uri ∈ visited, ∀ name,
    perHost.clientHandles.lookup ⟨uri⟩ = some name →
    reload.newClientHandles.lookup ⟨uri⟩ = some name
  errors : reload.errors = [] ↔
    Succeeds build refreshable environment perHost config visited
  succeeded : reload.errors = [] → ∀ uri ∈ visited,
    ∃ name client, reload.newClientHandles.lookup ⟨uri⟩ = some name ∧
      reload.store name = some client ∧
      client.subscription.succeeded = true

theorem lookup_insert_iff {clients : Clients} {host other : Host}
    {name found : Nat} :
    (clients.insert host name).lookup other = some found ↔
      (other = host ∧ found = name) ∨
        (other ≠ host ∧ clients.lookup other = some found) := by
  by_cases h : other = host
  · subst h
    rw [AList.lookup_insert]
    simp [eq_comm]
  · rw [AList.lookup_insert_ne h]
    simp [h]

theorem Visited.start {environment : Nat → ε × ε}
    (inv : Invariant build perHost) :
    Visited build refreshable environment perHost config []
      { store := perHost.store
        next := perHost.next
        clientHandles := perHost.clientHandles
        newClientHandles := ∅
        clients := ∅
        errors := [] } where
  left := by simp
  clients := rfl
  next := Nat.le_refl _
  fresh := inv.fresh
  consistent := inv.consistent
  handles := by simp
  untouched := by simp
  refreshed := by simp
  kept := by simp
  errors := by simp [Succeeds]
  succeeded := by simp

theorem not_nodup_append (h : uri ∈ visited) :
    ¬ (visited ++ [uri]).Nodup := fun hnodup =>
  (List.nodup_append.mp hnodup).2.2 uri h uri (by simp) rfl

/-! ## The three outcomes of a listing -/

variable {environment : Nat → ε × ε}

theorem Visited.first
    (hvisited : Visited build refreshable environment perHost config visited
      reload) {name : Nat}
    (hhandle : reload.clientHandles.lookup ⟨uri⟩ = some name) :
    uri ∉ visited ∧ perHost.clientHandles.lookup ⟨uri⟩ = some name := by
  have hleft := hvisited.left uri
  rw [hhandle] at hleft
  split at hleft
  · cases hleft
  · rename_i huri
    exact ⟨huri, hleft.symm⟩

theorem Visited.again
    (hvisited : Visited build refreshable environment perHost config visited
      reload) {name : Nat}
    (hhandle : reload.clientHandles.lookup ⟨uri⟩ = none)
    (hold : perHost.clientHandles.lookup ⟨uri⟩ = some name) :
    uri ∈ visited := by
  by_contra huri
  rw [hvisited.left uri, if_neg huri, hold] at hhandle
  cases hhandle

theorem Visited.waiting (inv : Invariant build perHost)
    (hvisited : Visited build refreshable environment perHost config visited
      reload) {name : Nat}
    (hhandle : reload.clientHandles.lookup ⟨uri⟩ = some name) :
    reload.store name = perHost.store name := by
  obtain ⟨huri, hold⟩ := hvisited.first hhandle
  obtain ⟨client, hclient, -⟩ := inv.handles uri name hold
  refine hvisited.untouched name (inv.fresh name client hclient) ?_
  rintro other hmem hother
  exact huri (inv.injective hold hother ▸ hmem)

theorem Visited.left_append
    (hvisited : Visited build refreshable environment perHost config visited
      reload)
    (hhandle : reload.clientHandles.lookup ⟨uri⟩ = none) (other : Url) :
    reload.clientHandles.lookup ⟨other⟩ =
      if other ∈ visited ++ [uri] then none
      else perHost.clientHandles.lookup ⟨other⟩ := by
  by_cases hne : other = uri
  · subst hne
    simpa using hhandle
  · rw [hvisited.left other]
    simp [hne]

theorem Visited.refreshed_append
    (hvisited : Visited build refreshable environment perHost config visited
      reload)
    (hhandle : reload.clientHandles.lookup ⟨uri⟩ = none)
    {other : Url} (hmem : other ∈ visited ++ [uri]) {name : Nat}
    {client : RawClient σ κ}
    (hold : perHost.clientHandles.lookup ⟨other⟩ = some name)
    (hclient : perHost.store name = some client) :
    reload.store name = some (client.refresh build refreshable
      (environment ((visited ++ [uri]).idxOf other)).1
      (config.forHost other)).2 := by
  have hbefore : other ∈ visited := by
    by_cases hne : other = uri
    · subst hne
      exact hvisited.again hhandle hold
    · simpa [hne] using hmem
  rw [List.idxOf_append_of_mem hbefore]
  exact hvisited.refreshed other hbefore name client hold hclient

theorem Visited.inserted
    (hvisited : Visited build refreshable environment perHost config visited
      reload)
    {name next : Nat} {client : RawClient σ κ} {handles : Clients}
    {errors : List Error}
    (hleft : ∀ other, handles.lookup ⟨other⟩ =
      if other ∈ visited ++ [uri] then none
      else perHost.clientHandles.lookup ⟨other⟩)
    (hnext : reload.next ≤ next) (hname : name < next)
    (hconsistent : client.Consistent build)
    (hconfig : client.serviceConfig = config.forHost uri)
    (hother : ∀ other found, other ≠ uri →
      reload.newClientHandles.lookup ⟨other⟩ = some found → found ≠ name)
    (huntouched : ∀ found < perHost.next,
      (∀ other ∈ visited ++ [uri],
        perHost.clientHandles.lookup ⟨other⟩ ≠ some found) → found ≠ name)
    (hrefreshed : ∀ other ∈ visited ++ [uri], ∀ found before,
      perHost.clientHandles.lookup ⟨other⟩ = some found →
      perHost.store found = some before →
      Function.update reload.store name (some client) found =
        some (before.refresh build refreshable
          (environment ((visited ++ [uri]).idxOf other)).1
          (config.forHost other)).2)
    (hkept : (visited ++ [uri]).Nodup → ∀ found,
      perHost.clientHandles.lookup ⟨uri⟩ = some found → found = name)
    (herrors : errors = [] ↔
      Succeeds build refreshable environment perHost config
        (visited ++ [uri]))
    (hsucceeded : errors = [] →
      reload.errors = [] ∧ client.subscription.succeeded = true) :
    Visited build refreshable environment perHost config (visited ++ [uri])
      { store := Function.update reload.store name (some client)
        next := next
        clientHandles := handles
        newClientHandles := reload.newClientHandles.insert ⟨uri⟩ name
        clients := reload.clients.insert ⟨uri⟩ name
        errors := errors } where
  left := hleft
  clients := by rw [hvisited.clients]
  next := Nat.le_trans hvisited.next hnext
  fresh := by
    intro found other hfound
    by_cases hne : found = name
    · exact hne ▸ hname
    · simp only [Function.update_of_ne hne] at hfound
      exact Nat.lt_of_lt_of_le (hvisited.fresh found other hfound) hnext
  consistent := by
    intro found other hfound
    by_cases hne : found = name
    · subst hne
      simp only [Function.update_self, Option.some.injEq] at hfound
      exact hfound ▸ hconsistent
    · simp only [Function.update_of_ne hne] at hfound
      exact hvisited.consistent found other hfound
  handles := by
    intro other found hfound
    rcases lookup_insert_iff.mp hfound with ⟨heq, rfl⟩ | ⟨hne, hfound⟩
    · cases heq
      exact ⟨by simp, client, Function.update_self .., hconfig⟩
    · have hapart := hother other found (by simpa using hne) hfound
      obtain ⟨hmem, hclient⟩ := hvisited.handles other found hfound
      simp only [Function.update_of_ne hapart]
      exact ⟨List.mem_append_left _ hmem, hclient⟩
  untouched := by
    intro found hlt hnot
    simp only [Function.update_of_ne (huntouched found hlt hnot)]
    exact hvisited.untouched found hlt
      fun other hmem => hnot other (List.mem_append_left _ hmem)
  refreshed := hrefreshed
  kept := by
    intro hnodup other hmem found hfound
    by_cases hne : other = uri
    · subst hne
      rw [hkept hnodup found hfound, AList.lookup_insert]
    · rw [AList.lookup_insert_ne (by simpa using hne)]
      exact hvisited.kept (List.nodup_append.mp hnodup).1 other
        (by simpa [hne] using hmem) found hfound
  errors := herrors
  succeeded := by
    intro hnone other hmem
    obtain ⟨hbefore, hclient⟩ := hsucceeded hnone
    by_cases hne : other = uri
    · subst hne
      exact ⟨name, client, AList.lookup_insert _, Function.update_self ..,
        hclient⟩
    · obtain ⟨found, before, hfound, hstore, hgood⟩ :=
        hvisited.succeeded hbefore other (by simpa [hne] using hmem)
      refine ⟨found, before, ?_, ?_, hgood⟩
      · rwa [AList.lookup_insert_ne (by simpa using hne)]
      · simpa only [Function.update_of_ne (hother other found hne hfound)]

theorem Visited.first_listing (inv : Invariant build perHost)
    (hvisited : Visited build refreshable environment perHost config visited
      reload) {name : Nat} {client : RawClient σ κ}
    (hhandle : reload.clientHandles.lookup ⟨uri⟩ = some name)
    (hclient : reload.store name = some client) :
    Visited build refreshable environment perHost config (visited ++ [uri])
      { store := Function.update reload.store name
          (some (client.refresh build refreshable
            (environment visited.length).1 (config.forHost uri)).2)
        next := reload.next
        clientHandles := reload.clientHandles.erase ⟨uri⟩
        newClientHandles := reload.newClientHandles.insert ⟨uri⟩ name
        clients := reload.clients.insert ⟨uri⟩ name
        errors := reload.errors ++ (client.refresh build refreshable
          (environment visited.length).1 (config.forHost uri)).1 } := by
  obtain ⟨huri, hold⟩ := hvisited.first hhandle
  have hstore : perHost.store name = some client := by
    rw [← hvisited.waiting inv hhandle, hclient]
  have hindex : (visited ++ [uri]).idxOf uri = visited.length := by
    rw [List.idxOf_append_of_notMem huri, List.idxOf_cons_self]
    rfl
  obtain ⟨client', hclient', hlast⟩ := inv.handles uri name hold
  cases hclient'.symm.trans hstore
  have hconsistent := hvisited.consistent name client hclient
  refine hvisited.inserted (fun other => ?_) (Nat.le_refl _)
    (hvisited.fresh name client hclient)
    (hconsistent.refresh refreshable _ _) Subscription.refresh_value
    (fun other found hne hfound => ?_) (fun found hlt hnot => ?_)
    (fun other hmem found before hfound hbefore => ?_)
    (fun _ found hfound => Option.some.inj (hfound.symm.trans hold)) ?_
    fun h => ?_
  · by_cases hne : other = uri
    · subst hne
      simp
    · rw [AList.lookup_erase_ne (by simpa using hne), hvisited.left other]
      simp [hne]
  · rintro rfl
    obtain ⟨-, client', hclient', hconfig⟩ :=
      hvisited.handles other found hfound
    cases hclient'.symm.trans hclient
    have huris := congrArg ServiceConfig.uris (hconfig.symm.trans hlast)
    exact hne (by simpa [ServiceConfig.forHost] using huris)
  · rintro rfl
    exact hnot uri (by simp) hold
  · by_cases hne : other = uri
    · subst hne
      cases hold.symm.trans hfound
      cases hstore.symm.trans hbefore
      rw [Function.update_self, hindex]
    · have hmem : other ∈ visited := by simpa [hne] using hmem
      have hapart : found ≠ name := by
        rintro rfl
        exact hne (inv.injective hfound hold)
      rw [Function.update_of_ne hapart, List.idxOf_append_of_mem hmem]
      exact hvisited.refreshed other hmem found before hfound hbefore
  · rw [List.append_eq_nil_iff, succeeds_append, hvisited.errors]
    refine and_congr_right fun _ => ?_
    simp only [Answers, if_neg huri, hold, hstore, Option.some.injEq,
      forall_eq']
    exact Subscription.refresh_errors
  · obtain ⟨hbefore, hrefresh⟩ := List.append_eq_nil_iff.mp h
    exact ⟨hbefore, Subscription.refresh_succeeded.mpr hrefresh⟩

theorem answers_of_no_handle
    (hvisited : Visited build refreshable environment perHost config visited
      reload)
    (hhandle : reload.clientHandles.lookup ⟨uri⟩ = none) :
    Answers build refreshable (environment visited.length) perHost config uri
        visited ↔
      ∃ client, rawClient build (environment visited.length)
        (config.forHost uri) (some visited.length) = .ok client := by
  rw [hvisited.left uri] at hhandle
  rw [Answers, hhandle, rawClient_ok_iff]

theorem Visited.built (inv : Invariant build perHost)
    (hvisited : Visited build refreshable environment perHost config visited
      reload) {client : RawClient σ κ}
    (hhandle : reload.clientHandles.lookup ⟨uri⟩ = none)
    (hclient : rawClient build (environment visited.length)
      (config.forHost uri) (some visited.length) = .ok client) :
    Visited build refreshable environment perHost config (visited ++ [uri])
      { store := Function.update reload.store reload.next (some client)
        next := reload.next + 1
        clientHandles := reload.clientHandles
        newClientHandles :=
          reload.newClientHandles.insert ⟨uri⟩ reload.next
        clients := reload.clients.insert ⟨uri⟩ reload.next
        errors := reload.errors } := by
  obtain ⟨hconsistent, hconfig, -, hsucceeded⟩ := rawClient_eq_ok hclient
  have hnew : ∀ found < perHost.next, found ≠ reload.next := by
    intro found hlt
    have := hvisited.next
    omega
  refine hvisited.inserted (hvisited.left_append hhandle) (Nat.le_succ _)
    (Nat.lt_succ_self _) hconsistent hconfig
    (fun other found _ hfound => ?_) (fun found hlt _ => hnew found hlt)
    (fun other hmem found before hfound hbefore => ?_)
    (fun hnodup found hfound => ?_) ?_ fun h => ⟨h, hsucceeded⟩
  · obtain ⟨-, client', hclient', -⟩ := hvisited.handles other found hfound
    exact Nat.ne_of_lt (hvisited.fresh found client' hclient')
  · rw [Function.update_of_ne (hnew found (inv.fresh found before hbefore))]
    exact hvisited.refreshed_append hhandle hmem hfound hbefore
  · exact absurd hnodup (not_nodup_append (hvisited.again hhandle hfound))
  · rw [succeeds_append, hvisited.errors,
      answers_of_no_handle hvisited hhandle]
    simp [hclient]

theorem Visited.skipped
    (hvisited : Visited build refreshable environment perHost config visited
      reload) {error : Error}
    (hhandle : reload.clientHandles.lookup ⟨uri⟩ = none)
    (hclient : rawClient build (environment visited.length)
      (config.forHost uri) (some visited.length) = .error error) :
    Visited build refreshable environment perHost config (visited ++ [uri])
      { reload with errors := reload.errors ++ [error] } where
  left := hvisited.left_append hhandle
  clients := hvisited.clients
  next := hvisited.next
  fresh := hvisited.fresh
  consistent := hvisited.consistent
  handles other found hfound := by
    obtain ⟨hmem, hstore⟩ := hvisited.handles other found hfound
    exact ⟨List.mem_append_left _ hmem, hstore⟩
  untouched found hlt hnot := hvisited.untouched found hlt
    fun other hmem => hnot other (List.mem_append_left _ hmem)
  refreshed other hmem found before :=
    hvisited.refreshed_append hhandle hmem
  kept hnodup other hmem found hfound := by
    have hne : other ≠ uri := by
      rintro rfl
      exact not_nodup_append (hvisited.again hhandle hfound) hnodup
    exact hvisited.kept (List.nodup_append.mp hnodup).1 other
      (by simpa [hne] using hmem) found hfound
  errors := by
    rw [succeeds_append, answers_of_no_handle hvisited hhandle]
    simp [hclient]
  succeeded := by simp

/-! ## The whole loop -/

theorem visit_visited (inv : Invariant build perHost) (uri : Url)
    (hvisited : Visited build refreshable environment perHost config visited
      reload) :
    Visited build refreshable environment perHost config (visited ++ [uri])
      (visit build refreshable (environment visited.length) config
        visited.length uri reload) := by
  unfold visit
  split
  · rename_i name hhandle
    split
    · rename_i client hclient
      exact hvisited.first_listing inv hhandle hclient
    · rename_i hclient
      obtain ⟨-, hold⟩ := hvisited.first hhandle
      obtain ⟨client, hstore, -⟩ := inv.handles uri name hold
      rw [← hvisited.waiting inv hhandle, hclient] at hstore
      cases hstore
  · rename_i hhandle
    split
    · rename_i client hclient
      exact hvisited.built inv hhandle hclient
    · rename_i error hclient
      exact hvisited.skipped hhandle hclient

theorem visitAll_visited (inv : Invariant build perHost) {uris : List Url}
    (hvisited : Visited build refreshable environment perHost config visited
      reload) :
    Visited build refreshable environment perHost config (visited ++ uris)
      (visitAll build refreshable environment config visited.length uris
        reload) := by
  induction uris generalizing visited reload with
  | nil => simpa [visitAll] using hvisited
  | cons uri uris ih =>
      have h := ih (visit_visited inv uri hvisited)
      rw [List.append_assoc] at h
      simpa [visitAll] using h

theorem reload_visited (refreshable : Refreshable)
    (inv : Invariant build perHost) (environment : Nat → ε × ε)
    (config : ServiceConfig σ) :
    Visited build refreshable environment perHost config config.uris
      (perHost.reload build refreshable environment config) :=
  visitAll_visited inv (.start inv)

theorem Visited.hosts
    (hvisited : Visited build refreshable environment perHost config visited
      reload)
    (hnone : reload.errors = []) (uri : Url) :
    ⟨uri⟩ ∈ reload.newClientHandles ↔ uri ∈ visited := by
  rw [← AList.lookup_isSome, Option.isSome_iff_exists]
  constructor
  · rintro ⟨name, hname⟩
    exact (hvisited.handles uri name hname).1
  · intro hmem
    obtain ⟨name, client, hname, -⟩ := hvisited.succeeded hnone uri hmem
    exact ⟨name, hname⟩

theorem Visited.runs
    (hvisited : Visited build refreshable environment perHost config visited
      reload)
    (hnone : reload.errors = []) {name : Nat}
    (hname : reload.newClientHandles.lookup ⟨uri⟩ = some name) :
    ∃ client, reload.store name = some client ∧
      client.subscription.succeeded = true ∧
      client.Runs build (config.forHost uri) := by
  obtain ⟨hmem, client, hclient, hconfig⟩ := hvisited.handles uri name hname
  obtain ⟨name', client', hname', hclient', hsucceeded⟩ :=
    hvisited.succeeded hnone uri hmem
  cases hname.symm.trans hname'
  cases hclient.symm.trans hclient'
  have hconsistent := hvisited.consistent name client hclient
  refine ⟨client, hclient, hsucceeded, hconsistent.runs_iff.mpr ?_⟩
  exact (hconsistent.source hsucceeded).trans hconfig

end

end ConjureRuntime.Client
