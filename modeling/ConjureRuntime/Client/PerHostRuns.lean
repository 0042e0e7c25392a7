import ConjureRuntime.Client.Reload
import ConjureRuntime.Foundation.Transition

/-!
# Published clients

What is published should be what the closure holds the handles of.  A reload
that publishes its clients makes it so; one that does not, because a state
cannot be built or because the hosts are the same, has replaced the handles
all the same, and a published client whose handle is gone is refreshed no
more.
-/

namespace ConjureRuntime.Client

open ConjureRuntime.Foundation ConjureRuntime.Service

variable {ε σ κ : Type} {build : Build ε σ κ}
  {perHost perHost' : PerHostClients σ κ} {config : ServiceConfig σ}
  {environment : Nat → ε × ε}

/-- A client of this index builds its state where its host is first listed. -/
def BuildsAtListing (build : Build ε σ κ) (environment : Nat → ε × ε)
    (config : ServiceConfig σ) (uri : Url) (overrideHostIndex : Option Nat) :
    Prop :=
  Builds build (environment (config.uris.idxOf uri)).1 config uri
    overrideHostIndex

/-- Every published client whose host is in the configuration, and whose state
can be built from it, runs the state built from it. -/
def Current (build : Build ε σ κ) (environment : Nat → ε × ε)
    (perHost : PerHostClients σ κ) : Prop :=
  ∀ uri name, perHost.published.lookup ⟨uri⟩ = some name →
    uri ∈ perHost.config.uris →
    ∃ client, perHost.store name = some client ∧
      (BuildsAtListing build environment perHost.config uri
          client.overrideHostIndex →
        client.Runs build (perHost.config.forHost uri))

def Attached (perHost : PerHostClients σ κ) : Prop :=
  ∀ uri name, perHost.published.lookup ⟨uri⟩ = some name →
    perHost.clientHandles.lookup ⟨uri⟩ = some name

/-! ## The equality of published clients -/

theorem sameHosts_iff {clients others : Clients} :
    sameHosts clients others = true ↔
      ∀ host, host ∈ clients ↔ host ∈ others := by
  unfold sameHosts
  simp only [Bool.and_eq_true, decide_eq_true_eq, List.all_eq_true,
    AList.mem_keys]
  constructor
  · rintro ⟨hlength, hsubset⟩ host
    have hperm := (List.subperm_of_subset clients.keys_nodup
      hsubset).perm_of_length_le (Nat.le_of_eq hlength.symm)
    exact hperm.mem_iff
  · intro h
    have hperm := (List.perm_ext_iff_of_nodup clients.keys_nodup
      others.keys_nodup).mpr h
    exact ⟨hperm.length_eq, fun host hmem => (h host).mp hmem⟩

section

variable [DecidableEq σ] {refreshable : Refreshable}

/-- The push calls the closure, all states can be built, and the clients take
the place of the published ones. -/
def Publishes (build : Build ε σ κ) (refreshable : Refreshable)
    (environment : Nat → ε × ε) (perHost : PerHostClients σ κ)
    (config : ServiceConfig σ) : Prop :=
  perHost.runs refreshable config = true ∧
    Succeeds build refreshable environment perHost config config.uris ∧
    (refreshable.stores true = true ∨
      ¬ ∀ uri, ⟨uri⟩ ∈ perHost.published ↔ uri ∈ config.uris)

/-- The push publishes its clients; or every published client that can follow
it has its handle among those that the push refreshes, or has been built from
the same configuration before. -/
def Conforms (build : Build ε σ κ) (refreshable : Refreshable)
    (environment : Nat → ε × ε) (perHost : PerHostClients σ κ)
    (config : ServiceConfig σ) : Prop :=
  Publishes build refreshable environment perHost config ∨
  ∀ uri name client, perHost.published.lookup ⟨uri⟩ = some name →
    perHost.store name = some client → uri ∈ config.uris →
    BuildsAtListing build environment config uri client.overrideHostIndex →
    (perHost.runs refreshable config = true ∧
      perHost.clientHandles.lookup ⟨uri⟩ = some name) ∨
    client.Runs build (config.forHost uri)

/-! ## One push -/

theorem config_of_not_runs
    (h : ¬ perHost.runs refreshable config = true) :
    perHost.config = config :=
  of_decide_eq_true (Refreshable.eq_of_not_runs h).1

theorem push_of_not_runs
    (h : ¬ perHost.runs refreshable config = true) :
    perHost.push build refreshable environment config = perHost := by
  rw [PerHostClients.push, if_neg h, ← config_of_not_runs h]

@[simp] theorem push_config :
    (perHost.push build refreshable environment config).config = config := by
  unfold PerHostClients.push
  split <;> rfl

theorem reload_hosts (inv : Invariant build perHost)
    (hsucceeds : Succeeds build refreshable environment perHost config
      config.uris) (uri : Url) :
    ⟨uri⟩ ∈ (perHost.reload build refreshable environment config).clients ↔
      uri ∈ config.uris := by
  have hvisited := reload_visited refreshable inv environment config
  rw [hvisited.clients]
  exact hvisited.hosts (hvisited.errors.mpr hsucceeds) uri

theorem publishes_iff (environment : Nat → ε × ε)
    (inv : Invariant build perHost)
    (hruns : perHost.runs refreshable config = true) :
    ((perHost.reload build refreshable environment config).errors.isEmpty ∧
      refreshable.stores (sameHosts perHost.published
        (perHost.reload build refreshable environment config).clients) =
          true) ↔
      Publishes build refreshable environment perHost config := by
  rw [Publishes, List.isEmpty_iff,
    (reload_visited refreshable inv environment config).errors]
  simp only [hruns, true_and]
  refine and_congr_right fun hsucceeds => ?_
  have hsame : sameHosts perHost.published
      (perHost.reload build refreshable environment config).clients = true ↔
      ∀ uri, ⟨uri⟩ ∈ perHost.published ↔ uri ∈ config.uris := by
    rw [sameHosts_iff]
    constructor
    · intro h uri
      rw [h, reload_hosts inv hsucceeds]
    · rintro h ⟨uri⟩
      rw [h, reload_hosts inv hsucceeds]
  rw [← hsame]
  cases hstores : sameHosts perHost.published
      (perHost.reload build refreshable environment config).clients with
  | true => simp
  | false => simp [refreshable.stores_changed]

theorem push_runs (environment : Nat → ε × ε)
    (inv : Invariant build perHost)
    (hruns : perHost.runs refreshable config = true) :
    ∃ reload, Visited build refreshable environment perHost config
        config.uris reload ∧
      (perHost.push build refreshable environment config).store =
        reload.store ∧
      (perHost.push build refreshable environment config).next =
        reload.next ∧
      (perHost.push build refreshable environment config).clientHandles =
        reload.newClientHandles ∧
      (Publishes build refreshable environment perHost config ∧
          (perHost.push build refreshable environment config).published =
            reload.newClientHandles ∨
        ¬ Publishes build refreshable environment perHost config ∧
          (perHost.push build refreshable environment config).published =
            perHost.published) := by
  have hvisited := reload_visited refreshable inv environment config
  have hpublishes := publishes_iff environment inv hruns
  refine ⟨_, hvisited, ?_⟩
  rw [PerHostClients.push, if_pos hruns]
  refine ⟨rfl, rfl, rfl, ?_⟩
  by_cases h : Publishes build refreshable environment perHost config
  · refine .inl ⟨h, ?_⟩
    rw [← hvisited.clients]
    exact if_pos (hpublishes.mpr h)
  · exact .inr ⟨h, if_neg fun h' => h (hpublishes.mp h')⟩

theorem push_published (inv : Invariant build perHost)
    (h : ¬ Publishes build refreshable environment perHost config) :
    (perHost.push build refreshable environment config).published =
      perHost.published := by
  by_cases hruns : perHost.runs refreshable config = true
  · obtain ⟨reload, -, -, -, -, ⟨hpublishes, -⟩ | ⟨-, hpublished⟩⟩ :=
      push_runs environment inv hruns
    · exact absurd hpublishes h
    · exact hpublished
  · rw [push_of_not_runs hruns]

theorem push_client (inv : Invariant build perHost) {uri : Url} {name : Nat}
    {client : RawClient σ κ}
    (hpublished : perHost.published.lookup ⟨uri⟩ = some name)
    (hclient : perHost.store name = some client)
    (huri : uri ∈ config.uris) :
    ∃ client',
      (perHost.push build refreshable environment config).store name =
        some client' ∧
      client'.overrideHostIndex = client.overrideHostIndex ∧
      (BuildsAtListing build environment config uri
          client.overrideHostIndex →
        (client'.Runs build (config.forHost uri) ↔
          (perHost.runs refreshable config = true ∧
            perHost.clientHandles.lookup ⟨uri⟩ = some name) ∨
          client.Runs build (config.forHost uri))) := by
  have hconsistent := inv.consistent name client hclient
  by_cases hruns : perHost.runs refreshable config = true
  · obtain ⟨reload, hvisited, hstore, -⟩ :=
      push_runs environment inv hruns
    rw [hstore]
    by_cases hhandle : perHost.clientHandles.lookup ⟨uri⟩ = some name
    · refine ⟨_, hvisited.refreshed uri huri name client hhandle hclient,
        rfl, fun hbuilds => ?_⟩
      have hrefreshed := hconsistent.refresh_runs refreshable hbuilds
      exact iff_of_true hrefreshed (.inl ⟨hruns, hhandle⟩)
    · have huntouched : reload.store name = perHost.store name := by
        refine hvisited.untouched name (inv.fresh name client hclient) ?_
        rintro other - hother
        exact hhandle (inv.uri_eq hpublished hother ▸ hother)
      rw [huntouched]
      exact ⟨client, hclient, rfl, fun _ => by simp [hhandle]⟩
  · rw [push_of_not_runs hruns]
    exact ⟨client, hclient, rfl, fun _ => by simp [hruns]⟩

/-- What a push publishes is current if and only if the push conforms. -/
theorem push_current_iff (inv : Invariant build perHost) :
    Current build environment
        (perHost.push build refreshable environment config) ↔
      Conforms build refreshable environment perHost config := by
  rw [Current, push_config]
  by_cases hpublishes :
      Publishes build refreshable environment perHost config
  · refine iff_of_true (fun uri name hname huri => ?_) (.inl hpublishes)
    obtain ⟨reload, hvisited, hstore, -, -, hpublished⟩ :=
      push_runs environment inv hpublishes.1
    have hpublished : (perHost.push build refreshable environment
        config).published = reload.newClientHandles := by
      rcases hpublished with ⟨-, h⟩ | ⟨h, -⟩
      · exact h
      · exact absurd hpublishes h
    rw [hpublished] at hname
    rw [hstore]
    obtain ⟨client, hclient, -, hruns⟩ :=
      hvisited.runs (hvisited.errors.mpr hpublishes.2.1) hname
    exact ⟨client, hclient, fun _ => hruns⟩
  · rw [Conforms, or_iff_right hpublishes, push_published inv hpublishes]
    constructor
    · intro hcurrent uri name client hname hclient huri hbuilds
      obtain ⟨client', hclient', hindex, hruns⟩ :=
        push_client inv hname hclient huri
      obtain ⟨client'', hclient'', hcurrent⟩ := hcurrent uri name hname huri
      cases hclient'.symm.trans hclient''
      rw [hindex] at hcurrent
      exact (hruns hbuilds).mp (hcurrent hbuilds)
    · intro hconforms uri name hname huri
      obtain ⟨client, hclient, -⟩ := inv.published uri name hname
      obtain ⟨client', hclient', hindex, hruns⟩ :=
        push_client inv hname hclient huri
      refine ⟨client', hclient', fun hbuilds => ?_⟩
      rw [hindex] at hbuilds
      exact (hruns hbuilds).mpr
        (hconforms uri name client hname hclient huri hbuilds)

theorem push_invariant (inv : Invariant build perHost) :
    Invariant build
      (perHost.push build refreshable environment config) := by
  by_cases hruns : perHost.runs refreshable config = true
  · obtain ⟨reload, hvisited, hstore, hnext, hhandles, hpublished⟩ :=
      push_runs environment inv hruns
    have hfollows : ∀ uri name,
        reload.newClientHandles.lookup ⟨uri⟩ = some name →
        ∃ client, reload.store name = some client ∧
          client.serviceConfig = config.forHost uri :=
      fun uri name hname => (hvisited.handles uri name hname).2
    refine ⟨?_, ?_, ?_, ?_⟩
    · rw [hstore, hnext]
      exact hvisited.fresh
    · rw [hstore]
      exact hvisited.consistent
    · rw [hstore, hhandles, push_config]
      exact hfollows
    · rw [hstore]
      intro uri name hname
      rcases hpublished with ⟨-, hpublished⟩ | ⟨-, hpublished⟩ <;>
        rw [hpublished] at hname
      · obtain ⟨client, hclient, hconfig⟩ := hfollows uri name hname
        exact ⟨client, hclient, by rw [hconfig]; rfl⟩
      · obtain ⟨client, hclient, huris⟩ := inv.published uri name hname
        by_cases hhandle : ∃ other ∈ config.uris,
            perHost.clientHandles.lookup ⟨other⟩ = some name
        · obtain ⟨other, hmem, hother⟩ := hhandle
          cases inv.uri_eq hname hother
          refine ⟨_, hvisited.refreshed uri hmem name client hother hclient,
            ?_⟩
          exact congrArg ServiceConfig.uris Subscription.refresh_value
        · refine ⟨client, ?_, huris⟩
          rw [← hclient]
          refine hvisited.untouched name (inv.fresh name client hclient) ?_
          exact fun other hmem hother => hhandle ⟨other, hmem, hother⟩
  · rw [push_of_not_runs hruns]
    exact inv

/-- A push that publishes, or lists every published host and none twice,
detaches no client. -/
theorem push_attached (inv : Invariant build perHost)
    (attached : Attached perHost)
    (h : Publishes build refreshable environment perHost config ∨
      config.uris.Nodup ∧
        ∀ uri, ⟨uri⟩ ∈ perHost.published → uri ∈ config.uris) :
    Attached (perHost.push build refreshable environment config) := by
  by_cases hruns : perHost.runs refreshable config = true
  · obtain ⟨reload, hvisited, -, -, hhandles, ⟨-, hpublished⟩ |
      ⟨hnot, hpublished⟩⟩ := push_runs environment inv hruns
    · intro uri name hname
      rwa [hhandles, ← hpublished]
    · obtain ⟨hnodup, hlisted⟩ := or_iff_right hnot |>.mp h
      intro uri name hname
      rw [hpublished] at hname
      rw [hhandles]
      refine hvisited.kept hnodup uri (hlisted uri ?_) name
        (attached uri name hname)
      exact AList.lookup_isSome.mp (Option.isSome_iff_exists.mpr ⟨name, hname⟩)
  · rw [push_of_not_runs hruns]
    exact attached

theorem Attached.conforms (attached : Attached perHost)
    (hruns : perHost.runs refreshable config = true) :
    Conforms build refreshable environment perHost config :=
  .inr fun uri name _ hname _ _ _ => .inl ⟨hruns, attached uri name hname⟩

/-! ## Runs -/

structure Update (ε σ : Type) where
  config : ServiceConfig σ
  environment : Nat → ε × ε

def Push (build : Build ε σ κ) (refreshable : Refreshable)
    (perHost : PerHostClients σ κ) (update : Update ε σ)
    (perHost' : PerHostClients σ κ) : Prop :=
  perHost' = perHost.push build refreshable update.environment update.config

def CurrentPush (build : Build ε σ κ) (refreshable : Refreshable)
    (perHost : PerHostClients σ κ) (update : Update ε σ)
    (perHost' : PerHostClients σ κ) : Prop :=
  Push build refreshable perHost update perHost' ∧
    Current build update.environment perHost'

def ConformingPush (build : Build ε σ κ) (refreshable : Refreshable)
    (perHost : PerHostClients σ κ) (update : Update ε σ)
    (perHost' : PerHostClients σ κ) : Prop :=
  Push build refreshable perHost update perHost' ∧
    Conforms build refreshable update.environment perHost update.config

theorem start_attached
    (hstart : perHostClientsInner build refreshable environment config =
      .ok perHost) :
    Invariant build perHost ∧ Attached perHost ∧
      (∀ uri, ⟨uri⟩ ∈ perHost.published ↔ uri ∈ config.uris) ∧
      Current build environment perHost := by
  have hempty : Invariant build (.empty config : PerHostClients σ κ) :=
    ⟨by simp [PerHostClients.empty], by simp [PerHostClients.empty],
      by simp [PerHostClients.empty], by simp [PerHostClients.empty]⟩
  have hvisited := reload_visited refreshable hempty environment config
  simp only [perHostClientsInner] at hstart
  split at hstart
  · cases hstart
  · rename_i hlast
    cases hstart
    have hnone := List.getLast?_eq_none_iff.mp hlast
    have hfollows := fun uri name hname =>
      (hvisited.handles uri name hname).2
    refine ⟨⟨hvisited.fresh, hvisited.consistent, hfollows,
      fun uri name hname => ?_⟩, fun uri name hname => ?_,
      reload_hosts hempty (hvisited.errors.mp hnone),
      fun uri name hname _ => ?_⟩
    · rw [hvisited.clients] at hname
      obtain ⟨client, hclient, hconfig⟩ := hfollows uri name hname
      exact ⟨client, hclient, by rw [hconfig]; rfl⟩
    · rwa [hvisited.clients] at hname
    · rw [hvisited.clients] at hname
      obtain ⟨client, hclient, -, hruns⟩ := hvisited.runs hnone hname
      exact ⟨client, hclient, fun _ => hruns⟩

theorem run_invariant (inv : Invariant build perHost)
    {updates : List (Update ε σ)}
    (run : Run (Push build refreshable) perHost updates perHost') :
    Invariant build perHost' := by
  refine run.invariant (fun _ perHost => Invariant build perHost) inv ?_
  rintro updates mid update last inv rfl
  exact push_invariant inv

/-- The clients published first are current, and a run leaves what is published
current after each push if and only if every push conforms. -/
theorem published_clients_are_current
    (hstart : perHostClientsInner build refreshable environment config =
      .ok perHost) :
    Current build environment perHost ∧ ∀ updates perHost',
      Run (CurrentPush build refreshable) perHost updates perHost' ↔
        Run (ConformingPush build refreshable) perHost updates perHost' := by
  obtain ⟨inv, -, -, hcurrent⟩ := start_attached hstart
  refine ⟨hcurrent, fun updates perHost' => ⟨fun run => ?_, fun run => ?_⟩⟩
  · induction run with
    | refl => exact .refl
    | step run h ih =>
        have inv := run_invariant inv (run.mono And.left)
        obtain ⟨rfl, hcurrent⟩ := h
        exact ih.step ⟨rfl, (push_current_iff inv).mp hcurrent⟩
  · induction run with
    | refl => exact .refl
    | step run h ih =>
        have inv := run_invariant inv (run.mono And.left)
        obtain ⟨rfl, hconforms⟩ := h
        exact ih.step ⟨rfl, (push_current_iff inv).mpr hconforms⟩

end

/-! ## A host that comes back -/

def buildWithCertificate :
    Build (List String) String (ServiceConfig String × Option Nat) :=
  fun files config overrideHostIndex =>
    if config.settings ∈ files then .ok (config, overrideHostIndex)
    else .error (.internalSafe (.foreign "std::io::Error"))

def twoHosts (certificate : String) : ServiceConfig String :=
  ⟨["https://a", "https://b"], certificate⟩

def always (files : List String) : Nat → List String × List String :=
  fun _ => (files, files)

def writtenLate : Nat → List String × List String
  | 0 => (["old.pem"], ["old.pem"])
  | _ => (["old.pem", "new.pem"], ["old.pem", "new.pem"])

/-- The certificate is missing at first: the clients keep their states, and
the same configuration once more gives them the new one. -/
theorem rotated_certificate_is_current :
    ∃ perHost perHost',
      perHostClientsInner buildWithCertificate (.ofEqual false true)
          (always ["old.pem"]) (twoHosts "old.pem") = .ok perHost ∧
      Run (CurrentPush buildWithCertificate (.ofEqual false true)) perHost
        ([] ++ [⟨twoHosts "new.pem", always ["old.pem"]⟩] ++
          [⟨twoHosts "new.pem", always ["old.pem", "new.pem"]⟩])
        perHost' := by
  have hstart : ∃ perHost, perHostClientsInner buildWithCertificate
      (.ofEqual false true) (always ["old.pem"]) (twoHosts "old.pem") =
        .ok perHost ∧
      perHost.runs (.ofEqual false true) (twoHosts "new.pem") = true ∧
      (perHost.push buildWithCertificate (.ofEqual false true)
        (always ["old.pem"]) (twoHosts "new.pem")).runs
          (.ofEqual false true) (twoHosts "new.pem") = true :=
    ⟨_, rfl, rfl, rfl⟩
  obtain ⟨perHost, hstart, hruns, hruns'⟩ := hstart
  obtain ⟨inv, attached, hhosts, -⟩ := start_attached hstart
  have attached' : Attached (perHost.push buildWithCertificate
      (.ofEqual false true) (always ["old.pem"]) (twoHosts "new.pem")) :=
    push_attached inv attached
      (.inr ⟨by decide, fun uri => (hhosts uri).mp⟩)
  have run : Run (ConformingPush buildWithCertificate (.ofEqual false true))
      perHost ([] ++ [⟨twoHosts "new.pem", always ["old.pem"]⟩] ++
        [⟨twoHosts "new.pem", always ["old.pem", "new.pem"]⟩]) _ :=
    (Run.refl.step ⟨rfl, attached.conforms hruns⟩).step
      ⟨rfl, attached'.conforms hruns'⟩
  exact ⟨perHost, _, hstart,
    ((published_clients_are_current hstart).2 _ _).mpr run⟩

/-- While the certificate is missing, `b` is dropped, and its client stays
published; as the reload that lists it again has an error as well, it still
does, next to a new client that runs the new state. -/
def LateCertificateDetaches (refreshable : Refreshable) : Prop :=
  ∃ perHost perHost',
    perHostClientsInner buildWithCertificate refreshable
        (always ["old.pem"]) (twoHosts "old.pem") = .ok perHost ∧
    Run (Push buildWithCertificate refreshable) perHost
      ([] ++ [⟨⟨["https://a"], "new.pem"⟩, always ["old.pem"]⟩] ++
        [⟨twoHosts "new.pem", writtenLate⟩]) perHost' ∧
    ¬ Current buildWithCertificate writtenLate perHost'

theorem late_certificate_detaches (refreshable : Refreshable) :
    LateCertificateDetaches refreshable := by
  rw [refreshable.eq_ofEqual]
  cases refreshable.runs true true <;> cases refreshable.stores true
  all_goals
    refine ⟨_, _, rfl, (Run.refl.step rfl).step rfl, fun h => ?_⟩
    obtain ⟨client, hclient, hruns⟩ := h "https://b" 1 rfl (by decide)
    cases hclient
    have hsource := (hruns ⟨_, rfl⟩).1
    exact absurd (congrArg ServiceConfig.settings hsource) (by decide)

/-- Whether a map is replaced by an equal one or not. -/
theorem restored_host_is_stale :
    LateCertificateDetaches (.ofEqual false false) ∧
      LateCertificateDetaches (.ofEqual false true) :=
  ⟨late_certificate_detaches _, late_certificate_detaches _⟩

end ConjureRuntime.Client
