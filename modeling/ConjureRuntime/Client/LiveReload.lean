import ConjureRuntime.Client.ClientFactory
import ConjureRuntime.Client.Refreshable
import ConjureRuntime.Foundation.ListSum
import ConjureRuntime.Foundation.Transition

/-!
# Clients that follow the configuration

A factory holds the configuration of all services.  Each client is built from
the part of its own service, with what is missing there taken from the top
level, and builds itself anew whenever that part changes.  A change can come
between the first build of a client and its subscription.
-/

namespace ConjureRuntime.Client

open ConjureRuntime.Foundation ConjureRuntime.Service

/-! ## The configuration of all services -/

structure ServicesConfig where
  services : String → Option (ServiceConfig ServiceSettings)
  security : Option SecurityConfig
  proxy : Option ProxyConfig
  connectTimeout : Option Duration
  readTimeout : Option Duration
  writeTimeout : Option Duration
  backoffSlotSize : Option Duration

/-- `ServiceConfig::default`. -/
def ServiceConfig.default : ServiceConfig ServiceSettings :=
  ⟨[], ⟨none, none, none, none, none, none, none⟩⟩

namespace ServicesConfig

def mergedService (config : ServicesConfig) (name : String) :
    Option (ServiceConfig ServiceSettings) := do
  let service ← config.services name
  let settings := service.settings
  some { service with
    settings :=
      { settings with
        security := settings.security <|> config.security
        proxy := settings.proxy <|> config.proxy
        connectTimeout := settings.connectTimeout <|> config.connectTimeout
        readTimeout := settings.readTimeout <|> config.readTimeout
        writeTimeout := settings.writeTimeout <|> config.writeTimeout
        backoffSlotSize :=
          settings.backoffSlotSize <|> config.backoffSlotSize } }

/-- What `client_inner` maps the configuration to. -/
def service (config : ServicesConfig) (name : String) :
    ServiceConfig ServiceSettings :=
  (config.mergedService name).getD .default

end ServicesConfig

/-! ## Clients -/

variable {ε κ : Type}

/-- `StateBuilder::build` for a client of all hosts, where `make` is
`ClientState::new`.  The environment is that in which the state was made, also
where it comes from the cache. -/
def StateBuilder.state (make : ε → Builder → Except Error κ)
    (stateBuilder : StateBuilder) (environment : ε)
    (config : ServiceConfig ServiceSettings) : Except Error κ :=
  make environment (stateBuilder.builder config none
    stateBuilder.cacheManager.uncachedInner.conjureRuntime)

/-- A call of `raw_client` that has yet to subscribe, with the value of the
`Refreshable` that it has been given, or the client that it returned. -/
inductive LiveClient (κ : Type) where
  | built (stateBuilder : StateBuilder)
      (config : ServiceConfig ServiceSettings) (state : κ)
  | subscribed (stateBuilder : StateBuilder)
      (subscription : Subscription (ServiceConfig ServiceSettings) κ)

def LiveClient.refresh (make : ε → Builder → Except Error κ)
    (refreshable : Refreshable) (config : ServicesConfig) (environment : ε) :
    LiveClient κ → LiveClient κ
  | .built stateBuilder _ state =>
      .built stateBuilder (config.service stateBuilder.service) state
  | .subscribed stateBuilder subscription =>
      .subscribed stateBuilder (subscription.refresh refreshable
        (stateBuilder.state make environment)
        (config.service stateBuilder.service)).2

structure LiveClients (κ : Type) where
  config : ServicesConfig
  clients : List (Option (LiveClient κ))

namespace LiveClients

inductive Op (ε : Type) where
  | build (stateBuilder : StateBuilder) (environment : ε)
  | subscribe (client : Nat) (environment : ε)
  | refresh (config : ServicesConfig) (environments : Nat → ε)
  | send (client : Nat)
  | drop (client : Nat)

inductive Event (ε κ : Type) where
  | built (client : Nat)
  | failed (error : Error)
  | subscribed (client : Nat) (environment : ε)
  | refreshed (config : ServicesConfig) (environments : Nat → ε)
  | sent (client : Nat) (state : κ)
  | dropped (client : Nat)

def new (κ : Type) (config : ServicesConfig) : LiveClients κ := ⟨config, []⟩

def client? (system : LiveClients κ) (client : Nat) :
    Option (LiveClient κ) :=
  system.clients[client]?.join

def setClient (system : LiveClients κ) (index : Nat)
    (client : Option (LiveClient κ)) : LiveClients κ :=
  { system with clients := system.clients.set index client }

/-- `raw_client`, up to the subscription. -/
def build (make : ε → Builder → Except Error κ) (system : LiveClients κ)
    (stateBuilder : StateBuilder) (environment : ε) :
    Event ε κ × LiveClients κ :=
  let config := system.config.service stateBuilder.service
  match stateBuilder.state make environment config with
  | .ok state =>
      (.built system.clients.length,
        { system with clients :=
          system.clients ++ [some (.built stateBuilder config state)] })
  | .error error => (.failed error, system)

def subscribe (make : ε → Builder → Except Error κ) (system : LiveClients κ)
    (index : Nat) (stateBuilder : StateBuilder)
    (config : ServiceConfig ServiceSettings) (environment : ε) :
    Event ε κ × LiveClients κ :=
  match Subscription.trySubscribe (stateBuilder.state make environment)
      config with
  | .ok subscription =>
      (.subscribed index environment,
        system.setClient index (some (.subscribed stateBuilder subscription)))
  | .error error => (.failed error, system.setClient index none)

def refresh (make : ε → Builder → Except Error κ) (refreshable : Refreshable)
    (system : LiveClients κ) (config : ServicesConfig)
    (environments : Nat → ε) : LiveClients κ where
  config := config
  clients := system.clients.mapIdx fun index => Option.map
    (LiveClient.refresh make refreshable config (environments index))

def next (make : ε → Builder → Except Error κ) (refreshable : Refreshable)
    (system : LiveClients κ) : Op ε → Option (Event ε κ × LiveClients κ)
  | .build stateBuilder environment =>
      some (system.build make stateBuilder environment)
  | .subscribe index environment =>
      match system.client? index with
      | some (.built stateBuilder config _) =>
          some (system.subscribe make index stateBuilder config environment)
      | _ => none
  | .refresh config environments =>
      some (.refreshed config environments,
        system.refresh make refreshable config environments)
  | .send index =>
      match system.client? index with
      | some (.subscribed _ subscription) =>
          some (.sent index subscription.made, system)
      | _ => none
  | .drop index =>
      match system.client? index with
      | some (.subscribed _ _) =>
          some (.dropped index, system.setClient index none)
      | _ => none

def Step (make : ε → Builder → Except Error κ) (refreshable : Refreshable)
    (system : LiveClients κ) (event : Event ε κ) (system' : LiveClients κ) :
    Prop :=
  ∃ op, system.next make refreshable op = some (event, system')

def lastConfig (config : ServicesConfig) (events : List (Event ε κ)) :
    ServicesConfig :=
  events.foldl (fun config event =>
    match event with
    | .refreshed config _ => config
    | _ => config) config

/-- What the events put into the `Refreshable` of a client of the service. -/
def updates (service : String) (index : Nat) (events : List (Event ε κ)) :
    List (ServiceConfig ServiceSettings × ε) :=
  events.filterMap fun event =>
    match event with
    | .refreshed config environments =>
        some (config.service service, environments index)
    | _ => none

/-! ## What the clients follow -/

variable {make : ε → Builder → Except Error κ} {refreshable : Refreshable}
  {config : ServicesConfig} {system system' : LiveClients κ}
  {events : List (Event ε κ)} {event : Event ε κ} {index : Nat}

def FollowsSince (make : ε → Builder → Except Error κ)
    (config : ServicesConfig) (events : List (Event ε κ)) (index : Nat)
    (stateBuilder : StateBuilder)
    (subscription : Subscription (ServiceConfig ServiceSettings) κ) : Prop :=
  ∃ before environment after,
    events = before ++ .subscribed index environment :: after ∧
    subscription.Follows (stateBuilder.state make)
      (((lastConfig config before).service stateBuilder.service,
        environment) :: updates stateBuilder.service index after)

def LiveClient.Keeps (make : ε → Builder → Except Error κ)
    (config : ServicesConfig) (events : List (Event ε κ)) (index : Nat) :
    LiveClient κ → Prop
  | .built stateBuilder value _ =>
      value = (lastConfig config events).service stateBuilder.service
  | .subscribed stateBuilder subscription =>
      subscription.value =
        (lastConfig config events).service stateBuilder.service ∧
      FollowsSince make config events index stateBuilder subscription

structure Invariant (make : ε → Builder → Except Error κ)
    (config : ServicesConfig) (events : List (Event ε κ))
    (system : LiveClients κ) : Prop where
  last : system.config = lastConfig config events
  clients : ∀ index client, system.client? index = some client →
    LiveClient.Keeps make config events index client

theorem client?_setClient {other : Nat} {new : Option (LiveClient κ)}
    {client : LiveClient κ}
    (h : (system.setClient index new).client? other = some client) :
    (other = index ∧ new = some client) ∨
      (other ≠ index ∧ system.client? other = some client) := by
  unfold client? setClient at h
  rw [Option.join_eq_some_iff] at h
  rcases getElem?_set_cases h with ⟨rfl, hnew⟩ | ⟨hne, hold⟩
  · exact .inl ⟨rfl, hnew.symm⟩
  · exact .inr ⟨hne, Option.join_eq_some_iff.mpr hold⟩

theorem client?_refresh {environments : Nat → ε} :
    (system.refresh make refreshable config environments).client? index =
      (system.client? index).map
        (LiveClient.refresh make refreshable config (environments index)) := by
  simp only [client?, refresh, List.getElem?_mapIdx]
  cases system.clients[index]? <;> rfl

theorem lastConfig_append
    (h : ∀ config environments, event ≠ .refreshed config environments) :
    lastConfig config (events ++ [event]) = lastConfig config events := by
  unfold lastConfig
  rw [List.foldl_append]
  cases event with
  | refreshed config environments => exact absurd rfl (h config environments)
  | built | failed | subscribed | sent | dropped => rfl

theorem updates_append {service : String}
    (h : ∀ config environments, event ≠ .refreshed config environments) :
    updates service index (events ++ [event]) =
      updates service index events := by
  unfold updates
  rw [List.filterMap_append]
  cases event with
  | refreshed config environments => exact absurd rfl (h config environments)
  | built | failed | subscribed | sent | dropped =>
      exact List.append_nil _

theorem LiveClient.Keeps.later {client : LiveClient κ}
    (h : LiveClient.Keeps make config events index client)
    (hevent : ∀ config environments,
      event ≠ .refreshed config environments) :
    LiveClient.Keeps make config (events ++ [event]) index client := by
  cases client with
  | built stateBuilder value state =>
      exact h.trans (by rw [lastConfig_append hevent])
  | subscribed stateBuilder subscription =>
      obtain ⟨hvalue, before, environment, after, rfl, hfollows⟩ := h
      refine ⟨hvalue.trans (by rw [lastConfig_append hevent]), before,
        environment, after ++ [event], by simp, ?_⟩
      rwa [updates_append hevent]

theorem LiveClient.Keeps.refresh {client : LiveClient κ}
    (h : LiveClient.Keeps make config events index client)
    (refreshable : Refreshable) (config' : ServicesConfig)
    (environments : Nat → ε) :
    LiveClient.Keeps make config
      (events ++ [.refreshed config' environments]) index
      (client.refresh make refreshable config' (environments index)) := by
  have hconfig : lastConfig config
      (events ++ [.refreshed config' environments]) = config' := by
    simp [lastConfig]
  cases client with
  | built stateBuilder value state =>
      simp only [LiveClient.refresh, LiveClient.Keeps, hconfig]
  | subscribed stateBuilder subscription =>
      obtain ⟨-, before, environment, after, rfl, hfollows⟩ := h
      refine ⟨by rw [hconfig]; exact Subscription.refresh_value, before,
        environment, after ++ [.refreshed config' environments], by simp, ?_⟩
      have hnext := hfollows.refresh refreshable
        (config'.service stateBuilder.service) (environments index)
      simpa [updates] using hnext

theorem Invariant.keep (h : Invariant make config events system)
    (hevent : ∀ config environments,
      event ≠ .refreshed config environments)
    (hconfig : system'.config = system.config)
    (hclients : ∀ index client, system'.client? index = some client →
      system.client? index = some client ∨
        LiveClient.Keeps make config (events ++ [event]) index client) :
    Invariant make config (events ++ [event]) system' := by
  refine ⟨?_, fun index client hclient => ?_⟩
  · rw [hconfig, h.last, lastConfig_append hevent]
  · rcases hclients index client hclient with hold | hnew
    · exact (h.clients index client hold).later hevent
    · exact hnew

theorem Invariant.build (h : Invariant make config events system)
    {stateBuilder : StateBuilder} {environment : ε}
    (hbuild : system.build make stateBuilder environment =
      (event, system')) :
    Invariant make config (events ++ [event]) system' := by
  simp only [LiveClients.build] at hbuild
  split at hbuild
  next state hstate =>
    cases hbuild
    refine h.keep (by simp) rfl fun index client hclient => ?_
    rcases getElem?_append_singleton_cases
      (Option.join_eq_some_iff.mp hclient) with hold | ⟨-, hnew⟩
    · exact .inl (Option.join_eq_some_iff.mpr hold)
    · cases hnew
      refine .inr ?_
      rw [LiveClient.Keeps, lastConfig_append (by simp), h.last]
  next error herror =>
    cases hbuild
    exact h.keep (by simp) rfl fun _ _ => .inl

theorem Invariant.subscribe (h : Invariant make config events system)
    {stateBuilder : StateBuilder}
    {value : ServiceConfig ServiceSettings} {state : κ} {environment : ε}
    (hclient : system.client? index =
      some (.built stateBuilder value state))
    (hsubscribe : system.subscribe make index stateBuilder value
      environment = (event, system')) :
    Invariant make config (events ++ [event]) system' := by
  have hvalue := h.clients index _ hclient
  unfold LiveClients.subscribe at hsubscribe
  split at hsubscribe
  next subscription hsubscription =>
    cases hsubscribe
    refine h.keep (by simp) rfl fun other client hother => ?_
    rcases client?_setClient hother with ⟨rfl, hnew⟩ | ⟨-, hold⟩
    · cases hnew
      have hfollows := Subscription.Follows.trySubscribe hsubscription
      refine .inr ⟨?_, events, environment, [], rfl, ?_⟩
      · rw [lastConfig_append (by simp), ← hvalue]
        exact (Subscription.Consistent.trySubscribe hsubscription).2.1
      · rwa [← hvalue]
    · exact .inl hold
  next error herror =>
    cases hsubscribe
    refine h.keep (by simp) rfl fun other client hother => ?_
    rcases client?_setClient hother with ⟨-, hnew⟩ | ⟨-, hold⟩
    · cases hnew
    · exact .inl hold

theorem Invariant.step (h : Invariant make config events system)
    (hstep : Step make refreshable system event system') :
    Invariant make config (events ++ [event]) system' := by
  obtain ⟨op, hnext⟩ := hstep
  cases op with
  | build stateBuilder environment =>
      exact h.build (Option.some.inj hnext)
  | subscribe index environment =>
      simp only [next] at hnext
      split at hnext
      next stateBuilder value state hclient =>
        exact h.subscribe hclient (Option.some.inj hnext)
      next => cases hnext
  | refresh config' environments =>
      cases hnext
      refine ⟨by simp [lastConfig, LiveClients.refresh],
        fun index client hclient => ?_⟩
      rw [client?_refresh] at hclient
      obtain ⟨before, hbefore, rfl⟩ := Option.map_eq_some_iff.mp hclient
      exact (h.clients index before hbefore).refresh refreshable config'
        environments
  | send index =>
      simp only [next] at hnext
      split at hnext
      next =>
        cases hnext
        exact h.keep (by simp) rfl fun _ _ => .inl
      next => cases hnext
  | drop index =>
      simp only [next] at hnext
      split at hnext
      next =>
        cases hnext
        refine h.keep (by simp) rfl fun other client hother => ?_
        rcases client?_setClient hother with ⟨-, hnew⟩ | ⟨-, hold⟩
        · cases hnew
        · exact .inl hold
      next => cases hnext

theorem run_invariant
    (run : Run (Step make refreshable) (LiveClients.new κ config) events
      system) :
    Invariant make config events system :=
  run.invariant (Invariant make config)
    ⟨rfl, by simp [LiveClients.new, client?]⟩ fun h hstep => h.step hstep

theorem sent_step {state : κ}
    (h : Step make refreshable system (.sent index state) system') :
    ∃ stateBuilder subscription,
      system.client? index = some (.subscribed stateBuilder subscription) ∧
        subscription.made = state := by
  obtain ⟨op, hnext⟩ := h
  cases op with
  | send index' =>
      simp only [next] at hnext
      split at hnext
      next stateBuilder subscription hclient =>
        cases hnext
        exact ⟨stateBuilder, subscription, hclient, rfl⟩
      next => cases hnext
  | build | subscribe | refresh | drop =>
      simp only [next, build, subscribe] at hnext
      repeat' split at hnext
      all_goals cases hnext

theorem refreshed_step {config' : ServicesConfig} {environments : Nat → ε}
    (h : Step make refreshable system (.refreshed config' environments)
      system') :
    system' = system.refresh make refreshable config' environments := by
  obtain ⟨op, hnext⟩ := h
  cases op with
  | refresh =>
      cases hnext
      rfl
  | build | subscribe | send | drop =>
      simp only [next, build, subscribe] at hnext
      repeat' split at hnext
      all_goals cases hnext

/-- Whatever the configurations were, and whenever clients were made, also
while one changed: a call is sent through the state that was last built for
the client since it subscribed, after which came only the same configuration
and then such as no state could be built from.  A refresh to a configuration
that a state can be built from leaves the client with such a state, whatever
came before; one that fails leaves it with the state it has; and one that
changes nothing after a success does not touch it. -/
theorem clients_follow_config
    (run : Run (Step make refreshable) (LiveClients.new κ config) events
      system) :
    (∀ {index state system'},
      Step make refreshable system (.sent index state) system' →
      ∃ stateBuilder subscription,
        system.client? index =
          some (.subscribed stateBuilder subscription) ∧
        subscription.made = state ∧
        FollowsSince make config events index stateBuilder subscription) ∧
    ∀ {config' environments system'},
      Step make refreshable system (.refreshed config' environments)
        system' →
      ∀ index stateBuilder subscription,
        system.client? index =
          some (.subscribed stateBuilder subscription) →
        ∃ subscription',
          system'.client? index =
            some (.subscribed stateBuilder subscription') ∧
          ((∃ state, stateBuilder.state make (environments index)
              (config'.service stateBuilder.service) = .ok state) →
            subscription'.source = config'.service stateBuilder.service ∧
            ∃ environment, stateBuilder.state make environment
              (config'.service stateBuilder.service) =
                .ok subscription'.made) ∧
          ((∃ error, stateBuilder.state make (environments index)
              (config'.service stateBuilder.service) = .error error) →
            subscription'.made = subscription.made) ∧
          (config'.service stateBuilder.service =
              system.config.service stateBuilder.service →
            subscription.succeeded = true →
            refreshable.runs true true = false →
            subscription' = subscription) := by
  have h := run_invariant run
  refine ⟨fun hstep => ?_, fun {config' environments system'} hstep index
    stateBuilder subscription hclient => ?_⟩
  · obtain ⟨stateBuilder, subscription, hclient, hstate⟩ := sent_step hstep
    exact ⟨stateBuilder, subscription, hclient, hstate,
      (h.clients _ _ hclient).2⟩
  · have hkeeps := h.clients index _ hclient
    obtain ⟨before, environment, after, -, hfollows⟩ := hkeeps.2
    have hconsistent := hfollows.consistent
    rw [refreshed_step hstep, client?_refresh, hclient]
    refine ⟨_, rfl, fun hbuilds => ?_, fun herror => ?_,
      fun hsame hsucceeded hquiet => ?_⟩
    · have hsource := hconsistent.refresh_source refreshable hbuilds
      obtain ⟨environment, hmade⟩ := (hconsistent.refresh refreshable
        (environments index) (config'.service stateBuilder.service)).made
      rw [hsource] at hmade
      exact ⟨hsource, environment, hmade⟩
    · exact Subscription.refresh_failed herror
    · rw [hsame, h.last, ← hkeeps.1]
      exact Subscription.refresh_quiet hsucceeded hquiet

def topTimeout (top : Option Duration) : ServicesConfig where
  services name :=
    if name = "service" then
      some ⟨["https://a"], ⟨none, none, none, none, none, none, none⟩⟩
    else none
  security := none
  proxy := none
  connectTimeout := top
  readTimeout := none
  writeTimeout := none
  backoffSlotSize := none

def showTimeout (readable : Bool) (builder : Builder) :
    Except Error Duration :=
  if readable then .ok builder.cached.connectTimeout
  else .error (.internalSafe (.foreign "std::io::Error"))

/-- The timeout changes between the first build of the client and its
subscription; a further change fails. -/
theorem changed_before_subscription :
    ∃ events system system' stateBuilder subscription,
      Run (Step showTimeout (.ofEqual false true))
        (new Duration (topTimeout none)) events system ∧
      Step showTimeout (.ofEqual false true) system
        (.sent 0 (.fromSecs 3)) system' ∧
      system.client? 0 = some (.subscribed stateBuilder subscription) ∧
      subscription.made = .fromSecs 3 := by
  let stateBuilder :=
    (ClientFactory.new ⟨none, ⟨"agent", "1.0.0"⟩, []⟩ 0 0).stateBuilder
      "service"
  have h : ∃ events system system',
      exec (next showTimeout (.ofEqual false true))
        (new Duration (topTimeout none))
        [.build stateBuilder true,
          .refresh (topTimeout (some (.fromSecs 3))) (fun _ => true),
          .subscribe 0 true,
          .refresh (topTimeout (some (.fromSecs 5))) (fun _ => false)] =
          some (events, system) ∧
      system.next showTimeout (.ofEqual false true) (.send 0) =
        some (.sent 0 (.fromSecs 3), system') := ⟨_, _, _, rfl, rfl⟩
  obtain ⟨events, system, system', hexec, hnext⟩ := h
  have run : Run (Step showTimeout (.ofEqual false true))
      (new Duration (topTimeout none)) events system :=
    exec_run (fun h => ⟨_, h⟩) hexec
  have hstep : Step showTimeout (.ofEqual false true) system
      (.sent 0 (.fromSecs 3)) system' := ⟨_, hnext⟩
  obtain ⟨stateBuilder, subscription, hclient, hstate, -⟩ :=
    (clients_follow_config run).1 hstep
  exact ⟨events, system, system', stateBuilder, subscription, run, hstep,
    hclient, hstate⟩

end LiveClients

end ConjureRuntime.Client
