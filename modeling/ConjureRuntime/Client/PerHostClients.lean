import Mathlib.Data.List.AList
import ConjureRuntime.Client.Refreshable

/-!
# Per-host clients

A factory keeps one client for every host of a service and publishes them as
a map.  A client follows the configuration through the handle it was created
with; the handles are kept from one configuration to the next in a map of
their own, which is private to the closure that reloads the clients.
-/

namespace ConjureRuntime.Client

open ConjureRuntime.Service

abbrev Url := String

structure ServiceConfig (σ : Type) where
  uris : List Url
  settings : σ
  deriving DecidableEq

def ServiceConfig.forHost {σ : Type} (config : ServiceConfig σ) (uri : Url) :
    ServiceConfig σ :=
  { config with uris := [uri] }

structure Host where
  uri : Url
  deriving DecidableEq

structure RawClient (σ κ : Type) where
  overrideHostIndex : Option Nat
  subscription : Subscription (ServiceConfig σ) κ

namespace RawClient

variable {σ κ : Type}

def serviceConfig (client : RawClient σ κ) : ServiceConfig σ :=
  client.subscription.value

def state (client : RawClient σ κ) : κ := client.subscription.made

end RawClient

/-- `StateBuilder::build`, which reads files: what comes out depends on the
environment as well. -/
abbrev Build (ε σ κ : Type) :=
  ε → ServiceConfig σ → Option Nat → Except Error κ

/-- Clients are shared; a map holds their names. -/
abbrev Clients := AList fun _ : Host => Nat

/-- The equality of `PerHostClients`, which looks at the hosts only. -/
def sameHosts (clients others : Clients) : Bool :=
  clients.keys.length = others.keys.length &&
    clients.keys.all fun host => decide (host ∈ others)

variable {ε σ κ : Type} (build : Build ε σ κ)

def rebuild (overrideHostIndex : Option Nat) (environment : ε)
    (config : ServiceConfig σ) : Except Error κ :=
  build environment config overrideHostIndex

/-- A state is built twice, the second time by the subscription. -/
def rawClient (environment : ε × ε) (serviceConfig : ServiceConfig σ)
    (overrideHostIndex : Option Nat) : Except Error (RawClient σ κ) := do
  let _ ← build environment.1 serviceConfig overrideHostIndex
  let subscription ← Subscription.trySubscribe
    (rebuild build overrideHostIndex environment.2) serviceConfig
  pure ⟨overrideHostIndex, subscription⟩

variable [DecidableEq σ] (refreshable : Refreshable)

/-- `RefreshHandle::refresh` on the configuration of a client. -/
def RawClient.refresh (environment : ε) (client : RawClient σ κ)
    (serviceConfig : ServiceConfig σ) : List Error × RawClient σ κ :=
  let (errors, subscription) := client.subscription.refresh refreshable
    (rebuild build client.overrideHostIndex environment) serviceConfig
  (errors, { client with subscription })

/-- The variables of the closure while it goes through the URIs, with the
clients that exist. -/
structure Reload (σ κ : Type) where
  store : Nat → Option (RawClient σ κ)
  next : Nat
  clientHandles : Clients
  newClientHandles : Clients
  clients : Clients
  errors : List Error

def visit (environment : ε × ε) (config : ServiceConfig σ) (i : Nat)
    (uri : Url) (reload : Reload σ κ) : Reload σ κ :=
  match reload.clientHandles.lookup ⟨uri⟩ with
  | some name =>
      match reload.store name with
      | some client =>
          let (errors, client) := client.refresh build refreshable
            environment.1 (config.forHost uri)
          { store := Function.update reload.store name (some client)
            next := reload.next
            clientHandles := reload.clientHandles.erase ⟨uri⟩
            newClientHandles := reload.newClientHandles.insert ⟨uri⟩ name
            clients := reload.clients.insert ⟨uri⟩ name
            errors := reload.errors ++ errors }
      -- A handle comes with its client.
      | none => reload
  | none =>
      match rawClient build environment (config.forHost uri) (some i) with
      | .ok client =>
          { store := Function.update reload.store reload.next (some client)
            next := reload.next + 1
            clientHandles := reload.clientHandles
            newClientHandles :=
              reload.newClientHandles.insert ⟨uri⟩ reload.next
            clients := reload.clients.insert ⟨uri⟩ reload.next
            errors := reload.errors }
      | .error error => { reload with errors := reload.errors ++ [error] }

def visitAll (environment : Nat → ε × ε) (config : ServiceConfig σ) :
    Nat → List Url → Reload σ κ → Reload σ κ
  | _, [], reload => reload
  | i, uri :: uris, reload =>
      visitAll environment config (i + 1) uris
        (visit build refreshable (environment i) config i uri reload)

/-- The published clients, the handles of the closure, the configuration that
was last seen, and whether the closure succeeded on it. -/
structure PerHostClients (σ κ : Type) where
  store : Nat → Option (RawClient σ κ)
  next : Nat
  clientHandles : Clients
  published : Clients
  config : ServiceConfig σ
  succeeded : Bool

namespace PerHostClients

def reload (environment : Nat → ε × ε) (perHost : PerHostClients σ κ)
    (config : ServiceConfig σ) : Reload σ κ :=
  visitAll build refreshable environment config 0 config.uris
    { store := perHost.store
      next := perHost.next
      clientHandles := perHost.clientHandles
      newClientHandles := ∅
      clients := ∅
      errors := [] }

def runs (perHost : PerHostClients σ κ) (config : ServiceConfig σ) : Bool :=
  refreshable.runs (perHost.config = config) perHost.succeeded

/-- A new configuration.  An error keeps what is published, and clients that
are equal to it may not replace it. -/
def push (environment : Nat → ε × ε) (perHost : PerHostClients σ κ)
    (config : ServiceConfig σ) : PerHostClients σ κ :=
  if perHost.runs refreshable config then
    let reload := perHost.reload build refreshable environment config
    { store := reload.store
      next := reload.next
      clientHandles := reload.newClientHandles
      published :=
        if reload.errors.isEmpty ∧
            refreshable.stores (sameHosts perHost.published reload.clients)
        then reload.clients
        else perHost.published
      config := config
      succeeded := reload.errors.isEmpty }
  else { perHost with config := config }

def empty (config : ServiceConfig σ) : PerHostClients σ κ where
  store := fun _ => none
  next := 0
  clientHandles := ∅
  published := ∅
  config := config
  succeeded := false

end PerHostClients

/-- `per_host_clients_inner`; it fails with the last error. -/
def perHostClientsInner (environment : Nat → ε × ε)
    (config : ServiceConfig σ) : Except Error (PerHostClients σ κ) :=
  let reload := (PerHostClients.empty config).reload build refreshable
    environment config
  match reload.errors.getLast? with
  | some error => .error error
  | none => .ok
      { store := reload.store
        next := reload.next
        clientHandles := reload.newClientHandles
        published := reload.clients
        config := config
        succeeded := true }

end ConjureRuntime.Client
