import ConjureRuntime.Cache.WeakCache
import ConjureRuntime.Client.Builder

/-!
# Client factories

A factory hands out state builders, which make the states of its clients.
Copies of a factory and its state builders share one cache of states; the key
of the cache is the cached configuration alone, so a factory that changes
anything of the uncached configuration goes on with a cache of its own.
-/

namespace ConjureRuntime.Client

open ConjureRuntime.Cache ConjureRuntime.Foundation ConjureRuntime.Service

def stateCacheCapacity : Nat := 10000

/-- A state with the builder that `ClientState::new` made it from. -/
structure ClientState (σ : Type) where
  builder : Builder
  service : σ

abbrev StateCache (σ : Type) := WeakCache CachedConfig (ClientState σ)

variable {σ : Type}

structure CacheManager where
  uncachedInner : UncachedConfig
  /-- The name of the cache. -/
  cache : Nat

/-- `uncached_mut`, with what is done through the reference. -/
def CacheManager.uncachedMut (manager : CacheManager)
    (caches : List (StateCache σ))
    (change : UncachedConfig → UncachedConfig) :
    CacheManager × List (StateCache σ) :=
  (⟨change manager.uncachedInner, caches.length⟩,
    caches ++ [.new CachedConfig (ClientState σ) stateCacheCapacity])

structure ClientFactory where
  userAgent : UserAgent
  clientQos : ClientQos
  serverQos : ServerQos
  serviceError : ServiceError
  idempotency : Retry.Idempotency
  nodeSelectionStrategy : NodeSelectionStrategy
  errorParameterFormat : ErrorParameterFormat
  cacheManager : CacheManager

inductive Setter where
  | userAgent (userAgent : UserAgent)
  | clientQos (clientQos : ClientQos)
  | serverQos (serverQos : ServerQos)
  | serviceError (serviceError : ServiceError)
  | idempotency (idempotency : Retry.Idempotency)
  | nodeSelectionStrategy (nodeSelectionStrategy : NodeSelectionStrategy)
  | errorParameterFormat (errorParameterFormat : ErrorParameterFormat)
  | metrics (metrics : Nat)
  | hostMetrics (hostMetrics : Nat)
  | conjureRuntime (conjureRuntime : Nat)
  | blockingHandle (blockingHandle : Nat)

structure StateBuilder where
  service : String
  userAgent : UserAgent
  clientQos : ClientQos
  serverQos : ServerQos
  serviceError : ServiceError
  idempotency : Retry.Idempotency
  nodeSelectionStrategy : NodeSelectionStrategy
  errorParameterFormat : ErrorParameterFormat
  cacheManager : CacheManager

namespace ClientFactory

/-- The factory after `config` and `user_agent`, with its defaults; the
runtime is a new one, and so is the cache. -/
def new (userAgent : UserAgent) (runtime cache : Nat) : ClientFactory where
  userAgent
  clientQos := .enabled
  serverQos := .automaticRetry
  serviceError := .wrapInNewError
  idempotency := .byMethod
  nodeSelectionStrategy := .pinUntilError
  errorParameterFormat := .legacy
  cacheManager := ⟨⟨none, none, none, runtime⟩, cache⟩

def withUncached (factory : ClientFactory) (caches : List (StateCache σ))
    (change : UncachedConfig → UncachedConfig) :
    ClientFactory × List (StateCache σ) :=
  let (cacheManager, caches) := factory.cacheManager.uncachedMut caches change
  ({ factory with cacheManager }, caches)

def set (factory : ClientFactory) (caches : List (StateCache σ)) :
    Setter → ClientFactory × List (StateCache σ)
  | .userAgent userAgent => ({ factory with userAgent }, caches)
  | .clientQos clientQos => ({ factory with clientQos }, caches)
  | .serverQos serverQos => ({ factory with serverQos }, caches)
  | .serviceError serviceError => ({ factory with serviceError }, caches)
  | .idempotency idempotency => ({ factory with idempotency }, caches)
  | .nodeSelectionStrategy nodeSelectionStrategy =>
      ({ factory with nodeSelectionStrategy }, caches)
  | .errorParameterFormat errorParameterFormat =>
      ({ factory with errorParameterFormat }, caches)
  | .metrics metrics =>
      factory.withUncached caches
        fun uncached => { uncached with metrics := some metrics }
  | .hostMetrics hostMetrics =>
      factory.withUncached caches
        fun uncached => { uncached with hostMetrics := some hostMetrics }
  | .conjureRuntime conjureRuntime =>
      factory.withUncached caches
        fun uncached => { uncached with conjureRuntime }
  | .blockingHandle blockingHandle =>
      factory.withUncached caches
        fun uncached => { uncached with blockingHandle := some blockingHandle }

def stateBuilder (factory : ClientFactory) (service : String) :
    StateBuilder where
  service
  userAgent := factory.userAgent
  clientQos := factory.clientQos
  serverQos := factory.serverQos
  serviceError := factory.serviceError
  idempotency := factory.idempotency
  nodeSelectionStrategy := factory.nodeSelectionStrategy
  errorParameterFormat := factory.errorParameterFormat
  cacheManager := factory.cacheManager

end ClientFactory

namespace StateBuilder

/-- The builder that `build` passes to the cache.  It starts out with a runtime
of its own. -/
def builder (stateBuilder : StateBuilder)
    (config : ServiceConfig ServiceSettings)
    (overrideHostIndex : Option Nat) (runtime : Nat) : Builder :=
  let uncached := stateBuilder.cacheManager.uncachedInner
  let builder := (Builder.new stateBuilder.service stateBuilder.userAgent
    runtime).fromConfig config
  let builder : Builder :=
    { cached :=
        { builder.cached with
          clientQos := stateBuilder.clientQos
          serverQos := stateBuilder.serverQos
          serviceError := stateBuilder.serviceError
          idempotency := stateBuilder.idempotency
          nodeSelectionStrategy := stateBuilder.nodeSelectionStrategy
          errorParameterFormat := stateBuilder.errorParameterFormat }
      uncached :=
        { builder.uncached with conjureRuntime := uncached.conjureRuntime } }
  let builder :=
    match uncached.metrics with
    | some metrics => builder.metrics metrics
    | none => builder
  let builder :=
    match uncached.hostMetrics with
    | some hostMetrics => builder.hostMetrics hostMetrics
    | none => builder
  match overrideHostIndex with
  | some index => builder.overrideHostIndex index
  | none => builder

/-- `made` is what `ClientState::new` would make of the builder. -/
def build (builder : Builder) (cache : StateCache σ) (made : Option σ) :
    Got × StateCache σ :=
  cache.get builder.cached (made.map fun service => ⟨builder, service⟩)

end StateBuilder

/-! ## Factories side by side -/

inductive FactoryOp (σ : Type) where
  | factory (userAgent : UserAgent) (runtime : Nat)
  | clone (factory : Nat)
  | set (factory : Nat) (setter : Setter)
  | stateBuilder (factory : Nat) (service : String)
  | build (stateBuilder : Nat) (config : ServiceConfig ServiceSettings)
      (overrideHostIndex : Option Nat) (runtime : Nat) (made : Option σ)
  | cloneState (cache name : Nat)
  | dropState (cache name : Nat)
  | evictState (cache name : Nat)

inductive FactoryEvent (σ : Type) where
  | configured
  | built (builder : Builder) (state : ClientState σ)
  | failed
  | counted (event : Cache.Event CachedConfig)

/-- The factories, the state builders, and the caches that they use.  A cache
that nobody uses any more is left as it is. -/
structure Factories (σ : Type) where
  factories : List ClientFactory
  stateBuilders : List StateBuilder
  caches : List (StateCache σ)

namespace Factories

def new (σ : Type) : Factories σ := ⟨[], [], []⟩

def onCache (system : Factories σ) (cache : Nat)
    (op : Cache.Op CachedConfig (ClientState σ)) :
    Option (FactoryEvent σ × Factories σ) :=
  match system.caches[cache]? with
  | some states =>
      match states.next op with
      | some (event, states) =>
          some (.counted event,
            { system with caches := system.caches.set cache states })
      | none => none
  | none => none

def next (system : Factories σ) :
    FactoryOp σ → Option (FactoryEvent σ × Factories σ)
  | .factory userAgent runtime =>
      some (.configured,
        { system with
          factories := system.factories ++
            [.new userAgent runtime system.caches.length]
          caches := system.caches ++
            [.new CachedConfig (ClientState σ) stateCacheCapacity] })
  | .clone factory =>
      match system.factories[factory]? with
      | some original =>
          some (.configured,
            { system with factories := system.factories ++ [original] })
      | none => none
  | .set factory setter =>
      match system.factories[factory]? with
      | some original =>
          let (changed, caches) := original.set system.caches setter
          some (.configured,
            { system with
              factories := system.factories.set factory changed
              caches })
      | none => none
  | .stateBuilder factory service =>
      match system.factories[factory]? with
      | some original =>
          some (.configured,
            { system with
              stateBuilders :=
                system.stateBuilders ++ [original.stateBuilder service] })
      | none => none
  | .build name config overrideHostIndex runtime made =>
      match system.stateBuilders[name]? with
      | some stateBuilder =>
          let cache := stateBuilder.cacheManager.cache
          let builder :=
            stateBuilder.builder config overrideHostIndex runtime
          match system.caches[cache]? with
          | some states =>
              let (got, states) := StateBuilder.build builder states made
              let system :=
                { system with caches := system.caches.set cache states }
              match got.name?.bind fun name => states.values[name]? with
              | some allocation =>
                  some (.built builder allocation.cached.value, system)
              | none => some (.failed, system)
          | none => none
      | none => none
  | .cloneState cache name => system.onCache cache (.clone name)
  | .dropState cache name => system.onCache cache (.drop name)
  | .evictState cache name => system.onCache cache (.evict name)

def Step (system : Factories σ) (event : FactoryEvent σ)
    (system' : Factories σ) : Prop :=
  ∃ op, system.next op = some (event, system')

end Factories

end ConjureRuntime.Client
