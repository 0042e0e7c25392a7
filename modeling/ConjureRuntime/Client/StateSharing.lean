import ConjureRuntime.Cache.Evictors
import ConjureRuntime.Client.ClientFactory
import ConjureRuntime.Foundation.ListSum
import Mathlib.Logic.Function.Basic

/-!
# State sharing is sound

Every cache belongs to one uncached configuration: all factories and state
builders that use it have that one, and all its states were made from it.
-/

namespace ConjureRuntime.Client

open ConjureRuntime.Cache ConjureRuntime.Foundation ConjureRuntime.Service

variable {σ : Type}

def UncachedConfig.shared (uncached : UncachedConfig) : UncachedConfig :=
  { uncached with blockingHandle := none }

theorem StateBuilder.builder_uncached (stateBuilder : StateBuilder)
    (config : ServiceConfig ServiceSettings)
    (overrideHostIndex : Option Nat) (runtime : Nat) :
    (stateBuilder.builder config overrideHostIndex runtime).uncached =
      stateBuilder.cacheManager.uncachedInner.shared := by
  unfold StateBuilder.builder UncachedConfig.shared
  cases hmetrics : stateBuilder.cacheManager.uncachedInner.metrics <;>
    cases hhost : stateBuilder.cacheManager.uncachedInner.hostMetrics <;>
    cases overrideHostIndex <;>
    simp [Builder.metrics, Builder.hostMetrics, Builder.overrideHostIndex,
      Builder.fromConfig, Builder.new, hmetrics, hhost]

/-! ## The states of one cache -/

structure MadeFrom (uncached : UncachedConfig) (states : StateCache σ) :
    Prop where
  invariant : states.Invariant
  handles : 0 < states.handles
  made : ∀ {name : Nat} {allocation : Allocation CachedConfig (ClientState σ)},
    states.values[name]? = some allocation →
    allocation.cached.value.builder =
      ⟨allocation.cached.evictor.key, uncached.shared⟩

variable {uncached : UncachedConfig} {states states' : StateCache σ}

theorem MadeFrom.new (uncached : UncachedConfig) (capacity : Nat) :
    MadeFrom uncached (.new CachedConfig (ClientState σ) capacity) :=
  ⟨.new capacity, Nat.one_pos, by simp [WeakCache.new]⟩

theorem MadeFrom.modify
    {f : Allocation CachedConfig (ClientState σ) →
      Allocation CachedConfig (ClientState σ)}
    (h : MadeFrom uncached states) (name : Nat) (hinvariant : states'.Invariant)
    (hhandles : states'.handles = states.handles)
    (hvalues : states'.values = states.values.modify name f)
    (hcached : ∀ allocation, (f allocation).cached = allocation.cached) :
    MadeFrom uncached states' := by
  refine ⟨hinvariant, hhandles ▸ h.handles, fun hother => ?_⟩
  rw [hvalues] at hother
  obtain ⟨before, hbefore, rfl⟩ := WeakCache.getElem?_modify hother
  split
  · rw [hcached]
    exact h.made hbefore
  · exact h.made hbefore

theorem MadeFrom.insert (h : MadeFrom uncached states) {builder : Builder}
    (hbuilder : builder.uncached = uncached.shared) (service : σ) :
    MadeFrom uncached (states.insert builder.cached ⟨builder, service⟩) := by
  refine ⟨h.invariant.insert h.handles _ _, h.handles, fun hname => ?_⟩
  rcases WeakCache.getElem?_insert hname with hbefore | ⟨-, rfl⟩
  · exact h.made hbefore
  · rw [← hbuilder]

theorem MadeFrom.refresh (h : MadeFrom uncached states)
    (key : CachedConfig) : MadeFrom uncached (states.refresh key) :=
  ⟨h.invariant.refresh key, h.handles, h.made⟩

theorem key_of_got {key : CachedConfig} {made : Option (ClientState σ)}
    {name : Nat} {allocation : Allocation CachedConfig (ClientState σ)}
    (h : states.Invariant) (hname : (states.get key made).1.name? = some name)
    (hvalue : (states.get key made).2.values[name]? = some allocation) :
    allocation.cached.evictor.key = key := by
  rcases states.get_cases key made with
    ⟨state, before, hstate, hbefore, -, hget⟩ |
    ⟨-, ⟨-, hget⟩ | ⟨value, -, -, hget⟩ | ⟨-, hget⟩⟩
  · rw [hget] at hname hvalue
    cases hname
    obtain ⟨found, hfound, rfl⟩ := WeakCache.getElem?_modify hvalue
    obtain ⟨entry, hentry, hevictor, -⟩ := h.entry hstate
    cases hentry.symm.trans hfound
    rw [if_pos rfl]
    exact congrArg CacheEvictor.key hevictor
  · rw [hget] at hname
    cases hname
  · rw [hget] at hname hvalue
    cases hname
    have hlast := List.getElem?_concat_length.symm.trans hvalue
    cases hlast
    rfl
  · rw [hget] at hname
    cases hname

theorem MadeFrom.build (h : MadeFrom uncached states) {builder : Builder}
    (hbuilder : builder.uncached = uncached.shared) (made : Option σ) :
    MadeFrom uncached (StateBuilder.build builder states made).2 ∧
      ∀ {name : Nat} {allocation : Allocation CachedConfig (ClientState σ)},
        (StateBuilder.build builder states made).1.name? = some name →
        (StateBuilder.build builder states made).2.values[name]? =
          some allocation →
        allocation.cached.value.builder = builder := by
  have hafter :
      MadeFrom uncached (StateBuilder.build builder states made).2 := by
    unfold StateBuilder.build
    rcases states.get_cases builder.cached
        (made.map fun service => ⟨builder, service⟩) with
      ⟨state, _, -, -, -, hget⟩ |
      ⟨-, ⟨-, hget⟩ | ⟨value, hmade, -, hget⟩ | ⟨-, hget⟩⟩
    · rw [hget]
      have hrefreshed := h.refresh builder.cached
      exact hrefreshed.modify state.value
        (hrefreshed.invariant.setStrong state.value _) rfl rfl fun _ => rfl
    · rw [hget]
      exact h.refresh builder.cached
    · obtain ⟨service, rfl, rfl⟩ := Option.map_eq_some_iff.mp hmade
      rw [hget]
      exact (h.refresh builder.cached).insert hbuilder service
    · rw [hget]
      exact h.refresh builder.cached
  refine ⟨hafter, fun hname hvalue => ?_⟩
  rw [hafter.made hvalue, key_of_got h.invariant hname hvalue, ← hbuilder]

/-! ## The caches of all factories -/

/-- A manager has the configuration that its cache belongs to; there are
`count` caches. -/
def CacheManager.Uses (uncachedOf : Nat → UncachedConfig) (count : Nat)
    (manager : CacheManager) : Prop :=
  manager.cache < count ∧ manager.uncachedInner = uncachedOf manager.cache

structure Tied (uncachedOf : Nat → UncachedConfig) (system : Factories σ) :
    Prop where
  factory : ∀ factory ∈ system.factories,
    factory.cacheManager.Uses uncachedOf system.caches.length
  stateBuilder : ∀ stateBuilder ∈ system.stateBuilders,
    stateBuilder.cacheManager.Uses uncachedOf system.caches.length
  cache : ∀ {name : Nat} {states : StateCache σ},
    system.caches[name]? = some states → MadeFrom (uncachedOf name) states

variable {uncachedOf : Nat → UncachedConfig} {system system' : Factories σ}
  {event : FactoryEvent σ}

theorem Tied.new : ∃ uncachedOf, Tied uncachedOf (Factories.new σ) :=
  ⟨fun _ => ⟨none, none, none, 0⟩, by simp [Factories.new],
    by simp [Factories.new], by simp [Factories.new]⟩

theorem CacheManager.Uses.grow {manager : CacheManager} {count : Nat}
    (h : manager.Uses uncachedOf count) (uncached : UncachedConfig) :
    manager.Uses (Function.update uncachedOf count uncached) (count + 1) := by
  refine ⟨Nat.lt_succ_of_lt h.1, h.2.trans ?_⟩
  rw [Function.update_of_ne (Nat.ne_of_lt h.1)]

theorem Tied.grow (h : Tied uncachedOf system) (uncached : UncachedConfig)
    {factories : List ClientFactory}
    (hfactories : ∀ factory ∈ factories,
      factory ∈ system.factories ∨
        factory.cacheManager = ⟨uncached, system.caches.length⟩) :
    Tied (Function.update uncachedOf system.caches.length uncached)
      { system with
        factories
        caches := system.caches ++
          [.new CachedConfig (ClientState σ) stateCacheCapacity] } where
  factory := by
    intro factory hmem
    rw [List.length_append, List.length_singleton]
    rcases hfactories factory hmem with hmem | hnew
    · exact (h.factory factory hmem).grow uncached
    · rw [hnew]
      exact ⟨Nat.lt_succ_self _, by rw [Function.update_self]⟩
  stateBuilder := by
    intro stateBuilder hmem
    rw [List.length_append, List.length_singleton]
    exact (h.stateBuilder stateBuilder hmem).grow uncached
  cache := by
    intro name states hstates
    rcases getElem?_append_singleton_cases hstates with hbefore | ⟨-, rfl⟩
    · have hlt := (List.getElem?_eq_some_iff.mp hbefore).1
      rw [Function.update_of_ne (Nat.ne_of_lt hlt)]
      exact h.cache hbefore
    · exact .new _ _

theorem Tied.setCache (h : Tied uncachedOf system) {name : Nat}
    {states : StateCache σ} (hstates : MadeFrom (uncachedOf name) states) :
    Tied uncachedOf
      { system with caches := system.caches.set name states } where
  factory := by simpa using h.factory
  stateBuilder := by simpa using h.stateBuilder
  cache := by
    intro other states' hother
    rcases getElem?_set_cases hother with ⟨rfl, rfl⟩ | ⟨-, hbefore⟩
    · exact hstates
    · exact h.cache hbefore

theorem ClientFactory.set_cases (factory : ClientFactory)
    (caches : List (StateCache σ)) (setter : Setter) :
    ((factory.set caches setter).1.cacheManager = factory.cacheManager ∧
      (factory.set caches setter).2 = caches) ∨
    ∃ uncached,
      (factory.set caches setter).1.cacheManager =
        ⟨uncached, caches.length⟩ ∧
      (factory.set caches setter).2 = caches ++
        [.new CachedConfig (ClientState σ) stateCacheCapacity] := by
  cases setter with
  | metrics | hostMetrics | conjureRuntime | blockingHandle =>
      exact .inr ⟨_, rfl, rfl⟩
  | userAgent | clientQos | serverQos | serviceError | idempotency
  | nodeSelectionStrategy | errorParameterFormat => exact .inl ⟨rfl, rfl⟩

theorem Tied.set (h : Tied uncachedOf system) {factory : Nat}
    {original : ClientFactory}
    (horiginal : system.factories[factory]? = some original)
    (setter : Setter) :
    ∃ uncachedOf', Tied uncachedOf'
      { system with
        factories := system.factories.set factory
          (original.set system.caches setter).1
        caches := (original.set system.caches setter).2 } := by
  have hmem := List.mem_of_getElem? horiginal
  rcases original.set_cases system.caches setter with
    ⟨hmanager, hcaches⟩ | ⟨uncached, hmanager, hcaches⟩
  · refine ⟨uncachedOf, ?_, ?_, ?_⟩
    · intro other hother
      rw [hcaches]
      rcases List.mem_or_eq_of_mem_set hother with hother | rfl
      · exact h.factory other hother
      · rw [hmanager]
        exact h.factory original hmem
    · rw [hcaches]
      exact h.stateBuilder
    · rw [hcaches]
      exact h.cache
  · rw [hcaches]
    refine ⟨_, h.grow uncached fun other hother => ?_⟩
    rcases List.mem_or_eq_of_mem_set hother with hother | rfl
    · exact .inl hother
    · exact .inr hmanager

/-- The state of a `build` was made from the builder that asked for it. -/
def FactoryEvent.Sound : FactoryEvent σ → Prop
  | .built builder state => state.builder = builder
  | _ => True

theorem Tied.onCache (h : Tied uncachedOf system) {name : Nat}
    {op : Cache.Op CachedConfig (ClientState σ)}
    (hop : ∀ {states states' : StateCache σ} {event : Cache.Event CachedConfig},
      MadeFrom (uncachedOf name) states →
      states.next op = some (event, states') →
      MadeFrom (uncachedOf name) states')
    (hnext : system.onCache name op = some (event, system')) :
    event.Sound ∧ ∃ uncachedOf', Tied uncachedOf' system' := by
  unfold Factories.onCache at hnext
  split at hnext
  · split at hnext
    · rename_i hstates _ _ _ hstep
      cases hnext
      exact ⟨trivial, uncachedOf,
        h.setCache (hop (h.cache hstates) hstep)⟩
    · cases hnext
  · cases hnext

theorem MadeFrom.next {name : Nat}
    {op : Cache.Op CachedConfig (ClientState σ)}
    {event : Cache.Event CachedConfig}
    (hop : op = .clone name ∨ op = .drop name ∨ op = .evict name)
    (h : MadeFrom uncached states)
    (hnext : states.next op = some (event, states')) :
    MadeFrom uncached states' := by
  have hinvariant := h.invariant.step ⟨op, hnext⟩
  rcases hop with rfl | rfl | rfl
  all_goals
    simp only [WeakCache.next] at hnext
    split at hnext
    · split at hnext
      · cases hnext
        exact h.modify name hinvariant rfl rfl fun _ => rfl
      · cases hnext
    · cases hnext

theorem Tied.step (h : Tied uncachedOf system)
    (hstep : Factories.Step system event system') :
    event.Sound ∧ ∃ uncachedOf', Tied uncachedOf' system' := by
  obtain ⟨op, hnext⟩ := hstep
  cases op with
  | factory userAgent runtime =>
      cases hnext
      refine ⟨trivial, _, h.grow ⟨none, none, none, runtime⟩ ?_⟩
      intro factory hmem
      rcases List.mem_append.mp hmem with hmem | hmem
      · exact .inl hmem
      · cases List.mem_singleton.mp hmem
        exact .inr rfl
  | clone factory =>
      simp only [Factories.next] at hnext
      split at hnext
      · rename_i original horiginal
        cases hnext
        have hcopy := h.factory original (List.mem_of_getElem? horiginal)
        exact ⟨trivial, uncachedOf, List.forall_mem_append.mpr
          ⟨h.factory, List.forall_mem_singleton.mpr hcopy⟩, h.stateBuilder,
          h.cache⟩
      · cases hnext
  | set factory setter =>
      simp only [Factories.next] at hnext
      split at hnext
      next clientFactory hfactory =>
        cases hnext
        exact ⟨trivial, h.set hfactory setter⟩
      next => cases hnext
  | stateBuilder factory service =>
      simp only [Factories.next] at hnext
      split at hnext
      · rename_i original horiginal
        cases hnext
        have huses := h.factory original (List.mem_of_getElem? horiginal)
        exact ⟨trivial, uncachedOf, h.factory, List.forall_mem_append.mpr
          ⟨h.stateBuilder, List.forall_mem_singleton.mpr huses⟩, h.cache⟩
      · cases hnext
  | build name config overrideHostIndex runtime made =>
      simp only [Factories.next] at hnext
      split at hnext
      · rename_i stateBuilder hstateBuilder
        split at hnext
        · rename_i states hstates
          have huses :=
            h.stateBuilder stateBuilder (List.mem_of_getElem? hstateBuilder)
          have hbuilder := stateBuilder.builder_uncached config
            overrideHostIndex runtime
          rw [huses.2] at hbuilder
          obtain ⟨hafter, hstate⟩ :=
            (h.cache hstates).build hbuilder made
          split at hnext
          · rename_i allocation hallocation
            obtain ⟨got, hgot, hvalue⟩ :=
              Option.bind_eq_some_iff.mp hallocation
            cases hnext
            exact ⟨hstate hgot hvalue, uncachedOf, h.setCache hafter⟩
          · cases hnext
            exact ⟨trivial, uncachedOf, h.setCache hafter⟩
        · cases hnext
      · cases hnext
  | cloneState cache name =>
      exact h.onCache (MadeFrom.next (.inl rfl)) hnext
  | dropState cache name =>
      exact h.onCache (MadeFrom.next (.inr (.inl rfl))) hnext
  | evictState cache name =>
      exact h.onCache (MadeFrom.next (.inr (.inr rfl))) hnext

/-- Whichever way factories come from one another: a client gets a state that
was made from its own cached and uncached configuration. -/
theorem state_sharing_sound {events : List (FactoryEvent σ)}
    (run : Run Factories.Step (Factories.new σ) events system)
    {builder : Builder} {state : ClientState σ}
    (hbuilt : .built builder state ∈ events) : state.builder = builder := by
  have hall : (∀ event ∈ events, event.Sound) ∧
      ∃ uncachedOf, Tied uncachedOf system := by
    refine run.invariant (fun events system =>
      (∀ event ∈ events, event.Sound) ∧ ∃ uncachedOf, Tied uncachedOf system)
      ?_ ?_
    · exact ⟨fun _ hmem => absurd hmem List.not_mem_nil, Tied.new⟩
    rintro events system event system' ⟨hevents, uncachedOf, htied⟩ hstep
    obtain ⟨hevent, htied'⟩ := htied.step hstep
    refine ⟨fun other hmem => ?_, htied'⟩
    rcases List.mem_append.mp hmem with hmem | hmem
    · exact hevents other hmem
    · rwa [List.mem_singleton.mp hmem]
  exact hall.1 _ hbuilt

/-- A copy with a registry of its own asks after the original has, and for the
same cached configuration. -/
theorem copy_has_its_own_registry :
    ∃ events system builder state,
      Run Factories.Step (Factories.new Unit) events system ∧
      .built builder state ∈ events ∧
      builder.uncached.metrics = some 7 ∧ state.builder = builder := by
  let userAgent : UserAgent := ⟨none, ⟨"agent", "1.0.0"⟩, []⟩
  let config : ServiceConfig ServiceSettings :=
    ⟨["https://a"], ⟨none, none, none, none, none, none, none⟩⟩
  have h : exec Factories.next (Factories.new Unit)
      [.factory userAgent 0, .clone 0, .set 1 (.metrics 7),
        .stateBuilder 0 "service", .stateBuilder 1 "service",
        .build 0 config none 1 (some ()), .build 1 config none 2 (some ())] =
      some (_, _) := rfl
  have run : Run Factories.Step _ _ _ :=
    exec_run (fun hnext => ⟨_, hnext⟩) h
  refine ⟨_, _, _, _, run, List.mem_of_getElem? (i := 6) rfl, rfl, ?_⟩
  exact state_sharing_sound run (List.mem_of_getElem? (i := 6) rfl)

end ConjureRuntime.Client
