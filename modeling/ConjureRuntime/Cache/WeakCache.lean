import ConjureRuntime.Foundation.LinkedHashMap
import ConjureRuntime.Foundation.Transition
import Mathlib.Algebra.Group.Nat.Defs

/-!
# The weak cache

The cache holds weak references to the values that it made; the values are
owned by whoever asked for them.  A value that nobody owns any more cleans up
after itself: its last owner drops the evictor that it carries, and that takes
the lock of the cache.  Between the two the cache holds a dead entry.
-/

namespace ConjureRuntime.Cache

open ConjureRuntime.Foundation

def usizeMax : Nat := 2 ^ 64 - 1

variable {κ ν : Type}

structure CacheEvictor (κ : Type) where
  key : κ
  id : Nat

structure Cached (κ ν : Type) where
  value : ν
  evictor : CacheEvictor κ

/-- A value on the heap, how many `Arc`s there are of it, and whether its
evictor is through. -/
structure Allocation (κ ν : Type) where
  cached : Cached κ ν
  strong : Nat
  evicted : Bool

/-- The last `Arc` is gone, but the evictor has not come to the lock. -/
def Allocation.Pending (allocation : Allocation κ ν) : Prop :=
  allocation.strong = 0 ∧ allocation.evicted = false

/-- A weak reference is the name of what it refers to. -/
structure CachedValue where
  value : Nat
  id : Nat

structure Inner (κ : Type) where
  cache : LinkedHashMap κ CachedValue
  capacity : Nat
  nextId : Nat

/-- The cache, the values that it made, by their names, and the number of its
own handles. -/
structure WeakCache (κ ν : Type) where
  inner : Inner κ
  values : List (Allocation κ ν)
  handles : Nat

inductive Got where
  | hit (name : Nat)
  | made (name : Nat)
  | failed
  | panicked
  deriving DecidableEq

def Got.name? : Got → Option Nat
  | .hit name | .made name => some name
  | .failed | .panicked => none

inductive Op (κ ν : Type) where
  | get (key : κ) (made : Option ν)
  | clone (name : Nat)
  | drop (name : Nat)
  | evict (name : Nat)
  | cloneCache
  | dropCache

inductive Event (κ : Type) where
  | got (key : κ) (got : Got)
  | cloned (name : Nat)
  | dropped (name : Nat)
  | evicted (name : Nat)
  | cacheCloned
  | cacheDropped
  deriving DecidableEq

namespace WeakCache

variable [DecidableEq κ]

def new (κ ν : Type) (capacity : Nat) : WeakCache κ ν :=
  ⟨⟨∅, capacity, 0⟩, [], 1⟩

/-- `Weak::upgrade`, without the new `Arc`. -/
def upgrade (cache : WeakCache κ ν) (name : Nat) : Option Nat :=
  match cache.values[name]? with
  | some allocation => if 0 < allocation.strong then some name else none
  | none => none

def setStrong (cache : WeakCache κ ν) (name : Nat)
    (strong : Nat → Nat) : WeakCache κ ν :=
  { cache with values := cache.values.modify name fun allocation =>
      { allocation with strong := strong allocation.strong } }

def refresh (cache : WeakCache κ ν) (key : κ) : WeakCache κ ν :=
  { cache with inner :=
    { cache.inner with cache := cache.inner.cache.refresh key } }

def insert (cache : WeakCache κ ν) (key : κ) (value : ν) :
    WeakCache κ ν :=
  let id := cache.inner.nextId
  let entry : CachedValue := ⟨cache.values.length, id⟩
  { cache with
    inner :=
      { cache.inner with
        cache := .popWhile cache.inner.capacity
          (cache.inner.cache.insert key entry)
        nextId := id + 1 }
    values := cache.values ++ [⟨⟨value, ⟨key, id⟩⟩, 1, false⟩] }

/-- `made` is what `make_value` would return, without its error. -/
def get (cache : WeakCache κ ν) (key : κ) (made : Option ν) :
    Got × WeakCache κ ν :=
  match (cache.inner.cache.lookup key).bind fun state =>
      cache.upgrade state.value with
  | some name => (.hit name, (cache.refresh key).setStrong name (· + 1))
  | none =>
      match made with
      | none => (.failed, cache.refresh key)
      | some value =>
          if cache.inner.nextId < usizeMax then
            (.made cache.values.length,
              (cache.refresh key).insert key value)
          -- the counter of the identifiers overflows
          else (.panicked, cache.refresh key)

end WeakCache

/-- `drop` of an evictor, with the lock taken. -/
def Inner.evict [DecidableEq κ] (inner : Inner κ)
    (evictor : CacheEvictor κ) : Inner κ :=
  match inner.cache.lookup evictor.key with
  | some cachedState =>
      if cachedState.id = evictor.id then
        { inner with cache := inner.cache.erase evictor.key }
      else inner
  | none => inner

namespace WeakCache

variable [DecidableEq κ]

/-- The evictor of a value finds the cache, unless that is gone itself. -/
def evict (cache : WeakCache κ ν) (name : Nat)
    (evictor : CacheEvictor κ) : WeakCache κ ν :=
  { cache with
    inner :=
      if cache.handles = 0 then cache.inner else cache.inner.evict evictor
    values := cache.values.modify name fun allocation =>
      { allocation with evicted := true } }

def next (cache : WeakCache κ ν) : Op κ ν → Option (Event κ × WeakCache κ ν)
  | .get key made =>
      if 0 < cache.handles then
        let (got, cache) := cache.get key made
        some (.got key got, cache)
      else none
  | .clone name =>
      match cache.values[name]? with
      | some allocation =>
          if 0 < allocation.strong then
            some (.cloned name, cache.setStrong name (· + 1))
          else none
      | none => none
  | .drop name =>
      match cache.values[name]? with
      | some allocation =>
          if 0 < allocation.strong then
            some (.dropped name, cache.setStrong name (· - 1))
          else none
      | none => none
  | .evict name =>
      match cache.values[name]? with
      | some allocation =>
          if allocation.strong = 0 ∧ allocation.evicted = false then
            some (.evicted name, cache.evict name allocation.cached.evictor)
          else none
      | none => none
  | .cloneCache =>
      if 0 < cache.handles then
        some (.cacheCloned, { cache with handles := cache.handles + 1 })
      else none
  | .dropCache =>
      if 0 < cache.handles then
        some (.cacheDropped,
          { cache with
            handles := cache.handles - 1
            -- the map goes with the last handle
            inner :=
              if cache.handles = 1 then { cache.inner with cache := ∅ }
              else cache.inner })
      else none

def Step (cache : WeakCache κ ν) (event : Event κ)
    (cache' : WeakCache κ ν) : Prop :=
  ∃ op, cache.next op = some (event, cache')

end WeakCache

end ConjureRuntime.Cache
