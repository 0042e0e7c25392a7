import ConjureRuntime.Cache.Evictors
import ConjureRuntime.Cache.Lru

/-!
# The weak cache is a least recently used cache

When the last drop of a value and its evictor come together, the weak cache
does what the least recently used cache does: the entries that it has evicted,
by its capacity or by an evictor, never show.
-/

namespace ConjureRuntime.Cache

open ConjureRuntime.Foundation

variable {κ ν : Type} [DecidableEq κ]

namespace WeakCache

def performUse (cache : WeakCache κ ν) :
    Use κ ν → Option (Event κ × WeakCache κ ν)
  | .get key value => cache.next (.get key (some value))
  | .clone name => cache.next (.clone name)
  | .drop name =>
      match cache.next (.drop name) with
      | some (event, dropped) =>
          match dropped.next (.evict name) with
          | some (_, evicted) => some (event, evicted)
          | none => some (event, dropped)
      | none => none

def contents (cache : WeakCache κ ν) : List (ν × Nat) :=
  cache.values.map fun allocation =>
    (allocation.cached.value, allocation.strong)

variable {cache : WeakCache κ ν} {lru : Lru κ ν}

theorem performUse_run {use : Use κ ν} {event : Event κ}
    {cache' : WeakCache κ ν}
    (h : cache.performUse use = some (event, cache')) :
    ∃ events, Run Step cache events cache' := by
  cases use with
  | get key value => exact ⟨_, .step .refl ⟨.get key (some value), h⟩⟩
  | clone name => exact ⟨_, .step .refl ⟨.clone name, h⟩⟩
  | drop name =>
      simp only [performUse] at h
      split at h
      · rename_i dropped hdrop
        split at h
        · rename_i evicted hevict
          cases h
          exact ⟨_, .step (.step .refl ⟨_, hdrop⟩) ⟨_, hevict⟩⟩
        · cases h
          exact ⟨_, .step .refl ⟨_, hdrop⟩⟩
      · cases h

def entryName (entry : Sigma fun _ : κ => CachedValue) : κ × Nat :=
  (entry.1, entry.2.value)

/-- No evictor is on its way, and the entries and values are the same. -/
structure Refines (cache : WeakCache κ ν) (lru : Lru κ ν) : Prop where
  invariant : cache.Invariant
  settled : ∀ {name : Nat} {allocation : Allocation κ ν},
    cache.values[name]? = some allocation →
    (allocation.evicted = true ↔ allocation.strong = 0)
  handles : 0 < cache.handles
  capacity : cache.inner.capacity = lru.capacity
  entries : cache.inner.cache.entries.map entryName = lru.entries
  values : cache.contents = lru.values

theorem Refines.new (capacity : Nat) :
    Refines (new κ ν capacity) (Lru.new κ ν capacity) :=
  ⟨.new capacity, by simp [WeakCache.new], Nat.one_pos, rfl, rfl, rfl⟩

/-! ## Looking up a key -/

theorem find?_map_entryName
    (entries : List (Sigma fun _ : κ => CachedValue)) (key : κ) :
    (entries.map entryName).find? (fun entry => entry.1 = key) =
      (entries.dlookup key).map fun state => (key, state.value) := by
  induction entries with
  | nil => rfl
  | cons entry entries ih =>
      obtain ⟨other, state⟩ := entry
      by_cases hkey : other = key
      · subst hkey
        simp [entryName]
      · rw [List.map_cons, List.find?_cons_of_neg (by simp [entryName, hkey]),
          ih, List.dlookup_cons_ne _ _ (Ne.symm hkey)]

theorem Refines.find (h : Refines cache lru) (key : κ) :
    lru.find key = (cache.inner.cache.lookup key).map
      fun state => (key, state.value) := by
  rw [Lru.find, ← h.entries, find?_map_entryName]
  rfl

theorem Refines.upgrade (h : Refines cache lru) {key : κ}
    {state : CachedValue}
    (hstate : cache.inner.cache.lookup key = some state) :
    cache.upgrade state.value ≠ none := by
  obtain ⟨allocation, hvalue, -, hpending⟩ := h.invariant.entry hstate
  intro hnone
  have hevicted :=
    (h.settled hvalue).mpr (upgrade_eq_none hnone hvalue)
  rw [hpending] at hevicted
  cases hevicted

theorem length_values (h : Refines cache lru) :
    lru.values.length = cache.values.length := by
  rw [← h.values, contents, List.length_map]

omit [DecidableEq κ] in
theorem contents_setStrong {name : Nat} {strong : Nat → Nat} :
    (cache.setStrong name strong).contents =
      cache.contents.modify name fun value => (value.1, strong value.2) := by
  refine List.ext_getElem? fun other => ?_
  simp only [contents, setStrong, List.getElem?_map, List.getElem?_modify]
  cases cache.values[other]? with
  | none => rfl
  | some allocation =>
      simp only [Option.map_eq_map, Option.map_some]
      split <;> rfl

theorem Refines.value (h : Refines cache lru) (name : Nat) :
    lru.values[name]? = cache.values[name]?.map fun allocation =>
      (allocation.cached.value, allocation.strong) := by
  rw [← h.values, contents, List.getElem?_map]

/-! ## The operations -/

theorem Refines.setStrong (h : Refines cache lru) {name : Nat}
    {allocation : Allocation κ ν} {strong : Nat → Nat}
    (hvalue : cache.values[name]? = some allocation)
    (hlive : 0 < allocation.strong) (hstrong : 0 < strong allocation.strong) :
    Refines (cache.setStrong name strong) (lru.setReferences name strong)
    where
  invariant := h.invariant.setStrong name strong
  settled := by
    intro other after hafter
    obtain ⟨before, hbefore, rfl⟩ := getElem?_modify hafter
    have hsettled := h.settled hbefore
    split
    · rename_i hname
      subst hname
      cases hvalue.symm.trans hbefore
      simp only [hsettled]
      omega
    · exact hsettled
  handles := h.handles
  capacity := h.capacity
  entries := h.entries
  values := by
    rw [contents_setStrong, h.values]
    rfl

theorem map_touch (entries : List (Sigma fun _ : κ => CachedValue))
    (key : κ) (state : CachedValue) :
    List.map entryName
        (⟨key, state⟩ :: entries.filter fun entry => entry.1 ≠ key) =
      Lru.touch key state.value (entries.map entryName) := by
  rw [Lru.touch, List.map_cons, List.filter_map]
  rfl

theorem Refines.refresh (h : Refines cache lru) {key : κ}
    {state : CachedValue}
    (hstate : cache.inner.cache.lookup key = some state) :
    Refines (cache.refresh key)
      { lru with entries := Lru.touch key state.value lru.entries } where
  invariant := h.invariant.refresh key
  settled := h.settled
  handles := h.handles
  capacity := h.capacity
  entries := by
    simp only [WeakCache.refresh, LinkedHashMap.refresh, hstate]
    rw [LinkedHashMap.entries_insert_eq, map_touch, h.entries]
  values := h.values

theorem refresh_of_absent {key : κ}
    (h : cache.inner.cache.lookup key = none) :
    cache.refresh key = cache := by
  simp only [WeakCache.refresh, LinkedHashMap.refresh, h]

theorem Refines.insert (h : Refines cache lru) (key : κ) (value : ν) :
    Refines (cache.insert key value)
      { lru with
        entries := (Lru.touch key lru.values.length lru.entries).take
          lru.capacity
        values := lru.values ++ [(value, 1)] } where
  invariant := h.invariant.insert h.handles key value
  settled := by
    intro name allocation hname
    rcases WeakCache.getElem?_insert hname with hbefore | ⟨-, rfl⟩
    · exact h.settled hbefore
    · exact iff_of_false Bool.false_ne_true Nat.one_ne_zero
  handles := h.handles
  capacity := h.capacity
  entries := by
    simp only [WeakCache.insert]
    rw [LinkedHashMap.entries_popWhile, LinkedHashMap.entries_insert_eq,
      List.map_take, map_touch, h.entries, h.capacity, length_values h]
  values := by
    simp only [WeakCache.insert, contents, List.map_append, List.map_cons,
      List.map_nil]
    rw [← contents, h.values]

theorem Refines.get (h : Refines cache lru) (key : κ) (value : ν) :
    (cache.get key (some value)).1 = (lru.get key value).1 ∧
      Refines (cache.get key (some value)).2 (lru.get key value).2 := by
  have hfind := h.find key
  rcases cache.get_cases key (some value) with
    ⟨state, allocation, hstate, hvalue, hstrong, hget⟩ |
    ⟨hdead, ⟨hnone, -⟩ | ⟨made, hmade, hid, hget⟩ | ⟨hid, hget⟩⟩
  · rw [hstate, Option.map_some] at hfind
    rw [hget, Lru.get]
    simp only [hfind]
    exact ⟨trivial, (h.refresh hstate).setStrong hvalue hstrong
      (Nat.succ_pos _)⟩
  · cases hnone
  all_goals
    have habsent : cache.inner.cache.lookup key = none := by
      cases hstate : cache.inner.cache.lookup key with
      | none => rfl
      | some state => exact absurd (hdead state hstate) (h.upgrade hstate)
    rw [habsent, Option.map_none] at hfind
    rw [h.invariant.nextId, ← length_values h] at hid
    rw [hget, Lru.get]
    simp only [hfind, refresh_of_absent habsent]
  · cases hmade
    rw [if_pos hid]
    exact ⟨by rw [length_values h], h.insert key value⟩
  · rw [if_neg (Nat.not_lt.mpr hid)]
    exact ⟨rfl, h⟩

theorem Refines.evict (h : Refines cache lru) {name : Nat}
    {allocation : Allocation κ ν}
    (hvalue : cache.values[name]? = some allocation)
    (hlast : allocation.strong = 1) :
    Refines
      ((cache.setStrong name (· - 1)).evict name allocation.cached.evictor)
      { lru.setReferences name (· - 1) with
        entries := lru.entries.filter fun entry => entry.2 ≠ name } := by
  have hdropped := h.invariant.setStrong name (· - 1)
  have hvalue' : (cache.setStrong name (· - 1)).values[name]? =
      some { allocation with strong := allocation.strong - 1 } := by
    simp [WeakCache.setStrong, hvalue]
  have hinner : ((cache.setStrong name (· - 1)).evict name
      allocation.cached.evictor).inner.capacity = cache.inner.capacity := by
    unfold WeakCache.evict Inner.evict
    repeat' split
    all_goals rfl
  have hevicted := hdropped.evict hvalue'
  refine ⟨hevicted, ?_, h.handles, hinner.trans h.capacity, ?_, ?_⟩
  · intro other after hafter
    obtain ⟨dropped, hother, rfl⟩ := getElem?_modify hafter
    obtain ⟨before, hbefore, rfl⟩ := getElem?_modify hother
    split
    · rename_i hname
      subst hname
      cases hvalue.symm.trans hbefore
      simp [hlast]
    · exact h.settled hbefore
  · have hentries := hdropped.evict_entries hvalue'
    simp only [hentries, ← h.entries, List.filter_map]
    rfl
  · have hcontents : ((cache.setStrong name (· - 1)).evict name
        allocation.cached.evictor).contents =
        (cache.setStrong name (· - 1)).contents := by
      refine List.ext_getElem? fun other => ?_
      simp only [contents, WeakCache.evict, List.getElem?_map,
        List.getElem?_modify]
      cases (cache.setStrong name (· - 1)).values[other]? with
      | none => rfl
      | some allocation =>
          simp only [Option.map_eq_map, Option.map_some]
          split <;> rfl
    rw [hcontents, contents_setStrong, h.values]
    rfl

theorem Refines.drop (h : Refines cache lru) (name : Nat) :
    (cache.performUse (.drop name) = none ∧ lru.next (.drop name) = none) ∨
    ∃ event cache' lru',
      cache.performUse (.drop name) = some (event, cache') ∧
      lru.next (.drop name) = some (event, lru') ∧ Refines cache' lru' := by
  have hlru := h.value name
  cases hvalue : cache.values[name]? with
  | none =>
      rw [hvalue, Option.map_none] at hlru
      exact .inl ⟨by simp only [performUse, next, hvalue],
        by simp only [Lru.next, hlru]⟩
  | some allocation =>
      rw [hvalue, Option.map_some] at hlru
      by_cases hlive : 0 < allocation.strong
      · have hvalue' : (cache.setStrong name (· - 1)).values[name]? =
            some { allocation with strong := allocation.strong - 1 } := by
          simp [WeakCache.setStrong, hvalue]
        have hpending : allocation.evicted = false := by
          have := (h.settled hvalue).not.mpr hlive.ne'
          simpa using this
        refine .inr ⟨.dropped name, ?_⟩
        by_cases hlast : allocation.strong = 1
        · have hzero : allocation.strong - 1 = 0 := by omega
          refine ⟨_, _, ?_, ?_, h.evict hvalue hlast⟩
          · simp only [performUse, next, hvalue, hvalue', if_pos hlive,
              hzero, hpending, and_self, if_true]
          · simp only [Lru.next, hlru, if_pos hlive, if_pos hlast]
        · have hremains : allocation.strong - 1 ≠ 0 := by omega
          have hdropped : Refines (cache.setStrong name (· - 1))
              (lru.setReferences name (· - 1)) :=
            h.setStrong hvalue hlive (by omega)
          refine ⟨_, _, ?_, ?_, hdropped⟩
          · simp only [performUse, next, hvalue, hvalue', if_pos hlive,
              hremains, false_and, if_false]
          · simp only [Lru.next, hlru, if_pos hlive, if_neg hlast]
            rfl
      · exact .inl ⟨by simp only [performUse, next, hvalue, hlive, if_false],
          by simp only [Lru.next, hlru, hlive, if_false]⟩

theorem Refines.step (h : Refines cache lru) (use : Use κ ν) :
    (cache.performUse use = none ∧ lru.next use = none) ∨
    ∃ event cache' lru', cache.performUse use = some (event, cache') ∧
      lru.next use = some (event, lru') ∧ Refines cache' lru' := by
  cases use with
  | get key value =>
      obtain ⟨hgot, hrefines⟩ := h.get key value
      have hnext : cache.performUse (.get key value) =
          some (.got key (lru.get key value).1,
            (cache.get key (some value)).2) := by
        rw [← hgot]
        exact if_pos h.handles
      exact .inr ⟨_, _, _, hnext, rfl, hrefines⟩
  | clone name =>
      have hlru := h.value name
      cases hvalue : cache.values[name]? with
      | none =>
          rw [hvalue, Option.map_none] at hlru
          exact .inl ⟨by simp only [WeakCache.performUse, next, hvalue],
            by simp only [Lru.next, hlru]⟩
      | some allocation =>
          rw [hvalue, Option.map_some] at hlru
          by_cases hlive : 0 < allocation.strong
          · have hcloned : Refines (cache.setStrong name (· + 1))
                (lru.setReferences name (· + 1)) :=
              h.setStrong hvalue hlive (Nat.succ_pos _)
            refine .inr ⟨.cloned name, _, _, ?_, ?_, hcloned⟩
            · simp only [WeakCache.performUse, next, hvalue, hlive, if_true]
            · simp only [Lru.next, hlru, hlive, if_true]
          · exact .inl ⟨by simp only [WeakCache.performUse, next, hvalue,
              hlive, if_false], by simp only [Lru.next, hlru, hlive,
              if_false]⟩
  | drop name => exact h.drop name

theorem Refines.outcomes (h : Refines cache lru) (uses : List (Use κ ν)) :
    (exec performUse cache uses).map
        (fun result => (result.1, result.2.contents)) =
      (exec Lru.next lru uses).map fun result => (result.1, result.2.values) :=
  exec_simulation (fun h => Refines.values h)
    (fun h use => Refines.step h use) h uses

theorem Refines.run {events : List (Event κ)} {cache' : WeakCache κ ν}
    {uses : List (Use κ ν)} (h : Refines cache lru)
    (hexec : exec performUse cache uses = some (events, cache')) :
    ∃ lru', Run Lru.Step lru events lru' ∧ Refines cache' lru' := by
  induction uses generalizing cache lru events with
  | nil =>
      cases hexec
      exact ⟨lru, .refl, h⟩
  | cons use uses ih =>
      rcases h.step use with ⟨hnone, -⟩ |
        ⟨event, mid, mid', hperform, hnext, hmid⟩
      · simp [Foundation.exec, hnone] at hexec
      · simp only [Foundation.exec, hperform] at hexec
        split at hexec
        · cases hexec
        · rename_i later last hlater
          cases hexec
          obtain ⟨lru', run, hlast⟩ := ih hmid hlater
          have hfirst : Run Lru.Step lru ([] ++ [event]) mid' :=
            .step .refl ⟨use, hnext⟩
          exact ⟨lru', hfirst.trans run, hlast⟩

/-- Gets, clones and drops have the outcomes that they have on a least recently
used cache.  A key whose value is still referred to is a hit, whatever
`make_value` would do, unless other keys enough to fill the cache were used
since. -/
theorem refines_lru (capacity : Nat) (uses : List (Use κ ν)) :
    (exec performUse (WeakCache.new κ ν capacity) uses).map
        (fun result => (result.1, result.2.contents)) =
      (exec Lru.next (Lru.new κ ν capacity) uses).map
        (fun result => (result.1, result.2.values)) ∧
    ∀ before key got after cache name allocation,
      exec performUse (WeakCache.new κ ν capacity) uses =
        some (before ++ .got key got :: after, cache) →
      got.name? = some name → cache.values[name]? = some allocation →
      0 < allocation.strong → (othersUsed key after).card < capacity →
      ∀ made, (cache.get key made).1 = .hit name := by
  refine ⟨(Refines.new capacity).outcomes uses, ?_⟩
  intro before key got after cache name allocation hexec hgot hvalue hlive
    hfew made
  obtain ⟨lru, run, hrefines⟩ := (Refines.new capacity).run hexec
  have hreferences : 0 < lru.references name := by
    simpa [Lru.references, hrefines.value, hvalue] using hlive
  have hfind := Lru.recently_used_hits hgot run hreferences hfew
  rw [hrefines.find key] at hfind
  obtain ⟨state, hstate, hname⟩ := Option.map_eq_some_iff.mp hfind
  cases hname
  rcases cache.get_cases key made with
    ⟨state', _, hstate', -, -, hget⟩ | ⟨hdead, -⟩
  · cases hstate.symm.trans hstate'
    rw [hget]
  · exact absurd (hdead state hstate) (hrefines.upgrade hstate)

/-- Of three keys in a cache for two, the one used before the last is still
there. -/
theorem second_key_hits :
    ∃ events cache,
      exec performUse (WeakCache.new Nat String 2)
          [.get 0 "zero", .get 1 "one", .get 2 "two"] =
        some (events, cache) ∧
      ∀ made, (cache.get 1 made).1 = .hit 1 := by
  have h : exec performUse (WeakCache.new Nat String 2)
      [.get 0 "zero", .get 1 "one", .get 2 "two"] = some (_, _) := rfl
  exact ⟨_, _, h, (refines_lru 2
    [.get 0 "zero", .get 1 "one", .get 2 "two"]).2 [.got 0 (.made 0)] 1
    (.made 1) [.got 2 (.made 2)] _ 1 _ h rfl rfl (by decide) (by decide)⟩

end WeakCache

end ConjureRuntime.Cache
