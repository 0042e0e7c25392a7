import ConjureRuntime.Cache.WeakCache
import ConjureRuntime.Foundation.ListSum

/-!
# Evictors only evict their own values

Every value carries an identifier of its own, so that an evictor finds out
whether the entry of its key is still the one it came from.
-/

namespace ConjureRuntime.Cache

open ConjureRuntime.Foundation

variable {κ ν : Type} [DecidableEq κ]

namespace WeakCache

variable {cache cache' : WeakCache κ ν} {event : Event κ}

/-- Every entry leads to the value it was made for, whose evictor is still to
come; identifiers are given to one value each. -/
structure Invariant (cache : WeakCache κ ν) : Prop where
  entry : ∀ {key state}, cache.inner.cache.lookup key = some state →
    ∃ allocation, cache.values[state.value]? = some allocation ∧
      allocation.cached.evictor = ⟨key, state.id⟩ ∧
      allocation.evicted = false
  ids : ∀ {name : Nat} {allocation : Allocation κ ν},
    cache.values[name]? = some allocation →
    allocation.cached.evictor.id = name
  nextId : cache.inner.nextId = cache.values.length
  within : cache.inner.cache.entries.length ≤ cache.inner.capacity
  gone : cache.handles = 0 → cache.inner.cache.entries = []

theorem Invariant.new (capacity : Nat) :
    (new κ ν capacity).Invariant where
  entry := by simp [WeakCache.new]
  ids := by simp [WeakCache.new]
  nextId := rfl
  within := Nat.zero_le _
  gone := fun _ => rfl

/-! ## What the operations do to the values -/

omit [DecidableEq κ] in
theorem upgrade_eq_some {name name' : Nat}
    (h : cache.upgrade name = some name') :
    name' = name ∧ ∃ allocation, cache.values[name]? = some allocation ∧
      0 < allocation.strong := by
  unfold upgrade at h
  split at h
  next allocation hvalue =>
    split at h
    next hstrong =>
      cases h
      exact ⟨rfl, allocation, hvalue, hstrong⟩
    next => cases h
  next => cases h

omit [DecidableEq κ] in
theorem upgrade_eq_none {name : Nat} {allocation : Allocation κ ν}
    (h : cache.upgrade name = none)
    (hvalue : cache.values[name]? = some allocation) :
    allocation.strong = 0 := by
  simp only [upgrade, hvalue] at h
  split at h
  · cases h
  · omega

omit [DecidableEq κ] in
theorem getElem?_modify {values : List (Allocation κ ν)} {name other : Nat}
    {f : Allocation κ ν → Allocation κ ν} {allocation : Allocation κ ν}
    (h : (values.modify name f)[other]? = some allocation) :
    ∃ before, values[other]? = some before ∧
      allocation = if name = other then f before else before := by
  rw [List.getElem?_modify] at h
  cases hbefore : values[other]? with
  | none => simp [hbefore] at h
  | some before =>
      refine ⟨before, rfl, ?_⟩
      simp only [hbefore, Option.map_eq_map, Option.map_some,
        Option.some.injEq] at h
      split
      next hname =>
        rw [if_pos hname] at h
        exact h.symm
      next hname =>
        rw [if_neg hname] at h
        exact h.symm

theorem getElem?_insert {name : Nat} {key : κ} {value : ν}
    {allocation : Allocation κ ν}
    (h : (cache.insert key value).values[name]? = some allocation) :
    cache.values[name]? = some allocation ∨
      (name = cache.values.length ∧
        allocation = ⟨⟨value, ⟨key, cache.inner.nextId⟩⟩, 1, false⟩) :=
  getElem?_append_singleton_cases h

theorem Invariant.modify {f : Allocation κ ν → Allocation κ ν}
    (h : cache.Invariant) (name : Nat)
    (hvalues : cache'.values = cache.values.modify name f)
    (hcached : ∀ allocation, (f allocation).cached = allocation.cached)
    (hnextId : cache'.inner.nextId = cache.inner.nextId)
    (hwithin : cache'.inner.cache.entries.length ≤ cache'.inner.capacity)
    (hgone : cache'.handles = 0 → cache'.inner.cache.entries = [])
    (hentry : ∀ {key state},
      cache'.inner.cache.lookup key = some state →
      cache.inner.cache.lookup key = some state ∧
        (state.value = name →
          ∀ allocation, (f allocation).evicted = allocation.evicted)) :
    cache'.Invariant where
  entry := by
    intro key state hstate
    obtain ⟨hbefore, hevicted⟩ := hentry hstate
    obtain ⟨allocation, hvalue, hevictor, hpending⟩ := h.entry hbefore
    refine ⟨_, by rw [hvalues, List.getElem?_modify, hvalue]; rfl, ?_, ?_⟩
    · split
      · rw [hcached, hevictor]
      · exact hevictor
    · split
      next hname => rw [hevicted hname.symm, hpending]
      next => exact hpending
  ids := by
    intro other allocation hother
    rw [hvalues] at hother
    obtain ⟨before, hbefore, rfl⟩ := getElem?_modify hother
    split
    · rw [hcached]
      exact h.ids hbefore
    · exact h.ids hbefore
  nextId := by
    rw [hnextId, h.nextId, hvalues, List.length_modify]
  within := hwithin
  gone := hgone

theorem Invariant.refresh (h : cache.Invariant) (key : κ) :
    (cache.refresh key).Invariant where
  entry := fun hstate =>
    h.entry (LinkedHashMap.lookup_refresh.symm.trans hstate)
  ids := h.ids
  nextId := h.nextId
  within :=
    Nat.le_trans (Nat.le_of_eq (LinkedHashMap.length_refresh _ _)) h.within
  gone := fun hhandles => List.eq_nil_of_length_eq_zero
    ((LinkedHashMap.length_refresh _ _).trans
      (congrArg List.length (h.gone hhandles)))

theorem Invariant.setStrong (h : cache.Invariant) (name : Nat)
    (strong : Nat → Nat) : (cache.setStrong name strong).Invariant :=
  h.modify name rfl (fun _ => rfl) rfl h.within h.gone
    fun hstate => ⟨hstate, fun _ _ => rfl⟩

theorem Invariant.insert (h : cache.Invariant) (hhandles : 0 < cache.handles)
    (key : κ) (value : ν) :
    (cache.insert key value).Invariant where
  entry := by
    intro other state hstate
    rcases LinkedHashMap.lookup_insert_eq_some
      (LinkedHashMap.lookup_of_popWhile hstate) with ⟨rfl, rfl⟩ | hbefore
    · exact ⟨_, List.getElem?_concat_length, rfl, rfl⟩
    · obtain ⟨allocation, hvalue, hevictor, hpending⟩ := h.entry hbefore
      have hlt : state.value < cache.values.length :=
        (List.getElem?_eq_some_iff.mp hvalue).1
      exact ⟨allocation, (List.getElem?_append_left hlt).trans hvalue,
        hevictor, hpending⟩
  ids := by
    intro name allocation hname
    rcases getElem?_insert hname with hbefore | ⟨rfl, rfl⟩
    · exact h.ids hbefore
    · exact h.nextId
  nextId := by
    simp [WeakCache.insert, h.nextId]
  within := LinkedHashMap.length_popWhile_le _ _
  gone := fun hzero => absurd hzero (Nat.ne_of_gt hhandles)

/-! ## What a `get` returns -/

theorem get_cases (cache : WeakCache κ ν) (key : κ) (made : Option ν) :
    (∃ state allocation,
      cache.inner.cache.lookup key = some state ∧
      cache.values[state.value]? = some allocation ∧
      0 < allocation.strong ∧
      cache.get key made =
        (.hit state.value, (cache.refresh key).setStrong state.value (· + 1))) ∨
    (∀ state, cache.inner.cache.lookup key = some state →
      cache.upgrade state.value = none) ∧
    ((made = none ∧ cache.get key made = (.failed, cache.refresh key)) ∨
      (∃ value, made = some value ∧ cache.inner.nextId < usizeMax ∧
        cache.get key made = (.made cache.values.length,
          (cache.refresh key).insert key value)) ∨
      (usizeMax ≤ cache.inner.nextId ∧
        cache.get key made = (.panicked, cache.refresh key))) := by
  cases hup : (cache.inner.cache.lookup key).bind fun state =>
      cache.upgrade state.value with
  | some name =>
      obtain ⟨state, hstate, hupgrade⟩ := Option.bind_eq_some_iff.mp hup
      obtain ⟨rfl, allocation, hvalue, hstrong⟩ := upgrade_eq_some hupgrade
      exact .inl ⟨state, allocation, hstate, hvalue, hstrong,
        by simp only [get, hup]⟩
  | none =>
      refine .inr ⟨fun state hstate =>
        Option.bind_eq_none_iff.mp hup state hstate, ?_⟩
      cases made with
      | none => exact .inl ⟨rfl, by simp only [get, hup]⟩
      | some value =>
          by_cases hid : cache.inner.nextId < usizeMax
          · exact .inr (.inl ⟨value, rfl, hid,
              by simp only [get, hup, if_pos hid]⟩)
          · exact .inr (.inr ⟨Nat.not_lt.mp hid,
              by simp only [get, hup, if_neg hid]⟩)

theorem Invariant.get (h : cache.Invariant) (hhandles : 0 < cache.handles)
    (key : κ) (made : Option ν) :
    (cache.get key made).2.Invariant := by
  rcases cache.get_cases key made with ⟨state, _, -, -, -, hget⟩ |
    ⟨-, ⟨-, hget⟩ | ⟨value, -, -, hget⟩ | ⟨-, hget⟩⟩
  · exact hget ▸ (h.refresh key).setStrong state.value _
  · exact hget ▸ h.refresh key
  · exact hget ▸ (h.refresh key).insert hhandles key value
  · exact hget ▸ h.refresh key

/-! ## What an evictor removes -/

theorem mem_entries {key : κ} {state : CachedValue} :
    (⟨key, state⟩ : Sigma fun _ : κ => CachedValue) ∈
        cache.inner.cache.entries ↔
      cache.inner.cache.lookup key = some state :=
  AList.mem_lookup_iff.symm

theorem Invariant.entries_evict (h : cache.Invariant) {name : Nat}
    {allocation : Allocation κ ν}
    (hvalue : cache.values[name]? = some allocation) :
    (cache.inner.evict allocation.cached.evictor).cache.entries =
      cache.inner.cache.entries.filter
        fun entry => entry.2.value ≠ name := by
  -- an entry is one of this value if it has the key and the identifier
  have hown : ∀ entry ∈ cache.inner.cache.entries, entry.2.value = name →
      entry.1 = allocation.cached.evictor.key ∧
        entry.2.id = allocation.cached.evictor.id := by
    rintro ⟨key, state⟩ hmem rfl
    obtain ⟨_, hentry, hevictor, -⟩ := h.entry (mem_entries.mp hmem)
    cases hvalue.symm.trans hentry
    simp [hevictor]
  have hid := h.ids hvalue
  unfold Inner.evict
  split
  · rename_i state hstate
    split
    · rename_i hsame
      rw [LinkedHashMap.entries_erase_eq]
      refine List.filter_congr fun entry hmem => ?_
      have hiff : entry.1 = allocation.cached.evictor.key ↔
          entry.2.value = name := by
        refine ⟨fun hkey => ?_, fun heq => (hown entry hmem heq).1⟩
        obtain ⟨key, value⟩ := entry
        cases hkey
        cases (mem_entries.mp hmem).symm.trans hstate
        obtain ⟨other, hentry, hevictor, -⟩ := h.entry hstate
        have hother := h.ids hentry
        rw [hevictor] at hother
        exact hother.symm.trans (hsame.trans hid)
      exact decide_eq_decide.mpr (not_congr hiff)
    · rename_i hdiffers
      refine (List.filter_eq_self.mpr fun entry hmem => ?_).symm
      refine decide_eq_true fun heq => hdiffers ?_
      obtain ⟨hkey, hsame⟩ := hown entry hmem heq
      obtain ⟨key, value⟩ := entry
      cases hkey
      cases (mem_entries.mp hmem).symm.trans hstate
      exact hsame
  · rename_i hnone
    refine (List.filter_eq_self.mpr fun entry hmem => ?_).symm
    refine decide_eq_true fun heq => ?_
    obtain ⟨hkey, -⟩ := hown entry hmem heq
    obtain ⟨key, value⟩ := entry
    cases hkey
    exact absurd ((mem_entries.mp hmem).symm.trans hnone) nofun

theorem Invariant.evict_entries (h : cache.Invariant) {name : Nat}
    {allocation : Allocation κ ν}
    (hvalue : cache.values[name]? = some allocation) :
    (cache.evict name allocation.cached.evictor).inner.cache.entries =
      cache.inner.cache.entries.filter
        fun entry => entry.2.value ≠ name := by
  unfold WeakCache.evict
  split
  · rename_i hhandles
    simp only [h.gone hhandles, List.filter_nil]
  · exact h.entries_evict hvalue

theorem Invariant.evict (h : cache.Invariant) {name : Nat}
    {allocation : Allocation κ ν}
    (hvalue : cache.values[name]? = some allocation) :
    (cache.evict name allocation.cached.evictor).Invariant := by
  have hentries := h.evict_entries hvalue
  have hinner : (cache.evict name allocation.cached.evictor).inner.nextId =
        cache.inner.nextId ∧
      (cache.evict name allocation.cached.evictor).inner.capacity =
        cache.inner.capacity := by
    unfold WeakCache.evict Inner.evict
    repeat' split
    all_goals exact ⟨rfl, rfl⟩
  refine h.modify name rfl (fun _ => rfl) hinner.1 ?_ ?_ ?_
  · rw [hentries, hinner.2]
    exact Nat.le_trans (List.length_filter_le _ _) h.within
  · intro hhandles
    rw [hentries, h.gone hhandles, List.filter_nil]
  · intro key state hstate
    rw [← mem_entries, hentries, List.mem_filter, decide_eq_true_iff]
      at hstate
    exact ⟨mem_entries.mp hstate.1, fun heq => absurd heq hstate.2⟩

/-! ## Runs -/

theorem Invariant.step (h : cache.Invariant)
    (hstep : Step cache event cache') : cache'.Invariant := by
  obtain ⟨op, hnext⟩ := hstep
  cases op with
  | get key made =>
      simp only [next] at hnext
      split at hnext
      next hhandles =>
        cases hnext
        exact h.get hhandles key made
      next => cases hnext
  | clone name | drop name =>
      simp only [next] at hnext
      split at hnext
      · split at hnext
        · cases hnext
          exact h.setStrong name _
        · cases hnext
      · cases hnext
  | evict name =>
      simp only [next] at hnext
      split at hnext
      next allocation hvalue =>
        split at hnext
        next =>
          cases hnext
          exact h.evict hvalue
        next => cases hnext
      next => cases hnext
  | cloneCache =>
      simp only [next] at hnext
      split at hnext
      · cases hnext
        exact ⟨h.entry, h.ids, h.nextId, h.within, nofun⟩
      · cases hnext
  | dropCache =>
      simp only [next] at hnext
      split at hnext
      · cases hnext
        by_cases hlast : cache.handles = 1
        · simp only [if_pos hlast]
          exact ⟨nofun, h.ids, h.nextId, Nat.zero_le _, fun _ => rfl⟩
        · simp only [if_neg hlast]
          refine ⟨h.entry, h.ids, h.nextId, h.within, fun hzero => ?_⟩
          have hzero : cache.handles - 1 = 0 := hzero
          omega
      · cases hnext

/-- What holds between any two steps: the map is within its capacity, and a
dead entry waits for an evictor. -/
structure Sound (cache : WeakCache κ ν) : Prop where
  within : cache.inner.cache.entries.length ≤ cache.inner.capacity
  alive : (∀ allocation ∈ cache.values, ¬ allocation.Pending) →
    ∀ key state, cache.inner.cache.lookup key = some state →
      ∃ allocation, cache.values[state.value]? = some allocation ∧
        0 < allocation.strong

/-- What a step does: an evictor removes the entries of its own value and no
others, and a hit returns a live value that was made for the same key. -/
structure SoundStep (cache : WeakCache κ ν) (event : Event κ)
    (cache' : WeakCache κ ν) : Prop where
  evicts : ∀ name, event = .evicted name →
    cache'.inner.cache.entries = cache.inner.cache.entries.filter
      fun entry => entry.2.value ≠ name
  hits : ∀ key name, event = .got key (.hit name) →
    ∃ allocation, cache.values[name]? = some allocation ∧
      0 < allocation.strong ∧ allocation.cached.evictor.key = key

theorem Invariant.sound (h : cache.Invariant) : cache.Sound where
  within := h.within
  alive := by
    intro hnone key state hstate
    obtain ⟨allocation, hvalue, -, hpending⟩ := h.entry hstate
    refine ⟨allocation, hvalue, Nat.pos_of_ne_zero fun hstrong => ?_⟩
    exact hnone allocation (List.mem_of_getElem? hvalue) ⟨hstrong, hpending⟩

theorem Invariant.hit (h : cache.Invariant) {key : κ} {made : Option ν}
    {name : Nat} (hget : (cache.get key made).1 = .hit name) :
    ∃ allocation, cache.values[name]? = some allocation ∧
      0 < allocation.strong ∧ allocation.cached.evictor.key = key := by
  rcases cache.get_cases key made with
    ⟨state, allocation, hstate, hvalue, hstrong, heq⟩ |
    ⟨-, ⟨-, heq⟩ | ⟨value, -, -, heq⟩ | ⟨-, heq⟩⟩
  · rw [heq] at hget
    cases hget
    obtain ⟨entry, hentry, hevictor, -⟩ := h.entry hstate
    cases hvalue.symm.trans hentry
    exact ⟨allocation, hvalue, hstrong, congrArg CacheEvictor.key hevictor⟩
  all_goals
    rw [heq] at hget
    cases hget

theorem Invariant.soundStep (h : cache.Invariant)
    (hstep : Step cache event cache') : SoundStep cache event cache' := by
  obtain ⟨op, hnext⟩ := hstep
  constructor
  · rintro name rfl
    cases op with
    | evict other =>
        simp only [next] at hnext
        split at hnext
        next allocation hvalue =>
          split at hnext
          next =>
            cases hnext
            exact h.evict_entries hvalue
          next => cases hnext
        next => cases hnext
    | get | clone | drop | cloneCache | dropCache =>
        simp only [next] at hnext
        repeat' split at hnext
        all_goals cases hnext
  · rintro key name rfl
    cases op with
    | get other made =>
        simp only [next] at hnext
        split at hnext
        · simp only [Option.some.injEq, Prod.mk.injEq,
            Event.got.injEq] at hnext
          obtain ⟨⟨rfl, hget⟩, -⟩ := hnext
          exact h.hit hget
        · cases hnext
    | clone | drop | evict | cloneCache | dropCache =>
        simp only [next] at hnext
        repeat' split at hnext
        all_goals cases hnext

theorem run_invariant {capacity : Nat} {events : List (Event κ)}
    (run : Run Step (new κ ν capacity) events cache) : cache.Invariant :=
  run.invariant (fun _ cache => cache.Invariant) (.new capacity)
    fun h hstep => h.step hstep

/-- Whatever the order of gets, clones, drops and evictors: the map stays
within its capacity and holds live values but for those with an evictor to
come, and no step evicts or returns a value that is not its own. -/
theorem evictors_hurt_no_others {capacity : Nat} {events : List (Event κ)}
    (run : Run Step (new κ ν capacity) events cache) :
    cache.Sound ∧ ∀ event cache', Step cache event cache' →
      SoundStep cache event cache' := by
  have h := run_invariant run
  exact ⟨h.sound, fun _ _ hstep => h.soundStep hstep⟩

/-- A key is made again while the evictor of its first value is on its way;
the evictor then leaves the new entry alone. -/
theorem late_evictor_hurts_nobody :
    ∃ events cache,
      Run Step (new Nat String 2) events cache ∧
      cache.inner.cache.lookup 7 = some ⟨1, 1⟩ ∧ cache.Sound := by
  have h : exec next (new Nat String 2)
      [.get 7 (some "first"), .drop 0, .get 7 (some "second"), .evict 0] =
        some (_, _) := rfl
  have run : Run Step _ _ _ := exec_run (fun hnext => ⟨_, hnext⟩) h
  exact ⟨_, _, run, rfl, (evictors_hurt_no_others run).1⟩

end WeakCache

end ConjureRuntime.Cache
