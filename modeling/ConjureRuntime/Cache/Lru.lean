import ConjureRuntime.Cache.WeakCache
import Mathlib.Data.Finset.Card
import Mathlib.Data.Finset.Dedup

/-!
# The least recently used cache

What the weak cache is for: a cache of a fixed capacity that gives up the
least recently used entry for a new one, and the entry of a value as soon as
nobody outside refers to the value.
-/

namespace ConjureRuntime.Cache

open ConjureRuntime.Foundation

variable {κ ν : Type}

inductive Use (κ ν : Type) where
  | get (key : κ) (value : ν)
  | clone (name : Nat)
  | drop (name : Nat)

/-- The entries, the most recently used first, and the values by their names,
with the number of references from outside. -/
structure Lru (κ ν : Type) where
  capacity : Nat
  entries : List (κ × Nat)
  values : List (ν × Nat)

namespace Lru

variable [DecidableEq κ]

def new (κ ν : Type) (capacity : Nat) : Lru κ ν := ⟨capacity, [], []⟩

def touch (key : κ) (name : Nat) (entries : List (κ × Nat)) :
    List (κ × Nat) :=
  (key, name) :: entries.filter fun entry => entry.1 ≠ key

def find (lru : Lru κ ν) (key : κ) : Option (κ × Nat) :=
  lru.entries.find? fun entry => entry.1 = key

def setReferences (lru : Lru κ ν) (name : Nat) (references : Nat → Nat) :
    Lru κ ν :=
  { lru with values := lru.values.modify name fun value =>
      (value.1, references value.2) }

def get (lru : Lru κ ν) (key : κ) (value : ν) : Got × Lru κ ν :=
  match lru.find key with
  | some (_, name) =>
      (.hit name, { lru.setReferences name (· + 1) with
        entries := touch key name lru.entries })
  | none =>
      -- there are only so many names
      if lru.values.length < usizeMax then
        (.made lru.values.length,
          { lru with
            entries :=
              (touch key lru.values.length lru.entries).take lru.capacity
            values := lru.values ++ [(value, 1)] })
      else (.panicked, lru)

def next (lru : Lru κ ν) : Use κ ν → Option (Event κ × Lru κ ν)
  | .get key value =>
      let (got, lru) := lru.get key value
      some (.got key got, lru)
  | .clone name =>
      match lru.values[name]? with
      | some (_, references) =>
          if 0 < references then
            some (.cloned name, lru.setReferences name (· + 1))
          else none
      | none => none
  | .drop name =>
      match lru.values[name]? with
      | some (_, references) =>
          if 0 < references then
            some (.dropped name,
              { lru.setReferences name (· - 1) with
                entries :=
                  if references = 1 then
                    lru.entries.filter fun entry => entry.2 ≠ name
                  else lru.entries })
          else none
      | none => none

def Step (lru : Lru κ ν) (event : Event κ) (lru' : Lru κ ν) : Prop :=
  ∃ use, lru.next use = some (event, lru')

end Lru

/-! ## Recent use -/

def Event.key? : Event κ → Option κ
  | .got key _ => some key
  | _ => none

def othersUsed [DecidableEq κ] (key : κ) (events : List (Event κ)) :
    Finset κ :=
  (events.filterMap Event.key?).toFinset.erase key

namespace Lru

variable [DecidableEq κ] {lru lru' : Lru κ ν} {key : κ} {name : Nat}
  {events : List (Event κ)} {event : Event κ}

def references (lru : Lru κ ν) (name : Nat) : Nat :=
  (lru.values[name]?.map Prod.snd).getD 0

omit [DecidableEq κ] in
@[simp] theorem references_setReferences_ne {name' : Nat} {f : Nat → Nat}
    (h : name' ≠ name) :
    (lru.setReferences name' f).references name = lru.references name := by
  simp [references, setReferences, h]

omit [DecidableEq κ] in
@[simp] theorem references_setReferences {f : Nat → Nat}
    (h : name < lru.values.length) :
    (lru.setReferences name f).references name =
      f (lru.references name) := by
  simp [references, setReferences, h]

/-- The entry of a key is there, and those before it are of other keys used;
or of such keys there are enough to fill the cache. -/
def Recent (key : κ) (name : Nat) (events : List (Event κ))
    (lru : Lru κ ν) : Prop :=
  (∃ newer older, lru.entries = newer ++ (key, name) :: older ∧
    (newer.map Prod.fst).Nodup ∧
    ∀ entry ∈ newer, entry.1 ∈ othersUsed key events) ∨
  lru.capacity ≤ (othersUsed key events).card

theorem othersUsed_append :
    othersUsed key events ⊆ othersUsed key (events ++ [event]) := by
  intro other hmem
  simp only [othersUsed, Finset.mem_erase, List.mem_toFinset,
    List.filterMap_append, List.mem_append] at hmem ⊢
  exact ⟨hmem.1, .inl hmem.2⟩

theorem mem_othersUsed_got {other : κ} {got : Got} (h : other ≠ key) :
    other ∈ othersUsed key (events ++ [.got other got]) := by
  simp [othersUsed, Event.key?, h]

theorem find_of_recent {newer older : List (κ × Nat)}
    (hentries : lru.entries = newer ++ (key, name) :: older)
    (hnewer : ∀ entry ∈ newer, entry.1 ∈ othersUsed key events) :
    lru.find key = some (key, name) := by
  have hnone : newer.find? (fun entry => entry.1 = key) = none := by
    refine List.find?_eq_none.mpr fun entry hmem => ?_
    have hne : entry.1 ≠ key := (Finset.mem_erase.mp (hnewer entry hmem)).1
    simpa using hne
  simp [find, hentries, List.find?_append, hnone]

theorem recent_touch {other : κ} {name' : Nat} {got : Got}
    (hother : other ≠ key) (h : Recent key name events lru)
    (hcapacity : lru'.capacity = lru.capacity)
    (hentries : lru'.entries = touch other name' lru.entries ∨
      lru'.entries =
        (touch other name' lru.entries).take lru.capacity) :
    Recent key name (events ++ [.got other got]) lru' := by
  rcases h with ⟨newer, older, hbefore, hnodup, hnewer⟩ | hfull
  · let newer' := touch other name' newer
    let older' := older.filter fun entry => entry.1 ≠ other
    have htouch : touch other name' lru.entries =
        newer' ++ (key, name) :: older' := by
      simp [touch, newer', older', hbefore, List.filter_append,
        hother.symm]
    have hnodup' : (newer'.map Prod.fst).Nodup := by
      refine List.nodup_cons.mpr ⟨?_, ?_⟩
      · simp
      · exact hnodup.sublist (List.filter_sublist.map Prod.fst)
    have hnewer' : ∀ entry ∈ newer',
        entry.1 ∈ othersUsed key (events ++ [.got other got]) := by
      intro entry hmem
      rcases List.mem_cons.mp hmem with rfl | hmem
      · exact mem_othersUsed_got hother
      · exact othersUsed_append (hnewer entry (List.mem_of_mem_filter hmem))
    by_cases hfits : newer'.length < lru.capacity
    · left
      rcases hentries with hentries | hentries
      · exact ⟨newer', older', hentries.trans htouch, hnodup', hnewer'⟩
      · refine ⟨newer', older'.take (lru.capacity - newer'.length - 1), ?_,
          hnodup', hnewer'⟩
        rw [hentries, htouch, List.take_append,
          List.take_of_length_le hfits.le]
        obtain ⟨room, hroom⟩ : ∃ room,
            lru.capacity - newer'.length = room + 1 :=
          ⟨lru.capacity - newer'.length - 1, by omega⟩
        rw [hroom, List.take_succ_cons, Nat.add_sub_cancel]
    · right
      rw [hcapacity]
      calc lru.capacity ≤ newer'.length := Nat.not_lt.mp hfits
        _ = (newer'.map Prod.fst).toFinset.card := by
          rw [List.toFinset_card_of_nodup hnodup', List.length_map]
        _ ≤ _ := Finset.card_le_card fun used hmem => by
          obtain ⟨entry, hentry, rfl⟩ :=
            List.mem_map.mp (List.mem_toFinset.mp hmem)
          exact hnewer' entry hentry
  · right
    rw [hcapacity]
    exact hfull.trans (Finset.card_le_card othersUsed_append)

theorem recent_of_entries (h : Recent key name events lru)
    (hcapacity : lru'.capacity = lru.capacity)
    (hentries : ∃ keep : κ × Nat → Bool, keep (key, name) = true ∧
      lru'.entries = lru.entries.filter keep) :
    Recent key name (events ++ [event]) lru' := by
  rcases h with ⟨newer, older, hbefore, hnodup, hnewer⟩ | hfull
  · obtain ⟨keep, hkeep, hentries⟩ := hentries
    refine .inl ⟨newer.filter keep, older.filter keep, ?_, ?_, ?_⟩
    · rw [hentries, hbefore, List.filter_append,
        List.filter_cons_of_pos hkeep]
    · exact hnodup.sublist (List.filter_sublist.map Prod.fst)
    · exact fun entry hmem =>
        othersUsed_append (hnewer entry (List.mem_of_mem_filter hmem))
  · right
    rw [hcapacity]
    exact hfull.trans (Finset.card_le_card othersUsed_append)

/-! ## A value that is referred to -/

structure KeepsRecent (key : κ) (name : Nat) (events : List (Event κ))
    (lru : Lru κ ν) : Prop where
  known : name < lru.values.length
  dead : lru.references name = 0 → ∀ entry ∈ lru.entries, entry.2 ≠ name
  recent : 0 < lru.references name → Recent key name events lru

theorem KeepsRecent.hit {other : κ} {name' : Nat}
    (h : KeepsRecent key name events lru)
    (hfind : lru.find other = some (other, name')) :
    KeepsRecent key name (events ++ [.got other (.hit name')])
      { lru.setReferences name' (· + 1) with
        entries := touch other name' lru.entries } := by
  have hmem : (other, name') ∈ lru.entries := List.mem_of_find?_eq_some hfind
  have hsame : 0 < (lru.setReferences name' (· + 1)).references name ↔
      0 < lru.references name := by
    by_cases hname : name' = name
    · subst hname
      rw [references_setReferences h.known]
      have : lru.references name' ≠ 0 := fun hzero => h.dead hzero _ hmem rfl
      omega
    · rw [references_setReferences_ne hname]
  refine ⟨by simpa [setReferences] using h.known, ?_, ?_⟩
  · intro hzero entry hentry
    have hzero : lru.references name = 0 :=
      Nat.eq_zero_of_not_pos (mt hsame.mpr (Nat.not_lt.mpr hzero.le))
    rcases List.mem_cons.mp hentry with rfl | hentry
    · exact h.dead hzero _ hmem
    · exact h.dead hzero entry (List.mem_of_mem_filter hentry)
  · intro hlive
    have hrecent := h.recent (hsame.mp hlive)
    by_cases hother : other = key
    · subst hother
      rcases hrecent with ⟨newer, older, hentries, -, hnewer⟩ | hfull
      · cases hfind.symm.trans (find_of_recent hentries hnewer)
        exact .inl ⟨[], _, rfl, List.nodup_nil, nofun⟩
      · exact .inr (hfull.trans (Finset.card_le_card othersUsed_append))
    · exact recent_touch hother hrecent rfl (.inl rfl)

theorem KeepsRecent.made {other : κ} {value : ν}
    (h : KeepsRecent key name events lru) (hfind : lru.find other = none) :
    KeepsRecent key name
      (events ++ [.got other (.made lru.values.length)])
      { lru with
        entries := (touch other lru.values.length lru.entries).take
          lru.capacity
        values := lru.values ++ [(value, 1)] } := by
  have hsame : ((lru.values ++ [(value, 1)])[name]?.map Prod.snd).getD 0 =
      lru.references name := by
    rw [List.getElem?_append_left h.known, references]
  refine ⟨?_, ?_, ?_⟩
  · rw [List.length_append]
    exact Nat.lt_add_right _ h.known
  · intro hzero entry hentry
    have hzero : lru.references name = 0 := hsame.symm.trans hzero
    rcases List.mem_cons.mp (List.mem_of_mem_take hentry) with rfl | hentry
    · exact (Nat.ne_of_lt h.known).symm
    · exact h.dead hzero entry (List.mem_of_mem_filter hentry)
  · intro hlive
    have hrecent := h.recent (hsame ▸ hlive)
    by_cases hother : other = key
    · subst hother
      rcases hrecent with ⟨newer, older, hentries, -, hnewer⟩ | hfull
      · cases hfind.symm.trans (find_of_recent hentries hnewer)
      · exact .inr (hfull.trans (Finset.card_le_card othersUsed_append))
    · exact recent_touch hother hrecent rfl (.inr rfl)

theorem KeepsRecent.drop {name' count : Nat} {value : ν}
    (h : KeepsRecent key name events lru)
    (hvalue : lru.values[name']? = some (value, count)) :
    KeepsRecent key name (events ++ [.dropped name'])
      { lru.setReferences name' (· - 1) with
        entries :=
          if count = 1 then
            lru.entries.filter fun entry => entry.2 ≠ name'
          else lru.entries } := by
  have hcount : lru.references name' = count := by
    simp [references, hvalue]
  have hsub : ∀ entry,
      entry ∈ (if count = 1 then
        lru.entries.filter fun entry => entry.2 ≠ name'
        else lru.entries) → entry ∈ lru.entries := by
    intro entry hmem
    split at hmem
    · exact List.mem_of_mem_filter hmem
    · exact hmem
  refine ⟨by simpa [setReferences] using h.known, ?_, ?_⟩
  · intro hzero entry hentry
    have hzero : (lru.setReferences name' (· - 1)).references name = 0 :=
      hzero
    by_cases hname : name' = name
    · subst hname
      rw [references_setReferences h.known, hcount] at hzero
      by_cases hone : count = 1
      · rw [if_pos hone] at hentry
        exact of_decide_eq_true (List.mem_filter.mp hentry).2
      · exact h.dead (by omega) entry (hsub entry hentry)
    · rw [references_setReferences_ne hname] at hzero
      exact h.dead hzero entry (hsub entry hentry)
  · intro hlive
    have hlive : 0 < (lru.setReferences name' (· - 1)).references name :=
      hlive
    by_cases hname : name' = name
    · subst hname
      rw [references_setReferences h.known, hcount] at hlive
      refine recent_of_entries (h.recent (by omega)) rfl
        ⟨fun _ => true, rfl, ?_⟩
      simp only [if_neg (show count ≠ 1 by omega), List.filter_true]
    · rw [references_setReferences_ne hname] at hlive
      refine recent_of_entries (h.recent hlive) rfl ?_
      by_cases hone : count = 1
      · exact ⟨fun entry => entry.2 ≠ name',
          by simpa using Ne.symm hname, if_pos hone⟩
      · exact ⟨fun _ => true, rfl, by simp only [if_neg hone,
          List.filter_true]⟩

theorem KeepsRecent.clone {name' count : Nat} {value : ν}
    (h : KeepsRecent key name events lru)
    (hvalue : lru.values[name']? = some (value, count))
    (hcount : 0 < count) :
    KeepsRecent key name (events ++ [.cloned name'])
      (lru.setReferences name' (· + 1)) := by
  have hbefore : 0 < (lru.setReferences name' (· + 1)).references name ↔
      0 < lru.references name := by
    by_cases hname : name' = name
    · subst hname
      have : lru.references name' = count := by simp [references, hvalue]
      rw [references_setReferences h.known]
      omega
    · rw [references_setReferences_ne hname]
  refine ⟨by simpa [setReferences] using h.known, ?_, ?_⟩
  · exact fun hzero => h.dead
      (Nat.eq_zero_of_not_pos (mt hbefore.mpr (Nat.not_lt.mpr hzero.le)))
  · exact fun hlive => recent_of_entries (h.recent (hbefore.mp hlive)) rfl
      ⟨fun _ => true, rfl, (List.filter_true _).symm⟩

theorem find_key {other key' : κ} {name' : Nat}
    (h : lru.find other = some (key', name')) : key' = other := by
  simpa using List.find?_some h

theorem KeepsRecent.step (h : KeepsRecent key name events lru)
    (hstep : Step lru event lru') :
    KeepsRecent key name (events ++ [event]) lru' := by
  obtain ⟨use, hnext⟩ := hstep
  cases use with
  | get other value =>
      simp only [next, get, Option.some.injEq] at hnext
      split at hnext
      · rename_i hfind
        cases find_key hfind
        cases hnext
        exact h.hit hfind
      · rename_i hfind
        split at hnext
        · cases hnext
          exact h.made hfind
        · cases hnext
          exact ⟨h.known, h.dead, fun hlive => recent_of_entries
            (h.recent hlive) rfl
            ⟨fun _ => true, rfl, (List.filter_true _).symm⟩⟩
  | clone name' =>
      simp only [next] at hnext
      split at hnext
      next value references hvalue =>
        split at hnext
        next hreferences =>
          cases hnext
          exact h.clone hvalue hreferences
        next => cases hnext
      next => cases hnext
  | drop name' =>
      simp only [next] at hnext
      split at hnext
      next value references hvalue =>
        split at hnext
        next =>
          cases hnext
          exact h.drop hvalue
        next => cases hnext
      next => cases hnext

/-! ## Runs -/

omit [DecidableEq κ] in
theorem references_setReferences_pos {name' : Nat} {f : Nat → Nat}
    (h : 0 < lru.references name)
    (hf : name' = name → 0 < f (lru.references name)) :
    0 < (lru.setReferences name' f).references name := by
  by_cases hname : name' = name
  · subst hname
    have hknown : name' < lru.values.length := by
      by_contra hge
      simp [references, Nat.not_lt.mp hge] at h
    rw [references_setReferences hknown]
    exact hf rfl
  · rw [references_setReferences_ne hname]
    exact h

def Held (lru : Lru κ ν) : Prop :=
  ∀ entry ∈ lru.entries, 0 < lru.references entry.2

theorem Held.step (h : lru.Held) (hstep : Step lru event lru') :
    lru'.Held := by
  obtain ⟨use, hnext⟩ := hstep
  cases use with
  | get key value =>
      simp only [next, get, Option.some.injEq] at hnext
      split at hnext
      · rename_i hfind
        cases hnext
        intro entry hmem
        refine references_setReferences_pos ?_ fun _ => Nat.succ_pos _
        rcases List.mem_cons.mp hmem with rfl | hmem
        · cases find_key hfind
          exact h _ (List.mem_of_find?_eq_some hfind)
        · exact h entry (List.mem_of_mem_filter hmem)
      · split at hnext
        · cases hnext
          intro entry hmem
          rcases List.mem_cons.mp (List.mem_of_mem_take hmem) with rfl | hmem
          · simp [references]
          · have hbefore := h entry (List.mem_of_mem_filter hmem)
            have hlt : entry.2 < lru.values.length := by
              by_contra hge
              simp [references, Nat.not_lt.mp hge] at hbefore
            simpa [references, List.getElem?_append_left hlt] using hbefore
        · cases hnext
          exact h
  | clone name =>
      simp only [next] at hnext
      split at hnext
      · split at hnext
        · cases hnext
          exact fun entry hmem => references_setReferences_pos
            (h entry hmem) fun _ => Nat.succ_pos _
        · cases hnext
      · cases hnext
  | drop name =>
      simp only [next] at hnext
      split at hnext
      · rename_i value count hvalue
        split at hnext
        · cases hnext
          have hcount : lru.references name = count := by
            simp [references, hvalue]
          have hkept : ∀ entry ∈ lru.entries,
              (count = 1 → entry.2 ≠ name) →
              0 < (lru.setReferences name (· - 1)).references entry.2 := by
            intro entry hmem hother
            have hbefore := h entry hmem
            refine references_setReferences_pos hbefore fun hname => ?_
            rw [← hname, hcount] at hbefore ⊢
            have : count ≠ 1 := fun hone => hother hone hname.symm
            omega
          intro entry hmem
          by_cases hone : count = 1
          · simp only [if_pos hone, List.mem_filter,
              decide_eq_true_iff] at hmem
            exact hkept entry hmem.1 fun _ => hmem.2
          · simp only [if_neg hone] at hmem
            exact hkept entry hmem fun h => absurd h hone
        · cases hnext
      · cases hnext

theorem Held.keepsRecent {value : ν} (h : lru.Held)
    (hreturned : (lru.get key value).1.name? = some name) :
    KeepsRecent key name [] (lru.get key value).2 := by
  unfold get at hreturned ⊢
  split at hreturned
  · rename_i hfind
    cases find_key hfind
    cases hreturned
    have hlive := h _ (List.mem_of_find?_eq_some hfind)
    have hlive' : 0 < (lru.setReferences name (· + 1)).references name :=
      references_setReferences_pos hlive fun _ => Nat.succ_pos _
    refine ⟨?_, fun hzero => absurd hzero hlive'.ne', fun _ =>
      .inl ⟨[], _, rfl, List.nodup_nil, nofun⟩⟩
    by_contra hge
    simp [references, setReferences] at hge hlive
    simp [hge] at hlive
  · rename_i hfind
    split at hreturned
    · rename_i hroom
      cases hreturned
      simp only [if_pos hroom]
      refine ⟨by simp, fun hzero => ?_, fun _ => ?_⟩
      · simp [references] at hzero
      · rcases Nat.eq_zero_or_pos lru.capacity with hnone | hsome
        · exact .inr (hnone.trans_le (Nat.zero_le _))
        · obtain ⟨room, hcapacity⟩ :=
            Nat.exists_eq_succ_of_ne_zero hsome.ne'
          refine .inl ⟨[], (lru.entries.filter
            fun entry => entry.1 ≠ key).take room, ?_, List.nodup_nil, nofun⟩
          rw [hcapacity]
          rfl
    · cases hreturned

theorem Step.capacity (hstep : Step lru event lru') :
    lru'.capacity = lru.capacity := by
  obtain ⟨use, hnext⟩ := hstep
  cases use with
  | get | clone | drop =>
      simp only [next, get] at hnext
      repeat' split at hnext
      all_goals cases hnext
      all_goals rfl

theorem run_held {capacity : Nat}
    (run : Run Step (new κ ν capacity) events lru) :
    lru.Held ∧ lru.capacity = capacity :=
  run.invariant (fun _ lru => lru.Held ∧ lru.capacity = capacity)
    ⟨nofun, rfl⟩ fun h hstep =>
      ⟨h.1.step hstep, hstep.capacity.trans h.2⟩

/-- A value that was returned for a key, and that is still referred to, is
returned again unless other keys enough to fill the cache were used since. -/
theorem recently_used_hits {capacity : Nat} {before after : List (Event κ)}
    {got : Got} (hgot : got.name? = some name)
    (run : Run Step (new κ ν capacity) (before ++ .got key got :: after) lru)
    (hlive : 0 < lru.references name)
    (hfew : (othersUsed key after).card < capacity) :
    lru.find key = some (key, name) := by
  have hcapacity := (run_held run).2
  obtain ⟨mid, first, second⟩ := run.split
  obtain ⟨next, ⟨use, hnext⟩, last⟩ := second.head_step
  have hrecent : KeepsRecent key name [] next := by
    cases use with
    | get other value =>
        simp only [Lru.next, Option.some.injEq, Prod.mk.injEq,
          Event.got.injEq] at hnext
        obtain ⟨⟨rfl, rfl⟩, rfl⟩ := hnext
        exact (run_held first).1.keepsRecent hgot
    | clone | drop =>
        simp only [Lru.next] at hnext
        repeat' split at hnext
        all_goals cases hnext
  have hkept := last.invariant (KeepsRecent key name) hrecent
    fun h hstep => h.step hstep
  rcases hkept.recent hlive with ⟨newer, older, hentries, -, hnewer⟩ | hfull
  · exact find_of_recent hentries hnewer
  · rw [hcapacity] at hfull
    exact absurd hfew (Nat.not_lt.mpr hfull)

end Lru

end ConjureRuntime.Cache
