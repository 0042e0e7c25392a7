import Mathlib.Data.List.AList
import Mathlib.Logic.Function.Iterate

/-!
# Maps that remember the order of use

An association list with its youngest entry first is a map that remembers in
which order its keys were put there: inserting a key moves it to the front,
and the oldest entry is the last one.
-/

namespace ConjureRuntime.Foundation

universe u v

variable {α : Type u} {β : Type v}

abbrev LinkedHashMap (α : Type u) (β : Type v) := AList fun _ : α => β

namespace LinkedHashMap

def popFront (map : LinkedHashMap α β) : LinkedHashMap α β :=
  ⟨map.entries.dropLast, map.nodupKeys.sublist (List.dropLast_sublist _)⟩

def popWhile (capacity : Nat) (map : LinkedHashMap α β) :
    LinkedHashMap α β :=
  Nat.iterate popFront (map.entries.length - capacity) map

@[simp] theorem entries_iterate_popFront (n : Nat) (map : LinkedHashMap α β) :
    (Nat.iterate popFront n map).entries =
      map.entries.take (map.entries.length - n) := by
  induction n generalizing map with
  | zero => exact (List.take_length).symm
  | succ n ih =>
      have hpop : map.popFront.entries =
          map.entries.take (map.entries.length - 1) := List.dropLast_eq_take
      rw [Function.iterate_succ_apply, ih, hpop, List.take_take,
        List.length_take]
      congr 1
      omega

@[simp] theorem entries_popWhile (capacity : Nat) (map : LinkedHashMap α β) :
    (map.popWhile capacity).entries = map.entries.take capacity := by
  rw [popWhile, entries_iterate_popFront]
  rcases Nat.le_total map.entries.length capacity with h | h
  · rw [Nat.sub_eq_zero_of_le h, Nat.sub_zero, List.take_length,
      List.take_of_length_le h]
  · rw [Nat.sub_sub_self h]

theorem length_popWhile_le (capacity : Nat) (map : LinkedHashMap α β) :
    (map.popWhile capacity).entries.length ≤ capacity := by
  rw [entries_popWhile, List.length_take]
  exact Nat.min_le_left _ _

variable [DecidableEq α] {map : LinkedHashMap α β} {key other : α}
  {value value' : β}

def refresh (map : LinkedHashMap α β) (key : α) : LinkedHashMap α β :=
  match map.lookup key with
  | some value => map.insert key value
  | none => map

theorem lookup_of_popWhile {capacity : Nat}
    (h : (map.popWhile capacity).lookup key = some value) :
    map.lookup key = some value := by
  rw [← Option.mem_def, AList.mem_lookup_iff, entries_popWhile] at h
  exact AList.mem_lookup_iff.mpr (List.mem_of_mem_take h)

@[simp] theorem lookup_refresh :
    (map.refresh key).lookup other = map.lookup other := by
  unfold refresh
  split
  next value hvalue =>
    by_cases h : other = key
    · subst h
      rw [AList.lookup_insert, hvalue]
    · rw [AList.lookup_insert_ne h]
  next => rfl

theorem lookup_insert_eq_some
    (h : (map.insert key value).lookup other = some value') :
    (other = key ∧ value' = value) ∨ map.lookup other = some value' := by
  by_cases hkey : other = key
  · subst hkey
    rw [AList.lookup_insert] at h
    cases h
    exact .inl ⟨rfl, rfl⟩
  · rw [AList.lookup_insert_ne hkey] at h
    exact .inr h

/-! ## The entries in their order -/

theorem kerase_eq_filter {entries : List (Sigma fun _ : α => β)}
    (h : entries.NodupKeys) (key : α) :
    entries.kerase key = entries.filter fun entry => entry.1 ≠ key := by
  induction entries with
  | nil => rfl
  | cons entry entries ih =>
      obtain ⟨hfirst, hrest⟩ := List.nodupKeys_cons.mp h
      by_cases hkey : key = entry.1
      · subst hkey
        rw [List.kerase_cons_eq rfl, List.filter_cons_of_neg (by simp)]
        refine (List.filter_eq_self.mpr fun other hmem => ?_).symm
        have hne : other.1 ≠ entry.1 :=
          fun heq => hfirst (heq ▸ List.mem_keys_of_mem hmem)
        simpa using hne
      · rw [List.kerase_cons_ne hkey, ih hrest,
          List.filter_cons_of_pos (by simpa using Ne.symm hkey)]

theorem entries_insert_eq (map : LinkedHashMap α β) (key : α) (value : β) :
    (map.insert key value).entries =
      ⟨key, value⟩ :: map.entries.filter fun entry => entry.1 ≠ key := by
  rw [AList.entries_insert, kerase_eq_filter map.nodupKeys]

theorem entries_erase_eq (map : LinkedHashMap α β) (key : α) :
    (map.erase key).entries =
      map.entries.filter fun entry => entry.1 ≠ key :=
  kerase_eq_filter map.nodupKeys key

theorem length_insert_of_lookup (h : map.lookup key = some value) :
    (map.insert key value').entries.length = map.entries.length := by
  have hmem : key ∈ map.keys := AList.mem_keys.mp
    (AList.lookup_isSome.mp (Option.isSome_of_eq_some h))
  calc (map.insert key value').entries.length
      = (map.insert key value').keys.length := (List.length_map _).symm
    _ = (map.keys.erase key).length + 1 := by
      rw [AList.keys_insert, List.length_cons]
    _ = map.keys.length := by
      rw [List.length_erase_of_mem hmem,
        Nat.sub_add_cancel (List.length_pos_of_mem hmem)]
    _ = map.entries.length := List.length_map _

@[simp] theorem length_refresh (map : LinkedHashMap α β) (key : α) :
    (map.refresh key).entries.length = map.entries.length := by
  unfold refresh
  split
  next value hvalue => exact length_insert_of_lookup hvalue
  next => rfl

end LinkedHashMap

end ConjureRuntime.Foundation
