import Mathlib.Algebra.GroupWithZero.Nat
import Mathlib.Algebra.Order.BigOperators.Group.List
import Mathlib.Algebra.Order.Group.Nat
import Mathlib.Data.Finset.Card
import Mathlib.Data.List.Induction

/-!
# The threads of a system

Threads are kept in a list, and a step replaces one of them; a sum over the
threads then changes by the contribution of that thread alone.
-/

namespace ConjureRuntime.Foundation

variable {α M : Type*} [AddCommMonoid M]

theorem getElem?_set_cases {threads : List α} {i j : Nat} {new other : α}
    (h : (threads.set i new)[j]? = some other) :
    (j = i ∧ other = new) ∨ (j ≠ i ∧ threads[j]? = some other) := by
  rw [List.getElem?_set] at h
  split at h
  · rename_i hij
    split at h
    · cases h
      exact .inl ⟨hij.symm, rfl⟩
    · cases h
  · rename_i hij
    exact .inr ⟨Ne.symm hij, h⟩

theorem getElem?_append_singleton_cases {threads : List α} {i : Nat}
    {new other : α} (h : (threads ++ [new])[i]? = some other) :
    threads[i]? = some other ∨ (i = threads.length ∧ other = new) := by
  rw [List.getElem?_append] at h
  split at h
  · exact .inl h
  · rename_i hlength
    obtain ⟨hlt, hnew⟩ := List.getElem?_eq_some_iff.mp h
    simp only [List.length_singleton, Nat.lt_one_iff] at hlt
    exact .inr ⟨by omega, by simpa using hnew.symm⟩

theorem sum_map_set {threads : List α} {i : Nat} {old : α}
    (h : threads[i]? = some old) (new : α) (f : α → M) :
    ((threads.set i new).map f).sum + f old =
      (threads.map f).sum + f new := by
  induction threads generalizing i with
  | nil => simp at h
  | cons head rest ih =>
      cases i with
      | zero =>
          simp only [List.getElem?_cons_zero, Option.some.injEq] at h
          subst h
          simp only [List.set_cons_zero, List.map_cons, List.sum_cons]
          rw [add_right_comm, add_comm (f new), add_right_comm]
      | succ i =>
          simp only [List.getElem?_cons_succ] at h
          simp only [List.set_cons_succ, List.map_cons, List.sum_cons]
          rw [add_assoc, ih h, add_assoc]

theorem countP_set_add {threads : List α} {i : Nat} {old : α}
    (h : threads[i]? = some old) (new : α) (p : α → Bool) :
    (threads.set i new).countP p + (if p old then 1 else 0) =
      threads.countP p + if p new then 1 else 0 := by
  obtain ⟨hlt, rfl⟩ := List.getElem?_eq_some_iff.mp h
  rw [List.countP_set hlt]
  by_cases hold : p threads[i] = true
  · have hpos : 0 < threads.countP p :=
      List.countP_pos_iff.mpr ⟨_, List.getElem_mem hlt, hold⟩
    simp only [if_pos hold]
    omega
  · simp only [if_neg hold]
    omega

theorem card_eq_countP {threads : List α} {p : α → Bool} {found : Finset Nat}
    (h : ∀ i, i ∈ found ↔ ∃ thread, threads[i]? = some thread ∧ p thread) :
    found.card = threads.countP p := by
  induction threads using List.reverseRecOn generalizing found with
  | nil =>
      have hempty : found = ∅ := Finset.eq_empty_of_forall_notMem (by simp [h])
      simp [hempty]
  | append_singleton threads last ih =>
      have hbefore : ∀ i, i ∈ found.erase threads.length ↔
          ∃ thread, threads[i]? = some thread ∧ p thread := by
        intro i
        rw [Finset.mem_erase, h]
        constructor
        · rintro ⟨hne, thread, hthread, hp⟩
          rcases getElem?_append_singleton_cases hthread with
            hthread | ⟨rfl, -⟩
          · exact ⟨thread, hthread, hp⟩
          · exact absurd rfl hne
        · rintro ⟨thread, hthread, hp⟩
          have hlt := (List.getElem?_eq_some_iff.mp hthread).1
          refine ⟨hlt.ne, thread, ?_, hp⟩
          rwa [List.getElem?_append_left hlt]
      have hlast : threads.length ∈ found ↔ p last := by
        rw [h]
        simp
      rw [List.countP_append, List.countP_singleton, ← ih hbefore]
      by_cases hp : p last
      · rw [if_pos hp, Finset.card_erase_add_one (hlast.mpr hp)]
      · rw [if_neg hp, Finset.erase_eq_of_notMem (mt hlast.mp hp),
          Nat.add_zero]

end ConjureRuntime.Foundation
