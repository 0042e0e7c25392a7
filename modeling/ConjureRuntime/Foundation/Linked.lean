import Mathlib.Data.List.Nodup

/-!
# Doubly linked lists

`Linked next prev head tail items` says that the links, read from `head`,
visit exactly `items` in order and, read from `tail`, visit them in the
reverse order.  Both neighbours of an element are determined by the way the
sequence splits around it, so appending and erasing only touch the links at
the seam.
-/

namespace ConjureRuntime.Foundation

variable {α : Type*}

structure Linked (next prev : α → Option α) (head tail : Option α)
    (items : List α) : Prop where
  nodup : items.Nodup
  head_eq : head = items.head?
  tail_eq : tail = items.getLast?
  next_eq : ∀ {l a r}, items = l ++ a :: r → next a = r.head?
  prev_eq : ∀ {l a r}, items = l ++ a :: r → prev a = l.getLast?

namespace Linked

variable {next prev next' prev' : α → Option α}
  {head tail : Option α} {items : List α}

theorem nil (next prev : α → Option α) : Linked next prev none none [] where
  nodup := List.nodup_nil
  head_eq := rfl
  tail_eq := rfl
  next_eq := by simp
  prev_eq := by simp

theorem congr (h : Linked next prev head tail items)
    (hnext : ∀ a ∈ items, next' a = next a)
    (hprev : ∀ a ∈ items, prev' a = prev a) :
    Linked next' prev' head tail items where
  nodup := h.nodup
  head_eq := h.head_eq
  tail_eq := h.tail_eq
  next_eq := by
    intro l a r hsplit
    rw [hnext a (by simp [hsplit]), h.next_eq hsplit]
  prev_eq := by
    intro l a r hsplit
    rw [hprev a (by simp [hsplit]), h.prev_eq hsplit]

theorem head_eq_none_iff (h : Linked next prev head tail items) :
    head = none ↔ items = [] := by
  rw [h.head_eq, List.head?_eq_none_iff]

theorem tail_eq_none_iff (h : Linked next prev head tail items) :
    tail = none ↔ items = [] := by
  rw [h.tail_eq, List.getLast?_eq_none_iff]

/-! ## Where an element stands -/

theorem split_append {l r l' r' : List α} {b : α}
    (h : l ++ r = l' ++ b :: r') :
    (∃ m, l = l' ++ b :: m ∧ r' = m ++ r) ∨
      ∃ m, l' = l ++ m ∧ r = m ++ b :: r' := by
  rcases List.append_eq_append_iff.mp h with ⟨m, hl', hr⟩ | ⟨m, hl, hm⟩
  · exact .inr ⟨m, hl', hr⟩
  · cases m with
    | nil => exact .inr ⟨[], by simpa using hl.symm, by simpa using hm.symm⟩
    | cons c m =>
        simp only [List.cons_append, List.cons.injEq] at hm
        obtain ⟨rfl, rfl⟩ := hm
        exact .inl ⟨m, hl, rfl⟩

theorem split_concat {items l r : List α} {a b : α}
    (h : items ++ [a] = l ++ b :: r) :
    (∃ m, items = l ++ b :: m ∧ r = m ++ [a]) ∨
      (l = items ∧ b = a ∧ r = []) := by
  rcases split_append h with h | ⟨m, hl, hr⟩
  · exact .inl h
  · cases m with
    | nil =>
        cases hr
        exact .inr ⟨by simpa using hl, rfl, rfl⟩
    | cons c m => simp at hr

theorem getLast?_eq_iff {l r : List α} {b : α} (h : (l ++ b :: r).Nodup) :
    (l ++ b :: r).getLast? = some b ↔ r = [] := by
  cases r with
  | nil => simp
  | cons c r =>
      have hb : b ∉ c :: r :=
        (List.nodup_cons.mp (List.nodup_append.mp h).2.1).1
      refine iff_of_false (fun hlast => hb ?_) (by simp)
      rw [List.getLast?_append_of_ne_nil _ (by simp),
        List.getLast?_cons_cons] at hlast
      exact List.mem_of_getLast? hlast

theorem head?_eq_iff {l r : List α} {b : α} (h : (l ++ b :: r).Nodup) :
    (l ++ b :: r).head? = some b ↔ l = [] := by
  cases l with
  | nil => simp
  | cons c l =>
      have hc : c ∉ l ++ b :: r := (List.nodup_cons.mp h).1
      refine iff_of_false (fun hhead => hc ?_) (by simp)
      obtain rfl : c = b := by simpa using hhead
      simp

theorem prev_eq_none_iff (h : Linked next prev head tail items) {a : α}
    (ha : a ∈ items) : prev a = none ↔ head = some a := by
  obtain ⟨l, r, rfl⟩ := List.append_of_mem ha
  rw [h.prev_eq rfl, h.head_eq, List.getLast?_eq_none_iff,
    head?_eq_iff h.nodup]

/-! ## Appending and erasing -/

variable [DecidableEq α]

theorem append (h : Linked next prev head tail items) {a : α}
    (ha : a ∉ items)
    (hnext : ∀ b ∈ items, next' b = if tail = some b then some a else next b)
    (hprev : ∀ b ∈ items, prev' b = prev b)
    (hnextNew : next' a = none) (hprevNew : prev' a = tail) :
    Linked next' prev' (head.or (some a)) (some a) (items ++ [a]) where
  nodup := by simpa using List.Nodup.concat ha h.nodup
  head_eq := by
    rw [h.head_eq]
    cases items <;> simp
  tail_eq := by simp
  next_eq := by
    intro l b r hsplit
    rcases split_concat hsplit with ⟨m, hitems, rfl⟩ | ⟨-, rfl, rfl⟩
    · rw [hnext b (by simp [hitems]), h.tail_eq, h.next_eq hitems]
      have hnodup := h.nodup
      rw [hitems] at hnodup ⊢
      simp only [getLast?_eq_iff hnodup]
      cases m <;> simp
    · exact hnextNew
  prev_eq := by
    intro l b r hsplit
    rcases split_concat hsplit with ⟨m, hitems, -⟩ | ⟨rfl, rfl, -⟩
    · rw [hprev b (by simp [hitems]), h.prev_eq hitems]
    · rw [hprevNew, h.tail_eq]

theorem erase {l r : List α} {a : α}
    (h : Linked next prev head tail (l ++ a :: r))
    (hnext : ∀ b ∈ l ++ r, next' b =
      if l.getLast? = some b then r.head? else next b)
    (hprev : ∀ b ∈ l ++ r, prev' b =
      if r.head? = some b then l.getLast? else prev b) :
    Linked next' prev' (l.head?.or r.head?) (r.getLast?.or l.getLast?)
      (l ++ r) := by
  have hnodup : (l ++ r).Nodup := h.nodup.sublist (by simp)
  obtain ⟨hl, hr, hdisjoint⟩ := List.nodup_append.mp hnodup
  refine ⟨hnodup, by simp, by simp, ?_, ?_⟩
  · intro l' b r' hsplit
    rw [hnext b (by simp [hsplit])]
    rcases split_append hsplit with ⟨m, rfl, rfl⟩ | ⟨m, rfl, rfl⟩
    · simp only [getLast?_eq_iff hl]
      cases m with
      | nil => simp
      | cons c m =>
          have := h.next_eq (l := l') (a := b) (r := c :: m ++ a :: r)
            (by simp)
          simpa using this
    · have hb : l.getLast? ≠ some b := fun hlast =>
        hdisjoint b (List.mem_of_getLast? hlast) b (by simp) rfl
      rw [if_neg hb]
      exact h.next_eq (l := l ++ a :: m) (by simp)
  · intro l' b r' hsplit
    rw [hprev b (by simp [hsplit])]
    rcases split_append hsplit with ⟨m, rfl, rfl⟩ | ⟨m, rfl, rfl⟩
    · have hb : r.head? ≠ some b := fun hhead =>
        hdisjoint b (by simp) b (List.mem_of_head? hhead) rfl
      rw [if_neg hb]
      exact h.prev_eq (l := l') (r := m ++ a :: r) (by simp)
    · simp only [head?_eq_iff hr]
      cases m with
      | nil => simp
      | cons c m =>
          have := h.prev_eq (l := l ++ a :: c :: m) (a := b) (r := r')
            (by simp)
          simpa using this

end Linked

end ConjureRuntime.Foundation
