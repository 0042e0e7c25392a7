import Mathlib.Data.List.Forall2

/-!
# Computations that may fail

`Returns action post`: the computation does not fail and its result
satisfies the postcondition.
-/

namespace ConjureRuntime.Foundation

variable {ε α β : Type*}

def Returns (action : Except ε α) (post : α → Prop) : Prop :=
  ∃ result, action = .ok result ∧ post result

theorem bind_eq_ok {α β : Type} {action : Except ε α} {rest : α → Except ε β}
    {result : β} (h : action >>= rest = .ok result) :
    ∃ mid, action = .ok mid ∧ rest mid = .ok result := by
  cases action with
  | error error => cases h
  | ok mid => exact ⟨mid, rfl, h⟩

theorem mapM_eq_ok {α β : Type} {f : α → Except ε β} {l : List α}
    {results : List β} (h : l.mapM f = .ok results) :
    List.Forall₂ (fun x result => f x = .ok result) l results := by
  induction l generalizing results with
  | nil =>
      cases h
      exact .nil
  | cons x l ih =>
      rw [List.mapM_cons] at h
      obtain ⟨first, hfirst, h⟩ := bind_eq_ok h
      obtain ⟨rest, hrest, h⟩ := bind_eq_ok h
      cases h
      exact .cons hfirst (ih hrest)

theorem exists_of_forall₂_mem {R : α → β → Prop} {l : List α}
    {results : List β} (h : List.Forall₂ R l results) {result : β}
    (hmem : result ∈ results) : ∃ x ∈ l, R x result := by
  induction h with
  | nil => cases hmem
  | cons hfirst _ ih =>
      rcases List.mem_cons.mp hmem with rfl | hmem
      · exact ⟨_, List.mem_cons_self, hfirst⟩
      · obtain ⟨x, hx, hresult⟩ := ih hmem
        exact ⟨x, List.mem_cons_of_mem _ hx, hresult⟩

namespace Returns

theorem of_eq {action : Except ε α} {result : α} {post : α → Prop}
    (h : action = .ok result) (hpost : post result) : Returns action post :=
  ⟨result, h, hpost⟩

theorem pure {result : α} {post : α → Prop} (hpost : post result) :
    Returns (Pure.pure result : Except ε α) post :=
  ⟨result, rfl, hpost⟩

theorem result {action : Except ε α} {post : α → Prop} {result : α}
    (h : Returns action post) (heq : action = .ok result) : post result := by
  obtain ⟨result', rfl, hpost⟩ := h
  cases heq
  exact hpost

theorem mono {action : Except ε α} {post post' : α → Prop}
    (h : Returns action post) (himp : ∀ result, post result → post' result) :
    Returns action post' := by
  obtain ⟨result, haction, hpost⟩ := h
  exact ⟨result, haction, himp result hpost⟩

theorem bind {α β : Type} {action : Except ε α} {rest : α → Except ε β}
    {mid : α → Prop} {post : β → Prop} (h : Returns action mid)
    (hrest : ∀ result, mid result → Returns (rest result) post) :
    Returns (action >>= rest) post := by
  obtain ⟨result, rfl, hmid⟩ := h
  exact hrest result hmid

theorem map {α β : Type} {action : Except ε α} {f : α → β} {mid : α → Prop}
    {post : β → Prop} (h : Returns action mid)
    (hpost : ∀ result, mid result → post (f result)) :
    Returns (f <$> action) post := by
  obtain ⟨result, rfl, hmid⟩ := h
  exact ⟨f result, rfl, hpost result hmid⟩

end Returns

end ConjureRuntime.Foundation
