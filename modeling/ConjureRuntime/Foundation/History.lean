import Mathlib.Data.List.Basic

/-!
# What a history says

Histories are lists of events, oldest first.  `Since` is the temporal
operator of that name, and `AtEach` a condition on the past of every event of
some sort.  Both are described by what one more event does to them, which is
the form in which proofs by induction on a run meet them.
-/

namespace ConjureRuntime.Foundation

variable {ε : Type*} {P Q C : ε → Prop} {events : List ε} {event : ε}

/-- An event with `P` happened, and none with `Q` after it. -/
def Since (P Q : ε → Prop) (events : List ε) : Prop :=
  ∃ before event after, events = before ++ event :: after ∧ P event ∧
    ∀ later ∈ after, ¬ Q later

@[simp] theorem since_nil : ¬ Since P Q [] := by
  rintro ⟨before, event, after, h, -⟩
  simp at h

theorem since_append :
    Since P Q (events ++ [event]) ↔
      P event ∨ (Since P Q events ∧ ¬ Q event) := by
  constructor
  · rintro ⟨before, first, after, h, hP, hQ⟩
    rcases after.eq_nil_or_concat with rfl | ⟨after, last, rfl⟩
    · obtain ⟨-, hlast⟩ := List.append_inj' h rfl
      cases hlast
      exact .inl hP
    · rw [List.concat_eq_append, ← List.cons_append, ← List.append_assoc] at h
      obtain ⟨rfl, hlast⟩ := List.append_inj' h rfl
      cases hlast
      refine .inr ⟨⟨before, first, after, rfl, hP, ?_⟩, hQ event (by simp)⟩
      exact fun later hmem => hQ later (by simp [hmem])
  · rintro (hP | ⟨⟨before, first, after, rfl, hP, hQ⟩, hlast⟩)
    · exact ⟨events, event, [], rfl, hP, by simp⟩
    · refine ⟨before, first, after ++ [event], by simp, hP, ?_⟩
      intro later hmem
      rcases List.mem_append.mp hmem with hmem | hmem
      · exact hQ later hmem
      · rwa [List.mem_singleton.mp hmem]

/-- Whenever an event with `C` happens, its past satisfies the condition. -/
def AtEach (C : ε → Prop) (Past : List ε → Prop) (events : List ε) : Prop :=
  ∀ before event after, events = before ++ event :: after → C event →
    Past before

variable {Past : List ε → Prop}

@[simp] theorem atEach_nil : AtEach C Past [] := by
  intro before event after h
  simp at h

theorem atEach_append :
    AtEach C Past (events ++ [event]) ↔
      AtEach C Past events ∧ (C event → Past events) := by
  constructor
  · intro h
    refine ⟨fun before first after heq => ?_, h events event [] rfl⟩
    exact h before first (after ++ [event]) (by simp [heq])
  · rintro ⟨hbefore, hlast⟩ before first after heq hC
    rcases after.eq_nil_or_concat with rfl | ⟨after, last, rfl⟩
    · obtain ⟨rfl, hfirst⟩ := List.append_inj' heq rfl
      cases hfirst
      exact hlast hC
    · rw [List.concat_eq_append, ← List.cons_append, ← List.append_assoc]
        at heq
      obtain ⟨rfl, -⟩ := List.append_inj' heq rfl
      exact hbefore before first after rfl hC

/-! ## Two kinds of events in turn -/

/-- The list begins with `a`, and `a` and `b` alternate. -/
def Alternates {α : Type*} (a b : α) : List α → Prop
  | [] => True
  | x :: rest => x = a ∧ Alternates b a rest

theorem alternates_append {α : Type*} {a b x : α} {l : List α} :
    Alternates a b (l ++ [x]) ↔
      Alternates a b l ∧ x = if l.length % 2 = 0 then a else b := by
  induction l generalizing a b with
  | nil => simp [Alternates]
  | cons y rest ih =>
      rw [List.cons_append, Alternates, Alternates, ih, List.length_cons]
      by_cases h : rest.length % 2 = 0
      · have : (rest.length + 1) % 2 ≠ 0 := by omega
        simp only [h, this, if_true, if_false, and_assoc]
      · have : (rest.length + 1) % 2 = 0 := by omega
        simp only [h, this, if_true, if_false, and_assoc]

end ConjureRuntime.Foundation
