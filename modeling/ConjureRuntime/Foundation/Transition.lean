import Mathlib.Data.List.Induction

/-!
# Runs of labelled transition systems

A system is a step relation `σ → ε → σ → Prop`; a run records the events of
its steps, oldest first.  The rules below are the induction principles that
the protocol proofs use: an invariant that may read the history, and the
splitting of a run at a point of its history.
-/

namespace ConjureRuntime.Foundation

variable {σ ε : Type*}

inductive Run (Step : σ → ε → σ → Prop) (start : σ) : List ε → σ → Prop where
  | refl : Run Step start [] start
  | step {events : List ε} {s s' : σ} {event : ε} :
      Run Step start events s → Step s event s' →
      Run Step start (events ++ [event]) s'

namespace Run

variable {Step : σ → ε → σ → Prop} {start s : σ} {events : List ε}

theorem invariant (run : Run Step start events s)
    (Inv : List ε → σ → Prop) (hstart : Inv [] start)
    (hstep : ∀ {events s event s'}, Inv events s → Step s event s' →
      Inv (events ++ [event]) s') :
    Inv events s := by
  induction run with
  | refl => exact hstart
  | step _ h ih => exact hstep ih h

theorem mono {Step' : σ → ε → σ → Prop} (run : Run Step start events s)
    (h : ∀ {s event s'}, Step s event s' → Step' s event s') :
    Run Step' start events s := by
  induction run with
  | refl => exact .refl
  | step _ hstep ih => exact .step ih (h hstep)

theorem trans {mid : σ} {later : List ε} (first : Run Step start events mid)
    (second : Run Step mid later s) : Run Step start (events ++ later) s := by
  induction second with
  | refl => simpa using first
  | step _ h ih =>
      rw [← List.append_assoc]
      exact .step ih h

theorem last_step {event : ε} (run : Run Step start (events ++ [event]) s) :
    ∃ mid, Run Step start events mid ∧ Step mid event s := by
  generalize hevents : events ++ [event] = all at run
  cases run with
  | refl => simp at hevents
  | @step events' mid _ event' run hstep =>
      obtain ⟨rfl, hlast⟩ := List.append_inj' hevents rfl
      cases hlast
      exact ⟨mid, run, hstep⟩

theorem split {before after : List ε}
    (run : Run Step start (before ++ after) s) :
    ∃ mid, Run Step start before mid ∧ Run Step mid after s := by
  induction after using List.reverseRecOn generalizing s with
  | nil => exact ⟨s, by simpa using run, .refl⟩
  | append_singleton after event ih =>
      rw [← List.append_assoc] at run
      obtain ⟨last, run, hstep⟩ := run.last_step
      obtain ⟨mid, first, second⟩ := ih run
      exact ⟨mid, first, .step second hstep⟩

theorem eq_of_nil (run : Run Step start [] s) : s = start := by
  generalize hevents : ([] : List ε) = events at run
  cases run with
  | refl => rfl
  | step => simp at hevents

theorem head_step {event : ε} {later : List ε}
    (run : Run Step start (event :: later) s) :
    ∃ mid, Step start event mid ∧ Run Step mid later s := by
  have run : Run Step start ([event] ++ later) s := run
  obtain ⟨mid, first, second⟩ := run.split
  have first : Run Step start ([] ++ [event]) mid := first
  obtain ⟨before, first, hstep⟩ := first.last_step
  cases first.eq_of_nil
  exact ⟨mid, hstep, second⟩

theorem project {τ φ : Type*} {Step' : τ → φ → τ → Prop}
    (run : Run Step start events s) (view : σ → τ) (pick : ε → Option φ)
    (hstays : ∀ {s event s'}, Step s event s' → pick event = none →
      view s' = view s)
    (hmoves : ∀ {s event s' event'}, Step s event s' →
      pick event = some event' → Step' (view s) event' (view s')) :
    Run Step' (view start) (events.filterMap pick) (view s) := by
  induction run with
  | refl => exact .refl
  | @step events s s' event _ hstep ih =>
      rw [List.filterMap_append]
      cases hpick : pick event with
      | none => simpa [hpick, hstays hstep hpick] using ih
      | some event' =>
          simpa [hpick] using Run.step ih (hmoves hstep hpick)

end Run

/-! ## Systems whose steps can be computed -/

/-- Perform a list of operations, collecting the events; `none` when one of
them is not possible. -/
def exec {ο : Type*} (next : σ → ο → Option (ε × σ)) :
    σ → List ο → Option (List ε × σ)
  | s, [] => some ([], s)
  | s, op :: ops =>
      match next s op with
      | none => none
      | some (event, s') =>
          match exec next s' ops with
          | none => none
          | some (events, last) => some (event :: events, last)

theorem exec_run {ο : Type*} {next : σ → ο → Option (ε × σ)}
    {Step : σ → ε → σ → Prop}
    (sound : ∀ {s op event s'}, next s op = some (event, s') →
      Step s event s')
    {ops : List ο} {start s : σ} {events : List ε}
    (h : exec next start ops = some (events, s)) :
    Run Step start events s := by
  induction ops generalizing start events with
  | nil =>
      simp only [exec, Option.some.injEq, Prod.mk.injEq] at h
      obtain ⟨rfl, rfl⟩ := h
      exact .refl
  | cons op ops ih =>
      simp only [exec] at h
      cases hnext : next start op with
      | none => simp [hnext] at h
      | some result =>
          obtain ⟨event, mid⟩ := result
          cases hrest : exec next mid ops with
          | none => simp [hnext, hrest] at h
          | some result =>
              obtain ⟨later, last⟩ := result
              simp only [hnext, hrest, Option.some.injEq,
                Prod.mk.injEq] at h
              obtain ⟨rfl, rfl⟩ := h
              have first : Run Step start [event] mid := by
                simpa using Run.step .refl (sound hnext)
              exact first.trans (ih hrest)

theorem exec_simulation {ο τ ρ : Type*} {next : σ → ο → Option (ε × σ)}
    {next' : τ → ο → Option (ε × τ)} {Related : σ → τ → Prop}
    {view : σ → ρ} {view' : τ → ρ}
    (hview : ∀ {s t}, Related s t → view s = view' t)
    (hnext : ∀ {s t}, Related s t → ∀ op,
      (next s op = none ∧ next' t op = none) ∨
      ∃ event s' t', next s op = some (event, s') ∧
        next' t op = some (event, t') ∧ Related s' t')
    {s : σ} {t : τ} (h : Related s t) (ops : List ο) :
    (exec next s ops).map (fun result => (result.1, view result.2)) =
      (exec next' t ops).map fun result => (result.1, view' result.2) := by
  induction ops generalizing s t with
  | nil => simp [exec, hview h]
  | cons op ops ih =>
      rcases hnext h op with ⟨hs, ht⟩ |
        ⟨event, s', t', hs, ht, hrelated⟩
      · simp [exec, hs, ht]
      · have hrest := ih hrelated
        simp only [exec, hs, ht]
        cases hleft : exec next s' ops with
        | none =>
            cases hright : exec next' t' ops with
            | none => rfl
            | some => simp [hleft, hright] at hrest
        | some =>
            cases hright : exec next' t' ops with
            | none => simp [hleft, hright] at hrest
            | some =>
                simp only [hleft, hright, Option.map_some,
                  Option.some.injEq, Prod.mk.injEq] at hrest
                simp [hrest.1, hrest.2]

end ConjureRuntime.Foundation
