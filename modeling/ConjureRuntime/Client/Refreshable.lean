import ConjureRuntime.Service.Error

/-!
# Values that are refreshed

A `Refreshable` is a value that others subscribe to with a callback which may
fail.  When the callback is called is the business of the package; relied upon
is only that it is called with every value that is new, and once more after it
has failed.  The environment in which a callback runs differs from call to
call.
-/

namespace ConjureRuntime.Client

open ConjureRuntime.Service

/-- The package.  A callback is called with a value that is equal to the one
before it or not, after it succeeded last or not; a mapped value is replaced by
an outcome of the mapping that is equal to it or not. -/
structure Refreshable where
  runs (equal succeeded : Bool) : Bool
  stores (equal : Bool) : Bool
  runs_changed (succeeded : Bool) : runs false succeeded = true
  runs_failed (equal : Bool) : runs equal false = true
  stores_changed : stores false = true

namespace Refreshable

def ofEqual (runsEqual storesEqual : Bool) : Refreshable where
  runs equal succeeded := !equal || !succeeded || runsEqual
  stores equal := !equal || storesEqual
  runs_changed := by simp
  runs_failed := by simp
  stores_changed := by simp

theorem eq_ofEqual (refreshable : Refreshable) :
    refreshable =
      ofEqual (refreshable.runs true true) (refreshable.stores true) := by
  obtain ⟨runs, stores, hchanged, hfailed, hstores⟩ := refreshable
  have hruns : runs = fun equal succeeded =>
      !equal || !succeeded || runs true true := by
    funext equal succeeded
    cases equal <;> cases succeeded <;> simp [hchanged, hfailed]
  have hstores : stores = fun equal => !equal || stores true := by
    funext equal
    cases equal <;> simp [hstores]
  simp only [ofEqual, mk.injEq]
  exact ⟨hruns, hstores⟩

theorem eq_of_not_runs {refreshable : Refreshable} {equal succeeded : Bool}
    (h : ¬ refreshable.runs equal succeeded = true) :
    equal = true ∧ succeeded = true := by
  cases equal with
  | false => exact absurd (refreshable.runs_changed succeeded) h
  | true =>
      cases succeeded with
      | false => exact absurd (refreshable.runs_failed true) h
      | true => exact ⟨rfl, rfl⟩

end Refreshable

/-- The value that was last put, whether the callback succeeded on it, what
the callback last made, and the value that it made this from. -/
structure Subscription (τ α : Type) where
  value : τ
  succeeded : Bool
  source : τ
  made : α

namespace Subscription

variable {τ α : Type}

/-- `Refreshable::try_subscribe`, which calls the callback at once. -/
def trySubscribe (callback : τ → Except Error α) (value : τ) :
    Except Error (Subscription τ α) := do
  let made ← callback value
  pure ⟨value, true, value, made⟩

def runs [DecidableEq τ] (refreshable : Refreshable)
    (subscription : Subscription τ α) (value : τ) : Bool :=
  refreshable.runs (subscription.value = value) subscription.succeeded

/-- `RefreshHandle::refresh`; a callback that fails leaves what it has made. -/
def refresh [DecidableEq τ] (refreshable : Refreshable)
    (callback : τ → Except Error α) (subscription : Subscription τ α)
    (value : τ) : List Error × Subscription τ α :=
  if subscription.runs refreshable value then
    match callback value with
    | .ok made => ([], ⟨value, true, value, made⟩)
    | .error error =>
        ([error], { subscription with value := value, succeeded := false })
  else ([], { subscription with value := value })

section

variable [DecidableEq τ] {refreshable : Refreshable}
  {callback : τ → Except Error α} {subscription : Subscription τ α}
  {value : τ}

theorem refresh_cases (refreshable : Refreshable)
    (callback : τ → Except Error α) (subscription : Subscription τ α)
    (value : τ) :
    (∃ error, subscription.runs refreshable value = true ∧
      callback value = .error error ∧
      subscription.refresh refreshable callback value =
        ([error], { subscription with value := value, succeeded := false })) ∨
    (∃ made, subscription.runs refreshable value = true ∧
      callback value = .ok made ∧
      subscription.refresh refreshable callback value =
        ([], ⟨value, true, value, made⟩)) ∨
    (subscription.runs refreshable value = false ∧
      subscription.value = value ∧ subscription.succeeded = true ∧
      subscription.refresh refreshable callback value =
        ([], subscription)) := by
  unfold refresh
  cases hruns : subscription.runs refreshable value with
  | true =>
      cases callback value with
      | error error => exact .inl ⟨error, rfl, rfl, rfl⟩
      | ok made => exact .inr (.inl ⟨made, rfl, rfl, rfl⟩)
  | false =>
      have hnot : ¬ refreshable.runs (subscription.value = value)
          subscription.succeeded = true := by
        simpa [runs] using hruns
      obtain ⟨hequal, hsucceeded⟩ := Refreshable.eq_of_not_runs hnot
      have hvalue := of_decide_eq_true hequal
      subst hvalue
      exact .inr (.inr ⟨rfl, rfl, hsucceeded, rfl⟩)

@[simp] theorem refresh_value :
    (subscription.refresh refreshable callback value).2.value = value := by
  rcases refresh_cases refreshable callback subscription value with
    ⟨error, -, -, h⟩ | ⟨made, -, -, h⟩ | ⟨-, hvalue, -, h⟩ <;> rw [h]
  exact hvalue

theorem refresh_failed
    (h : ∃ error, callback value = .error error) :
    (subscription.refresh refreshable callback value).2.made =
      subscription.made := by
  obtain ⟨error, herror⟩ := h
  rcases refresh_cases refreshable callback subscription value with
    ⟨error, -, -, hrefresh⟩ | ⟨made, -, hmade, -⟩ | ⟨-, -, -, hrefresh⟩
  · rw [hrefresh]
  · cases herror.symm.trans hmade
  · rw [hrefresh]

theorem refresh_quiet (hsucceeded : subscription.succeeded = true)
    (hquiet : refreshable.runs true true = false) :
    (subscription.refresh refreshable callback subscription.value).2 =
      subscription := by
  have hruns : subscription.runs refreshable subscription.value = false := by
    simpa [runs, hsucceeded] using hquiet
  simp only [refresh, hruns, Bool.false_eq_true, if_false]

theorem refresh_succeeded :
    (subscription.refresh refreshable callback value).2.succeeded = true ↔
      (subscription.refresh refreshable callback value).1 = [] := by
  rcases refresh_cases refreshable callback subscription value with
    ⟨error, -, -, h⟩ | ⟨made, -, -, h⟩ | ⟨-, -, hsucceeded, h⟩ <;> rw [h]
  · simp
  · simp
  · simp [hsucceeded]

theorem refresh_errors :
    (subscription.refresh refreshable callback value).1 = [] ↔
      (subscription.runs refreshable value = true →
        ∃ made, callback value = .ok made) := by
  rcases refresh_cases refreshable callback subscription value with
    ⟨error, hruns, herror, h⟩ | ⟨made, hruns, hmade, h⟩ |
      ⟨hruns, -, -, h⟩ <;> rw [h]
  · simp [hruns, herror]
  · simp [hmade]
  · simp [hruns]

end

/-! ## What was made -/

structure Consistent {ε : Type} (callback : ε → τ → Except Error α)
    (subscription : Subscription τ α) : Prop where
  made : ∃ environment,
    callback environment subscription.source = .ok subscription.made
  source : subscription.succeeded = true →
    subscription.source = subscription.value

namespace Consistent

variable {ε : Type} {callback : ε → τ → Except Error α} {environment : ε}
  {subscription : Subscription τ α} {value : τ}

theorem trySubscribe
    (h : Subscription.trySubscribe (callback environment) value =
      .ok subscription) :
    Consistent callback subscription ∧ subscription.value = value ∧
      subscription.succeeded = true := by
  unfold Subscription.trySubscribe at h
  cases hmade : callback environment value with
  | error error =>
      rw [hmade] at h
      cases h
  | ok made =>
      rw [hmade] at h
      cases h
      exact ⟨⟨⟨environment, hmade⟩, fun _ => rfl⟩, rfl, rfl⟩

variable [DecidableEq τ]

theorem refresh (refreshable : Refreshable) (environment : ε)
    (h : Consistent callback subscription) (value : τ) :
    Consistent callback
      (subscription.refresh refreshable (callback environment) value).2 := by
  rcases refresh_cases refreshable (callback environment) subscription
    value with ⟨error, -, -, hrefresh⟩ | ⟨made, -, hmade, hrefresh⟩ |
      ⟨-, -, -, hrefresh⟩ <;> rw [hrefresh]
  · exact ⟨h.made, by simp⟩
  · exact ⟨⟨environment, hmade⟩, fun _ => rfl⟩
  · exact h

theorem refresh_source (refreshable : Refreshable)
    (h : Consistent callback subscription)
    (hmade : ∃ made, callback environment value = .ok made) :
    (subscription.refresh refreshable (callback environment) value).2.source =
      value := by
  obtain ⟨made, hmade⟩ := hmade
  rcases refresh_cases refreshable (callback environment) subscription
    value with ⟨error, -, herror, -⟩ | ⟨made, -, -, hrefresh⟩ |
      ⟨-, hvalue, hsucceeded, hrefresh⟩
  · cases hmade.symm.trans herror
  · rw [hrefresh]
  · rw [hrefresh, h.source hsucceeded, hvalue]

end Consistent

/-! ## A sequence of refreshes -/

/-- After some updates, each with its environment: what was made was made by
one of them; those after it have brought the same value once more, and at the
end others that failed. -/
structure Follows {ε : Type} (callback : ε → τ → Except Error α)
    (updates : List (τ × ε)) (subscription : Subscription τ α) : Prop where
  value : updates.getLast?.map Prod.fst = some subscription.value
  source : subscription.succeeded = true →
    subscription.source = subscription.value
  made : ∃ earlier environment again failing,
    updates =
      earlier ++ (subscription.source, environment) :: (again ++ failing) ∧
    callback environment subscription.source = .ok subscription.made ∧
    (∀ update ∈ again, update.1 = subscription.source) ∧
    (∀ update ∈ failing,
      ∃ error, callback update.2 update.1 = .error error) ∧
    (subscription.succeeded = true → failing = [])

namespace Follows

variable {ε : Type} {callback : ε → τ → Except Error α} {environment : ε}
  {subscription : Subscription τ α} {updates : List (τ × ε)} {value : τ}

theorem made_last {made : α} (updates : List (τ × ε))
    (hmade : callback environment value = .ok made) :
    Follows callback (updates ++ [(value, environment)])
      ⟨value, true, value, made⟩ where
  value := by simp
  source _ := rfl
  made := ⟨updates, environment, [], [], by simp, hmade, by simp, by simp,
    by simp⟩

theorem consistent (h : Follows callback updates subscription) :
    Consistent callback subscription := by
  obtain ⟨earlier, environment, again, failing, -, hmade, -⟩ := h.made
  exact ⟨⟨environment, hmade⟩, h.source⟩

theorem trySubscribe
    (h : Subscription.trySubscribe (callback environment) value =
      .ok subscription) :
    Follows callback [(value, environment)] subscription := by
  unfold Subscription.trySubscribe at h
  cases hmade : callback environment value with
  | error error =>
      rw [hmade] at h
      cases h
  | ok made =>
      rw [hmade] at h
      cases h
      exact made_last [] hmade

theorem refresh [DecidableEq τ] (refreshable : Refreshable)
    (h : Follows callback updates subscription) (value : τ)
    (environment : ε) :
    Follows callback (updates ++ [(value, environment)])
      (subscription.refresh refreshable (callback environment) value).2 := by
  obtain ⟨earlier, first, again, failing, hupdates, hmade, hagain, hfailing,
    hsucceeded⟩ := h.made
  rcases refresh_cases refreshable (callback environment) subscription
    value with ⟨error, -, herror, hrefresh⟩ | ⟨made, -, hnew, hrefresh⟩ |
      ⟨-, hvalue, hgood, hrefresh⟩ <;> rw [hrefresh]
  · refine ⟨by simp, by simp, earlier, first, again,
      failing ++ [(value, environment)], by simp [hupdates], hmade, hagain,
      ?_, by simp⟩
    intro update hmem
    rcases List.mem_append.mp hmem with hmem | hmem
    · exact hfailing update hmem
    · cases List.mem_singleton.mp hmem
      exact ⟨error, herror⟩
  · exact made_last updates hnew
  · refine ⟨by simp [hvalue], h.source, earlier, first,
      again ++ [(value, environment)], [], ?_, hmade, ?_, by simp, by simp⟩
    · simp [hupdates, hsucceeded hgood]
    · intro update hmem
      rcases List.mem_append.mp hmem with hmem | hmem
      · exact hagain update hmem
      · cases List.mem_singleton.mp hmem
        exact hvalue.symm.trans (h.source hgood).symm

end Follows

end Subscription

end ConjureRuntime.Client
