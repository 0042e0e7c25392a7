import ConjureRuntime.Foundation.ListSum
import ConjureRuntime.Node.PinUntilError
import Mathlib.Data.Nat.ModEq

/-!
# Stale failures

A failed request moves the pin if it finds it where it read it.  That tells
nothing when the pin has been all the way round in the meantime, and nothing
about the node in that slot when the nodes have been shuffled.
-/

namespace ConjureRuntime.Node.PinUntilError

open ConjureRuntime.Foundation ConjureRuntime.Service

variable {n : Nat}

/-! ## What requests know -/

namespace System

variable {system system' : System n} {event : Event n}

def ReadHolds (system : System n) (read : Read n) : Prop :=
  read.rotations ≤ system.rotations ∧
    system.currentPin.val =
      (read.pin.val + (system.rotations - read.rotations)) % n

def ResolvedHolds (system : System n) (resolved : Resolved n) : Prop :=
  system.ReadHolds resolved.read ∧ resolved.shuffles ≤ system.shuffles ∧
    (resolved.shuffles = system.shuffles →
      system.nodeAt resolved.read.pin = resolved.node)

def Fresh (system : System n) (resolved : Resolved n) : Prop :=
  resolved.read.rotations = system.rotations ∧
    resolved.shuffles = system.shuffles

def RequestHolds (system : System n) : Request n → Prop
  | .starting | .done => True
  | .pinned read | .clockRead read _ | .reshuffling read _ _
  | .shuffling read | .storing read _ | .resolving read =>
      system.ReadHolds read
  | .calling resolved => system.ResolvedHolds resolved
  | .rotating resolved => system.ResolvedHolds resolved ∧
      (system.Fresh resolved → resolved.node ∈ system.failed)

def Invariant (system : System n) : Prop :=
  ∀ {request : Nat} {state : Request n},
    system.requests[request]? = some state → system.RequestHolds state

/-! ## What the steps do to what requests know -/

inductive Moves (system system' : System n) : Prop where
  | stay (pin : system'.currentPin = system.currentPin)
      (shuffle : system'.shuffle = system.shuffle)
      (rotations : system'.rotations = system.rotations)
      (shuffles : system'.shuffles = system.shuffles)
      (failed : system.failed ⊆ system'.failed)
  | rotate (pin : system'.currentPin = newPin system.currentPin)
      (shuffle : system'.shuffle = system.shuffle)
      (rotations : system'.rotations = system.rotations + 1)
      (shuffles : system'.shuffles = system.shuffles)
  | shuffle (pin : system'.currentPin = system.currentPin)
      (rotations : system'.rotations = system.rotations)
      (shuffles : system'.shuffles = system.shuffles + 1)

theorem ReadHolds.moves {read : Read n} (h : system.ReadHolds read)
    (hmoves : Moves system system') : system'.ReadHolds read := by
  obtain ⟨hle, hpin⟩ := h
  unfold ReadHolds
  cases hmoves with
  | stay pin _ rotations => rw [pin, rotations]; exact ⟨hle, hpin⟩
  | shuffle pin rotations => rw [pin, rotations]; exact ⟨hle, hpin⟩
  | rotate pin _ rotations =>
      rw [pin, rotations, Nat.succ_sub hle]
      refine ⟨Nat.le_succ_of_le hle, ?_⟩
      simp only [newPin]
      rw [hpin, Nat.mod_add_mod, Nat.add_assoc]

theorem ResolvedHolds.moves {resolved : Resolved n}
    (h : system.ResolvedHolds resolved) (hmoves : Moves system system') :
    system'.ResolvedHolds resolved := by
  obtain ⟨hread, hle, hnode⟩ := h
  refine ⟨hread.moves hmoves, ?_⟩
  unfold nodeAt at hnode ⊢
  cases hmoves with
  | stay _ shuffle _ shuffles => rw [shuffles, shuffle]; exact ⟨hle, hnode⟩
  | rotate _ shuffle _ shuffles => rw [shuffles, shuffle]; exact ⟨hle, hnode⟩
  | shuffle _ _ shuffles =>
      rw [shuffles]
      exact ⟨Nat.le_succ_of_le hle, fun heq => by omega⟩

theorem RequestHolds.moves {state : Request n}
    (h : system.RequestHolds state) (hmoves : Moves system system') :
    system'.RequestHolds state := by
  cases state with
  | starting | done => trivial
  | pinned | clockRead | reshuffling | shuffling | storing | resolving =>
      exact ReadHolds.moves h hmoves
  | calling => exact ResolvedHolds.moves h hmoves
  | rotating resolved =>
      obtain ⟨hresolved, hfailed⟩ := h
      refine ⟨hresolved.moves hmoves, fun hfresh => ?_⟩
      have hle := hresolved.1.1
      have hle' := hresolved.2.1
      unfold Fresh at hfresh hfailed
      cases hmoves with
      | stay _ _ rotations shuffles failed =>
          rw [rotations, shuffles] at hfresh
          exact failed (hfailed hfresh)
      | rotate _ _ rotations _ => omega
      | shuffle _ _ shuffles => omega

theorem Invariant.set {request other : Nat} {state' : Request n}
    (h : system.Invariant) (state : Request n)
    (hmoves : Moves system system')
    (hrequests : system'.requests = system.requests.set request state)
    (hstate : system'.RequestHolds state)
    (hother : system'.requests[other]? = some state') :
    system'.RequestHolds state' := by
  rw [hrequests] at hother
  rcases getElem?_set_cases hother with ⟨-, rfl⟩ | ⟨-, hbefore⟩
  · exact hstate
  · exact (h hbefore).moves hmoves

theorem readHolds_self (system : System n) :
    system.ReadHolds ⟨system.currentPin, system.rotations⟩ :=
  ⟨Nat.le_refl _, by
    rw [Nat.sub_self, Nat.add_zero, Nat.mod_eq_of_lt system.currentPin.isLt]⟩

theorem resolvedHolds_resolve {read : Read n} (h : system.ReadHolds read) :
    system.ResolvedHolds (system.resolve read) :=
  ⟨h, Nat.le_refl _, fun _ => rfl⟩

theorem moves_setRequest {request : Nat} {state : Request n} :
    Moves system (system.setRequest request state) :=
  .stay rfl rfl rfl rfl (List.Subset.refl _)

theorem Invariant.step (h : system.Invariant)
    (hstep : Step system event system') : system'.Invariant := by
  intro other state hother
  obtain ⟨op, hnext⟩ := hstep
  cases op with
  | call =>
      cases hnext
      rcases List.mem_append.mp (List.mem_of_getElem? hother) with hmem | hmem
      · obtain ⟨before, hbefore⟩ := List.getElem?_of_mem hmem
        exact (h hbefore).moves (.stay rfl rfl rfl rfl (List.Subset.refl _))
      · cases List.mem_singleton.mp hmem
        trivial
  | loadPin request =>
      simp only [next] at hnext
      split at hnext
      · cases hnext
        exact h.set (.pinned ⟨_, _⟩) moves_setRequest rfl
          system.readHolds_self hother
      · cases hnext
  | getFixed request | getShuffled request =>
      simp only [next] at hnext
      split at hnext
      · rename_i hrequest
        cases hnext
        exact h.set (.calling (system.resolve _)) moves_setRequest rfl
          (resolvedHolds_resolve (h hrequest)) hother
      · cases hnext
  | readClock request now =>
      simp only [next] at hnext
      split at hnext
      · rename_i hrequest
        split at hnext
        · cases hnext
          exact h.set (.clockRead _ now)
            (.stay rfl rfl rfl rfl (List.Subset.refl _)) rfl (h hrequest)
            hother
        · cases hnext
      · cases hnext
  | loadNextReshuffle request =>
      simp only [next] at hnext
      split at hnext
      · rename_i hrequest
        split at hnext
        · cases hnext
          exact h.set (.resolving _) moves_setRequest rfl (h hrequest) hother
        · cases hnext
          exact h.set (.reshuffling _ _ _) moves_setRequest rfl (h hrequest)
            hother
      · cases hnext
  | exchangeNextReshuffle request =>
      simp only [next] at hnext
      split at hnext
      · rename_i hrequest
        split at hnext
        · cases hnext
          exact h.set (.shuffling _)
            (.stay rfl rfl rfl rfl (List.Subset.refl _)) rfl (h hrequest)
            hother
        · cases hnext
          exact h.set (.resolving _) moves_setRequest rfl (h hrequest) hother
      · cases hnext
  | loadShuffle request newShuffle =>
      simp only [next] at hnext
      split at hnext
      · rename_i hrequest
        cases hnext
        exact h.set (.storing _ newShuffle) moves_setRequest rfl (h hrequest)
          hother
      · cases hnext
  | storeShuffle request =>
      simp only [next] at hnext
      split at hnext
      · rename_i read newShuffle hrequest
        cases hnext
        have hread : system.ReadHolds read := h hrequest
        exact h.set (.resolving read) (.shuffle rfl rfl rfl) rfl
          (hread.moves (.shuffle rfl rfl rfl)) hother
      · cases hnext
  | answer request status =>
      simp only [next] at hnext
      split at hnext
      · rename_i resolved hrequest
        have hresolved : system.ResolvedHolds resolved := h hrequest
        split at hnext
        · cases hnext
          have hmoves : ∀ {system' : System n},
              system'.currentPin = system.currentPin →
              system'.shuffle = system.shuffle →
              system'.rotations = system.rotations →
              system'.shuffles = system.shuffles →
              system'.failed = resolved.node :: system.failed →
              Moves system system' := fun pin shuffle rotations shuffles
            failed => .stay pin shuffle rotations shuffles
              (failed ▸ List.subset_cons_self _ _)
          exact h.set (.rotating resolved) (hmoves rfl rfl rfl rfl rfl) rfl
            ⟨hresolved.moves (hmoves rfl rfl rfl rfl rfl),
              fun _ => List.mem_cons_self⟩ hother
        · cases hnext
          exact h.set .done moves_setRequest rfl trivial hother
      · cases hnext
  | exchangePin request =>
      simp only [next] at hnext
      split at hnext
      · split at hnext
        · rename_i hsame
          cases hnext
          exact h.set .done (.rotate (congrArg newPin hsame.symm) rfl rfl rfl)
            rfl trivial hother
        · cases hnext
          exact h.set .done moves_setRequest rfl trivial hother
      · cases hnext

/-! ## What moves the pin -/

theorem ReadHolds.same_pin_iff {read : Read n} (h : system.ReadHolds read) :
    system.currentPin = read.pin ↔
      n ∣ system.rotations - read.rotations := by
  have hpin : read.pin.val % n = read.pin.val :=
    Nat.mod_eq_of_lt read.pin.isLt
  calc system.currentPin = read.pin
      ↔ (read.pin.val + (system.rotations - read.rotations)) % n =
          (read.pin.val + 0) % n := by
        rw [Fin.ext_iff, h.2, Nat.add_zero, hpin]
    _ ↔ system.rotations - read.rotations ≡ 0 [MOD n] :=
        ⟨Nat.ModEq.add_left_cancel' _, Nat.ModEq.add_left _⟩
    _ ↔ n ∣ system.rotations - read.rotations := Nat.modEq_zero_iff_dvd

theorem newPin_ne (hn : 2 ≤ n) (pin : Fin n) : newPin pin ≠ pin := by
  intro heq
  have hmod : (pin.val + 1) % n = pin.val := congrArg Fin.val heq
  have hlt := pin.isLt
  by_cases hlast : pin.val + 1 = n
  · rw [hlast, Nat.mod_self] at hmod
    omega
  · rw [Nat.mod_eq_of_lt (by omega)] at hmod
    omega

theorem pin_cases (hstep : Step system event system') :
    (∃ request resolved,
      system.requests[request]? = some (.rotating resolved) ∧
      (system.currentPin = resolved.read.pin ∧
          event = .pinExchanged request true ∧
          system'.currentPin = newPin resolved.read.pin ∨
        system.currentPin ≠ resolved.read.pin ∧
          event = .pinExchanged request false ∧
          system'.currentPin = system.currentPin)) ∨
    (∀ request exchanged, event ≠ .pinExchanged request exchanged) ∧
      system'.currentPin = system.currentPin := by
  obtain ⟨op, hnext⟩ := hstep
  cases op with
  | exchangePin request =>
      simp only [next] at hnext
      split at hnext
      · rename_i resolved hrequest
        refine .inl ⟨request, resolved, hrequest, ?_⟩
        split at hnext
        next hpin =>
          cases hnext
          exact .inl ⟨hpin, rfl, rfl⟩
        next hpin =>
          cases hnext
          exact .inr ⟨hpin, rfl, rfl⟩
      · cases hnext
  | call | loadPin | getFixed | readClock | loadNextReshuffle
  | exchangeNextReshuffle | loadShuffle | storeShuffle | getShuffled
  | answer =>
      simp only [next] at hnext
      repeat' split at hnext
      all_goals
        cases hnext
      all_goals exact .inr ⟨by simp, rfl⟩

theorem pin_moved (hstep : Step system event system')
    (hmoved : system'.currentPin ≠ system.currentPin) :
    ∃ request resolved, event = .pinExchanged request true ∧
      system.requests[request]? = some (.rotating resolved) ∧
      system.currentPin = resolved.read.pin := by
  rcases pin_cases hstep with
    ⟨request, resolved, hrequest, ⟨hsame, hevent, -⟩ | ⟨-, -, hstays⟩⟩ |
    ⟨-, hstays⟩
  · exact ⟨request, resolved, hevent, hrequest, hsame⟩
  · exact absurd hstays hmoved
  · exact absurd hstays hmoved

theorem exchanged_pin {request : Nat} {exchanged : Bool}
    (hstep : Step system (.pinExchanged request exchanged) system') :
    ∃ resolved, system.requests[request]? = some (.rotating resolved) ∧
      (system.currentPin = resolved.read.pin →
        system'.currentPin = newPin resolved.read.pin) := by
  rcases pin_cases hstep with
    ⟨other, resolved, hrequest, ⟨-, hevent, hpin⟩ | ⟨hother, hevent, -⟩⟩ |
    ⟨hnone, -⟩
  · cases hevent
    exact ⟨resolved, hrequest, fun _ => hpin⟩
  · cases hevent
    exact ⟨resolved, hrequest, fun hsame => absurd hsame hother⟩
  · exact absurd rfl (hnone request exchanged)

/-! ## When stale failures move the pin -/

/-- Whatever moves the pin is a request that failed, with neither the pin nor
the nodes moved since it got its node; and the node that was pinned has failed
since it was. -/
structure FreshStep (system : System n) (event : Event n)
    (system' : System n) : Prop where
  step : Step system event system'
  fresh : system'.currentPin ≠ system.currentPin →
    ∃ request resolved, event = .pinExchanged request true ∧
      system.requests[request]? = some (.rotating resolved) ∧
      system.Fresh resolved ∧
      system.nodeAt system.currentPin ∈ system.failed

/-- The pin has not been all the way round since a request read it; and if it
has not been moved at all, then the nodes have not been shuffled since the
request got its node. -/
structure Timely (system : System n) (resolved : Resolved n) : Prop where
  round : n ∣ system.rotations - resolved.read.rotations →
    resolved.read.rotations = system.rotations
  shuffles : resolved.read.rotations = system.rotations →
    resolved.shuffles = system.shuffles

structure TimelyStep (system : System n) (event : Event n)
    (system' : System n) : Prop where
  step : Step system event system'
  timely : ∀ {request exchanged resolved},
    event = .pinExchanged request exchanged →
    system.requests[request]? = some (.rotating resolved) →
    system.Timely resolved

theorem Invariant.fresh_iff_timely (h : system.Invariant) (hn : 2 ≤ n) :
    FreshStep system event system' ↔ TimelyStep system event system' := by
  constructor
  · rintro ⟨hstep, hfresh⟩
    refine ⟨hstep, ?_⟩
    rintro request exchanged resolved rfl hrequest
    have hholds : system.ResolvedHolds resolved := (h hrequest).1
    have hround : n ∣ system.rotations - resolved.read.rotations →
        system.Fresh resolved := by
      intro hround
      have hsame := hholds.1.same_pin_iff.mpr hround
      obtain ⟨found, hfound, hmoves⟩ := exchanged_pin hstep
      cases hrequest.symm.trans hfound
      have hmoved : system'.currentPin ≠ system.currentPin := by
        rw [hmoves hsame, hsame]
        exact newPin_ne hn _
      obtain ⟨other, found, heq, hfound, hfresh, -⟩ := hfresh hmoved
      cases heq
      cases hrequest.symm.trans hfound
      exact hfresh
    refine ⟨fun hdvd => (hround hdvd).1, fun hread => (hround ?_).2⟩
    rw [hread, Nat.sub_self]
    exact Nat.dvd_zero n
  · rintro ⟨hstep, htimely⟩
    refine ⟨hstep, fun hmoved => ?_⟩
    obtain ⟨request, resolved, hevent, hrequest, hsame⟩ :=
      pin_moved hstep hmoved
    obtain ⟨hholds, hfailed⟩ :
        system.ResolvedHolds resolved ∧
          (system.Fresh resolved → resolved.node ∈ system.failed) :=
      h hrequest
    have htimely := htimely hevent hrequest
    have hread := htimely.round (hholds.1.same_pin_iff.mp hsame)
    have hfresh : system.Fresh resolved := ⟨hread, htimely.shuffles hread⟩
    refine ⟨request, resolved, hevent, hrequest, hfresh, ?_⟩
    rw [hsame, hholds.2.2 hfresh.2]
    exact hfailed hfresh

variable {nodes : Nodes} {shuffle : Equiv.Perm (Fin n)}
  {events : List (Event n)}

theorem run_invariant {hn : 0 < n}
    (run : Run Step (System.new nodes shuffle hn) events system) :
    system.Invariant :=
  run.invariant (fun _ system => system.Invariant)
    (fun h => by simp [System.new] at h) fun h hstep => h.step hstep

/-- Stale failures never move the pin in exactly those runs in which every
failed request is timely. -/
theorem stale_failures_iff (hn : 2 ≤ n) :
    Run FreshStep (System.new nodes shuffle (Nat.zero_lt_of_lt hn)) events
        system ↔
      Run TimelyStep (System.new nodes shuffle (Nat.zero_lt_of_lt hn)) events
        system := by
  constructor
  · intro run
    induction run with
    | refl => exact .refl
    | step run hstep ih =>
        have h : System.Invariant _ :=
          run_invariant (run.mono FreshStep.step)
        exact .step ih ((h.fresh_iff_timely hn).mp hstep)
  · intro run
    induction run with
    | refl => exact .refl
    | step run hstep ih =>
        have h : System.Invariant _ :=
          run_invariant (run.mono TimelyStep.step)
        exact .step ih ((h.fresh_iff_timely hn).mpr hstep)

theorem fresh_failure_moves_pin :
    ∃ events system,
      Run FreshStep (System.new .fixed (Equiv.refl (Fin 2)) Nat.two_pos) events
        system ∧
      system.currentPin = 1 := by
  have called : Run TimelyStep
      (System.new .fixed (Equiv.refl (Fin 2)) Nat.two_pos) _ _ :=
    .step .refl ⟨⟨.call, rfl⟩, fun h => by cases h⟩
  have resolved := (called.step ⟨⟨.loadPin 0, rfl⟩, fun h => by cases h⟩).step
    ⟨⟨.getFixed 0, rfl⟩, fun h => by cases h⟩
  have failed := resolved.step
    ⟨⟨.answer 0 (.ok .internalServerError), rfl⟩, fun h => by cases h⟩
  refine ⟨_, _, (stale_failures_iff (Nat.le_refl 2)).mpr (failed.step
    ⟨⟨.exchangePin 0, rfl⟩, ?_⟩), rfl⟩
  intro request exchanged state hevent hrequest
  cases hevent
  cases hrequest
  exact ⟨fun _ => rfl, fun _ => rfl⟩

/-! ## Stale failures that do -/

def roundOps : List (Op 2) :=
  [.call, .call, .call,
    .loadPin 0, .getFixed 0, .answer 0 (.error ()),
    .loadPin 1, .getFixed 1, .answer 1 (.error ()), .exchangePin 1,
    .loadPin 2, .getFixed 2, .answer 2 (.error ()), .exchangePin 2]

def shuffledOps : List (Op 2) :=
  [.call, .call,
    .loadPin 0, .readClock 0 0, .loadNextReshuffle 0, .getShuffled 0,
    .loadPin 1, .readClock 1 reshuffleEvery.nanos, .loadNextReshuffle 1,
    .exchangeNextReshuffle 1, .loadShuffle 1 (Equiv.swap 0 1),
    .storeShuffle 1, .answer 0 (.error ())]

def wentRound : System 2 where
  nodes := .fixed
  currentPin := 0
  shuffle := Equiv.refl _
  nextReshuffleNanos := 0
  clock := 0
  requests := [.rotating ⟨⟨0, 0⟩, 0, 0⟩, .done, .done]
  rotations := 2
  shuffles := 0
  failed := []

def wasShuffled : System 2 where
  nodes := .withJitter (.fromSecs 0)
  currentPin := 0
  shuffle := Equiv.swap 0 1
  nextReshuffleNanos := 2 * reshuffleEvery.nanos
  clock := reshuffleEvery.nanos
  requests := [.rotating ⟨⟨0, 0⟩, 0, 0⟩, .resolving ⟨0, 0⟩]
  rotations := 0
  shuffles := 1
  failed := [0]

theorem stale_failures_move_pin :
    (¬ ∀ {events : List (Event 2)} {system system' : System 2}
        {event : Event 2},
      Run Step (System.new .fixed (Equiv.refl _) Nat.two_pos) events system →
      Step system event system' → FreshStep system event system') ∧
    (¬ ∀ {events : List (Event 2)} {system system' : System 2}
        {event : Event 2},
      Run Step (System.new (.withJitter (.fromSecs 0)) (Equiv.refl _)
        Nat.two_pos) events system →
      Step system event system' → FreshStep system event system') := by
  constructor
  · intro h
    have hexec : exec next (System.new .fixed (Equiv.refl _) Nat.two_pos)
        roundOps = some (_, wentRound) := rfl
    have run : Run Step _ _ _ := exec_run (fun h => ⟨_, h⟩) hexec
    have hfresh := (h run ⟨.exchangePin 0, rfl⟩).fresh (by decide)
    obtain ⟨request, resolved, hevent, hrequest, ⟨hrotations, -⟩, -⟩ := hfresh
    cases hevent
    cases hrequest
    exact absurd hrotations (by decide)
  · intro h
    have hexec : exec next (System.new (.withJitter (.fromSecs 0))
        (Equiv.refl _) Nat.two_pos) shuffledOps = some (_, wasShuffled) := rfl
    have run : Run Step _ _ _ := exec_run (fun h => ⟨_, h⟩) hexec
    have hfresh := (h run ⟨.exchangePin 0, rfl⟩).fresh (by decide)
    obtain ⟨request, resolved, hevent, hrequest, ⟨-, hshuffles⟩, -⟩ := hfresh
    cases hevent
    cases hrequest
    exact absurd hshuffles (by decide)

end System

end ConjureRuntime.Node.PinUntilError
