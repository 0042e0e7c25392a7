import ConjureRuntime.Foundation.Cutoff

/-!
# The candidates of the balanced selector

A request takes a snapshot of the scores of all nodes and walks them from the
best on.  Every node with enough requests in flight limits the scores of the
nodes after it, and what is above the limit is no candidate.
-/

namespace ConjureRuntime.Node.Balanced

open ConjureRuntime.Foundation

def inflightComparisonThreshold : Nat := 5

def unhealthyScoreMultiplier : Nat := 2

/-! ## Scores -/

variable {usizeMax : Nat} {ν : Type*}

def saturatingAdd (usizeMax a b : Nat) : Nat := min (a + b) usizeMax

def saturatingMul (usizeMax a b : Nat) : Nat := min (a * b) usizeMax

/-- A score counts the requests in flight. -/
structure Score (usizeMax : Nat) where
  inFlight : Nat
  score : Nat
  inFlight_le_score : inFlight ≤ score
  score_le_max : score ≤ usizeMax
  deriving DecidableEq, Repr

/-- `TrackedNode::score`, from the rounded value of the recent failures. -/
def Score.ofFailures (inFlight recentFailures : Nat) (h : inFlight ≤ usizeMax) :
    Score usizeMax where
  inFlight := inFlight
  score := saturatingAdd usizeMax inFlight recentFailures
  inFlight_le_score := le_min (Nat.le_add_right _ _) h
  score_le_max := min_le_right _ _

theorem Score.exists_ofFailures (score : Score usizeMax) :
    ∃ recentFailures, score = .ofFailures score.inFlight recentFailures
      (score.inFlight_le_score.trans score.score_le_max) := by
  obtain ⟨inFlight, score, hle, hmax⟩ := score
  refine ⟨score - inFlight, ?_⟩
  simp only [Score.ofFailures, Score.mk.injEq, true_and, saturatingAdd]
  omega

structure Snapshot (usizeMax : Nat) (ν : Type*) where
  node : ν
  score : Score usizeMax
  deriving DecidableEq

namespace Snapshot

def key (snapshot : Snapshot usizeMax ν) : Nat := snapshot.score.score

def busy (snapshot : Snapshot usizeMax ν) : Bool :=
  inflightComparisonThreshold < snapshot.score.inFlight

end Snapshot

/-! ## The filter -/

/-- `sort_by_key`, which is stable. -/
def sortByKey (snapshots : List (Snapshot usizeMax ν)) :
    List (Snapshot usizeMax ν) :=
  snapshots.insertionSort fun a b => a.key ≤ b.key

/-- The loop of `acquire`. -/
def filterNodes : Nat → List (Snapshot usizeMax ν) →
    List (Snapshot usizeMax ν)
  | _, [] => []
  | giveUpThreshold, snapshot :: snapshots =>
      if giveUpThreshold < snapshot.score.score then
        filterNodes giveUpThreshold snapshots
      else
        let giveUpThreshold :=
          if inflightComparisonThreshold < snapshot.score.inFlight then
            saturatingMul usizeMax snapshot.score.score
              unhealthyScoreMultiplier
          else giveUpThreshold
        snapshot :: filterNodes giveUpThreshold snapshots

/-- The candidates that `BalancedNodeSelectorService::acquire` waits for. -/
def acquire
    (shuffle : List (Snapshot usizeMax ν) → List (Snapshot usizeMax ν))
    (nodes : List (Snapshot usizeMax ν)) : List (Snapshot usizeMax ν) :=
  shuffle (filterNodes usizeMax (sortByKey nodes))

/-- `Entropy::shuffle` puts the elements of a slice in some order. -/
def Shuffles (shuffle : List ν → List ν) : Prop :=
  ∀ slice, (shuffle slice).Perm slice

/-! ## What is kept -/

def raise (usizeMax score : Nat) : Nat :=
  saturatingMul usizeMax score unhealthyScoreMultiplier

theorem raise_mono : Monotone (raise usizeMax) := by
  intro a b h
  simp only [raise, saturatingMul, unhealthyScoreMultiplier]
  omega

theorem key_le_raise (snapshot : Snapshot usizeMax ν) :
    snapshot.key ≤ raise usizeMax snapshot.key := by
  have := snapshot.score.score_le_max
  simp only [raise, saturatingMul, unhealthyScoreMultiplier, Snapshot.key]
  omega

theorem filterNodes_eq_cut (giveUpThreshold : Nat)
    (snapshots : List (Snapshot usizeMax ν)) :
    filterNodes giveUpThreshold snapshots =
      Cutoff.cut Snapshot.key Snapshot.busy (raise usizeMax) giveUpThreshold
        snapshots := by
  induction snapshots generalizing giveUpThreshold with
  | nil => rfl
  | cons snapshot snapshots ih =>
      simp only [filterNodes, Cutoff.cut, ih, Snapshot.key, Snapshot.busy,
        raise, decide_eq_true_eq]

abbrev Reached (nodes : List (Snapshot usizeMax ν)) :
    Snapshot usizeMax ν → Prop :=
  Cutoff.Reached Snapshot.key Snapshot.busy (raise usizeMax) nodes

variable {shuffle shuffle' : List (Snapshot usizeMax ν) →
    List (Snapshot usizeMax ν)}
  {nodes nodes' : List (Snapshot usizeMax ν)} {x y : Snapshot usizeMax ν}

theorem sortByKey_perm : (sortByKey nodes).Perm nodes :=
  List.perm_insertionSort _ nodes

theorem sortByKey_sorted :
    (sortByKey nodes).Pairwise fun a b => a.key ≤ b.key := by
  let le (a b : Snapshot usizeMax ν) : Prop := a.key ≤ b.key
  have : Std.Total le := ⟨fun a b => Nat.le_total a.key b.key⟩
  have : IsTrans (Snapshot usizeMax ν) le :=
    ⟨fun _ _ _ hab hbc => Nat.le_trans hab hbc⟩
  exact List.pairwise_insertionSort le nodes

theorem mem_acquire_iff (hshuffle : Shuffles shuffle) :
    x ∈ acquire shuffle nodes ↔ Reached nodes x := by
  classical
  rw [acquire, (hshuffle _).mem_iff, filterNodes_eq_cut,
    Cutoff.cut_eq_filter (fun x _ => key_le_raise x) raise_mono
      sortByKey_sorted fun x _ => x.score.score_le_max]
  simp only [List.mem_filter, decide_eq_true_eq]
  constructor
  · rintro ⟨_, h⟩
    exact h.of_mem_iff fun _ => sortByKey_perm.mem_iff
  · intro h
    have hsorted : Reached (sortByKey nodes) x :=
      h.of_mem_iff fun _ => sortByKey_perm.mem_iff.symm
    exact ⟨hsorted.mem, hsorted⟩

theorem acquire_perm (hshuffle : Shuffles shuffle)
    (hshuffle' : Shuffles shuffle') (hperm : nodes'.Perm nodes) :
    (acquire shuffle' nodes').Perm (acquire shuffle nodes) := by
  have hsorted : (sortByKey nodes').Perm (sortByKey nodes) :=
    sortByKey_perm.trans (hperm.trans sortByKey_perm.symm)
  have hkept : (filterNodes usizeMax (sortByKey nodes')).Perm
      (filterNodes usizeMax (sortByKey nodes)) := by
    rw [filterNodes_eq_cut, filterNodes_eq_cut]
    exact Cutoff.cut_perm (fun x _ => key_le_raise x) raise_mono
      sortByKey_sorted sortByKey_sorted
      (fun x _ => x.score.score_le_max) hsorted
  exact (hshuffle' _).trans (hkept.trans (hshuffle _).symm)

theorem acquire_subperm (hshuffle : Shuffles shuffle) :
    (acquire shuffle nodes).Subperm nodes := by
  classical
  have hkept : (filterNodes usizeMax (sortByKey nodes)).Sublist
      (sortByKey nodes) := by
    rw [filterNodes_eq_cut,
      Cutoff.cut_eq_filter (fun x _ => key_le_raise x) raise_mono
        sortByKey_sorted fun x _ => x.score.score_le_max]
    exact List.filter_sublist
  exact (hshuffle _).subperm.trans
    (hkept.subperm.trans sortByKey_perm.subperm)

theorem reached_of_minimal (hx : x ∈ nodes)
    (hmin : ∀ y ∈ nodes, x.key ≤ y.key) : Reached nodes x :=
  .first hx fun y hy _ => hmin y hy

theorem exists_minimal (hnodes : nodes ≠ []) :
    ∃ x ∈ nodes, ∀ y ∈ nodes, x.key ≤ y.key := by
  classical
  obtain ⟨first, hfirst⟩ := List.exists_mem_of_ne_nil nodes hnodes
  obtain ⟨x, hx, hmin⟩ := nodes.toFinset.exists_min_image Snapshot.key
    ⟨first, List.mem_toFinset.mpr hfirst⟩
  exact ⟨x, List.mem_toFinset.mp hx,
    fun y hy => hmin y (List.mem_toFinset.mpr hy)⟩

theorem not_mem_acquire_iff (hshuffle : Shuffles shuffle) (hx : x ∈ nodes) :
    x ∉ acquire shuffle nodes ↔
      ∃ y ∈ acquire shuffle nodes,
        inflightComparisonThreshold < y.score.inFlight ∧
        (∀ z ∈ acquire shuffle nodes,
          inflightComparisonThreshold < z.score.inFlight →
            z.score.score ≤ y.score.score) ∧
        saturatingMul usizeMax y.score.score 2 < x.score.score := by
  rw [mem_acquire_iff hshuffle, Cutoff.not_reached_iff
    (fun x _ => key_le_raise x) raise_mono hx]
  simp only [mem_acquire_iff hshuffle, Snapshot.busy, decide_eq_true_eq]
  rfl

/-- The candidates of a request: there is one, every node of minimal score is
one, and so is every node whose score is not above that of a candidate; a node
is left out exactly when its score is above twice the largest score of a
candidate with more than five requests in flight; and they do not depend on
the order of the nodes. -/
theorem acquire_sound (hshuffle : Shuffles shuffle) (hnodes : nodes ≠ []) :
    acquire shuffle nodes ≠ [] ∧
    (acquire shuffle nodes).Subperm nodes ∧
    (∀ x ∈ nodes, (∀ y ∈ nodes, x.score.score ≤ y.score.score) →
      x ∈ acquire shuffle nodes) ∧
    (∀ y ∈ acquire shuffle nodes, ∀ x ∈ nodes,
      x.score.score ≤ y.score.score → x ∈ acquire shuffle nodes) ∧
    (∀ x ∈ nodes, x ∉ acquire shuffle nodes ↔
      ∃ y ∈ acquire shuffle nodes, 5 < y.score.inFlight ∧
        (∀ z ∈ acquire shuffle nodes, 5 < z.score.inFlight →
          z.score.score ≤ y.score.score) ∧
        saturatingMul usizeMax y.score.score 2 < x.score.score) ∧
    ∀ {shuffle' nodes'}, Shuffles shuffle' → nodes'.Perm nodes →
      (acquire shuffle' nodes').Perm (acquire shuffle nodes) := by
  refine ⟨?_, acquire_subperm hshuffle, ?_, ?_, ?_, ?_⟩
  · obtain ⟨x, hx, hmin⟩ := exists_minimal hnodes
    exact List.ne_nil_of_mem
      ((mem_acquire_iff hshuffle).mpr (reached_of_minimal hx hmin))
  · intro x hx hmin
    exact (mem_acquire_iff hshuffle).mpr (reached_of_minimal hx hmin)
  · intro y hy x hx hle
    exact (mem_acquire_iff hshuffle).mpr
      (((mem_acquire_iff hshuffle).mp hy).of_le hx hle)
  · exact fun x hx => not_mem_acquire_iff hshuffle hx
  · exact fun hshuffle' hperm => acquire_perm hshuffle hshuffle' hperm

/-! ## A chain of busy nodes -/

def idleNode : Snapshot (2 ^ 64 - 1) String :=
  ⟨"http://a/", ⟨0, 25, by decide, by decide⟩⟩

def busyNodes : List (Snapshot (2 ^ 64 - 1) String) :=
  [idleNode, ⟨"http://b/", ⟨7, 12, by decide, by decide⟩⟩,
    ⟨"http://c/", ⟨6, 6, by decide, by decide⟩⟩]

theorem idleNode_left_out :
    acquire List.reverse busyNodes ≠ [] ∧
    (idleNode ∉ acquire List.reverse busyNodes ↔
      ∃ y ∈ acquire List.reverse busyNodes, 5 < y.score.inFlight ∧
        (∀ z ∈ acquire List.reverse busyNodes, 5 < z.score.inFlight →
          z.score.score ≤ y.score.score) ∧
        saturatingMul (2 ^ 64 - 1) y.score.score 2 < 25) := by
  have hnodes : busyNodes ≠ [] := by simp [busyNodes]
  obtain ⟨hsome, _, _, _, hleft, _⟩ :=
    acquire_sound (fun slice => List.reverse_perm slice) hnodes
  exact ⟨hsome, hleft idleNode (by simp [busyNodes])⟩

end ConjureRuntime.Node.Balanced
