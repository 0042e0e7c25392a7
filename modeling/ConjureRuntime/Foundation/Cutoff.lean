import Mathlib.Data.Finset.Lattice.Fold
import Mathlib.Data.Finset.Max
import Mathlib.Data.List.Sort

/-!
# Cutting off a sorted list

A list is walked in the order of its keys.  Every busy element that is kept
sets the limit for what follows to a value raised from its own key; what is
above the limit is left out.

What is kept does not depend on the order among equal keys: it is what can be
reached from the smallest busy keys by a chain of busy elements, each within
the limit of the one before.
-/

namespace ConjureRuntime.Foundation.Cutoff

variable {ν α : Type*} [LinearOrder α] (key : ν → α) (busy : ν → Bool)
  (raise : α → α)

def cut : α → List ν → List ν
  | _, [] => []
  | limit, x :: xs =>
      if limit < key x then cut limit xs
      else x :: cut (if busy x then raise (key x) else limit) xs

/-- What is reached: everything up to the first busy keys, and everything
that is within the limit of a busy element that is reached. -/
inductive Reached (nodes : List ν) : ν → Prop where
  | first {x} : x ∈ nodes →
      (∀ y ∈ nodes, busy y = true → key x ≤ key y) → Reached nodes x
  | near {x y} : x ∈ nodes → Reached nodes y → busy y = true →
      key y ≤ key x → key x ≤ raise (key y) → Reached nodes x

variable {key busy raise} {nodes nodes' : List ν} {x y : ν} {top : α}

theorem Reached.mem (h : Reached key busy raise nodes x) : x ∈ nodes := by
  cases h with
  | first hx _ => exact hx
  | near hx _ _ _ _ => exact hx

theorem Reached.of_mem_iff (hmem : ∀ x, x ∈ nodes ↔ x ∈ nodes')
    (h : Reached key busy raise nodes x) :
    Reached key busy raise nodes' x := by
  induction h with
  | first hx hfirst =>
      exact .first ((hmem _).mp hx) fun y hy => hfirst y ((hmem y).mpr hy)
  | near hx _ hbusy hle hnear ih =>
      exact .near ((hmem _).mp hx) ih hbusy hle hnear

theorem Reached.of_le (h : Reached key busy raise nodes y) (hx : x ∈ nodes)
    (hle : key x ≤ key y) : Reached key busy raise nodes x := by
  induction h with
  | first _ hfirst =>
      exact .first hx fun z hz hbusy => hle.trans (hfirst z hz hbusy)
  | @near y y' _ hreached hbusy _ hnear ih =>
      rcases le_total (key y') (key x) with hbelow | habove
      · exact .near hx hreached hbusy hbelow (hle.trans hnear)
      · exact ih habove

theorem not_reached_iff (hraise : ∀ x ∈ nodes, key x ≤ raise (key x))
    (hmono : Monotone raise)
    (hx : x ∈ nodes) :
    ¬ Reached key busy raise nodes x ↔
      ∃ y, Reached key busy raise nodes y ∧ busy y = true ∧
        (∀ z, Reached key busy raise nodes z → busy z = true →
          key z ≤ key y) ∧
        raise (key y) < key x := by
  classical
  constructor
  · intro hnot
    let reached := nodes.toFinset.filter fun y =>
      Reached key busy raise nodes y ∧ busy y = true
    let occupied := nodes.toFinset.filter fun y => busy y = true
    have hoccupied : occupied.Nonempty := by
      by_contra hnone
      refine hnot (.first hx fun y hy hbusy => ?_)
      exact absurd ⟨y, by simp [occupied, hy, hbusy]⟩ hnone
    obtain ⟨least, hleast, hmin⟩ := occupied.exists_min_image key hoccupied
    simp only [occupied, Finset.mem_filter, List.mem_toFinset] at hleast hmin
    have hfirst : Reached key busy raise nodes least :=
      .first hleast.1 fun y hy hbusy => hmin y ⟨hy, hbusy⟩
    have hreached : reached.Nonempty :=
      ⟨least, by simp [reached, hleast, hfirst]⟩
    obtain ⟨y, hy, hmax⟩ := reached.exists_max_image key hreached
    simp only [reached, Finset.mem_filter, List.mem_toFinset] at hy hmax
    refine ⟨y, hy.2.1, hy.2.2, fun z hz hbusy =>
      hmax z ⟨hz.mem, hz, hbusy⟩, ?_⟩
    by_contra hle
    have hnear := le_of_not_gt hle
    rcases le_total (key y) (key x) with hbelow | habove
    · exact hnot (.near hx hy.2.1 hy.2.2 hbelow hnear)
    · exact hnot (hy.2.1.of_le hx habove)
  · rintro ⟨y, hy, hbusy, hmax, habove⟩ hreached
    apply not_le_of_gt habove
    cases hreached with
    | first _ hfirst =>
        exact (hfirst y hy.mem hbusy).trans (hraise y hy.mem)
    | near _ hz hbusyz _ hnear => exact hnear.trans (hmono (hmax _ hz hbusyz))

/-! ## The walk -/

def LimitOf (key : ν → α) (busy : ν → Bool) (raise : α → α) (top : α)
    (nodes done : List ν) (limit : α) : Prop :=
  (limit = top ∧ ∀ y ∈ done, busy y = false) ∨
  ∃ y ∈ done, Reached key busy raise nodes y ∧ busy y = true ∧
    limit = raise (key y) ∧
    ∀ z ∈ done, Reached key busy raise nodes z → busy z = true →
      key z ≤ key y

variable {done rest : List ν} {limit : α}

theorem le_limit (hraise : ∀ x ∈ nodes, key x ≤ raise (key x))
    (hmono : Monotone raise)
    (hnodes : nodes = done ++ x :: rest)
    (hsorted : (x :: rest).Pairwise fun a b => key a ≤ key b)
    (htop : key x ≤ top)
    (hlimit : LimitOf key busy raise top nodes done limit)
    (h : Reached key busy raise nodes y) (hy : y ∈ x :: rest) :
    key x ≤ limit := by
  have hhead {y : ν} (hy : y ∈ x :: rest) : key x ≤ key y := by
    rcases List.mem_cons.mp hy with rfl | hy
    · exact le_rfl
    · exact (List.pairwise_cons.mp hsorted).1 _ hy
  induction h with
  | first _ hfirst =>
      rcases hlimit with ⟨rfl, _⟩ | ⟨z, hz, _, hbusy, rfl, _⟩
      · exact htop
      · have hz : z ∈ nodes := hnodes ▸ List.mem_append_left _ hz
        exact (hhead hy).trans ((hfirst z hz hbusy).trans (hraise z hz))
  | near _ hreached hbusy _ hnear ih =>
      rcases List.mem_append.mp (hnodes ▸ hreached.mem) with hdone | hrest
      · rcases hlimit with ⟨_, hfree⟩ | ⟨z, _, _, _, rfl, hmax⟩
        · rw [hfree _ hdone] at hbusy
          cases hbusy
        · exact (hhead hy).trans
            (hnear.trans (hmono (hmax _ hdone hreached hbusy)))
      · exact ih hrest

theorem reached_of_le_limit (hnodes : nodes = done ++ x :: rest)
    (hdone : ∀ y ∈ done, key y ≤ key x)
    (hsorted : (x :: rest).Pairwise fun a b => key a ≤ key b)
    (hlimit : LimitOf key busy raise top nodes done limit)
    (hle : key x ≤ limit) : Reached key busy raise nodes x := by
  have hx : x ∈ nodes := by simp [hnodes]
  rcases hlimit with ⟨_, hfree⟩ | ⟨y, hy, hreached, hbusy, rfl, _⟩
  · refine .first hx fun y hy hbusy => ?_
    rcases List.mem_append.mp (hnodes ▸ hy) with hy | hy
    · rw [hfree y hy] at hbusy
      cases hbusy
    · rcases List.mem_cons.mp hy with rfl | hy
      · exact le_rfl
      · exact (List.pairwise_cons.mp hsorted).1 _ hy
  · exact .near hx hreached hbusy (hdone y hy) hle

theorem LimitOf.append (h : LimitOf key busy raise top nodes done limit)
    (hx : Reached key busy raise nodes x → busy x = false)
    (htop : limit = top → busy x = false) :
    LimitOf key busy raise top nodes (done ++ [x]) limit := by
  rcases h with ⟨hlimit, hfree⟩ | ⟨y, hy, hreached, hbusy, hlimit, hmax⟩
  · refine .inl ⟨hlimit, fun z hz => ?_⟩
    rcases List.mem_append.mp hz with hz | hz
    · exact hfree z hz
    · rw [List.mem_singleton.mp hz]
      exact htop hlimit
  · refine .inr ⟨y, List.mem_append_left _ hy, hreached, hbusy, hlimit,
      fun z hz hz' hbusy' => ?_⟩
    rcases List.mem_append.mp hz with hz | hz
    · exact hmax z hz hz' hbusy'
    · rw [List.mem_singleton.mp hz] at hz' hbusy'
      rw [hx hz'] at hbusy'
      cases hbusy'

theorem LimitOf.append_busy (hbelow : ∀ y ∈ done, key y ≤ key x)
    (hx : Reached key busy raise nodes x) (hbusy : busy x = true) :
    LimitOf key busy raise top nodes (done ++ [x]) (raise (key x)) := by
  refine .inr ⟨x, by simp, hx, hbusy, rfl, fun z hz _ _ => ?_⟩
  rcases List.mem_append.mp hz with hz | hz
  · exact hbelow z hz
  · rw [List.mem_singleton.mp hz]

theorem cut_eq_filter_of_limit
    (hraise : ∀ x ∈ nodes, key x ≤ raise (key x)) (hmono : Monotone raise)
    (hnodes : nodes = done ++ rest)
    (hsorted : nodes.Pairwise fun a b => key a ≤ key b)
    (htop : ∀ x ∈ rest, key x ≤ top)
    (hlimit : LimitOf key busy raise top nodes done limit)
    [DecidablePred (Reached key busy raise nodes)] :
    cut key busy raise limit rest =
      rest.filter fun x => Reached key busy raise nodes x := by
  induction rest generalizing done limit with
  | nil => rfl
  | cons x rest ih =>
      have hparts := List.pairwise_append.mp (hnodes ▸ hsorted)
      have hbelow : ∀ y ∈ done, key y ≤ key x := fun y hy =>
        hparts.2.2 y hy x List.mem_cons_self
      have hxtop := htop x List.mem_cons_self
      have hnext {limit' : α}
          (hlimit' : LimitOf key busy raise top nodes (done ++ [x]) limit') :
          cut key busy raise limit' rest =
            rest.filter fun x => Reached key busy raise nodes x :=
        ih (by simp [hnodes])
          (fun y hy => htop y (List.mem_cons_of_mem _ hy)) hlimit'
      by_cases hx : Reached key busy raise nodes x
      · have hle := le_limit hraise hmono hnodes hparts.2.1 hxtop hlimit hx
          List.mem_cons_self
        simp only [cut, if_neg (not_lt_of_ge hle), List.filter_cons,
          decide_eq_true hx, if_true]
        refine congrArg _ (hnext ?_)
        by_cases hbusy : busy x = true
        · rw [if_pos hbusy]
          exact .append_busy hbelow hx hbusy
        · have hidle := Bool.eq_false_of_not_eq_true hbusy
          rw [if_neg hbusy]
          exact hlimit.append (fun _ => hidle) fun _ => hidle
      · have hlt : limit < key x := by
          by_contra hle
          exact hx (reached_of_le_limit hnodes hbelow hparts.2.1 hlimit
            (le_of_not_gt hle))
        simp only [cut, if_pos hlt, List.filter_cons, decide_eq_false hx,
          Bool.false_eq_true, if_false]
        refine hnext (hlimit.append (fun h => absurd h hx) fun heq => ?_)
        exact absurd (heq ▸ hxtop) (not_le_of_gt hlt)

theorem cut_eq_filter (hraise : ∀ x ∈ nodes, key x ≤ raise (key x))
    (hmono : Monotone raise)
    (hsorted : nodes.Pairwise fun a b => key a ≤ key b)
    (htop : ∀ x ∈ nodes, key x ≤ top)
    [DecidablePred (Reached key busy raise nodes)] :
    cut key busy raise top nodes =
      nodes.filter fun x => Reached key busy raise nodes x :=
  cut_eq_filter_of_limit hraise hmono (List.nil_append _).symm hsorted htop
    (.inl ⟨rfl, fun _ hy => absurd hy List.not_mem_nil⟩)

theorem cut_perm (hraise : ∀ x ∈ nodes, key x ≤ raise (key x))
    (hmono : Monotone raise)
    (hsorted : nodes.Pairwise fun a b => key a ≤ key b)
    (hsorted' : nodes'.Pairwise fun a b => key a ≤ key b)
    (htop : ∀ x ∈ nodes, key x ≤ top) (hperm : nodes'.Perm nodes) :
    (cut key busy raise top nodes').Perm (cut key busy raise top nodes) := by
  classical
  rw [cut_eq_filter hraise hmono hsorted htop,
    cut_eq_filter (fun x hx => hraise x (hperm.mem_iff.mp hx)) hmono hsorted'
      fun x hx => htop x (hperm.mem_iff.mp hx)]
  have hsame : (fun x => decide (Reached key busy raise nodes' x)) =
      fun x => decide (Reached key busy raise nodes x) := by
    funext x
    rw [decide_eq_decide]
    exact ⟨.of_mem_iff fun _ => hperm.mem_iff,
      .of_mem_iff fun _ => hperm.mem_iff.symm⟩
  rw [hsame]
  exact hperm.filter _

end ConjureRuntime.Foundation.Cutoff
