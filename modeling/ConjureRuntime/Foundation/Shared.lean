import Mathlib.Algebra.Order.Group.Multiset
import ConjureRuntime.Foundation.ListSum

/-!
# Values that are shared by counting references

A heap of values, each with the number of references to it; the address of a
value is its position.  The owners of a heap are a multiset of addresses, and
the counts are right when they are the multiplicities in it.  Each operation
on the heap moves one reference, or a list of them, into or out of it.
-/

namespace ConjureRuntime.Foundation

structure Shared (α : Type*) where
  strong : Nat
  value : α

abbrev Heap (α : Type*) := List (Shared α)

variable {α : Type*}

namespace Heap

def strong (heap : Heap α) (address : Nat) : Nat :=
  heap[address]?.elim 0 Shared.strong

def value? (heap : Heap α) (address : Nat) : Option α :=
  heap[address]?.map Shared.value

def alloc (heap : Heap α) (value : α) : Heap α := heap ++ [⟨1, value⟩]

def share (heap : Heap α) (address : Nat) : Heap α :=
  heap.modify address fun shared =>
    { shared with strong := shared.strong + 1 }

def release (heap : Heap α) (address : Nat) : Heap α :=
  heap.modify address fun shared =>
    { shared with strong := shared.strong - 1 }

def put (heap : Heap α) (address : Nat) (value : α) : Heap α :=
  heap.modify address fun shared => { shared with value := value }

def shareAll (heap : Heap α) (addresses : List Nat) : Heap α :=
  addresses.foldl share heap

def releaseAll (heap : Heap α) (addresses : List Nat) : Heap α :=
  addresses.foldl release heap

def refs (out : α → List Nat) (heap : Heap α) : Multiset Nat :=
  (heap.map fun shared => (out shared.value : Multiset Nat)).sum

def Owned (heap : Heap α) (owners : Multiset Nat) : Prop :=
  ∀ address, heap.strong address = owners.count address

variable {heap : Heap α} {owners : Multiset Nat} {address other : Nat}
  {addresses : List Nat} {value : α}

/-! ## Values -/

theorem value?_modify {f : Shared α → Shared α}
    (hf : ∀ shared, (f shared).value = shared.value) :
    value? (heap.modify address f) other = heap.value? other := by
  simp only [value?, List.getElem?_modify]
  cases heap[other]? with
  | none => rfl
  | some shared =>
      by_cases h : address = other
      · simp [h, hf]
      · simp [h]

@[simp] theorem value?_share :
    (heap.share address).value? other = heap.value? other :=
  value?_modify fun _ => rfl

@[simp] theorem value?_release :
    (heap.release address).value? other = heap.value? other :=
  value?_modify fun _ => rfl

@[simp] theorem value?_shareAll :
    (heap.shareAll addresses).value? other = heap.value? other := by
  induction addresses generalizing heap with
  | nil => rfl
  | cons address addresses ih => exact ih.trans value?_share

@[simp] theorem value?_releaseAll :
    (heap.releaseAll addresses).value? other = heap.value? other := by
  induction addresses generalizing heap with
  | nil => rfl
  | cons address addresses ih => exact ih.trans value?_release

@[simp] theorem value?_put_self (h : address < heap.length) :
    (heap.put address value).value? address = some value := by
  simp [value?, put, h]

@[simp] theorem value?_put_ne (h : other ≠ address) :
    (heap.put address value).value? other = heap.value? other := by
  simp [value?, put, Ne.symm h]

@[simp] theorem value?_alloc_self :
    (heap.alloc value).value? heap.length = some value := by
  simp [value?, alloc]

@[simp] theorem value?_alloc (h : other < heap.length) :
    (heap.alloc value).value? other = heap.value? other := by
  simp [value?, alloc, List.getElem?_append_left h]

theorem lt_length_of_value? (h : heap.value? address = some value) :
    address < heap.length := by
  rw [value?, Option.map_eq_some_iff] at h
  obtain ⟨shared, hshared, -⟩ := h
  exact (List.getElem?_eq_some_iff.mp hshared).1

theorem value?_put_cases (hlt : address < heap.length) {found : α}
    (h : (heap.put address value).value? other = some found) :
    (other = address ∧ found = value) ∨
      (other ≠ address ∧ heap.value? other = some found) := by
  by_cases heq : other = address
  · subst heq
    rw [value?_put_self hlt] at h
    exact .inl ⟨rfl, (Option.some.inj h).symm⟩
  · rw [value?_put_ne heq] at h
    exact .inr ⟨heq, h⟩

theorem value?_alloc_cases {found : α}
    (h : (heap.alloc value).value? other = some found) :
    (other < heap.length ∧ heap.value? other = some found) ∨
      (other = heap.length ∧ found = value) := by
  have hlt := lt_length_of_value? h
  simp only [alloc, List.length_append, List.length_singleton] at hlt
  by_cases hlast : other = heap.length
  · subst hlast
    rw [value?_alloc_self] at h
    exact .inr ⟨rfl, (Option.some.inj h).symm⟩
  · have hold : other < heap.length := by omega
    rw [value?_alloc hold] at h
    exact .inl ⟨hold, h⟩

/-! ## Counts -/

theorem strong_eq_zero (h : heap.length ≤ address) :
    heap.strong address = 0 := by
  simp [strong, List.getElem?_eq_none h]

theorem lt_length_of_strong (h : 0 < heap.strong address) :
    address < heap.length := by
  by_contra hge
  rw [strong_eq_zero (Nat.le_of_not_lt hge)] at h
  exact Nat.lt_irrefl 0 h

theorem exists_value? (h : address < heap.length) :
    ∃ value, heap.value? address = some value :=
  ⟨heap[address].value, by simp [value?, h]⟩

theorem strong_share (h : address < heap.length) :
    (heap.share address).strong other =
      heap.strong other + if other = address then 1 else 0 := by
  simp only [strong, share, List.getElem?_modify]
  by_cases heq : other = address
  · subst heq
    simp [h]
  · cases heap[other]? <;> simp [heq, Ne.symm heq]

@[simp] theorem strong_release :
    (heap.release address).strong other =
      heap.strong other - if other = address then 1 else 0 := by
  simp only [strong, release, List.getElem?_modify]
  by_cases heq : other = address
  · subst heq
    cases heap[other]? <;> simp
  · cases heap[other]? <;> simp [heq, Ne.symm heq]

@[simp] theorem strong_put :
    (heap.put address value).strong other = heap.strong other := by
  simp only [strong, put, List.getElem?_modify]
  by_cases heq : address = other
  · cases heap[other]? <;> simp [heq]
  · cases heap[other]? <;> simp [heq]

@[simp] theorem strong_alloc :
    (heap.alloc value).strong other =
      heap.strong other + if other = heap.length then 1 else 0 := by
  by_cases hlt : other < heap.length
  · simp [strong, alloc, List.getElem?_append_left hlt, Nat.ne_of_lt hlt]
  · rw [strong_eq_zero (Nat.le_of_not_lt hlt), Nat.zero_add]
    by_cases heq : other = heap.length
    · simp [strong, alloc, heq]
    · rw [if_neg heq]
      exact strong_eq_zero (by simp [alloc]; omega)

@[simp] theorem release_share :
    (heap.share address).release address = heap := by
  rw [share, release, List.modify_modify_eq]
  exact List.modify_id address heap

/-! ## Owners -/

namespace Owned

theorem lt_length (h : heap.Owned owners) (hmem : address ∈ owners) :
    address < heap.length := by
  refine lt_length_of_strong ?_
  rw [h address]
  exact Multiset.count_pos.mpr hmem

theorem strong_pos (h : heap.Owned owners) :
    0 < heap.strong address ↔ address ∈ owners := by
  rw [h address, Multiset.count_pos]

theorem put (h : heap.Owned owners) :
    (heap.put address value).Owned owners := by
  intro other
  rw [strong_put, h other]

theorem alloc (h : heap.Owned owners) :
    (heap.alloc value).Owned (heap.length ::ₘ owners) := by
  intro other
  rw [strong_alloc, h other, Multiset.count_cons]

theorem share (h : heap.Owned owners) (hmem : address ∈ owners) :
    (heap.share address).Owned (address ::ₘ owners) := by
  intro other
  rw [strong_share (h.lt_length hmem), h other, Multiset.count_cons]

theorem shareAll (h : heap.Owned owners)
    (hmem : ∀ address ∈ addresses, address ∈ owners) :
    (heap.shareAll addresses).Owned (owners + addresses) := by
  induction addresses generalizing heap owners with
  | nil =>
      rw [Multiset.coe_nil, add_zero]
      exact h
  | cons address addresses ih =>
      rw [← Multiset.cons_coe, Multiset.add_cons, ← Multiset.cons_add]
      refine ih (h.share (hmem address (by simp))) fun other hother => ?_
      exact Multiset.mem_cons_of_mem (hmem other (by simp [hother]))

theorem release (h : heap.Owned (address ::ₘ owners)) :
    (heap.release address).Owned owners := by
  intro other
  rw [strong_release, h other, Multiset.count_cons, Nat.add_sub_cancel]

theorem releaseAll (h : heap.Owned (owners + addresses)) :
    (heap.releaseAll addresses).Owned owners := by
  induction addresses generalizing heap with
  | nil =>
      rw [Multiset.coe_nil, add_zero] at h
      exact h
  | cons address addresses ih =>
      rw [← Multiset.cons_coe, Multiset.add_cons] at h
      exact ih h.release

end Owned

/-! ## References of the values -/

variable {out : α → List Nat} {old : α}

theorem sum_modify {M : Type*} [AddCommMonoid M] {shared : Shared α}
    (h : heap[address]? = some shared) (f : Shared α → Shared α)
    (g : Shared α → M) :
    ((heap.modify address f).map g).sum + g shared =
      (heap.map g).sum + g (f shared) := by
  rw [List.modify_eq_set_getElem?, h]
  exact sum_map_set h (f shared) g

theorem refs_modify {f : Shared α → Shared α}
    (hf : ∀ shared, (f shared).value = shared.value) :
    refs out (heap.modify address f) = refs out heap := by
  cases h : heap[address]? with
  | none =>
      rw [List.modify_eq_set_getElem?, h]
      rfl
  | some shared =>
      have hsum := sum_modify h f
        fun shared => (out shared.value : Multiset Nat)
      simp only [hf] at hsum
      exact add_right_cancel hsum

@[simp] theorem refs_share : refs out (heap.share address) = refs out heap :=
  refs_modify fun _ => rfl

@[simp] theorem refs_release :
    refs out (heap.release address) = refs out heap :=
  refs_modify fun _ => rfl

@[simp] theorem refs_alloc :
    refs out (heap.alloc value) = refs out heap + out value := by
  simp [refs, alloc]

theorem refs_put (h : heap.value? address = some old) :
    refs out (heap.put address value) + out old =
      refs out heap + out value := by
  rw [value?, Option.map_eq_some_iff] at h
  obtain ⟨shared, hshared, rfl⟩ := h
  exact sum_modify hshared _ fun shared => (out shared.value : Multiset Nat)

theorem mem_refs (h : heap.value? address = some old)
    (hmem : other ∈ out old) : other ∈ refs out heap := by
  rw [value?, Option.map_eq_some_iff] at h
  obtain ⟨shared, hshared, rfl⟩ := h
  obtain ⟨before, after, rfl⟩ :=
    List.append_of_mem (List.mem_of_getElem? hshared)
  have hsum : refs out (before ++ shared :: after) =
      refs out before + ((out shared.value : Multiset Nat) +
        refs out after) := by
    simp [refs]
  rw [hsum, Multiset.mem_add, Multiset.mem_add]
  exact .inr (.inl hmem)

theorem refs_eq_of_others (h : heap.value? address = some old)
    (hothers : ∀ other value, other ≠ address →
      heap.value? other = some value → out value = []) :
    refs out heap = out old := by
  induction heap generalizing address with
  | nil => simp [value?] at h
  | cons head heap ih =>
      have hsum : refs out (head :: heap) =
          (out head.value : Multiset Nat) + refs out heap := List.sum_cons
      rw [hsum]
      cases address with
      | zero =>
          have hnone : refs out heap = 0 := by
            refine List.sum_eq_zero fun x hx => ?_
            obtain ⟨shared, hshared, rfl⟩ := List.mem_map.mp hx
            obtain ⟨i, hi⟩ := List.getElem?_of_mem hshared
            rw [hothers (i + 1) shared.value (by omega) (by simp [value?, hi]),
              Multiset.coe_nil]
          cases Option.some.inj h
          rw [hnone, add_zero]
      | succ address =>
          have hhead := hothers 0 head.value (by omega) rfl
          have hrest : value? heap address = some old := h
          rw [hhead, Multiset.coe_nil, zero_add]
          refine ih hrest fun other value hne hvalue => ?_
          exact hothers (other + 1) value (by omega) hvalue

end Heap

/-! ## Holders -/

def held (holders : List (Option Nat)) : Multiset Nat :=
  (holders.map fun holder => (holder.toList : Multiset Nat)).sum

variable {holders : List (Option Nat)} {i address : Nat}

@[simp] theorem mem_held : address ∈ held holders ↔ some address ∈ holders := by
  induction holders with
  | nil => simp [held]
  | cons holder holders ih =>
      have hsum : held (holder :: holders) =
          (holder.toList : Multiset Nat) + held holders := List.sum_cons
      rw [hsum, Multiset.mem_add, ih, List.mem_cons]
      simp [eq_comm]

@[simp] theorem held_append :
    held (holders ++ [some address]) = address ::ₘ held holders := by
  simp [held, add_comm]

theorem held_set (h : holders[i]? = some (some address)) :
    address ::ₘ held (holders.set i none) = held holders := by
  have hsum := sum_map_set h none
    fun holder => (holder.toList : Multiset Nat)
  simpa [held, add_comm] using hsum

end ConjureRuntime.Foundation
