import Mathlib.Data.List.Sort

/-!
# Reordering a fold

A left fold does not depend on the order of its list as long as every two
elements that stand out of order commute as operations. `foldl_insertionSort`
says so for the sorted list, `foldl_eq_of_perm_sorted` for any sorted
permutation: this is what a replay in a canonical order needs from the order in
which the operations really ran.
-/

namespace Opensquid.Lib

variable {σ α : Type*}

/-- Applying the two elements in either order has the same effect. -/
def OpsCommute (f : σ → α → σ) (x y : α) : Prop :=
  ∀ s, f (f s x) y = f (f s y) x

theorem OpsCommute.symm {f : σ → α → σ} {x y : α} (h : OpsCommute f x y) :
    OpsCommute f y x := fun s => (h s).symm

/-- The elements of `l` that stand out of order, `x` before `y` although `x` is
not below `y`, commute. -/
def OrderedUpToCommuting (f : σ → α → σ) (r : α → α → Prop) (l : List α) : Prop :=
  l.Pairwise fun x y => ¬ r x y → OpsCommute f x y

section Sorting

variable {f : σ → α → σ} {r : α → α → Prop} [DecidableRel r]

/-- An element that commutes with everything it is inserted behind may be
applied first. -/
theorem foldl_orderedInsert {x : α} {l : List α}
    (commutes : ∀ y ∈ l, ¬ r x y → OpsCommute f x y) (s : σ) :
    (l.orderedInsert r x).foldl f s = l.foldl f (f s x) := by
  induction l generalizing s with
  | nil => rfl
  | cons y l ih =>
      rw [List.orderedInsert_cons]
      split
      · rfl
      · rename_i above
        have swap := commutes y List.mem_cons_self above s
        simp only [List.foldl_cons]
        rw [ih (fun z member => commutes z (List.mem_cons_of_mem y member)), swap]

/-- Folding in the order of the list or in sorted order gives the same result. -/
theorem foldl_insertionSort {l : List α} (ordered : OrderedUpToCommuting f r l) (s : σ) :
    (l.insertionSort r).foldl f s = l.foldl f s := by
  induction l generalizing s with
  | nil => rfl
  | cons x l ih =>
      obtain ⟨head, tail⟩ := List.pairwise_cons.mp ordered
      rw [List.insertionSort_cons, foldl_orderedInsert, List.foldl_cons, ih tail]
      intro y member
      exact head y ((List.mem_insertionSort r).mp member)

/-- Two permutations of one list have the same sorted form when the order is
total and antisymmetric on them. -/
theorem insertionSort_eq_of_perm [Std.Total r] [IsTrans α r] {l l' : List α}
    (perm : l.Perm l') (antisymm : ∀ x ∈ l, ∀ y ∈ l, r x y → r y x → x = y) :
    l.insertionSort r = l'.insertionSort r := by
  refine List.Perm.eq_of_pairwise ?_ (List.pairwise_insertionSort r l)
    (List.pairwise_insertionSort r l')
    ((List.perm_insertionSort r l).trans (perm.trans (List.perm_insertionSort r l').symm))
  intro x y memX memY
  exact antisymm x ((List.mem_insertionSort r).mp memX)
    y (perm.mem_iff.mpr ((List.mem_insertionSort r).mp memY))

/-- A replay of the same operations in sorted order reaches the state the
original order reached. -/
theorem foldl_insertionSort_of_perm [Std.Total r] [IsTrans α r] {l l' : List α}
    (perm : l.Perm l') (antisymm : ∀ x ∈ l, ∀ y ∈ l, r x y → r y x → x = y)
    (ordered : OrderedUpToCommuting f r l) (s : σ) :
    (l'.insertionSort r).foldl f s = l.foldl f s := by
  rw [← insertionSort_eq_of_perm perm antisymm, foldl_insertionSort ordered]

end Sorting

end Opensquid.Lib
