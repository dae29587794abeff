import Mathlib.Data.List.Basic
import Mathlib.Data.List.TakeDrop

/-!
# First matches

A list searched by one field and then by another: the first entry with a given name has
some value, and the first entry with that value has some name. The two searches are
inverse exactly where no entry in front of the named one has its value.
-/

namespace Opensquid.Lib

variable {α κ ν : Type*} [DecidableEq κ] [DecidableEq ν]

/-- The first entry whose field has the value. -/
def firstMatch (field : α → κ) (k : κ) (xs : List α) : Option α := xs.find? (field · = k)

/-- The entries in front of the first match. -/
def ahead (field : α → κ) (k : κ) (xs : List α) : List α := xs.takeWhile (field · ≠ k)

theorem field_of_firstMatch {field : α → κ} {k : κ} {xs : List α} {x : α}
    (found : firstMatch field k xs = some x) : field x = k := by
  have hit : decide (field x = k) = true := List.find?_some (p := fun x => decide (field x = k)) found
  exact of_decide_eq_true hit

theorem field_ne_of_mem_ahead {field : α → κ} {k : κ} {xs : List α} {y : α}
    (front : y ∈ ahead field k xs) : field y ≠ k := by
  have kept := List.all_takeWhile (p := fun x => decide (field x ≠ k)) (l := xs)
  exact of_decide_eq_true (List.all_eq_true.mp kept y front)

/-- The list around the first match. -/
theorem split_of_firstMatch {field : α → κ} {k : κ} {xs : List α} {x : α}
    (found : firstMatch field k xs = some x) : ∃ rest, xs = ahead field k xs ++ x :: rest := by
  induction xs with
  | nil => cases found
  | cons y ys ih =>
      rw [firstMatch, List.find?_cons] at found
      rw [ahead, List.takeWhile_cons]
      by_cases hit : field y = k
      · rw [decide_eq_true hit] at found
        cases found
        rw [if_neg (by simpa using hit)]
        exact ⟨ys, rfl⟩
      · rw [decide_eq_false hit] at found
        obtain ⟨rest, split⟩ := ih found
        rw [if_pos (decide_eq_true hit)]
        exact ⟨rest, congrArg (y :: ·) split⟩

/-- The value of the entry found by name leads back to the name, if and only if no entry
in front of it has the value. -/
theorem firstMatch_returns_iff {name : α → κ} {value : α → ν} {k : κ} {xs : List α} {x : α}
    (found : firstMatch name k xs = some x) :
    (firstMatch value (value x) xs).map name = some k ↔
      ∀ y ∈ ahead name k xs, value y ≠ value x := by
  obtain ⟨rest, split⟩ := split_of_firstMatch found
  constructor
  · intro back y front same
    obtain ⟨z, first, named⟩ := Option.map_eq_some_iff.mp back
    have early : (ahead name k xs).find? (value · = value x) = some z := by
      rw [firstMatch, split, List.find?_append] at first
      cases hit : (ahead name k xs).find? (value · = value x) with
      | none =>
          have missed := List.find?_eq_none.mp hit y front
          exact absurd (decide_eq_true same) missed
      | some w =>
          rw [hit, Option.some_or] at first
          exact first
    exact field_ne_of_mem_ahead (List.mem_of_find?_eq_some early) named
  · intro free
    have early : (ahead name k xs).find? (value · = value x) = none :=
      List.find?_eq_none.mpr fun y front same => free y front (of_decide_eq_true same)
    have first : firstMatch value (value x) xs = some x := by
      rw [firstMatch, split, List.find?_append, early, Option.none_or, List.find?_cons,
        decide_eq_true rfl]
    rw [first, Option.map_some, field_of_firstMatch found]

end Opensquid.Lib
