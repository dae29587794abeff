import Mathlib.Data.List.Nodup
import Mathlib.Data.List.Pairwise
import Mathlib.Data.Int.Order.Basic

/-!
# Tails that poll a table

A tail asks a table again and again for the rows later than its cursor, yields them in the order of
their timestamps, and moves the cursor to the latest timestamp it has seen. The cursor tells rows
apart by their timestamps only.

`Sound` is what the polls keep as long as every row that comes into view is later than the rows
already yielded (`Sound.change`, `Sound.poll`); a poll of a sound tail has yielded every row in view
once (`Sound.exact_poll`). A row that comes into view at or before the cursor is overtaken: no poll
ever yields it (`Overtaken.poll`).
-/

namespace Opensquid.Lib

/-- The rows in view, where the tail stands, and what it has yielded. -/
structure Tail (ρ : Type*) where
  visible : List ρ
  cursor : ℤ
  yielded : List ρ

namespace Tail

variable {ρ : Type*} (stamp tie : ρ → ℤ)

/-- `ORDER BY stamp ASC, tie ASC`. -/
def before (a b : ρ) : Bool := stamp a < stamp b || (stamp a = stamp b && tie a ≤ tie b)

def select (visible : List ρ) (cursor : ℤ) : List ρ :=
  (visible.filter (cursor < stamp ·)).mergeSort (before stamp tie)

/-- The cursor after the rows of a batch. -/
def advance (cursor : ℤ) (batch : List ρ) : ℤ :=
  batch.foldl (fun cursor row => if stamp row > cursor then stamp row else cursor) cursor

def poll (s : Tail ρ) : Tail ρ :=
  let batch := select stamp tie s.visible s.cursor
  { s with cursor := advance stamp s.cursor batch, yielded := s.yielded ++ batch }

def change (s : Tail ρ) (visible : List ρ) : Tail ρ := { s with visible }

/-! ## One batch -/

variable {stamp tie} {s : Tail ρ} {visible batch : List ρ} {cursor since : ℤ} {row : ρ}

theorem mem_select : row ∈ select stamp tie visible cursor ↔ row ∈ visible ∧ cursor < stamp row := by
  unfold select
  rw [(List.mergeSort_perm _ _).mem_iff, List.mem_filter, decide_eq_true_eq]

theorem nodup_select (distinct : visible.Nodup) : (select stamp tie visible cursor).Nodup := by
  unfold select
  rw [(List.mergeSort_perm _ _).nodup_iff]
  exact distinct.filter _

theorem sorted_select : (select stamp tie visible cursor).Pairwise (stamp · ≤ stamp ·) := by
  have ordered : (select stamp tie visible cursor).Pairwise (before stamp tie · · = true) := by
    apply List.pairwise_mergeSort
    · intro a b c first second
      simp only [before, Bool.or_eq_true, Bool.and_eq_true, decide_eq_true_eq] at first second ⊢
      omega
    · intro a b
      simp only [before, Bool.or_eq_true, Bool.and_eq_true, decide_eq_true_eq]
      omega
  apply ordered.imp
  intro a b early
  simp only [before, Bool.or_eq_true, Bool.and_eq_true, decide_eq_true_eq] at early
  omega

theorem advance_cons : advance stamp cursor (row :: batch) = advance stamp (max cursor (stamp row)) batch := by
  unfold advance
  rw [List.foldl_cons]
  congr 1
  split <;> omega

theorem le_advance : cursor ≤ advance stamp cursor batch := by
  induction batch generalizing cursor with
  | nil => exact le_refl cursor
  | cons row batch ih =>
      rw [advance_cons]
      exact le_trans (le_max_left _ _) ih

theorem stamp_le_advance (mem : row ∈ batch) : stamp row ≤ advance stamp cursor batch := by
  induction batch generalizing cursor with
  | nil => cases mem
  | cons first batch ih =>
      rw [advance_cons]
      rcases List.mem_cons.mp mem with rfl | mem
      · exact le_trans (le_max_right _ _) le_advance
      · exact ih mem

/-- The cursor moves to the timestamp of a row. -/
theorem advance_eq : advance stamp cursor batch = cursor ∨
    ∃ row ∈ batch, stamp row = advance stamp cursor batch := by
  induction batch generalizing cursor with
  | nil => exact Or.inl rfl
  | cons first batch ih =>
      rw [advance_cons]
      rcases @ih (max cursor (stamp first)) with same | ⟨row, mem, same⟩
      · rw [same]
        rcases le_total cursor (stamp first) with later | earlier
        · exact Or.inr ⟨first, List.mem_cons_self, (max_eq_right later).symm⟩
        · exact Or.inl (max_eq_left earlier)
      · exact Or.inr ⟨row, List.mem_cons_of_mem _ mem, same⟩

/-! ## Sound tails -/

variable (stamp since) in
/-- Nothing in view has been passed over. -/
structure Sound (s : Tail ρ) : Prop where
  attained : s.cursor = since ∨ ∃ row ∈ s.yielded, stamp row = s.cursor
  behind : ∀ row ∈ s.yielded, stamp row ≤ s.cursor
  covered : ∀ row ∈ s.visible, since < stamp row → stamp row ≤ s.cursor → row ∈ s.yielded
  sorted : s.yielded.Pairwise (stamp · ≤ stamp ·)
  distinct : s.yielded.Nodup
  rows : s.visible.Nodup

variable (stamp since) in
/-- Every row in view that is later than the start has been yielded once, in the order of time. -/
structure Exact [DecidableEq ρ] (s : Tail ρ) : Prop where
  once : ∀ row ∈ s.visible, since < stamp row → s.yielded.count row = 1
  sorted : s.yielded.Pairwise (stamp · ≤ stamp ·)

variable (stamp) in
/-- What comes into view is later than what has been yielded. -/
def Timely (s : Tail ρ) (visible : List ρ) : Prop :=
  ∀ row ∈ visible, row ∉ s.visible → ∀ old ∈ s.yielded, stamp old < stamp row

theorem Sound.start (distinct : visible.Nodup) : Sound stamp since ⟨visible, since, []⟩ where
  attained := Or.inl rfl
  behind := by simp
  covered _ _ later early := absurd later (not_lt_of_ge early)
  sorted := List.Pairwise.nil
  distinct := List.nodup_nil
  rows := distinct

theorem Sound.change (sound : Sound stamp since s) (distinct : visible.Nodup)
    (timely : Timely stamp s visible) : Sound stamp since (s.change visible) where
  attained := sound.attained
  behind := sound.behind
  covered row mem later early := by
    by_cases old : row ∈ s.visible
    · exact sound.covered row old later early
    · rcases sound.attained with same | ⟨last, member, same⟩
      · exact absurd later (not_lt_of_ge (same ▸ early))
      · have next := timely row mem old last member
        exact absurd next (not_lt_of_ge (same ▸ early))
  sorted := sound.sorted
  distinct := sound.distinct
  rows := distinct

theorem Sound.poll (sound : Sound stamp since s) : Sound stamp since (s.poll stamp tie) where
  attained := by
    rcases @advance_eq ρ stamp (select stamp tie s.visible s.cursor) s.cursor with
      same | ⟨row, mem, same⟩
    · rcases sound.attained with first | ⟨row, mem, last⟩
      · exact Or.inl (same.trans first)
      · exact Or.inr ⟨row, List.mem_append_left _ mem, last.trans same.symm⟩
    · exact Or.inr ⟨row, List.mem_append_right _ mem, same⟩
  behind row mem := by
    rcases List.mem_append.mp mem with old | new
    · exact le_trans (sound.behind row old) le_advance
    · exact stamp_le_advance new
  covered row mem later _ := by
    by_cases early : stamp row ≤ s.cursor
    · exact List.mem_append_left _ (sound.covered row mem later early)
    · exact List.mem_append_right _ (mem_select.mpr ⟨mem, lt_of_not_ge early⟩)
  sorted := by
    refine List.pairwise_append.mpr ⟨sound.sorted, sorted_select, ?_⟩
    intro old memOld new memNew
    exact le_trans (sound.behind old memOld) (le_of_lt (mem_select.mp memNew).2)
  distinct := by
    refine List.nodup_append.mpr ⟨sound.distinct, nodup_select sound.rows, ?_⟩
    intro old memOld new memNew same
    have early := sound.behind old memOld
    rw [same] at early
    exact absurd (mem_select.mp memNew).2 (not_lt_of_ge early)
  rows := sound.rows

/-- A poll leaves nothing in view that it has not yielded. -/
theorem Sound.exact_poll [DecidableEq ρ] (sound : Sound stamp since s) :
    Exact stamp since (s.poll stamp tie) where
  once row mem later := by
    apply List.count_eq_one_of_mem (@Sound.poll ρ stamp tie s since sound).distinct
    by_cases early : stamp row ≤ s.cursor
    · exact List.mem_append_left _ (sound.covered row mem later early)
    · exact List.mem_append_right _ (mem_select.mpr ⟨mem, lt_of_not_ge early⟩)
  sorted := (@Sound.poll ρ stamp tie s since sound).sorted

/-! ## Overtaken rows -/

variable (stamp row) in
/-- The cursor is past the row, and the row has not been yielded. -/
def Overtaken (s : Tail ρ) : Prop := stamp row ≤ s.cursor ∧ row ∉ s.yielded

theorem Overtaken.change (overtaken : Overtaken stamp row s) : Overtaken stamp row (s.change visible) :=
  overtaken

theorem Overtaken.poll (overtaken : Overtaken stamp row s) :
    Overtaken stamp row (s.poll stamp tie) := by
  refine ⟨le_trans overtaken.1 le_advance, ?_⟩
  intro mem
  rcases List.mem_append.mp mem with old | new
  · exact overtaken.2 old
  · exact absurd (mem_select.mp new).2 (not_lt_of_ge overtaken.1)

end Tail

end Opensquid.Lib
