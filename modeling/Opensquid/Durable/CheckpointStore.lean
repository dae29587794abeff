import Opensquid.Durable.Values
import Mathlib.Data.List.Sort
import Mathlib.Data.List.Pairwise

/-!
# The checkpoint table

One row for each step of a run, replaced when the step is written again. A row
holds the canonical form of the outputs and is read back through `revive`.
-/

namespace Opensquid.Durable

inductive Status
  | completed
  | errored
  deriving DecidableEq, Repr

/-- What `append` is given, what the table holds (with the canonical form of the
outputs) and what `fetchRun` returns (with the revived outputs). -/
structure CheckpointRow where
  runId : String
  stepIdx : Nat
  fn : String
  inputsHash : String
  outputs : Value
  asBinding : Option String
  status : Status
  errorMessage : Option String

def CheckpointRow.SameKey (row other : CheckpointRow) : Prop :=
  row.runId = other.runId ∧ row.stepIdx = other.stepIdx

instance (row other : CheckpointRow) : Decidable (row.SameKey other) :=
  inferInstanceAs (Decidable (_ ∧ _))

instance : Std.Symm fun row other : CheckpointRow => ¬ row.SameKey other where
  symm _ _ apart same := apart ⟨same.1.symm, same.2.symm⟩

/-- The table `checkpoints` with its primary key `(run_id, step_idx)`. -/
structure CheckpointStore where
  rows : List CheckpointRow
  keyed : rows.Pairwise fun row other => ¬ row.SameKey other

namespace CheckpointStore

def empty : CheckpointStore := ⟨[], .nil⟩

/-- `INSERT OR REPLACE`. -/
def append (store : CheckpointStore) (write : CheckpointRow) : CheckpointStore where
  rows := store.rows.filter (fun row => ¬ row.SameKey write) ++
    [{ write with outputs := write.outputs.canonicalize }]
  keyed := by
    refine List.pairwise_append.mpr ⟨store.keyed.filter _, List.pairwise_singleton _ _, ?_⟩
    intro row kept new written
    rw [List.mem_singleton.mp written]
    exact of_decide_eq_true (List.mem_filter.mp kept).2

def rowToCheckpoint (row : CheckpointRow) : CheckpointRow :=
  { row with outputs := row.outputs.revive }

/-- `SELECT ... WHERE run_id = ? ORDER BY step_idx ASC`. -/
def fetchRun (store : CheckpointStore) (runId : String) : List CheckpointRow :=
  ((store.rows.filter (·.runId = runId)).insertionSort (·.stepIdx ≤ ·.stepIdx)).map
    rowToCheckpoint

/-- The rows of a run by step; of two rows of one step the later one. -/
def loadCheckpointMap (store : CheckpointStore) (runId : String) (i : Nat) :
    Option CheckpointRow :=
  ((fetchRun store runId).filter (·.stepIdx = i)).getLast?

theorem mem_fetchRun {store : CheckpointStore} {runId : String} {row : CheckpointRow} :
    row ∈ fetchRun store runId ↔
      ∃ held ∈ store.rows, held.runId = runId ∧ rowToCheckpoint held = row := by
  simp only [fetchRun, List.mem_map, List.mem_insertionSort, List.mem_filter, decide_eq_true_eq,
    and_assoc]

/-- A run has one row of a step, and the map holds it. -/
theorem loadCheckpointMap_eq_some_iff {store : CheckpointStore} {runId : String} {i : Nat}
    {row : CheckpointRow} :
    loadCheckpointMap store runId i = some row ↔ row ∈ fetchRun store runId ∧ row.stepIdx = i := by
  constructor
  · intro loaded
    have member := List.mem_of_getLast? loaded
    rwa [List.mem_filter, decide_eq_true_eq] at member
  · rintro ⟨member, rfl⟩
    have inside : row ∈ (fetchRun store runId).filter (·.stepIdx = row.stepIdx) :=
      List.mem_filter.mpr ⟨member, decide_eq_true rfl⟩
    have last := List.getLast?_eq_some_getLast (List.ne_nil_of_mem inside)
    rw [loadCheckpointMap, last]
    obtain ⟨found, step⟩ := List.mem_filter.mp (List.getLast_mem (List.ne_nil_of_mem inside))
    generalize List.getLast _ _ = other at found step
    obtain ⟨held, inTable, run, rfl⟩ := mem_fetchRun.mp member
    obtain ⟨held', inTable', run', rfl⟩ := mem_fetchRun.mp found
    by_contra differs
    have apart : held' ≠ held := fun same => differs (same ▸ rfl)
    exact store.keyed.forall inTable' inTable apart ⟨run'.trans run.symm, of_decide_eq_true step⟩

/-- The row that is read back for a written one. -/
def restored (write : CheckpointRow) : CheckpointRow :=
  { write with outputs := write.outputs.restore }

theorem mem_fetchRun_append {store : CheckpointStore} {runId : String} {write row : CheckpointRow}
    (read : row ∈ fetchRun (store.append write) runId) :
    row ∈ fetchRun store runId ∨ row = restored write := by
  obtain ⟨held, member, run, rfl⟩ := mem_fetchRun.mp read
  rcases List.mem_append.mp member with kept | new
  · exact .inl (mem_fetchRun.mpr ⟨held, (List.mem_filter.mp kept).1, run, rfl⟩)
  · exact .inr (List.mem_singleton.mp new ▸ rfl)

theorem restored_mem_fetchRun_append (store : CheckpointStore) (write : CheckpointRow) :
    restored write ∈ fetchRun (store.append write) write.runId :=
  mem_fetchRun.mpr ⟨_, List.mem_append_right _ List.mem_cons_self, rfl, rfl⟩

/-- A write replaces the row of its step and leaves the other steps. -/
theorem loadCheckpointMap_append (store : CheckpointStore) (write : CheckpointRow) (i : Nat) :
    loadCheckpointMap (store.append write) write.runId i =
      if write.stepIdx = i then some (restored write)
      else loadCheckpointMap store write.runId i := by
  split
  · rename_i here
    exact loadCheckpointMap_eq_some_iff.mpr ⟨restored_mem_fetchRun_append store write, here⟩
  · rename_i other
    refine Option.ext fun row => ?_
    rw [loadCheckpointMap_eq_some_iff, loadCheckpointMap_eq_some_iff]
    refine and_congr_left fun step => ⟨fun read => ?_, fun read => ?_⟩
    · rcases mem_fetchRun_append read with before | rfl
      · exact before
      · exact absurd step other
    · obtain ⟨held, member, run, rfl⟩ := mem_fetchRun.mp read
      have kept : held ∈ (store.append write).rows := List.mem_append_left _
        (List.mem_filter.mpr ⟨member, decide_eq_true fun same => other (same.2 ▸ step)⟩)
      exact mem_fetchRun.mpr ⟨held, kept, run, rfl⟩

theorem loadCheckpointMap_foldl_of_ne {store : CheckpointStore} {runId : String} {i : Nat}
    {writes : List CheckpointRow} (mine : ∀ write ∈ writes, write.runId = runId)
    (other : ∀ write ∈ writes, write.stepIdx ≠ i) :
    loadCheckpointMap (writes.foldl append store) runId i = loadCheckpointMap store runId i := by
  induction writes generalizing store with
  | nil => rfl
  | cons write rest ih =>
      obtain ⟨rfl, laterMine⟩ := List.forall_mem_cons.mp mine
      obtain ⟨apart, laterApart⟩ := List.forall_mem_cons.mp other
      rw [List.foldl_cons, ih laterMine laterApart, loadCheckpointMap_append, if_neg apart]

/-- Of writes to increasing steps each is read back. -/
theorem loadCheckpointMap_foldl_of_mem {store : CheckpointStore} {runId : String}
    {writes : List CheckpointRow} (mine : ∀ write ∈ writes, write.runId = runId)
    (increasing : writes.Pairwise fun write later => write.stepIdx < later.stepIdx)
    {write : CheckpointRow} (member : write ∈ writes) :
    loadCheckpointMap (writes.foldl append store) runId write.stepIdx = some (restored write) := by
  induction writes generalizing store with
  | nil => cases member
  | cons first rest ih =>
      obtain ⟨rfl, laterMine⟩ := List.forall_mem_cons.mp mine
      obtain ⟨before, increasing⟩ := List.pairwise_cons.mp increasing
      rcases List.mem_cons.mp member with rfl | later
      · rw [List.foldl_cons, loadCheckpointMap_foldl_of_ne laterMine
          fun other mem => (before other mem).ne', loadCheckpointMap_append, if_pos rfl]
      · exact ih laterMine increasing later

end CheckpointStore

end Opensquid.Durable
