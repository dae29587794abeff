import Mathlib.Data.List.Perm.Basic
import Mathlib.Logic.Function.Basic
import Opensquid.Lib.Program

/-!
# Migrating the kanban tables

A table without the column `project` is renamed, made again, filled with its rows and dropped, one
statement after the other. The next start looks at the columns of the new table only. A start that is
stopped between the renaming and the copy leaves the rows in the renamed table for good;
`migration_keeps_rows_iff` says that nothing else loses them.
-/

namespace Opensquid.Kanban

open Opensquid.Lib

/-! ## Tables -/

inductive Table
  | kanban_boards
  | kanban_cards
  deriving DecidableEq, Repr

/-- A row without its project. The name may be NULL where the column is a primary key only. -/
structure BoardRow where
  name : Option String
  goal : String
  createdAt : String
  deriving DecidableEq, Repr

structure CardRow where
  board : String
  cardId : String
  position : Int
  addedAt : String
  deriving DecidableEq, Repr

namespace Table

abbrev Row : Table → Type
  | kanban_boards => BoardRow
  | kanban_cards => CardRow

def cols : Table → List String
  | kanban_boards => ["name", "goal", "created_at"]
  | kanban_cards => ["board", "card_id", "position", "added_at"]

/-- The columns of the primary key. -/
def key : (t : Table) → t.Row → List (Option String)
  | kanban_boards, row => [row.name]
  | kanban_cards, row => [some row.board, some row.cardId]

/-- The row has a value where the column is `NOT NULL`. -/
def notNull (t : Table) (row : t.Row) : Bool := (t.key row).all Option.isSome

end Table

/-- The rows of a table, without a column `project` or with it. -/
inductive Content (ρ : Type)
  | legacy (rows : List ρ)
  | scoped (rows : List (String × ρ))

/-- A table and the one that is renamed, where they exist. -/
structure Stored (ρ : Type) where
  main : Option (Content ρ)
  aside : Option (Content ρ)

abbrev Db := (t : Table) → Stored t.Row

/-! ## Statements -/

inductive Statement
  | createIfNotExists (t : Table)
  | tableInfo (t : Table)
  | rename (t : Table)
  | create (t : Table)
  | copy (t : Table)
  | drop (t : Table)
  deriving DecidableEq

abbrev Reply : Statement → Type
  | .tableInfo _ => List String
  | _ => Unit

def columns (t : Table) : Option (Content t.Row) → List String
  | none => []
  | some (.legacy _) => t.cols
  | some (.scoped _) => "project" :: t.cols

/-- The rows that a copy inserts. -/
def copies {ρ : Type} : Content ρ → List (String × ρ)
  | .legacy rows => rows.map fun row => ("legacy-global", row)
  | .scoped rows => rows.map fun row => ("legacy-global", row.2)

/-- The constraints of the table let the rows in. -/
def Accepts (t : Table) (rows : List (String × t.Row)) : Prop :=
  (∀ row ∈ rows, t.notNull row.2 = true) ∧ (rows.map fun row => (row.1, t.key row.2)).Nodup

instance (t : Table) (rows : List (String × t.Row)) : Decidable (Accepts t rows) := by
  unfold Accepts
  infer_instance

/-- What a statement makes of its table. None: it fails, and changes nothing. -/
def alter (t : Table) (s : Stored t.Row) : Statement → Option (Stored t.Row)
  | .createIfNotExists _ => some { s with main := some (s.main.getD (.scoped [])) }
  | .tableInfo _ => some s
  | .rename _ =>
      match s.main, s.aside with
      | some content, none => some ⟨none, some content⟩
      | _, _ => none
  | .create _ => if s.main.isNone then some { s with main := some (.scoped []) } else none
  | .copy _ =>
      match s.main, s.aside with
      | some (.scoped rows), some content =>
          if Accepts t (rows ++ copies content) then
            some { s with main := some (.scoped (rows ++ copies content)) }
          else none
      | _, _ => none
  | .drop _ => if s.aside.isSome then some { s with aside := none } else none

def Statement.table : Statement → Table
  | createIfNotExists t | tableInfo t | rename t | create t | copy t | drop t => t

def answer (db : Db) : (op : Statement) → Reply op
  | .tableInfo t => columns t (db t).main
  | .createIfNotExists _ | .rename _ | .create _ | .copy _ | .drop _ => ()

def exec (op : Statement) (_ : Unit) (db : Db) : Option (Db × Option (Reply op)) :=
  match alter op.table (db op.table) op with
  | some s => some (Function.update db op.table s, some (answer db op))
  | none => some (db, none)

/-! ## The start -/

abbrev await (op : Statement) : Program Statement Reply (Reply op) := Program.await op

def migrateTable (t : Table) : Program Statement Reply Unit :=
  (await (.tableInfo t)).bind fun info =>
    if "project" ∈ info then .ret ()
    else (await (.rename t)).bind fun _ =>
      (await (.create t)).bind fun _ =>
        (await (.copy t)).bind fun _ => await (.drop t)

def migrateAddProject : Program Statement Reply Unit :=
  Program.forEach migrateTable [.kanban_boards, .kanban_cards]

def init : Program Statement Reply Unit :=
  (await (.createIfNotExists .kanban_boards)).bind fun _ =>
    (await (.createIfNotExists .kanban_cards)).bind fun _ => migrateAddProject

/-! ## Stopped starts -/

/-- Between these statements and the next one the rows are in the renamed table only. -/
def midway (t : Table) : Option Statement → Bool
  | some (.rename u) | some (.create u) => u = t
  | _ => false

/-- A start that is stopped after `n` statements, and the last of them. -/
def stopped (n : Nat) (db : Db) : Db × Option Statement :=
  init.stopAfter (Program.logged exec) (fun _ => ()) n (db, none)

/-- Stopped starts, one after the other. -/
def starts (stops : List Nat) (db : Db) : Db := stops.foldl (fun db n => (stopped n db).1) db

/-- One of the starts was stopped midway in the table. -/
def stoppedMidway (t : Table) : List Nat → Db → Bool
  | [], _ => false
  | n :: stops, db => midway t (stopped n db).2 || stoppedMidway t stops (stopped n db).1

/-- A start that runs to its end, by a return or a throw. -/
def start (db : Db) : Option (Db × Option Unit) := init.play exec (fun _ => ()) db

/-- The rows of a table in its scoped form. -/
def scopedRows {ρ : Type} : Option (Content ρ) → List (String × ρ)
  | none => []
  | some (.legacy rows) => copies (.legacy rows)
  | some (.scoped rows) => rows

/-! ## What becomes of one table -/

section

variable {ρ : Type}

/-- The rows of the first start are in the table, scoped or not. -/
def Kept (first : Option (Content ρ)) (s : Stored ρ) : Prop :=
  s = ⟨first, none⟩ ∨ s.main = some (.scoped (scopedRows first))

/-- They are in the renamed table only. -/
def Lost (first : Option (Content ρ)) (s : Stored ρ) : Prop :=
  (∃ rows, first = some (.legacy rows)) ∧ s.aside = first ∧
    (s.main = none ∨ s.main = some (.scoped []))

def Fate (first : Option (Content ρ)) (lost : Bool) (s : Stored ρ) : Prop :=
  if lost then Lost first s else Kept first s

end

/-- What holds of all tables, with the last statement of the start. -/
def Fates (first : Db) (lost : Table → Bool) (s : Db × Option Statement) : Prop :=
  ∀ t, Fate (first t).main (lost t || midway t s.2) (s.1 t)

/-- The table has the column `project`. -/
def Scoped (s : Db) (t : Table) : Prop := ∃ rows, (s t).main = some (.scoped rows)

section

variable {ρ : Type} {first : Option (Content ρ)} {lost : Bool} {s : Stored ρ}

theorem Fate.created (fate : Fate first lost s) :
    Fate first lost { s with main := some (s.main.getD (.scoped [])) } := by
  cases lost with
  | false =>
      rcases fate with rfl | main
      · cases first with
        | none => exact .inr (by simp [scopedRows])
        | some content => exact .inl (by simp)
      · exact .inr (by simp [main])
  | true =>
      obtain ⟨legacy, aside, main⟩ := fate
      refine ⟨legacy, aside, .inr ?_⟩
      rcases main with main | main <;> simp [main]

/-- A table without the column still has the rows of the first start. -/
theorem Fate.legacy {rows : List ρ} (fate : Fate first lost s)
    (main : s.main = some (.legacy rows)) :
    first = some (.legacy rows) ∧ lost = false ∧ s = ⟨some (.legacy rows), none⟩ := by
  cases lost with
  | false =>
      rcases fate with rfl | copied
      · simp only at main
        subst main
        exact ⟨rfl, rfl, rfl⟩
      · rw [main] at copied
        cases copied
  | true =>
      rcases fate.2.2 with none | copied
      · rw [main] at none
        cases none
      · rw [main] at copied
        cases copied

/-- What a table with the column says of the rows. -/
theorem Fate.kept_iff {rows : List (String × ρ)} (fate : Fate first lost s)
    (main : s.main = some (.scoped rows)) :
    rows = scopedRows first ↔ scopedRows first = [] ∨ lost = false := by
  cases lost with
  | false =>
      refine iff_of_true ?_ (.inr rfl)
      rcases fate with rfl | copied
      · simp only at main
        rw [main, scopedRows]
      · rw [main] at copied
        cases copied
        rfl
  | true =>
      have empty : rows = [] := by
        rcases fate.2.2 with none | copied
        · rw [main] at none
          cases none
        · rw [main] at copied
          cases copied
          rfl
      simp only [empty, Bool.true_eq_false, or_false]
      exact eq_comm

end

/-! ## What a start makes of the tables -/

section

variable {first : Db} {lost : Table → Bool} {db : Db} {last : Option Statement}

theorem alters {op : Statement} {cut : Statement → Db × Option Statement → Prop}
    {post : Option (Reply op) → Db × Option Statement → Prop} (here : cut op (db, last))
    (returned : ∀ s, alter op.table (db op.table) op = some s →
      post (some (answer db op)) (Function.update db op.table s, some op))
    (thrown : alter op.table (db op.table) op = none → post none (db, last)) :
    (Program.await op).Always (Program.logged exec) cut post (db, last) := by
  refine Program.Always.await here fun input t reply done => ?_
  unfold Program.logged exec at done
  split at done
  · cases done
    exact returned _ ‹_›
  · cases done
    exact thrown ‹_›

/-- A statement about one table leaves the others. -/
theorem Fates.update {op : Statement} {s : Stored op.table.Row}
    (others : ∀ t, t ≠ op.table → Fate (first t).main (lost t) (db t))
    (fate : Fate (first op.table).main (lost op.table || midway op.table (some op)) s) :
    Fates first lost (Function.update db op.table s, some op) := by
  intro t
  by_cases same : t = op.table
  · subst same
    simpa using fate
  · have away : midway t (some op) = false := by
      cases op <;> simp [midway]
      all_goals exact fun eq => same eq.symm
    simpa [Function.update_of_ne same, away] using others t same

theorem project_mem_columns {t : Table} {content : Option (Content t.Row)} :
    "project" ∈ columns t content ↔ ∃ rows, content = some (.scoped rows) := by
  rcases content with _ | rows | rows
  · simp [columns]
  · cases t <;> simp [columns, Table.cols]
  · simp [columns]

/-- The tables that the loop has gone through have the column. -/
def Done (first : Db) (lost : Table → Bool) (ts : List Table) (s : Db × Option Statement) : Prop :=
  Fates first lost s ∧ (∀ t, midway t s.2 = false) ∧ (∀ t, (s.1 t).main ≠ none) ∧
    ∀ t, t ∉ ts → Scoped s.1 t

theorem Done.settled {ts : List Table} (before : Done first lost ts (db, last)) (t : Table) :
    Fate (first t).main (lost t) (db t) := by
  have fate := before.1 t
  simpa [before.2.1 t] using fate

/-- One statement about a table whose content is known. -/
theorem alters_at {op : Statement} {s : Stored op.table.Row}
    {cut : Statement → Db × Option Statement → Prop}
    {post : Option (Reply op) → Db × Option Statement → Prop}
    (here : cut op (Function.update db op.table s, last))
    (returned : ∀ s', alter op.table s op = some s' → ∀ reply,
      post (some reply) (Function.update db op.table s', some op))
    (thrown : alter op.table s op = none → post none (Function.update db op.table s, last)) :
    (Program.await op).Always (Program.logged exec) cut post (Function.update db op.table s, last) := by
  refine alters here (fun s' eq => ?_) fun eq => thrown ?_
  · rw [Function.update_idem]
    exact returned s' (by simpa using eq) _
  · simpa using eq

theorem Fates.copied {t : Table} {rows : List t.Row}
    (settled : ∀ u, Fate (first u).main (lost u) (db u))
    (legacy : (first t).main = some (.legacy rows)) (kept : lost t = false)
    (was : db t = ⟨some (.legacy rows), none⟩) :
    ((await (.rename t)).bind fun _ => (await (.create t)).bind fun _ =>
      (await (.copy t)).bind fun _ => await (.drop t)).Always (Program.logged exec)
      (fun _ s => Fates first lost s)
      (fun o s => match o with
        | some _ => Fates first lost s ∧ s.2 = some (.drop t) ∧ Scoped s.1 t ∧
            ∀ u, u ≠ t → s.1 u = db u
        | none => Fates first lost s) (db, some (.tableInfo t)) := by
  have aside (op : Statement) (main : Option (Content t.Row)) (same : op.table = t)
      (now : midway t (some op) = true) (bare : main = none ∨ main = some (.scoped [])) :
      Fates first lost (Function.update db t ⟨main, some (.legacy rows)⟩, some op) := by
    subst same
    refine Fates.update (fun u _ => settled u) ?_
    simp only [kept, now, Bool.or_true, Fate, if_true]
    exact ⟨⟨rows, legacy⟩, legacy.symm, bare⟩
  have copied (op : Statement) (s : Option (Content t.Row)) (same : op.table = t)
      (past : midway t (some op) = false) :
      Fates first lost (Function.update db t ⟨some (.scoped (copies (.legacy rows))), s⟩, some op) := by
    subst same
    refine Fates.update (fun u _ => settled u) ?_
    simp only [kept, past, Bool.or_false, Fate]
    exact .inr (by simp [legacy, scopedRows])
  have before : Fates first lost (db, some (.tableInfo t)) := fun u => by
    simpa [midway] using settled u
  refine Program.Always.bind (alters before (fun s eq => ?_) fun _ => before)
  change alter t (db t) (.rename t) = some s at eq
  rw [was] at eq
  cases eq
  refine Program.Always.bind (alters_at (aside (.rename t) _ rfl (by simp [midway]) (.inl rfl))
    (fun s eq _ => ?_) fun _ => aside (.rename t) _ rfl (by simp [midway]) (.inl rfl))
  cases eq
  refine Program.Always.bind (alters_at (aside (.create t) _ rfl (by simp [midway]) (.inr rfl))
    (fun s eq _ => ?_) fun _ => aside (.create t) _ rfl (by simp [midway]) (.inr rfl))
  obtain ⟨-, ⟨⟩⟩ := Option.ite_none_right_eq_some.mp
    (show (if Accepts t ([] ++ copies (.legacy rows)) then some _ else none) = some s from eq)
  refine alters_at (copied (.copy t) _ rfl (by simp [midway])) (fun s eq _ => ?_)
    fun _ => copied (.copy t) _ rfl (by simp [midway])
  cases eq
  refine ⟨copied (.drop t) _ rfl (by simp [midway]), rfl, ⟨_, by simp [Statement.table]; rfl⟩, fun u away => ?_⟩
  exact Function.update_of_ne away _ _

theorem Done.migrateTable {t : Table} {ts : List Table} (before : Done first lost (t :: ts) (db, last)) :
    (migrateTable t).Always (Program.logged exec) (fun _ s => Fates first lost s)
      (fun o s => match o with
        | some _ => Done first lost ts s
        | none => Fates first lost s) (db, last) := by
  obtain ⟨fates, off, made, past⟩ := before
  have settled := Done.settled ⟨fates, off, made, past⟩
  unfold Kanban.migrateTable
  refine Program.Always.bind (alters fates (fun s eq => ?_) fun eq => by cases eq)
  cases eq
  have same : Function.update db t (db t) = db := Function.update_eq_self t db
  rw [show (Statement.tableInfo t).table = t from rfl, same]
  change Program.Always _ _ _ (if "project" ∈ columns t (db t).main then Program.ret () else _) _
  by_cases column : "project" ∈ columns t (db t).main
  · rw [if_pos column]
    refine ⟨fun u => by simpa [midway] using settled u, fun u => rfl, made, fun u away => ?_⟩
    by_cases here : u = t
    · subst here
      exact project_mem_columns.mp column
    · exact past u (by simp [here, away])
  · rw [if_neg column]
    obtain ⟨rows, main⟩ : ∃ rows, (db t).main = some (.legacy rows) := by
      rcases eq : (db t).main with _ | rows | rows
      · exact absurd eq (made t)
      · exact ⟨rows, rfl⟩
      · exact absurd (project_mem_columns.mpr ⟨rows, eq⟩) column
    obtain ⟨legacy, kept, was⟩ := (settled t).legacy main
    refine (Fates.copied settled legacy kept was).mono fun o s after => ?_
    cases o with
    | some _ =>
        obtain ⟨fates, dropped, column, others⟩ := after
        refine ⟨fates, fun u => by simp [dropped, midway], fun u => ?_, fun u away => ?_⟩
        · by_cases here : u = t
          · subst here
            obtain ⟨rows, main⟩ := column
            simp [main]
          · rw [others u here]
            exact made u
        · by_cases here : u = t
          · subst here
            exact column
          · rw [Scoped, others u here]
            exact past u (by simp [here, away])
    | none => exact after

theorem Done.createIfNotExists {t : Table} (before : Fates first lost (db, last))
    (off : ∀ u, midway u last = false) :
    (await (.createIfNotExists t)).Always (Program.logged exec) (fun _ s => Fates first lost s)
      (fun o s => match o with
        | some _ => Fates first lost s ∧ (∀ u, midway u s.2 = false) ∧ (s.1 t).main ≠ none ∧
            ∀ u, (db u).main ≠ none → (s.1 u).main ≠ none
        | none => Fates first lost s) (db, last) := by
  have settled (u : Table) : Fate (first u).main (lost u) (db u) := by
    simpa [off u] using before u
  refine alters before (fun s eq => ?_) fun _ => before
  cases eq
  refine ⟨Fates.update (fun u _ => settled u) ?_, fun u => by simp [midway], ?_, fun u made => ?_⟩
  · change Fate (first t).main (lost t || midway t (some (.createIfNotExists t))) _
    rw [show midway t (some (.createIfNotExists t)) = false from rfl, Bool.or_false]
    exact (settled t).created
  · simp [Statement.table]
  · by_cases here : u = t
    · subst here
      simp [Statement.table]
    · simpa [Statement.table, Function.update_of_ne here] using made

/-- Wherever a start is stopped, and when it has returned. -/
theorem init_always (settled : ∀ t, Fate (first t).main (lost t) (db t)) :
    init.Always (Program.logged exec) (fun _ s => Fates first lost s)
      (fun o s => Fates first lost s ∧
        (o = some () → (∀ t, midway t s.2 = false) ∧ ∀ t, Scoped s.1 t)) (db, none) := by
  have before : Fates first lost (db, none) := fun t => by simpa [midway] using settled t
  refine Program.Always.bind ((Done.createIfNotExists before fun _ => rfl).mono fun o s first => ?_)
  rcases o with _ | _
  · exact ⟨first, fun eq => nomatch eq⟩
  obtain ⟨fates, off, boards, -⟩ := first
  refine Program.Always.bind ((Done.createIfNotExists fates off).mono fun o s second => ?_)
  rcases o with _ | _
  · exact ⟨second, fun eq => nomatch eq⟩
  obtain ⟨fates, off, cards, made⟩ := second
  have made (t : Table) : (s.1 t).main ≠ none := by
    cases t with
    | kanban_boards => exact made _ boards
    | kanban_cards => exact cards
  refine Program.Always.forEach (Done first lost) (fun t ts s before => ?_) (fun s after => ?_)
    ⟨fates, off, made, fun t away => absurd ?_ away⟩
  · refine before.migrateTable.mono fun o s after => ?_
    cases o with
    | some _ => exact after
    | none => exact ⟨after, fun eq => nomatch eq⟩
  · exact ⟨after.1, fun _ => ⟨after.2.1, fun t => after.2.2.2 t (by simp)⟩⟩
  · cases t <;> simp

theorem Fates.stopped (n : Nat) (settled : ∀ t, Fate (first t).main (lost t) (db t)) :
    Fates first lost (stopped n db) := by
  rcases (init_always settled).of_stopAfter (fun _ => ()) n with ⟨_, fates⟩ | ⟨_, fates, _⟩
  · exact fates
  · exact fates

theorem Fates.starts (stops : List Nat) (settled : ∀ t, Fate (first t).main (lost t) (db t)) (t : Table) :
    Fate (first t).main (lost t || stoppedMidway t stops db) (starts stops db t) := by
  induction stops generalizing lost db with
  | nil => simpa [stoppedMidway, Kanban.starts] using settled t
  | cons n stops ih =>
      have next := ih (Fates.stopped n settled)
      rwa [Bool.or_assoc] at next

end

/-- A start that returns leaves no table without the column, and each with its rows. -/
theorem start_fates {first db db' : Db} {lost : Table → Bool}
    (settled : ∀ t, Fate (first t).main (lost t) (db t)) (done : start db = some (db', some ())) :
    ∀ t, Scoped db' t ∧ Fate (first t).main (lost t) (db' t) := by
  obtain ⟨last, fates, returned⟩ :=
    (Program.Always.of_logged (init_always settled)).of_complete (Program.Runs.of_play done)
  obtain ⟨off, column⟩ := returned rfl
  intro t
  refine ⟨column t, ?_⟩
  simpa [off t] using fates t

theorem exec_of_unchanged {db : Db} {op : Statement}
    (same : alter op.table (db op.table) op = some (db op.table)) :
    exec op () db = some (db, some (answer db op)) := by
  rw [exec, same]
  simp

/-- A start from tables that have the column changes nothing. -/
theorem start_of_column {db : Db} (column : ∀ t, Scoped db t) : start db = some (db, some ()) := by
  have created (t : Table) : exec (.createIfNotExists t) () db = some (db, some ()) := by
    obtain ⟨rows, main⟩ := column t
    refine exec_of_unchanged ?_
    simp only [alter, Statement.table, main, Option.getD_some]
    rw [← main]
  have info (t : Table) : exec (.tableInfo t) () db = some (db, some (columns t (db t).main)) :=
    exec_of_unchanged rfl
  have project (t : Table) : "project" ∈ columns t (db t).main :=
    project_mem_columns.mpr (column t)
  simp [start, init, migrateAddProject, migrateTable, Program.forEach, await, Program.await, Program.bind,
    Program.play, created, info, project]

/-- The rows of every table are in the scoped form after the first start that returns, unless an
earlier one was stopped between the renaming of the table and the copy of its rows. -/
theorem migration_keeps_rows_iff {first db : Db} (bare : ∀ t, (first t).aside = none) (stops : List Nat)
    (done : start (starts stops first) = some (db, some ())) :
    (∀ t, (db t).main = some (.scoped (scopedRows (first t).main)) ↔
      scopedRows (first t).main = [] ∨ stoppedMidway t stops first = false) ∧
    start db = some (db, some ()) := by
  have settled (t : Table) : Fate (first t).main false (first t) :=
    .inl (by rw [← bare t])
  have after := start_fates (Fates.starts stops settled) done
  refine ⟨fun t => ?_, start_of_column fun t => (after t).1⟩
  obtain ⟨⟨rows, main⟩, fate⟩ := after t
  rw [main]
  simpa using fate.kept_iff main

def oldGoal : BoardRow := ⟨some "old", "legacy goal", "t"⟩

/-- A database without projects that has one board with one card. -/
def legacyDb : Db
  | .kanban_boards => ⟨some (.legacy [oldGoal]), none⟩
  | .kanban_cards => ⟨some (.legacy [⟨"old", "a", 1, "t"⟩]), none⟩

def lastOf (r : Option (Db × Option Unit)) : Db := r.elim legacyDb Prod.fst

/-- A start that is stopped before its first statement about the boards, and a complete one. -/
theorem migration_keeps_rows_iff_stopped_early :
    (lastOf (start (starts [3] legacyDb)) .kanban_boards).main =
      some (.scoped [("legacy-global", oldGoal)]) := by
  have done : start (starts [3] legacyDb) = some (lastOf (start (starts [3] legacyDb)), some ()) := by
    rfl
  have kept := (migration_keeps_rows_iff (fun t => by cases t <;> rfl) [3] done).1 .kanban_boards
  exact kept.mpr (.inr rfl)

/-- The start is stopped after it has renamed the boards. The next one makes an empty table and finds
the column `project`. -/
theorem renamed_and_not_copied :
    ¬ ∀ (first db : Db) (n : Nat), (∀ t, (first t).aside = none) →
      start (stopped n first).1 = some (db, some ()) →
      ∀ t, (db t).main = some (.scoped (scopedRows (first t).main)) := by
  intro kept
  have done : start (stopped 4 legacyDb).1 = some (lastOf (start (stopped 4 legacyDb).1), some ()) := by
    rfl
  cases kept legacyDb _ 4 (fun t => by cases t <;> rfl) done .kanban_boards

end Opensquid.Kanban
