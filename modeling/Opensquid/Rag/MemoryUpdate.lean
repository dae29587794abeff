import Opensquid.Rag.MemoryIndex

/-!
# Updating a memory

`updateMemory` loads the columns of a row that `getMemoryById` selects and inserts the row again
through `insertMemory`, to which it passes no source directory. So the file of the memory keeps
the old content, and the column `retired_at`, which is neither selected nor inserted, becomes
NULL. `updatesOnly_iff` says when this makes no difference.
-/

namespace Opensquid.Rag.Memory

open Opensquid.Lib Opensquid.Lib.FrontMatter Opensquid.Storage

variable {ν : Type}

/-! ## Rows with their vectors -/

structure VectorRow (ν : Type) where
  columns : Columns
  embedding : Option ν

def VectorRow.id (r : VectorRow ν) : String := r.columns.id

/-- The table and the source directory, whose files are in the order of its listing. -/
structure VectorStore (ν : Type) where
  rows : Table (@VectorRow.id ν)
  files : Table File.name

/-- `DELETE`, then `INSERT`. -/
def replaceVector (rows : Table (@VectorRow.id ν)) (r : VectorRow ν) : Table (@VectorRow.id ν) :=
  (rows.delete r.id).add r Table.get_delete_self

/-- `rowToMemory`: the column `retired_at` is not selected. -/
def rowToMemory (c : Columns) : Lesson := { rowToLesson c with retiredAt := none }

def getMemoryRow (rows : Table (@VectorRow.id ν)) (id : String) : Option Lesson :=
  (rows.get id).map fun r => rowToMemory r.columns

/-- `insertMemory` without a source directory. -/
def insertRow (s : VectorStore ν) (lesson : Lesson) (embedding : Option ν) : VectorStore ν :=
  { s with rows := replaceVector s.rows ⟨lesson.insertedColumns, embedding⟩ }

def isScopeTag (tag : String) : Bool := "scope:".toList.isPrefixOf tag.toList

/-- The scope tag is replaced. -/
def rescoped (tags : List String) (scope : Option String) : List String :=
  tags.filter (!isScopeTag ·) ++ (scope.map ("scope:" ++ ·)).toList

/-- `embed` gives no vector where the embedder has none; none: the id is not found. -/
def updateMemory (embed : String → Option ν) (s : VectorStore ν) (id content : String)
    (scope : Option String) : Option (VectorStore ν) :=
  (getMemoryRow s.rows id).map fun row =>
    insertRow s { row with content, tags := rescoped row.tags scope } (embed content)

/-- The backend stores a lesson, when the table is made anew. -/
def indexVector (embed : String → Option ν) (rows : Table (@VectorRow.id ν)) (lesson : Lesson) :
    Table (@VectorRow.id ν) :=
  match rows.get lesson.id with
  | none => replaceVector rows ⟨lesson.columns, embed lesson.content⟩
  | some r =>
      if r.columns = lesson.columns ∧ r.embedding.isSome then rows
      else replaceVector rows ⟨lesson.columns, embed lesson.content⟩

/-- The table made anew from the files; none: reading them throws. -/
def rebuildVectors (codec : Codec) (embed : String → Option ν) (readdir : List File) :
    Option (Table (@VectorRow.id ν)) :=
  (readRecords codec readdir).map fun records => records.foldl (indexVector embed) .empty

/-! ## What an update is for -/

/-- The content is new, the scope tag is replaced, and the rest is as before. -/
structure Rewritten (c c' : Columns) (content : String) (scope : Option String) : Prop where
  content : c'.content = content
  scopeTags : c'.tags.filter isScopeTag = (scope.map ("scope:" ++ ·)).toList
  otherTags : c'.tags.filter (!isScopeTag ·) = c.tags.filter (!isScopeTag ·)
  rest : { c' with content := c.content, tags := c.tags } = c

/-- From `s` to `t` the row of the id is rewritten, no other row changes, and the files give the
same row. -/
structure UpdatesOnly (codec : Codec) (embed : String → Option ν) (s t : VectorStore ν)
    (id content : String) (scope : Option String) : Prop where
  row : ∃ r r', s.rows.get id = some r ∧ t.rows.get id = some r' ∧ r'.embedding = embed content ∧
    Rewritten r.columns r'.columns content scope
  others : ∀ other, other ≠ id → t.rows.get other = s.rows.get other
  rebuilt : ∃ rows, rebuildVectors codec embed t.files.rows = some rows ∧
    rows.get id = t.rows.get id

def Columns.updated (c : Columns) (content : String) (scope : Option String) : Columns :=
  { c with content, tags := rescoped c.tags scope }

/-- The row is not retired, and before the update the last record of the memory among the files
has already the new content, the new tags and the other columns of the row. -/
def RecordedBefore (codec : Codec) (s : VectorStore ν) (id content : String)
    (scope : Option String) : Prop :=
  ∃ r records lesson, s.rows.get id = some r ∧ r.columns.retiredAt = none ∧
    readRecords codec s.files.rows = some records ∧
    records.reverse.find? (·.id = id) = some lesson ∧
    lesson.columns = r.columns.updated content scope

/-! ## The table made anew -/

section

variable {codec : Codec} {embed : String → Option ν} {rows : Table (@VectorRow.id ν)}

theorem get_replaceVector (r : VectorRow ν) (id : String) :
    (replaceVector rows r).get id = if id = r.id then some r else rows.get id := by
  split
  · rename_i same
    subst same
    exact Table.get_add_self
  · rename_i other
    exact (Table.get_add_of_ne other).trans (Table.get_delete_of_ne other)

theorem get_indexVector (embedded : ∀ r ∈ rows.rows, r.embedding = embed r.columns.content)
    (lesson : Lesson) (id : String) :
    (indexVector embed rows lesson).get id =
      if id = lesson.id then some ⟨lesson.columns, embed lesson.content⟩ else rows.get id := by
  rw [indexVector]
  cases present : rows.get lesson.id with
  | none => exact get_replaceVector _ id
  | some r =>
      dsimp only
      split
      · rename_i same
        split
        · rename_i here
          subst here
          have vector := embedded r (Table.mem_of_get present)
          rw [same.1] at vector
          rw [present, ← same.1]
          exact congrArg some (congrArg (VectorRow.mk r.columns) vector)
        · rfl
      · exact get_replaceVector _ id

theorem embedded_indexVector (embedded : ∀ r ∈ rows.rows, r.embedding = embed r.columns.content)
    (lesson : Lesson) :
    ∀ r ∈ (indexVector embed rows lesson).rows, r.embedding = embed r.columns.content := by
  intro r mem
  have here := get_indexVector embedded lesson r.id
  rw [Table.mem_rows_iff.mp mem] at here
  split at here
  · cases here
    rfl
  · exact embedded r (Table.mem_of_get here.symm)

/-- The row of an id is that of its last record. -/
theorem get_foldl_indexVector (records : List Lesson)
    (embedded : ∀ r ∈ rows.rows, r.embedding = embed r.columns.content) (id : String) :
    (records.foldl (indexVector embed) rows).get id =
      ((records.reverse.find? (·.id = id)).map fun lesson =>
        ⟨lesson.columns, embed lesson.content⟩).or (rows.get id) := by
  induction records generalizing rows with
  | nil => rfl
  | cons lesson records ih =>
      rw [List.foldl_cons, ih (embedded_indexVector embedded lesson), get_indexVector embedded,
        List.reverse_cons, List.find?_append]
      cases records.reverse.find? (·.id = id) with
      | some later => rfl
      | none =>
          by_cases same : lesson.id = id
          · simp [same]
          · simp [same, Ne.symm same]

theorem get_rebuildVectors {readdir : List File} {records : List Lesson}
    (read : readRecords codec readdir = some records) (id : String) :
    ∃ rows, rebuildVectors codec embed readdir = some rows ∧ rows.get id =
      (records.reverse.find? (·.id = id)).map fun lesson =>
        ⟨lesson.columns, embed lesson.content⟩ := by
  refine ⟨_, by rw [rebuildVectors, read, Option.map_some], ?_⟩
  rw [get_foldl_indexVector records (by rintro r ⟨⟩) id]
  exact Option.or_none

/-! ## When an update does only what it is for -/

theorem filter_rescoped (tags : List String) (scope : Option String) :
    (rescoped tags scope).filter isScopeTag = (scope.map ("scope:" ++ ·)).toList ∧
      (rescoped tags scope).filter (!isScopeTag ·) = tags.filter (!isScopeTag ·) := by
  have mark : ∀ text : String, isScopeTag ("scope:" ++ text) = true := fun text => by
    rw [isScopeTag, String.toList_append, List.isPrefixOf_iff_prefix]
    exact List.prefix_append _ _
  unfold rescoped
  cases scope with
  | none => simp [List.filter_filter]
  | some text => simp [List.filter_filter, mark]

theorem updated_of_live {c : Columns} (live : c.retiredAt = none) {content : String}
    {scope : Option String} :
    { c.updated content scope with retiredAt := none } = c.updated content scope :=
  congrArg (fun retiredAt => { c.updated content scope with retiredAt }) live.symm

/-- What an update that succeeds leaves. -/
theorem updateMemory_eq {s t : VectorStore ν} {id content : String} {scope : Option String}
    (done : updateMemory embed s id content scope = some t) :
    ∃ r, s.rows.get id = some r ∧ t.files = s.files ∧
      (∀ other, other ≠ id → t.rows.get other = s.rows.get other) ∧
      t.rows.get id =
        some ⟨{ r.columns.updated content scope with retiredAt := none }, embed content⟩ := by
  obtain ⟨row, loaded, rfl⟩ := Option.map_eq_some_iff.mp done
  obtain ⟨r, present, rfl⟩ := Option.map_eq_some_iff.mp loaded
  have key : r.id = id := Table.key_of_get present
  refine ⟨r, present, rfl, fun other apart => ?_, ?_⟩
  · exact (get_replaceVector _ other).trans (if_neg fun same => apart (same.trans key))
  · exact (get_replaceVector _ id).trans (if_pos key.symm)

/-- For every store, embedder and update that succeeds. -/
theorem updatesOnly_iff {s t : VectorStore ν} {id content : String} {scope : Option String}
    (done : updateMemory embed s id content scope = some t) :
    UpdatesOnly codec embed s t id content scope ↔ RecordedBefore codec s id content scope := by
  obtain ⟨r, present, files, others, written⟩ := updateMemory_eq done
  constructor
  · rintro ⟨⟨r₀, r', before, after, -, rewritten⟩, -, rows, built, same⟩
    rw [present] at before
    cases before
    rw [written] at after
    cases after
    have live : none = r.columns.retiredAt := congrArg Columns.retiredAt rewritten.rest
    rw [rebuildVectors, files] at built
    obtain ⟨records, read, -⟩ := Option.map_eq_some_iff.mp built
    obtain ⟨rows', built', row⟩ := @get_rebuildVectors _ codec embed _ _ read id
    rw [rebuildVectors, built] at built'
    cases built'
    rw [row, written] at same
    obtain ⟨lesson, last, eq⟩ := Option.map_eq_some_iff.mp same
    refine ⟨r, records, lesson, present, live.symm, read, last, ?_⟩
    exact (congrArg VectorRow.columns eq).trans (updated_of_live live.symm)
  · rintro ⟨r₀, records, lesson, before, live, read, last, columns⟩
    rw [present] at before
    cases before
    obtain ⟨rows, built, row⟩ := @get_rebuildVectors _ codec embed _ _ read id
    obtain ⟨scopeTags, otherTags⟩ := filter_rescoped r.columns.tags scope
    rw [updated_of_live live] at written
    refine ⟨⟨r, _, present, written, rfl, rfl, scopeTags, otherTags, rfl⟩, others, rows, ?_, ?_⟩
    · rw [files]
      exact built
    · have content_eq : lesson.content = content := congrArg Columns.content columns
      rw [row, last, Option.map_some, written, columns, content_eq]

end

/-! ## Two memories -/

def savedNote : Lesson := { deployNote with tags := ["deploy", "scope:project"] }

def retiredNote : Lesson := { savedNote with retiredAt := some "2026-01-02T00:00:00.000Z" }

def editedNote : Lesson :=
  { savedNote with content := "Deploy on Mondays.", tags := ["deploy", "scope:user"] }

/-- A row, and the file that records a memory. -/
def noteStore (codec : Codec) (row file : Lesson) : VectorStore String where
  rows := replaceVector .empty ⟨row.columns, some row.content⟩
  files := Table.empty.put (recordFile codec file.id file)

/-- The file has the new content already. -/
theorem updatesOnly_iff_recorded : ∃ t,
    UpdatesOnly BlockYaml.codec some (noteStore BlockYaml.codec savedNote editedNote) t "mem-1"
      "Deploy on Mondays." (some "user") := by
  refine ⟨_, (updatesOnly_iff rfl).mpr
    ⟨_, [editedNote.recorded], editedNote.recorded, rfl, rfl, ?_, ?_, ?_⟩⟩
  · have listed : (noteStore BlockYaml.codec savedNote editedNote).files.rows =
        [recordFile BlockYaml.codec "mem-1" editedNote] := rfl
    have record := @lesson_recordFile BlockYaml.codec "mem-1" editedNote
    rw [listed, readRecords_eq, List.filterMap_cons, record, List.filterMap_nil]
    · intro f mem
      rw [List.mem_singleton.mp mem]
      exact isRecordName_recordName "mem-1"
    · intro f mem
      exact ⟨_, List.mem_singleton.mp mem ▸ record⟩
  · rfl
  · decide +kernel

/-- A retired memory is live again. -/
theorem retired_note_revived : ∃ t,
    updateMemory some (noteStore BlockYaml.codec retiredNote retiredNote) "mem-1" "Deploy on Mondays."
      none = some t ∧
    ¬ UpdatesOnly BlockYaml.codec some (noteStore BlockYaml.codec retiredNote retiredNote) t "mem-1"
      "Deploy on Mondays." none := by
  refine ⟨_, rfl, ?_⟩
  rintro ⟨⟨r, r', before, after, -, rewritten⟩, -, -⟩
  cases before
  cases after
  exact absurd (congrArg Columns.retiredAt rewritten.rest) (by decide)

end Opensquid.Rag.Memory
