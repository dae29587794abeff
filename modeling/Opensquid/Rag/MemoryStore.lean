import Opensquid.Lib.Steps
import Opensquid.Storage.RecordFile

/-!
# The memory store

A memory is a row of `lessons` and, when the store has a source directory, a file `<id>.md`.
The writers of the backend and `insertMemory` write the file first, then the row;
`rebuildLibsqlIndex` makes the table anew from the files.
-/

namespace Opensquid.Rag.Memory

open Opensquid.Lib Opensquid.Lib.FrontMatter Opensquid.Storage

/-! ## Lessons and rows -/

inductive Author
  | user
  | agent
  deriving DecidableEq

def Author.text : Author → String
  | .user => "user"
  | .agent => "agent"

/-- Whoever is not the user is an agent. -/
def Author.ofText (text : Option String) : Author := if text = some "user" then .user else .agent

theorem ofText_text (author : Author) : .ofText (some author.text) = author := by
  cases author <;> decide

inductive MemoryTier
  | shared
  | project
  deriving DecidableEq

inductive Durability
  | durable
  | pointInTime
  deriving DecidableEq

def Durability.text : Durability → String
  | .durable => "durable"
  | .pointInTime => "point_in_time"

def Durability.ofText? (text : String) : Option Durability :=
  [.durable, .pointInTime].find? fun durability => durability.text = text

structure Lesson where
  id : String
  content : String
  tags : List String
  source : String
  author : Author
  createdAt : String
  derivedFrom : Option (List String)
  consumedByUserLessons : Option Nat
  tier : Option MemoryTier
  ns : Option String
  retiredAt : Option String
  durability : Option Durability

/-- The columns of a row other than the embedding. -/
structure Columns where
  id : String
  content : String
  tags : List String
  source : String
  author : Author
  createdAt : String
  derivedFrom : List String
  consumedByUserLessons : Nat
  tier : MemoryTier
  ns : Option String
  retiredAt : Option String
  durability : Option Durability
  deriving DecidableEq

attribute [ext] Columns

structure Row where
  columns : Columns
  /-- The embedding is not NULL. -/
  embedded : Bool

def Row.id (r : Row) : String := r.columns.id

/-- What `storeLesson` inserts for a lesson. -/
def Lesson.columns (lesson : Lesson) : Columns where
  id := lesson.id
  content := lesson.content
  tags := lesson.tags
  source := lesson.source
  author := lesson.author
  createdAt := lesson.createdAt
  derivedFrom := lesson.derivedFrom.getD []
  consumedByUserLessons := lesson.consumedByUserLessons.getD 0
  tier := lesson.tier.getD .shared
  ns := lesson.ns
  retiredAt := lesson.retiredAt
  durability := lesson.durability

/-- What `insertMemory` inserts: its statement has no `retired_at` column. -/
def Lesson.insertedColumns (lesson : Lesson) : Columns := { lesson.columns with retiredAt := none }

/-- A text that is truthy. -/
def truthy (text : Option String) : Option String := text.filter fun s => s ≠ ""

def rowToLesson (c : Columns) : Lesson where
  id := c.id
  content := c.content
  tags := c.tags
  source := c.source
  author := c.author
  createdAt := c.createdAt
  derivedFrom := some c.derivedFrom
  consumedByUserLessons := some c.consumedByUserLessons
  tier := some c.tier
  ns := c.ns
  retiredAt := truthy c.retiredAt
  durability := c.durability

/-- A lesson with its compression columns and an embedding. -/
structure MemoryRow where
  lesson : Lesson
  embedded : Bool
  required : lesson.derivedFrom.isSome ∧ lesson.consumedByUserLessons.isSome

/-! ## Records -/

open Value in
/-- The front matter of a record; what has its default is not written, nor are tier and namespace. -/
def frontmatter (lesson : Lesson) : List (String × Value) :=
  [("id", .str lesson.id), ("tags", strings lesson.tags), ("source", .str lesson.source),
    ("author", .str lesson.author.text), ("created_at", .str lesson.createdAt)] ++
  optional "derived_from" ((lesson.derivedFrom.filter fun ids => ids ≠ []).map strings) ++
  optional "consumed_by_user_lessons"
    ((lesson.consumedByUserLessons.filter fun n => n ≠ 0).map .num) ++
  optional "retired_at" ((truthy lesson.retiredAt).map .str) ++
  optional "durability"
    ((lesson.durability.filter fun d => d = .pointInTime).map fun d => .str d.text)

/-- The lesson of a front matter, by the types that the reader declares for its fields. -/
def ofFrontmatter (name : String) (fm : Value) (content : String) : Lesson :=
  let text := fun key => (fm.field key).bind Value.string?
  let list := fun key => (fm.field key).bind Value.strings?
  { id := (text "id").getD (name.dropEnd 3).toString
    content
    tags := (list "tags").getD []
    source := (text "source").getD "memory"
    author := .ofText (text "author")
    createdAt := (text "created_at").getD epoch
    derivedFrom := (list "derived_from").filter fun ids => ids ≠ []
    consumedByUserLessons :=
      ((fm.field "consumed_by_user_lessons").bind Value.number?).filter fun n => n ≠ 0
    tier := none
    ns := none
    retiredAt := truthy (text "retired_at")
    durability := (text "durability").bind Durability.ofText? }

structure File where
  name : String
  text : List Char

section

variable (codec : Codec)

def recordFile (id : String) (lesson : Lesson) : File where
  name := recordName id
  text := fence (codec.stringify (.map (frontmatter lesson))) lesson.content.toList

def writeRecord (files : Table File.name) (lesson : Lesson) : Option (Table File.name) :=
  (safeRecordId lesson.id).map fun id => files.put (recordFile codec id lesson)

def deleteRecord (files : Table File.name) (id : String) : Option (Table File.name) :=
  (safeRecordId id).map fun id => files.delete (recordName id)

inductive Reading
  | skipped
  | record (lesson : Lesson)
  | failed

/-- A file without a fence is skipped; a header that cannot be parsed, or is null, throws. -/
def readRecord (f : File) : Reading :=
  match unfence f.text with
  | none => .skipped
  | some (header, body) =>
      match codec.parse header with
      | none | some .null => .failed
      | some fm => .record (ofFrontmatter f.name fm (String.ofList body))

/-- The records of the files in the order of the directory; none: it throws. -/
def readRecords : List File → Option (List Lesson)
  | [] => some []
  | f :: files =>
      if isRecordName f.name then
        match readRecord codec f with
        | .failed => none
        | .skipped => readRecords files
        | .record lesson => (readRecords files).map (lesson :: ·)
      else readRecords files

end

/-! ## The store -/

inductive StoreError
  | unsafeId (id : String)
  | userAuthoredImmunity (id : String)

/-- The table and the source directory. -/
structure Store where
  rows : Table Row.id
  files : Table File.name

structure DeleteResult where
  deleted : Bool
  forced : Bool

namespace Store

def empty : Store := ⟨.empty, .empty⟩

/-- `DELETE`, then `INSERT`. -/
def replaceRow (rows : Table Row.id) (r : Row) : Table Row.id :=
  (rows.delete r.id).add r Table.get_delete_self

/-- The row is there with the same columns and an embedding. -/
def unchanged (rows : Table Row.id) (lesson : Lesson) : Prop :=
  ∃ r, rows.get lesson.id = some r ∧ r.embedded = true ∧ r.columns = lesson.columns

instance (rows : Table Row.id) (lesson : Lesson) : Decidable (unchanged rows lesson) :=
  match present : rows.get lesson.id with
  | none => .isFalse fun ⟨_, here, _⟩ => by cases present.symm.trans here
  | some r =>
      decidable_of_iff (r.embedded = true ∧ r.columns = lesson.columns)
        ⟨fun same => ⟨r, present, same⟩, fun ⟨_, here, same⟩ => by
          cases present.symm.trans here
          exact same⟩

section

variable (codec : Codec) (embeds : Lesson → Bool)

/-- The backend without a source directory. -/
def indexLesson (rows : Table Row.id) (lesson : Lesson) : Table Row.id :=
  if unchanged rows lesson then rows else replaceRow rows ⟨lesson.columns, embeds lesson⟩

/-- The backend with a source directory. -/
def storeLesson (s : Store) (lesson : Lesson) : Except StoreError Store :=
  if unchanged s.rows lesson then .ok s
  else
    match writeRecord codec s.files lesson with
    | none => .error (.unsafeId lesson.id)
    | some files => .ok ⟨replaceRow s.rows ⟨lesson.columns, embeds lesson⟩, files⟩

/-- The row goes first, so the store that is left is part of the outcome. -/
def deleteLesson (s : Store) (id : String) (force : Bool) : Store × Except StoreError DeleteResult :=
  match s.rows.get id with
  | none => (s, .ok ⟨false, false⟩)
  | some r =>
      let isUser := decide (r.columns.author = .user)
      if isUser && !force then (s, .error (.userAuthoredImmunity id))
      else
        let rows := s.rows.delete id
        match deleteRecord s.files id with
        | none => (⟨rows, s.files⟩, .error (.unsafeId id))
        | some files => (⟨rows, files⟩, .ok ⟨true, isUser && force⟩)

/-- A lesson that is there and not retired is stored as retired. -/
def demoteLesson (s : Store) (id : String) (now : String) : Except StoreError Store :=
  match s.rows.get id with
  | none => .ok s
  | some r =>
      let lesson := rowToLesson r.columns
      if lesson.retiredAt.isSome then .ok s
      else s.storeLesson codec embeds { lesson with retiredAt := some now }

/-- Retired before the cutoff, by an agent, and not cited. -/
def sweepable (cutoff : String) (c : Columns) : Prop :=
  (∃ t, c.retiredAt = some t ∧ t < cutoff) ∧ c.author ≠ .user ∧ c.consumedByUserLessons = 0

instance (cutoff : String) (c : Columns) : Decidable (sweepable cutoff c) :=
  inferInstanceAs (Decidable (_ ∧ _))

/-- One deletion after the other, until one throws. -/
def deleteAll (s : Store) : List String → Store × Except StoreError Unit
  | [] => (s, .ok ())
  | id :: ids =>
      match s.deleteLesson id true with
      | (s, .error e) => (s, .error e)
      | (s, .ok _) => s.deleteAll ids

def sweepRetired (s : Store) (cutoff : String) : Store × Except StoreError Unit :=
  s.deleteAll ((s.rows.rows.filter fun r => sweepable cutoff r.columns).map Row.id)

/-- One store after the other, until one throws. -/
def storeAll (s : Store) : List Lesson → Store × Except StoreError Unit
  | [] => (s, .ok ())
  | lesson :: lessons =>
      match s.storeLesson codec embeds lesson with
      | .error e => (s, .error e)
      | .ok s => s.storeAll lessons

/-- The retired lessons of the user, stored as live. -/
def repromoteRetiredUserMemories (s : Store) : Store × Except StoreError Unit :=
  s.storeAll codec embeds ((s.rows.rows.filter fun r =>
      r.columns.author = .user ∧ r.columns.retiredAt.isSome).map
    fun r => { rowToLesson r.columns with retiredAt := none })

def insertMemory (s : Store) (m : MemoryRow) : Except StoreError Store :=
  match writeRecord codec s.files m.lesson with
  | none => .error (.unsafeId m.lesson.id)
  | some files => .ok ⟨replaceRow s.rows ⟨m.lesson.insertedColumns, m.embedded⟩, files⟩

end

/-- The index made anew from the files of a directory; none: reading them throws. -/
def rebuildLibsqlIndex (codec : Codec) (embeds : Lesson → Bool) (readdir : List File) :
    Option (Table Row.id) :=
  (readRecords codec readdir).map fun records => records.foldl (indexLesson embeds) .empty

end Store

/-- The rows that a recall in a scope may return. -/
def eligible (scope : Option String) (c : Columns) : Prop :=
  (c.tier = .shared ∨ (scope.isSome ∧ c.ns = scope)) ∧ c.retiredAt = none

instance (scope : Option String) (c : Columns) : Decidable (eligible scope c) :=
  inferInstanceAs (Decidable (_ ∧ _))

/-! ## Runs -/

/-- A call, with the answers of the embedder and the reading of the clock it gets. -/
inductive Op
  | storeLesson (lesson : Lesson) (embeds : Lesson → Bool)
  | demoteLesson (id : String) (now : { s : String // s ≠ "" }) (embeds : Lesson → Bool)
  | deleteLesson (id : String) (force : Bool)
  | sweepRetired (cutoff : String)
  | repromoteRetiredUserMemories (embeds : Lesson → Bool)
  | insertMemory (m : MemoryRow)

/-- The store after a call, whether it returns or throws. -/
def Store.call (codec : Codec) (s : Store) : Op → Store
  | .storeLesson lesson embeds => (s.storeLesson codec embeds lesson).toOption.getD s
  | .demoteLesson id now embeds => (s.demoteLesson codec embeds id now).toOption.getD s
  | .deleteLesson id force => (s.deleteLesson id force).1
  | .sweepRetired cutoff => (s.sweepRetired cutoff).1
  | .repromoteRetiredUserMemories embeds => (s.repromoteRetiredUserMemories codec embeds).1
  | .insertMemory m => (s.insertMemory codec m).toOption.getD s

def step (codec : Codec) (s : Store) (op : Op) : Option Store := some (s.call codec op)

end Opensquid.Rag.Memory
