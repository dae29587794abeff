import Opensquid.Lib.BlockYaml
import Opensquid.Rag.MemoryStore
import Mathlib.Data.List.Perm.Basic

/-!
# The index of the memory files

The table can be made anew from the files where every row is what is read of its file. A
record holds neither tier nor namespace, nor the durability `durable`, and an empty
`retired_at` is not written; the insert of `insertMemory` leaves out `retired_at`. With the
lessons that this would change left out, the files hold the table over every run
(`memory_rebuilds`).
-/

namespace Opensquid.Rag.Memory

open Opensquid.Lib Opensquid.Lib.FrontMatter Opensquid.Storage

variable {codec : Codec}

/-! ## Reading a record -/

/-- What is read of the record of a lesson. -/
def Lesson.recorded (lesson : Lesson) : Lesson :=
  { lesson with
    derivedFrom := lesson.derivedFrom.filter fun ids => ids ≠ []
    consumedByUserLessons := lesson.consumedByUserLessons.filter fun n => n ≠ 0
    tier := none
    ns := none
    retiredAt := truthy lesson.retiredAt
    durability := lesson.durability.filter fun d => d = .pointInTime }

def frontmatterKeys : List String :=
  ["id", "tags", "source", "author", "created_at", "derived_from", "consumed_by_user_lessons",
    "retired_at", "durability"]

theorem frontmatter_keys (lesson : Lesson) :
    ((frontmatter lesson).map Prod.fst).Sublist frontmatterKeys := by
  simp only [frontmatter, List.map_append]
  have optional := Value.keys_optional_sublist
  exact ((((List.Sublist.refl _).append (optional _ _)).append (optional _ _)).append
    (optional _ _)).append (optional _ _)

theorem wf_frontmatter (lesson : Lesson) : (Value.map (frontmatter lesson)).Wf := by
  have wf : ∀ {α : Type} (key : String) (v : Option α) (f : α → Value), (∀ a, (f a).Wf) →
      Value.WfFields (Value.optional key (v.map f)) := fun key v f each =>
    Value.wf_optional fun w here => by
      obtain ⟨a, _, rfl⟩ := Option.map_eq_some_iff.mp here
      exact each a
  refine ⟨(frontmatter_keys lesson).nodup (by decide), ?_⟩
  simp only [frontmatter, Value.wfFields_append]
  refine ⟨⟨⟨⟨⟨trivial, Value.wf_strings _, trivial, trivial, trivial, trivial⟩, ?_⟩, ?_⟩, ?_⟩, ?_⟩
  · exact wf _ _ _ Value.wf_strings
  · exact wf _ _ _ fun _ => trivial
  · exact wf _ _ _ fun _ => trivial
  · exact wf _ _ _ fun _ => trivial

theorem durability_read (d : Option Durability) :
    (((d.filter fun d => d = .pointInTime).map fun d => Value.str d.text).bind Value.string?).bind
      Durability.ofText? = d.filter fun d => d = .pointInTime := by
  cases d with
  | none => rfl
  | some d => cases d <;> decide

theorem ofFrontmatter_frontmatter (name : String) (lesson : Lesson) :
    ofFrontmatter name (.map (frontmatter lesson)) lesson.content = lesson.recorded := by
  have durability := durability_read lesson.durability
  simp only [ofFrontmatter, frontmatter, Lesson.recorded, truthy]
  simp [ofText_text, durability]

theorem readRecord_recordFile (id : String) (lesson : Lesson) :
    readRecord codec (recordFile codec id lesson) = .record lesson.recorded := by
  rw [readRecord, recordFile, unfence_fence (codec.header _)]
  dsimp only
  rw [codec.parse_stringify _ (wf_frontmatter lesson)]
  dsimp only
  rw [String.ofList_toList, ofFrontmatter_frontmatter]

/-- The lesson of a file. -/
def File.lesson (codec : Codec) (f : File) : Option Lesson :=
  match readRecord codec f with
  | .record lesson => some lesson
  | .skipped | .failed => none

theorem lesson_recordFile (id : String) (lesson : Lesson) :
    (recordFile codec id lesson).lesson codec = some lesson.recorded := by
  rw [File.lesson, readRecord_recordFile]

theorem readRecords_eq {files : List File} (names : ∀ f ∈ files, isRecordName f.name = true)
    (read : ∀ f ∈ files, ∃ lesson, f.lesson codec = some lesson) :
    readRecords codec files = some (files.filterMap (File.lesson codec)) := by
  induction files with
  | nil => rfl
  | cons f files ih =>
      obtain ⟨lesson, here⟩ := read f List.mem_cons_self
      have rest := ih (fun g mem => names g (List.mem_cons_of_mem _ mem))
        fun g mem => read g (List.mem_cons_of_mem _ mem)
      rw [readRecords, if_pos (names f List.mem_cons_self), List.filterMap_cons, here]
      rw [File.lesson] at here
      cases outcome : readRecord codec f with
      | record known =>
          rw [outcome] at here
          cases here
          dsimp only
          rw [rest, Option.map_some]
      | skipped | failed =>
          rw [outcome] at here
          cases here

/-! ## Indexing -/

theorem get_replaceRow_self {rows : Table Row.id} {r : Row} :
    (Store.replaceRow rows r).get r.id = some r := Table.get_add_self

theorem get_replaceRow_of_ne {rows : Table Row.id} {r : Row} {id : String} (other : id ≠ r.id) :
    (Store.replaceRow rows r).get id = rows.get id :=
  (Table.get_add_of_ne other).trans (Table.get_delete_of_ne other)

theorem mem_replaceRow {rows : Table Row.id} {r x : Row} :
    x ∈ (Store.replaceRow rows r).rows ↔ x = r ∨ x ∈ rows.rows ∧ x.id ≠ r.id := by
  rw [Store.replaceRow, Table.add, List.mem_append, Table.mem_delete, List.mem_singleton, or_comm]

theorem rows_replaceRow {rows : Table Row.id} {r : Row} (new : rows.get r.id = none) :
    (Store.replaceRow rows r).rows = rows.rows ++ [r] := by
  have apart : ∀ x ∈ rows.rows, decide (x.id ≠ r.id) = true := fun x mem =>
    decide_eq_true (Table.get_eq_none_iff.mp new x mem)
  exact congrArg (· ++ [r]) (List.filter_eq_self.mpr apart)

/-- Records of different ids are inserted one after the other. -/
theorem columns_index {embeds : Lesson → Bool} {records : List Lesson} {rows : Table Row.id}
    (distinct : ((rows.rows.map Row.columns ++ records.map Lesson.columns).map Columns.id).Nodup) :
    ((records.foldl (Store.indexLesson embeds) rows).rows.map Row.columns) =
      rows.rows.map Row.columns ++ records.map Lesson.columns := by
  induction records generalizing rows with
  | nil => rw [List.map_nil, List.append_nil, List.foldl_nil]
  | cons lesson records ih =>
      have new : rows.get lesson.id = none := Table.get_eq_none_iff.mpr fun x mem same => by
        rw [List.map_append, List.nodup_append] at distinct
        exact distinct.2.2 x.id (List.mem_map_of_mem (List.mem_map_of_mem mem)) lesson.id
          (List.mem_map_of_mem (List.mem_map_of_mem List.mem_cons_self)) same
      have step : (Store.indexLesson embeds rows lesson).rows =
          rows.rows ++ [⟨lesson.columns, embeds lesson⟩] := by
        have changed : ¬ Store.unchanged rows lesson := fun ⟨_, here, _⟩ => by
          cases new.symm.trans here
        rw [Store.indexLesson, if_neg changed]
        exact rows_replaceRow new
      have columns : (Store.indexLesson embeds rows lesson).rows.map Row.columns ++
          records.map Lesson.columns =
          rows.rows.map Row.columns ++ (lesson :: records).map Lesson.columns := by
        rw [step, List.map_append, List.append_assoc]
        rfl
      rw [List.foldl_cons, ih (columns.symm ▸ distinct), columns]

/-- The rows are the same but for the embeddings. -/
def Alike (a b : Table Row.id) : Prop := (a.rows.map Row.columns).Perm (b.rows.map Row.columns)

/-- The table can be rebuilt from the files, up to the embeddings. -/
def Rebuilds (codec : Codec) (s : Store) : Prop :=
  ∀ readdir embeds, readdir.Perm s.files.rows →
    ∃ rows, Store.rebuildLibsqlIndex codec embeds readdir = some rows ∧ Alike rows s.rows

/-- What a recall may return is the same in both tables. -/
theorem Alike.eligible {a b : Table Row.id} (alike : Alike a b) (scope : Option String) :
    ((a.rows.map Row.columns).filter fun c => eligible scope c).Perm
      ((b.rows.map Row.columns).filter fun c => eligible scope c) := alike.filter _

/-! ## The files of the rows -/

/-- Columns that a record can hold. -/
structure Serialized (c : Columns) : Prop where
  tier : c.tier = .shared
  ns : c.ns = none
  durability : c.durability ≠ some .durable
  retiredAt : c.retiredAt ≠ some ""

/-- The files are those of the rows. -/
structure Filed (codec : Codec) (s : Store) : Prop where
  row (r : Row) : r ∈ s.rows.rows → safeRecordId r.id = some r.id ∧ Serialized r.columns ∧
    ∃ f, s.files.get (recordName r.id) = some f ∧
      ∃ lesson, f.lesson codec = some lesson ∧ lesson.columns = r.columns
  file (f : File) : f ∈ s.files.rows → ∃ r ∈ s.rows.rows, f.name = recordName r.id

theorem filed_empty : Filed codec .empty where
  row r mem := by cases mem
  file f mem := by cases mem

theorem Filed.rebuilds {s : Store} (filed : Filed codec s) : Rebuilds codec s := by
  intro readdir embeds perm
  have names : ∀ f ∈ readdir, isRecordName f.name = true := fun f mem => by
    obtain ⟨r, -, name⟩ := filed.file f (perm.mem_iff.mp mem)
    rw [name]
    exact isRecordName_recordName r.id
  have read : ∀ f ∈ readdir, ∃ lesson, f.lesson codec = some lesson := fun f mem => by
    have here := perm.mem_iff.mp mem
    obtain ⟨r, known, name⟩ := filed.file f here
    obtain ⟨-, -, f', there, lesson, found, -⟩ := filed.row r known
    rw [← name, Table.mem_rows_iff.mp here] at there
    cases there
    exact ⟨lesson, found⟩
  have distinct : ((s.rows.rows.map Row.columns).map Columns.id).Nodup := by
    rw [List.map_map]
    exact s.rows.distinct
  have records : ((readdir.filterMap (File.lesson codec)).map Lesson.columns).Perm
      (s.rows.rows.map Row.columns) := by
    rw [List.map_filterMap]
    refine (perm.filterMap _).trans (Table.filterMap_perm distinct.of_map
      (fun c => recordName c.id) (fun c mem => ?_) fun f mem => ?_)
    · obtain ⟨r, known, rfl⟩ := List.mem_map.mp mem
      obtain ⟨-, -, f, there, lesson, found, same⟩ := filed.row r known
      exact ⟨f, there, by rw [found, Option.map_some, same]⟩
    · obtain ⟨r, known, name⟩ := filed.file f mem
      exact ⟨r.columns, List.mem_map_of_mem known, name⟩
  refine ⟨_, by rw [Store.rebuildLibsqlIndex, readRecords_eq names read, Option.map_some], ?_⟩
  have ids : (((Table.empty : Table Row.id).rows.map Row.columns ++
      (readdir.filterMap (File.lesson codec)).map Lesson.columns).map Columns.id).Nodup :=
    (records.map _).nodup_iff.mpr distinct
  rw [Alike, columns_index ids]
  exact records

/-! ## One call -/

/-- A row and its file are written. -/
theorem Filed.written {s : Store} (filed : Filed codec s) {c : Columns} {e : Bool}
    {files : Table File.name} {f : File} {lesson : Lesson} (safe : safeRecordId c.id = some c.id)
    (serialized : Serialized c) (there : files.get (recordName c.id) = some f)
    (found : f.lesson codec = some lesson) (same : lesson.columns = c)
    (others : ∀ name, name ≠ recordName c.id → files.get name = s.files.get name) :
    Filed codec ⟨Store.replaceRow s.rows ⟨c, e⟩, files⟩ where
  row r mem := by
    rcases mem_replaceRow.mp mem with rfl | ⟨old, other⟩
    · exact ⟨safe, serialized, f, there, lesson, found, same⟩
    · obtain ⟨safe', serialized', f', there', held⟩ := filed.row r old
      have apart : recordName r.id ≠ recordName c.id := fun name => other (recordName_injective name)
      exact ⟨safe', serialized', f', (others _ apart).trans there', held⟩
  file g mem := by
    by_cases named : g.name = recordName c.id
    · exact ⟨⟨c, e⟩, mem_replaceRow.mpr (.inl rfl), named⟩
    · have old := (others _ named).symm.trans (Table.mem_rows_iff.mp mem)
      obtain ⟨r, known, name⟩ := filed.file g (Table.mem_of_get old)
      have other : r.id ≠ c.id := fun ids => named (name.trans (congrArg recordName ids))
      exact ⟨r, mem_replaceRow.mpr (.inr ⟨known, other⟩), name⟩

theorem Filed.deleted {s : Store} (filed : Filed codec s) (id : String) :
    Filed codec ⟨s.rows.delete id, s.files.delete (recordName id)⟩ where
  row r mem := by
    obtain ⟨old, other⟩ := Table.mem_delete.mp mem
    obtain ⟨safe, serialized, f, there, held⟩ := filed.row r old
    have apart : recordName r.id ≠ recordName id := fun name => other (recordName_injective name)
    exact ⟨safe, serialized, f, (Table.get_delete_of_ne apart).trans there, held⟩
  file f mem := by
    obtain ⟨old, other⟩ := Table.mem_delete.mp mem
    obtain ⟨r, known, name⟩ := filed.file f old
    have apart : r.id ≠ id := fun ids => other (name.trans (congrArg recordName ids))
    exact ⟨r, Table.mem_delete.mpr ⟨known, apart⟩, name⟩

theorem writeRecord_eq_some {files files' : Table File.name} {lesson : Lesson}
    (written : writeRecord codec files lesson = some files') :
    safeRecordId lesson.id = some lesson.id ∧ files' = files.put (recordFile codec lesson.id lesson) := by
  obtain ⟨id, safe, rfl⟩ := Option.map_eq_some_iff.mp written
  obtain rfl := eq_of_safeRecordId safe
  exact ⟨safe, rfl⟩

theorem serialized_recorded (lesson : Lesson) : Serialized lesson.recorded.columns where
  tier := rfl
  ns := rfl
  durability := by
    rintro same
    exact absurd (of_decide_eq_true (Option.filter_eq_some_iff.mp same).2) (by decide)
  retiredAt := by
    rintro same
    exact of_decide_eq_true (Option.filter_eq_some_iff.mp same).2 rfl

/-- A record is written and the row it is read as. -/
theorem Filed.recorded {s : Store} (filed : Filed codec s) {lesson : Lesson} {e : Bool}
    {files : Table File.name} (written : writeRecord codec s.files lesson = some files) :
    Filed codec ⟨Store.replaceRow s.rows ⟨lesson.recorded.columns, e⟩, files⟩ := by
  obtain ⟨safe, rfl⟩ := writeRecord_eq_some written
  exact filed.written safe (serialized_recorded lesson) Table.get_put_self
    (lesson_recordFile lesson.id lesson) rfl fun name other => Table.get_put_of_ne other

theorem getD_filter_ne {α : Type} [DecidableEq α] (v : Option α) (d : α) :
    (v.filter fun x => x ≠ d).getD d = v.getD d := by
  cases v with
  | none => rfl
  | some x => by_cases same : x = d <;> simp [Option.filter, same]

theorem recorded_columns (lesson : Lesson) :
    lesson.recorded.columns =
      { lesson.columns with
        tier := .shared
        ns := none
        retiredAt := truthy lesson.retiredAt
        durability := lesson.durability.filter fun d => d = .pointInTime } := by
  have derived := getD_filter_ne lesson.derivedFrom []
  have consumed := getD_filter_ne lesson.consumedByUserLessons 0
  simp only [Lesson.columns, Lesson.recorded]
  rw [derived, consumed]
  rfl

theorem filter_pointInTime {d : Option Durability} (other : d ≠ some .durable) :
    (d.filter fun d => d = .pointInTime) = d := by
  cases d with
  | none => rfl
  | some d =>
      cases d with
      | durable => exact absurd rfl other
      | pointInTime => rfl

theorem truthy_of_ne {text : Option String} (other : text ≠ some "") : truthy text = text := by
  cases text with
  | none => rfl
  | some s => simpa [truthy, Option.filter] using other

/-- The columns that a record keeps are those of its lesson. -/
theorem recorded_columns_eq_iff {lesson : Lesson} :
    lesson.recorded.columns = lesson.columns ↔ Serialized lesson.columns := by
  constructor
  · intro same
    rw [← same]
    exact serialized_recorded lesson
  · rintro ⟨tier, ns, durability, retiredAt⟩
    rw [recorded_columns]
    exact Columns.ext rfl rfl rfl rfl rfl rfl rfl rfl tier.symm ns.symm (truthy_of_ne retiredAt)
      (filter_pointInTime durability)

/-- The columns that a record keeps are those that `insertMemory` inserts. -/
theorem recorded_columns_eq_inserted_iff {lesson : Lesson} :
    lesson.recorded.columns = lesson.insertedColumns ↔
      Serialized lesson.insertedColumns ∧ truthy lesson.retiredAt = none := by
  constructor
  · intro same
    refine ⟨same ▸ serialized_recorded lesson, congrArg Columns.retiredAt same⟩
  · rintro ⟨⟨tier, ns, durability, -⟩, live⟩
    rw [recorded_columns]
    exact Columns.ext rfl rfl rfl rfl rfl rfl rfl rfl tier.symm ns.symm live
      (filter_pointInTime durability)

/-- The row that is written against the one that is read of its file. -/
theorem Filed.rebuilds_recorded_iff {s : Store} (filed : Filed codec s) {lesson : Lesson}
    {c : Columns} {e : Bool} {files : Table File.name} (id : c.id = lesson.id)
    (written : writeRecord codec s.files lesson = some files) :
    Rebuilds codec ⟨Store.replaceRow s.rows ⟨c, e⟩, files⟩ ↔ lesson.recorded.columns = c := by
  have held := filed.recorded (e := e) written
  constructor
  · intro rebuilds
    obtain ⟨rows, built, alike⟩ := rebuilds files.rows (fun _ => e) (.refl _)
    obtain ⟨rows', built', alike'⟩ := held.rebuilds files.rows (fun _ => e) (.refl _)
    cases built.symm.trans built'
    -- the row of the file is one of the rows, and it has the id of the new one
    have mem : lesson.recorded.columns ∈ (Store.replaceRow s.rows ⟨c, e⟩).rows.map Row.columns :=
      (alike.symm.trans alike').mem_iff.mpr
        (List.mem_map.mpr ⟨_, mem_replaceRow.mpr (.inl rfl), rfl⟩)
    obtain ⟨r, known, same⟩ := List.mem_map.mp mem
    rcases mem_replaceRow.mp known with rfl | ⟨-, other⟩
    · exact same.symm
    · exact absurd ((congrArg Columns.id same).trans id.symm) other
  · rintro rfl
    exact held.rebuilds

/-! ## Runs -/

/-- What a call stores has the scope of every project, no durability `durable` and, where it
is retired, a time; `insertMemory` stores what is not retired. -/
def Kept (_ : Store) : Op → Prop
  | .storeLesson lesson _ => Serialized lesson.columns
  | .insertMemory m =>
      Serialized m.lesson.insertedColumns ∧ truthy m.lesson.retiredAt = none
  | _ => True

theorem Filed.storeLesson {s t : Store} (filed : Filed codec s) {lesson : Lesson}
    {embeds : Lesson → Bool} (serialized : Serialized lesson.columns)
    (done : s.storeLesson codec embeds lesson = .ok t) : Filed codec t := by
  rw [Store.storeLesson] at done
  split at done
  · cases done
    exact filed
  · split at done
    · cases done
    · rename_i written
      cases done
      rw [← recorded_columns_eq_iff.mpr serialized]
      exact filed.recorded written

theorem Filed.deleteLesson {s : Store} (filed : Filed codec s) (id : String) (force : Bool) :
    Filed codec (s.deleteLesson id force).1 := by
  rw [Store.deleteLesson]
  split
  · exact filed
  · rename_i r present
    have ids : r.id = id := Table.key_of_get present
    have safe : safeRecordId id = some id := ids ▸ (filed.row r (Table.mem_of_get present)).1
    dsimp only
    split
    · exact filed
    · rw [deleteRecord, safe, Option.map_some]
      exact filed.deleted id

theorem Filed.deleteAll {s : Store} (filed : Filed codec s) (ids : List String) :
    Filed codec (s.deleteAll ids).1 := by
  induction ids generalizing s with
  | nil => exact filed
  | cons id ids ih =>
      have next := filed.deleteLesson id true
      rw [Store.deleteAll]
      split
      · rename_i outcome
        rw [outcome] at next
        exact next
      · rename_i outcome
        rw [outcome] at next
        exact ih next

theorem Filed.storeAll {s : Store} (filed : Filed codec s) {embeds : Lesson → Bool}
    {lessons : List Lesson} (serialized : ∀ lesson ∈ lessons, Serialized lesson.columns) :
    Filed codec (s.storeAll codec embeds lessons).1 := by
  induction lessons generalizing s with
  | nil => exact filed
  | cons lesson lessons ih =>
      rw [Store.storeAll]
      split
      · exact filed
      · rename_i done
        exact ih (filed.storeLesson (serialized lesson List.mem_cons_self) done)
          fun l mem => serialized l (List.mem_cons_of_mem _ mem)

/-- A row that is read and stored with another time of its retirement. -/
theorem serialized_rowToLesson {c : Columns} (serialized : Serialized c) {retiredAt : Option String}
    (time : retiredAt ≠ some "") :
    Serialized { rowToLesson c with retiredAt := retiredAt }.columns :=
  ⟨serialized.tier, serialized.ns, serialized.durability, time⟩

theorem Filed.getD {s : Store} (filed : Filed codec s) {outcome : Except StoreError Store}
    (kept : ∀ t, outcome = .ok t → Filed codec t) : Filed codec (outcome.toOption.getD s) := by
  cases outcome with
  | error e => exact filed
  | ok t => exact kept t rfl

theorem Filed.call {s : Store} (filed : Filed codec s) {op : Op} (kept : Kept s op) :
    Filed codec (s.call codec op) := by
  cases op with
  | storeLesson lesson embeds => exact filed.getD fun t done => filed.storeLesson kept done
  | demoteLesson id now embeds =>
      refine filed.getD fun t done => ?_
      rw [Store.demoteLesson] at done
      split at done
      · cases done
        exact filed
      · rename_i r present
        dsimp only at done
        split at done
        · cases done
          exact filed
        · have serialized := (filed.row r (Table.mem_of_get present)).2.1
          have time : some now.val ≠ some "" := fun same => now.property (Option.some.inj same)
          exact filed.storeLesson (serialized_rowToLesson serialized time) done
  | deleteLesson id force => exact filed.deleteLesson id force
  | sweepRetired cutoff => exact filed.deleteAll _
  | repromoteRetiredUserMemories embeds =>
      refine filed.storeAll fun lesson mem => ?_
      obtain ⟨r, known, rfl⟩ := List.mem_map.mp mem
      have serialized := (filed.row r (List.mem_of_mem_filter known)).2.1
      exact serialized_rowToLesson serialized fun none => by cases none
  | insertMemory m =>
      refine filed.getD fun t done => ?_
      rw [Store.insertMemory] at done
      split at done
      · cases done
      · rename_i written
        cases done
        rw [← recorded_columns_eq_inserted_iff.mpr kept]
        exact filed.recorded written

/-- A lesson that is stored leaves files that rebuild the table exactly when a record holds it. -/
theorem Filed.storeLesson_iff {s t : Store} (filed : Filed codec s) {lesson : Lesson}
    {embeds : Lesson → Bool} (done : s.storeLesson codec embeds lesson = .ok t) :
    Rebuilds codec t ↔ Serialized lesson.columns := by
  refine ⟨fun rebuilds => ?_, fun serialized => (filed.storeLesson serialized done).rebuilds⟩
  rw [Store.storeLesson] at done
  split at done
  · rename_i same
    obtain ⟨r, present, -, columns⟩ := same
    exact columns ▸ (filed.row r (Table.mem_of_get present)).2.1
  · split at done
    · cases done
    · rename_i written
      cases done
      exact recorded_columns_eq_iff.mp ((filed.rebuilds_recorded_iff rfl written).mp rebuilds)

/-- The same of a memory that is inserted. -/
theorem Filed.insertMemory_iff {s t : Store} (filed : Filed codec s) {m : MemoryRow}
    (done : s.insertMemory codec m = .ok t) : Rebuilds codec t ↔ Kept s (.insertMemory m) := by
  rw [Store.insertMemory] at done
  split at done
  · cases done
  · rename_i written
    cases done
    exact (filed.rebuilds_recorded_iff rfl written).trans recorded_columns_eq_inserted_iff

/-- Where every lesson stored is one that a record holds, the files rebuild the table over
every run, and a recall may return the same rows. -/
theorem memory_rebuilds {s t : Store} (start : Filed codec s) (run : Steps (step codec) Kept s t)
    (readdir : List File) (embeds : Lesson → Bool) (listing : readdir.Perm t.files.rows) :
    ∃ rows, Store.rebuildLibsqlIndex codec embeds readdir = some rows ∧ Alike rows t.rows ∧
      ∀ scope, ((rows.rows.map Row.columns).filter fun c => eligible scope c).Perm
        ((t.rows.rows.map Row.columns).filter fun c => eligible scope c) := by
  have filed : Filed codec t := run.invariant start fun s op t filed kept fire => by
    cases fire
    exact filed.call kept
  obtain ⟨rows, built, alike⟩ := filed.rebuilds readdir embeds listing
  exact ⟨rows, built, alike, alike.eligible⟩

/-! ## Two lessons -/

def deployNote : Lesson where
  id := "mem-1"
  content := "Deploy on Tuesdays."
  tags := ["deploy"]
  source := "memory"
  author := .agent
  createdAt := "2026-01-01T00:00:00.000Z"
  derivedFrom := none
  consumedByUserLessons := none
  tier := none
  ns := none
  retiredAt := none
  durability := some .pointInTime

/-- The same in the namespace of a project. -/
def projectNote : Lesson := { deployNote with tier := some .project, ns := some "site" }

def storeDeploy : Op := .storeLesson deployNote fun _ => true

def demoteDeploy : Op :=
  .demoteLesson "mem-1" ⟨"2026-01-02T00:00:00.000Z", by decide⟩ fun _ => true

def storeProject : Op := .storeLesson projectNote fun _ => true

theorem memory_rebuilds_deploy : ∃ (t : Store) (rows : Table Row.id),
    (t.rows.get "mem-1").isSome ∧
    Store.rebuildLibsqlIndex BlockYaml.codec (fun _ => true) t.files.rows = some rows ∧
    Alike rows t.rows := by
  have kept : Kept Store.empty storeDeploy := by constructor <;> decide
  have stored : Steps (step BlockYaml.codec) Kept .empty (Store.empty.call BlockYaml.codec storeDeploy) :=
    .tail (e := storeDeploy) .refl kept rfl
  have run := stored.tail (e := demoteDeploy) trivial rfl
  obtain ⟨rows, built, alike, -⟩ := memory_rebuilds filed_empty run _ (fun _ => true) (.refl _)
  exact ⟨_, rows, by decide +kernel, built, alike⟩

/-- A rebuild forgets the namespace of a project's lesson. -/
theorem project_note_forgotten :
    ∃ t, Steps (step BlockYaml.codec) AnyStep .empty t ∧ ¬ Rebuilds BlockYaml.codec t := by
  refine ⟨Store.empty.call BlockYaml.codec storeProject, .tail (e := storeProject) .refl trivial rfl,
    fun rebuilds => ?_⟩
  have done : Store.empty.storeLesson BlockYaml.codec (fun _ => true) projectNote =
      .ok (Store.empty.call BlockYaml.codec storeProject) := rfl
  have serialized := (filed_empty.storeLesson_iff done).mp rebuilds
  exact absurd serialized.tier (by decide)

end Opensquid.Rag.Memory
