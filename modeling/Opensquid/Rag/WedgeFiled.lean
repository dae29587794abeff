import Opensquid.Lib.BlockYaml
import Opensquid.Lib.Lists
import Opensquid.Rag.WedgeStore
import Mathlib.Data.List.Pairwise
import Mathlib.Data.List.Perm.Basic

/-!
# One file a lesson

The status of a lesson is the directory of its file, so an operation that changes the status
has to move the file. `promoteLesson` does. `createLesson` starts the lesson anew as pending
and leaves the file of a lesson that has gone further where it is; with the creations of
such lessons left out, the files hold the table over every run (`filed_of_run`).
-/

namespace Opensquid.Rag.Wedge

open Opensquid.Lib Opensquid.Lib.FrontMatter Opensquid.Storage

variable {codec : Codec} {digest : String → String} {dateParse : String → Option Int}

/-! ## What the files hold -/

/-- Every row has one file: it lies in the directory of the row's status and holds the row. -/
def OneFileEach (codec : Codec) (s : Store) : Prop :=
  ∀ r ∈ s.rows.rows, ∃ f ∈ s.files.rows, f.dir = r.status ∧
    readWedgeRecord codec f.dir f.text = some r ∧
    ∀ g ∈ s.files.rows, g.name = recordName r.id ↔ g = f

/-- The directories list their files, in any order. -/
def Listing (files : Table File.path) (readdir : LessonStatus → List File) : Prop :=
  ∀ status, (readdir status).Perm (files.rows.filter fun f => f.dir = status)

/-- The table can be rebuilt from the files. -/
def Rebuilds (codec : Codec) (s : Store) : Prop :=
  ∀ readdir, Listing s.files readdir → ∃ rows, Store.rebuild (readWedgeRecords codec readdir) = some rows ∧
    rows.rows.Perm s.rows.rows

/-- The files are those of the rows. -/
structure Filed (codec : Codec) (s : Store) : Prop where
  row (r : WedgeLesson) : s.rows.get r.id = some r → ∃ f,
    s.files.get (r.status, recordName r.id) = some f ∧ readWedgeRecord codec f.dir f.text = some r
  file (f : File) : f ∈ s.files.rows → ∃ r, s.rows.get r.id = some r ∧
    f.path = (r.status, recordName r.id)

theorem filed_empty : Filed codec .empty where
  row r present := by cases present
  file f mem := by cases mem

theorem Filed.oneFileEach {s : Store} (filed : Filed codec s) : OneFileEach codec s := by
  intro r mem
  obtain ⟨f, there, holds⟩ := filed.row r (Table.mem_rows_iff.mp mem)
  obtain ⟨mem, path⟩ := Table.get_eq_some_iff.mp there
  refine ⟨f, mem, congrArg Prod.fst path, holds, fun g inside => ⟨fun name => ?_, fun same => ?_⟩⟩
  · obtain ⟨r', present, path'⟩ := filed.file g inside
    have ids : r.id = r'.id := recordName_injective (name.symm.trans (congrArg Prod.snd path'))
    rw [← ids] at present path'
    cases present.symm.trans (Table.mem_rows_iff.mp ‹r ∈ s.rows.rows›)
    have here := Table.mem_rows_iff.mp inside
    rw [path', there] at here
    exact (Option.some.inj here).symm
  · rw [same]
    exact congrArg Prod.snd path

/-! ## Rebuilding -/

/-- The lesson of a file. -/
def File.lesson (codec : Codec) (f : File) : Option WedgeLesson := readWedgeRecord codec f.dir f.text

theorem readWedgeRecords_perm {files : Table File.path} {readdir : LessonStatus → List File}
    (listing : Listing files readdir) (names : ∀ f ∈ files.rows, isRecordName f.name = true) :
    (readWedgeRecords codec readdir).Perm (files.rows.filterMap (File.lesson codec)) := by
  have dirs : readWedgeRecords codec readdir =
      (statusDirs.flatMap readdir).filterMap (File.lesson codec) := by
    rw [List.filterMap_flatMap, readWedgeRecords]
    refine List.flatMap_congr fun status _ => ?_
    have inside : ∀ f ∈ readdir status, f ∈ files.rows ∧ f.dir = status := fun f mem => by
      simpa using (listing status).mem_iff.mp mem
    rw [List.filter_eq_self.mpr fun f mem => names f (inside f mem).1]
    refine List.filterMap_congr fun f mem => ?_
    rw [File.lesson, (inside f mem).2]
  rw [dirs]
  have all : (statusDirs.flatMap readdir).Perm
      (statusDirs.flatMap fun status => files.rows.filter fun f => f.dir = status) :=
    List.Perm.flatMap_left _ fun status _ => listing status
  exact (all.trans (flatMap_filter_perm (by decide) File.dir files.rows
    fun f _ => mem_statusDirs f.dir)).filterMap _

theorem Filed.names {s : Store} (filed : Filed codec s) {f : File} (mem : f ∈ s.files.rows) :
    isRecordName f.name = true := by
  obtain ⟨r, -, path⟩ := filed.file f mem
  rw [show f.name = recordName r.id from congrArg Prod.snd path]
  exact isRecordName_recordName r.id

theorem Filed.records_perm {s : Store} (filed : Filed codec s) {readdir : LessonStatus → List File}
    (listing : Listing s.files readdir) :
    (readWedgeRecords codec readdir).Perm (s.files.rows.filterMap (File.lesson codec)) :=
  readWedgeRecords_perm listing fun _ mem => filed.names mem

theorem Filed.rebuilds {s : Store} (filed : Filed codec s) : Rebuilds codec s := by
  intro readdir listing
  have read := filed.records_perm listing
  have rows : (s.files.rows.filterMap (File.lesson codec)).Perm s.rows.rows := by
    refine Table.filterMap_perm s.rows.distinct.of_map (fun r => (r.status, recordName r.id))
      (fun r mem => filed.row r (Table.mem_rows_iff.mp mem)) fun f mem => ?_
    obtain ⟨r, present, path⟩ := filed.file f mem
    exact ⟨r, Table.mem_of_get present, path⟩
  have perm := read.trans rows
  have ids : ((readWedgeRecords codec readdir).map WedgeLesson.id).Nodup :=
    (perm.map _).nodup_iff.mpr s.rows.distinct
  obtain ⟨table, built⟩ := Table.exists_insertAll (t := (.empty : Table WedgeLesson.id)) ids
  refine ⟨table, built, ?_⟩
  rw [Table.rows_of_insertAll built]
  exact perm

/-! ## One call -/

/-- A lesson as `rowToWedge` returns it. -/
def Normal (r : WedgeLesson) : Prop := r.causalNarrative.map CausalNarrative.normalize = r.causalNarrative

theorem read_recordFile {r : WedgeLesson} (normal : Normal r) :
    readWedgeRecord codec (recordFile codec r.id r).dir (recordFile codec r.id r).text = some r := by
  rw [readWedgeRecord_recordFile, normal]

theorem normal_rowToWedge (row : WedgeLesson) : Normal (rowToWedge row) := by
  unfold Normal rowToWedge
  dsimp only
  rw [Option.map_map]
  exact congrArg (Option.map · row.causalNarrative) (funext CausalNarrative.normalize_normalize)

/-- No file of a lesson lies outside the directory of its status. -/
theorem Filed.get_eq_none {s : Store} (filed : Filed codec s) {id : String} {status : LessonStatus}
    (elsewhere : ∀ r, s.rows.get id = some r → r.status ≠ status) :
    s.files.get (status, recordName id) = none := by
  cases there : s.files.get (status, recordName id) with
  | none => rfl
  | some f =>
      obtain ⟨mem, path⟩ := Table.get_eq_some_iff.mp there
      obtain ⟨r, present, path'⟩ := filed.file f mem
      obtain ⟨dir, name⟩ := Prod.mk.inj (path.symm.trans path')
      rw [← recordName_injective name] at present
      exact absurd dir.symm (elsewhere r present)

theorem get_replaceRow_self {rows : Table WedgeLesson.id} {r : WedgeLesson} :
    (Store.replaceRow rows r).get r.id = some r := Table.get_add_self

theorem get_replaceRow_of_ne {rows : Table WedgeLesson.id} {r : WedgeLesson} {id : String}
    (other : id ≠ r.id) : (Store.replaceRow rows r).get id = rows.get id :=
  (Table.get_add_of_ne other).trans (Table.get_delete_of_ne other)

/-- Writing a row and its file, when no other file of the lesson is left. -/
theorem Filed.written {s : Store} (filed : Filed codec s) {r : WedgeLesson} (normal : Normal r)
    {files : Table File.path}
    (there : files.get (r.status, recordName r.id) = some (recordFile codec r.id r))
    (alone : ∀ status, status ≠ r.status → files.get (status, recordName r.id) = none)
    (others : ∀ path, path.2 ≠ recordName r.id → files.get path = s.files.get path) :
    Filed codec ⟨Store.replaceRow s.rows r, files⟩ where
  row x present := by
    by_cases same : x.id = r.id
    · rw [same, get_replaceRow_self] at present
      cases present
      exact ⟨_, there, read_recordFile normal⟩
    · rw [get_replaceRow_of_ne same] at present
      obtain ⟨f, old, holds⟩ := filed.row x present
      exact ⟨f, (others _ fun name => same (recordName_injective name)).trans old, holds⟩
  file f mem := by
    have here : files.get f.path = some f := Table.mem_rows_iff.mp mem
    by_cases named : f.name = recordName r.id
    · refine ⟨r, get_replaceRow_self, ?_⟩
      by_cases dir : f.dir = r.status
      · exact Prod.ext dir named
      · have gone := alone f.dir dir
        rw [← named] at gone
        cases gone.symm.trans here
    · have old := (others f.path named).symm.trans here
      obtain ⟨x, present, path⟩ := filed.file f (Table.mem_of_get old)
      have other : x.id ≠ r.id := fun same => named (same ▸ congrArg Prod.snd path)
      exact ⟨x, (get_replaceRow_of_ne other).trans present, path⟩

theorem upsert_eq_ok {s t : Store} {r : WedgeLesson} (done : s.upsert codec r = .ok t) :
    safeRecordId r.id = some r.id ∧
      t = ⟨Store.replaceRow s.rows r, s.files.put (recordFile codec r.id r)⟩ := by
  rw [Store.upsert, writeWedgeRecord] at done
  cases safe : safeRecordId r.id with
  | none =>
      rw [safe] at done
      cases done
  | some id =>
      rw [safe] at done
      cases done
      rw [eq_of_safeRecordId safe]
      exact ⟨rfl, rfl⟩

theorem upsert_of_safe (codec : Codec) {s : Store} {r : WedgeLesson} (safe : safeRecordId r.id = some r.id) :
    s.upsert codec r = .ok ⟨Store.replaceRow s.rows r, s.files.put (recordFile codec r.id r)⟩ := by
  rw [Store.upsert, writeWedgeRecord, safe]
  rfl

/-- A row is replaced in its status. -/
theorem Filed.upsert {s t : Store} (filed : Filed codec s) {r : WedgeLesson}
    (done : s.upsert codec r = .ok t) (normal : Normal r)
    (stays : ∀ x, s.rows.get r.id = some x → x.status = r.status) : Filed codec t := by
  obtain ⟨-, rfl⟩ := upsert_eq_ok done
  refine filed.written normal Table.get_put_self (fun status other => ?_) fun path other => ?_
  · rw [Table.get_put_of_ne fun same => other (congrArg Prod.fst same)]
    exact filed.get_eq_none fun x present same => other (same.symm.trans (stays x present))
  · exact Table.get_put_of_ne fun same => other (congrArg Prod.snd same)

theorem read_eq_ok {s : Store} {id : String} {row : WedgeLesson} (done : s.read id = .ok row) :
    ∃ old, s.rows.get id = some old ∧ row = rowToWedge old := by
  rw [Store.read] at done
  cases present : s.rows.get id with
  | none =>
      rw [present] at done
      cases done
  | some old =>
      rw [present] at done
      cases done
      exact ⟨old, rfl, rfl⟩

/-- A lesson that was read is replaced with its status kept. -/
theorem Filed.upsert_read {s t : Store} (filed : Filed codec s) {id : String} {row r : WedgeLesson}
    (found : s.read id = .ok row) (done : s.upsert codec r = .ok t) (same : r.id = row.id)
    (status : r.status = row.status) (narrative : r.causalNarrative = row.causalNarrative) :
    Filed codec t := by
  obtain ⟨old, present, rfl⟩ := read_eq_ok found
  have ids : old.id = id := Table.key_of_get present
  refine filed.upsert done ?_ fun x here => ?_
  · rw [Normal, narrative]
    exact normal_rowToWedge old
  · rw [same, show (rowToWedge old).id = id from ids, present] at here
    cases here
    exact status.symm

/-- A row is replaced in another status, and the file of the old status goes. -/
theorem Filed.moved {s : Store} (filed : Filed codec s) (old : WedgeLesson) {r : WedgeLesson}
    (present : s.rows.get r.id = some old) (normal : Normal r) (other : r.status ≠ old.status) :
    Filed codec ⟨Store.replaceRow s.rows r,
      (s.files.put (recordFile codec r.id r)).delete (old.status, recordName r.id)⟩ := by
  refine filed.written normal ?_ (fun status apart => ?_) fun path apart => ?_
  · rw [Table.get_delete_of_ne fun same => other (congrArg Prod.fst same)]
    exact Table.get_put_self
  · by_cases gone : status = old.status
    · rw [gone]
      exact Table.get_delete_self
    · rw [Table.get_delete_of_ne fun same => gone (congrArg Prod.fst same),
        Table.get_put_of_ne fun same => apart (congrArg Prod.fst same)]
      refine filed.get_eq_none fun x here same => gone ?_
      cases here.symm.trans present
      exact same.symm
  · rw [Table.get_delete_of_ne fun same => apart (congrArg Prod.snd same),
      Table.get_put_of_ne fun same => apart (congrArg Prod.snd same)]

theorem bind_eq_ok {ε α β : Type} {x : Except ε α} {f : α → Except ε β} {b : β}
    (done : x >>= f = .ok b) : ∃ a, x = .ok a ∧ f a = .ok b := by
  cases x with
  | error e => cases done
  | ok a => exact ⟨a, rfl, done⟩

theorem Filed.promoteLesson {s t : Store} (filed : Filed codec s) {id now stamp : String}
    (done : s.promoteLesson codec dateParse id now stamp = .ok t) : Filed codec t := by
  obtain ⟨row, found, done⟩ := bind_eq_ok done
  split at done
  · cases done
  · obtain ⟨u, upserted, done⟩ := bind_eq_ok done
    split at done
    · rename_i already
      cases done
      exact filed.upsert_read found upserted rfl already.symm rfl
    · rename_i other
      obtain ⟨old, present, rfl⟩ := read_eq_ok found
      obtain ⟨safe, rfl⟩ := upsert_eq_ok upserted
      obtain rfl : old.id = id := Table.key_of_get present
      have safe : safeRecordId old.id = some old.id := safe
      rw [deleteWedgeRecord, safe] at done
      cases done
      exact filed.moved old present (normal_rowToWedge old) fun same => other same.symm

theorem normal_created (id : String) (input : CreateLessonInput) (createdAt : String) :
    Normal (Store.created id input createdAt) := by
  have same : CausalNarrative.normalize ∘ Store.createdNarrative = Store.createdNarrative :=
    funext fun refs => CausalNarrative.ext rfl
  rw [Normal, Store.created, Option.map_map, same]

/-! ## Runs -/

/-- No lesson that has left the pending status is created again. -/
def Fresh (digest : String → String) (s : Store) : Op → Prop
  | .createLesson input _ =>
      ∀ r, s.rows.get (Store.lessonId digest input) = some r → r.status = .pending
  | _ => True

theorem Filed.call {s t : Store} (filed : Filed codec s) {op : Op} (fresh : Fresh digest s op)
    (done : s.call codec digest dateParse op = .ok t) : Filed codec t := by
  cases op with
  | createLesson input createdAt =>
      exact filed.upsert done (normal_created _ input createdAt) fresh
  | promoteLesson id now stamp => exact filed.promoteLesson done
  | captureFeedback id polarity signalId now =>
      obtain ⟨row, found, done⟩ := bind_eq_ok done
      exact filed.upsert_read found done rfl rfl rfl
  | recordApplied id sessionId lastAppliedAt updatedAt =>
      obtain ⟨row, found, done⟩ := bind_eq_ok done
      exact filed.upsert_read found done rfl rfl rfl

theorem Filed.step {s t : Store} (filed : Filed codec s) {op : Op} (fresh : Fresh digest s op)
    (fire : step codec digest dateParse s op = some t) : Filed codec t := by
  cases outcome : s.call codec digest dateParse op with
  | error e =>
      rw [Wedge.step, outcome] at fire
      cases fire
      exact filed
  | ok u =>
      rw [Wedge.step, outcome] at fire
      cases fire
      exact filed.call fresh outcome

theorem Filed.run {s t : Store} (start : Filed codec s)
    (run : Steps (Wedge.step codec digest dateParse) (Fresh digest) s t) : Filed codec t :=
  run.invariant start fun _ _ _ filed fresh fire => filed.step fresh fire

/-- With no lesson created again after it has left the pending status, every lesson has one
file over every run, and the files rebuild the table. -/
theorem filed_of_run {s t : Store} (start : Filed codec s)
    (run : Steps (step codec digest dateParse) (Fresh digest) s t) :
    OneFileEach codec t ∧ Rebuilds codec t := by
  have filed := start.run run
  exact ⟨filed.oneFileEach, filed.rebuilds⟩

/-- Two files of one lesson cannot be indexed. -/
theorem not_rebuilds {s : Store} (names : ∀ f ∈ s.files.rows, isRecordName f.name = true)
    {f g : File} (memF : f ∈ s.files.rows) (memG : g ∈ s.files.rows) (apart : f ≠ g)
    {a b : WedgeLesson} (readF : f.lesson codec = some a) (readG : g.lesson codec = some b)
    (same : a.id = b.id) : ¬ Rebuilds codec s := by
  intro rebuilds
  have listing : Listing s.files fun status => s.files.rows.filter fun f => f.dir = status :=
    fun status => .refl _
  obtain ⟨table, built, -⟩ := rebuilds _ listing
  have distinct := table.distinct
  rw [Table.rows_of_insertAll built] at distinct
  have ids := ((readWedgeRecords_perm listing names).map WedgeLesson.id).nodup_iff.mp distinct
  have pairs := List.pairwise_filterMap.mp (List.pairwise_map.mp ids)
  have symmetric : Std.Symm fun f g : File => ∀ a, f.lesson codec = some a → ∀ b,
      g.lesson codec = some b → a.id ≠ b.id := ⟨fun _ _ away b readG a readF => (away a readF b readG).symm⟩
  exact pairs.forall memF memG apart a readF b readG same

/-- The file of a lesson that has left the pending status stays where it is. -/
theorem Filed.stale_create {s t : Store} (filed : Filed codec s) {input : CreateLessonInput}
    {createdAt : String} {r : WedgeLesson}
    (present : s.rows.get (Store.lessonId digest input) = some r) (gone : r.status ≠ .pending)
    (done : s.createLesson codec digest input createdAt = .ok t) :
    ¬ OneFileEach codec t ∧ ¬ Rebuilds codec t := by
  have ids : r.id = Store.lessonId digest input := Table.key_of_get present
  obtain ⟨-, rfl⟩ := upsert_eq_ok done
  generalize new : Store.created (Store.lessonId digest input) input createdAt = row
  have id : row.id = r.id := by rw [← new, ids, Store.created]
  have pending : row.status = .pending := by rw [← new, Store.created]
  have normal : Normal row := by rw [← new]; exact normal_created _ input createdAt
  obtain ⟨f, there, holds⟩ := filed.row r (ids.symm ▸ present)
  obtain ⟨memF, path⟩ := Table.get_eq_some_iff.mp there
  -- the files of the two statuses
  have old : f ∈ (s.files.put (recordFile codec row.id row)).rows := by
    refine Table.mem_of_get ((Table.get_put_of_ne fun same => gone ?_).trans there)
    exact (congrArg Prod.fst same).trans pending
  have fresh : recordFile codec row.id row ∈ (s.files.put (recordFile codec row.id row)).rows :=
    Table.mem_of_get Table.get_put_self
  have apart : f ≠ recordFile codec row.id row := fun same => by
    have dir : f.dir = row.status := congrArg File.dir same
    exact gone ((congrArg Prod.fst path).symm.trans (dir.trans pending))
  constructor
  · intro one
    obtain ⟨g, -, -, -, only⟩ := one row (Table.mem_of_get get_replaceRow_self)
    have first := (only f old).mp ((congrArg Prod.snd path).trans (congrArg recordName id.symm))
    have second := (only _ fresh).mp rfl
    exact apart (first.trans second.symm)
  · refine not_rebuilds (fun g mem => ?_) old fresh apart holds (read_recordFile normal) id.symm
    rcases Table.mem_put mem with rfl | before
    · exact isRecordName_recordName row.id
    · exact filed.names before

/-- A call keeps the files exactly when it is not such a creation. -/
theorem Filed.call_iff {s t : Store} (filed : Filed codec s) {op : Op}
    (done : s.call codec digest dateParse op = .ok t) :
    OneFileEach codec t ∧ Rebuilds codec t ↔ Fresh digest s op := by
  constructor
  · rintro ⟨one, -⟩
    cases op with
    | promoteLesson | captureFeedback | recordApplied => trivial
    | createLesson input createdAt =>
        intro r present
        by_contra gone
        exact (filed.stale_create present gone done).1 one
  · intro fresh
    have kept := filed.call fresh done
    exact ⟨kept.oneFileEach, kept.rebuilds⟩

/-! ## A lesson created after its promotion -/

def lockLesson : CreateLessonInput where
  description := "Check the lock"
  body := "A stale lock blocks the run."
  evidenceRefs := some ["run-1"]
  authoredBy := none

def lockDigest (_ : String) : String :=
  "a0073c6d4a9dd0a6a6f6ac6e37892a45da94ac9fa5bde9db6700e8e7ec33837d"

def firstDay : String := "2026-01-01T00:00:00.000Z"

def thirdDay : String := "2026-01-03T00:00:00.000Z"

def sampleDate (text : String) : Option Int :=
  if text = firstDay then some 1767225600000 else if text = thirdDay then some 1767398400000 else none

def lockId : String := Store.lessonId lockDigest lockLesson

/-- A lesson is created, proves itself and is promoted. -/
def lockCalls : List Op :=
  [.createLesson lockLesson firstDay, .captureFeedback lockId .up "review" firstDay,
    .recordApplied lockId none firstDay firstDay, .recordApplied lockId none firstDay firstDay,
    .recordApplied lockId none firstDay firstDay, .promoteLesson lockId thirdDay thirdDay]

def isFresh (digest : String → String) (s : Store) : Op → Bool
  | .createLesson input _ => (s.rows.get (Store.lessonId digest input)).all fun r => r.status = .pending
  | _ => true

theorem fresh_of_isFresh (s : Store) (op : Op) (check : isFresh digest s op = true) :
    Fresh digest s op := by
  cases op with
  | promoteLesson | captureFeedback | recordApplied => trivial
  | createLesson input createdAt =>
      intro r present
      rw [isFresh, present] at check
      exact of_decide_eq_true check

theorem lock_promoted : (runWhile (step BlockYaml.codec lockDigest sampleDate) (isFresh lockDigest) .empty
    lockCalls).map (fun s => (s.rows.get lockId).map (·.status)) = some (some .promoted) := by
  decide +kernel

theorem filed_of_run_lock : ∃ t, (t.rows.get lockId).map (·.status) = some .promoted ∧
    OneFileEach BlockYaml.codec t ∧ Rebuilds BlockYaml.codec t := by
  obtain ⟨t, replay, status⟩ := Option.map_eq_some_iff.mp lock_promoted
  exact ⟨t, status, filed_of_run filed_empty (Steps.of_runWhile fresh_of_isFresh replay)⟩

/-- Creating the promoted lesson again leaves two files of it, and no rebuild succeeds. -/
theorem recreated_lesson_keeps_two_files : ∃ t,
    Steps (step BlockYaml.codec lockDigest sampleDate) AnyStep .empty t ∧
      ¬ OneFileEach BlockYaml.codec t ∧ ¬ Rebuilds BlockYaml.codec t := by
  obtain ⟨s, replay, status⟩ := Option.map_eq_some_iff.mp lock_promoted
  obtain ⟨r, present, promoted⟩ := Option.map_eq_some_iff.mp status
  have run := Steps.of_runWhile fresh_of_isFresh replay
  have again := upsert_of_safe BlockYaml.codec (s := s)
    (r := Store.created lockId lockLesson thirdDay) (by decide +kernel)
  have gone : r.status ≠ .pending := by
    rw [promoted]
    decide
  refine ⟨_, run.any.tail (e := .createLesson lockLesson thirdDay) trivial ?_,
    Filed.stale_create (filed_empty.run run) present gone again⟩
  exact congrArg (fun outcome => some (outcome.toOption.getD s)) again

end Opensquid.Rag.Wedge
