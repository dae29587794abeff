import Opensquid.Lib.JsonText
import Opensquid.Lib.Steps
import Opensquid.Storage.RecordFile

/-!
# The wedge lesson store

Each lesson is a row of `wg_lessons` and a file `<status>/<id>.md`. An operation writes the
file first, then the row; the table can be rebuilt from the files.
-/

namespace Opensquid.Rag.Wedge

open Opensquid.Lib Opensquid.Lib.FrontMatter Opensquid.Storage

/-! ## The promotion gate -/

inductive LessonStatus
  | pending
  | active
  | promoted
  | superseded
  | discarded
  deriving DecidableEq

def LessonStatus.text : LessonStatus → String
  | .pending => "pending"
  | .active => "active"
  | .promoted => "promoted"
  | .superseded => "superseded"
  | .discarded => "discarded"

def statusDirs : List LessonStatus := [.pending, .active, .promoted, .superseded, .discarded]

def LessonStatus.ofText? (text : String) : Option LessonStatus :=
  statusDirs.find? fun status => status.text = text

theorem mem_statusDirs (status : LessonStatus) : status ∈ statusDirs := by
  cases status <;> decide

theorem ofText?_text (status : LessonStatus) : LessonStatus.ofText? status.text = some status := by
  cases status <;> decide

inductive AuthoredBy
  | user
  | agent
  | pack
  deriving DecidableEq

def AuthoredBy.text : AuthoredBy → String
  | .user => "user"
  | .agent => "agent"
  | .pack => "pack"

/-- Whatever is not a user or a pack is an agent. -/
def AuthoredBy.ofText (text : Option String) : AuthoredBy :=
  if text = some "user" then .user else if text = some "pack" then .pack else .agent

theorem ofText_text (by' : AuthoredBy) : .ofText (some by'.text) = by' := by
  cases by' <;> decide

/-- An object; a field that is undefined is not listed. -/
@[ext]
structure CausalNarrative where
  fields : List (String × Value)
  wf : (Value.map fields).Wf

namespace CausalNarrative

/-- The fields that `normalizeCausalNarrative` returns. -/
def normalFields (raw : List (String × Value)) : List (String × Value) :=
  let rest := raw.filter fun field => field.1 ≠ "evidence_refs"
  let evidence := Value.coalesce (Value.lookup rest "evidenceRefs") (Value.lookup raw "evidence_refs")
  Value.set "evidenceRefs" (.seq ((evidence.bind Value.array?).getD [])) rest

theorem wf_normalFields {raw : List (String × Value)} (wf : (Value.map raw).Wf) :
    (Value.map (normalFields raw)).Wf := by
  have rest : (Value.map (raw.filter fun field => field.1 ≠ "evidence_refs")).Wf :=
    ⟨wf.1.sublist (List.filter_sublist.map _), Value.wfFields_iff.mpr fun field mem =>
      Value.wfFields_iff.mp wf.2 field (List.mem_of_mem_filter mem)⟩
  refine ⟨Value.nodup_keys_set rest.1, Value.wfFields_iff.mpr fun field mem => ?_⟩
  rcases Value.mem_set mem with rfl | old
  · cases evidence : (Value.coalesce (Value.lookup (raw.filter fun field => field.1 ≠ "evidence_refs")
        "evidenceRefs") (Value.lookup raw "evidence_refs")).bind Value.array? with
    | none => trivial
    | some items =>
        obtain ⟨v, chosen, array⟩ := Option.bind_eq_some_iff.mp evidence
        have known : v.Wf := by
          unfold Value.coalesce at chosen
          split at chosen
          · exact Value.wf_of_lookup wf chosen
          · exact Value.wf_of_lookup wf chosen
          · rename_i w _ found
            cases chosen
            exact Value.wf_of_lookup rest found
        exact Value.wf_of_array? known array
  · exact Value.wfFields_iff.mp rest.2 field old

/-- `normalizeCausalNarrative`. -/
def normalize (raw : CausalNarrative) : CausalNarrative := ⟨normalFields raw.fields, wf_normalFields raw.wf⟩

theorem normalFields_normalFields (raw : List (String × Value)) :
    normalFields (normalFields raw) = normalFields raw := by
  obtain ⟨items, same⟩ : ∃ items, normalFields raw = Value.set "evidenceRefs" (.seq items)
      (raw.filter fun field => field.1 ≠ "evidence_refs") := ⟨_, rfl⟩
  rw [same]
  -- the fields of the first result have the name already, and no other of the two
  have named : ∀ field ∈ Value.set "evidenceRefs" (.seq items)
      (raw.filter fun field => field.1 ≠ "evidence_refs"),
      decide (field.1 ≠ "evidence_refs") = true := by
    intro field mem
    rcases Value.mem_set mem with rfl | old
    · exact decide_eq_true (show "evidenceRefs" ≠ "evidence_refs" by decide)
    · exact (List.mem_filter.mp old).2
  rw [normalFields, List.filter_eq_self.mpr named, Value.lookup_set_self]
  exact Value.set_of_lookup (Value.lookup_set_self _ _ _)

theorem normalize_normalize (raw : CausalNarrative) : raw.normalize.normalize = raw.normalize :=
  CausalNarrative.ext (normalFields_normalFields raw.fields)

def evidenceRefs (narrative : CausalNarrative) : List Value :=
  ((Value.lookup narrative.fields "evidenceRefs").bind Value.array?).getD []

end CausalNarrative

structure LessonFrontmatter where
  status : LessonStatus
  supersededAt : Option String
  createdAt : String
  appliedCount : Nat
  thumbsDownCount : Nat
  externalSignalSources : List String
  appliedSessionIds : List String
  causalNarrative : Option CausalNarrative

structure PromotionConfig where
  minAgeMs : Nat
  minAppliedCount : Nat
  minDistinctOrigins : Nat

def defaultPromotionConfig : PromotionConfig where
  minAgeMs := 24 * 60 * 60 * 1000
  minAppliedCount := 3
  minDistinctOrigins := 0

inductive GateDecision
  | promote
  | block (reasons : List String)

section

variable (dateParse : String → Option Int)

/-- The blocks of the age of a lesson; a comparison with no time is false. -/
def ageBlocks (createdAt : String) (minAgeMs : Nat) (now : Option Int) : List String :=
  let requiredSec := minAgeMs / 1000
  match dateParse createdAt, now with
  | none, _ => [s!"malformed-created-at: {String.ofList (Json.quote createdAt)}"]
  | some _, none => []
  | some createdMs, some now =>
      if createdMs > now then
        [s!"future-created-at: {createdAt}", s!"time-floor: age=0s < required={requiredSec}s"]
      else if now - createdMs < minAgeMs then
        [s!"time-floor: age={(now - createdMs) / 1000}s < required={requiredSec}s"]
      else []

def narrativeBlocks (narrative : Option CausalNarrative) : List String :=
  match narrative with
  | none => ["missing-causal-narrative"]
  | some narrative =>
      let confidence := (Value.lookup narrative.fields "confidence").bind Value.string?
      if confidence = some "speculative" then ["speculative-narrative"]
      else if confidence = some "observed" ∧ narrative.evidenceRefs = [] then
        ["observed-confidence-without-evidence-refs"]
      else []

/-- All violations, in the order of the checks. -/
def checkPromotionGate (fm : LessonFrontmatter) (config : PromotionConfig) (now : Option Int) :
    GateDecision :=
  let blocks :=
    (if fm.status = .superseded ∨ fm.supersededAt.isSome then ["already-superseded"] else []) ++
    ageBlocks dateParse fm.createdAt config.minAgeMs now ++
    (if fm.appliedCount < config.minAppliedCount then
      [s!"insufficient-applied-count: observed={fm.appliedCount} < required={config.minAppliedCount}"]
    else []) ++
    (if fm.thumbsDownCount > 0 then [s!"thumbs-down-block: count={fm.thumbsDownCount}"] else []) ++
    (if fm.externalSignalSources = [] then ["missing-external-signal-sources"] else []) ++
    (if config.minDistinctOrigins > 0 ∧ fm.appliedSessionIds.length < config.minDistinctOrigins then
      [s!"insufficient-origin-diversity: distinct_sessions={fm.appliedSessionIds.length} < required={config.minDistinctOrigins}"]
    else []) ++
    narrativeBlocks fm.causalNarrative
  if blocks = [] then .promote else .block blocks

end

/-! ## Records -/

/-- A lesson; a row has a column for each field, NULL for an absent one. -/
structure WedgeLesson extends LessonFrontmatter where
  id : String
  description : String
  body : String
  authoredBy : AuthoredBy
  packId : Option String
  externalId : Option String
  thumbsUpCount : Nat
  updatedAt : String
  promotedAt : Option String
  lastAppliedAt : Option String

/-- An empty text is read as an absent one. -/
def sopt (v : Option String) : Option String := v.filter fun s => s ≠ ""

def rowToWedge (row : WedgeLesson) : WedgeLesson :=
  { row with
    packId := sopt row.packId
    externalId := sopt row.externalId
    promotedAt := sopt row.promotedAt
    supersededAt := sopt row.supersededAt
    lastAppliedAt := sopt row.lastAppliedAt
    causalNarrative := row.causalNarrative.map CausalNarrative.normalize }

open Value in
/-- The front matter of a record. -/
def frontmatter (lesson : WedgeLesson) : List (String × Value) :=
  [("id", .str lesson.id), ("description", .str lesson.description),
    ("status", .str lesson.status.text), ("authored_by", .str lesson.authoredBy.text)] ++
  optional "pack_id" (lesson.packId.map .str) ++
  optional "external_id" (lesson.externalId.map .str) ++
  [("created_at", .str lesson.createdAt), ("updated_at", .str lesson.updatedAt)] ++
  optional "promoted_at" (lesson.promotedAt.map .str) ++
  optional "superseded_at" (lesson.supersededAt.map .str) ++
  optional "last_applied_at" (lesson.lastAppliedAt.map .str) ++
  [("applied_count", .num lesson.appliedCount), ("thumbs_up_count", .num lesson.thumbsUpCount),
    ("thumbs_down_count", .num lesson.thumbsDownCount),
    ("external_signal_sources", strings lesson.externalSignalSources),
    ("applied_session_ids", strings lesson.appliedSessionIds)] ++
  optional "causal_narrative" (lesson.causalNarrative.map fun narrative => .map narrative.fields)

/-- What is null has no narrative, and what is no object has no fields. -/
def narrativeOf : (v : Value) → v.Wf → Option CausalNarrative
  | .null, _ => none
  | .map fields, wf => some (CausalNarrative.normalize ⟨fields, wf⟩)
  | .bool _, _ | .num _, _ | .str _, _ | .seq _, _ =>
      some (CausalNarrative.normalize ⟨[], List.nodup_nil, trivial⟩)

def narrativeField (fm : Value) (wf : fm.Wf) : Option CausalNarrative :=
  match found : fm.field "causal_narrative" with
  | none => none
  | some v => narrativeOf v (Value.wf_of_field wf found)

/-- The lesson of a front matter. -/
def ofFrontmatter (status : LessonStatus) (fm : Value) (body : String) (wf : fm.Wf) :
    Option WedgeLesson :=
  let text := fun key => (fm.field key).bind Value.string?
  let count := fun key => ((fm.field key).bind Value.number?).getD 0
  let list := fun key => ((fm.field key).bind Value.strings?).getD []
  (text "id").map fun id =>
    { id
      description := (text "description").getD ""
      body
      status := ((text "status").bind LessonStatus.ofText?).getD status
      authoredBy := .ofText (text "authored_by")
      packId := text "pack_id"
      externalId := text "external_id"
      createdAt := (text "created_at").getD epoch
      updatedAt := (text "updated_at").getD ((text "created_at").getD epoch)
      promotedAt := text "promoted_at"
      supersededAt := text "superseded_at"
      lastAppliedAt := text "last_applied_at"
      appliedCount := count "applied_count"
      thumbsUpCount := count "thumbs_up_count"
      thumbsDownCount := count "thumbs_down_count"
      externalSignalSources := list "external_signal_sources"
      appliedSessionIds := list "applied_session_ids"
      causalNarrative := narrativeField fm wf }

theorem narrativeField_eq {fm : Value} {wf : fm.Wf} {v : Value}
    (found : fm.field "causal_narrative" = some v) :
    narrativeField fm wf = narrativeOf v (Value.wf_of_field wf found) := by
  unfold narrativeField
  split
  · rename_i absent
    cases absent.symm.trans found
  · rename_i w present
    cases present.symm.trans found
    rfl

theorem narrativeField_none {fm : Value} {wf : fm.Wf} (absent : fm.field "causal_narrative" = none) :
    narrativeField fm wf = none := by
  unfold narrativeField
  split
  · rfl
  · rename_i present
    cases absent.symm.trans present

def frontmatterKeys : List String :=
  ["id", "description", "status", "authored_by", "pack_id", "external_id", "created_at",
    "updated_at", "promoted_at", "superseded_at", "last_applied_at", "applied_count",
    "thumbs_up_count", "thumbs_down_count", "external_signal_sources", "applied_session_ids",
    "causal_narrative"]

theorem frontmatter_keys (lesson : WedgeLesson) :
    ((frontmatter lesson).map Prod.fst).Sublist frontmatterKeys := by
  simp only [frontmatter, List.map_append]
  have optional := Value.keys_optional_sublist
  exact ((((((((List.Sublist.refl _).append (optional _ _)).append (optional _ _)).append
    (.refl _)).append (optional _ _)).append (optional _ _)).append (optional _ _)).append
    (.refl _)).append (optional _ _)

theorem wf_frontmatter (lesson : WedgeLesson) : (Value.map (frontmatter lesson)).Wf := by
  have narrative : Value.WfFields (Value.optional "causal_narrative"
      (lesson.causalNarrative.map fun narrative => .map narrative.fields)) := by
    refine Value.wf_optional fun w here => ?_
    obtain ⟨known, _, rfl⟩ := Option.map_eq_some_iff.mp here
    exact known.wf
  refine ⟨(frontmatter_keys lesson).nodup (by decide), ?_⟩
  simp [frontmatter, Value.WfFields, Value.Wf, Value.wf_strings, narrative]

theorem ofFrontmatter_frontmatter (status : LessonStatus) (lesson : WedgeLesson)
    (wf : (Value.map (frontmatter lesson)).Wf) :
    ofFrontmatter status (.map (frontmatter lesson)) lesson.body wf =
      some { lesson with causalNarrative := lesson.causalNarrative.map CausalNarrative.normalize } := by
  have narrative : narrativeField (.map (frontmatter lesson)) wf =
      lesson.causalNarrative.map CausalNarrative.normalize := by
    cases present : lesson.causalNarrative with
    | none => exact narrativeField_none (by simp [Value.field, frontmatter, present])
    | some known =>
        have found : (Value.map (frontmatter lesson)).field "causal_narrative" =
            some (.map known.fields) := by simp [Value.field, frontmatter, present]
        rw [narrativeField_eq found]
        rfl
  rw [ofFrontmatter, narrative]
  simp [frontmatter, ofText?_text, ofText_text]

/-- A file of the directory of a status. -/
structure File where
  dir : LessonStatus
  name : String
  text : List Char

def File.path (f : File) : LessonStatus × String := (f.dir, f.name)

section

variable (codec : Codec)

def recordFile (id : String) (lesson : WedgeLesson) : File where
  dir := lesson.status
  name := recordName id
  text := fence (codec.stringify (.map (frontmatter lesson))) lesson.body.toList

def writeWedgeRecord (files : Table File.path) (lesson : WedgeLesson) : Option (Table File.path) :=
  (safeRecordId lesson.id).map fun id => files.put (recordFile codec id lesson)

def deleteWedgeRecord (files : Table File.path) (status : LessonStatus) (id : String) :
    Option (Table File.path) :=
  (safeRecordId id).map fun id => files.delete (status, recordName id)

/-- The lesson of one file; none: it is skipped. -/
def readWedgeRecord (status : LessonStatus) (raw : List Char) : Option WedgeLesson :=
  (unfence raw).bind fun (header, body) =>
    match parsed : codec.parse header with
    | none => none
    | some fm => ofFrontmatter status fm (String.ofList body) (codec.wf_of_parse parsed)

/-- The lessons of the directories, given the files that each lists in its order. -/
def readWedgeRecords (readdir : LessonStatus → List File) : List WedgeLesson :=
  statusDirs.flatMap fun status =>
    ((readdir status).filter fun f => isRecordName f.name).filterMap fun f =>
      readWedgeRecord codec status f.text

theorem readWedgeRecord_recordFile (status : LessonStatus) (id : String) (lesson : WedgeLesson) :
    readWedgeRecord codec status (recordFile codec id lesson).text =
      some { lesson with causalNarrative := lesson.causalNarrative.map CausalNarrative.normalize } := by
  have wf := wf_frontmatter lesson
  rw [readWedgeRecord, recordFile, unfence_fence (codec.header _), Option.bind_some]
  dsimp only
  split
  · rename_i failed
    cases failed.symm.trans (codec.parse_stringify _ wf)
  · rename_i fm parsed
    cases parsed.symm.trans (codec.parse_stringify _ wf)
    rw [String.ofList_toList]
    exact ofFrontmatter_frontmatter status lesson _

end

/-! ## The store -/

inductive StoreError
  | notFound (id : String)
  | unsafeId (id : String)
  | promotionBlocked (id : String) (reasons : List String)

def StoreError.message : StoreError → String
  | .notFound id => s!"wedge-store: lesson {id} not found"
  | .unsafeId id => s!"atomic_file: unsafe record id: {String.ofList (Json.quote id)}"
  | .promotionBlocked id reasons => "Lesson " ++ id ++ " promotion blocked: " ++ String.intercalate "; " reasons

structure CreateLessonInput where
  description : String
  body : String
  evidenceRefs : Option (List String)
  authoredBy : Option AuthoredBy

inductive Polarity
  | up
  | down
  deriving DecidableEq

/-- The table and the source directory. -/
structure Store where
  rows : Table WedgeLesson.id
  files : Table File.path

/-- MAX_APPLIED_SESSION_IDS. -/
def maxAppliedSessionIds : Nat := 50

namespace Store

def empty : Store := ⟨.empty, .empty⟩

def read (s : Store) (id : String) : Except StoreError WedgeLesson :=
  match s.rows.get id with
  | none => .error (.notFound id)
  | some row => .ok (rowToWedge row)

/-- The row that replaces the one of its id. -/
def replaceRow (rows : Table WedgeLesson.id) (r : WedgeLesson) : Table WedgeLesson.id :=
  (rows.delete r.id).add r Table.get_delete_self

section

variable (codec : Codec)

/-- The file first, then the row. -/
def upsert (s : Store) (r : WedgeLesson) : Except StoreError Store :=
  match writeWedgeRecord codec s.files r with
  | none => .error (.unsafeId r.id)
  | some files => .ok ⟨replaceRow s.rows r, files⟩

variable (digest : String → String)

/-- The digest names the content. -/
def lessonId (input : CreateLessonInput) : String :=
  "les-" ++ String.ofList ((digest (input.description ++ "\n" ++ input.body)).toList.take 16)

/-- The narrative of a lesson that is created with evidence. -/
def createdNarrative (refs : List String) : CausalNarrative where
  fields := [("confidence", .str "inferred"), ("evidenceRefs", Value.strings refs)]
  wf := ⟨show ["confidence", "evidenceRefs"].Nodup by decide, trivial, Value.wf_strings refs, trivial⟩

def created (id : String) (input : CreateLessonInput) (createdAt : String) : WedgeLesson where
  id
  description := input.description
  body := input.body
  status := .pending
  authoredBy := input.authoredBy.getD .agent
  packId := none
  externalId := none
  createdAt
  updatedAt := createdAt
  promotedAt := none
  supersededAt := none
  lastAppliedAt := none
  appliedCount := 0
  thumbsUpCount := 0
  thumbsDownCount := 0
  externalSignalSources := []
  appliedSessionIds := []
  causalNarrative := (input.evidenceRefs.filter fun refs => refs ≠ []).map createdNarrative

def createLesson (s : Store) (input : CreateLessonInput) (createdAt : String) :
    Except StoreError Store :=
  s.upsert codec (created (lessonId digest input) input createdAt)

variable (dateParse : String → Option Int)

/-- The clock is read for the gate and, when that promotes, for the stamp `t`. -/
def promoteLesson (s : Store) (id now t : String) : Except StoreError Store := do
  let row ← s.read id
  match checkPromotionGate dateParse row.toLessonFrontmatter defaultPromotionConfig (dateParse now) with
  | .block reasons => .error (.promotionBlocked id reasons)
  | .promote =>
      let s ← s.upsert codec { row with status := .promoted, promotedAt := some t, updatedAt := t }
      if row.status = .promoted then .ok s
      else
        match deleteWedgeRecord s.files row.status id with
        | none => .error (.unsafeId id)
        | some files => .ok ⟨s.rows, files⟩

def captureFeedback (s : Store) (id : String) (polarity : Polarity) (signalId now : String) :
    Except StoreError Store := do
  let row ← s.read id
  let signals :=
    if signalId ∈ row.externalSignalSources then row.externalSignalSources
    else row.externalSignalSources ++ [signalId]
  s.upsert codec { row with
    thumbsUpCount := row.thumbsUpCount + if polarity = .up then 1 else 0
    thumbsDownCount := row.thumbsDownCount + if polarity = .down then 1 else 0
    externalSignalSources := signals
    updatedAt := now }

/-- `items.slice(-count)`. -/
def lastItems (count : Nat) (items : List String) : List String := items.drop (items.length - count)

def recordApplied (s : Store) (id : String) (sessionId : Option String) (lastAppliedAt updatedAt : String) :
    Except StoreError Store := do
  let row ← s.read id
  let sessions := match sessionId with
    | none => row.appliedSessionIds
    | some session =>
        if session ∈ row.appliedSessionIds then row.appliedSessionIds
        else lastItems maxAppliedSessionIds (row.appliedSessionIds ++ [session])
  s.upsert codec { row with
    appliedCount := row.appliedCount + 1
    lastAppliedAt := some lastAppliedAt
    appliedSessionIds := sessions
    updatedAt }

end

/-- The table is emptied and filled with the records; none: a key is taken. -/
def rebuild (records : List WedgeLesson) : Option (Table WedgeLesson.id) :=
  Table.insertAll .empty records

end Store

/-! ## Runs -/

/-- A call, with the readings of the clock it makes. -/
inductive Op
  | createLesson (input : CreateLessonInput) (createdAt : String)
  | promoteLesson (id now t : String)
  | captureFeedback (id : String) (polarity : Polarity) (signalId now : String)
  | recordApplied (id : String) (sessionId : Option String) (lastAppliedAt updatedAt : String)

section

variable (codec : Codec) (digest : String → String) (dateParse : String → Option Int)

def Store.call (s : Store) : Op → Except StoreError Store
  | .createLesson input createdAt => s.createLesson codec digest input createdAt
  | .promoteLesson id now t => s.promoteLesson codec dateParse id now t
  | .captureFeedback id polarity signalId now => s.captureFeedback codec id polarity signalId now
  | .recordApplied id sessionId lastAppliedAt updatedAt =>
      s.recordApplied codec id sessionId lastAppliedAt updatedAt

/-- A call that throws leaves the store as it was. -/
def step (s : Store) (op : Op) : Option Store :=
  some ((s.call codec digest dateParse op).toOption.getD s)

end

end Opensquid.Rag.Wedge
