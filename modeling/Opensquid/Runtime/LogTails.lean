import Opensquid.Lib.PollingTail
import Opensquid.Lib.Steps

/-!
# The tails of the audit log and of the trace

`AuditLog.tail` and `TraceReader.tail` poll a table for the rows after a cursor, which is the latest
timestamp they have yielded. A row that is committed with that very timestamp after the poll that
saw it is never yielded (`late_append_lost`, `same_millisecond_lost`); in a run without such rows
every poll leaves each matching row yielded once (`logTails_exact`).

A poll reads the table in one query, so what is committed while its rows are being yielded is for
the next one.
-/

namespace Opensquid.LogTails

open Opensquid.Lib

/-! ## The audit log -/

inductive AuditCategory
  | capabilityGate
  | webhook
  | schedule
  | resume
  | channelSend
  | channelInbound
  | pendingShell
  deriving DecidableEq, Repr

inductive AuditDecision
  | allowed
  | denied
  | prompted
  | success
  | error
  | approved
  | rejected
  deriving DecidableEq, Repr

/-- `detail` is the text it is stored as. -/
structure AuditEntry where
  occurredAtMs : Int
  category : AuditCategory
  decision : AuditDecision
  packId : Option String := none
  skill : Option String := none
  ruleId : Option String := none
  detail : String
  deriving DecidableEq, Repr

structure AuditRow extends AuditEntry where
  id : Nat
  deriving DecidableEq, Repr

/-- The table; `lastId` is what `AUTOINCREMENT` remembers. -/
structure AuditLog where
  rows : List AuditRow
  lastId : Nat
  distinct : (rows.map (·.id)).Nodup
  known : ∀ row ∈ rows, row.id ≤ lastId

namespace AuditLog

def empty : AuditLog := ⟨[], 0, List.nodup_nil, by simp⟩

def append (log : AuditLog) (entry : AuditEntry) : AuditLog where
  rows := log.rows ++ [{ entry with id := log.lastId + 1 }]
  lastId := log.lastId + 1
  distinct := by
    rw [List.map_append, List.nodup_append]
    refine ⟨log.distinct, by simp, ?_⟩
    intro old memOld new memNew same
    obtain ⟨row, mem, rfl⟩ := List.mem_map.mp memOld
    have last : new = log.lastId + 1 := by simpa using memNew
    have bound := log.known row mem
    omega
  known row mem := by
    rcases List.mem_append.mp mem with old | new
    · exact Nat.le_succ_of_le (log.known row old)
    · simp [List.mem_singleton.mp new]

/-- The rows of the category, if there is one. -/
def visible (log : AuditLog) (category : Option AuditCategory) : List AuditRow :=
  log.rows.filter fun row => category.all (row.category = ·)

theorem nodup_visible (log : AuditLog) (category : Option AuditCategory) :
    (log.visible category).Nodup :=
  (List.Nodup.of_map _ log.distinct).filter _

end AuditLog

/-- `SELECT … WHERE occurred_at_ms > ? AND category = ? ORDER BY occurred_at_ms ASC, id ASC`. -/
def auditQuery (category : Option AuditCategory) (log : AuditLog) (cursor : Int) : List AuditRow :=
  (log.rows.filter fun row => cursor < row.occurredAtMs && category.all (row.category = ·)).mergeSort
    (Tail.before (·.occurredAtMs) (·.id))

structure AuditTail where
  log : AuditLog
  cursor : Int
  yielded : List AuditRow

inductive AuditEvent
  | append (entry : AuditEntry)
  | poll

variable {category : Option AuditCategory} {log : AuditLog} {entry : AuditEntry} {sinceMs : Int}

/-- `tail({ sinceMs })`, on the log as it is then. -/
def AuditTail.start (log : AuditLog) (sinceMs : Int) : AuditTail := ⟨log, sinceMs, []⟩

/-- One pass of the loop, with all its rows yielded. -/
def AuditTail.polled (category : Option AuditCategory) (s : AuditTail) : AuditTail :=
  let batch := auditQuery category s.log s.cursor
  { s with
    cursor := Tail.advance (·.occurredAtMs) s.cursor batch
    yielded := s.yielded ++ batch }

def auditStep (category : Option AuditCategory) (s : AuditTail) : AuditEvent → Option AuditTail
  | .append entry => some { s with log := s.log.append entry }
  | .poll => some (s.polled category)

/-- What a tail of this category can see. -/
def AuditTail.view (category : Option AuditCategory) (s : AuditTail) : Tail AuditRow :=
  ⟨s.log.visible category, s.cursor, s.yielded⟩

/-- An entry of the category is later than every row yielded so far. -/
def AuditTimely (category : Option AuditCategory) (s : AuditTail) : AuditEvent → Prop
  | .append entry =>
      category.all (entry.category = ·) = true →
        ∀ old ∈ s.yielded, old.occurredAtMs < entry.occurredAtMs
  | .poll => True

/-- Timestamps never go back. -/
def AuditInOrder (s : AuditTail) : AuditEvent → Prop
  | .append entry => ∀ row ∈ s.log.rows, row.occurredAtMs ≤ entry.occurredAtMs
  | .poll => True

/-- The query sorts what it can see. -/
theorem auditQuery_eq (cursor : Int) :
    auditQuery category log cursor =
      Tail.select (·.occurredAtMs) (·.id) (log.visible category) cursor := by
  unfold auditQuery Tail.select AuditLog.visible
  rw [List.filter_filter]

theorem view_auditPoll {s t : AuditTail} (poll : auditStep category s .poll = some t) :
    t.view category = (s.view category).poll (·.occurredAtMs) (·.id) := by
  cases poll
  simp only [AuditTail.view, AuditTail.polled, auditQuery_eq]
  rfl

/-- Only the entry comes into view, if it is of the category. -/
theorem mem_visible_append {row : AuditRow} (mem : row ∈ (log.append entry).visible category) :
    row ∈ log.visible category ∨
      row = { entry with id := log.lastId + 1 } ∧ category.all (entry.category = ·) = true := by
  simp only [AuditLog.visible, AuditLog.append, List.mem_filter, List.mem_append,
    List.mem_singleton] at mem
  obtain ⟨old | rfl, matching⟩ := mem
  · exact Or.inl (List.mem_filter.mpr ⟨old, matching⟩)
  · exact Or.inr ⟨rfl, matching⟩

theorem audit_sound {s : AuditTail}
    (run : Steps (auditStep category) (AuditTimely category) (.start log sinceMs) s) :
    (s.view category).Sound (·.occurredAtMs) sinceMs := by
  induction run with
  | refl => exact Tail.Sound.start (log.nodup_visible category)
  | @tail s t e _ timely fire ih =>
      cases e with
      | append entry =>
          cases fire
          apply ih.change ((s.log.append entry).nodup_visible category)
          intro row mem new old member
          rcases mem_visible_append mem with seen | ⟨rfl, matching⟩
          · exact absurd seen new
          · exact timely matching old member
      | poll =>
          rw [view_auditPoll fire]
          exact ih.poll

/-! ## Overtaken audit rows -/

theorem audit_overtaken {row : AuditRow} {s t : AuditTail}
    (run : Steps (auditStep category) AnyStep s t)
    (overtaken : (s.view category).Overtaken (·.occurredAtMs) row) :
    (t.view category).Overtaken (·.occurredAtMs) row := by
  induction run with
  | refl => exact overtaken
  | @tail t u e _ _ fire ih =>
      cases e with
      | append entry =>
          cases fire
          exact ih
      | poll =>
          rw [view_auditPoll fire]
          exact ih.poll

/-- What has been yielded is in the table, and the cursor is not before it. -/
theorem audit_yielded {s : AuditTail}
    (run : Steps (auditStep category) AnyStep (.start log sinceMs) s) :
    ∀ row ∈ s.yielded, row ∈ s.log.rows ∧ row.occurredAtMs ≤ s.cursor := by
  induction run with
  | refl => simp [AuditTail.start]
  | @tail s t e _ _ fire ih =>
      intro row mem
      cases e with
      | append entry =>
          cases fire
          exact ⟨List.mem_append_left _ (ih row mem).1, (ih row mem).2⟩
      | poll =>
          cases fire
          rcases List.mem_append.mp mem with old | new
          · exact ⟨(ih row old).1, le_trans (ih row old).2 Tail.le_advance⟩
          · have seen := new
            rw [auditQuery_eq, Tail.mem_select] at seen
            exact ⟨(List.mem_filter.mp seen.1).1, Tail.stamp_le_advance new⟩

/-- An entry that is not later than a row already yielded is never yielded. -/
theorem late_append_lost {s t u : AuditTail}
    (run : Steps (auditStep category) AnyStep (.start log sinceMs) s)
    (late : ¬ AuditTimely category s (.append entry))
    (fire : auditStep category s (.append entry) = some t)
    (rest : Steps (auditStep category) AnyStep t u) :
    { entry with id := s.log.lastId + 1 } ∉ u.yielded := by
  have yielded := audit_yielded run
  simp only [AuditTimely, not_forall, not_lt] at late
  obtain ⟨-, old, member, later⟩ := late
  cases fire
  refine (audit_overtaken rest ⟨le_trans later (yielded old member).2, ?_⟩).2
  intro mem
  exact absurd (s.log.known _ (yielded _ mem).1) (Nat.not_succ_le_self _)

/-! ## The trace -/

inductive StepStatus
  | completed
  | errored
  deriving DecidableEq, Repr

/-- A row of `checkpoints`. -/
structure TraceRow where
  runId : String
  stepIdx : Nat
  fn : String
  inputsHash : String
  outputsJson : String
  asBinding : Option String := none
  startedAtMs : Int
  completedAtMs : Int
  status : StepStatus
  errorMessage : Option String := none
  deriving DecidableEq, Repr

/-- The primary key. -/
def TraceRow.key (row : TraceRow) : String × Nat := (row.runId, row.stepIdx)

/-- What the tail reads of `run_manifests`. -/
structure RunManifest where
  runId : String
  packId : String
  deriving DecidableEq, Repr

structure TraceDb where
  checkpoints : List TraceRow
  manifests : List RunManifest
  distinct : (checkpoints.map (·.key)).Nodup

namespace TraceDb

def empty : TraceDb := ⟨[], [], List.nodup_nil⟩

/-- `INSERT OR REPLACE INTO checkpoints`. -/
def append (db : TraceDb) (write : TraceRow) : TraceDb where
  checkpoints := db.checkpoints.filter (·.key ≠ write.key) ++ [write]
  manifests := db.manifests
  distinct := by
    rw [List.map_append, List.nodup_append]
    refine ⟨db.distinct.sublist (List.filter_sublist.map _), by simp, ?_⟩
    intro old memOld new memNew same
    obtain ⟨row, mem, rfl⟩ := List.mem_map.mp memOld
    have kept := (List.mem_filter.mp mem).2
    have last : new = write.key := by simpa using memNew
    simp [same, last] at kept

/-- `INSERT OR REPLACE INTO run_manifests`. -/
def recordRunStart (db : TraceDb) (manifest : RunManifest) : TraceDb :=
  { db with manifests := db.manifests.filter (·.runId ≠ manifest.runId) ++ [manifest] }

/-- With a pack the checkpoints are joined with their manifests, of which a run has at most one. -/
def visible (db : TraceDb) (packId : Option String) : List TraceRow :=
  db.checkpoints.filter fun row =>
    packId.all fun pack => db.manifests.any fun m => m.runId = row.runId && m.packId = pack

theorem nodup_visible (db : TraceDb) (packId : Option String) : (db.visible packId).Nodup :=
  (List.Nodup.of_map _ db.distinct).filter _

end TraceDb

/-- `SELECT … WHERE c.completed_at_ms > ? AND m.pack_id = ?
ORDER BY c.completed_at_ms ASC, c.step_idx ASC`. -/
def traceQuery (packId : Option String) (db : TraceDb) (cursor : Int) : List TraceRow :=
  (db.checkpoints.filter fun row => cursor < row.completedAtMs && packId.all fun pack =>
    db.manifests.any fun m => m.runId = row.runId && m.packId = pack).mergeSort
    (Tail.before (·.completedAtMs) (·.stepIdx))

structure TraceTail where
  db : TraceDb
  cursor : Int
  yielded : List TraceRow

inductive TraceEvent
  | append (write : TraceRow)
  | recordRunStart (manifest : RunManifest)
  | poll

variable {packId : Option String} {db : TraceDb}

/-- `tail({ sinceMs })`, on the tables as they are then. -/
def TraceTail.start (db : TraceDb) (sinceMs : Int) : TraceTail := ⟨db, sinceMs, []⟩

def TraceTail.polled (packId : Option String) (s : TraceTail) : TraceTail :=
  let batch := traceQuery packId s.db s.cursor
  { s with
    cursor := Tail.advance (·.completedAtMs) s.cursor batch
    yielded := s.yielded ++ batch }

def traceStep (packId : Option String) (s : TraceTail) : TraceEvent → Option TraceTail
  | .append write => some { s with db := s.db.append write }
  | .recordRunStart manifest => some { s with db := s.db.recordRunStart manifest }
  | .poll => some (s.polled packId)

/-- What a tail of this pack can see. -/
def TraceTail.view (packId : Option String) (s : TraceTail) : Tail TraceRow :=
  ⟨s.db.visible packId, s.cursor, s.yielded⟩

/-- Timestamps never go back. -/
def TraceInOrder (s : TraceTail) : TraceEvent → Prop
  | .append write => ∀ row ∈ s.db.checkpoints, row.completedAtMs ≤ write.completedAtMs
  | .recordRunStart _ | .poll => True

/-- A checkpoint that comes into view is later than every row yielded so far. -/
def TraceTimely (packId : Option String) (s : TraceTail) : TraceEvent → Prop
  | .append write => (s.view packId).Timely (·.completedAtMs) ((s.db.append write).visible packId)
  | .recordRunStart manifest =>
      (s.view packId).Timely (·.completedAtMs) ((s.db.recordRunStart manifest).visible packId)
  | .poll => True

theorem view_tracePoll {s t : TraceTail} (poll : traceStep packId s .poll = some t) :
    t.view packId = (s.view packId).poll (·.completedAtMs) (·.stepIdx) := by
  have query : traceQuery packId s.db s.cursor =
      Tail.select (·.completedAtMs) (·.stepIdx) (s.db.visible packId) s.cursor := by
    unfold traceQuery Tail.select TraceDb.visible
    rw [List.filter_filter]
  cases poll
  simp only [TraceTail.view, TraceTail.polled, query]
  rfl

theorem trace_sound {s : TraceTail}
    (run : Steps (traceStep packId) (TraceTimely packId) (.start db sinceMs) s) :
    (s.view packId).Sound (·.completedAtMs) sinceMs := by
  induction run with
  | refl => exact Tail.Sound.start (db.nodup_visible packId)
  | @tail s t e _ timely fire ih =>
      cases e with
      | append write =>
          cases fire
          exact ih.change ((s.db.append write).nodup_visible packId) timely
      | recordRunStart manifest =>
          cases fire
          exact ih.change ((s.db.recordRunStart manifest).nodup_visible packId) timely
      | poll =>
          rw [view_tracePoll fire]
          exact ih.poll

/-! ## Both tails -/

/-- After every poll of a run in which no row comes late, each matching row since the start has been
yielded once, in the order of time. -/
theorem logTails_exact (category : Option AuditCategory) (packId : Option String) (sinceMs : Int) :
    (∀ (log : AuditLog) (s t : AuditTail),
      Steps (auditStep category) (AuditTimely category) (.start log sinceMs) s →
      auditStep category s .poll = some t →
      (t.view category).Exact (·.occurredAtMs) sinceMs) ∧
    (∀ (db : TraceDb) (s t : TraceTail),
      Steps (traceStep packId) (TraceTimely packId) (.start db sinceMs) s →
      traceStep packId s .poll = some t →
      (t.view packId).Exact (·.completedAtMs) sinceMs) := by
  constructor
  · intro log s t run poll
    rw [view_auditPoll poll]
    exact (audit_sound run).exact_poll
  · intro db s t run poll
    rw [view_tracePoll poll]
    exact (trace_sound run).exact_poll

instance (s : AuditTail) (e : AuditEvent) : Decidable (AuditTimely category s e) :=
  match e with
  | .append entry => inferInstanceAs (Decidable (category.all (entry.category = ·) = true →
      ∀ old ∈ s.yielded, old.occurredAtMs < entry.occurredAtMs))
  | .poll => .isTrue trivial

instance (s : TraceTail) (e : TraceEvent) : Decidable (TraceTimely packId s e) :=
  match e with
  | .append write => inferInstanceAs (Decidable (∀ row ∈ (s.db.append write).visible packId,
      row ∉ s.db.visible packId → ∀ old ∈ s.yielded, old.completedAtMs < row.completedAtMs))
  | .recordRunStart manifest => inferInstanceAs (Decidable
      (∀ row ∈ (s.db.recordRunStart manifest).visible packId,
        row ∉ s.db.visible packId → ∀ old ∈ s.yielded, old.completedAtMs < row.completedAtMs))
  | .poll => .isTrue trivial

def sampleEntry (occurredAtMs : Int) : AuditEntry :=
  { occurredAtMs, category := .schedule, decision := .success, detail := "{}" }

def sampleWrite (stepIdx : Nat) (completedAtMs : Int) : TraceRow :=
  { runId := "r", stepIdx, fn := "f", inputsHash := "h", outputsJson := "null", startedAtMs := 0
    completedAtMs, status := .completed }

/-- An append, a poll and another append; the next poll is still to come. -/
def auditEvents (second : Int) : List AuditEvent :=
  [.append (sampleEntry 5), .poll, .append (sampleEntry second)]

def traceEvents (second : Int) : List TraceEvent :=
  [.append (sampleWrite 0 5), .poll, .append (sampleWrite 1 second)]

def auditLater : AuditTail :=
  (runWhile (auditStep none) (fun s e => AuditTimely none s e) (.start .empty 0)
    (auditEvents 6)).get (by decide +kernel)

def traceLater : TraceTail :=
  (runWhile (traceStep none) (fun s e => TraceTimely none s e) (.start .empty 0)
    (traceEvents 6)).get (by decide +kernel)

theorem later_rows_yielded_once :
    (auditLater.polled none).yielded.count { sampleEntry 6 with id := 2 } = 1 ∧
      (traceLater.polled none).yielded.count (sampleWrite 1 6) = 1 :=
  ⟨((logTails_exact none none 0).1 .empty auditLater _
      (Steps.of_runWhile (fun _ _ => of_decide_eq_true) (Option.some_get _).symm) rfl).once _
      (by decide +kernel) (by decide),
    ((logTails_exact none none 0).2 .empty traceLater _
      (Steps.of_runWhile (fun _ _ => of_decide_eq_true) (Option.some_get _).symm) rfl).once _
      (by decide +kernel) (by decide)⟩

instance (s : AuditTail) (e : AuditEvent) : Decidable (AuditInOrder s e) :=
  match e with
  | .append entry =>
      inferInstanceAs (Decidable (∀ row ∈ s.log.rows, row.occurredAtMs ≤ entry.occurredAtMs))
  | .poll => .isTrue trivial

instance (s : TraceTail) (e : TraceEvent) : Decidable (TraceInOrder s e) :=
  match e with
  | .append write =>
      inferInstanceAs (Decidable (∀ row ∈ s.db.checkpoints, row.completedAtMs ≤ write.completedAtMs))
  | .recordRunStart _ | .poll => .isTrue trivial

def auditSameTime : AuditTail :=
  (runWhile (auditStep none) (fun s e => AuditInOrder s e) (.start .empty 0)
    (auditEvents 5)).get (by decide +kernel)

def traceSameTime : TraceTail :=
  (runWhile (traceStep none) (fun s e => TraceInOrder s e) (.start .empty 0)
    (traceEvents 5)).get (by decide +kernel)

/-- A row of the millisecond that the last poll saw is not yielded by the next one, though
timestamps never go back. -/
theorem same_millisecond_lost :
    (¬ ∀ s t, Steps (auditStep none) AuditInOrder (.start .empty 0) s →
      auditStep none s .poll = some t → (t.view none).Exact (·.occurredAtMs) 0) ∧
    (¬ ∀ s t, Steps (traceStep none) TraceInOrder (.start .empty 0) s →
      traceStep none s .poll = some t → (t.view none).Exact (·.completedAtMs) 0) := by
  constructor
  · intro always
    have exact := always auditSameTime _
      (Steps.of_runWhile (fun _ _ => of_decide_eq_true) (Option.some_get _).symm) rfl
    have once := exact.once { sampleEntry 5 with id := 2 } (by decide +kernel) (by decide)
    exact absurd once (by decide +kernel)
  · intro always
    have exact := always traceSameTime _
      (Steps.of_runWhile (fun _ _ => of_decide_eq_true) (Option.some_get _).symm) rfl
    have once := exact.once (sampleWrite 1 5) (by decide +kernel) (by decide)
    exact absurd once (by decide +kernel)

end Opensquid.LogTails
