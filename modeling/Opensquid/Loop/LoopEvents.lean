import Opensquid.Lib.Table
import Opensquid.WorkGraph.Types

/-!
# The event log and the task checkpoints

Two tables of the project store: `loop_events`, to which events are only ever appended,
and `task_checkpoints`. A scope-handoff receipt is an event of a special shape. Partial
unique indexes allow one receipt per item and one per action id, and triggers guard what is
inserted; a trigger guards only as long as it is installed.

Every statement either takes effect or is refused and changes nothing.
-/

namespace Opensquid.Loop

open Opensquid.Lib Opensquid.WorkGraph

/-! ## Events and receipts -/

inductive MonitorEventKind
  | stageAdvance
  | phaseEnter
  | phaseLeave
  | itemClosed
  | itemShipped
  | itemWedged
  | processStarted
  | processShutdownPending
  | processShutdownRequested
  | processTerminateRequested
  | processForceKillRequested
  | processPaused
  | processResumed
  | processExited
  | processSpawnFailed
  | processControlRequested
  | processControlApplied
  | processControlFailed
  deriving DecidableEq, Repr

inductive ScopeEvidenceKind
  | approval
  | legacyRepair
  deriving DecidableEq, Repr

/-- What is inserted into `loop_events`. -/
structure NewMonitorEvent where
  wgId : String
  kind : MonitorEventKind
  stage : Option String := none
  actionId : Option String := none
  scopeArtifactPath : Option String := none
  scopeArtifactSha256 : Option String := none
  scopeEvidenceKind : Option ScopeEvidenceKind := none
  atMs : Int
  deriving DecidableEq, Repr

/-- A row of `loop_events`. -/
structure MonitorEvent extends NewMonitorEvent where
  seq : Nat
  deriving DecidableEq, Repr

/-- `NOT GLOB '*[^0-9a-f]*'`. -/
def isLowerHex (text : List Char) : Bool :=
  text.all fun c => c.isDigit || c ∈ ['a', 'b', 'c', 'd', 'e', 'f']

/-- A SHA-256 digest as it is printed. -/
def isSha256 (text : String) : Bool := text.length = 64 && isLowerHex text.toList

def isReceiptId (actionId : String) : Bool :=
  actionId.length = 81 && actionId.toList.take 17 = "scope-handoff:v1:".toList &&
    isLowerHex (actionId.toList.drop 17)

/-- The predicate of the indexes and of the queries. -/
def NewMonitorEvent.isReceipt (e : NewMonitorEvent) : Bool :=
  e.kind = .stageAdvance && e.actionId.any isReceiptId

/-- `LIKE 'scope-handoff:%'`, which does not tell upper from lower case. -/
def likeScopeHandoff (actionId : String) : Bool :=
  (actionId.toList.take 14).map Char.toLower = "scope-handoff:".toList

/-- The action id stands in the namespace of the receipts. -/
def NewMonitorEvent.named (e : NewMonitorEvent) : Bool := e.actionId.any likeScopeHandoff

/-- `startsWith('scope-handoff:')`. -/
def startsWithScopeHandoff (actionId : String) : Bool :=
  actionId.toList.take 14 = "scope-handoff:".toList

structure ScopeHandoffReceipt where
  wgId : String
  actionId : String
  stage : String
  artifactPath : String
  artifactSha256 : String
  evidenceKind : ScopeEvidenceKind
  deriving DecidableEq, Repr

inductive ScopeHandoffErrorCode
  | validation
  | conflict
  | stale
  | persistence
  deriving DecidableEq, Repr

/-- What a handoff throws: an error of its own, another error, or the one of a statement
that SQLite has failed to execute. -/
inductive HandoffError
  | handoff (code : ScopeHandoffErrorCode) (message : String)
  | error (message : String)
  | sqlite
  deriving DecidableEq, Repr

section

variable (digest : Digest)

def scopeHandoffActionId (wgId artifactPath : String) : String :=
  "scope-handoff:v1:" ++ digest 64 ("[" ++ jsonString wgId ++ "," ++ jsonString artifactPath ++ "]")

def isSemanticScopeReceipt (r : ScopeHandoffReceipt) : Bool :=
  r.actionId = scopeHandoffActionId digest r.wgId r.artifactPath && r.stage ≠ "" &&
    isSha256 r.artifactSha256

/-- The columns of a receipt, if none is missing. -/
def NewMonitorEvent.receipt (e : NewMonitorEvent) : Option ScopeHandoffReceipt := do
  let actionId ← e.actionId
  let stage ← e.stage
  let artifactPath ← e.scopeArtifactPath
  let artifactSha256 ← e.scopeArtifactSha256
  let evidenceKind ← e.scopeEvidenceKind
  return { wgId := e.wgId, actionId, stage, artifactPath, artifactSha256, evidenceKind }

def decodeScopeHandoffReceipt (e : NewMonitorEvent) : Except HandoffError ScopeHandoffReceipt :=
  match e.receipt.filter (isSemanticScopeReceipt digest) with
  | some r => .ok r
  | none => .error (.error "loop_events: malformed scope handoff receipt")

/-- What `insertScopeHandoffReceipt` inserts. -/
def ScopeHandoffReceipt.event (r : ScopeHandoffReceipt) (atMs : Int) : NewMonitorEvent where
  wgId := r.wgId
  kind := .stageAdvance
  stage := some r.stage
  actionId := some r.actionId
  scopeArtifactPath := some r.artifactPath
  scopeArtifactSha256 := some r.artifactSha256
  scopeEvidenceKind := some r.evidenceKind
  atMs := atMs

end

/-! ## The store -/

structure TaskCheckpoint where
  taskId : String
  stage : String
  scopeArtifacts : List String
  createdAtMs : Int
  updatedAtMs : Int
  deriving DecidableEq, Repr

/-- The events stand in the order of their insertion, hence of `seq`. `insertGuard`: the
trigger on `loop_events` is installed; `checkpointGuards`: those on `task_checkpoints`
are. -/
structure LoopStore where
  events : List MonitorEvent
  lastSeq : Nat
  insertGuard : Bool
  checkpoints : Table TaskCheckpoint.taskId
  checkpointGuards : Bool

def LoopStore.empty : LoopStore := ⟨[], 0, false, .empty, false⟩

/-- A new receipt is valid as far as SQL can tell. -/
def NewMonitorEvent.validReceipt (e : NewMonitorEvent) : Bool :=
  e.isReceipt && e.stage.any (· ≠ "") && e.scopeArtifactPath.any (· ≠ "") &&
    e.scopeArtifactSha256.any isSha256 && e.scopeEvidenceKind.isSome

namespace LoopStore

/-- The unique indexes exist before anybody inserts. -/
def insert (s : LoopStore) (e : NewMonitorEvent) : Except HandoffError LoopStore :=
  if s.insertGuard && e.named && !e.validReceipt then
    .error (.error "invalid scope-handoff receipt")
  else if e.isReceipt && s.events.any (fun old => old.isReceipt &&
      (old.actionId = e.actionId || old.wgId = e.wgId)) then
    .error (.error "UNIQUE constraint failed")
  else .ok { s with events := s.events ++ [{ e with seq := s.lastSeq + 1 }], lastSeq := s.lastSeq + 1 }

/-- The trigger on the checkpoints: a single artifact needs the receipt that names it. -/
def refuses (s : LoopStore) (cp : TaskCheckpoint) : Bool :=
  s.checkpointGuards && cp.scopeArtifacts.length = 1 &&
    !s.events.any fun e => e.wgId = cp.taskId && e.validReceipt &&
      e.scopeArtifactPath = cp.scopeArtifacts.head?

def checkpointRefused : HandoffError :=
  .error "checkpoint artifact requires a scope-handoff receipt"

def getTaskCheckpoint (s : LoopStore) (taskId : String) : Option TaskCheckpoint :=
  s.checkpoints.get taskId

/-- `ON CONFLICT DO NOTHING`. -/
def createTaskCheckpoint (s : LoopStore) (taskId stage : String) (nowMs : Int)
    (scopeArtifacts : List String) : Except HandoffError LoopStore :=
  let cp : TaskCheckpoint :=
    { taskId, stage, scopeArtifacts, createdAtMs := nowMs, updatedAtMs := nowMs }
  if s.refuses cp then .error checkpointRefused
  else if new : s.checkpoints.get taskId = none then
    .ok { s with checkpoints := s.checkpoints.add cp new }
  else .ok s

/-- `UPDATE task_checkpoints SET … WHERE task_id = ?`. -/
def updateCheckpoint (s : LoopStore) (taskId : String) (f : TaskCheckpoint → TaskCheckpoint)
    (keep : ∀ cp, (f cp).taskId = cp.taskId) : Except HandoffError LoopStore :=
  if (s.checkpoints.get taskId).any fun cp => s.refuses (f cp) then .error checkpointRefused
  else .ok { s with checkpoints := s.checkpoints.update taskId f fun cp here => (keep cp).trans here }

def updateTaskStage (s : LoopStore) (taskId stage : String) (nowMs : Int)
    (scopeArtifacts : Option (List String)) : Except HandoffError LoopStore :=
  s.updateCheckpoint taskId (fun cp => { cp with
    stage, updatedAtMs := nowMs, scopeArtifacts := scopeArtifacts.getD cp.scopeArtifacts }) fun _ => rfl

def setTaskArtifacts (s : LoopStore) (taskId : String) (files : List String) (nowMs : Int) :
    Except HandoffError LoopStore :=
  s.updateCheckpoint taskId (fun cp => { cp with scopeArtifacts := files, updatedAtMs := nowMs })
    fun _ => rfl

/-! ### Reading and writing receipts -/

section

variable (digest : Digest)

/-- The one receipt that passes the test, if there is one. -/
def readReceipt (s : LoopStore) (test : MonitorEvent → Bool) (duplicate : String) :
    Except HandoffError (Option ScopeHandoffReceipt) :=
  match (s.events.filter fun e => e.isReceipt && test e).reverse.take 2 with
  | [] => .ok none
  | [e] => (decodeScopeHandoffReceipt digest e.toNewMonitorEvent).map some
  | _ => .error (.error duplicate)

def readScopeHandoffByItem (s : LoopStore) (wgId : String) :
    Except HandoffError (Option ScopeHandoffReceipt) :=
  s.readReceipt digest (·.wgId = wgId) ("loop_events: duplicate scope handoff receipts for " ++ wgId)

def readScopeHandoffByAction (s : LoopStore) (actionId : String) :
    Except HandoffError (Option ScopeHandoffReceipt) :=
  s.readReceipt digest (·.actionId = some actionId)
    ("loop_events: duplicate scope handoff action " ++ actionId)

def readLegacyAutomationEntrySeqs (s : LoopStore) (wgId entryStage : String) : List Nat :=
  ((s.events.filter fun e => e.wgId = wgId && e.kind = .stageAdvance && e.stage = some entryStage &&
    e.actionId = none).reverse.take 2).map (·.seq)

def insertScopeHandoffReceipt (s : LoopStore) (r : ScopeHandoffReceipt) (atMs : Int) :
    Except HandoffError LoopStore :=
  if isSemanticScopeReceipt digest r then s.insert (r.event atMs)
  else .error (.error "loop_events: invalid scope handoff receipt")

def appendMonitorEvent (s : LoopStore) (e : NewMonitorEvent) : Except HandoffError LoopStore :=
  if e.actionId.any startsWithScopeHandoff then
    .error (.error "loop_events: scope-handoff action ids require the dedicated receipt writer")
  else s.insert e

/-- The check of `ensureLoopEventSchema`: every row of the namespace is a receipt of its
own item and action. -/
def checkReceipts : List MonitorEvent → List String → List String → Except HandoffError Unit
  | [], _, _ => .ok ()
  | e :: rest, actionIds, itemIds =>
      if e.named then
        match (e.receipt.filter fun r => e.kind = .stageAdvance && isSemanticScopeReceipt digest r) with
        | none => .error (.error "loop_events: malformed existing scope-handoff:v1 receipt")
        | some r =>
            if r.actionId ∈ actionIds ∨ r.wgId ∈ itemIds then
              .error (.error "loop_events: duplicate existing scope-handoff:v1 receipt")
            else checkReceipts rest (r.actionId :: actionIds) (r.wgId :: itemIds)
      else checkReceipts rest actionIds itemIds

end

end LoopStore

end Opensquid.Loop
