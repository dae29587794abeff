import Opensquid.Lib.Steps
import Opensquid.Loop.LoopEvents

/-!
# The scope handoff

`persistHandoff` writes down, in one transaction, that a human has approved the scope
artifact of an item: a receipt, and the item's checkpoint at the entry stage. Before the
transaction it installs the schema, statement by statement; a process does that once. The
transaction is serialised by SQLite, the other statements are not: between any two of them
other processes act.

The receipts are unique and a handoff happens once as long as nobody appends an event whose
action id spells the namespace with another letter case while a process that is starting up
has dropped the insert guard (`handoff_once`, `foreignId_blocks`).
-/

namespace Opensquid.Ralph

open Opensquid.Lib Opensquid.WorkGraph Opensquid.Loop

/-! ## The transaction -/

inductive ScopeHandoffTransition
  | entered
  | reused
  | repaired
  deriving DecidableEq, Repr

structure ScopeHandoffPolicy where
  initialStage : String
  entryStage : String
  repairStages : List String
  deriving DecidableEq, Repr

structure HandoffInput where
  wgId : String
  artifact : String
  artifactSha256 : String
  actionId : String
  nowMs : Int
  policy : ScopeHandoffPolicy
  deriving DecidableEq, Repr

structure PersistedClassification where
  transition : ScopeHandoffTransition
  checkpointStage : String
  receipt : ScopeHandoffReceipt
  deriving DecidableEq, Repr

/-- The statements of the transaction, each of which SQLite may fail to execute. -/
inductive TxStatement
  | begin
  | checkpoint
  | byItem
  | byAction
  | legacy
  | insert
  | write
  | commit
  deriving DecidableEq, Repr

def conflict (message : String) : HandoffError := .handoff .conflict message

/-- The only artifact of the checkpoint. -/
def checkpointPath (cp : TaskCheckpoint) : Option String :=
  match cp.scopeArtifacts with
  | [path] => some path
  | _ => none

def assertReusableCheckpoint (cp : Option TaskCheckpoint) (canonicalArtifact : String)
    (policy : ScopeHandoffPolicy) : Except HandoffError TaskCheckpoint :=
  match cp.filter fun cp => cp.stage ∈ policy.repairStages && cp.stage ≠ policy.initialStage &&
      checkpointPath cp = some canonicalArtifact with
  | some cp => .ok cp
  | none => .error (conflict "scope handoff receipt conflicts with the current checkpoint")

section

variable (input : HandoffInput)

/-- The item has a receipt. -/
def reuse (cp : Option TaskCheckpoint) (byItem : ScopeHandoffReceipt)
    (byAction : Option ScopeHandoffReceipt) : Except HandoffError PersistedClassification :=
  if byItem.actionId ≠ input.actionId ∨ byItem.artifactPath ≠ input.artifact ∨
      byAction.map (·.wgId) ≠ some input.wgId then
    .error (conflict "scope handoff already exists for a different artifact")
  else
    (assertReusableCheckpoint cp input.artifact input.policy).map fun current =>
      { transition := .reused, checkpointStage := current.stage, receipt := byItem }

/-- The item has no receipt: it enters, or its checkpoint is repaired. -/
def classify (cp : Option TaskCheckpoint) (legacySeqs : List Nat) :
    Except HandoffError (ScopeHandoffTransition × String × ScopeEvidenceKind) :=
  if cp.all (·.stage = input.policy.initialStage) then
    if legacySeqs ≠ [] then
      .error (conflict "legacy automation-entry history has no matching eligible checkpoint")
    else if cp.any fun cp => cp.scopeArtifacts ≠ [] && checkpointPath cp ≠ some input.artifact then
      .error (conflict "scope checkpoint already references a different artifact")
    else .ok (.entered, input.policy.entryStage, .approval)
  else
    (assertReusableCheckpoint cp input.artifact input.policy).map fun current =>
      (.repaired, current.stage, .legacyRepair)

/-- The checkpoint of an item that enters. -/
def enter (s : LoopStore) : Option TaskCheckpoint → Except HandoffError LoopStore
  | none => s.createTaskCheckpoint input.wgId input.policy.entryStage input.nowMs [input.artifact]
  | some _ =>
      s.updateTaskStage input.wgId input.policy.entryStage input.nowMs (some [input.artifact])

/-- The statement is executed. -/
def execute (faults : List TxStatement) (statement : TxStatement) : Except HandoffError Unit :=
  if statement ∈ faults then .error .sqlite else .ok ()

variable (digest : Digest) (faults : List TxStatement) (s : LoopStore)

/-- A repaired item keeps its checkpoint. -/
def writeCheckpoint (transition : ScopeHandoffTransition) (cp : Option TaskCheckpoint) :
    Except HandoffError LoopStore :=
  if transition = .entered then do
    execute faults .write
    enter input s cp
  else return s

/-- The item has no receipt, and it gets one. -/
def admitItem (cp : Option TaskCheckpoint) (legacySeqs : List Nat) :
    Except HandoffError (PersistedClassification × LoopStore) := do
  let (transition, checkpointStage, evidenceKind) ← classify input cp legacySeqs
  let receipt : ScopeHandoffReceipt :=
    { wgId := input.wgId, actionId := input.actionId, stage := checkpointStage,
      artifactPath := input.artifact, artifactSha256 := input.artifactSha256, evidenceKind }
  execute faults .insert
  let inserted ← s.insertScopeHandoffReceipt digest receipt input.nowMs
  let written ← writeCheckpoint input faults inserted transition cp
  execute faults .commit
  return ({ transition, checkpointStage, receipt }, written)

/-- The body of the transaction, on the store it began on. -/
def handoffTx : Except HandoffError (PersistedClassification × LoopStore) := do
  execute faults .begin
  execute faults .checkpoint
  let cp := s.getTaskCheckpoint input.wgId
  execute faults .byItem
  let byItem ← s.readScopeHandoffByItem digest input.wgId
  execute faults .byAction
  let byAction ← s.readScopeHandoffByAction digest input.actionId
  execute faults .legacy
  let legacySeqs := s.readLegacyAutomationEntrySeqs input.wgId input.policy.entryStage
  match byItem, byAction with
  | some byItem, byAction => do
      let reused ← reuse input cp byItem byAction
      execute faults .commit
      return (reused, s)
  | none, some _ =>
      throw (conflict "scope handoff action identity collides with another item")
  | none, none => admitItem input digest faults s cp legacySeqs

/-- What the call returns or throws, and the store it leaves: an error rolls back. -/
def runHandoff : Except HandoffError PersistedClassification × LoopStore :=
  match handoffTx input digest faults s with
  | .ok (c, t) => (.ok c, t)
  | .error e => (.error e, s)

end

/-! ## The system -/

/-- How far the schema setup of a process has come. -/
inductive SchemaSetup
  | absent
  | checked
  | dropped
  | ready
  deriving DecidableEq, Repr

inductive HandoffPhase
  | waiting
  | installed
  | returned (outcome : Except HandoffError PersistedClassification)
  deriving DecidableEq

structure HandoffCall where
  proc : Nat
  input : HandoffInput
  phase : HandoffPhase
  deriving DecidableEq

/-- A write of the coordinator; `upsertTaskStage` makes some of these, one after another. -/
inductive CheckpointWrite
  | createTaskCheckpoint (taskId stage : String) (nowMs : Int)
  | updateTaskStage (taskId stage : String) (nowMs : Int)
  | setTaskArtifacts (taskId : String) (files : List String) (nowMs : Int)
  deriving DecidableEq, Repr

def CheckpointWrite.apply (s : LoopStore) : CheckpointWrite → Except HandoffError LoopStore
  | .createTaskCheckpoint taskId stage nowMs => s.createTaskCheckpoint taskId stage nowMs []
  | .updateTaskStage taskId stage nowMs => s.updateTaskStage taskId stage nowMs none
  | .setTaskArtifacts taskId files nowMs => s.setTaskArtifacts taskId files nowMs

structure HandoffSys where
  store : LoopStore
  setup : Nat → SchemaSetup
  calls : List HandoffCall

def HandoffSys.init (store : LoopStore) : HandoffSys := ⟨store, fun _ => .absent, []⟩

inductive HandoffEvent
  /-- A process calls `persistHandoff`. -/
  | call (proc : Nat) (input : HandoffInput)
  /-- The next statement of the schema setup of a process. -/
  | schema (proc : Nat)
  /-- That statement fails, and with it the setup. -/
  | schemaFails (proc : Nat)
  /-- A call whose process is set up installs the triggers on the checkpoints. -/
  | install (call : Nat)
  /-- A call runs its transaction. -/
  | transact (call : Nat) (faults : List TxStatement)
  | append (proc : Nat) (event : NewMonitorEvent)
  | checkpoint (write : CheckpointWrite)
  deriving DecidableEq, Repr

def HandoffCall.waits (c : HandoffCall) (proc : Nat) : Bool := c.proc = proc && c.phase = .waiting

/-- The setup of a process has failed: its calls throw, and the next one starts over. -/
def HandoffSys.reject (s : HandoffSys) (proc : Nat) (e : HandoffError) : HandoffSys :=
  { s with
    setup := Function.update s.setup proc .absent
    calls := s.calls.map fun c => if c.waits proc then { c with phase := .returned (.error e) } else c }

section

variable (digest : Digest)

/-- One statement of `ensureLoopEventSchema`: the check of the receipts, the drop of the
insert guard, its creation. -/
def HandoffSys.schema (s : HandoffSys) (proc : Nat) : Option HandoffSys :=
  match s.setup proc with
  | .absent =>
      match LoopStore.checkReceipts digest s.store.events [] [] with
      | .ok () => some { s with setup := Function.update s.setup proc .checked }
      | .error e => some (s.reject proc e)
  | .checked => some { s with
      setup := Function.update s.setup proc .dropped
      store := { s.store with insertGuard := false } }
  | .dropped => some { s with
      setup := Function.update s.setup proc .ready
      store := { s.store with insertGuard := true } }
  | .ready => none

def HandoffSys.step (s : HandoffSys) : HandoffEvent → Option HandoffSys
  | .call proc input => some { s with calls := s.calls ++ [⟨proc, input, .waiting⟩] }
  | .schema proc => s.schema digest proc
  | .schemaFails proc => if s.setup proc = .ready then none else some (s.reject proc .sqlite)
  | .install n => do
      let c ← s.calls[n]?
      if c.phase = .waiting ∧ s.setup c.proc = .ready then
        some { s with
          store := { s.store with checkpointGuards := true }
          calls := s.calls.set n { c with phase := .installed } }
      else none
  | .transact n faults => do
      let c ← s.calls[n]?
      if c.phase = .installed then
        let (outcome, store) := runHandoff c.input digest faults s.store
        some { s with store, calls := s.calls.set n { c with phase := .returned outcome } }
      else none
  | .append proc e =>
      if s.setup proc = .ready then
        some { s with store := (s.store.appendMonitorEvent e).toOption.getD s.store }
      else none
  | .checkpoint write => some { s with store := (write.apply s.store).toOption.getD s.store }

end

end Opensquid.Ralph
