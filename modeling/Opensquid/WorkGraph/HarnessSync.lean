import Opensquid.Lib.Steps
import Opensquid.Lib.Whitespace
import Opensquid.WorkGraph.Facade

/-!
# Harness and work-graph

`syncHarnessToWorkgraph` projects a task list onto the board: an open task without a
binding gets an issue, a bound issue takes the status of its task. `reconcileHarnessWorkgraph`
does that and then computes what the task list should hear about the board.

One call is one step here: nobody else writes while it runs. A new issue has an id of its
own, that no task is bound to either.
-/

namespace Opensquid.WorkGraph

open Opensquid.Lib

/-! ## The binding overlay -/

/-- A row of `harness_map`. -/
structure HarnessBinding where
  project : String
  harnessTaskId : String
  wgIssueId : String
  deriving DecidableEq, Repr

def HarnessBinding.key (b : HarnessBinding) : String × String := (b.project, b.harnessTaskId)

/-- At most one binding per harness task of a project. -/
structure HarnessMap where
  rows : Table HarnessBinding.key

namespace HarnessMap

def empty : HarnessMap := ⟨.empty⟩

def lookup (m : HarnessMap) (project harnessId : String) : Option String :=
  (m.rows.get (project, harnessId)).map (·.wgIssueId)

/-- `ON CONFLICT DO NOTHING`: the first binding wins. -/
def bind (m : HarnessMap) (b : HarnessBinding) : HarnessMap :=
  if new : m.rows.get b.key = none then ⟨m.rows.add b new⟩ else m

/-- The first task bound to the issue. -/
def getByWgId (m : HarnessMap) (project wgId : String) : Option String :=
  (m.rows.rows.find? fun b => b.project = project && b.wgIssueId = wgId).map (·.harnessTaskId)

end HarnessMap

structure HarnessWorld where
  board : Board
  map : HarnessMap

/-- The ids of new issues. -/
structure NewIds where
  pick : HarnessWorld → String
  fresh : ∀ w : HarnessWorld, w.board.issues.get (pick w) = none
  unbound : ∀ (w : HarnessWorld) project harnessId, w.map.lookup project harnessId ≠ some (pick w)

/-! ## Harness to work-graph -/

structure HarnessTaskLike where
  id : String
  subject : String
  status : String
  taskId : Option String := none
  spec : Option String := none
  deriving DecidableEq, Repr

/-- What a task asks of its issue. -/
inductive SyncTarget
  | «open»
  | closed
  deriving DecidableEq, Repr

def SyncTarget.status : SyncTarget → IssueStatus
  | .open => .open
  | .closed => .closed

/-- Nothing for an unrecognized status. -/
def mapStatus (harnessStatus : String) : Option SyncTarget :=
  if harnessStatus ∈ ["pending", "in_progress"] then some .open
  else if harnessStatus ∈ ["completed", "deleted"] then some .closed
  else none

def harnessTaskStamp : String := "harness-task:"

/-- Some line starts with the stamp. -/
def isHarnessOwnedBody (body : String) : Bool :=
  (body.toList.splitOn '\n').any fun line => harnessTaskStamp.toList.isPrefixOf line

def provenanceBody (t : HarnessTaskLike) : String :=
  let taskSpec := (t.taskId.filter (· ≠ "")).toList.map ("task-spec:" ++ ·)
  let spec := (t.spec.filter (· ≠ "")).toList.map ("spec:" ++ ·)
  "\n".intercalate ((harnessTaskStamp ++ t.id) :: taskSpec ++ spec)

structure SyncResult where
  created : List String := []
  updated : List String := []
  skippedClosed : List String := []
  staleOpenHarnessIds : List String := []
  deriving DecidableEq, Repr

def titleOf (t : HarnessTaskLike) : String :=
  if trim t.subject.toList ≠ [] then t.subject else "harness task " ++ t.id

section

variable (ids : NewIds) (project : String)

/-- An open task without a binding. -/
def materialize (t : HarnessTaskLike) (w : HarnessWorld) : HarnessWorld where
  board := w.board.create (titleOf t) (provenanceBody t) (ids.pick w) (ids.fresh w)
  map := w.map.bind ⟨project, t.id, ids.pick w⟩

/-- `wg.updateIssue(existing, { status })`. -/
def HarnessWorld.setStatus (w : HarnessWorld) (existing : String) (status : IssueStatus) :
    HarnessWorld where
  board := w.board.modify existing (IssuePatch.apply { status := some status }) (IssuePatch.apply_id _)
  map := w.map

/-- One round of the loop. -/
def syncTask (t : HarnessTaskLike) (w : HarnessWorld) (r : SyncResult) : HarnessWorld × SyncResult :=
  match mapStatus t.status with
  | none => (w, r)
  | some target =>
      match w.map.lookup project t.id with
      | none =>
          if target = .open then (materialize ids project t w, { r with created := r.created ++ [t.id] })
          else (w, r)
      | some existing =>
          match w.board.issue existing with
          | none => (w, r)
          | some issue =>
              if issue.status = .closed then
                (w, { r with
                  skippedClosed := r.skippedClosed ++ [existing]
                  staleOpenHarnessIds :=
                    r.staleOpenHarnessIds ++ if target = .open then [t.id] else [] })
              else if issue.status ≠ target.status then
                (w.setStatus existing target.status, { r with updated := r.updated ++ [existing] })
              else (w, r)

def syncTasks : List HarnessTaskLike → HarnessWorld → SyncResult → HarnessWorld × SyncResult
  | [], w, r => (w, r)
  | t :: rest, w, r =>
      let (w, r) := syncTask ids project t w r
      syncTasks rest w r

def syncHarnessToWorkgraph (tasks : List HarnessTaskLike) (w : HarnessWorld) :
    HarnessWorld × SyncResult :=
  syncTasks ids project tasks w {}

/-! ## Work-graph to harness -/

inductive OutboundDelta
  | create (wgId title : String)
  | status (harnessId : String)
  | close (harnessId : String)
  deriving DecidableEq, Repr

/-- The task that the delta marks as done. -/
def OutboundDelta.completes : OutboundDelta → Option String
  | .create .. => none
  | .status harnessId | .close harnessId => some harnessId

structure ReconcileResult extends SyncResult where
  outbound : List OutboundDelta
  deriving DecidableEq, Repr

def existenceOps : List String := ["issue_created", "issue_set", "issue_archived", "issue_unarchived"]

/-- The issues of the ops that say something about existence or status, each one once. -/
def existenceIssueIds (wgOps : List WgOp) : List String :=
  wgOps.foldl (fun out op =>
    if op.payload.type ∉ existenceOps ∨ op.issueId ∈ out then out else out ++ [op.issueId]) []

/-- The tasks that have got their delta, and the deltas. -/
abbrev Emitted := List String × List OutboundDelta

def emitClose (e : Emitted) (harnessId : String) : Emitted :=
  if harnessId ∈ e.1 then e else (e.1 ++ [harnessId], e.2 ++ [.close harnessId])

def emitOp (w : HarnessWorld) (e : Emitted) (issueId : String) : Emitted :=
  match w.board.issue issueId with
  | none => e
  | some issue =>
      if isHarnessOwnedBody issue.body then e
      else match w.map.getByWgId project issueId with
        | none =>
            if issue.status.terminal then e else (e.1, e.2 ++ [.create issueId issue.title])
        | some harnessId =>
            if issue.status.terminal && harnessId ∉ e.1 then
              (e.1 ++ [harnessId], e.2 ++ [.status harnessId])
            else e

def reconcileHarnessWorkgraph (tasks : List HarnessTaskLike) (wgOps : List WgOp) (w : HarnessWorld) :
    HarnessWorld × ReconcileResult :=
  let (w, inbound) := syncHarnessToWorkgraph ids project tasks w
  let closed := inbound.staleOpenHarnessIds.foldl emitClose ([], [])
  let emitted := (existenceIssueIds wgOps).foldl (emitOp project w) closed
  (w, { inbound with outbound := emitted.2 })

end

end Opensquid.WorkGraph
