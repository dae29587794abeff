import Opensquid.WorkGraph.Types
import Mathlib.Logic.Function.Basic

/-!
# The work-graph reducer

`applyOp` folds one op into the projection: one SQL statement for each op type,
with the statement's `WHERE` clause as a test on the row. A table is a partial
function from its primary key to its row.

The lemmas below say of every op which single row it may change
(`applyOp_issues`, `applyOp_edges`) and what it does there
(`WgOp.issueStep`, `WgOp.edgeStep`); everything later is proved from that view.
-/

namespace Opensquid.WorkGraph

/-- The two projected tables. -/
@[ext] structure Projection where
  issues : String → Option IssueRow
  edges : String → Option EdgeRow

/-- Freshly created tables. -/
def Projection.empty : Projection := ⟨fun _ => none, fun _ => none⟩

/-- `INSERT OR IGNORE INTO wg_issues`. -/
def Projection.insertIssueOrIgnore (p : Projection) (row : IssueRow) : Projection :=
  { p with issues := Function.update p.issues row.id (some ((p.issues row.id).getD row)) }

/-- `UPDATE wg_issues SET set WHERE id = ? AND cond`. -/
def Projection.updateIssueWhere (p : Projection) (id : String)
    (cond : IssueRow → Bool) (set : IssueRow → IssueRow) : Projection :=
  { p with
    issues := Function.update p.issues id
      ((p.issues id).map fun row => if cond row then set row else row) }

/-- `INSERT INTO wg_edges … ON CONFLICT(edge_key) DO UPDATE SET type`. -/
def Projection.upsertEdge (p : Projection) (row : EdgeRow) : Projection :=
  { p with
    edges := Function.update p.edges row.edgeKey
      (some (match p.edges row.edgeKey with
        | some old => { old with type := row.type }
        | none => row)) }

/-- `DELETE FROM wg_edges WHERE edge_key = ?`. -/
def Projection.deleteEdge (p : Projection) (key : String) : Projection :=
  { p with edges := Function.update p.edges key none }

/-- The claim compare-and-set: the issue is open and its claim is absent or has
expired at `ts`. Timestamps are compared as text, as the column is. -/
def IssueRow.claimable (row : IssueRow) (ts : String) : Bool :=
  row.status = .open ∧
    (row.claimToken = none ∨ ∃ expiresAt ∈ row.claimExpiresAt, expiresAt ≤ ts)

/-- Fold one op into the projection. -/
def applyOp (digest : Digest) (p : Projection) (op : WgOp) : Projection :=
  match op.payload with
  | .issueCreated title body =>
      p.insertIssueOrIgnore
        { id := op.issueId, title, body, status := .open, createdAt := op.ts,
          updatedAt := op.ts, lww := op.lamport, claimToken := none, claimAudience := none,
          claimExpiresAt := none, wedgeReason := none, archiveReason := none,
          project := op.project, createdLamport := op.lamport, actorId := op.actorId }
  | .issueSet title body status =>
      -- COALESCE keeps the columns the patch leaves out
      p.updateIssueWhere op.issueId (fun row => row.lww ≤ op.lamport) fun row =>
        { row with
          title := title.getD row.title, body := body.getD row.body,
          status := status.getD row.status, updatedAt := op.ts, lww := op.lamport }
  | .depAdded fromId toId type =>
      p.upsertEdge
        { edgeKey := edgeKey digest fromId toId, fromId, toId, type, project := op.project }
  | .depRemoved fromId toId => p.deleteEdge (edgeKey digest fromId toId)
  | .issueArchived reason =>
      p.updateIssueWhere op.issueId (fun row => row.lww ≤ op.lamport) fun row =>
        { row with
          status := .archived, archiveReason := some (reason.getD ""),
          updatedAt := op.ts, lww := op.lamport }
  | .issueUnarchived =>
      p.updateIssueWhere op.issueId (fun row => row.lww ≤ op.lamport) fun row =>
        { row with status := .open, archiveReason := none, updatedAt := op.ts, lww := op.lamport }
  | .claimAcquired claimToken audience expiresAt =>
      p.updateIssueWhere op.issueId (fun row => row.claimable op.ts) fun row =>
        { row with
          claimToken := some claimToken, claimAudience := some audience,
          claimExpiresAt := some expiresAt, updatedAt := op.ts }
  | .claimRenewed expectedToken expiresAt =>
      p.updateIssueWhere op.issueId
        (fun row => row.status = .open ∧ row.claimToken = some expectedToken) fun row =>
        { row with claimExpiresAt := some expiresAt, updatedAt := op.ts }
  | .wedgeMarked reason =>
      p.updateIssueWhere op.issueId (fun _ => true) fun row =>
        { row with wedgeReason := some reason, updatedAt := op.ts }
  | .wedgeCleared =>
      p.updateIssueWhere op.issueId (fun _ => true) fun row =>
        { row with wedgeReason := none, updatedAt := op.ts }
  | .claimReleased expectedToken =>
      -- an absent token and an empty one are the same here: both release unconditionally
      let expected := expectedToken.getD ""
      p.updateIssueWhere op.issueId
        (fun row => expected = "" ∨ row.claimToken = some expected) fun row =>
        { row with
          claimToken := none, claimAudience := none, claimExpiresAt := none, updatedAt := op.ts }

/-! ## One op, one row -/

/-- What an op does to the row of the issue it names. -/
def WgOp.issueStep (digest : Digest) (op : WgOp) (row : Option IssueRow) : Option IssueRow :=
  (applyOp digest ⟨fun _ => row, fun _ => none⟩ op).issues op.issueId

/-- The key of the edge row an op writes, if it is a dependency op. -/
def WgOp.edgeTarget (digest : Digest) (op : WgOp) : Option String :=
  match op.payload with
  | .depAdded fromId toId _ => some (edgeKey digest fromId toId)
  | .depRemoved fromId toId => some (edgeKey digest fromId toId)
  | _ => none

/-- What a dependency op does to the row of its edge. -/
def WgOp.edgeStep (digest : Digest) (op : WgOp) (row : Option EdgeRow) : Option EdgeRow :=
  match op.payload with
  | .depAdded fromId toId type =>
      match row with
      | some old => some { old with type }
      | none =>
          some { edgeKey := edgeKey digest fromId toId, fromId, toId, type, project := op.project }
  | .depRemoved .. => none
  | _ => row

variable {digest : Digest}

/-- An update whose condition the row refuses changes nothing. -/
theorem Projection.updateIssueWhere_of_refused {p : Projection} {id : String}
    {cond : IssueRow → Bool} {set : IssueRow → IssueRow} {row : IssueRow}
    (present : p.issues id = some row) (refused : cond row = false) :
    p.updateIssueWhere id cond set = p := by
  have same : Function.update p.issues id (some row) = p.issues :=
    present ▸ Function.update_eq_self id p.issues
  simp only [updateIssueWhere, present, Option.map_some, refused, Bool.false_eq_true, ↓reduceIte,
    same]

/-- An op rewrites the row of its issue and no other issue row. -/
theorem applyOp_issues (p : Projection) (op : WgOp) :
    (applyOp digest p op).issues =
      Function.update p.issues op.issueId (op.issueStep digest (p.issues op.issueId)) := by
  cases payload : op.payload <;>
    simp only [applyOp, WgOp.issueStep, payload, Projection.updateIssueWhere,
      Projection.insertIssueOrIgnore, Projection.upsertEdge, Projection.deleteEdge,
      Function.update_self, Function.update_eq_self]

theorem applyOp_issues_self (p : Projection) (op : WgOp) :
    (applyOp digest p op).issues op.issueId = op.issueStep digest (p.issues op.issueId) := by
  rw [applyOp_issues, Function.update_self]

theorem applyOp_issues_of_ne {p : Projection} {op : WgOp} {id : String} (other : id ≠ op.issueId) :
    (applyOp digest p op).issues id = p.issues id := by
  rw [applyOp_issues, Function.update_of_ne other]

/-- A dependency op rewrites the row of its edge and no other edge row; any
other op leaves the edge table alone. -/
theorem applyOp_edges (p : Projection) (op : WgOp) :
    (applyOp digest p op).edges =
      match op.edgeTarget digest with
      | some key => Function.update p.edges key (op.edgeStep digest (p.edges key))
      | none => p.edges := by
  cases payload : op.payload with
  | depAdded fromId toId type =>
      simp only [applyOp, WgOp.edgeTarget, WgOp.edgeStep, payload, Projection.upsertEdge]
      split <;> rfl
  | _ =>
      simp only [applyOp, WgOp.edgeTarget, WgOp.edgeStep, payload, Projection.deleteEdge,
        Projection.updateIssueWhere, Projection.insertIssueOrIgnore]

/-- A dependency op changes no issue row. -/
theorem WgOp.issueStep_of_edgeTarget {op : WgOp} {key : String}
    (target : op.edgeTarget digest = some key) (row : Option IssueRow) :
    op.issueStep digest row = row := by
  cases payload : op.payload <;> simp only [WgOp.edgeTarget, payload, reduceCtorEq] at target
  · simp only [WgOp.issueStep, applyOp, payload, Projection.upsertEdge]
  · simp only [WgOp.issueStep, applyOp, payload, Projection.deleteEdge]

end Opensquid.WorkGraph
