import Opensquid.WorkGraph.Facade

/-!
# Board availability

What the loop finds when nothing is ready for it: the board is empty if every issue is
terminal; else each other issue waits for a reason.
-/

namespace Opensquid.Ralph

open Opensquid.Lib Opensquid.WorkGraph

inductive BoardWaitReason
  | admission
  | wedged
  | claimed
  | blocked
  | inProgress
  | unavailable
  deriving DecidableEq, Repr

structure BoardWaitingItem where
  id : String
  reason : BoardWaitReason
  detail : Option String := none
  deriving DecidableEq, Repr

inductive BoardAvailability
  | empty
  | waiting (waiting : List BoardWaitingItem)
  deriving DecidableEq, Repr

/-- A claim without an expiry is live. -/
def hasLiveClaim (i : Issue) (nowIso : String) : Bool :=
  i.claimToken.isSome && (i.claimExpiresAt.all fun expiresAt => nowIso < expiresAt)

/-- The issues that block this one, in the order of their edges. -/
def blockersOf (issues : List Issue) (edges : List Edge) (id : String) : List String :=
  (edges.filter fun e => e.type = .blocks && e.toId = id &&
    (issues.find? (·.id = e.fromId)).any (!·.status.terminal)).map (·.fromId)

def waitingItem (issues : List Issue) (edges : List Edge) (admissionHeldIds : List String)
    (nowIso : String) (i : Issue) : BoardWaitingItem :=
  if i.status = .inProgress then { id := i.id, reason := .inProgress }
  else if i.wedgeReason.isSome then { id := i.id, reason := .wedged, detail := i.wedgeReason }
  else if hasLiveClaim i nowIso then
    { id := i.id, reason := .claimed, detail := i.claimExpiresAt }
  else if i.id ∈ admissionHeldIds then { id := i.id, reason := .admission }
  else
    let blockedBy := blockersOf issues edges i.id
    if blockedBy ≠ [] then
      { id := i.id, reason := .blocked,
        detail := some (",".intercalate (blockedBy.insertionSort (· ≤ ·))) }
    else { id := i.id, reason := .unavailable }

def inspectBoardAvailability (admissionHeldIds : List String) (nowIso : String) :
    Async BoardAvailability := do
  let issues ← Wg.listIssues
  let edges ← Wg.listEdges
  let live := issues.filter (!·.status.terminal)
  if live = [] then return .empty
  else return .waiting (live.map (waitingItem issues edges admissionHeldIds nowIso))

/-- An empty board has no live issue. -/
theorem inspect_always {digest : Digest} {b : Board} {held : List String} {nowIso : String} :
    (inspectBoardAvailability held nowIso).Always (Board.exec digest) (fun _ t => t = b)
      (fun o t => t = b ∧ (o = some .empty → ∀ id i, b.issue id = some i → i.status.terminal = true))
      b := by
  refine Program.Always.bind (Wg.listIssues_always rfl ?_)
  refine Program.Always.bind (Wg.listEdges_always rfl ?_)
  dsimp only
  split
  · rename_i none_live
    refine ⟨rfl, fun _ id i here => ?_⟩
    by_contra live
    have mem : i ∈ b.issues.rows.filter (!·.status.terminal) :=
      List.mem_filter.mpr ⟨Table.mem_of_get here, by simpa using live⟩
    rw [none_live] at mem
    cases mem
  · exact ⟨rfl, nofun⟩

end Opensquid.Ralph
