import Opensquid.Guard.OrchestratorGuard

/-!
# Write lanes

The paths that a stage may write, and what a tool call in an engaged scope is decided by.
Globs are matched by `minimatch` with `dot: true`.
-/

namespace Opensquid.Loop

open Opensquid.Lib Opensquid.Guard

/-- The function of that package: does the path match the glob? -/
abbrev Minimatch := String → String → Bool

def extractWritePath (tool : String) (args : Args) : Option String :=
  if toolMatches tool ["Write", "Edit", "NotebookEdit"] then (targetPath args).filter (· ≠ "")
  else none

def matchesLane (minimatch : Minimatch) (path : String) (globs : List String) : Bool :=
  globs.any fun g => minimatch path g || minimatch path ("**/" ++ g)

structure LaneVerdict where
  checked : Bool
  path : Option String
  outOfLane : Bool
  deriving DecidableEq, Repr

/-- No decision. -/
def LaneVerdict.inert : LaneVerdict := ⟨false, none, false⟩

def evaluateLane (minimatch : Minimatch) (writes : List String) (tool : String) (args : Args) :
    LaneVerdict :=
  if writes = [] then .inert
  else if !isMutatingCall tool args then .inert
  else
    match extractWritePath tool args with
    | none => .inert
    | some path => ⟨true, some path, !matchesLane minimatch path writes⟩

def laneBlockMessage (stage path : String) (writes : List String) : String :=
  "🦑 [write-lane] the " ++ stage ++ " stage may write only: " ++ ", ".intercalate writes ++ " — " ++
    "\"" ++ path ++ "\" is out of lane. Stay in this stage's lane, or advance the flow to the " ++
    "stage that owns this path."

/-! ## Engaged scopes -/

inductive ScopeEngagement
  | engaged (itemId stage : String) (writes : List String)
  | unengaged
  | indeterminate (itemId : Option String) (reason : String)
  deriving DecidableEq, Repr

inductive EngagedWriteDecision
  | notApplicable
  | allow
  | deny (message : String)
  deriving DecidableEq, Repr

def indeterminateMessage (itemId : Option String) (reason : String) : String :=
  "scope engagement is indeterminate" ++ (itemId.elim "" (" for " ++ ·)) ++ ": " ++ reason

def decideFullstackScopeWrite (minimatch : Minimatch) (engagement : ScopeEngagement) (tool : String)
    (args : Args) : EngagedWriteDecision :=
  match engagement with
  | .unengaged => .notApplicable
  | .indeterminate itemId reason =>
      if isMutatingCall tool args then .deny (indeterminateMessage itemId reason) else .allow
  | .engaged _ stage writes =>
      match evaluateLane minimatch writes tool args with
      | ⟨true, some path, true⟩ => .deny (laneBlockMessage stage path writes)
      | _ => .allow

end Opensquid.Loop
