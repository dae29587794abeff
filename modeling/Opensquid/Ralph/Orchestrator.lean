import Opensquid.Loop.ParentRollup
import Opensquid.Loop.Reaper
import Opensquid.Ralph.BoardAvailability
import Opensquid.Ralph.Laps

/-!
# The ralph loop

One pass takes the oldest ready item, claims it, drives it and settles the outcome: the
item is closed (and its parents are rolled up), parked and escalated, or left to wait for
input. The loop ends when nothing is eligible, at a resource pause, or when the budget is
spent.

The loop is a `Program` of calls; a call that is a function of its own (a drive, a reap)
runs that function's program. `World.trace` writes down every call with its reply, the
last one first. A wedged parent can be closed by the roll-up, and a lap can claim that the
board is empty (`parkedParent_closed`, `lap_says_empty`); without these two the results
of the loop are right (`runRalphLoop_sound`).
-/

namespace Opensquid.Ralph

open Opensquid.Lib Opensquid.WorkGraph Opensquid.Loop

/-! ## The consistency gate -/

inductive GitCall
  | tip (ref : Option String)
  | committedSince (baseSha : String) (ref : Option String)
  | uncommittedPaths
  deriving DecidableEq, Repr

@[reducible] def GitCall.Reply : GitCall → Type
  | .tip _ => String
  | .committedSince .. | .uncommittedPaths => List String

def durableItemCommitExists (baseSha : String) (targetRef : Option String) :
    Program GitCall GitCall.Reply Bool := do
  let tip ← Program.await (GitCall.tip targetRef)
  let committed ← Program.await (GitCall.committedSince baseSha targetRef)
  let advanced := tip ≠ baseSha ∧ committed ≠ []
  if ¬ advanced then return false
  else do
    let dirty ← Program.await GitCall.uncommittedPaths
    return committed.all (· ∉ dirty)

/-- What git answers: a tip or paths. -/
structure GitAnswer where
  sha : Option String := none
  paths : Option (List String) := none
  deriving DecidableEq, Repr

def GitCall.exec (op : GitCall) (answer : GitAnswer) (u : Unit) : Option (Unit × Option op.Reply) :=
  match op with
  | .tip _ => some (u, answer.sha)
  | .committedSince .. | .uncommittedPaths => some (u, answer.paths)

/-! ## The calls of the loop -/

inductive LoopCall
  | wg (call : WgCall)
  | baseRefresh
  | admissionGate (item : Issue)
  | reap
  | inspect (admissionHeldIds : List String)
  | rollUp (closedChildId : String)
  | tip (ref : Option String)
  | durable (baseSha : String) (ref : Option String)
  | drive (item : Issue)
  | clearStage (itemId : String)
  | escalate (reason : HumanRequiredReason) (item : Option String)
  deriving DecidableEq, Repr

/-- Of a base refresh: whether it is a conflict; of the admission gate: whether it says
`drive`; of an escalation: whether it was delivered. -/
@[reducible] def LoopCall.Reply : LoopCall → Type
  | .wg call => call.Reply
  | .baseRefresh | .admissionGate _ | .durable .. | .escalate .. => Bool
  | .reap | .rollUp _ => List String
  | .inspect _ => BoardAvailability
  | .tip _ => String
  | .drive _ => LapResult
  | .clearStage _ => Unit

abbrev Loop := Program LoopCall LoopCall.Reply

structure Environments where
  staging : Option String
  localBranch : String
  deriving DecidableEq, Repr

/-- What is configured and which of the optional hooks are given. -/
structure RalphDeps where
  apiMode : Bool := false
  maxBudgetUsd : ℚ := 0
  maxRetries : Nat := 0
  stageLoop : Option StageLoop := none
  git : Bool := false
  environments : Option Environments := none
  baseRefresh : Bool := false

/-- The configured integration target; nothing stands for HEAD. -/
def RalphDeps.target (deps : RalphDeps) : Option String :=
  deps.environments.map fun e => e.staging.getD e.localBranch

/-- The environment at one call. -/
structure Answer where
  /-- Of a work-graph call, or of each one that a called function makes. -/
  choice : Choice := {}
  choices : List Choice := []
  laps : List LapAnswer := []
  git : List GitAnswer := []
  flag : Option Bool := none
  sha : Option String := none
  fails : Bool := false
  deriving DecidableEq

/-- A call, and what it has replied, if it has not failed. -/
structure Seen where
  op : LoopCall
  reply : Option op.Reply

structure World extends LapWorld where
  trace : List Seen

section

variable (digest : Digest) (deps : RalphDeps)

def LapWorld.onBoard {α : Type} (w : LapWorld) (done : Option (Board × Option α)) :
    Option (LapWorld × Option α) :=
  done.map fun (board, reply) => ({ w with board }, reply)

/-- What a call does. A drive makes at least one call in every round, so its answers bound
the rounds. -/
def LoopCall.effect (op : LoopCall) (a : Answer) (w : LapWorld) :
    Option (LapWorld × Option op.Reply) :=
  match op with
  | .wg call => if a.fails then some (w, none) else w.onBoard (Board.exec digest call a.choice w.board)
  | .reap => w.onBoard (reapOrphans.run (Board.exec digest) a.choices w.board)
  | .inspect held =>
      w.onBoard ((inspectBoardAvailability held a.choice.now).run (Board.exec digest) a.choices w.board)
  | .rollUp id => w.onBoard ((rollUpParents id).run (Board.exec digest) a.choices w.board)
  | .drive item =>
      (driveClaimedItem deps.stageLoop deps.maxRetries (a.laps.length + 1) item).run LapCall.exec
        a.laps w
  | .durable baseSha ref =>
      ((durableItemCommitExists baseSha ref).run GitCall.exec a.git ()).map fun (_, reply) => (w, reply)
  | .tip _ => some (w, a.sha)
  | .clearStage _ => some (w, if a.fails then none else some ())
  | .baseRefresh | .admissionGate _ | .escalate .. => some (w, a.flag)

def LoopCall.exec (op : LoopCall) (a : Answer) (w : World) : Option (World × Option op.Reply) :=
  (op.effect digest deps a w.toLapWorld).map fun (v, reply) =>
    (⟨v, ⟨op, reply⟩ :: w.trace⟩, reply)

end

/-! ## The loop -/

structure Parked where
  id : String
  reason : HumanRequiredReason
  deriving DecidableEq, Repr

structure RalphResult where
  stopped : RalphStop
  spent : ℚ
  closed : List String
  parked : List Parked
  waiting : Option (List BoardWaitingItem) := none
  deriving DecidableEq

/-- What the loop keeps from pass to pass. -/
structure Tally where
  closed : List String := []
  parked : List Parked := []
  spent : ℚ := 0
  awaitingInputIds : List String := []
  baseConflictSurfaced : Bool := false

def Tally.result (t : Tally) (stopped : RalphStop) : RalphResult :=
  { stopped, spent := t.spent, closed := t.closed, parked := t.parked }

/-- Mark the item and list it, unless the reason is a resource pause. -/
def park (t : Tally) (reason : HumanRequiredReason) : Option Issue → Loop Tally
  | some item =>
      if (isResourcePause reason).isNone then do
        Program.await (LoopCall.wg (.wedgeMark item.id reason.name))
        return { t with parked := t.parked ++ [⟨item.id, reason⟩] }
      else return t
  | none => return t

/-- An undelivered escalation is an error, except at a resource pause. -/
def parkAndEscalate (t : Tally) (reason : HumanRequiredReason) (item : Option Issue) : Loop Tally := do
  let t ← park t reason item
  let escalated ← Program.await (LoopCall.escalate reason (item.map (·.id)))
  if escalated ∨ (isResourcePause reason).isSome then return t else .throw

section

variable (deps : RalphDeps)

/-- A conflict is surfaced once; whatever fails here is swallowed. -/
def refreshBase (t : Tally) : Loop Tally :=
  if deps.baseRefresh ∧ ¬ t.baseConflictSurfaced then do
    let conflict ← (Program.await LoopCall.baseRefresh).orElse (return false)
    if conflict then
      let t := { t with baseConflictSurfaced := true }
      (parkAndEscalate t .scopeFork none).orElse (return t)
    else return t
  else return t

/-- Whether a ready item is held back. -/
def isHeld (t : Tally) (cand : Issue) : Loop Bool :=
  if cand.id ∈ t.awaitingInputIds then return true
  else if deps.stageLoop.isSome then do
    let drive ← Program.await (LoopCall.admissionGate cand)
    return !drive
  else return false

/-- The first ready item that is not held back, and the ids of those before it. -/
def pick (t : Tally) : List Issue → List String → Loop (Option Issue × List String)
  | [], held => return (none, held)
  | cand :: rest, held => do
      let hold ← isHeld deps t cand
      if hold then pick t rest (cand.id :: held) else return (some cand, held)

/-- Nothing is eligible. -/
def stopDrained (t : Tally) : BoardAvailability → Loop RalphResult
  | .waiting waiting => do
      let t ← parkAndEscalate t .boardWaiting none
      return { t.result .boardWaiting with waiting := some waiting }
  | .empty => do
      let t ← parkAndEscalate t .boardEmpty none
      return t.result .boardEmpty

def maxCommitRedrives : Nat := 2

/-- Drive a shipped item again until its commit is durable. The outcome, or nothing when
the item has been parked for want of a commit. -/
def redrive (item : Issue) (baseSha : String) : Nat → Tally → Loop (Tally × Option LapOutcome)
  | left, t => do
      let durable ← Program.await (LoopCall.durable baseSha deps.target)
      if durable then return (t, some .shipped)
      else match left with
        | 0 => do
            let t ← parkAndEscalate t .noDurableCommit (some item)
            return (t, none)
        | left + 1 => do
            let re ← Program.await (LoopCall.drive item)
            let t := { t with spent := t.spent + re.costUsd }
            if re.outcome ≠ .shipped then return (t, some re.outcome)
            else redrive item baseSha left t

/-- The tip of the integration target, when a git seam is given. -/
def baseTip : Loop (Option String) :=
  if deps.git then do
    let baseSha ← Program.await (LoopCall.tip deps.target)
    return some baseSha
  else return none

/-- The consistency gate: nothing to do without a seam. -/
def gate (item : Issue) (baseSha : Option String) (t : Tally) (outcome : LapOutcome) :
    Loop (Tally × Option LapOutcome) :=
  match baseSha with
  | some baseSha =>
      if outcome = .shipped then redrive deps item baseSha maxCommitRedrives t
      else return (t, some outcome)
  | none => return (t, some outcome)

/-- What follows a pass: the next one, or the end. -/
inductive Next
  | again (t : Tally)
  | stop (result : RalphResult)

/-- The budget is looked at after an item has been closed or parked. -/
def checkBudget (t : Tally) : Loop Next :=
  if deps.apiMode ∧ deps.maxBudgetUsd < t.spent then do
    let t ← parkAndEscalate t .budget none
    return .stop (t.result .budget)
  else return .again t

def awaitInput (item : Issue) (t : Tally) : Loop Next := do
  let t := { t with awaitingInputIds := item.id :: t.awaitingInputIds }
  let claimed ← Program.await (LoopCall.wg (.getIssue item.id))
  Program.await (LoopCall.wg (.releaseClaim item.id (claimed.bind (·.claimToken))))
  return .again t

def clearStage (item : Issue) : Loop Unit :=
  if deps.stageLoop.isSome then Program.await (LoopCall.clearStage item.id) else return ()

/-- Close the item and roll its parents up; a roll-up that fails is swallowed. -/
def ship (item : Issue) (t : Tally) : Loop Next := do
  Program.await (LoopCall.wg (.updateIssue item.id { status := some .closed }))
  clearStage deps item
  let t := { t with closed := t.closed ++ [item.id] }
  let rolled ← (Program.await (LoopCall.rollUp item.id)).orElse (return [])
  checkBudget deps { t with closed := t.closed ++ rolled }

/-- The one path of every other outcome. -/
def divert (item : Issue) (t : Tally) (outcome : LapOutcome) : Loop Next := do
  let reason := match outcome with
    | .humanRequired reason => reason
    | _ => .unrecoverableWedge
  let t ← parkAndEscalate t reason (some item)
  match isResourcePause reason with
  | some stopped => return .stop (t.result stopped)
  | none => checkBudget deps t

def settle (item : Issue) (t : Tally) : Option LapOutcome → Loop Next
  | none => return .again t
  | some (.awaitingInput _) => awaitInput item t
  | some .shipped => ship deps item t
  | some outcome => divert deps item t outcome

/-- A claimed item. -/
def driveItem (item : Issue) (t : Tally) : Loop Next := do
  let baseSha ← baseTip deps
  let outcome ← Program.await (LoopCall.drive item)
  let (t, outcome) ← gate deps item baseSha { t with spent := t.spent + outcome.costUsd } outcome.outcome
  settle deps item t outcome

/-- `passes` of the loop; it throws when there are more. -/
def ralphPasses : Nat → Tally → Loop RalphResult
  | 0, _ => .throw
  | passes + 1, t => do
      let t ← refreshBase deps t
      let ready ← Program.await (LoopCall.wg .listReady)
      let (item, held) ← pick deps t ready []
      match item with
      | none => do
          let reaped ← (Program.await LoopCall.reap).orElse (return [])
          if reaped ≠ [] then ralphPasses passes t
          else do
            let availability ← (Program.await (LoopCall.inspect held)).orElse (return .waiting [])
            stopDrained t availability
      | some item => do
          let won ← Program.await (LoopCall.wg (.claimIssue item.id))
          if !won then ralphPasses passes t
          else do
            let next ← driveItem deps item t
            match next with
            | .again t => ralphPasses passes t
            | .stop result => return result

def runRalphLoop (passes : Nat) : Loop RalphResult := ralphPasses deps passes {}

end

end Opensquid.Ralph
