import Opensquid.Loop.ObservedActor
import Opensquid.Runtime.FsmState
import Opensquid.Runtime.WorkflowPhases

/-!
# The cartridges of a session

What a hook event does with the machines of the active packs: each is seeded, receives the
event, and has the states of its walk written under the key of the active task, one after the
other and up to the first that is rejected. `stored` is kept beside the files: the state
that was written last for a pack and a task.

The readiness step and the evidence for the code gate read the ledger of the phases.
-/

namespace Opensquid.Loop

open Opensquid.Runtime

/-! ## The session -/

/-- The harness id of a task, and the track id that its metadata may carry. -/
structure ActiveTask where
  id : String
  taskId : Option String := none
  deriving DecidableEq, Repr

/-- The track id, else the harness id. -/
def ActiveTask.trackId (task : ActiveTask) : String := task.taskId.getD task.id

structure Session where
  active : Option ActiveTask := none
  ledger : Option PhaseState := none
  files : String → FsmFile := fun _ => .absent
  /-- For a pack and a task, the state that was stored last. -/
  stored : String × String → Option String := fun _ => none

def readActiveTaskId (s : Session) : Option String := s.active.map ActiveTask.trackId

structure Cartridge where
  name : String
  actor : Option V2ObservedActor

/-! ## Writing the states of a walk -/

/-- The states of a walk, each compared with the one before; the file that is left and the
last state that was accepted. -/
def persistStates (now : String) : String → List String → FsmFile → FsmFile × Option String
  | _, [], file => (file, none)
  | expected, state :: rest, file =>
      let result := persistActorState file state now (some expected)
      if result.1 then
        let more := persistStates now state rest result.2
        (more.1, some (more.2.getD state))
      else (result.2, none)

/-- What surrounds a cartridge's run: whether the pack governs the turn, the checkpoint of
the session, and the values of the guards. -/
structure CartridgeInput where
  governs : Bool
  checkpoint : Option String
  eval : String → Option Bool

structure HookEvent where
  kind : String
  now : String
  automation : Bool
  enforceOnly : Bool
  input : String → CartridgeInput

/-- The seeded state of a cartridge and the states that its actor's walk is to write. -/
def cartridgeWalk (e : HookEvent) (c : Cartridge) (file : FsmFile) : Option (String × List String) := do
  let actor ← c.actor
  if (e.input c.name).governs then
    let seeded := resolveSeededActorState actor.fsm e.automation (e.input c.name).checkpoint file
    let (effects, _) ← actor.receive (e.input c.name).eval e.kind seeded
    return (seeded, effects.filterMap V2ObservedActor.Effect.written)
  else none

/-- One cartridge on the file of its key. -/
def runCartridge (e : HookEvent) (c : Cartridge) (file : FsmFile) : FsmFile × Option String :=
  match cartridgeWalk e c file with
  | none => (file, none)
  | some (seeded, states) =>
      if e.enforceOnly then (file, none) else persistStates e.now seeded states file

/-- The key of a pack's machine for the active task. -/
def Session.fsmKey (s : Session) (pack : String) : String := fsmStateKey pack (readActiveTaskId s)

/-- The record of what was stored for the active task. -/
def Session.record (s : Session) (pack : String) (last : Option String) :
    String × String → Option String :=
  match s.active, last with
  | some task, some state => Function.update s.stored (pack, task.id) (some state)
  | _, _ => s.stored

def Session.runCartridge (e : HookEvent) (s : Session) (c : Cartridge) : Session :=
  let result := Loop.runCartridge e c (s.files (s.fsmKey c.name))
  { s with
    files := Function.update s.files (s.fsmKey c.name) result.1
    stored := s.record c.name result.2 }

def runV2Cartridges (packs : List Cartridge) (e : HookEvent) (s : Session) : Session :=
  packs.foldl (Session.runCartridge e) s

/-! ## The readers of the ledger -/

structure ReadinessResult where
  ran : Bool
  deprecatedClean : Bool

structure CodeEvidence where
  phasesComplete : Bool
  readinessRan : Bool
  deprecatedClean : Bool
  suiteGreen : Bool
  archClean : Bool

/-- The other records that the evidence reads. -/
structure CodeEvidenceDeps where
  readiness : String → ReadinessResult
  suite : String → Option Bool
  archDetectorDeclared : Bool
  arch : String → Option Bool

def codeEvidenceForSession (deps : CodeEvidenceDeps) (s : Session) : CodeEvidence :=
  match readActiveTaskId s with
  | none => ⟨false, false, false, false, true⟩
  | some taskId =>
      { phasesComplete := isComplete s.ledger taskId
        readinessRan := (deps.readiness taskId).ran
        deprecatedClean := (deps.readiness taskId).deprecatedClean
        suiteGreen := (deps.suite taskId).getD false
        archClean := if deps.archDetectorDeclared then (deps.arch taskId).getD false else true }

/-- The task whose readiness is recorded after a tool call in this directory. -/
def readinessStep (readiness : String → ReadinessResult) (cwd : Option String) (s : Session) :
    Option String :=
  (readActiveTaskId s).filter fun taskId =>
    cwd.any (· ≠ "") && !((readiness taskId).ran && (readiness taskId).deprecatedClean) &&
      isComplete s.ledger taskId

/-! ## What a run leaves -/

variable {file : FsmFile} {state now expected : String} {e : HookEvent} {c : Cartridge} {s : Session}

/-- The file holds the last state that was accepted, or the one it held. -/
theorem state_persistStates {states : List String} :
    (persistStates now expected states file).1.state =
      (persistStates now expected states file).2.or file.state := by
  induction states generalizing expected file with
  | nil => rfl
  | cons state rest ih =>
      rw [persistStates]
      by_cases accepted : (persistActorState file state now (some expected)).1 = true
      · rw [if_pos accepted, ih, state_persist_accepted accepted, Option.some_or]
        cases (persistStates now state rest _).2 <;> rfl
      · rw [if_neg accepted, state_persist_rejected accepted, Option.none_or]

theorem state_runCartridge :
    (runCartridge e c file).1.state = (runCartridge e c file).2.or file.state := by
  rw [runCartridge]
  split
  · rfl
  · split
    · rfl
    · exact state_persistStates

theorem record_self {pack : String} {last : Option String} {task : ActiveTask}
    (active : s.active = some task) :
    s.record pack last (pack, task.id) = last.or (s.stored (pack, task.id)) := by
  unfold Session.record
  rw [active]
  cases last with
  | none => rfl
  | some state => exact Function.update_self _ _ _

theorem record_of_ne {pack : String} {last : Option String} {k : String × String}
    (other : ∀ task ∈ s.active, k ≠ (pack, task.id)) : s.record pack last k = s.stored k := by
  unfold Session.record
  rcases Option.eq_none_or_eq_some s.active with absent | ⟨task, active⟩
  · rw [absent]
  · rw [active]
    cases last with
    | none => rfl
    | some state => exact Function.update_of_ne (other task active) _ _

@[simp] theorem active_runCartridge : (s.runCartridge e c).active = s.active := rfl

@[simp] theorem ledger_runCartridge : (s.runCartridge e c).ledger = s.ledger := rfl

end Opensquid.Loop
