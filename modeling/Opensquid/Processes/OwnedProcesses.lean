import Mathlib.Data.List.Sort
import Opensquid.Lib.Table

/-!
# Owned processes

The event log of the loop, folded into the state of every owned process: one entry for a process
id, made by `process_started` and changed by the later events of its incarnation. A status decides
which actions a human is offered.

`finished_apply_iff`: an incarnation that is in no active status is in none after one more event,
exactly if the event does not start it and does not mark its entry as active.
-/

namespace Opensquid.Processes

open Opensquid.Lib

/-! ## Statuses and actions -/

inductive OwnedProcessStatus
  | running
  | shutdownPending
  | shutdownRequested
  | terminateRequested
  | forceKillRequested
  | paused
  | resumed
  | exited
  | spawnFailed
  deriving DecidableEq, Repr

inductive HumanProcessAction
  | gracefulStop
  | terminate
  | forceKill
  | resume
  deriving DecidableEq, Repr

inductive HumanProcessSignalAction
  | gracefulStop
  | terminate
  | forceKill
  deriving DecidableEq, Repr

def HumanProcessSignalAction.action : HumanProcessSignalAction → HumanProcessAction
  | .gracefulStop => .gracefulStop
  | .terminate => .terminate
  | .forceKill => .forceKill

inductive HumanControlSurface
  | cli
  | tui
  | web
  deriving DecidableEq, Repr

inductive Ownership
  | controlRoot
  | owned
  deriving DecidableEq, Repr

inductive MonitorEventKind
  | stageAdvance
  | phaseEnter
  | phaseLeave
  | itemClosed
  | itemShipped
  | itemWedged
  | processStarted
  | processShutdownPending
  | processShutdownRequested
  | processTerminateRequested
  | processForceKillRequested
  | processPaused
  | processResumed
  | processExited
  | processSpawnFailed
  | processControlRequested
  | processControlApplied
  | processControlFailed
  deriving DecidableEq, Repr

open OwnedProcessStatus HumanProcessAction

def ACTIVE_STATUSES : List OwnedProcessStatus :=
  [running, shutdownPending, shutdownRequested, terminateRequested, forceKillRequested]

/-- Every action but `resume` is a signal action. -/
def HumanProcessAction.isSignal : HumanProcessAction → Bool
  | .gracefulStop | .terminate | .forceKill => true
  | .resume => false

def actionsFor : OwnedProcessStatus → List HumanProcessAction
  | .running => [gracefulStop, terminate, forceKill]
  | .shutdownPending | .shutdownRequested => [terminate, forceKill]
  | .terminateRequested => [forceKill]
  | .forceKillRequested => []
  | .paused => [resume]
  | .resumed | .exited | .spawnFailed => []

/-- What is not active offers no signal. -/
theorem not_isSignal_of_inactive {status : OwnedProcessStatus} (inactive : status ∉ ACTIVE_STATUSES)
    {action : HumanProcessAction} (offered : action ∈ actionsFor status) :
    action.isSignal = false := by
  cases status with
  | running | shutdownPending | shutdownRequested | terminateRequested | forceKillRequested =>
      exact absurd (by decide) inactive
  | paused =>
      rw [List.mem_singleton.mp offered]
      rfl
  | resumed | exited | spawnFailed => cases offered

def statusEvent : OwnedProcessStatus → MonitorEventKind
  | .running => .processStarted
  | .shutdownPending => .processShutdownPending
  | .shutdownRequested => .processShutdownRequested
  | .terminateRequested => .processTerminateRequested
  | .forceKillRequested => .processForceKillRequested
  | .paused => .processPaused
  | .resumed => .processResumed
  | .exited => .processExited
  | .spawnFailed => .processSpawnFailed

def eventStatus : MonitorEventKind → Option OwnedProcessStatus
  | .processStarted => some running
  | .processShutdownPending => some shutdownPending
  | .processShutdownRequested => some shutdownRequested
  | .processTerminateRequested => some terminateRequested
  | .processForceKillRequested => some forceKillRequested
  | .processPaused => some paused
  | .processResumed => some resumed
  | .processExited => some exited
  | .processSpawnFailed => some spawnFailed
  | .stageAdvance | .phaseEnter | .phaseLeave | .itemClosed | .itemShipped | .itemWedged
  | .processControlRequested | .processControlApplied | .processControlFailed => none

theorem eventStatus_statusEvent (status : OwnedProcessStatus) :
    eventStatus (statusEvent status) = some status := by
  cases status <;> rfl

/-! ## Events and states -/

/-- An event of the log, in its order. -/
structure MonitorEvent where
  wgId : String
  kind : MonitorEventKind
  processId : Option String := none
  ownership : Option Ownership := none
  processInstanceId : Option String := none
  runId : Option String := none
  checkpointStage : Option String := none
  lap : Option Nat := none
  role : Option String := none
  pid : Option Int := none
  processGroupId : Option Int := none
  processStartIdentity : Option String := none
  windowsJobName : Option String := none
  windowsJobMetadata : Option String := none
  exitCode : Option Int := none
  requestedBy : Option HumanControlSurface := none
  authorizedBy : Option String := none
  actionId : Option String := none
  controlAction : Option HumanProcessAction := none
  requestedAtMs : Option Int := none
  appliedAtMs : Option Int := none
  failedAtMs : Option Int := none
  failure : Option String := none
  atMs : Int
  deriving DecidableEq, Repr

structure ProcessActionAudit where
  actionId : String
  action : HumanProcessAction
  requestedBy : HumanControlSurface
  authorizedBy : String
  requestedAtMs : Int
  appliedAtMs : Option Int := none
  failedAtMs : Option Int := none
  failure : Option String := none
  deriving DecidableEq, Repr

structure OwnedProcessState where
  processId : String
  processInstanceId : String
  ownership : Ownership
  wgId : String
  runId : Option String
  checkpointStage : Option String
  lap : Option Nat
  role : String
  pid : Int
  processGroupId : Nat
  processStartIdentity : String
  windowsJobName : Option String
  windowsJobMetadata : Option String
  status : OwnedProcessStatus
  startedAtMs : Int
  updatedAtMs : Int
  exitCode : Option Int := none
  latestAction : Option ProcessActionAudit := none
  availableActions : List HumanProcessAction
  deriving DecidableEq, Repr

def eventInstanceId (event : MonitorEvent) : Option String :=
  event.processInstanceId.or do
    return (← event.processId) ++ ":" ++ toString (← event.pid) ++ ":" ++
      event.processStartIdentity.getD "legacy"

def actionFromEvent (event : MonitorEvent) : Option ProcessActionAudit := do
  let actionId ← event.actionId
  let action ← event.controlAction
  let requestedBy ← event.requestedBy
  let authorizedBy ← event.authorizedBy
  let requestedAtMs ← event.requestedAtMs
  return { actionId, action, requestedBy, authorizedBy, requestedAtMs
           appliedAtMs := event.appliedAtMs, failedAtMs := event.failedAtMs
           failure := event.failure }

structure WindowsJobIdentity where
  jobName : String
  metadataPath : String
  deriving DecidableEq, Repr

/-- A human's request for a signal to one incarnation. -/
structure ProcessControlRequest where
  seq : Nat
  actionId : String
  processId : String
  processInstanceId : String
  wgId : String
  action : HumanProcessSignalAction
  requestedBy : HumanControlSurface
  authorizedBy : String
  requestedAtMs : Int
  targetPid : Int
  targetProcessGroupId : Nat
  targetProcessStartIdentity : String
  deriving DecidableEq, Repr

/-! ## The fold -/

/-- The entries by process id, in the order in which the ids were first seen. -/
abbrev ProcessTable := Table OwnedProcessState.processId

/-- The entry that `process_started` makes, where the event is complete. -/
def startedState (processId : String) (event : MonitorEvent) : Option OwnedProcessState := do
  let processInstanceId ← eventInstanceId event
  let pid ← event.pid
  let processGroupId ← event.processGroupId
  let role ← event.role
  return {
    processId, processInstanceId
    ownership := event.ownership.getD
      (if role = "control-root" ∨ role = "orchestrator" then .controlRoot else .owned)
    wgId := event.wgId
    runId := event.runId
    checkpointStage := event.checkpointStage
    lap := event.lap
    role, pid
    processGroupId := processGroupId.natAbs
    processStartIdentity := event.processStartIdentity.getD ""
    windowsJobName := event.windowsJobName
    windowsJobMetadata := event.windowsJobMetadata
    status := running
    startedAtMs := event.atMs
    updatedAtMs := event.atMs
    availableActions := actionsFor running }

/-- An entry after a later event of its incarnation: an audit event keeps the status. -/
def changedState (prior : OwnedProcessState) (event : MonitorEvent) : Option OwnedProcessState :=
  match eventStatus event.kind with
  | none => (actionFromEvent event).map fun latestAction =>
      { prior with latestAction := some latestAction, updatedAtMs := event.atMs }
  | some status => some { prior with
      status
      updatedAtMs := event.atMs
      exitCode := event.exitCode.or prior.exitCode
      latestAction := (actionFromEvent event).or prior.latestAction
      availableActions := actionsFor status }

/-- The event names no other incarnation. -/
def sameIncarnation (prior : OwnedProcessState) (event : MonitorEvent) : Bool :=
  event.processInstanceId.all fun processInstanceId => processInstanceId = prior.processInstanceId

def applyOwnedProcessEvent (byId : ProcessTable) (event : MonitorEvent) : ProcessTable :=
  match event.processId with
  | none => byId
  | some processId =>
      if eventStatus event.kind = some running then
        ((startedState processId event).map byId.put).getD byId
      else
        match byId.get processId with
        | none => byId
        | some prior =>
            if sameIncarnation prior event then
              ((changedState prior event).map byId.put).getD byId
            else byId

def foldTable (events : List MonitorEvent) : ProcessTable :=
  events.foldl applyOwnedProcessEvent .empty

/-- The entries, those that were updated last first. -/
def foldOwnedProcesses (events : List MonitorEvent) : List OwnedProcessState :=
  (foldTable events).rows.mergeSort fun left right => right.updatedAtMs ≤ left.updatedAtMs

theorem mem_foldOwnedProcesses {events : List MonitorEvent} {state : OwnedProcessState} :
    state ∈ foldOwnedProcesses events ↔ (foldTable events).get state.processId = some state :=
  (List.mergeSort_perm _ _).mem_iff.trans Table.mem_rows_iff

/-! ## What an event does to the table -/

/-- An event leaves the table, or writes the entry that it starts or changes. -/
theorem apply_cases (byId : ProcessTable) (event : MonitorEvent) :
    applyOwnedProcessEvent byId event = byId ∨
    (∃ processId state, event.processId = some processId ∧ eventStatus event.kind = some running ∧
      startedState processId event = some state ∧
      applyOwnedProcessEvent byId event = byId.put state) ∨
    ∃ prior state, event.processId = some prior.processId ∧ eventStatus event.kind ≠ some running ∧
      byId.get prior.processId = some prior ∧ sameIncarnation prior event = true ∧
      changedState prior event = some state ∧ applyOwnedProcessEvent byId event = byId.put state := by
  rw [applyOwnedProcessEvent]
  cases named : event.processId with
  | none => exact .inl rfl
  | some processId =>
      dsimp only
      split
      · rename_i starts
        cases started : startedState processId event with
        | none => exact .inl rfl
        | some state => exact .inr (.inl ⟨processId, state, rfl, starts, started, rfl⟩)
      · rename_i notStart
        cases present : byId.get processId with
        | none => exact .inl rfl
        | some prior =>
            have here := Table.key_of_get present
            subst here
            dsimp only
            split
            · rename_i same
              cases changed : changedState prior event with
              | none => exact .inl rfl
              | some state =>
                  exact .inr (.inr ⟨prior, state, rfl, notStart, present, same, changed, rfl⟩)
            · exact .inl rfl

theorem startedState_fields {processId : String} {event : MonitorEvent} {state : OwnedProcessState}
    (started : startedState processId event = some state) :
    state.processId = processId ∧ eventInstanceId event = some state.processInstanceId ∧
      state.status = running ∧ state.availableActions = actionsFor running := by
  obtain ⟨processInstanceId, named, started⟩ := Option.bind_eq_some_iff.mp started
  obtain ⟨pid, _, started⟩ := Option.bind_eq_some_iff.mp started
  obtain ⟨processGroupId, _, started⟩ := Option.bind_eq_some_iff.mp started
  obtain ⟨role, _, started⟩ := Option.bind_eq_some_iff.mp started
  cases started
  exact ⟨rfl, named, rfl, rfl⟩

/-- A change keeps the ids, and the status with its actions unless the event has one. -/
theorem changedState_fields {prior state : OwnedProcessState} {event : MonitorEvent}
    (changed : changedState prior event = some state) :
    state.processId = prior.processId ∧ state.processInstanceId = prior.processInstanceId ∧
      (eventStatus event.kind = none ∧ state.status = prior.status ∧
          state.availableActions = prior.availableActions ∨
        eventStatus event.kind = some state.status ∧
          state.availableActions = actionsFor state.status) := by
  rw [changedState] at changed
  cases status : eventStatus event.kind with
  | none =>
      rw [status] at changed
      obtain ⟨latestAction, _, rfl⟩ := Option.map_eq_some_iff.mp changed
      exact ⟨rfl, rfl, .inl ⟨rfl, rfl, rfl⟩⟩
  | some status' =>
      rw [status] at changed
      cases changed
      exact ⟨rfl, rfl, .inr ⟨rfl, rfl⟩⟩

/-- Every entry offers the actions of its status. -/
theorem availableActions_foldTable (events : List MonitorEvent) :
    ∀ state ∈ (foldTable events).rows, state.availableActions = actionsFor state.status := by
  suffices fold : ∀ byId : ProcessTable,
      (∀ state ∈ byId.rows, state.availableActions = actionsFor state.status) →
        ∀ state ∈ (events.foldl applyOwnedProcessEvent byId).rows,
          state.availableActions = actionsFor state.status by
    exact fold .empty fun _ mem => (by cases mem)
  induction events with
  | nil => exact fun byId offered => offered
  | cons event events ih =>
      intro byId offered
      refine ih _ fun state mem => ?_
      rcases apply_cases byId event with same | ⟨_, made, _, _, started, same⟩ |
          ⟨prior, made, _, _, present, _, changed, same⟩ <;> rw [same] at mem
      · exact offered state mem
      · rcases Table.mem_put mem with rfl | old
        · obtain ⟨_, _, status, actions⟩ := startedState_fields started
          rw [actions, status]
        · exact offered state old
      · rcases Table.mem_put mem with rfl | old
        · obtain ⟨_, _, ⟨_, status, actions⟩ | ⟨_, actions⟩⟩ := changedState_fields changed
          · rw [actions, status]
            exact offered prior (Table.mem_of_get present)
          · exact actions
        · exact offered state old

/-! ## Finished incarnations -/

/-- One run of a process under its id. -/
structure Incarnation where
  processId : String
  processInstanceId : String
  deriving DecidableEq, Repr

/-- The table does not have the incarnation in an active status. -/
def Finished (p : Incarnation) (byId : ProcessTable) : Prop :=
  ∀ state, byId.get p.processId = some state → state.processInstanceId = p.processInstanceId →
    state.status ∉ ACTIVE_STATUSES

/-- The incarnation is in no active status and is offered no signal. -/
def ReportedFinished (p : Incarnation) (log : List MonitorEvent) : Prop :=
  ∀ state ∈ foldOwnedProcesses log, state.processId = p.processId →
    state.processInstanceId = p.processInstanceId →
      state.status ∉ ACTIVE_STATUSES ∧
        ∀ action ∈ state.availableActions, action.isSignal = false

/-- The event starts the incarnation, or marks its entry with an active status. -/
inductive Wakes (p : Incarnation) (byId : ProcessTable) (event : MonitorEvent) : Prop
  | starts {state : OwnedProcessState} (named : event.processId = some p.processId)
      (kind : eventStatus event.kind = some running)
      (started : startedState p.processId event = some state)
      (same : state.processInstanceId = p.processInstanceId) : Wakes p byId event
  | marks {prior : OwnedProcessState} {status : OwnedProcessStatus}
      (named : event.processId = some p.processId) (kind : eventStatus event.kind = some status)
      (notStart : status ≠ running) (active : status ∈ ACTIVE_STATUSES)
      (before : byId.get p.processId = some prior)
      (owner : prior.processInstanceId = p.processInstanceId)
      (same : sameIncarnation prior event = true) : Wakes p byId event

/-- The event marks the incarnation with a status that is not active. -/
def Finishes (p : Incarnation) (event : MonitorEvent) : Bool :=
  event.processId = some p.processId ∧ event.processInstanceId = some p.processInstanceId ∧
    (eventStatus event.kind).any fun status => status ∉ ACTIVE_STATUSES

variable {p : Incarnation}

theorem reportedFinished_iff {log : List MonitorEvent} :
    ReportedFinished p log ↔ Finished p (foldTable log) := by
  constructor
  · intro reported state present same
    have here := Table.key_of_get present
    have mem := mem_foldOwnedProcesses.mpr (here ▸ present)
    exact (reported state mem here same).1
  · intro finished state mem here same
    have present := mem_foldOwnedProcesses.mp mem
    have inactive := finished state (here ▸ present) same
    refine ⟨inactive, fun action offered => not_isSignal_of_inactive inactive ?_⟩
    rwa [← availableActions_foldTable log state (Table.mem_of_get present)]

/-- The entry of an incarnation after an event that has a status for it. -/
theorem get_apply_of_status {byId : ProcessTable} {event : MonitorEvent} {prior : OwnedProcessState}
    {status : OwnedProcessStatus} (named : event.processId = some prior.processId)
    (kind : eventStatus event.kind = some status) (notStart : status ≠ running)
    (before : byId.get prior.processId = some prior) (same : sameIncarnation prior event = true) :
    ∃ state, (applyOwnedProcessEvent byId event).get prior.processId = some state ∧
      state.processInstanceId = prior.processInstanceId ∧ state.status = status := by
  cases changed : changedState prior event with
  | none =>
      rw [changedState, kind] at changed
      cases changed
  | some state =>
      have after : applyOwnedProcessEvent byId event = byId.put state := by
        rw [applyOwnedProcessEvent, named]
        dsimp only
        rw [kind, if_neg fun starts => notStart (Option.some.inj starts), before]
        dsimp only
        rw [if_pos same, changed]
        rfl
      obtain ⟨key, id, status'⟩ := changedState_fields changed
      rw [kind] at status'
      refine ⟨state, ?_, id, ?_⟩
      · rw [after, ← key, Table.get_put_self]
      · rcases status' with ⟨none, _⟩ | ⟨here, _⟩
        · cases none
        · exact (Option.some.inj here).symm

/-- After an event with a status that is not active the incarnation is finished. -/
theorem finished_of_finishes {byId : ProcessTable} {event : MonitorEvent}
    (finishes : Finishes p event = true) : Finished p (applyOwnedProcessEvent byId event) := by
  obtain ⟨named, instanceId, terminal⟩ := of_decide_eq_true finishes
  obtain ⟨status, kind, inactive⟩ := (Option.any_eq_true _ _).mp terminal
  have inactive := of_decide_eq_true inactive
  have notStart : status ≠ running := by
    rintro rfl
    exact inactive (by decide)
  intro state present same
  by_cases before : ∃ prior, byId.get p.processId = some prior ∧
      prior.processInstanceId = p.processInstanceId
  · obtain ⟨prior, before, owner⟩ := before
    have key := Table.key_of_get before
    rw [← key] at named before present
    have concerns : sameIncarnation prior event = true := by
      rw [sameIncarnation, instanceId, Option.all_some]
      exact decide_eq_true owner.symm
    obtain ⟨state', after, _, status'⟩ := get_apply_of_status named kind notStart before concerns
    rw [after] at present
    cases present
    rwa [status']
  · -- no entry is the incarnation's, and the event makes none
    rcases apply_cases byId event with kept | ⟨_, _, _, starts, _⟩ |
        ⟨prior, made, named', _, present', _, changed, put⟩
    · rw [kept] at present
      exact absurd ⟨state, present, same⟩ before
    · rw [kind] at starts
      exact absurd (Option.some.inj starts) notStart
    · rw [named] at named'
      have here := Option.some.inj named'
      obtain ⟨key, id, _⟩ := changedState_fields changed
      rw [put, here, ← key, Table.get_put_self] at present
      cases present
      exact absurd ⟨prior, here ▸ present', id.symm.trans same⟩ before

/-- An event leaves a finished incarnation finished exactly if it does not wake it. -/
theorem finished_apply_iff {byId : ProcessTable} (finished : Finished p byId) {event : MonitorEvent} :
    Finished p (applyOwnedProcessEvent byId event) ↔ ¬ Wakes p byId event := by
  constructor
  · intro still wakes
    cases wakes with
    | @starts state named kind started same =>
        obtain ⟨key, _, status, _⟩ := startedState_fields started
        have after : (applyOwnedProcessEvent byId event).get p.processId = some state := by
          rw [applyOwnedProcessEvent, named]
          dsimp only
          rw [if_pos kind, started, Option.map_some, Option.getD_some, ← key, Table.get_put_self]
        refine still state after same ?_
        rw [status]
        decide
    | @marks prior status named kind notStart active before owner same =>
        have key := Table.key_of_get before
        rw [← key] at named before
        obtain ⟨state, after, id, status'⟩ := get_apply_of_status named kind notStart before same
        refine still state (key ▸ after) (id.trans owner) ?_
        rwa [status']
  · intro asleep state present same
    rcases apply_cases byId event with kept | ⟨processId, made, named, starts, started, put⟩ |
        ⟨prior, made, named, notStart, before, concerns, changed, put⟩
    · rw [kept] at present
      exact finished state present same
    · obtain ⟨key, _, _, _⟩ := startedState_fields started
      rw [put] at present
      by_cases here : p.processId = processId
      · subst here
        rw [← key, Table.get_put_self] at present
        cases present
        exact absurd (.starts named starts started same) asleep
      · rw [Table.get_put_of_ne (key ▸ here)] at present
        exact finished state present same
    · obtain ⟨key, id, status⟩ := changedState_fields changed
      rw [put] at present
      by_cases here : p.processId = prior.processId
      · rw [here, ← key, Table.get_put_self] at present
        cases present
        have owner := id.symm.trans same
        rcases status with ⟨_, status, _⟩ | ⟨kind, _⟩
        · rw [status]
          exact finished prior (here ▸ before) owner
        · intro active
          refine asleep (.marks (here ▸ named) kind ?_ active (here ▸ before) owner concerns)
          intro starts
          exact notStart (kind.trans (congrArg some starts))
      · rw [Table.get_put_of_ne (key ▸ here)] at present
        exact finished state present same

end Opensquid.Processes
