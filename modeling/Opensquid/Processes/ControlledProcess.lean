import Opensquid.Lib.Steps
import Opensquid.Processes.OwnedProcesses

/-!
# The marks of a controlled process

One incarnation of a process, from its spawn to its close. Every mark is an append that lands
later, or is lost; appends land in any order. They come from the registration, the automatic
shutdown, the owner's polling, the direct requests, and the close and error handlers.

`finished_of_punctual`: once a handler's terminal event is in the log, the fold reports the
incarnation as finished, if no append that marks it as active was in flight when that event landed
and none has been started since. Nothing waits for those appends (`woken_by_late_mark`).
-/

namespace Opensquid.Processes

open Opensquid.Lib

/-! ## What is appended -/

structure ControlInput where
  processId : String
  processInstanceId : String
  wgId : String
  role : String
  ownership : Ownership
  runId : Option String := none
  checkpointStage : Option String := none
  lap : Option Nat := none
  windowsJob : Option WindowsJobIdentity := none

def ControlInput.incarnation (input : ControlInput) : Incarnation :=
  ⟨input.processId, input.processInstanceId⟩

/-- The event of `registerOwnedProcess`, whose process leads its own group. -/
def startedEvent (input : ControlInput) (pid : Int) (processStartIdentity : String) (atMs : Int) :
    MonitorEvent where
  wgId := input.wgId
  kind := .processStarted
  processId := input.processId
  processInstanceId := input.processInstanceId
  runId := input.runId
  checkpointStage := input.checkpointStage
  lap := input.lap
  role := input.role
  ownership := input.ownership
  pid := pid
  processGroupId := pid
  processStartIdentity := processStartIdentity
  windowsJobName := input.windowsJob.map WindowsJobIdentity.jobName
  windowsJobMetadata := input.windowsJob.map WindowsJobIdentity.metadataPath
  atMs := atMs

/-- The event of `markOwnedProcess` for a known workgraph item. -/
def markEvent (processId : String) (status : OwnedProcessStatus) (exitCode : Option Int)
    (requestedBy : Option HumanControlSurface) (wgId processInstanceId : String)
    (actionAudit : Option ProcessActionAudit) (atMs : Int) : MonitorEvent where
  wgId := wgId
  kind := statusEvent status
  processId := processId
  processInstanceId := processInstanceId
  exitCode := exitCode
  requestedBy := (actionAudit.map ProcessActionAudit.requestedBy).or requestedBy
  authorizedBy := actionAudit.map ProcessActionAudit.authorizedBy
  actionId := actionAudit.map ProcessActionAudit.actionId
  controlAction := actionAudit.map ProcessActionAudit.action
  requestedAtMs := actionAudit.map ProcessActionAudit.requestedAtMs
  appliedAtMs := actionAudit.bind ProcessActionAudit.appliedAtMs
  failedAtMs := actionAudit.bind ProcessActionAudit.failedAtMs
  failure := actionAudit.bind ProcessActionAudit.failure
  atMs := atMs

inductive ControlResult
  | requested
  | applied
  | failed
  deriving DecidableEq, Repr

/-- The event of `appendControlAudit`. -/
def auditEvent (request : ProcessControlRequest) (result : ControlResult) (timestamp : Int)
    (failure : Option String) : MonitorEvent where
  wgId := request.wgId
  kind := match result with
    | .requested => .processControlRequested
    | .applied => .processControlApplied
    | .failed => .processControlFailed
  processId := request.processId
  processInstanceId := request.processInstanceId
  requestedBy := request.requestedBy
  authorizedBy := request.authorizedBy
  actionId := request.actionId
  controlAction := request.action.action
  requestedAtMs := request.requestedAtMs
  appliedAtMs := if result = .applied then some timestamp else none
  failedAtMs := if result = .failed then some timestamp else none
  failure := if result = .failed then failure else none
  atMs := timestamp

def ProcessControlRequest.audit (request : ProcessControlRequest) : ProcessActionAudit where
  actionId := request.actionId
  action := request.action.action
  requestedBy := request.requestedBy
  authorizedBy := request.authorizedBy
  requestedAtMs := request.requestedAtMs

/-- The status that a request is marked with before its signal. -/
def HumanProcessSignalAction.requestedStatus : HumanProcessSignalAction → OwnedProcessStatus
  | .gracefulStop => .shutdownRequested
  | .terminate => .terminateRequested
  | .forceKill => .forceKillRequested

/-! ## The process and its owner -/

inductive ShutdownCause
  | automatic
  | human (action : HumanProcessSignalAction) (requestedBy : HumanControlSurface)
      (authorizedBy actionId : String)
  deriving DecidableEq, Repr

inductive Registration
  | none
  | reading (pid : Int)
  | appending
  | landed
  | settled
  deriving DecidableEq, Repr

/-- Where an append comes from, as far as something waits for it or the terminal event is meant. -/
inductive Source
  | registration
  | owner
  | handler
  | other
  deriving DecidableEq, Repr

structure Append where
  event : MonitorEvent
  source : Source
  deriving DecidableEq, Repr

/-- A direct request, until it has marked its process. -/
structure DirectRequest where
  request : ProcessControlRequest
  marked : Bool := false
  deriving DecidableEq, Repr

structure Controlled where
  log : List MonitorEvent := []
  inflight : List Append := []
  /-- The child, with its pid where it has one. -/
  child : Option (Option Int) := none
  registration : Registration := .none
  polling : Bool := false
  /-- What the owner has read and not yet claimed. -/
  pending : List ProcessControlRequest := []
  applying : Option ProcessControlRequest := none
  directs : List DirectRequest := []
  closed : Bool := false
  closeFired : Bool := false
  errorFired : Bool := false
  automaticShutdownRequested : Bool := false
  shutdownCause : Option ShutdownCause := none
  terminal : Option (OwnedProcessStatus × Option Int) := none
  /-- A terminal event of a handler is in the log. -/
  terminalLanded : Bool := false

inductive ControlEvent
  | spawn (pid : Option Int)
  /-- The identity has been read; the append begins. -/
  | register (processStartIdentity : String) (atMs : Int)
  | registrationFailed
  /-- The continuation of a registration that is done. -/
  | registered (atMs : Int)
  | automatic (atMs : Int)
  | poll (requests : List ProcessControlRequest)
  | claim (claimed : Bool) (atMs : Int)
  /-- The signal has been sent and the request completed, or has failed. -/
  | applied
  /-- A direct call that has seen a part of the log. -/
  | request (seen : Nat) (request : ProcessControlRequest)
  | directMark (i : Nat) (absent : Bool) (atMs : Int)
  | audit (request : ProcessControlRequest) (result : ControlResult) (timestamp : Int)
      (failure : Option String)
  | close (code : Option Int) (treeAlive : Bool) (atMs : Int)
  | error (atMs : Int)
  | land (i : Nat)
  | lose (i : Nat)

namespace Controlled

variable (input : ControlInput)

def append (s : Controlled) (source : Source) (event : MonitorEvent) : Controlled :=
  { s with inflight := s.inflight ++ [⟨event, source⟩] }

/-- `mark` of the owner. -/
def mark (s : Controlled) (source : Source) (status : OwnedProcessStatus) (exitCode : Option Int)
    (requestedBy : Option HumanControlSurface) (actionAudit : Option ProcessActionAudit)
    (atMs : Int) : Controlled :=
  s.append source (markEvent input.processId status exitCode requestedBy input.wgId
    input.processInstanceId actionAudit atMs)

/-- The status of a closed process. -/
def closeStatus (s : Controlled) (treeAlive : Bool) : OwnedProcessStatus :=
  match s.shutdownCause with
  | some (.human .gracefulStop ..) | some (.human .forceKill ..) => .paused
  | some (.human .terminate ..) => if treeAlive then .terminateRequested else .paused
  | some .automatic | none => .exited

/-- A close that leaves the tree of a terminated process alive does not end it. -/
def closeSource (s : Controlled) (treeAlive : Bool) : Source :=
  match s.shutdownCause with
  | some (.human .terminate ..) => if treeAlive then .other else .handler
  | some (.human .gracefulStop ..) | some (.human .forceKill ..) | some .automatic | none => .handler

def step (s : Controlled) : ControlEvent → Option Controlled
  | .spawn pid =>
      if s.child = none then
        some { s with child := some pid, registration := (pid.map .reading).getD .none }
      else none
  | .register processStartIdentity atMs =>
      match s.registration with
      | .reading pid =>
          -- a process id is not used for a second incarnation
          if ∃ state ∈ foldOwnedProcesses s.log, state.processId = input.processId ∧
              state.processInstanceId ≠ input.processInstanceId then
            some { s with registration := .settled }
          else some ({ s with registration := .appending }.append .registration
            (startedEvent input pid processStartIdentity atMs))
      | .none | .appending | .landed | .settled => none
  | .registrationFailed =>
      match s.registration with
      | .reading _ => some { s with registration := .settled }
      | .none | .appending | .landed | .settled => none
  | .registered atMs =>
      if s.registration = .landed then
        let s := { s with registration := .settled }
        match s.terminal with
        | some (status, exitCode) => some (s.mark input .other status exitCode none none atMs)
        | none =>
            let s := { s with polling := true }
            some (if s.automaticShutdownRequested then
              s.mark input .other .shutdownPending none none none atMs else s)
      else none
  | .automatic atMs =>
      some ({ s with
        automaticShutdownRequested := true
        shutdownCause := s.shutdownCause.or (some .automatic) }.mark
          input .other .shutdownPending none none none atMs)
  | .poll requests =>
      if s.polling ∧ ¬ s.closed ∧ s.pending = [] ∧ s.applying = none ∧
          ∀ request ∈ requests, request.processId = input.processId ∧
            request.processInstanceId = input.processInstanceId then
        some { s with pending := requests }
      else none
  | .claim claimed atMs =>
      match s.pending, s.applying with
      | request :: rest, none =>
          if claimed then
            some ({ s with
              pending := rest
              applying := some request
              shutdownCause := some (.human request.action request.requestedBy
                request.authorizedBy request.actionId) }.mark input .owner
                request.action.requestedStatus none request.requestedBy request.audit atMs)
          else some { s with pending := rest }
      | _ :: _, some _ => none
      | [], none => none
      | [], some _ => none
  | .applied =>
      if s.applying.isSome ∧ ∀ append ∈ s.inflight, append.source ≠ .owner then
        some { s with applying := none }
      else none
  | .request seen request =>
      if ∃ state ∈ foldOwnedProcesses (s.log.take seen), state.processId = input.processId ∧
          request.processId = state.processId ∧
          request.processInstanceId = state.processInstanceId ∧ request.wgId = state.wgId ∧
          request.action.action ∈ state.availableActions then
        some { s with directs := s.directs ++ [{ request }] }
      else none
  | .directMark i absent atMs =>
      match s.directs[i]? with
      | some ⟨request, false⟩ =>
          some ({ s with directs := s.directs.set i ⟨request, true⟩ }.append .other
            (markEvent request.processId
              (if absent then .paused else request.action.requestedStatus) none
              request.requestedBy request.wgId request.processInstanceId request.audit atMs))
      | some ⟨_, true⟩ => none
      | none => none
  | .audit request result timestamp failure =>
      some (s.append .other (auditEvent request result timestamp failure))
  | .close code treeAlive atMs =>
      if s.child.isSome ∧ ¬ s.closeFired then
        let status := s.closeStatus treeAlive
        some ({ s with closed := true, closeFired := true, terminal := some (status, code) }.mark
          input (s.closeSource treeAlive) status code none none atMs)
      else none
  | .error atMs =>
      if s.child.isSome ∧ ¬ s.errorFired then
        some ({ s with
          closed := true, errorFired := true, terminal := some (.spawnFailed, none) }.mark
          input .handler .spawnFailed none none none atMs)
      else none
  | .land i =>
      (s.inflight[i]?).map fun append =>
        { s with
          log := s.log ++ [append.event]
          inflight := s.inflight.eraseIdx i
          registration := if append.source = .registration then .landed else s.registration
          terminalLanded := s.terminalLanded || append.source = .handler }
  | .lose i =>
      (s.inflight[i]?).map fun append =>
        { s with
          inflight := s.inflight.eraseIdx i
          registration := if append.source = .registration then .settled else s.registration }

end Controlled

/-! ## What is in flight -/

/-- The event starts the incarnation, or marks it with an active status. -/
def MarksActive (p : Incarnation) (event : MonitorEvent) : Bool :=
  event.processId = some p.processId ∧
    (event.processInstanceId.all fun id => id = p.processInstanceId) = true ∧
    (eventStatus event.kind).any fun status => status ∈ ACTIVE_STATUSES

theorem marksActive_of_wakes {p : Incarnation} {byId : ProcessTable} {event : MonitorEvent}
    (wakes : Wakes p byId event) : MarksActive p event = true := by
  cases wakes with
  | starts named kind started same =>
      refine decide_eq_true ⟨named, ?_, by rw [kind]; decide⟩
      have id := (startedState_fields started).2.1
      rw [eventInstanceId] at id
      cases own : event.processInstanceId with
      | none => rfl
      | some own' =>
          rw [own] at id
          cases id
          exact decide_eq_true same
  | marks named kind _ active _ owner same =>
      refine decide_eq_true ⟨named, ?_, by rw [kind]; exact decide_eq_true active⟩
      rw [sameIncarnation, owner] at same
      exact same

namespace Controlled

variable (input : ControlInput)

/-- The step begins an append that marks the incarnation as active: the registration's, that of an
abort, of an owner's or a direct request, and of a close that leaves the tree alive. -/
def StartsActive (s : Controlled) : ControlEvent → Prop
  | .register .. | .automatic _ => True
  | .registered _ => (∀ ended ∈ s.terminal, ended.1 ∈ ACTIVE_STATUSES) ∧
      (s.terminal = none → s.automaticShutdownRequested = true)
  | .claim claimed _ => claimed = true
  | .directMark i absent _ => absent = false ∧ ∃ direct ∈ s.directs[i]?,
      direct.request.processId = input.processId ∧
        direct.request.processInstanceId = input.processInstanceId
  | .close _ treeAlive _ => s.closeSource treeAlive = .other
  | .spawn _ | .registrationFailed | .poll _ | .applied | .request .. | .audit .. | .error _
  | .land _ | .lose _ => False

/-- The append that lands. -/
def landing? : ControlEvent → Option Nat
  | .land i => some i
  | _ => none

/-- When a handler's event lands no append is in flight that marks the incarnation as active, and
none is begun after it. -/
def Punctual (s : Controlled) (e : ControlEvent) : Prop :=
  (∀ i ∈ landing? e, ∀ append ∈ s.inflight[i]?, append.source = .handler →
    ∀ other ∈ s.inflight, MarksActive input.incarnation other.event = false) ∧
  (s.terminalLanded = true → ¬ s.StartsActive input e)

/-- What an append that a step begins is. -/
def Begins (s : Controlled) (e : ControlEvent) (append : Append) : Prop :=
  (MarksActive input.incarnation append.event = true → s.StartsActive input e) ∧
    (append.source = .handler → Finishes input.incarnation append.event = true)

end Controlled

variable {input : ControlInput}

theorem marksActive_markEvent {processId processInstanceId : String} {status : OwnedProcessStatus}
    {exitCode : Option Int} {requestedBy : Option HumanControlSurface} {wgId : String}
    {audit : Option ProcessActionAudit} {atMs : Int} {p : Incarnation} :
    MarksActive p (markEvent processId status exitCode requestedBy wgId processInstanceId audit
      atMs) = true ↔ processId = p.processId ∧ processInstanceId = p.processInstanceId ∧
        status ∈ ACTIVE_STATUSES := by
  simp [MarksActive, markEvent, eventStatus_statusEvent]

theorem finishes_markEvent {processId processInstanceId : String} {status : OwnedProcessStatus}
    {exitCode : Option Int} {requestedBy : Option HumanControlSurface} {wgId : String}
    {audit : Option ProcessActionAudit} {atMs : Int} {p : Incarnation} :
    Finishes p (markEvent processId status exitCode requestedBy wgId processInstanceId audit
      atMs) = true ↔ processId = p.processId ∧ processInstanceId = p.processInstanceId ∧
        status ∉ ACTIVE_STATUSES := by
  simp [Finishes, markEvent, eventStatus_statusEvent]

namespace Controlled

variable {s s' : Controlled} {e : ControlEvent}

/-- A mark of the owner that is no handler's. -/
theorem begins_mark {source : Source} {status : OwnedProcessStatus} {exitCode : Option Int}
    {requestedBy : Option HumanControlSurface} {audit : Option ProcessActionAudit} {atMs : Int}
    (starts : status ∈ ACTIVE_STATUSES → s.StartsActive input e)
    (ends : source = .handler → status ∉ ACTIVE_STATUSES) :
    s.Begins input e ⟨markEvent input.processId status exitCode requestedBy input.wgId
      input.processInstanceId audit atMs, source⟩ :=
  ⟨fun active => starts (marksActive_markEvent.mp active).2.2,
    fun handler => finishes_markEvent.mpr ⟨rfl, rfl, ends handler⟩⟩

/-- The close handler's event ends the incarnation, unless the tree is left alive. -/
theorem closeStatus_inactive {treeAlive : Bool} (handler : s.closeSource treeAlive = .handler) :
    s.closeStatus treeAlive ∉ ACTIVE_STATUSES := by
  rcases cause : s.shutdownCause with _ | _ | ⟨action, requestedBy, authorizedBy, actionId⟩
  · rw [closeStatus, cause]
    exact of_decide_eq_true rfl
  · rw [closeStatus, cause]
    exact of_decide_eq_true rfl
  · rw [closeSource, cause] at handler
    rw [closeStatus, cause]
    cases action with
    | gracefulStop | forceKill => exact of_decide_eq_true rfl
    | terminate =>
        cases treeAlive with
        | false => exact of_decide_eq_true rfl
        | true => cases handler

theorem closeSource_cases (s : Controlled) (treeAlive : Bool) :
    s.closeSource treeAlive = .handler ∨ s.closeSource treeAlive = .other := by
  unfold closeSource
  split
  · cases treeAlive
    · exact .inl rfl
    · exact .inr rfl
  all_goals exact .inl rfl

/-- What a step leaves in flight was there or is begun by it. -/
theorem mem_inflight_of_step (fire : s.step input e = some s') {append : Append}
    (flying : append ∈ s'.inflight) : append ∈ s.inflight ∨ s.Begins input e append := by
  have begun {source : Source} {event : MonitorEvent}
      (flying : append ∈ s.inflight ++ [⟨event, source⟩])
      (begins : s.Begins input e ⟨event, source⟩) :
      append ∈ s.inflight ∨ s.Begins input e append := by
    rcases List.mem_append.mp flying with before | new
    · exact .inl before
    · rw [List.mem_singleton.mp new]
      exact .inr begins
  cases e with
  | spawn | poll | applied | request =>
      unfold Controlled.step at fire
      dsimp only at fire
      split at fire
      · cases fire
        exact .inl flying
      · cases fire
  | register processStartIdentity atMs =>
      unfold Controlled.step at fire
      dsimp only at fire
      split at fire
      · split at fire
        · cases fire
          exact .inl flying
        · cases fire
          exact begun flying ⟨fun _ => trivial, nofun⟩
      all_goals cases fire
  | registrationFailed =>
      unfold Controlled.step at fire
      dsimp only at fire
      split at fire
      · cases fire
        exact .inl flying
      all_goals cases fire
  | registered atMs =>
      unfold Controlled.step at fire
      dsimp only at fire
      split at fire
      · split at fire
        · rename_i status exitCode ended
          cases fire
          refine begun flying (begins_mark (fun active => ?_) nofun)
          refine ⟨fun other same => ?_, fun none => ?_⟩
          · rw [Option.mem_def, ended] at same
            cases same
            exact active
          · rw [ended] at none
            cases none
        · rename_i open'
          split at fire
          · rename_i automatic
            cases fire
            refine begun flying (begins_mark (fun active => ?_) nofun)
            refine ⟨fun other same => ?_, fun _ => automatic⟩
            rw [Option.mem_def, open'] at same
            cases same
          · cases fire
            exact .inl flying
      · cases fire
  | automatic atMs =>
      cases fire
      exact begun flying (begins_mark (fun _ => trivial) nofun)
  | claim claimed atMs =>
      unfold Controlled.step at fire
      dsimp only at fire
      split at fire
      · split at fire
        · rename_i claims
          cases fire
          exact begun flying (begins_mark (fun _ => claims) nofun)
        · cases fire
          exact .inl flying
      all_goals cases fire
  | directMark i absent atMs =>
      unfold Controlled.step at fire
      dsimp only at fire
      split at fire
      · rename_i request here
        cases fire
        refine begun flying ⟨fun active => ?_, nofun⟩
        obtain ⟨id, instanceId, active⟩ := marksActive_markEvent.mp active
        refine ⟨?_, _, here, id, instanceId⟩
        cases absent with
        | false => rfl
        | true =>
            have paused : OwnedProcessStatus.paused ∈ ACTIVE_STATUSES := active
            exact absurd paused (by decide)
      all_goals cases fire
  | audit request result timestamp failure =>
      cases fire
      refine begun flying ⟨fun active => ?_, nofun⟩
      cases result <;> simp [MarksActive, auditEvent, eventStatus] at active
  | close code treeAlive atMs =>
      unfold Controlled.step at fire
      dsimp only at fire
      split at fire
      · cases fire
        refine begun flying (begins_mark (fun active => ?_) closeStatus_inactive)
        rcases s.closeSource_cases treeAlive with handler | other
        · exact absurd active (closeStatus_inactive handler)
        · exact other
      · cases fire
  | error atMs =>
      unfold Controlled.step at fire
      dsimp only at fire
      split at fire
      · cases fire
        exact begun flying (begins_mark (fun active => absurd active (by decide)) fun _ => by decide)
      · cases fire
  | land i | lose i =>
      obtain ⟨landed, -, rfl⟩ := Option.map_eq_some_iff.mp fire
      exact .inl (List.mem_of_mem_eraseIdx flying)

/-- Only a landing changes the log, by its event. -/
theorem step_log (fire : s.step input e = some s') :
    (s'.log = s.log ∧ s'.terminalLanded = s.terminalLanded) ∨
    ∃ i append, e = .land i ∧ s.inflight[i]? = some append ∧ s'.log = s.log ++ [append.event] ∧
      s'.terminalLanded = (s.terminalLanded || append.source = .handler) := by
  cases e with
  | land i =>
      obtain ⟨append, flying, rfl⟩ := Option.map_eq_some_iff.mp fire
      exact .inr ⟨i, append, rfl, flying, rfl, rfl⟩
  | lose i =>
      obtain ⟨append, flying, rfl⟩ := Option.map_eq_some_iff.mp fire
      exact .inl ⟨rfl, rfl⟩
  | automatic atMs | audit request result timestamp failure =>
      cases fire
      exact .inl ⟨rfl, rfl⟩
  | spawn | poll | applied | request | close | error =>
      unfold Controlled.step at fire
      dsimp only at fire
      split at fire
      · cases fire
        exact .inl ⟨rfl, rfl⟩
      · cases fire
  | register processStartIdentity atMs =>
      unfold Controlled.step at fire
      dsimp only at fire
      split at fire
      · split at fire
        all_goals
          cases fire
          exact .inl ⟨rfl, rfl⟩
      all_goals cases fire
  | registrationFailed =>
      unfold Controlled.step at fire
      dsimp only at fire
      split at fire
      · cases fire
        exact .inl ⟨rfl, rfl⟩
      all_goals cases fire
  | directMark i absent atMs =>
      unfold Controlled.step at fire
      dsimp only at fire
      split at fire
      · cases fire
        exact .inl ⟨rfl, rfl⟩
      all_goals cases fire
  | registered atMs =>
      unfold Controlled.step at fire
      dsimp only at fire
      split at fire
      · split at fire
        · cases fire
          exact .inl ⟨rfl, rfl⟩
        · split at fire
          all_goals
            cases fire
            exact .inl ⟨rfl, rfl⟩
      · cases fire
  | claim claimed atMs =>
      unfold Controlled.step at fire
      dsimp only at fire
      split at fire
      · split at fire
        all_goals
          cases fire
          exact .inl ⟨rfl, rfl⟩
      all_goals cases fire

end Controlled

theorem foldTable_append (log : List MonitorEvent) (event : MonitorEvent) :
    foldTable (log ++ [event]) = applyOwnedProcessEvent (foldTable log) event := by
  rw [foldTable, List.foldl_append]
  rfl

/-! ## Every run -/

/-- A handler's event ends the incarnation. Once one is in the log, the incarnation is finished, and
nothing in flight marks it as active. -/
structure Controlled.Ended (input : ControlInput) (s : Controlled) : Prop where
  handler : ∀ append ∈ s.inflight, append.source = .handler →
    Finishes input.incarnation append.event = true
  finished : s.terminalLanded = true → Finished input.incarnation (foldTable s.log)
  quiet : s.terminalLanded = true → ∀ append ∈ s.inflight,
    MarksActive input.incarnation append.event = false

theorem Controlled.Ended.step {s s' : Controlled} {e : ControlEvent} (ended : s.Ended input)
    (punctual : s.Punctual input e) (fire : s.step input e = some s') : s'.Ended input := by
  have handler : ∀ append ∈ s'.inflight, append.source = .handler →
      Finishes input.incarnation append.event = true := by
    intro append flying source
    rcases mem_inflight_of_step fire flying with before | begins
    · exact ended.handler append before source
    · exact begins.2 source
  -- What is begun after a handler's event is in the log marks nothing as active.
  have quiet (landed : s.terminalLanded = true) : ∀ append ∈ s'.inflight,
      MarksActive input.incarnation append.event = false := by
    intro append flying
    rcases mem_inflight_of_step fire flying with before | begins
    · exact ended.quiet landed append before
    · exact Bool.eq_false_iff.mpr fun active => punctual.2 landed (begins.1 active)
  rcases Controlled.step_log fire with ⟨log, same⟩ | ⟨i, append, rfl, flying, log, same⟩
  · exact ⟨handler, fun landed => log ▸ ended.finished (same ▸ landed),
      fun landed => quiet (same ▸ landed)⟩
  · have member := List.mem_of_getElem? flying
    by_cases before : s.terminalLanded = true
    · refine ⟨handler, fun _ => ?_, fun _ => quiet before⟩
      rw [log, foldTable_append]
      refine (finished_apply_iff (ended.finished before)).mpr fun wakes => ?_
      exact absurd (marksActive_of_wakes wakes) (by rw [ended.quiet before append member]; decide)
    · rw [Bool.eq_false_iff.mpr before, Bool.false_or] at same
      refine ⟨handler, fun landed => ?_, fun landed other flying' => ?_⟩
      · rw [log, foldTable_append]
        exact finished_of_finishes
          (ended.handler append member (of_decide_eq_true (same ▸ landed)))
      · rcases mem_inflight_of_step fire flying' with old | begins
        · exact punctual.1 i rfl append flying (of_decide_eq_true (same ▸ landed)) other old
        · exact Bool.eq_false_iff.mpr fun active => begins.1 active

/-- Once the terminal event of a handler is in the log, the incarnation is reported as finished, if
nothing that marks it as active was in flight then and nothing of the kind is begun afterwards. -/
theorem finished_of_punctual {s : Controlled}
    (run : Steps (Controlled.step input) (Controlled.Punctual input) {} s)
    (landed : s.terminalLanded = true) : ReportedFinished input.incarnation s.log := by
  have start : Controlled.Ended input {} :=
    ⟨fun _ none => (List.not_mem_nil none).elim, nofun, nofun⟩
  have ended : s.Ended input :=
    run.invariant start fun _ _ _ ended punctual fire => ended.step punctual fire
  exact reportedFinished_iff.mpr (ended.finished landed)

/-! ## Two closes -/

def stage : ControlInput where
  processId := "pi-stage-1"
  processInstanceId := "instance-1"
  wgId := "wg-1"
  role := "stage-process"
  ownership := .controlRoot

instance (s : Controlled) (e : ControlEvent) : Decidable (s.StartsActive input e) :=
  match e with
  | .register .. | .automatic _ => inferInstanceAs (Decidable True)
  | .registered _ => inferInstanceAs (Decidable ((∀ ended ∈ s.terminal, _) ∧ (_ → _)))
  | .claim claimed _ => inferInstanceAs (Decidable (claimed = true))
  | .directMark i _ _ => inferInstanceAs (Decidable (_ ∧ ∃ direct ∈ s.directs[i]?, _ ∧ _))
  | .close _ treeAlive _ => inferInstanceAs (Decidable (s.closeSource treeAlive = .other))
  | .spawn _ | .registrationFailed | .poll _ | .applied | .request .. | .audit .. | .error _
  | .land _ | .lose _ => inferInstanceAs (Decidable False)

instance (s : Controlled) (e : ControlEvent) : Decidable (s.Punctual input e) :=
  inferInstanceAs (Decidable ((∀ i ∈ Controlled.landing? e, ∀ append ∈ s.inflight[i]?, _) ∧ _))

/-- The process closes while its registration and the mark of an abort are in flight; these land
first, and the registration's continuation marks the close again. -/
def closedInOrder : List ControlEvent :=
  [.spawn (some 777), .register "start-777" 1, .automatic 2, .close (some 0) false 3, .land 0,
    .land 0, .land 0, .registered 4, .land 0]

theorem finished_of_punctual_stage : ∃ s,
    Steps (Controlled.step stage) (Controlled.Punctual stage) {} s ∧ s.terminalLanded = true ∧
      ReportedFinished stage.incarnation s.log := by
  have replay : (runWhile (Controlled.step stage) (fun s e => decide (s.Punctual stage e)) {}
      closedInOrder).any (fun s => s.terminalLanded) = true := by decide +kernel
  obtain ⟨s, done, landed⟩ := (Option.any_eq_true _ _).mp replay
  have run := Steps.of_runWhile (fun _ _ punctual => of_decide_eq_true punctual) done
  exact ⟨s, run, landed, finished_of_punctual run landed⟩

/-- The mark of the shutdown lands after the one of the close. -/
def closedOutOfOrder : List ControlEvent :=
  [.spawn (some 777), .register "start-777" 1, .land 0, .registered 2, .automatic 3,
    .close (some 0) false 4, .land 1, .land 0]

theorem woken_by_late_mark : ∃ s, Steps (Controlled.step stage) AnyStep {} s ∧
    s.terminalLanded = true ∧ ¬ ReportedFinished stage.incarnation s.log := by
  have replay : (runWhile (Controlled.step stage) (fun _ _ => true) {} closedOutOfOrder).any
      (fun s => s.terminalLanded && ((foldTable s.log).get "pi-stage-1").any fun state =>
        state.processInstanceId = "instance-1" ∧ state.status = .shutdownPending) = true := by
    decide +kernel
  obtain ⟨s, done, facts⟩ := (Option.any_eq_true _ _).mp replay
  obtain ⟨landed, present⟩ := Bool.and_eq_true_iff.mp facts
  obtain ⟨state, here, active⟩ := (Option.any_eq_true _ _).mp present
  obtain ⟨same, status⟩ := of_decide_eq_true active
  refine ⟨s, .of_runWhile (fun _ _ _ => trivial) done, landed, fun finished => ?_⟩
  refine reportedFinished_iff.mp finished state here same ?_
  rw [status]
  decide

end Opensquid.Processes
