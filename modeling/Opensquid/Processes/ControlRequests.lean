import Opensquid.Lib.Steps
import Opensquid.Processes.OwnedProcesses
import Opensquid.Processes.ProcessIdentity

/-!
# Control requests

The request rows of one owned incarnation, which its owner polls and any number of direct calls
wait for. Who claims a row first applies it: it marks the process, signals it, and writes the
final result; every step on the way can throw. The owner goes on with what it has read after the
process has closed. A direct claimant takes every exit status 1 of `ps` and PowerShell for a
process that is missing.

`request_takes_effect_once`: a row has one claimant, one signal and one final result, a direct
claimant has seen the registered identity before it signals, and where a process is reported as
missing only if it is, `applied` means that the signal was sent or the registered pid absent.
-/

namespace Opensquid.Processes

open Opensquid.Lib

/-! ## The rows -/

inductive Claimant
  | owner
  | direct
  deriving DecidableEq, Repr

/-- The column `result`. -/
inductive RequestResult
  | authorizing (claimant : Claimant)
  | applied
  | failed
  deriving DecidableEq, Repr

structure RequestRow where
  request : ProcessControlRequest
  handledAtMs : Option Int := none
  appliedAtMs : Option Int := none
  failedAtMs : Option Int := none
  result : Option RequestResult := none
  failure : Option String := none
  deriving DecidableEq, Repr

def RequestRow.seq (row : RequestRow) : Nat := row.request.seq

abbrev RequestTable := Table RequestRow.seq

/-- Neither handled nor claimed. -/
def RequestRow.free (row : RequestRow) : Bool := row.handledAtMs = none ∧ row.result = none

/-- What is free, in the order of the sequence numbers. -/
def pendingRequests (rows : RequestTable) : List ProcessControlRequest :=
  (rows.rows.filter RequestRow.free).map RequestRow.request

/-- The claim, on a row that is free. -/
def RequestRow.claim (row : RequestRow) (claimant : Claimant) : RequestRow :=
  if row.free then { row with result := some (.authorizing claimant) } else row

theorem RequestRow.claim_seq (row : RequestRow) (claimant : Claimant) :
    (row.claim claimant).seq = row.seq := by
  rw [claim]
  split <;> rfl

/-- The rows after a claim, and if it changed one. -/
def claimRequest (rows : RequestTable) (seq : Nat) (claimant : Claimant) : Bool × RequestTable :=
  ((rows.get seq).any RequestRow.free,
    rows.update seq (fun row => row.claim claimant) fun row here =>
      (row.claim_seq claimant).trans here)

/-- The final result, on a row that has none. -/
def RequestRow.finish (row : RequestRow) (failure : Option String) (now : Int) : RequestRow :=
  if row.handledAtMs = none then { row with
    handledAtMs := now
    appliedAtMs := if failure = none then some now else none
    failedAtMs := if failure = none then none else some now
    result := some (if failure = none then .applied else .failed)
    failure }
  else row

theorem RequestRow.finish_seq (row : RequestRow) (failure : Option String) (now : Int) :
    (row.finish failure now).seq = row.seq := by
  rw [finish]
  split <;> rfl

def finishRequest (rows : RequestTable) (seq : Nat) (failure : Option String) (now : Int) :
    RequestTable :=
  rows.update seq (fun row => row.finish failure now) fun row here =>
    (row.finish_seq failure now).trans here

/-! ## Claimants -/

/-- What is signalled: a process, a process group, or a job with all its processes. -/
inductive SignalTarget
  | process (pid : Int)
  | group (processGroupId : Nat)
  | job (windowsJob : WindowsJobIdentity)
  deriving DecidableEq, Repr

/-- The incarnation as it was registered, and how its owner spawned it. -/
structure Registered where
  processId : String
  processInstanceId : String
  wgId : String
  pid : Int
  identity : ProcessIdentity
  detached : Bool
  windows : Bool
  windowsJob : Option WindowsJobIdentity
  deriving DecidableEq, Repr

structure Signal where
  action : HumanProcessSignalAction
  target : SignalTarget
  /-- It did not throw. -/
  sent : Bool
  deriving DecidableEq, Repr

/-- Where a claimant stands. -/
inductive Stage
  | claimed
  /-- The pid is absent, which is to be marked. -/
  | absent
  /-- The identity is the registered one; the request is to be marked. -/
  | checked (identity : ProcessIdentity)
  /-- The request is marked and its signal to be sent; the target can be unavailable. -/
  | marked (target : Option SignalTarget)
  | completing
  | failing (failure : String)
  | done
  deriving DecidableEq, Repr

/-- A claimed request, with what the machine had at its pid when that was read, and the signals
that were tried. -/
structure Job where
  claimant : Claimant
  request : ProcessControlRequest
  stage : Stage := .claimed
  seen : Option (Option ProcessIdentity) := none
  /-- The error of the read was taken for a missing process. -/
  missing : Bool := false
  signals : List Signal := []
  deriving DecidableEq, Repr

/-- How writing the final result ends: an error can come before or after the write. -/
inductive Finish
  | written
  | lost (failure : String)
  | thrown (failure : String)
  deriving DecidableEq, Repr

inductive JobEvent
  | read (exec : Exec)
  | mark (failure : Option String)
  | signal (failure : Option String)
  | finish (outcome : Finish) (now : Int)
  deriving DecidableEq, Repr

/-- The owner's own child. -/
def Registered.ownerTarget (registered : Registered) : SignalTarget :=
  match registered.windowsJob with
  | some windowsJob => .job windowsJob
  | none => if registered.detached then .group registered.pid.natAbs else .process registered.pid

/-- The group that was checked; on Windows the registered job, if there is one. -/
def Registered.directTarget (registered : Registered) (identity : ProcessIdentity) :
    Option SignalTarget :=
  if registered.windows then registered.windowsJob.map .job
  else some (.group identity.processGroupId)

/-- A failure leads to the write of a failed result. -/
def orFailing (stage : Stage) (failure : Option String) : Stage :=
  (failure.map .failing).getD stage

/-- The write of the final result is done, or leads to a second one. -/
def Stage.finish (stage : Stage) (outcome : Finish) : Option Stage :=
  match stage with
  | .completing =>
      match outcome with
      | .written => some .done
      | .lost failure | .thrown failure => some (.failing failure)
  | .failing _ => some .done
  | .claimed | .absent | .checked _ | .marked _ | .done => none

/-- The failure that a claimant writes: none is `applied`. -/
def Stage.failure : Stage → Option String
  | .failing failure => some failure
  | .claimed | .absent | .checked _ | .marked _ | .completing | .done => none

/-- Where a direct claimant goes on after the read. -/
def ProcessControlRequest.readStage (request : ProcessControlRequest) :
    Except Thrown ProcessIdentity → Stage
  | .error error => if isMissingOwnedProcess error then .absent else .failing error.message
  | .ok identity =>
      if identity.startIdentity ≠ request.targetProcessStartIdentity ∨
          identity.processGroupId ≠ request.targetProcessGroupId then
        .failing ("owned process identity changed for " ++ request.processId ++
          "; refusing OS signal")
      else .checked identity

variable (registered : Registered) (reads : Machine → Int → Exec → Bool)

/-- One step of a claimant. -/
def Job.step (machine : Machine) (job : Job) : JobEvent → Option Job
  | .read exec =>
      if job.claimant = .direct ∧ job.stage = .claimed ∧ reads machine job.request.targetPid exec then
        let stage := job.request.readStage
          (readProcessIdentity registered.windows job.request.targetPid exec)
        some { job with
          seen := some (machine job.request.targetPid)
          missing := stage = .absent
          stage }
      else none
  | .mark failure =>
      match job.stage with
      | .claimed =>
          if job.claimant = .owner then
            some { job with stage := orFailing (.marked registered.ownerTarget) failure }
          else none
      | .absent => some { job with stage := orFailing .completing failure }
      | .checked identity =>
          some { job with stage := orFailing (.marked (registered.directTarget identity)) failure }
      | .marked _ | .completing | .failing _ | .done => none
  | .signal failure =>
      match job.stage with
      | .marked target =>
          -- a graceful stop only ends the input of the child
          if job.request.action = .gracefulStop then some { job with stage := .completing }
          else
            match target with
            | none => some { job with
                stage := .failing ("owned Windows Job Object metadata is unavailable for " ++
                  job.request.processId) }
            | some target => some { job with
                stage := orFailing .completing failure
                signals := job.signals ++ [⟨job.request.action, target, failure = none⟩] }
      | .claimed | .absent | .checked _ | .completing | .failing _ | .done => none
  | .finish outcome _ => (job.stage.finish outcome).map fun stage => { job with stage }

/-! ## Requests, owner and direct calls -/

structure ControlRequests where
  rows : RequestTable := .empty
  nextSeq : Nat := 1
  machine : Machine := fun _ => none
  closed : Bool := false
  /-- What the owner has read and not yet tried to claim. -/
  pending : List ProcessControlRequest := []
  /-- The requests of direct calls that wait for the owner. -/
  waiting : List ProcessControlRequest := []
  jobs : List Job := []
  /-- Every claim that changed a row. -/
  claims : List (Nat × Claimant) := []
  /-- Every write of a final result to a row that had none. -/
  writes : List (Nat × RequestResult) := []

/-- How a claim ends: an error can come before or after the update. -/
inductive ClaimOutcome
  | ran
  | lost
  | thrown
  deriving DecidableEq, Repr

inductive RequestEvent
  /-- Processes come and go, and pids are used again. -/
  | machine (machine : Machine)
  | exit
  /-- A direct call inserts its request, having seen the process in a status. -/
  | call (status : OwnedProcessStatus) (action : HumanProcessSignalAction)
      (requestedBy : HumanControlSurface) (authorizedBy actionId : String) (requestedAtMs : Int)
  /-- A direct call returns or throws before it has tried to claim. -/
  | leave (i : Nat)
  | poll
  | ownerClaim (outcome : ClaimOutcome)
  | directClaim (i : Nat) (outcome : ClaimOutcome)
  | job (i : Nat) (event : JobEvent)

namespace ControlRequests

/-- The owner is not in the middle of a request. -/
def ownerIdle (s : ControlRequests) : Bool :=
  s.jobs.all fun job => job.claimant = .direct ∨ job.stage = .done

def updateClaim (s : ControlRequests) (seq : Nat) (claimant : Claimant) : ControlRequests :=
  let claimed := claimRequest s.rows seq claimant
  { s with
    rows := claimed.2
    claims := if claimed.1 then s.claims ++ [(seq, claimant)] else s.claims }

def claim (s : ControlRequests) (request : ProcessControlRequest) (claimant : Claimant) :
    ClaimOutcome → ControlRequests
  | .ran =>
      { s.updateClaim request.seq claimant with
        jobs :=
          if (claimRequest s.rows request.seq claimant).1 then s.jobs ++ [{ claimant, request }]
          else s.jobs }
  | .lost => s
  | .thrown => s.updateClaim request.seq claimant

def finalResult (failure : Option String) : RequestResult :=
  if failure = none then .applied else .failed

def write (s : ControlRequests) (seq : Nat) (failure : Option String) (now : Int) :
    ControlRequests :=
  { s with
    rows := finishRequest s.rows seq failure now
    writes :=
      if (s.rows.get seq).any fun row => row.handledAtMs = none then
        s.writes ++ [(seq, finalResult failure)]
      else s.writes }

/-- An error of the second write reaches the poll of the owner, and ends its round. -/
def endRound (s : ControlRequests) (job : Job) : ControlRequests :=
  if job.claimant = .owner ∧ job.stage.failure ≠ none then { s with pending := [] } else s

/-- What the step of a claimant does to the rows. -/
def effect (s : ControlRequests) (job : Job) : JobEvent → ControlRequests
  | .finish .written now => s.write job.request.seq job.stage.failure now
  | .finish (.thrown _) now => (s.endRound job).write job.request.seq job.stage.failure now
  | .finish (.lost _) _ => s.endRound job
  | .read _ | .mark _ | .signal _ => s

def step (s : ControlRequests) : RequestEvent → Option ControlRequests
  | .machine machine => some { s with machine }
  | .exit => some { s with closed := true }
  | .call status action requestedBy authorizedBy actionId requestedAtMs =>
      if action.action ∈ actionsFor status ∧ authorizedBy ≠ "" then
        let request : ProcessControlRequest := {
          seq := s.nextSeq
          actionId
          processId := registered.processId
          processInstanceId := registered.processInstanceId
          wgId := registered.wgId
          action, requestedBy, authorizedBy, requestedAtMs
          targetPid := registered.pid
          targetProcessGroupId := registered.identity.processGroupId
          targetProcessStartIdentity := registered.identity.startIdentity }
        some { s with
          rows := s.rows.put { request }
          nextSeq := s.nextSeq + 1
          waiting := s.waiting ++ [request] }
      else none
  | .leave i => some { s with waiting := s.waiting.eraseIdx i }
  | .poll =>
      if ¬ s.closed ∧ s.pending = [] ∧ s.ownerIdle then
        some { s with pending := pendingRequests s.rows }
      else none
  | .ownerClaim outcome =>
      match s.pending with
      | [] => none
      | request :: rest =>
          if s.ownerIdle then
            -- an error ends the round of the poll
            some ({ s with pending := if outcome = ClaimOutcome.ran then rest else [] }.claim
              request .owner outcome)
          else none
  | .directClaim i outcome =>
      match s.waiting[i]? with
      | none => none
      | some request =>
          if request.action = .gracefulStop then none
          else some ({ s with waiting := s.waiting.eraseIdx i }.claim request .direct outcome)
  | .job i event =>
      match s.jobs[i]? with
      | none => none
      | some job =>
          (job.step registered reads s.machine event).map fun job' =>
            { s.effect job event with jobs := s.jobs.set i job' }

/-- The signals that a request has caused. -/
def signalsOf (s : ControlRequests) (seq : Nat) : List Signal :=
  (s.jobs.filter fun job => job.request.seq = seq).flatMap Job.signals

end ControlRequests

/-! ## What a claimant has done -/

variable {registered reads}

/-- The request is for the registered incarnation. -/
structure AimedAt (registered : Registered) (request : ProcessControlRequest) : Prop where
  pid : request.targetPid = registered.pid
  group : request.targetProcessGroupId = registered.identity.processGroupId
  start : request.targetProcessStartIdentity = registered.identity.startIdentity

/-- The registered group, or on Windows the registered job. -/
def IsRegistered (registered : Registered) (target : SignalTarget) : Prop :=
  target = .group registered.identity.processGroupId ∨
    ∃ windowsJob, registered.windowsJob = some windowsJob ∧ target = .job windowsJob

/-- The signal has been sent, or the process taken for missing. -/
def Job.Evidence (job : Job) : Prop :=
  (∃ signal ∈ job.signals, signal.sent = true ∧ signal.action = job.request.action) ∨
    job.missing = true

/-- The claimant has seen the registered process, and this is its target. -/
def Job.SawRegistered (registered : Registered) (job : Job) (target : SignalTarget) : Prop :=
  job.seen = some (some registered.identity) ∧ IsRegistered registered target

/-- What has been seen and signalled at a stage: nothing is signalled before the mark. -/
def Job.Shows (registered : Registered) (job : Job) : Stage → Prop
  | .claimed => job.signals = [] ∧ job.missing = false
  | .absent => job.signals = [] ∧ job.missing = true
  | .checked identity => job.signals = [] ∧ identity = registered.identity ∧
      job.seen = some (some registered.identity)
  | .marked target => job.signals = [] ∧
      (job.claimant = .direct → ∀ x, target = some x → job.SawRegistered registered x)
  | .completing => job.request.action ≠ .gracefulStop → job.Evidence
  | .failing _ | .done => True

structure Job.Sound (registered : Registered) (job : Job) : Prop where
  aimed : AimedAt registered job.request
  shown : job.Shows registered job.stage
  once : job.signals.length ≤ 1
  direct : job.claimant = .direct → ∀ signal ∈ job.signals,
    job.SawRegistered registered signal.target

theorem Job.sound_of_quiet {job : Job} (aimed : AimedAt registered job.request)
    (shown : job.Shows registered job.stage) (quiet : job.signals = []) :
    job.Sound registered where
  aimed := aimed
  shown := shown
  once := by rw [quiet]; exact Nat.zero_le _
  direct _ signal mem := by rw [quiet] at mem; cases mem

theorem directTarget_isRegistered {target : SignalTarget}
    (here : registered.directTarget registered.identity = some target) :
    IsRegistered registered target := by
  rw [Registered.directTarget] at here
  split at here
  · obtain ⟨windowsJob, known, rfl⟩ := Option.map_eq_some_iff.mp here
    exact .inr ⟨windowsJob, known, rfl⟩
  · exact .inl (Option.some.inj here).symm

/-- What `ps` or PowerShell prints of a pid is the process that the machine has there. -/
def Prints (registered : Registered) (reads : Machine → Int → Exec → Bool) : Prop :=
  ∀ machine pid stdout, reads machine pid (.printed stdout) = true →
    ∃ identity, machine pid = some identity ∧
      Printed registered.windows pid.toNat identity stdout.toList

/-- What is found is on the machine. -/
theorem Prints.found (prints : Prints registered reads) {machine : Machine} {pid : Int}
    {exec : Exec} {identity : ProcessIdentity} (read : reads machine pid exec = true)
    (found : readProcessIdentity registered.windows pid exec = .ok identity) :
    machine pid = some identity := by
  have valid : IsPid pid := by
    by_contra invalid
    unfold readProcessIdentity at found
    rw [if_pos invalid] at found
    cases found
  cases exec with
  | failed error =>
      rw [readProcessIdentity, if_neg (not_not.mpr valid)] at found
      cases found
  | printed stdout =>
      obtain ⟨there, here, printed⟩ := prints machine pid stdout read
      rw [readProcessIdentity_of_printed valid printed] at found
      rw [here, Except.ok.inj found]

theorem readStage_cases {request : ProcessControlRequest} (aimed : AimedAt registered request)
    (read : Except Thrown ProcessIdentity) :
    request.readStage read = .absent ∨ (∃ failure, request.readStage read = .failing failure) ∨
    (read = .ok registered.identity ∧ request.readStage read = .checked registered.identity) := by
  cases read with
  | error error =>
      by_cases missing : isMissingOwnedProcess error = true
      · exact .inl (if_pos missing)
      · exact .inr (.inl ⟨_, if_neg missing⟩)
  | ok identity =>
      by_cases changed : identity.startIdentity ≠ request.targetProcessStartIdentity ∨
          identity.processGroupId ≠ request.targetProcessGroupId
      · exact .inr (.inl ⟨_, if_pos changed⟩)
      · obtain ⟨start, group⟩ := not_or.mp changed
        have start' := (not_not.mp start).trans aimed.start
        have group' := (not_not.mp group).trans aimed.group
        have same : identity = registered.identity := by
          cases identity
          dsimp only at start' group'
          rw [start', group']
        subst same
        exact .inr (.inr ⟨rfl, if_neg changed⟩)

/-- Reading sees the registered process, or is told that there is none, or leads to a failure. -/
theorem Job.Sound.read (prints : Prints registered reads) {machine : Machine} {job : Job}
    {exec : Exec} (sound : job.Sound registered) (claimed : job.stage = .claimed)
    (read : reads machine job.request.targetPid exec = true) {stage : Stage}
    (next : job.request.readStage
      (readProcessIdentity registered.windows job.request.targetPid exec) = stage) :
    Job.Sound registered { job with
      seen := some (machine job.request.targetPid), missing := stage = .absent, stage } := by
  have before := sound.shown
  rw [claimed] at before
  refine Job.sound_of_quiet sound.aimed ?_ before.1
  rcases readStage_cases sound.aimed
      (readProcessIdentity registered.windows job.request.targetPid exec) with
    here | ⟨failure, here⟩ | ⟨found, here⟩
  · rw [← next, here]
    exact ⟨before.1, rfl⟩
  · rw [← next, here]
    trivial
  · rw [← next, here, prints.found read found]
    exact ⟨before.1, rfl, rfl⟩

/-- A mark leads to the signal, to the result for an absent pid, or to a failure. -/
theorem Job.Sound.mark {job : Job} (sound : job.Sound registered) {stage : Stage}
    (failure : Option String) (quiet : job.signals = [])
    (next : Job.Shows registered { job with stage } stage) :
    Job.Sound registered { job with stage := orFailing stage failure } := by
  refine Job.sound_of_quiet sound.aimed ?_ quiet
  cases failure with
  | none => exact next
  | some failure => trivial

theorem stage_of_finish {stage stage' : Stage} {outcome : Finish}
    (next : stage.finish outcome = some stage') :
    (∃ failure, stage' = .failing failure) ∨ stage' = .done := by
  cases stage with
  | completing =>
      cases outcome with
      | written => exact .inr (Option.some.inj next).symm
      | lost failure | thrown failure => exact .inl ⟨failure, (Option.some.inj next).symm⟩
  | failing failure => exact .inr (Option.some.inj next).symm
  | claimed | absent | checked | marked | done => cases next

/-- The step of a claimant keeps it sound, and what it has to show. -/
theorem Job.Sound.step (prints : Prints registered reads) {machine : Machine} {job job' : Job} {e : JobEvent}
    (sound : job.Sound registered) (fire : job.step registered reads machine e = some job') :
    job'.Sound registered ∧ job'.request = job.request ∧ job'.claimant = job.claimant ∧
      (job.Evidence → job'.Evidence) := by
  have before := sound.shown
  cases e with
  | read exec =>
      unfold Job.step at fire
      dsimp only at fire
      split at fire
      · rename_i enabled
        obtain ⟨_, claimed, read⟩ := enabled
        cases fire
        refine ⟨sound.read prints claimed read rfl, rfl, rfl, fun evidence => ?_⟩
        rw [claimed] at before
        rcases evidence with ⟨signal, mem, _⟩ | absent
        · rw [before.1] at mem
          cases mem
        · rw [before.2] at absent
          cases absent
      · cases fire
  | mark failure =>
      unfold Job.step at fire
      dsimp only at fire
      split at fire
      · rename_i stage
        rw [stage] at before
        split at fire
        · rename_i owner
          cases fire
          refine ⟨sound.mark failure before.1 ⟨before.1, fun direct => ?_⟩, rfl, rfl, id⟩
          rw [owner] at direct
          cases direct
        · cases fire
      · rename_i stage
        rw [stage] at before
        cases fire
        exact ⟨sound.mark failure before.1 fun _ => .inr before.2, rfl, rfl, id⟩
      · rename_i identity stage
        rw [stage] at before
        obtain ⟨quiet, rfl, seen⟩ := before
        cases fire
        refine ⟨sound.mark failure quiet ⟨quiet, fun _ x here => ⟨seen, ?_⟩⟩, rfl, rfl, id⟩
        exact directTarget_isRegistered here
      all_goals cases fire
  | signal failure =>
      unfold Job.step at fire
      dsimp only at fire
      split at fire
      · rename_i target stage
        rw [stage] at before
        obtain ⟨quiet, saw⟩ := before
        split at fire
        · rename_i graceful
          cases fire
          exact ⟨Job.sound_of_quiet sound.aimed (fun other => absurd graceful other) quiet,
            rfl, rfl, id⟩
        · cases target with
          | none =>
            cases fire
            exact ⟨Job.sound_of_quiet sound.aimed trivial quiet, rfl, rfl, id⟩
          | some target =>
            cases fire
            refine ⟨⟨sound.aimed, ?_, ?_, fun direct signal mem => ?_⟩, rfl, rfl, fun evidence => ?_⟩
            · cases failure with
              | none =>
                  exact fun _ => .inl ⟨_, List.mem_append_right _ List.mem_cons_self, rfl, rfl⟩
              | some failure => trivial
            · rw [quiet]
              exact le_rfl
            · rw [quiet, List.nil_append] at mem
              rw [List.mem_singleton.mp mem]
              exact saw direct target rfl
            · exact evidence.imp_left fun ⟨signal, mem, sent⟩ =>
                ⟨signal, List.mem_append_left _ mem, sent⟩
      all_goals cases fire
  | finish outcome now =>
      obtain ⟨stage, next, rfl⟩ := Option.map_eq_some_iff.mp fire
      refine ⟨⟨sound.aimed, ?_, sound.once, sound.direct⟩, rfl, rfl, id⟩
      obtain ⟨failure, rfl⟩ | rfl := stage_of_finish next <;> trivial

/-! ## What becomes of a row -/

/-- A row keeps its request, stays claimed, and does not change once it is handled. -/
structure RequestRow.Grows (row row' : RequestRow) : Prop where
  request : row'.request = row.request
  claimed : row.result ≠ none → row'.result ≠ none
  handled : row.handledAtMs ≠ none → row' = row

theorem RequestRow.Grows.refl (row : RequestRow) : row.Grows row := ⟨rfl, id, fun _ => rfl⟩

/-- Every row is still there. -/
def RowsGrow (rows rows' : RequestTable) : Prop :=
  ∀ k row, rows.get k = some row → ∃ row', rows'.get k = some row' ∧ row.Grows row'

theorem RowsGrow.refl (rows : RequestTable) : RowsGrow rows rows :=
  fun _ row present => ⟨row, present, .refl row⟩

theorem RowsGrow.trans {rows rows' rows'' : RequestTable} (grow : RowsGrow rows rows')
    (grow' : RowsGrow rows' rows'') : RowsGrow rows rows'' := by
  intro k row present
  obtain ⟨row', present', grows⟩ := grow k row present
  obtain ⟨row'', present'', grows'⟩ := grow' k row' present'
  refine ⟨row'', present'', grows'.request.trans grows.request,
    fun claimed => grows'.claimed (grows.claimed claimed), fun handled => ?_⟩
  have same := grows.handled handled
  exact (grows'.handled (same ▸ handled)).trans same

theorem get_claimRequest {rows : RequestTable} {seq k : Nat} {claimant : Claimant} :
    (claimRequest rows seq claimant).2.get k =
      (rows.get k).map fun row => if row.seq = seq then row.claim claimant else row := by
  rw [claimRequest, Table.get_update]

theorem get_finishRequest {rows : RequestTable} {seq k : Nat} {failure : Option String} {now : Int} :
    (finishRequest rows seq failure now).get k =
      (rows.get k).map fun row => if row.seq = seq then row.finish failure now else row := by
  rw [finishRequest, Table.get_update]

theorem RequestRow.grows_claim (row : RequestRow) (claimant : Claimant) :
    row.Grows (row.claim claimant) ∧ (row.claim claimant).handledAtMs = row.handledAtMs ∧
      ((row.claim claimant).result = some .applied → row.result = some .applied) := by
  rw [claim]
  split
  · rename_i free
    obtain ⟨unhandled, unclaimed⟩ := of_decide_eq_true free
    refine ⟨⟨rfl, fun claimed => absurd unclaimed claimed, fun handled => absurd unhandled handled⟩,
      rfl, fun applied => ?_⟩
    cases applied
  · exact ⟨.refl row, rfl, id⟩

theorem RequestRow.grows_finish (row : RequestRow) (failure : Option String) (now : Int) :
    row.Grows (row.finish failure now) := by
  rw [finish]
  split
  · rename_i unhandled
    exact ⟨rfl, fun _ => Option.some_ne_none _, fun handled => absurd unhandled handled⟩
  · exact .refl row

theorem rowsGrow_claimRequest (rows : RequestTable) (seq : Nat) (claimant : Claimant) :
    RowsGrow rows (claimRequest rows seq claimant).2 := by
  intro k row present
  refine ⟨_, by rw [get_claimRequest, present]; rfl, ?_⟩
  dsimp only
  split
  · exact (row.grows_claim claimant).1
  · exact .refl row

theorem rowsGrow_finishRequest (rows : RequestTable) (seq : Nat) (failure : Option String)
    (now : Int) : RowsGrow rows (finishRequest rows seq failure now) := by
  intro k row present
  refine ⟨_, by rw [get_finishRequest, present]; rfl, ?_⟩
  dsimp only
  split
  · exact row.grows_finish failure now
  · exact .refl row

/-! ## Whole runs -/

/-- The row of the request is there. -/
def Known (rows : RequestTable) (request : ProcessControlRequest) : Prop :=
  ∃ row, rows.get request.seq = some row ∧ row.request = request

/-- The row of the request is there and claimed. -/
def KnownClaimed (rows : RequestTable) (request : ProcessControlRequest) : Prop :=
  ∃ row, rows.get request.seq = some row ∧ row.request = request ∧ row.result ≠ none

theorem Known.grow {rows rows' : RequestTable} {request : ProcessControlRequest}
    (known : Known rows request) (grow : RowsGrow rows rows') : Known rows' request := by
  obtain ⟨row, present, same⟩ := known
  obtain ⟨row', present', grows⟩ := grow _ row present
  exact ⟨row', present', grows.request.trans same⟩

theorem KnownClaimed.grow {rows rows' : RequestTable} {request : ProcessControlRequest}
    (known : KnownClaimed rows request) (grow : RowsGrow rows rows') :
    KnownClaimed rows' request := by
  obtain ⟨row, present, same, claimed⟩ := known
  obtain ⟨row', present', grows⟩ := grow _ row present
  exact ⟨row', present', grows.request.trans same, grows.claimed claimed⟩

namespace ControlRequests

/-- Rows, claimants and final results of one run belong together. -/
structure Sound (registered : Registered) (s : ControlRequests) : Prop where
  fresh : ∀ k row, s.rows.get k = some row → k < s.nextSeq
  aimed : ∀ k row, s.rows.get k = some row → AimedAt registered row.request
  pending : ∀ request ∈ s.pending, Known s.rows request
  waiting : ∀ request ∈ s.waiting, Known s.rows request
  jobs : ∀ job ∈ s.jobs, job.Sound registered ∧ KnownClaimed s.rows job.request
  oneJob : (s.jobs.map fun job => job.request.seq).Nodup
  claims : ∀ c ∈ s.claims, ∃ row, s.rows.get c.1 = some row ∧ row.result ≠ none
  oneClaim : (s.claims.map Prod.fst).Nodup
  claimed : ∀ job ∈ s.jobs, (job.request.seq, job.claimant) ∈ s.claims
  kept : ∀ w ∈ s.writes, ∃ row, s.rows.get w.1 = some row ∧ row.result = some w.2 ∧
    row.handledAtMs ≠ none
  oneResult : (s.writes.map Prod.fst).Nodup
  written : ∀ k row, s.rows.get k = some row → row.handledAtMs ≠ none → k ∈ s.writes.map Prod.fst
  applied : ∀ k row, s.rows.get k = some row → row.result = some .applied →
    row.request.action ≠ .gracefulStop → ∃ job ∈ s.jobs, job.request = row.request ∧ job.Evidence

/-- The rows after a claim are the rows before it, one of them claimed. -/
theorem before_claimRequest {rows : RequestTable} {seq k : Nat} {claimant : Claimant}
    {row' : RequestRow} (present : (claimRequest rows seq claimant).2.get k = some row') :
    ∃ row, rows.get k = some row ∧ row'.request = row.request ∧
      row'.handledAtMs = row.handledAtMs ∧
      (row'.result = some .applied → row.result = some .applied) := by
  rw [get_claimRequest] at present
  obtain ⟨row, old, rfl⟩ := Option.map_eq_some_iff.mp present
  refine ⟨row, old, ?_⟩
  split
  · obtain ⟨grows, handled, applied⟩ := row.grows_claim claimant
    exact ⟨grows.request, handled, applied⟩
  · exact ⟨rfl, rfl, id⟩

/-- A claim that changes a row finds it free, and leaves it claimed. -/
theorem claimed_of_claimRequest {rows : RequestTable} {seq : Nat} {claimant : Claimant}
    (won : (claimRequest rows seq claimant).1 = true) :
    ∃ row, rows.get seq = some row ∧ row.result = none ∧
      ∃ row', (claimRequest rows seq claimant).2.get seq = some row' ∧
        row'.request = row.request ∧ row'.result ≠ none := by
  obtain ⟨row, present, free⟩ := Option.any_eq_true _ _ |>.mp won
  refine ⟨row, present, (of_decide_eq_true free).2, row.claim claimant, ?_, ?_, ?_⟩
  · rw [get_claimRequest, present, Option.map_some, if_pos (Table.key_of_get present)]
  · exact (row.grows_claim claimant).1.request
  · rw [RequestRow.claim, if_pos free]
    exact Option.some_ne_none _

theorem Sound.updateClaim {s : ControlRequests} (sound : s.Sound registered) (seq : Nat)
    (claimant : Claimant) : Sound registered (s.updateClaim seq claimant) := by
  have grow := rowsGrow_claimRequest s.rows seq claimant
  have claims : ∀ c ∈ s.claims, ∃ row, (claimRequest s.rows seq claimant).2.get c.1 = some row ∧
      row.result ≠ none := by
    intro c mem
    obtain ⟨row, present, claimed⟩ := sound.claims c mem
    obtain ⟨row', present', grows⟩ := grow _ row present
    exact ⟨row', present', grows.claimed claimed⟩
  exact {
    fresh k row' present := by
      obtain ⟨row, old, _⟩ := before_claimRequest present
      exact sound.fresh k row old
    aimed k row' present := by
      obtain ⟨row, old, same, _⟩ := before_claimRequest present
      exact same ▸ sound.aimed k row old
    pending request mem := (sound.pending request mem).grow grow
    waiting request mem := (sound.waiting request mem).grow grow
    jobs job mem := (sound.jobs job mem).imp_right fun known => known.grow grow
    oneJob := sound.oneJob
    claims c mem := by
      unfold ControlRequests.updateClaim at mem
      dsimp only at mem
      split at mem
      · rename_i won
        rcases List.mem_append.mp mem with old | added
        · exact claims c old
        · obtain ⟨_, _, _, row', present', _, claimed⟩ := claimed_of_claimRequest won
          rw [List.mem_singleton.mp added]
          exact ⟨row', present', claimed⟩
      · exact claims c mem
    oneClaim := by
      unfold ControlRequests.updateClaim
      dsimp only
      split
      · rename_i won
        rw [List.map_append, List.nodup_append]
        refine ⟨sound.oneClaim, List.nodup_singleton _, ?_⟩
        -- a row that was free had no claim
        rintro k old k' added rfl
        rw [List.mem_singleton.mp added] at old
        obtain ⟨c, mem, here⟩ := List.mem_map.mp old
        obtain ⟨row, present, unclaimed, _⟩ := claimed_of_claimRequest won
        obtain ⟨row', present', claimed⟩ := sound.claims c mem
        rw [here, present] at present'
        cases present'
        exact claimed unclaimed
      · exact sound.oneClaim
    claimed job mem := by
      unfold ControlRequests.updateClaim
      dsimp only
      split
      · exact List.mem_append_left _ (sound.claimed job mem)
      · exact sound.claimed job mem
    kept w mem := by
      obtain ⟨row, present, result, handled⟩ := sound.kept w mem
      obtain ⟨row', present', grows⟩ := grow _ row present
      rw [grows.handled handled] at present'
      exact ⟨row, present', result, handled⟩
    oneResult := sound.oneResult
    written k row' present handled := by
      obtain ⟨row, old, _, same, _⟩ := before_claimRequest present
      exact sound.written k row old (same ▸ handled)
    applied k row' present applied action := by
      obtain ⟨row, old, same, _, was⟩ := before_claimRequest present
      rw [same] at action ⊢
      exact sound.applied k row old (was applied) action }

/-- Who wins the claim becomes the only claimant. -/
theorem Sound.claim {s : ControlRequests} (sound : s.Sound registered)
    {request : ProcessControlRequest} (known : Known s.rows request) (claimant : Claimant)
    (outcome : ClaimOutcome) : Sound registered (s.claim request claimant outcome) := by
  cases outcome with
  | lost => exact sound
  | thrown => exact sound.updateClaim request.seq claimant
  | ran =>
      have after := sound.updateClaim request.seq claimant
      unfold ControlRequests.claim
      dsimp only
      split
      · rename_i won
        obtain ⟨row, present, same⟩ := known
        obtain ⟨old, old', unclaimed, row', present', kept, claimed⟩ := claimed_of_claimRequest won
        cases present.symm.trans old'
        have added : (request.seq, claimant) ∈ (s.updateClaim request.seq claimant).claims := by
          unfold ControlRequests.updateClaim
          dsimp only
          rw [if_pos won]
          exact List.mem_append_right _ List.mem_cons_self
        exact { after with
          jobs := by
            intro job mem
            rcases List.mem_append.mp mem with before | new
            · exact after.jobs job before
            · rw [List.mem_singleton.mp new]
              exact ⟨Job.sound_of_quiet (same ▸ sound.aimed _ row present) ⟨rfl, rfl⟩ rfl,
                row', present', kept.trans same, claimed⟩
          oneJob := by
            rw [List.map_append, List.nodup_append]
            refine ⟨sound.oneJob, List.nodup_singleton _, ?_⟩
            rintro k before k' new rfl
            rw [List.mem_singleton.mp new] at before
            obtain ⟨job, mem, here⟩ := List.mem_map.mp before
            obtain ⟨row₁, present₁, _, claimed₁⟩ := (sound.jobs job mem).2
            rw [here, present] at present₁
            cases present₁
            exact claimed₁ unclaimed
          claimed := by
            intro job mem
            rcases List.mem_append.mp mem with before | new
            · exact after.claimed job before
            · rw [List.mem_singleton.mp new]
              exact added
          applied := by
            intro k row₁ present₁ applied action
            obtain ⟨job, mem, shown⟩ := after.applied k row₁ present₁ applied action
            exact ⟨job, List.mem_append_left _ mem, shown⟩ }
      · exact after

/-! ### Final results -/

theorem write_of_handled {s : ControlRequests} {seq : Nat} {row : RequestRow}
    (present : s.rows.get seq = some row) (handled : row.handledAtMs ≠ none)
    (failure : Option String) (now : Int) : s.write seq failure now = s := by
  have rows : finishRequest s.rows seq failure now = s.rows := by
    unfold finishRequest
    refine Table.update_eq_self fun r here => ?_
    cases present.symm.trans here
    exact if_neg handled
  unfold ControlRequests.write
  rw [rows, present, Option.any_some, if_neg (fun unhandled => handled (of_decide_eq_true unhandled))]

/-- The rows after a final result: all of them but one were there. -/
theorem before_finishRequest {rows : RequestTable} {seq k : Nat} {failure : Option String}
    {now : Int} {row' : RequestRow} (present : (finishRequest rows seq failure now).get k = some row') :
    ∃ row, rows.get k = some row ∧ row'.request = row.request ∧
      (row' = row ∨ k = seq ∧ row' = row.finish failure now) := by
  rw [get_finishRequest] at present
  obtain ⟨row, old, rfl⟩ := Option.map_eq_some_iff.mp present
  refine ⟨row, old, ?_⟩
  split
  · rename_i here
    exact ⟨(row.grows_finish failure now).request, .inr ⟨(Table.key_of_get old).symm.trans here, rfl⟩⟩
  · exact ⟨rfl, .inl rfl⟩

/-- A claimant that writes no failure has shown that the signal was sent or the pid absent. -/
theorem Sound.write {s : ControlRequests} (sound : s.Sound registered) {job : Job}
    (mem : job ∈ s.jobs)
    (shown : job.stage.failure = none → job.request.action ≠ .gracefulStop → job.Evidence)
    (now : Int) : Sound registered (s.write job.request.seq job.stage.failure now) := by
  have grow := rowsGrow_finishRequest s.rows job.request.seq job.stage.failure now
  obtain ⟨row, present, same, _⟩ := (sound.jobs job mem).2
  by_cases unhandled : row.handledAtMs = none
  swap
  · rw [write_of_handled present unhandled]
    exact sound
  have writes : (s.write job.request.seq job.stage.failure now).writes =
      s.writes ++ [(job.request.seq, finalResult job.stage.failure)] := by
    unfold ControlRequests.write
    rw [present, Option.any_some, if_pos (decide_eq_true unhandled)]
  have finished : (finishRequest s.rows job.request.seq job.stage.failure now).get job.request.seq =
      some (row.finish job.stage.failure now) := by
    rw [get_finishRequest, present, Option.map_some, if_pos (Table.key_of_get present)]
  have result : (row.finish job.stage.failure now).result = some (finalResult job.stage.failure) := by
    rw [RequestRow.finish, if_pos unhandled, finalResult]
  have handled : (row.finish job.stage.failure now).handledAtMs ≠ none := by
    rw [RequestRow.finish, if_pos unhandled]
    exact Option.some_ne_none _
  exact {
    fresh k row' present' := by
      obtain ⟨old, here, _⟩ := before_finishRequest present'
      exact sound.fresh k old here
    aimed k row' present' := by
      obtain ⟨old, here, kept, _⟩ := before_finishRequest present'
      exact kept ▸ sound.aimed k old here
    pending request mem := (sound.pending request mem).grow grow
    waiting request mem := (sound.waiting request mem).grow grow
    jobs job mem := (sound.jobs job mem).imp_right fun known => known.grow grow
    oneJob := sound.oneJob
    claims c mem := by
      obtain ⟨old, here, claimed⟩ := sound.claims c mem
      obtain ⟨row', present', grows⟩ := grow _ old here
      exact ⟨row', present', grows.claimed claimed⟩
    oneClaim := sound.oneClaim
    claimed := sound.claimed
    kept w mem := by
      rw [writes] at mem
      rcases List.mem_append.mp mem with before | added
      · obtain ⟨old, here, wrote, done⟩ := sound.kept w before
        obtain ⟨row', present', grows⟩ := grow _ old here
        rw [grows.handled done] at present'
        exact ⟨old, present', wrote, done⟩
      · rw [List.mem_singleton.mp added]
        exact ⟨_, finished, result, handled⟩
    oneResult := by
      rw [writes, List.map_append, List.nodup_append]
      refine ⟨sound.oneResult, List.nodup_singleton _, ?_⟩
      rintro k before k' added rfl
      rw [List.mem_singleton.mp added] at before
      obtain ⟨w, mem, here⟩ := List.mem_map.mp before
      obtain ⟨old, present', _, done⟩ := sound.kept w mem
      rw [here, present] at present'
      cases present'
      exact done unhandled
    written k row' present' done := by
      rw [writes, List.map_append]
      obtain ⟨old, here, _, unchanged | ⟨place, _⟩⟩ := before_finishRequest present'
      · exact List.mem_append_left _ (sound.written k old here (unchanged ▸ done))
      · exact List.mem_append_right _ (List.mem_singleton.mpr place)
    applied k row' present' applied action := by
      obtain ⟨old, here, kept, unchanged | ⟨rfl, wrote⟩⟩ := before_finishRequest present'
      · exact unchanged ▸ sound.applied k old here (unchanged ▸ applied) (unchanged ▸ action)
      · cases present.symm.trans here
        rw [wrote, result] at applied
        rw [kept, same] at action ⊢
        refine ⟨job, mem, rfl, shown ?_ action⟩
        unfold finalResult at applied
        split at applied
        · rename_i quiet
          exact quiet
        · cases applied }

/-! ### One step -/

/-- A claimant goes on with its own request. -/
theorem Sound.setJob {s : ControlRequests} (sound : s.Sound registered) {i : Nat} {job job' : Job}
    (here : s.jobs[i]? = some job) (next : job'.Sound registered) (request : job'.request = job.request)
    (claimant : job'.claimant = job.claimant) (kept : job.Evidence → job'.Evidence) :
    Sound registered { s with jobs := s.jobs.set i job' } := by
  have mem : job ∈ s.jobs := List.mem_of_getElem? here
  obtain ⟨bound, at_i⟩ := List.getElem?_eq_some_iff.mp here
  exact { sound with
    jobs := by
      intro x changed
      rcases List.mem_or_eq_of_mem_set changed with old | rfl
      · exact sound.jobs x old
      · exact ⟨next, request ▸ (sound.jobs job mem).2⟩
    oneJob := by
      have same : (s.jobs.set i job').map (fun job => job.request.seq) =
          s.jobs.map fun job => job.request.seq := by
        have bound' : i < (s.jobs.map fun job => job.request.seq).length := by
          rwa [List.length_map]
        have seq : job.request.seq = (s.jobs.map fun job => job.request.seq)[i] := by
          rw [List.getElem_map, at_i]
        rw [List.map_set, request, seq, List.set_getElem_self]
      rw [same]
      exact sound.oneJob
    claimed := by
      intro x changed
      rcases List.mem_or_eq_of_mem_set changed with old | rfl
      · exact sound.claimed x old
      · rw [request, claimant]
        exact sound.claimed job mem
    applied := by
      intro k row present applied action
      obtain ⟨x, old, asked, evidence⟩ := sound.applied k row present applied action
      obtain ⟨j, there⟩ := List.mem_iff_getElem?.mp old
      by_cases place : i = j
      · subst place
        cases here.symm.trans there
        exact ⟨job', List.mem_of_getElem? (List.getElem?_set_self bound), request.trans asked,
          kept evidence⟩
      · exact ⟨x, List.mem_of_getElem? ((List.getElem?_set_ne place).trans there), asked, evidence⟩ }

theorem completing_of_finish {stage stage' : Stage} {outcome : Finish}
    (next : stage.finish outcome = some stage') (quiet : stage.failure = none) :
    stage = .completing := by
  cases stage with
  | completing => rfl
  | failing failure => cases quiet
  | claimed | absent | checked | marked | done => cases next

theorem Sound.endRound {s : ControlRequests} (sound : s.Sound registered) (job : Job) :
    Sound registered (s.endRound job) := by
  unfold ControlRequests.endRound
  split
  · exact { sound with pending := by intro request mem; cases mem }
  · exact sound

theorem jobs_endRound (s : ControlRequests) (job : Job) : (s.endRound job).jobs = s.jobs := by
  unfold endRound
  split <;> rfl

theorem Sound.effect {s : ControlRequests} (sound : s.Sound registered) {job job' : Job}
    (mem : job ∈ s.jobs) {e : JobEvent} (fire : job.step registered reads s.machine e = some job') :
    Sound registered (s.effect job e) ∧ (s.effect job e).jobs = s.jobs := by
  cases e with
  | finish outcome now =>
      obtain ⟨stage, next, rfl⟩ := Option.map_eq_some_iff.mp fire
      have shown : job.stage.failure = none → job.request.action ≠ .gracefulStop →
          job.Evidence := by
        intro quiet
        have before := (sound.jobs job mem).1.shown
        rw [completing_of_finish next quiet] at before
        exact before
      cases outcome with
      | written => exact ⟨sound.write mem shown now, rfl⟩
      | lost failure => exact ⟨sound.endRound job, jobs_endRound s job⟩
      | thrown failure =>
          have there : job ∈ (s.endRound job).jobs := by
            rw [jobs_endRound]
            exact mem
          exact ⟨(sound.endRound job).write there shown now, jobs_endRound s job⟩
  | read | mark | signal => exact ⟨sound, rfl⟩

theorem rowsGrow_put {rows : RequestTable} {row : RequestRow} (new : rows.get row.seq = none) :
    RowsGrow rows (rows.put row) := by
  intro k old present
  have other : k ≠ row.seq := by
    rintro rfl
    rw [new] at present
    cases present
  exact ⟨old, (Table.get_put_of_ne other).trans present, .refl old⟩

/-- A new request for the registered incarnation, that waits for the owner. -/
theorem Sound.insert {s : ControlRequests} (sound : s.Sound registered)
    {request : ProcessControlRequest} (aimed : AimedAt registered request)
    (seq : request.seq = s.nextSeq) :
    Sound registered { s with
      rows := s.rows.put { request }
      nextSeq := s.nextSeq + 1
      waiting := s.waiting ++ [request] } := by
  have new : s.rows.get (RequestRow.seq { request }) = none := by
    cases present : s.rows.get (RequestRow.seq { request }) with
    | none => rfl
    | some row =>
        have below := sound.fresh _ row present
        rw [RequestRow.seq, seq] at below
        exact absurd below (lt_irrefl _)
  have grow := rowsGrow_put new
  have before : ∀ k row, (s.rows.put { request }).get k = some row →
      row = { request } ∧ k = s.nextSeq ∨ s.rows.get k = some row := by
    intro k row present
    by_cases here : k = RequestRow.seq { request }
    · subst here
      rw [Table.get_put_self] at present
      exact .inl ⟨(Option.some.inj present).symm, seq⟩
    · rw [Table.get_put_of_ne here] at present
      exact .inr present
  exact {
    fresh k row present := by
      rcases before k row present with ⟨_, rfl⟩ | old
      · exact Nat.lt_succ_self _
      · exact Nat.lt_succ_of_lt (sound.fresh k row old)
    aimed k row present := by
      rcases before k row present with ⟨rfl, _⟩ | old
      · exact aimed
      · exact sound.aimed k row old
    pending request mem := (sound.pending request mem).grow grow
    waiting request mem := by
      rcases List.mem_append.mp mem with old | added
      · exact (sound.waiting request old).grow grow
      · rw [List.mem_singleton.mp added]
        exact ⟨_, Table.get_put_self, rfl⟩
    jobs job mem := (sound.jobs job mem).imp_right fun known => known.grow grow
    oneJob := sound.oneJob
    claims c mem := by
      obtain ⟨row, present, claimed⟩ := sound.claims c mem
      obtain ⟨row', present', grows⟩ := grow _ row present
      exact ⟨row', present', grows.claimed claimed⟩
    oneClaim := sound.oneClaim
    claimed := sound.claimed
    kept w mem := by
      obtain ⟨row, present, result, handled⟩ := sound.kept w mem
      obtain ⟨row', present', grows⟩ := grow _ row present
      rw [grows.handled handled] at present'
      exact ⟨row, present', result, handled⟩
    oneResult := sound.oneResult
    written k row present handled := by
      rcases before k row present with ⟨rfl, _⟩ | old
      · exact absurd rfl handled
      · exact sound.written k row old handled
    applied k row present applied action := by
      rcases before k row present with ⟨rfl, _⟩ | old
      · cases applied
      · exact sound.applied k row old applied action }

theorem known_of_pending {rows : RequestTable} {request : ProcessControlRequest}
    (mem : request ∈ pendingRequests rows) : Known rows request := by
  obtain ⟨row, free, rfl⟩ := List.mem_map.mp mem
  exact ⟨row, Table.mem_rows_iff.mp (List.mem_filter.mp free).1, rfl⟩

theorem Sound.step (prints : Prints registered reads) {s s' : ControlRequests} {e : RequestEvent}
    (sound : s.Sound registered) (fire : s.step registered reads e = some s') :
    s'.Sound registered := by
  cases e with
  | machine machine =>
      cases fire
      exact { sound with }
  | exit =>
      cases fire
      exact { sound with }
  | call status action requestedBy authorizedBy actionId requestedAtMs =>
      unfold ControlRequests.step at fire
      dsimp only at fire
      split at fire
      · cases fire
        exact sound.insert ⟨rfl, rfl, rfl⟩ rfl
      · cases fire
  | leave i =>
      cases fire
      exact { sound with
        waiting := fun request mem => sound.waiting request (List.mem_of_mem_eraseIdx mem) }
  | poll =>
      unfold ControlRequests.step at fire
      dsimp only at fire
      split at fire
      · cases fire
        exact { sound with pending := fun request mem => known_of_pending mem }
      · cases fire
  | ownerClaim outcome =>
      unfold ControlRequests.step at fire
      dsimp only at fire
      split at fire
      · cases fire
      · rename_i request rest pending
        have read : ∀ x ∈ request :: rest, Known s.rows x := pending ▸ sound.pending
        split at fire
        · cases fire
          have rested : Sound registered
              { s with pending := if outcome = ClaimOutcome.ran then rest else [] } :=
            { sound with
              pending := by
                intro x mem
                dsimp only at mem
                split at mem
                · exact read x (List.mem_cons_of_mem _ mem)
                · cases mem }
          exact rested.claim (read request List.mem_cons_self) .owner outcome
        · cases fire
  | directClaim i outcome =>
      unfold ControlRequests.step at fire
      dsimp only at fire
      split at fire
      · cases fire
      · rename_i request here
        split at fire
        · cases fire
        · cases fire
          have rested : Sound registered { s with waiting := s.waiting.eraseIdx i } :=
            { sound with
              waiting := fun x mem => sound.waiting x (List.mem_of_mem_eraseIdx mem) }
          exact rested.claim (sound.waiting request (List.mem_of_getElem? here)) .direct outcome
  | job i event =>
      unfold ControlRequests.step at fire
      dsimp only at fire
      split at fire
      · cases fire
      · rename_i job here
        obtain ⟨job', next, rfl⟩ := Option.map_eq_some_iff.mp fire
        have mem : job ∈ s.jobs := List.mem_of_getElem? here
        obtain ⟨soundJob, request, claimant, kept⟩ := (sound.jobs job mem).1.step prints next
        obtain ⟨after, jobs⟩ := sound.effect mem next
        have set := after.setJob (jobs ▸ here) soundJob request claimant kept
        rwa [jobs] at set

theorem rows_endRound (s : ControlRequests) (job : Job) : (s.endRound job).rows = s.rows := by
  unfold endRound
  split <;> rfl

theorem rowsGrow_claim (s : ControlRequests) (request : ProcessControlRequest) (claimant : Claimant)
    (outcome : ClaimOutcome) : RowsGrow s.rows (s.claim request claimant outcome).rows := by
  cases outcome with
  | ran | thrown => exact rowsGrow_claimRequest s.rows request.seq claimant
  | lost => exact .refl s.rows

theorem rowsGrow_effect (s : ControlRequests) (job : Job) (e : JobEvent) :
    RowsGrow s.rows (s.effect job e).rows := by
  cases e with
  | finish outcome now =>
      cases outcome with
      | written => exact rowsGrow_finishRequest s.rows job.request.seq job.stage.failure now
      | lost failure =>
          rw [effect, rows_endRound]
          exact .refl s.rows
      | thrown failure =>
          have grow := rowsGrow_finishRequest (s.endRound job).rows job.request.seq
            job.stage.failure now
          rw [rows_endRound] at grow
          rw [effect, ControlRequests.write, rows_endRound]
          exact grow
  | read | mark | signal => exact .refl s.rows

theorem rowsGrow_step {s s' : ControlRequests} {e : RequestEvent} (sound : s.Sound registered)
    (fire : s.step registered reads e = some s') : RowsGrow s.rows s'.rows := by
  cases e with
  | call status action requestedBy authorizedBy actionId requestedAtMs =>
      unfold ControlRequests.step at fire
      dsimp only at fire
      split at fire
      · cases fire
        refine rowsGrow_put (Option.eq_none_iff_forall_ne_some.mpr fun row present => ?_)
        exact lt_irrefl _ (sound.fresh _ row present)
      · cases fire
  | machine | exit | leave =>
      cases fire
      exact .refl s.rows
  | poll =>
      unfold ControlRequests.step at fire
      dsimp only at fire
      split at fire
      · cases fire
        exact .refl s.rows
      · cases fire
  | ownerClaim outcome =>
      unfold ControlRequests.step at fire
      dsimp only at fire
      split at fire
      · cases fire
      · rename_i request rest _
        split at fire
        · cases fire
          exact rowsGrow_claim
            { s with pending := if outcome = ClaimOutcome.ran then rest else [] } request .owner outcome
        · cases fire
  | directClaim i outcome =>
      unfold ControlRequests.step at fire
      dsimp only at fire
      split at fire
      · cases fire
      · rename_i request _
        split at fire
        · cases fire
        · cases fire
          exact rowsGrow_claim { s with waiting := s.waiting.eraseIdx i } request .direct outcome
  | job i event =>
      unfold ControlRequests.step at fire
      dsimp only at fire
      split at fire
      · cases fire
      · rename_i job here
        obtain ⟨job', _, rfl⟩ := Option.map_eq_some_iff.mp fire
        exact rowsGrow_effect s job event

theorem sound_init : Sound registered {} where
  fresh k row present := by cases present
  aimed k row present := by cases present
  pending request mem := by cases mem
  waiting request mem := by cases mem
  jobs job mem := by cases mem
  oneJob := List.nodup_nil
  claims c mem := by cases mem
  oneClaim := List.nodup_nil
  claimed job mem := by cases mem
  kept w mem := by cases mem
  oneResult := List.nodup_nil
  written k row present := by cases present
  applied k row present := by cases present

theorem sound_of_run (prints : Prints registered reads) {s s' : ControlRequests} (sound : s.Sound registered)
    (run : Steps (ControlRequests.step registered reads) AnyStep s s') : s'.Sound registered :=
  run.invariant sound fun _ _ _ before _ fire => before.step prints fire

theorem rowsGrow_of_run (prints : Prints registered reads) {s s' : ControlRequests}
    (sound : s.Sound registered)
    (run : Steps (ControlRequests.step registered reads) AnyStep s s') :
    RowsGrow s.rows s'.rows := by
  induction run with
  | refl => exact .refl s.rows
  | tail before _ fire ih => exact ih.trans (rowsGrow_step (sound_of_run prints sound before) fire)

/-! ### Where a missing process is reported -/

/-- `ps` and PowerShell report a missing process only where the machine has none at the pid. -/
def MissingIsAbsent (s : ControlRequests) : RequestEvent → Prop
  | .job i (.read (.failed error)) => isMissingOwnedProcess error = true →
      ∀ job ∈ s.jobs[i]?, s.machine job.request.targetPid = none
  | _ => True

instance (s : ControlRequests) (e : RequestEvent) : Decidable (s.MissingIsAbsent e) :=
  match e with
  | .job i (.read (.failed error)) => inferInstanceAs (Decidable (isMissingOwnedProcess error = true →
      ∀ job ∈ s.jobs[i]?, s.machine job.request.targetPid = none))
  | .machine _ | .exit | .call .. | .leave _ | .poll | .ownerClaim _ | .directClaim ..
  | .job _ (.read (.printed _)) | .job _ (.mark _) | .job _ (.signal _) | .job _ (.finish ..) =>
      .isTrue trivial

/-- A claimant that takes the process for missing has seen that there is none. -/
def MissingSeen (s : ControlRequests) : Prop :=
  ∀ job ∈ s.jobs, job.missing = true → job.seen = some none

theorem jobs_claim {s : ControlRequests} {request : ProcessControlRequest} {claimant : Claimant}
    {outcome : ClaimOutcome} {job : Job} (mem : job ∈ (s.claim request claimant outcome).jobs) :
    job ∈ s.jobs ∨ job = { claimant, request } := by
  cases outcome with
  | ran =>
      unfold ControlRequests.claim at mem
      dsimp only at mem
      split at mem
      · exact (List.mem_append.mp mem).imp_right List.mem_singleton.mp
      · exact .inl mem
  | lost | thrown => exact .inl mem

/-- A claimant after a step was there, is new, or has made the step. -/
theorem mem_jobs_of_step {s s' : ControlRequests} {e : RequestEvent}
    (fire : s.step registered reads e = some s') {job' : Job} (mem : job' ∈ s'.jobs) :
    job' ∈ s.jobs ∨ (∃ claimant request, job' = { claimant, request }) ∨
      ∃ i event job, e = .job i event ∧ s.jobs[i]? = some job ∧
        job.step registered reads s.machine event = some job' := by
  unfold ControlRequests.step at fire
  cases e with
  | machine | exit | leave =>
      cases fire
      exact .inl mem
  | call | poll =>
      dsimp only at fire
      split at fire
      · cases fire
        exact .inl mem
      · cases fire
  | ownerClaim outcome =>
      dsimp only at fire
      split at fire
      · cases fire
      · split at fire
        · cases fire
          exact (jobs_claim mem).imp_right fun new => .inl ⟨_, _, new⟩
        · cases fire
  | directClaim i outcome =>
      dsimp only at fire
      split at fire
      · cases fire
      · split at fire
        · cases fire
        · cases fire
          exact (jobs_claim mem).imp_right fun new => .inl ⟨_, _, new⟩
  | job i event =>
      dsimp only at fire
      split at fire
      · cases fire
      · rename_i job here
        obtain ⟨next, moved, rfl⟩ := Option.map_eq_some_iff.mp fire
        rcases List.mem_or_eq_of_mem_set mem with old | rfl
        · exact .inl old
        · exact .inr (.inr ⟨i, event, job, rfl, here, moved⟩)

/-- Only a read takes the process for missing. -/
theorem missing_of_jobStep {machine : Machine} {job job' : Job} {e : JobEvent}
    (fire : job.step registered reads machine e = some job') :
    (job'.missing = job.missing ∧ job'.seen = job.seen) ∨
      ∃ exec, e = .read exec ∧ job'.seen = some (machine job.request.targetPid) ∧
        (job'.missing = true → ∃ error, isMissingOwnedProcess error = true ∧
          readProcessIdentity registered.windows job.request.targetPid exec = .error error) := by
  unfold Job.step at fire
  cases e with
  | read exec =>
      dsimp only at fire
      split at fire
      · cases fire
        refine .inr ⟨exec, rfl, rfl, fun missing => ?_⟩
        have absent := of_decide_eq_true missing
        cases read : readProcessIdentity registered.windows job.request.targetPid exec with
        | ok identity =>
            rw [read, ProcessControlRequest.readStage] at absent
            split at absent <;> cases absent
        | error error =>
            rw [read, ProcessControlRequest.readStage] at absent
            split at absent
            · rename_i told
              exact ⟨error, told, rfl⟩
            · cases absent
      · cases fire
  | mark failure =>
      dsimp only at fire
      split at fire
      · split at fire
        · cases fire
          exact .inl ⟨rfl, rfl⟩
        · cases fire
      all_goals cases fire
      all_goals exact .inl ⟨rfl, rfl⟩
  | signal failure =>
      dsimp only at fire
      split at fire
      · split at fire
        · cases fire
          exact .inl ⟨rfl, rfl⟩
        · split at fire <;> cases fire <;> exact .inl ⟨rfl, rfl⟩
      all_goals cases fire
  | finish outcome now =>
      obtain ⟨stage, _, rfl⟩ := Option.map_eq_some_iff.mp fire
      exact .inl ⟨rfl, rfl⟩

theorem MissingSeen.step {s s' : ControlRequests} {e : RequestEvent} (seen : s.MissingSeen)
    (absent : s.MissingIsAbsent e) (fire : s.step registered reads e = some s') :
    s'.MissingSeen := by
  intro job' mem missing
  rcases mem_jobs_of_step fire mem with old | ⟨_, _, rfl⟩ | ⟨i, event, job, rfl, here, moved⟩
  · exact seen job' old missing
  · cases missing
  · rcases missing_of_jobStep moved with ⟨same, saw⟩ | ⟨exec, rfl, saw, told⟩
    · rw [saw]
      exact seen job (List.mem_of_getElem? here) (same ▸ missing)
    · obtain ⟨error, reported, read⟩ := told missing
      cases failed_of_missing read reported
      rw [saw, absent reported job here]

/-- With one claimant for each request, its signals are those of one claimant. -/
theorem Sound.oneSignal {s : ControlRequests} (sound : s.Sound registered) (seq : Nat) :
    (s.signalsOf seq).length ≤ 1 := by
  have distinct : ((s.jobs.filter fun job => job.request.seq = seq).map
      fun job => job.request.seq).Nodup :=
    sound.oneJob.sublist (List.filter_sublist.map _)
  unfold signalsOf
  cases found : s.jobs.filter fun job => job.request.seq = seq with
  | nil => exact Nat.zero_le 1
  | cons job rest =>
      have mine : ∀ x ∈ job :: rest, x ∈ s.jobs ∧ x.request.seq = seq := by
        intro x mem
        rw [← found, List.mem_filter] at mem
        exact ⟨mem.1, of_decide_eq_true mem.2⟩
      cases rest with
      | nil =>
          rw [List.flatMap_singleton]
          exact (sound.jobs job (mine job List.mem_cons_self).1).1.once
      | cons other rest =>
          rw [found, List.map_cons, List.map_cons, List.nodup_cons] at distinct
          have same : job.request.seq = other.request.seq :=
            (mine job List.mem_cons_self).2.trans
              (mine other (List.mem_cons_of_mem _ List.mem_cons_self)).2.symm
          exact absurd (same ▸ List.mem_cons_self) distinct.1

end ControlRequests

/-- In every run of the owner, of direct calls and of the process in which a missing process is
reported only where it is missing, a request has one claim, one signal and one final result, which
stays; it is applied when its signal was sent or the pid absent, and a direct claimant signals what
it has seen to be the registered process. -/
theorem request_takes_effect_once (prints : Prints registered reads) {s : ControlRequests}
    (run : Steps (ControlRequests.step registered reads) ControlRequests.MissingIsAbsent {} s) :
    ((s.claims.map Prod.fst).Nodup ∧ ∀ job ∈ s.jobs, (job.request.seq, job.claimant) ∈ s.claims) ∧
    (∀ seq, (s.signalsOf seq).length ≤ 1) ∧
    ((s.writes.map Prod.fst).Nodup ∧
      ∀ seq row, s.rows.get seq = some row → row.handledAtMs ≠ none →
        ∃ result, row.result = some result ∧ (seq, result) ∈ s.writes ∧
          ∀ s', Steps (ControlRequests.step registered reads) AnyStep s s' →
            s'.rows.get seq = some row) ∧
    (∀ seq row, s.rows.get seq = some row → row.result = some .applied →
      row.request.action ≠ .gracefulStop → ∃ job ∈ s.jobs, job.request = row.request ∧
        ((∃ signal ∈ job.signals, signal.sent = true ∧ signal.action = row.request.action) ∨
          row.request.targetPid = registered.pid ∧ job.seen = some none)) ∧
    ∀ job ∈ s.jobs, job.claimant = .direct → ∀ signal ∈ job.signals,
      job.SawRegistered registered signal.target := by
  have sound := ControlRequests.sound_of_run prints ControlRequests.sound_init run.any
  have seen : s.MissingSeen := run.invariant (fun _ mem => by cases mem)
    fun _ _ _ before absent fire => before.step absent fire
  refine ⟨⟨sound.oneClaim, sound.claimed⟩, sound.oneSignal,
    ⟨sound.oneResult, fun seq row present handled => ?_⟩, fun seq row present applied action => ?_,
    fun job mem => (sound.jobs job mem).1.direct⟩
  · obtain ⟨w, mem, here⟩ := List.mem_map.mp (sound.written seq row present handled)
    obtain ⟨row', present', result, _⟩ := sound.kept w mem
    rw [here, present] at present'
    cases present'
    refine ⟨w.2, result, here ▸ mem, fun s' later => ?_⟩
    obtain ⟨row', present', grows⟩ :=
      ControlRequests.rowsGrow_of_run prints sound later seq row present
    rwa [grows.handled handled] at present'
  · obtain ⟨job, mem, asked, evidence⟩ := sound.applied seq row present applied action
    rw [← asked]
    exact ⟨job, mem, rfl, evidence.imp_right fun missing =>
      ⟨(sound.jobs job mem).1.aimed.pid, seen job mem missing⟩⟩

/-! ## An owner and a direct call -/

def stageProcess : Registered where
  processId := "pi-stage-1"
  processInstanceId := "instance-1"
  wgId := "wg-1"
  pid := 777
  identity := ⟨776, "Mon Aug  3 09:30:00 2026"⟩
  detached := true
  windows := false
  windowsJob := none

def stageLine : String := "  777   776 Mon Aug  3 09:30:00 2026\n"

/-- The process of the pid is printed, and every call can fail. -/
def look (machine : Machine) (pid : Int) : Exec → Bool
  | .printed stdout => pid = 777 ∧ machine 777 = some stageProcess.identity ∧ stdout = stageLine
  | .failed _ => true

theorem printed_stageLine : Printed false 777 stageProcess.identity stageLine.toList :=
  @Printed.ps 777 stageProcess.identity [' ', ' '] [' ', ' ', ' '] [' '] ['\n']
    (List.all_eq_true.mp rfl) (by decide) (by decide) ⟨'M', rfl, rfl⟩ ⟨'6', rfl, rfl⟩

theorem prints_look : Prints stageProcess look := by
  intro machine pid stdout read
  obtain ⟨rfl, there, rfl⟩ := of_decide_eq_true read
  exact ⟨stageProcess.identity, there, printed_stageLine⟩

/-- The process runs, and two calls want it to end. -/
def twoCalls : List RequestEvent :=
  [.machine fun pid => if pid = 777 then some stageProcess.identity else none,
    .call .running .terminate .cli "operator" "action-1" 10,
    .call .running .forceKill .web "operator" "action-2" 20]

/-- The owner applies the first request and loses the second one to its direct call. -/
def ownerAndDirect : List RequestEvent :=
  twoCalls ++ [.poll, .ownerClaim .ran, .directClaim 1 .ran, .job 1 (.read (.printed stageLine)),
    .job 0 (.mark none), .job 1 (.mark none), .job 0 (.signal none), .job 1 (.signal none),
    .job 1 (.finish .written 30), .job 0 (.finish .written 40), .ownerClaim .ran]

theorem request_takes_effect_once_stage : ∃ s,
    Steps (ControlRequests.step stageProcess look) ControlRequests.MissingIsAbsent {} s ∧
      s.claims = [(1, .owner), (2, .direct)] ∧ s.writes = [(2, .applied), (1, .applied)] ∧
      (∀ seq, (s.signalsOf seq).length ≤ 1) ∧
      ∀ job ∈ s.jobs, job.claimant = .direct → ∀ signal ∈ job.signals,
        job.SawRegistered stageProcess signal.target := by
  have replay : (runWhile (ControlRequests.step stageProcess look)
      (fun s e => decide (s.MissingIsAbsent e)) {} ownerAndDirect).any (fun s =>
        s.claims = [(1, .owner), (2, .direct)] ∧
          s.writes = [(2, .applied), (1, .applied)]) = true := by decide +kernel
  obtain ⟨s, done, ends⟩ := (Option.any_eq_true _ _).mp replay
  have run : Steps (ControlRequests.step stageProcess look) ControlRequests.MissingIsAbsent {} s :=
    .of_runWhile (fun _ _ => of_decide_eq_true) done
  obtain ⟨_, oneSignal, _, _, direct⟩ := request_takes_effect_once prints_look run
  obtain ⟨claims, writes⟩ := of_decide_eq_true ends
  exact ⟨s, run, claims, writes, oneSignal, direct⟩

/-- The process runs, and `ps` ends with the exit status 1 for another reason. -/
def failedRead : List RequestEvent :=
  twoCalls ++ [.directClaim 0 .ran, .job 0 (.read (.failed {
      code := some (.status 1), message := "Command failed: ps -o pid= -o pgid= -o lstart= -p 777" })),
    .job 0 (.mark none), .job 0 (.finish .written 30)]

/-- The first request is applied without a signal, while the process runs. -/
theorem request_applied_unsignalled : Prints stageProcess look ∧ ∃ s,
    Steps (ControlRequests.step stageProcess look) AnyStep {} s ∧
      s.machine stageProcess.pid = some stageProcess.identity ∧
      ∃ row, s.rows.get 1 = some row ∧ row.result = some .applied ∧
        row.request.action = .terminate ∧
        ∀ job ∈ s.jobs, job.signals = [] ∧ job.seen = some (some stageProcess.identity) := by
  have replay : (runWhile (ControlRequests.step stageProcess look) (fun _ _ => true) {}
      failedRead).any (fun s => s.machine stageProcess.pid = some stageProcess.identity ∧
        ((s.rows.get 1).any fun row => row.result = some .applied ∧
          row.request.action = .terminate) ∧
        ∀ job ∈ s.jobs, job.signals = [] ∧ job.seen = some (some stageProcess.identity)) = true := by
    decide +kernel
  obtain ⟨s, done, ends⟩ := (Option.any_eq_true _ _).mp replay
  obtain ⟨runs, kept, quiet⟩ := of_decide_eq_true ends
  obtain ⟨row, present, applied⟩ := (Option.any_eq_true _ _).mp kept
  obtain ⟨result, action⟩ := of_decide_eq_true applied
  exact ⟨prints_look, s, .of_runWhile (fun _ _ _ => trivial) done, runs, row, present, result,
    action, quiet⟩

end Opensquid.Processes
