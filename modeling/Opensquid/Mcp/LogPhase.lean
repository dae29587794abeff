import Opensquid.Lib.Steps
import Opensquid.Loop.V2Supply

/-!
# One key for the phase ledger

The tool that logs a phase keys the ledger, and the machine it asks, by the id of the active
task; the evidence for the code gate, the readiness step and the stored machine are keyed by the
track id where the task has one. A session is a sequence of task changes, logged phases and
hook events; beside it stand the calls that succeeded.

`agrees_iff`: over a set of tasks, in every session the readers agree with the log of the
calls, exactly when no task has a track id other than its id.
-/

namespace Opensquid.Mcp

open Opensquid.Lib Opensquid.Runtime Opensquid.Loop

/-! ## The tool -/

/-- The stages in front of the code stage. -/
def PRE_CODE_STAGES : List String := ["scope", "plan", "author"]

structure LogPhaseOutput where
  taskId : String
  phase : Phase
  phasesLogged : List Phase
  complete : Bool
  deriving DecidableEq, Repr

/-- The pack whose machine the tool asks. -/
def machinePack (packs : List Cartridge) : Option String :=
  (packs.find? fun c => c.actor.isSome).map Cartridge.name

/-- The stage in front of the code stage that the task's machine is at. -/
def preCodeStage (packs : List Cartridge) (s : Session) (active : ActiveTask) : Option String :=
  (machinePack packs).bind fun pack =>
    (s.files (fsmStateKey pack (some active.id))).state.filter fun stage => stage ∈ PRE_CODE_STAGES

def handleLogPhase (packs : List Cartridge) (s : Session) (phase : Phase) :
    Except String (PhaseState × LogPhaseOutput) :=
  match s.active with
  | none => .error ("log_phase: no active task (active-task.json absent). " ++
      "Create a task and set it in_progress first (rule #1).")
  | some active =>
      match preCodeStage packs s active with
      | some stage => .error ("log_phase: the task FSM for \"" ++ active.id ++ "\" is at \"" ++
          stage ++ "\", not the CODE stage — " ++
          "complete SCOPE→PLAN→AUTHOR before logging the 7 CODE phases (E4 stage coupling).")
      | none =>
          let state := appendPhase s.ledger active.id phase
          .ok (state, ⟨active.id, phase, state.phases, isComplete (some state) active.id⟩)

/-! ## Sessions -/

inductive Event
  | activate (task : Option ActiveTask)
  | logPhase (phase : Phase)
  | hook (e : HookEvent)

structure Log where
  session : Session := {}
  /-- The calls that succeeded, the newest first. -/
  calls : List (ActiveTask × Phase) := []

variable (packs : List Cartridge)

def Log.logPhase (s : Log) (phase : Phase) : Log :=
  match s.session.active with
  | none => s
  | some task =>
      match handleLogPhase packs s.session phase with
      | .error _ => s
      | .ok (ledger, _) => ⟨{ s.session with ledger := some ledger }, (task, phase) :: s.calls⟩

def step (s : Log) : Event → Option Log
  | .activate task => some { s with session := { s.session with active := task } }
  | .logPhase phase => some (s.logPhase packs phase)
  | .hook e => some { s with session := runV2Cartridges packs e s.session }

/-- Only these tasks become active. -/
def Within (tasks : Set ActiveTask) (_ : Log) : Event → Prop
  | .activate (some task) => task ∈ tasks
  | .activate none | .logPhase _ | .hook _ => True

/-- The phases logged for a task since the last call for another one. -/
def loggedSince (calls : List (ActiveTask × Phase)) (id : String) : List Phase :=
  (calls.takeWhile fun call => call.1.id = id).map Prod.snd

/-- The readers of the ledger and of the machine see what the calls and the hooks have done
for the active task. -/
structure Agrees (s : Log) (task : ActiveTask) : Prop where
  evidence : ∀ deps, (codeEvidenceForSession deps s.session).phasesComplete = true ↔
    ∀ p ∈ REQUIRED_PHASES, p ∈ loggedSince s.calls task.id
  readiness : ∀ readiness cwd, cwd ≠ "" →
    (∀ taskId, (readiness taskId).ran = false ∨ (readiness taskId).deprecatedClean = false) →
    ((readinessStep readiness (some cwd) s.session).isSome ↔
      ∀ p ∈ REQUIRED_PHASES, p ∈ loggedSince s.calls task.id)
  rejects : ∀ phase, (∃ message, handleLogPhase packs s.session phase = .error message) ↔
    ∃ pack ∈ machinePack packs, ∃ stage ∈ s.session.stored (pack, task.id), stage ∈ PRE_CODE_STAGES

/-- No other pack has the key of one of the tasks at the pack whose machine is asked. -/
def KeysApart (tasks : Set ActiveTask) : Prop :=
  ∀ pack ∈ machinePack packs, ∀ c ∈ packs, c.name ≠ pack → ∀ task ∈ tasks,
    fsmStateKey c.name none ≠ fsmStateKey pack (some task.id) ∧
      ∀ other ∈ tasks, fsmStateKey c.name (some other.trackId) ≠ fsmStateKey pack (some task.id)

/-! ## The ledger -/

variable {packs} {s t : Log} {tasks : Set ActiveTask}

/-- The ledger holds, for every task, what was logged for it last. -/
def LedgerFits (s : Log) : Prop :=
  ∀ id p, p ∈ phasesOf s.session.ledger id ↔ p ∈ loggedSince s.calls id

theorem loggedSince_cons_self {task : ActiveTask} {phase : Phase} {calls : List (ActiveTask × Phase)} :
    loggedSince ((task, phase) :: calls) task.id = phase :: loggedSince calls task.id := by
  rw [loggedSince, List.takeWhile_cons, if_pos (decide_eq_true rfl), List.map_cons, loggedSince]

theorem loggedSince_cons_of_ne {task : ActiveTask} {phase : Phase}
    {calls : List (ActiveTask × Phase)} {id : String} (other : task.id ≠ id) :
    loggedSince ((task, phase) :: calls) id = [] := by
  rw [loggedSince, List.takeWhile_cons, if_neg (by simpa using other), List.map_nil]

/-- The call is accepted, or it leaves everything as it is. -/
theorem logPhase_cases (phase : Phase) :
    s.logPhase packs phase = s ∨ ∃ task, s.session.active = some task ∧
      preCodeStage packs s.session task = none ∧
      s.logPhase packs phase =
        ⟨{ s.session with ledger := some (appendPhase s.session.ledger task.id phase) },
          (task, phase) :: s.calls⟩ := by
  rcases Option.eq_none_or_eq_some s.session.active with absent | ⟨task, active⟩
  · rw [Log.logPhase, absent]
    exact .inl rfl
  · rw [Log.logPhase, handleLogPhase, active]
    dsimp only
    rcases Option.eq_none_or_eq_some (preCodeStage packs s.session task) with fine | ⟨stage, early⟩
    · rw [fine]
      exact .inr ⟨task, rfl, fine, rfl⟩
    · rw [early]
      exact .inl rfl

theorem LedgerFits.logPhase (fits : LedgerFits s) (phase : Phase) :
    LedgerFits (s.logPhase packs phase) := by
  rcases logPhase_cases phase with same | ⟨task, -, -, logged⟩
  · rw [same]
    exact fits
  · rw [logged]
    intro id p
    by_cases same : task.id = id
    · subst same
      rw [phasesOf_append_self, mem_appendPhase, loggedSince_cons_self, List.mem_cons, fits]
    · rw [phasesOf_append_of_ne same, loggedSince_cons_of_ne same]

theorem ledger_runV2Cartridges {e : HookEvent} {session : Session} :
    (runV2Cartridges packs e session).ledger = session.ledger ∧
      (runV2Cartridges packs e session).active = session.active := by
  rw [runV2Cartridges]
  induction packs generalizing session with
  | nil => exact ⟨rfl, rfl⟩
  | cons c packs ih => exact ih

theorem LedgerFits.step {e : Event} (fits : LedgerFits s) (fire : step packs s e = some t) :
    LedgerFits t := by
  cases e with
  | activate task =>
      cases fire
      exact fits
  | logPhase phase =>
      cases fire
      exact fits.logPhase phase
  | hook e =>
      cases fire
      intro id p
      rw [ledger_runV2Cartridges.1]
      exact fits id p

theorem ledger_of_run {ok : Log → Event → Prop} (run : Steps (step packs) ok {} s) : LedgerFits s :=
  run.invariant (fun _ _ => Iff.rfl) fun _ _ _ fits _ fire => fits.step fire

theorem complete_iff (fits : LedgerFits s) {id : String} :
    isComplete s.session.ledger id = true ↔ ∀ p ∈ REQUIRED_PHASES, p ∈ loggedSince s.calls id := by
  rw [isComplete_iff]
  exact forall₂_congr fun p _ => fits id p

/-! ## The machine -/

/-- The file under the id of each task holds what was stored for the task. -/
def MachineFits (packs : List Cartridge) (tasks : Set ActiveTask) (session : Session) : Prop :=
  ∀ pack ∈ machinePack packs, ∀ task ∈ tasks,
    (session.files (fsmStateKey pack (some task.id))).state = session.stored (pack, task.id)

theorem fsmStateKey_some_injective {pack id other : String}
    (same : fsmStateKey pack (some id) = fsmStateKey pack (some other)) : id = other := by
  have chars := congrArg String.toList same
  simp only [fsmStateKey, String.toList_append] at chars
  exact String.toList_inj.mp (List.append_cancel_left chars)

theorem fsmStateKey_none_ne {pack id : String} : fsmStateKey pack none ≠ fsmStateKey pack (some id) := by
  intro same
  have lengths := congrArg (fun key => key.toList.length) same
  simp only [fsmStateKey, String.toList_append, List.length_append] at lengths
  have dash : "-".toList.length = 1 := rfl
  omega

theorem MachineFits.runCartridge {session : Session} {e : HookEvent} {c : Cartridge}
    (fits : MachineFits packs tasks session) (mem : c ∈ packs) (apart : KeysApart packs tasks)
    (one : ∀ task ∈ tasks, task.trackId = task.id)
    (active : ∀ task ∈ session.active, task ∈ tasks) :
    MachineFits packs tasks (session.runCartridge e c) := by
  intro pack machine task known
  rw [Session.runCartridge]
  dsimp only
  by_cases here : c.name = pack ∧ ∃ current ∈ session.active, current.id = task.id
  · obtain ⟨rfl, current, present, same⟩ := here
    have key : session.fsmKey c.name = fsmStateKey c.name (some task.id) := by
      rw [Session.fsmKey, readActiveTaskId, Option.mem_def.mp present, Option.map_some,
        one current (active current present), same]
    rw [key, Function.update_self, state_runCartridge, fits c.name machine task known, ← same,
      record_self present]
  · have key : fsmStateKey pack (some task.id) ≠ session.fsmKey c.name := by
      intro same
      rw [Session.fsmKey, readActiveTaskId] at same
      by_cases name : c.name = pack
      · subst name
        rcases Option.eq_none_or_eq_some session.active with absent | ⟨current, present⟩
        · rw [absent] at same
          exact fsmStateKey_none_ne same.symm
        · rw [present, Option.map_some, one current (active current present)] at same
          exact here ⟨rfl, current, present, fsmStateKey_some_injective same.symm⟩
      · obtain ⟨free, others⟩ := apart pack machine c mem name task known
        rcases Option.eq_none_or_eq_some session.active with absent | ⟨current, present⟩
        · rw [absent] at same
          exact free same.symm
        · rw [present, Option.map_some] at same
          exact others current (active current present) same.symm
    rw [Function.update_of_ne key, fits pack machine task known, record_of_ne]
    intro current present same
    obtain ⟨name, id⟩ := Prod.mk.inj same
    exact here ⟨name.symm, current, present, id.symm⟩

theorem MachineFits.runV2Cartridges {session : Session} {e : HookEvent}
    (fits : MachineFits packs tasks session) (apart : KeysApart packs tasks)
    (one : ∀ task ∈ tasks, task.trackId = task.id)
    (active : ∀ task ∈ session.active, task ∈ tasks) :
    MachineFits packs tasks (Loop.runV2Cartridges packs e session) := by
  -- the machines are those of all the packs, the loop is over the ones that are left
  have loop : ∀ rest ⊆ packs, ∀ session : Session, MachineFits packs tasks session →
      (∀ task ∈ session.active, task ∈ tasks) →
      MachineFits packs tasks (rest.foldl (Session.runCartridge e) session) := by
    intro rest
    induction rest with
    | nil => exact fun _ _ fits _ => fits
    | cons c rest ih =>
        intro within session fits active
        obtain ⟨mem, rest⟩ := List.cons_subset.mp within
        exact ih rest _ (fits.runCartridge mem apart one active) active
  exact loop packs (List.Subset.refl _) session fits active

/-! ## Agreement -/

/-- What holds in every session over tasks of one identity. -/
structure Inv (packs : List Cartridge) (tasks : Set ActiveTask) (s : Log) : Prop where
  active : ∀ task ∈ s.session.active, task ∈ tasks
  machine : MachineFits packs tasks s.session

theorem Inv.step (apart : KeysApart packs tasks) (one : ∀ task ∈ tasks, task.trackId = task.id)
    {e : Event} (inv : Inv packs tasks s) (within : Within tasks s e)
    (fire : step packs s e = some t) : Inv packs tasks t := by
  cases e with
  | activate task =>
      cases fire
      refine ⟨fun current here => ?_, inv.machine⟩
      cases here
      exact within
  | logPhase phase =>
      cases fire
      rcases logPhase_cases phase with same | ⟨task, -, -, logged⟩
      · rw [same]
        exact inv
      · rw [logged]
        exact ⟨inv.active, inv.machine⟩
  | hook e =>
      cases fire
      refine ⟨fun task here => ?_, inv.machine.runV2Cartridges apart one inv.active⟩
      rw [ledger_runV2Cartridges.2] at here
      exact inv.active task here

theorem inv_of_run (apart : KeysApart packs tasks) (one : ∀ task ∈ tasks, task.trackId = task.id)
    (run : Steps (step packs) (Within tasks) {} s) : Inv packs tasks s :=
  run.invariant ⟨(fun _ here => by cases here), fun _ _ _ _ => rfl⟩ fun _ _ _ inv within fire =>
    inv.step apart one within fire

theorem rejects_iff {task : ActiveTask} (active : s.session.active = some task) {phase : Phase} :
    (∃ message, handleLogPhase packs s.session phase = .error message) ↔
      (preCodeStage packs s.session task).isSome := by
  rw [handleLogPhase, active]
  dsimp only
  cases preCodeStage packs s.session task with
  | none => exact iff_of_false (fun ⟨_, other⟩ => by cases other) Bool.false_ne_true
  | some stage => exact iff_of_true ⟨_, rfl⟩ rfl

theorem isSome_preCodeStage {task : ActiveTask} (fits : MachineFits packs tasks s.session)
    (known : task ∈ tasks) : (preCodeStage packs s.session task).isSome ↔
      ∃ pack ∈ machinePack packs, ∃ stage ∈ s.session.stored (pack, task.id),
        stage ∈ PRE_CODE_STAGES := by
  rw [preCodeStage]
  cases machine : machinePack packs with
  | none => simp
  | some pack =>
      rw [Option.bind_some, fits pack machine task known]
      cases stored : s.session.stored (pack, task.id) with
      | none => simp [stored]
      | some stage => simp [stored, Option.filter_some]

theorem Inv.agrees {task : ActiveTask} (inv : Inv packs tasks s) (fits : LedgerFits s)
    (one : ∀ task ∈ tasks, task.trackId = task.id) (active : s.session.active = some task) :
    Agrees packs s task := by
  have known := inv.active task active
  have key : readActiveTaskId s.session = some task.id := by
    rw [readActiveTaskId, active, Option.map_some, one task known]
  refine ⟨fun deps => ?_, fun readiness cwd here unrecorded => ?_, fun phase => ?_⟩
  · rw [codeEvidenceForSession, key]
    exact complete_iff fits
  · rw [readinessStep, key, ← complete_iff fits, Option.filter_some]
    have open' : (!((readiness task.id).ran && (readiness task.id).deprecatedClean)) = true := by
      rcases unrecorded task.id with fresh | dirty
      · rw [fresh]
        rfl
      · rw [dirty, Bool.and_false]
        rfl
    have there : (some cwd).any (· ≠ "") = true := decide_eq_true here
    rw [open', there, Bool.true_and, Bool.true_and]
    cases isComplete s.session.ledger task.id <;> simp
  · rw [rejects_iff active, isSome_preCodeStage inv.machine known]

/-! ## Tasks of two identities -/

/-- A session in which all the phases are logged for one task. -/
theorem exists_logged {task : ActiveTask} (known : task ∈ tasks) : ∃ s : Log,
    Steps (step packs) (Within tasks) {} s ∧ s.session.active = some task ∧
      s.calls = REQUIRED_PHASES.reverse.map fun p => (task, p) := by
  have more : ∀ phases : List Phase, ∃ s : Log, Steps (step packs) (Within tasks) {} s ∧
      s.session.active = some task ∧ s.session.files = (fun _ => .absent) ∧
      s.calls = phases.map fun p => (task, p) := by
    intro phases
    induction phases with
    | nil => exact ⟨_, .tail .refl (e := .activate (some task)) known rfl, rfl, rfl, rfl⟩
    | cons phase phases ih =>
        obtain ⟨s, run, active, files, calls⟩ := ih
        have late : preCodeStage packs s.session task = none := by
          rw [preCodeStage, files]
          cases machinePack packs <;> rfl
        have next : step packs s (.logPhase phase) = some
            ⟨{ s.session with ledger := some (appendPhase s.session.ledger task.id phase) },
              (task, phase) :: s.calls⟩ := by
          rw [step, Log.logPhase, handleLogPhase, active]
          dsimp only
          rw [late]
        exact ⟨_, .tail (e := .logPhase phase) run trivial next, active, files, by rw [calls, List.map_cons]⟩
  obtain ⟨s, run, active, -, calls⟩ := more REQUIRED_PHASES.reverse
  exact ⟨s, run, active, calls⟩

theorem loggedSince_of_map {task : ActiveTask} {phases : List Phase} :
    loggedSince (phases.map fun p => (task, p)) task.id = phases := by
  induction phases with
  | nil => rfl
  | cons phase phases ih => rw [List.map_cons, loggedSince_cons_self, ih]

/-- The evidence does not see the phases of a task with another track id. -/
theorem not_agrees {task : ActiveTask} (fits : LedgerFits s) (active : s.session.active = some task)
    (calls : s.calls = REQUIRED_PHASES.reverse.map fun p => (task, p))
    (two : task.trackId ≠ task.id) : ¬ Agrees packs s task := by
  intro agrees
  have deps : CodeEvidenceDeps := ⟨fun _ => ⟨false, false⟩, fun _ => none, false, fun _ => none⟩
  have seen := (agrees.evidence deps).mpr fun p required => by
    rw [calls, loggedSince_of_map]
    exact List.mem_reverse.mpr required
  rw [codeEvidenceForSession, readActiveTaskId, active] at seen
  have logged := (complete_iff fits).mp seen .code (by decide)
  have none' : loggedSince s.calls task.trackId = [] := by
    rw [calls]
    exact loggedSince_cons_of_ne two.symm
  rw [none'] at logged
  cases logged

/-- Over a set of tasks, the readers always agree with the calls exactly when every task has
its id for its track id. -/
theorem agrees_iff {packs : List Cartridge} {tasks : Set ActiveTask} (apart : KeysApart packs tasks) :
    (∀ s, Steps (step packs) (Within tasks) {} s → ∀ task ∈ s.session.active, Agrees packs s task) ↔
      ∀ task ∈ tasks, task.trackId = task.id := by
  constructor
  · intro all task known
    by_contra two
    obtain ⟨s, run, active, calls⟩ := @exists_logged packs tasks task known
    exact not_agrees (ledger_of_run run) active calls two (all s run task active)
  · intro one s run task active
    exact (inv_of_run apart one run).agrees (ledger_of_run run) one active

/-! ## A track id -/

def onePack : List Cartridge := [⟨"fullstack-flow", some ⟨⟨"scope", ["scope"], []⟩, fun _ => none⟩⟩]

/-- A single pack has its keys for itself. -/
theorem keysApart_onePack (tasks : Set ActiveTask) : KeysApart onePack tasks := by
  intro pack machine c mem other
  rw [List.mem_singleton.mp mem] at other
  cases machine
  exact absurd rfl other

theorem agrees_iff_plainId : ∃ s : Log, s.calls.length = 7 ∧ Agrees onePack s ⟨"15", none⟩ := by
  obtain ⟨s, run, active, calls⟩ := @exists_logged onePack {⟨"15", none⟩} _ rfl
  refine ⟨s, by rw [calls]; rfl, (agrees_iff (keysApart_onePack _)).mpr ?_ s run _ active⟩
  rintro task rfl
  rfl

/-- All phases are logged for the task with the track id, and the gate does not see them. -/
theorem track_id_not_seen : ∃ s : Log, Steps (step onePack) AnyStep {} s ∧
    s.session.active = some ⟨"15", some "AP.1"⟩ ∧ ¬ Agrees onePack s ⟨"15", some "AP.1"⟩ := by
  obtain ⟨s, run, active, calls⟩ := @exists_logged onePack Set.univ ⟨"15", some "AP.1"⟩ trivial
  exact ⟨s, run.any, active, not_agrees (ledger_of_run run) active calls (by decide)⟩

end Opensquid.Mcp
