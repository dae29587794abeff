import Opensquid.Guard.DesignGate
import Opensquid.Guard.SafetyFloor
import Opensquid.Hooks.ApplyPatch
import Opensquid.Hooks.Dispatch
import Opensquid.Lib.Fallible
import Opensquid.Loop.WriteLane

/-!
# The gates in front of a tool call

Before a tool runs, its call goes through the gates of one function. A patch writes files under
another name than `Write`. For two of the gates, the lane of an engaged scope and the rules of the
packs, its files are made into calls of `Write`. The safety floor, the coordinator's guard and the
gate on design documents see it as it is, and the skills and lanes of the cartridges not at all.

So a file that its lane stops also stops the patch, but one that only the other gates stop does not.
`patch_stops_iff` says when a patch is stopped whenever the `Write` of one of its files is.
-/

namespace Opensquid.Hooks

open Opensquid.Lib Fallible Opensquid.Guard
open Opensquid.Loop (ScopeEngagement EngagedWriteDecision Minimatch decideFullstackScopeWrite)

/-! ## Calls and what the gates read -/

structure ToolCallEvent where
  tool : String
  args : Args
  cwd : Option String := none

inductive LifecycleRole
  | interactive
  | stageProcess
  | reviewer
  deriving DecidableEq, Repr

structure LifecycleContext where
  cwd : String
  actor : GuardActor
  role : LifecycleRole

structure ToolCallInput where
  event : ToolCallEvent
  transcriptPath : Option String := none

structure PreToolDecision where
  block : Bool
  reason : Option String := none
  contextInjections : List String := []
  diagnostics : List String := []

structure V2SkillHostResult where
  exitCode : Nat
  stderr : String
  contextInjections : List String

structure V2Decision where
  exitCode : Nat
  messages : List String

/-- A step on the state of the session. -/
abbrev Hook (σ : Type) := Fallible σ String

/-- The functions that the hook is given, for one session and moment. What is read to decide is not
changed by the call itself; `π` is what the packs are loaded as, `κ` a cartridge. -/
structure PreToolCallHandlerDeps (σ π κ : Type) where
  appendTool : String → Option String → Hook σ Unit
  recordSessionCwd : String → Hook σ Unit
  mirrorActiveTask : String → Args → Option String → Hook σ Unit
  runHarnessGraphSync : String → Args → Option String → Hook σ (Option String)
  loadSafetyPolicy : Except String SafetyPolicy
  isYoloMode : String → Except String Bool
  appendProjectDriftEvent : String → SafetyResult → Hook σ Unit
  projectDeclaresCoordinatorDocsOnly : String → Except String Bool
  /-- Are code writes allowed in the settings beside this scope root? -/
  allowCodeWrite : String → Except String Bool
  /-- Is there a file `allow-code-write` in this scope root? -/
  legacyFlag : String → Bool
  resolveProjectScopeRoot : String → Except String (Option String)
  readScopeAuditVerdict : String → Except String (Option String)
  resolveFullstackScopeEngagement : String → Except String ScopeEngagement
  minimatch : Minimatch
  loadDispatch : Except String π
  dispatchEvent : ToolCallEvent → π → Hook σ DispatchResult
  loadActiveV2Cartridges : Except String (List κ)
  audits : κ → List AuditBinding
  runV2SkillHost : List κ → ToolCallEvent → π → Hook σ V2SkillHostResult
  runV2Cartridges : ToolCallEvent → Hook σ V2Decision
  isAutomation : Bool

/-- `event.cwd ?? ctx.cwd`. -/
def cwdOf (ctx : LifecycleContext) (event : ToolCallEvent) : String := event.cwd.getD ctx.cwd

/-- The files of a patch; nothing where the call is none. -/
def ToolCallEvent.parsedPatch (event : ToolCallEvent) : Option (List PatchedFile) :=
  if event.tool = "apply_patch" then (event.args.text "command").map parseApplyPatch else none

def PatchedFile.args (file : PatchedFile) : Args :=
  [("file_path", .str file.path), ("content", .str file.content)]

/-- The call that writes a file of the patch. -/
def ToolCallEvent.writeOf (event : ToolCallEvent) (file : PatchedFile) : ToolCallEvent where
  tool := "Write"
  args := file.args
  cwd := event.cwd

section

variable {σ π κ : Type} (deps : PreToolCallHandlerDeps σ π κ)

/-! ## The function -/

/-- A step whose failure is only noted. -/
def noted {α : Type} (label : String) (fallback : α) (step : Hook σ α) : Hook σ (α × List String) :=
  tryCatch (do return (← step, [])) fun error => return (fallback, [label ++ error])

def noteCwd (cwd : Option String) : Hook σ (Unit × List String) :=
  match cwd.filter (· ≠ "") with
  | some cwd => noted "opensquid: session-cwd record failed — " () (deps.recordSessionCwd cwd)
  | none => pure ((), [])

/-- What is written down about a call before it is judged. -/
def bookkeeping (input : ToolCallInput) : Hook σ (Option String × List String) := do
  let event := input.event
  let ledger ← noted "opensquid: tool-ledger append failed — " ()
    (deps.appendTool event.tool (event.args.text "command"))
  let cwd ← noteCwd deps event.cwd
  let mirror ← noted "opensquid: active-task mirror failed — " ()
    (deps.mirrorActiveTask event.tool event.args input.transcriptPath)
  let sync ← noted "opensquid: harness→work-graph sync failed — " none
    (deps.runHarnessGraphSync event.tool event.args input.transcriptPath)
  return (sync.1, ledger.2 ++ cwd.2 ++ mirror.2 ++ sync.2)

/-- Where the policy cannot be read the floor passes. -/
def safetyVerdict (event : ToolCallEvent) (cwd : String) : SafetyResult :=
  match deps.loadSafetyPolicy, deps.isYoloMode cwd with
  | .ok policy, .ok yolo => checkSafety event.tool (.obj event.args) policy yolo
  | _, _ => { action := .pass }

def safetyStop (verdict : SafetyResult) : Option String :=
  if verdict.action = .block ∨ verdict.action = .halt then
    some ("🦑 [safety floor] " ++ verdict.message.getD "forbidden action")
  else none

def safetyWarning (verdict : SafetyResult) : List String :=
  if verdict.action = .warn then
    ["🦑 [safety floor · YOLO] " ++ verdict.message.getD "dangerous action" ++
      " — allowed (block→warn). hardline rules (rm -rf, substrate delete, .env) still enforced."]
  else []

/-- The warning is kept if it can be. -/
def noteWarning (verdict : SafetyResult) (cwd : String) : Hook σ Unit :=
  if verdict.action = .warn then
    tryCatch (deps.appendProjectDriftEvent cwd verdict) fun _ => return ()
  else return ()

def engagement (cwd : String) : ScopeEngagement :=
  match deps.resolveFullstackScopeEngagement cwd with
  | .ok engagement => engagement
  | .error error => .indeterminate none error

def denial : EngagedWriteDecision → Option String
  | .deny message => some message
  | _ => none

/-- The calls that the lane of the scope is asked about. -/
def normalizedWrites (event : ToolCallEvent) : List (String × Args) :=
  match event.parsedPatch with
  | none => [(event.tool, event.args)]
  | some files => files.map fun file => ("Write", file.args)

def laneStop (engagement : ScopeEngagement) (calls : List (String × Args)) : Option String :=
  calls.findSome? fun call =>
    denial (decideFullstackScopeWrite deps.minimatch engagement call.1 call.2)

def scopeStop (event : ToolCallEvent) (actor : GuardActor) (cwd : String) : Option String :=
  if engagement deps cwd = .unengaged then none
  else if event.tool = "apply_patch" ∧ event.parsedPatch.getD [] = [] then
    some "scope engagement cannot verify an apply_patch with no extractable target"
  else
    (laneStop deps (engagement deps cwd) (normalizedWrites event)).orElse fun _ =>
      checkOrchestratorGuard event.tool event.args actor false

/-- A standing grant. -/
def codeWritePermitted (cwd : String) : Except String Bool := do
  match ← deps.resolveProjectScopeRoot cwd with
  | none => return false
  | some scopeRoot => return (← deps.allowCodeWrite scopeRoot) || deps.legacyFlag scopeRoot

/-- The verdict on the file under the only binding of an approved artifact. -/
def readScopeVerdict (args : Args) : Except String (Option String) := do
  let cartridges ← deps.loadActiveV2Cartridges
  match (cartridges.flatMap deps.audits).filter (·.subject = .approvedArtifact) with
  | [binding] =>
      deps.readScopeAuditVerdict
        (scopeAuditCacheKey ((args.text "file_path").getD "") binding.cacheKey)
  | _ => return none

def docsOnlyStop (event : ToolCallEvent) (actor : GuardActor) (cwd : String) :
    Except String (Option String) := do
  if ← deps.projectDeclaresCoordinatorDocsOnly cwd then
    let permitted ← codeWritePermitted deps cwd
    return (checkOrchestratorGuard event.tool event.args actor permitted).orElse fun _ =>
      checkDesignDocRewrite event.tool event.args actor (readScopeVerdict deps event.args)
  else return none

/-- Where something cannot be read the guard passes. -/
def coordinatorStop (event : ToolCallEvent) (actor : GuardActor) (cwd : String) : Option String :=
  (docsOnlyStop deps event actor cwd).toOption.join

/-- A file of a patch as the rules of the packs see it. -/
def ToolCallEvent.synth (event : ToolCallEvent) (file : PatchedFile) : ToolCallEvent where
  tool := "Write"
  args := file.args ++ [("apply_patch_command", .str ((event.args.text "command").getD ""))]
  cwd := event.cwd

def dispatchFiles (event : ToolCallEvent) (packs : π) :
    List PatchedFile → List String → Hook σ PreToolDecision
  | [], diagnostics => return { block := false, diagnostics }
  | file :: files, diagnostics => do
      let result ← deps.dispatchEvent (event.synth file) packs
      if result.exitCode = 2 then
        return { block := true, reason := some result.stderr, diagnostics }
      else
        dispatchFiles event packs files
          (diagnostics ++ if result.stderr = "" then [] else [result.stderr])

/-- The lanes of the cartridges are enforced in automation only. -/
def enforceLanes (event : ToolCallEvent) : Hook σ V2Decision :=
  if deps.isAutomation then deps.runV2Cartridges event else pure ⟨0, []⟩

def dispatchCall (event : ToolCallEvent) (packs : π) (sync : Option String)
    (diagnostics : List String) : Hook σ PreToolDecision := do
  let v1 ← deps.dispatchEvent event packs
  let cartridges ← ExceptT.mk (return deps.loadActiveV2Cartridges)
  let skillHost ← deps.runV2SkillHost cartridges event packs
  let v2Gate ← enforceLanes deps event
  let blocked := v1.exitCode = 2 ∨ skillHost.exitCode = 2 ∨ v2Gate.exitCode = 2
  let stderr := "\n".intercalate (([v1.stderr, skillHost.stderr] ++
    if v2Gate.exitCode = 2 then v2Gate.messages else []).filter (· ≠ ""))
  return {
    block := decide blocked
    reason := if blocked then some stderr else none
    contextInjections := v1.contextInjections ++ skillHost.contextInjections ++ sync.toList
    diagnostics := diagnostics ++ if blocked ∨ stderr = "" then [] else [stderr] }

/-- The rules of the packs, and for other calls than patches the cartridges. -/
def dispatchLast (event : ToolCallEvent) (sync : Option String) (diagnostics : List String) :
    Hook σ PreToolDecision := do
  let packs ← ExceptT.mk (return deps.loadDispatch)
  match event.parsedPatch with
  | some (file :: files) => dispatchFiles deps event packs (file :: files) diagnostics
  | _ => dispatchCall deps event packs sync diagnostics

def runPreToolCall (ctx : LifecycleContext) (input : ToolCallInput) : Hook σ PreToolDecision :=
  let event := input.event
  if ctx.role = .reviewer then
    let message := checkReviewerReadOnly event.tool event.args
    return { block := message.isSome, reason := message }
  else do
    let (sync, diagnostics) ← bookkeeping deps input
    let cwd := cwdOf ctx event
    let verdict := safetyVerdict deps event cwd
    match safetyStop verdict with
    | some reason => return { block := true, reason := some reason, diagnostics }
    | none =>
        noteWarning deps verdict cwd
        let diagnostics := diagnostics ++ safetyWarning verdict
        match (scopeStop deps event ctx.actor cwd).orElse
          fun _ => coordinatorStop deps event ctx.actor cwd with
        | some reason => return { block := true, reason := some reason, diagnostics }
        | none => dispatchLast deps event sync diagnostics

end

/-! ## What stops a call -/

section

variable {σ π κ : Type} (deps : PreToolCallHandlerDeps σ π κ) (ctx : LifecycleContext)

/-- The hook blocks the call. -/
def Stops (input : ToolCallInput) (s : σ) : Prop :=
  ∃ decision s', Ends (runPreToolCall deps ctx input) s decision s' ∧ decision.block = true

/-- The state in which the rules of the packs are asked. -/
def ready (input : ToolCallInput) (s : σ) : σ :=
  let kept : Hook σ Unit := do
    let _ ← bookkeeping deps input
    let cwd := cwdOf ctx input.event
    noteWarning deps (safetyVerdict deps input.event cwd) cwd
  (kept.run.run s).2

def SafetyStops (event : ToolCallEvent) : Prop :=
  (safetyStop (safetyVerdict deps event (cwdOf ctx event))).isSome = true

/-- The coordinator's guard or the gate on design documents. -/
def GuardStops (event : ToolCallEvent) : Prop :=
  (engagement deps (cwdOf ctx event) ≠ .unengaged ∧
    (checkOrchestratorGuard event.tool event.args ctx.actor false).isSome = true) ∨
  (coordinatorStop deps event ctx.actor (cwdOf ctx event)).isSome = true

/-- The lane of the engaged scope stops a `Write` of the file. -/
def OutOfLane (event : ToolCallEvent) (file : PatchedFile) : Prop :=
  (denial (decideFullstackScopeWrite deps.minimatch (engagement deps (cwdOf ctx event)) "Write"
    file.args)).isSome = true

/-- A rule of the packs stops one of the files, which are asked about one after the other. -/
def RulesStop (event : ToolCallEvent) (packs : π) : List PatchedFile → σ → Prop
  | [], _ => False
  | file :: files, s =>
      ∃ result s', Ends (deps.dispatchEvent (event.synth file) packs) s result s' ∧
        (result.exitCode = 2 ∨ RulesStop event packs files s')

/-- A rule of the packs, a skill of the cartridges or, in automation, one of their lanes stops the
call. -/
def CallStops (event : ToolCallEvent) (packs : π) (s : σ) : Prop :=
  ∃ v1 s₁ cartridges skillHost s₂ v2Gate s₃, Ends (deps.dispatchEvent event packs) s v1 s₁ ∧
    deps.loadActiveV2Cartridges = .ok cartridges ∧
    Ends (deps.runV2SkillHost cartridges event packs) s₁ skillHost s₂ ∧
    Ends (enforceLanes deps event) s₂ v2Gate s₃ ∧
    (v1.exitCode = 2 ∨ skillHost.exitCode = 2 ∨ v2Gate.exitCode = 2)

/-- One of the gates that a patch comes to stops it. -/
def PatchStops (input : ToolCallInput) (files : List PatchedFile) (s : σ) : Prop :=
  SafetyStops deps ctx input.event ∨ (∃ file ∈ files, OutOfLane deps ctx input.event file) ∨
    GuardStops deps ctx input.event ∨ ∃ packs, deps.loadDispatch = .ok packs ∧
      RulesStop deps input.event packs files (ready deps ctx input s)

/-- One of the other gates stops a call. -/
def WriteStops (input : ToolCallInput) (s : σ) : Prop :=
  SafetyStops deps ctx input.event ∨ GuardStops deps ctx input.event ∨
    ∃ packs, deps.loadDispatch = .ok packs ∧
      CallStops deps input.event packs (ready deps ctx input s)

/-- The call that writes a file of the patch. -/
def ToolCallInput.writeOf (input : ToolCallInput) (file : PatchedFile) : ToolCallInput where
  event := input.event.writeOf file
  transcriptPath := input.transcriptPath

end

section

variable {σ π κ α : Type} {deps : PreToolCallHandlerDeps σ π κ} {ctx : LifecycleContext}
  {input : ToolCallInput} {event : ToolCallEvent} {packs : π} {s : σ}

/-! ### Before the gates -/

theorem settles_noted (label : String) (fallback : α) (step : Hook σ α) :
    Settles (noted label fallback step) :=
  settles_tryCatch fun error => settles_pure (fallback, [label ++ error])

theorem settles_noteCwd (cwd : Option String) : Settles (noteCwd deps cwd) := by
  unfold noteCwd
  split
  · exact settles_noted _ _ _
  · exact settles_pure _

theorem settles_bookkeeping (input : ToolCallInput) : Settles (bookkeeping deps input) :=
  (settles_noted _ _ _).bind fun _ => (settles_noteCwd _).bind fun _ =>
    (settles_noted _ _ _).bind fun _ => (settles_noted _ _ _).bind fun _ => settles_pure _

theorem settles_noteWarning (verdict : SafetyResult) (cwd : String) :
    Settles (noteWarning deps verdict cwd) := by
  unfold noteWarning
  split
  · exact settles_tryCatch fun _ => settles_pure ()
  · exact settles_pure ()

theorem ready_spec (input : ToolCallInput) (s : σ) : ∃ out t,
    Ends (bookkeeping deps input) s out t ∧
      Ends (noteWarning deps (safetyVerdict deps input.event (cwdOf ctx input.event))
        (cwdOf ctx input.event)) t () (ready deps ctx input s) := by
  obtain ⟨out, t, booked⟩ := @settles_bookkeeping _ _ _ deps input s
  obtain ⟨⟨⟩, t', warned⟩ := @settles_noteWarning _ _ _ deps
    (safetyVerdict deps input.event (cwdOf ctx input.event)) (cwdOf ctx input.event) t
  have kept := (@ends_bind_of_ends _ _ _ _ _ _ _ _ (fun _ => noteWarning deps
    (safetyVerdict deps input.event (cwdOf ctx input.event)) (cwdOf ctx input.event)) _ _
    booked).mpr warned
  have same : ready deps ctx input s = t' := congrArg Prod.snd kept
  exact ⟨out, t, booked, same ▸ warned⟩

/-! ### The rules -/

theorem dispatchFiles_blocks {files : List PatchedFile} {diagnostics : List String} :
    (∃ decision s', Ends (dispatchFiles deps event packs files diagnostics) s decision s' ∧
      decision.block = true) ↔ RulesStop deps event packs files s := by
  induction files generalizing s diagnostics with
  | nil =>
      rw [RulesStop, iff_false]
      intro ended
      rcases ended with ⟨decision, s', done, block⟩
      obtain ⟨rfl, -⟩ := ends_pure.mp done
      cases block
  | cons file files ih =>
      rw [RulesStop]
      constructor
      · intro ended
        rcases ended with ⟨decision, s', done, block⟩
        obtain ⟨result, t, asked, rest⟩ := ends_bind.mp done
        refine ⟨result, t, asked, ?_⟩
        split at rest
        · exact .inl ‹_›
        · exact .inr (ih.mp ⟨decision, s', rest, block⟩)
      · intro stops
        rcases stops with ⟨result, t, asked, stopped⟩
        by_cases two : result.exitCode = 2
        · exact ⟨_, t, ends_bind.mpr ⟨result, t, asked, by rw [if_pos two]; exact rfl⟩, rfl⟩
        · obtain ⟨decision, s', rest, block⟩ := ih.mpr (stopped.resolve_left two)
          exact ⟨decision, s', ends_bind.mpr ⟨result, t, asked, by rw [if_neg two]; exact rest⟩,
            block⟩

theorem dispatchCall_blocks {sync : Option String} {diagnostics : List String} :
    (∃ decision s', Ends (dispatchCall deps event packs sync diagnostics) s decision s' ∧
      decision.block = true) ↔ CallStops deps event packs s := by
  constructor
  · intro ended
    rcases ended with ⟨decision, s', done, block⟩
    obtain ⟨v1, s₁, asked, done⟩ := ends_bind.mp done
    obtain ⟨cartridges, s₁', read, done⟩ := ends_bind.mp done
    obtain ⟨loaded, rfl⟩ := ends_mk.mp read
    obtain ⟨skillHost, s₂, hosted, done⟩ := ends_bind.mp done
    obtain ⟨v2Gate, s₃, gated, done⟩ := ends_bind.mp done
    obtain ⟨rfl, -⟩ := ends_pure.mp done
    exact ⟨v1, s₁, cartridges, skillHost, s₂, v2Gate, s₃, asked, loaded, hosted, gated,
      of_decide_eq_true block⟩
  · intro stops
    rcases stops with
      ⟨v1, s₁, cartridges, skillHost, s₂, v2Gate, s₃, asked, loaded, hosted, gated, blocked⟩
    unfold dispatchCall
    refine ⟨_, s₃, (ends_bind_of_ends asked).mpr ((ends_bind_of_ends
      (ends_mk.mpr ⟨loaded, rfl⟩)).mpr ((ends_bind_of_ends hosted).mpr
        ((ends_bind_of_ends gated).mpr (ends_pure.mpr ⟨rfl, rfl⟩)))), ?_⟩
    exact decide_eq_true blocked

/-- What the packs and the cartridges decide. -/
def LastStops (deps : PreToolCallHandlerDeps σ π κ) (event : ToolCallEvent) (s : σ) : Prop :=
  ∃ packs, deps.loadDispatch = .ok packs ∧
    match event.parsedPatch with
    | some (file :: files) => RulesStop deps event packs (file :: files) s
    | _ => CallStops deps event packs s

theorem dispatchLast_blocks {sync : Option String} {diagnostics : List String} :
    (∃ decision s', Ends (dispatchLast deps event sync diagnostics) s decision s' ∧
      decision.block = true) ↔ LastStops deps event s := by
  have read : ∀ {packs} {next : π → Hook σ PreToolDecision} {decision s'},
      deps.loadDispatch = .ok packs →
        (Ends (ExceptT.mk (return deps.loadDispatch) >>= next) s decision s' ↔
          Ends (next packs) s decision s') :=
    fun loaded => ends_bind_of_ends (ends_mk.mpr ⟨loaded, rfl⟩)
  unfold dispatchLast LastStops
  constructor
  · intro ended
    rcases ended with ⟨decision, s', done, block⟩
    obtain ⟨packs, t, loads, rest⟩ := ends_bind.mp done
    obtain ⟨loaded, rfl⟩ := ends_mk.mp loads
    refine ⟨packs, loaded, ?_⟩
    split at rest
    · exact dispatchFiles_blocks.mp ⟨decision, s', rest, block⟩
    · exact dispatchCall_blocks.mp ⟨decision, s', rest, block⟩
  · intro stops
    rcases stops with ⟨packs, loaded, stopped⟩
    split at stopped
    · obtain ⟨decision, s', rest, block⟩ := dispatchFiles_blocks.mpr stopped
      exact ⟨decision, s', (read loaded).mpr rest, block⟩
    · obtain ⟨decision, s', rest, block⟩ := dispatchCall_blocks.mpr stopped
      exact ⟨decision, s', (read loaded).mpr rest, block⟩

/-! ### All gates -/

theorem blocked_iff {b : Bool} {reason : Option String} {diagnostics : List String} :
    (∃ decision s', Ends (return { block := b, reason, diagnostics } : Hook σ PreToolDecision)
      s decision s' ∧ decision.block = true) ↔ b = true := by
  constructor
  · intro ended
    rcases ended with ⟨decision, s', done, block⟩
    obtain ⟨rfl, -⟩ := ends_pure.mp done
    exact block
  · exact fun block => ⟨_, s, ends_pure.mpr ⟨rfl, rfl⟩, block⟩

/-- Whether a call is stopped can be run. -/
theorem stops_iff_any : Stops deps ctx input s ↔
    ((runPreToolCall deps ctx input).run.run s).1.toOption.any PreToolDecision.block = true := by
  unfold Stops Ends
  cases (runPreToolCall deps ctx input).run.run s with
  | mk out t =>
      cases out with
      | error error =>
          refine iff_of_false ?_ Bool.false_ne_true
          intro ended
          rcases ended with ⟨decision, s', done, -⟩
          cases done
      | ok decision =>
          constructor
          · intro ended
            rcases ended with ⟨decision', s', done, block⟩
            cases done
            exact block
          · exact fun block => ⟨decision, t, rfl, block⟩

theorem stops_reviewer (reviewer : ctx.role = .reviewer) :
    Stops deps ctx input s ↔
      (checkReviewerReadOnly input.event.tool input.event.args).isSome = true := by
  rw [Stops, runPreToolCall]
  dsimp only
  rw [if_pos reviewer]
  exact blocked_iff

theorem stops_iff (other : ctx.role ≠ .reviewer) :
    Stops deps ctx input s ↔ SafetyStops deps ctx input.event ∨
      (scopeStop deps input.event ctx.actor (cwdOf ctx input.event)).isSome = true ∨
      (coordinatorStop deps input.event ctx.actor (cwdOf ctx input.event)).isSome = true ∨
      LastStops deps input.event (ready deps ctx input s) := by
  obtain ⟨⟨sync, diagnostics⟩, t, booked, warned⟩ := @ready_spec _ _ _ deps ctx input s
  rw [Stops, runPreToolCall]
  dsimp only
  rw [if_neg other, SafetyStops]
  simp only [ends_bind_of_ends booked]
  cases safety : safetyStop (safetyVerdict deps input.event (cwdOf ctx input.event)) with
  | some reason => exact iff_of_true (blocked_iff.mpr rfl) (.inl rfl)
  | none =>
      simp only [ends_bind_of_ends warned]
      cases scope : scopeStop deps input.event ctx.actor (cwdOf ctx input.event) with
      | some reason => exact iff_of_true (blocked_iff.mpr rfl) (.inr (.inl rfl))
      | none =>
          rw [Option.orElse_none]
          cases guard : coordinatorStop deps input.event ctx.actor (cwdOf ctx input.event) with
          | some reason => exact iff_of_true (blocked_iff.mpr rfl) (.inr (.inr (.inl rfl)))
          | none =>
              refine dispatchLast_blocks.trans ⟨fun last => .inr (.inr (.inr last)), ?_⟩
              intro stops
              rcases stops with stopped | stopped | stopped | last
              · cases stopped
              · cases stopped
              · cases stopped
              · exact last

/-! ### The lane -/

theorem isSome_orElse {first : Option α} {next : Option α} :
    (first.orElse fun _ => next).isSome = true ↔ first.isSome = true ∨ next.isSome = true := by
  cases first with
  | none => exact (or_iff_right Bool.false_ne_true).symm
  | some a => exact iff_of_true rfl (.inl rfl)

theorem scopeStop_isSome
    (target : ¬ (event.tool = "apply_patch" ∧ event.parsedPatch.getD [] = [])) :
    (scopeStop deps event ctx.actor (cwdOf ctx event)).isSome = true ↔
      (∃ call ∈ normalizedWrites event, (denial (decideFullstackScopeWrite deps.minimatch
        (engagement deps (cwdOf ctx event)) call.1 call.2)).isSome = true) ∨
      (engagement deps (cwdOf ctx event) ≠ .unengaged ∧
        (checkOrchestratorGuard event.tool event.args ctx.actor false).isSome = true) := by
  by_cases unengaged : engagement deps (cwdOf ctx event) = .unengaged
  · rw [scopeStop, if_pos unengaged, unengaged]
    refine iff_of_false Bool.false_ne_true ?_
    intro stops
    rcases stops with ⟨call, -, denied⟩ | ⟨engaged, -⟩
    · cases denied
    · exact engaged rfl
  · rw [scopeStop, if_neg unengaged, if_neg target, isSome_orElse, laneStop,
      List.findSome?_isSome_iff]
    exact or_congr_right (and_iff_right unengaged).symm

theorem tool_writeOf (file : PatchedFile) : (event.writeOf file).tool ≠ "apply_patch" :=
  show "Write" ≠ "apply_patch" by decide

theorem parsedPatch_writeOf (file : PatchedFile) : (event.writeOf file).parsedPatch = none :=
  if_neg (tool_writeOf file)

theorem scopeStop_writeOf (file : PatchedFile) :
    (scopeStop deps (event.writeOf file) ctx.actor (cwdOf ctx event)).isSome = true ↔
      OutOfLane deps ctx event file ∨ (engagement deps (cwdOf ctx event) ≠ .unengaged ∧
        (checkOrchestratorGuard "Write" file.args ctx.actor false).isSome = true) := by
  refine (@scopeStop_isSome _ _ _ deps ctx (event.writeOf file)
    fun both => tool_writeOf file both.1).trans (or_congr_left ?_)
  rw [normalizedWrites, parsedPatch_writeOf]
  constructor
  · intro denies
    rcases denies with ⟨call, mem, denied⟩
    cases List.mem_singleton.mp mem
    exact denied
  · exact fun denied => ⟨_, List.mem_singleton_self _, denied⟩

theorem scopeStop_patch {files : List PatchedFile} (parsed : event.parsedPatch = some files)
    (some' : files ≠ []) :
    (scopeStop deps event ctx.actor (cwdOf ctx event)).isSome = true ↔
      (∃ file ∈ files, OutOfLane deps ctx event file) ∨
      (engagement deps (cwdOf ctx event) ≠ .unengaged ∧
        (checkOrchestratorGuard event.tool event.args ctx.actor false).isSome = true) := by
  refine (scopeStop_isSome fun both => ?_).trans (or_congr_left ?_)
  · rw [parsed] at both
    exact some' both.2
  · rw [normalizedWrites, parsed]
    constructor
    · intro denies
      rcases denies with ⟨call, mem, denied⟩
      obtain ⟨file, known, rfl⟩ := List.mem_map.mp mem
      exact ⟨file, known, denied⟩
    · intro denies
      rcases denies with ⟨file, known, denied⟩
      exact ⟨_, List.mem_map_of_mem known, denied⟩

/-! ### Patches -/

theorem stops_patch_iff (other : ctx.role ≠ .reviewer) {files : List PatchedFile}
    (parsed : input.event.parsedPatch = some files) (some' : files ≠ []) :
    Stops deps ctx input s ↔ PatchStops deps ctx input files s := by
  obtain ⟨file, rest, rfl⟩ := List.exists_cons_of_ne_nil some'
  rw [stops_iff other, scopeStop_patch parsed some', PatchStops, GuardStops, LastStops, parsed,
    or_assoc, or_assoc]

theorem stops_writeOf_iff (other : ctx.role ≠ .reviewer) (file : PatchedFile) :
    Stops deps ctx (input.writeOf file) s ↔
      OutOfLane deps ctx input.event file ∨ WriteStops deps ctx (input.writeOf file) s := by
  have lane := @scopeStop_writeOf _ _ _ deps ctx input.event file
  rw [stops_iff other, WriteStops, GuardStops, LastStops]
  change _ ∨ (scopeStop deps (input.event.writeOf file) ctx.actor (cwdOf ctx input.event)).isSome =
    true ∨ _ ↔ _
  rw [lane, or_assoc, or_left_comm, ← or_assoc (b := (coordinatorStop _ _ _ _).isSome = true)]
  rw [show (input.writeOf file).event.parsedPatch = none from parsedPatch_writeOf file]
  exact Iff.rfl

/-- A reviewer cannot call the tool. -/
theorem stops_of_reviewer (patch : input.event.tool = "apply_patch")
    (reviewer : ctx.role = .reviewer) : Stops deps ctx input s := by
  rw [stops_reviewer reviewer, patch, checkReviewerReadOnly]
  rw [if_neg (by decide), if_neg (by decide)]
  rfl

/-- The coordinator's guard and the gate on design documents let every patch pass. -/
theorem not_guardStops_patch (patch : event.tool = "apply_patch") (other : ctx.actor ≠ .reviewer) :
    ¬ GuardStops deps ctx event := by
  have guard : ∀ permitted, checkOrchestratorGuard event.tool event.args ctx.actor permitted =
      none := by
    intro permitted
    cases actor : ctx.actor with
    | coordinator =>
        exact checkOrchestratorGuard_of_other _ _ (by rw [patch]; decide) (by rw [patch]; decide)
    | stageProcess => rfl
    | reviewer => exact absurd actor other
  have design : ∀ verdict, checkDesignDocRewrite event.tool event.args ctx.actor verdict =
      none := by
    intro verdict
    unfold checkDesignDocRewrite
    rw [patch]
    split
    · rfl
    · rfl
  intro stops
  rcases stops with ⟨-, denied⟩ | stopped
  · rw [guard] at denied
    cases denied
  · rw [coordinatorStop, docsOnlyStop] at stopped
    simp only [guard, design, Option.orElse_none] at stopped
    cases declared : deps.projectDeclaresCoordinatorDocsOnly (cwdOf ctx event) with
    | error error =>
        rw [declared] at stopped
        cases stopped
    | ok docsOnly =>
        rw [declared] at stopped
        cases docsOnly with
        | false => cases stopped
        | true =>
            cases permitted : codeWritePermitted deps (cwdOf ctx event) with
            | error error =>
                rw [permitted] at stopped
                cases stopped
            | ok permitted' =>
                rw [permitted] at stopped
                cases stopped

end

/-! ## A patch that slips through -/

/-- A project whose coordinator writes documents only, without packs that have rules. -/
def docsOnlyDeps : PreToolCallHandlerDeps Unit Unit Unit where
  appendTool _ _ := pure ()
  recordSessionCwd _ := pure ()
  mirrorActiveTask _ _ _ := pure ()
  runHarnessGraphSync _ _ _ := pure none
  loadSafetyPolicy := .ok {}
  isYoloMode _ := .ok false
  appendProjectDriftEvent _ _ := pure ()
  projectDeclaresCoordinatorDocsOnly _ := .ok true
  allowCodeWrite _ := .ok false
  legacyFlag _ := false
  resolveProjectScopeRoot _ := .ok (some "/repo/.opensquid")
  readScopeAuditVerdict _ := .ok none
  resolveFullstackScopeEngagement _ := .ok .unengaged
  minimatch path glob := path = glob
  loadDispatch := .ok ()
  dispatchEvent _ _ := pure ⟨0, "", [], []⟩
  loadActiveV2Cartridges := .ok []
  audits _ := []
  runV2SkillHost _ _ _ := pure ⟨0, "", []⟩
  runV2Cartridges _ := pure ⟨0, []⟩
  isAutomation := false

def coordinating : LifecycleContext := ⟨"/repo", .coordinator, .interactive⟩

def addApp : String := "*** Begin Patch\n*** Add File: src/app.ts\n+no\n*** End Patch"

def addAppInput : ToolCallInput where
  event := { tool := "apply_patch", args := [("command", .str addApp)], cwd := some "/repo" }

def appFile : PatchedFile := ⟨"src/app.ts", .add, "no"⟩

theorem parse_addApp : parseApplyPatch addApp = [appFile] := by decide +kernel

end Opensquid.Hooks
