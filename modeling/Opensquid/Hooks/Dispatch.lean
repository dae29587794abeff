import Mathlib.Data.List.Nodup
import Opensquid.Hooks.Skills
import Opensquid.Lib.FilteredWalk
import Opensquid.Lib.Whitespace

/-!
# Dispatching an event

`dispatchEvent` walks the rules of the skills of the packs, in their order, and ends with the first
one whose verdict blocks. A rule is eligible if its pack, its skill and itself pass the filters and
its skill is pinned or has no fired unload condition of its own. The unload gate asks for the name
of a skill alone, so a skill that unloads takes a pinned one of its name along, and a skill whose
load condition matches keeps one of its name loaded. The dispatch follows the eligible rules if and
only if the gate by name is right about every skill that the walk over the eligible rules comes to
(`dispatch_follows_iff`), and it does where no two skills share a name (`follows_of_names_nodup`).

The evaluator is a parameter: what a rule gives after the evaluations before it, none if it throws.
The trace marker and the drift catalog, which the result does not depend on, are left out.
-/

namespace Opensquid.Hooks

open Opensquid.Lib Opensquid.Guard

/-! ## Results of a rule -/

inductive Level
  | pass | block | warn | surface
  deriving DecidableEq, Repr

structure MessageVerdict where
  level : Level
  message : String
  ruleId : Option String
  deriving DecidableEq, Repr

structure NextAction where
  skill : Option String
  tool : Option String
  profession : Option String
  args : Option Args
  rationale : String

structure Directive where
  nextAction : NextAction
  ruleId : Option String

inductive RuleResult
  | verdict (verdict : MessageVerdict)
  | directive (directive : Directive)
  | noVerdict
  | error (error : String) (step : Nat)
  | injectContext (content : String)

/-! ## Drift response -/

inductive Severity
  | critical | error
  deriving DecidableEq, Repr

inductive RuntimeAction
  | blockTool (message : String)
  | warn (message : String)
  | halt (reason : String)
  | notifyPause (reason : String) (severity : Severity)
  | autoCorrect (correctiveSkill : String) (verdict : MessageVerdict)
  | escalate (reroutedSeverity : Severity) (verdict : MessageVerdict)
  deriving DecidableEq, Repr

def defaultPolicyForLevel (level : Level) : DriftPolicy :=
  if level = .block then .blockTool else .warn

def autoCorrect (v : MessageVerdict) (correctiveSkills : Option (String → Option String)) :
    RuntimeAction :=
  match v.ruleId with
  | none =>
      .notifyPause "auto_correct policy requires a verdict with `ruleId`; none provided" .critical
  | some ruleId =>
      match (correctiveSkills.bind (· ruleId)).filter (· ≠ "") with
      | none =>
          .notifyPause (s!"auto_correct policy for rule \"{ruleId}\" missing entry in " ++
            "corrective_skills") .critical
      | some correctiveSkill => .autoCorrect correctiveSkill v

def applyDriftResponse (v : MessageVerdict) (policy : DriftPolicy)
    (correctiveSkills : Option (String → Option String)) : RuntimeAction :=
  match policy with
  | .blockTool => .blockTool v.message
  | .warn => .warn v.message
  | .fullStopAndRedo => .halt v.message
  | .notifyAndPause => .notifyPause v.message .error
  | .autoCorrect => autoCorrect v correctiveSkills
  | .escalate => .escalate .critical v
  | .unknown text => .notifyPause s!"Unknown policy \"{text}\"" .critical

/-! ## Profession directives -/

inductive ProfessionResolutionError
  | unknownPack (packName : String)
  | wrongUsage (packName actualUsage : String)
  | missingTeam (packName : String)
  | noRoles (packName : String)
  | roleNotFound (packName requestedRole : String)
  deriving DecidableEq, Repr

/-- A later pack of the same name wins. -/
def teamsByPack (packs : List Pack) (name : String) : Option (List String) :=
  (packs.reverse.filter (·.name = name)).findSome? (·.team)

/-- The pack, its team and the role. -/
def resolveProfessionDirective (nextAction : NextAction) (packs : List Pack)
    (teamsByPack : String → Option (List String)) :
    Except ProfessionResolutionError (Pack × List String × String) :=
  match nextAction.profession with
  | none => .error (.unknownPack "<undefined>")
  | some packName =>
      match packs.find? (·.name = packName) with
      | none => .error (.unknownPack packName)
      | some pack =>
          let usage := pack.usage.getD .active
          if usage ≠ .profession ∧ usage ≠ .both then .error (.wrongUsage packName usage.text)
          else
            match teamsByPack packName with
            | none => .error (.missingTeam packName)
            | some [] => .error (.noRoles packName)
            | some (first :: roles) =>
                match nextAction.args.bind (Args.text · "role") with
                | none => .ok (pack, first :: roles, first)
                | some requestedRole =>
                    if requestedRole ∈ first :: roles then .ok (pack, first :: roles, requestedRole)
                    else .error (.roleNotFound packName requestedRole)

def formatProfessionError : ProfessionResolutionError → String
  | .unknownPack packName =>
      s!"directive references profession \"{packName}\" but no pack with that name is loaded"
  | .wrongUsage packName actualUsage =>
      s!"directive references profession \"{packName}\" but its usage is \"{actualUsage}\" — " ++
        "must be \"profession\" or \"both\""
  | .missingTeam packName =>
      s!"directive references profession \"{packName}\" but the pack has no loadable team.yaml"
  | .noRoles packName =>
      s!"directive references profession \"{packName}\" but its team.yaml declares zero roles"
  | .roleNotFound packName requestedRole =>
      s!"directive references profession \"{packName}\" + role \"{requestedRole}\" — " ++
        "role not found in team.yaml"

/-! ## The walk -/

/-- A rule in its place. -/
structure Site where
  pack : Pack
  skill : Skill
  rule : Rule

/-- An evaluation and its result. -/
abbrev Evaluation := Site × RuleResult

/-- What a dispatch goes by: its arguments, the persisted state that it reads, and the world that it
asks. `saves` says whether the ticks can be written back. -/
structure Fire where
  event : Event
  packs : List Pack
  scopeCtx : DispatchScopeCtx
  ticks : String → Option TickState
  saves : Bool
  requires : RequiresCache
  classifiedFacets : Option Facets
  projectDomain : Option String
  regExp : RegExp
  minimatch : String → String → Bool
  evaluate : List Evaluation → Site → Option RuleResult

/-- What the dispatcher makes of a result. -/
inductive Emission
  | inject (content : String)
  | direct (directive : Directive)
  | warn (text : String)
  | block (message : String)
  | silent

def Emission.injection : Emission → Option String
  | .inject content => some content
  | _ => none

def Emission.directive : Emission → Option Directive
  | .direct directive => some directive
  | _ => none

/-- What is added to the buffered warnings. -/
def Emission.warning : Emission → String
  | .warn text => text
  | _ => ""

def Emission.message : Emission → Option String
  | .block message => some message
  | _ => none

def misrouted (site : Site) (what : String) (kind : EventKind) (surfaces : String) : Emission :=
  .warn (s!"[opensquid] WARN: rule \"{site.rule.id}\" in skill \"{site.skill.name}\" (pack " ++
    s!"\"{site.pack.name}\") emitted {what} on event kind \"{kind.text}\"; only {surfaces} " ++
    "(drop). Update the skill's triggers: block.\n")

def injectContext (kind : EventKind) (site : Site) (content : String) : Emission :=
  if kind = .promptSubmit ∨ kind = .sessionStart ∨ kind = .toolCall then .inject content
  else misrouted site "inject_context" kind
    "\"prompt_submit\" / \"session_start\" / \"tool_call\" surface injections"

def emitDirective (f : Fire) (site : Site) (directive : Directive) : Emission :=
  if f.event.kind = .promptSubmit then
    if directive.nextAction.profession.isNone then .direct { directive with ruleId := site.rule.id }
    else
      match resolveProfessionDirective directive.nextAction f.packs (teamsByPack f.packs) with
      | .ok _ => .direct { directive with ruleId := site.rule.id }
      | .error reason =>
          .warn (s!"[opensquid] WARN: dropping invalid profession directive — " ++
            s!"{formatProfessionError reason} (rule \"{site.rule.id}\" in skill " ++
            s!"\"{site.skill.name}\" pack \"{site.pack.name}\")\n")
  else misrouted site "a directive" f.event.kind "\"prompt_submit\" surfaces directives"

def resolvedPolicy (site : Site) (level : Level) : DriftPolicy :=
  match site.pack.driftResponse with
  | none => defaultPolicyForLevel level
  | some driftResponse => (driftResponse.perRule site.rule.id).getD driftResponse.default

def emitVerdict (site : Site) (v : MessageVerdict) : Emission :=
  match applyDriftResponse v (resolvedPolicy site v.level)
      (site.pack.driftResponse.map (·.correctiveSkills)) with
  | .blockTool message => .block message
  | .warn message => .warn (message ++ "\n")
  | .halt reason => .block reason
  | .notifyPause reason _ => .warn (reason ++ "\n")
  | .autoCorrect _ _ | .escalate _ _ => .silent

def emission (f : Fire) (e : Evaluation) : Emission :=
  match e.2 with
  | .injectContext content => injectContext f.event.kind e.1 content
  | .directive directive => emitDirective f e.1 directive
  | .error error step =>
      .warn (s!"[opensquid] {e.1.pack.name}/{e.1.skill.name} rule \"{e.1.rule.id}\" step {step} " ++
        s!"errored: {error} — rule SKIPPED (gate did not enforce)\n")
  | .noVerdict => .silent
  | .verdict v => emitVerdict e.1 v

/-- `text.trimEnd()`. -/
def trimEnd (text : String) : String :=
  String.ofList (text.toList.reverse.dropWhile isSpace).reverse

def appendWarn (stderr warnBuf : String) : String :=
  if warnBuf = "" then stderr
  else if stderr = "" then trimEnd warnBuf
  else stderr ++ "\n" ++ trimEnd warnBuf

structure DispatchResult where
  exitCode : Nat
  stderr : String
  contextInjections : List String
  directives : List Directive

/-- The result with the evaluations that it comes from. -/
structure Dispatch extends DispatchResult where
  evaluated : List Evaluation

/-- The accumulators of the walk; `evaluated` is for the statements only. -/
structure Walk where
  contextInjections : List String
  directives : List Directive
  warnBuf : String
  evaluated : List Evaluation

def Walk.start : Walk := ⟨[], [], "", []⟩

def Walk.result (w : Walk) (exitCode : Nat) (stderr : String) : Dispatch :=
  ⟨⟨exitCode, appendWarn stderr w.warnBuf, w.contextInjections, w.directives⟩, w.evaluated⟩

/-- The walk after an emission, or the early return. -/
def Walk.emit (w : Walk) : Emission → Except (Option Dispatch) Walk
  | .inject content => .ok { w with contextInjections := w.contextInjections ++ [content] }
  | .direct directive => .ok { w with directives := w.directives ++ [directive] }
  | .warn text => .ok { w with warnBuf := w.warnBuf ++ text }
  | .block message => .error (some (w.result 2 message))
  | .silent => .ok w

section

variable (f : Fire)

def evaluateRule (w : Walk) (site : Site) : Except (Option Dispatch) Walk :=
  match f.evaluate w.evaluated site with
  | none => .error none
  | some result =>
      { w with evaluated := w.evaluated ++ [(site, result)] }.emit (emission f (site, result))

def walkRule (pack : Pack) (skill : Skill) (w : Walk) (rule : Rule) :
    Except (Option Dispatch) Walk :=
  if rule.kind = .destinationCheck then .ok w
  else if !skillRequiresHold rule.requires f.requires then .ok w
  else evaluateRule f w ⟨pack, skill, rule⟩

/-- The skill subscribes to the event. -/
def triggered (skill : Skill) : Bool :=
  skill.triggers.any (·.kind = f.event.kind) &&
    match f.event with
    | .inboundChannel channelUri sender =>
        (skill.triggers.filter (·.kind = .inboundChannel)).any
          (inboundChannelTriggerMatches f.regExp · channelUri sender)
    | _ => true

/-- The lens of the skill matches the turn, or else the domain of the project. -/
def lensMatches (skill : Skill) : Bool :=
  match skill.serves with
  | none => true
  | some serves =>
      match f.classifiedFacets with
      | some facets => skillServesMatches serves facets
      | none => f.projectDomain.all (skillServesDomainMatches serves)

/-- Is the name one of a dynamic skill and one to skip? -/
def skippedByName (name : String) : Bool :=
  name ∈ (dynamicSkills f.packs).map (·.name) &&
    name ∈ computeUnloadSkips f.regExp f.minimatch f.event f.ticks (dynamicSkills f.packs)

def walkSkill (pack : Pack) (w : Walk) (skill : Skill) : Except (Option Dispatch) Walk :=
  if skippedByName f skill.name then .ok w
  else if !triggered f skill then .ok w
  else if !skillRequiresHold skill.requires f.requires then .ok w
  else if !lensMatches f skill then .ok w
  else skill.rules.foldlM (walkRule f pack skill) w

def walkPack (w : Walk) (pack : Pack) : Except (Option Dispatch) Walk :=
  if !activationScopeApplies (pack.activationScope.getD .project) f.scopeCtx then .ok w
  else pack.skills.foldlM (walkSkill f pack) w

/-- The end of the walk; an early return is the result. -/
def finish : Except (Option Dispatch) Walk → Option Dispatch
  | .ok w => some (w.result 0 "")
  | .error early => early

/-- None if the dispatch throws. -/
def dispatchEvent : Option Dispatch :=
  if f.saves then finish (f.packs.foldlM (walkPack f) Walk.start) else none

/-! ## Eligible rules -/

/-- The rules of the skills of the packs, in their order. -/
def sites (packs : List Pack) : List Site :=
  packs.flatMap fun pack => pack.skills.flatMap fun skill => skill.rules.map (Site.mk pack skill)

/-- The rule passes every filter but the unload gate. -/
def passes (site : Site) : Bool :=
  activationScopeApplies (site.pack.activationScope.getD .project) f.scopeCtx &&
    triggered f site.skill && skillRequiresHold site.skill.requires f.requires &&
    lensMatches f site.skill && site.rule.kind = .trackCheck &&
    skillRequiresHold site.rule.requires f.requires

/-- The skill is not pinned, and an unload condition of its own fires. -/
def unloads (pack : Pack) (skill : Skill) : Bool :=
  !isPinned pack skill &&
    skill.name ∈ computeUnloadSkips f.regExp f.minimatch f.event f.ticks [skill]

def eligible (site : Site) : Bool := passes f site && !unloads f site.pack site.skill

/-- The rules that the dispatcher evaluates, up to where it ends. -/
def dispatched (site : Site) : Bool := passes f site && !skippedByName f site.skill.name

/-- The verdict of the evaluation resolves to `block_tool` or `halt`. -/
def blocks (e : Evaluation) : Bool := (emission f e).message.isSome

/-- One evaluation, and whether it ends the walk. -/
def evaluation (log : List Evaluation) (site : Site) : Option (List Evaluation × Bool) :=
  (f.evaluate log site).map fun result => (log ++ [(site, result)], blocks f (site, result))

/-- The rules that are evaluated are the eligible ones up to the first that blocks, and the result
is made of what they emit. -/
structure Follows (d : Dispatch) : Prop where
  evaluated : walk (eligible f) (evaluation f) [] (sites f.packs) = some d.evaluated
  exitCode : d.exitCode = 2 ↔ ∃ e ∈ d.evaluated, blocks f e = true
  contextInjections : d.contextInjections = d.evaluated.filterMap fun e => (emission f e).injection
  directives : d.directives = d.evaluated.filterMap fun e => (emission f e).directive
  stderr : d.stderr =
    appendWarn ((d.evaluated.findSome? fun e => (emission f e).message).getD "")
      (String.join (d.evaluated.map fun e => (emission f e).warning))

end

/-! ## The walk as one list -/

variable {f : Fire} {pack : Pack} {skill : Skill} {site : Site} {w : Walk}
  {log log' : List Evaluation}

/-- A site of the walk: evaluated or passed by. -/
def walkSite (f : Fire) (w : Walk) (site : Site) : Except (Option Dispatch) Walk :=
  if dispatched f site then evaluateRule f w site else .ok w

theorem walkSite_of_out (out : dispatched f site = false) : walkSite f w site = .ok w := by
  rw [walkSite, if_neg (by simp [out])]

/-- The rules of a skill that is passed by. -/
theorem foldlM_walkSite_of_out (out : ∀ rule, dispatched f ⟨pack, skill, rule⟩ = false) (w : Walk) :
    (skill.rules.map (Site.mk pack skill)).foldlM (walkSite f) w = .ok w := by
  rw [List.foldlM_map]
  exact foldlM_eq_ok (fun w rule _ => walkSite_of_out (out rule)) w

section

variable (applies : activationScopeApplies (pack.activationScope.getD .project) f.scopeCtx = true)

include applies

theorem walkRule_eq (named : skippedByName f skill.name = false)
    (subscribed : triggered f skill = true)
    (holds : skillRequiresHold skill.requires f.requires = true) (lens : lensMatches f skill = true)
    (w : Walk) (rule : Rule) :
    walkRule f pack skill w rule = walkSite f w ⟨pack, skill, rule⟩ := by
  unfold walkRule walkSite
  cases kind : rule.kind <;> cases ready : skillRequiresHold rule.requires f.requires <;>
    simp [dispatched, passes, applies, named, subscribed, holds, lens, kind, ready]

theorem walkSkill_eq (w : Walk) (skill : Skill) :
    walkSkill f pack w skill = (skill.rules.map (Site.mk pack skill)).foldlM (walkSite f) w := by
  unfold walkSkill
  split_ifs with named idle waits away
  · exact (foldlM_walkSite_of_out (fun rule => by simp [dispatched, named]) w).symm
  · exact (foldlM_walkSite_of_out (fun rule => by simp_all [dispatched, passes]) w).symm
  · exact (foldlM_walkSite_of_out (fun rule => by simp_all [dispatched, passes]) w).symm
  · exact (foldlM_walkSite_of_out (fun rule => by simp_all [dispatched, passes]) w).symm
  · rw [Bool.not_eq_true, Bool.not_eq_false'] at idle waits away
    rw [List.foldlM_map]
    exact foldlM_congr_mem (fun w rule _ =>
      walkRule_eq applies (Bool.eq_false_iff.mpr named) idle waits away w rule) w

end

theorem walkPack_eq (w : Walk) (pack : Pack) :
    walkPack f w pack = (pack.skills.flatMap fun skill =>
      skill.rules.map (Site.mk pack skill)).foldlM (walkSite f) w := by
  rw [foldlM_flatMap]
  unfold walkPack
  split_ifs with away
  · refine (foldlM_eq_ok (fun w skill _ => foldlM_walkSite_of_out (fun rule => ?_) w) w).symm
    simp_all [dispatched, passes]
  · rw [Bool.not_eq_true, Bool.not_eq_false'] at away
    exact foldlM_congr_mem (fun w skill _ => walkSkill_eq away w skill) w

theorem foldlM_walkPack (w : Walk) :
    f.packs.foldlM (walkPack f) w = (sites f.packs).foldlM (walkSite f) w := by
  rw [sites, foldlM_flatMap]
  exact foldlM_congr_mem (fun w pack _ => walkPack_eq w pack) w

/-! ## The result as a function of the evaluations -/

/-- The accumulators after the evaluations. -/
def Walk.after (f : Fire) (log : List Evaluation) : Walk where
  contextInjections := log.filterMap fun e => (emission f e).injection
  directives := log.filterMap fun e => (emission f e).directive
  warnBuf := String.join (log.map fun e => (emission f e).warning)
  evaluated := log

/-- The dispatch that ends with the evaluations. -/
def Dispatch.after (f : Fire) (log : List Evaluation) : Dispatch :=
  match log.findSome? fun e => (emission f e).message with
  | none => (Walk.after f log).result 0 ""
  | some message => (Walk.after f log).result 2 message

/-- No evaluation so far blocks. -/
def Quiet (f : Fire) (log : List Evaluation) : Prop := ∀ e ∈ log, (emission f e).message = none

theorem Quiet.append {e : Evaluation} (quiet : Quiet f log)
    (silent : (emission f e).message = none) : Quiet f (log ++ [e]) := by
  intro e' mem
  rcases List.mem_append.mp mem with before | last
  · exact quiet e' before
  · rw [List.mem_singleton.mp last]
    exact silent

theorem Quiet.findSome? (quiet : Quiet f log) (rest : List Evaluation) :
    (log ++ rest).findSome? (fun e => (emission f e).message) =
      rest.findSome? fun e => (emission f e).message := by
  rw [List.findSome?_append, List.findSome?_eq_none_iff.mpr quiet, Option.none_or]

theorem emit_after (quiet : Quiet f log) (e : Evaluation) :
    { Walk.after f log with evaluated := log ++ [e] }.emit (emission f e) =
      if blocks f e then .error (some (Dispatch.after f (log ++ [e])))
      else .ok (Walk.after f (log ++ [e])) := by
  have found : (log ++ [e]).findSome? (fun e => (emission f e).message) =
      (emission f e).message := by
    rw [quiet.findSome?, List.findSome?_singleton]
  rw [Dispatch.after, found]
  cases emits : emission f e <;>
    simp [Walk.emit, Walk.after, Walk.result, blocks, emits, String.join, Emission.injection,
      Emission.directive, Emission.warning, Emission.message]

theorem walkSite_after (quiet : Quiet f log) (kept : dispatched f site = true) :
    walkSite f (Walk.after f log) site =
      match evaluation f log site with
      | none => .error none
      | some (log', true) => .error (some (Dispatch.after f log'))
      | some (log', false) => .ok (Walk.after f log') := by
  have evaluated : (Walk.after f log).evaluated = log := rfl
  rw [walkSite, if_pos kept, evaluateRule, evaluation, evaluated]
  cases f.evaluate log site with
  | none => rfl
  | some result =>
      simp only [Option.map_some, emit_after quiet]
      cases blocks f (site, result) <;> rfl

/-- An evaluation that the walk goes on from leaves it quiet. -/
theorem Quiet.of_evaluation (quiet : Quiet f log)
    (go : evaluation f log site = some (log', false)) : Quiet f log' := by
  obtain ⟨result, -, eq⟩ := Option.map_eq_some_iff.mp go
  rw [Prod.mk.injEq] at eq
  obtain ⟨rfl, silent⟩ := eq
  exact quiet.append (Option.not_isSome_iff_eq_none.mp (Bool.eq_false_iff.mp silent))

theorem finish_foldlM (quiet : Quiet f log) (xs : List Site) :
    finish (xs.foldlM (walkSite f) (Walk.after f log)) =
      (walk (dispatched f) (evaluation f) log xs).map (Dispatch.after f) := by
  induction xs generalizing log with
  | nil =>
      have none : log.findSome? (fun e => (emission f e).message) = none :=
        List.findSome?_eq_none_iff.mpr quiet
      simp [walk, Dispatch.after, none, finish, pure, Except.pure]
  | cons site xs ih =>
      rw [List.foldlM_cons]
      cases kept : dispatched f site with
      | false =>
          rw [walkSite_of_out kept, walk_cons_of_neg kept]
          exact ih quiet
      | true =>
          rw [walkSite_after quiet kept]
          rcases taken : evaluation f log site with _ | ⟨log', _ | _⟩
          · rw [walk_cons_of_none kept taken]
            rfl
          · rw [walk_cons_of_go kept taken]
            exact ih (quiet.of_evaluation taken)
          · rw [walk_cons_of_stop kept taken]
            rfl

/-- The dispatch is what the evaluations make it. -/
theorem dispatchEvent_eq (saved : f.saves = true) :
    dispatchEvent f =
      (walk (dispatched f) (evaluation f) [] (sites f.packs)).map (Dispatch.after f) := by
  have start : Walk.start = Walk.after f [] := rfl
  rw [dispatchEvent, if_pos saved, foldlM_walkPack, start]
  exact finish_foldlM (by simp [Quiet]) (sites f.packs)

/-- What a dispatch returns is made of what the evaluated rules emit. -/
theorem exists_walk_of_dispatchEvent {d : Dispatch} (returned : dispatchEvent f = some d) :
    ∃ log, walk (dispatched f) (evaluation f) [] (sites f.packs) = some log ∧
      d = Dispatch.after f log := by
  cases saved : f.saves with
  | false =>
      rw [dispatchEvent, if_neg (by simp [saved])] at returned
      cases returned
  | true =>
      rw [dispatchEvent_eq saved] at returned
      obtain ⟨log, walked, made⟩ := Option.map_eq_some_iff.mp returned
      exact ⟨log, walked, made.symm⟩

theorem evaluated_after : (Dispatch.after f log).evaluated = log := by
  unfold Dispatch.after
  split <;> rfl

theorem contextInjections_after :
    (Dispatch.after f log).contextInjections = log.filterMap fun e => (emission f e).injection := by
  unfold Dispatch.after
  split <;> rfl

theorem directives_after :
    (Dispatch.after f log).directives = log.filterMap fun e => (emission f e).directive := by
  unfold Dispatch.after
  split <;> rfl

theorem stderr_after : (Dispatch.after f log).stderr =
    appendWarn ((log.findSome? fun e => (emission f e).message).getD "")
      (String.join (log.map fun e => (emission f e).warning)) := by
  unfold Dispatch.after
  split
  · rename_i none
    rw [none]
    rfl
  · rename_i message some
    rw [some]
    rfl

theorem exitCode_after : (Dispatch.after f log).exitCode = 2 ↔ ∃ e ∈ log, blocks f e = true := by
  unfold Dispatch.after
  split
  · rename_i none
    refine iff_of_false (by simp [Walk.result]) ?_
    rintro ⟨e, mem, hit⟩
    rw [blocks, List.findSome?_eq_none_iff.mp none e mem] at hit
    cases hit
  · rename_i message some
    obtain ⟨e, mem, found⟩ := List.exists_of_findSome?_eq_some some
    exact iff_of_true rfl ⟨e, mem, by rw [blocks, found]; rfl⟩

theorem follows_after : Follows f (Dispatch.after f log) ↔
    walk (eligible f) (evaluation f) [] (sites f.packs) = some log := by
  refine ⟨fun follows => follows.evaluated.trans (congrArg some evaluated_after), fun walked => ?_⟩
  refine ⟨?_, ?_, ?_, ?_, ?_⟩ <;> rw [evaluated_after]
  · exact walked
  · exact exitCode_after
  · exact contextInjections_after
  · exact directives_after
  · exact stderr_after

/-! ## The gate by name -/

theorem traces_evaluation : Traces (List.map Prod.fst) (evaluation f) := by
  intro log site log' stop taken
  obtain ⟨result, -, eq⟩ := Option.map_eq_some_iff.mp taken
  rw [← (Prod.mk.inj eq).1, List.map_append, List.map_singleton]

theorem dispatched_eq_eligible_iff : dispatched f site = eligible f site ↔
    (passes f site = true →
      skippedByName f site.skill.name = unloads f site.pack site.skill) := by
  unfold dispatched eligible
  cases passes f site <;> simp

/-- The dispatch follows the eligible rules exactly if, of every skill that the walk over them comes
to, the name is skipped if and only if the skill itself unloads. -/
theorem dispatch_follows_iff {d : Dispatch} (returned : dispatchEvent f = some d) :
    Follows f d ↔ ∀ site ∈ reached (eligible f) (evaluation f) [] (sites f.packs),
      passes f site = true → skippedByName f site.skill.name = unloads f site.pack site.skill := by
  obtain ⟨log, walked, rfl⟩ := exists_walk_of_dispatchEvent returned
  rw [follows_after, walk_eq_some_iff traces_evaluation walked]
  simp only [dispatched_eq_eligible_iff]

/-- A skill named `gate` with one rule, at the end of a turn. -/
def gate (load : LoadMode) (unloadsWhen : List Json) : Skill where
  name := "gate"
  load := load
  whenToLoad := []
  requires := []
  unloadsWhen := unloadsWhen
  triggers := [⟨.stop, none, none⟩]
  serves := none
  rules := [⟨"tests-pass", .trackCheck, [], .arr []⟩]

def packOf (name : String) (scope : Scope) (skill : Skill) : Pack where
  name := name
  scope := scope
  skills := [skill]
  driftResponse := none
  activationScope := none
  usage := none
  team := none

def pinningPack : Pack := packOf "house" .universal (gate .preload [])

def unloadingPack : Pack := packOf "flow" .workflow (gate .lazy [.str "active_task_completes"])

def testsVerdict : MessageVerdict := ⟨.block, "run the tests", none⟩

/-- The end of a turn; the verdict of every rule is `testsVerdict`. -/
def stopFire (packs : List Pack) : Fire where
  event := .stop
  packs := packs
  scopeCtx := ⟨true, true⟩
  ticks := fun _ => none
  saves := true
  requires := ⟨false, false⟩
  classifiedFacets := none
  projectDomain := none
  regExp := fun _ => none
  minimatch := fun _ _ => false
  evaluate := fun _ _ => some (.verdict testsVerdict)

theorem dispatch_follows_iff_pinned :
    Follows (stopFire [pinningPack]) ⟨⟨2, "run the tests", [], []⟩,
      [(⟨pinningPack, gate .preload [], ⟨"tests-pass", .trackCheck, [], .arr []⟩⟩,
        .verdict testsVerdict)]⟩ := by
  refine (dispatch_follows_iff rfl).mpr fun site mem _ => ?_
  have only : reached (eligible (stopFire [pinningPack])) (evaluation (stopFire [pinningPack])) []
      (sites [pinningPack]) =
        [⟨pinningPack, gate .preload [], ⟨"tests-pass", .trackCheck, [], .arr []⟩⟩] := rfl
  rw [show (stopFire [pinningPack]).packs = [pinningPack] from rfl, only] at mem
  rw [List.mem_singleton.mp mem]
  rfl

/-- The pinned skill blocks, but the other skill of its name unloads. -/
theorem namesake_opens_gate : ∃ d, dispatchEvent (stopFire [pinningPack, unloadingPack]) = some d ∧
    d.exitCode = 0 ∧ ¬ Follows (stopFire [pinningPack, unloadingPack]) d := by
  refine ⟨⟨⟨0, "", [], []⟩, []⟩, rfl, rfl, fun follows => ?_⟩
  have one : (walk (eligible (stopFire [pinningPack, unloadingPack]))
      (evaluation (stopFire [pinningPack, unloadingPack])) []
      (sites [pinningPack, unloadingPack])).map List.length = some 1 := rfl
  have none := congrArg (Option.map List.length) follows.evaluated
  simp only [List.length_nil, Option.map_some] at none
  cases one.symm.trans none

/-! ## Distinct names -/

/-- The skills in their packs. -/
def packed (packs : List Pack) : List (Pack × Skill) :=
  packs.flatMap fun pack => pack.skills.map (pack, ·)

theorem mem_dynamicSkills : skill ∈ dynamicSkills f.packs ↔
    ∃ pack, (pack, skill) ∈ packed f.packs ∧ isPinned pack skill = false := by
  simp only [dynamicSkills, packed, List.mem_flatMap, List.mem_filter, List.mem_map, Prod.mk.injEq,
    Bool.not_eq_true']
  constructor
  · intro ⟨pack, mem, mem', dynamic⟩
    exact ⟨pack, ⟨pack, mem, skill, mem', rfl, rfl⟩, dynamic⟩
  · intro ⟨pack, ⟨pack', mem, skill', mem', same, same'⟩, dynamic⟩
    rw [← same, ← same'] at dynamic
    exact ⟨pack', mem, same' ▸ ⟨mem', dynamic⟩⟩

theorem mem_packed_of_mem_sites (mem : site ∈ sites f.packs) :
    (site.pack, site.skill) ∈ packed f.packs := by
  simp only [sites, List.mem_flatMap, List.mem_map] at mem
  obtain ⟨pack, mem, skill, mem', rule, -, rfl⟩ := mem
  simp only [packed, List.mem_flatMap, List.mem_map]
  exact ⟨pack, mem, skill, mem', rfl⟩

/-- Where no two skills share a name the gate by name is the gate of the skill. -/
theorem skippedByName_eq_unloads (distinct : ((packed f.packs).map (·.2.name)).Nodup)
    (mem : (pack, skill) ∈ packed f.packs) : skippedByName f skill.name = unloads f pack skill := by
  have own (s : Skill) (named : s.name = skill.name) :
      s ∈ dynamicSkills f.packs ↔ s = skill ∧ isPinned pack skill = false := by
    rw [mem_dynamicSkills]
    constructor
    · rintro ⟨pack', mem', dynamic⟩
      have same := List.inj_on_of_nodup_map distinct mem' mem named
      obtain ⟨rfl, rfl⟩ := Prod.mk.inj same
      exact ⟨rfl, dynamic⟩
    · rintro ⟨rfl, dynamic⟩
      exact ⟨pack, mem, dynamic⟩
  unfold skippedByName unloads
  cases pinned : isPinned pack skill with
  | true =>
      have out : skill.name ∉ (dynamicSkills f.packs).map (·.name) := by
        rw [List.mem_map]
        rintro ⟨s, dynamic, named⟩
        simp [(own s named).mp dynamic |>.2] at pinned
      simp [out]
  | false =>
      have loaded : skill.name ∈ (dynamicSkills f.packs).map (·.name) :=
        List.mem_map_of_mem ((own skill rfl).mpr ⟨rfl, pinned⟩)
      have gate : skill.name ∈ computeUnloadSkips f.regExp f.minimatch f.event f.ticks
            (dynamicSkills f.packs) ↔
          skill.name ∈ computeUnloadSkips f.regExp f.minimatch f.event f.ticks [skill] :=
        mem_computeUnloadSkips_congr fun s named => by
          rw [own s named, List.mem_singleton, and_iff_left pinned]
      simp [loaded, gate]

theorem follows_of_names_nodup {d : Dispatch} (distinct : ((packed f.packs).map (·.2.name)).Nodup)
    (returned : dispatchEvent f = some d) : Follows f d := by
  obtain ⟨log, walked, rfl⟩ := exists_walk_of_dispatchEvent returned
  rw [follows_after, walk_eq_some_iff traces_evaluation walked]
  intro site mem
  have place := mem_packed_of_mem_sites (mem_of_mem_reached mem)
  exact dispatched_eq_eligible_iff.mpr fun _ => skippedByName_eq_unloads distinct place

end Opensquid.Hooks
