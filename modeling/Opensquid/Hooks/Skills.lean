import Opensquid.Guard.ReviewerGuard
import Opensquid.Lib.JsonFields

/-!
# Skills and their filters

Whether a skill is walked on an event is up to its triggers, its preconditions, the facets it serves
and, unless a universal pack pins it, its unload conditions. The tick that an unload condition is
asked about is kept under the name of the skill, and `computeUnloadSkips` gives names: a skill
stands for every other one of its name, of whatever pack.

The engine of regular expressions and `minimatch` are parameters; an engine gives none for a pattern
that does not compile. Object keys that every object inherits are left aside.
-/

namespace Opensquid.Hooks

open Opensquid.Lib Opensquid.Lib.Json Opensquid.Guard

/-! ## Events -/

inductive EventKind
  | toolCall | postToolCall | promptSubmit | sessionEnd | stop | sessionStart | schedule | webhook
  | inboundChannel | fileChanged
  deriving DecidableEq, Repr

def EventKind.text : EventKind → String
  | .toolCall => "tool_call"
  | .postToolCall => "post_tool_call"
  | .promptSubmit => "prompt_submit"
  | .sessionEnd => "session_end"
  | .stop => "stop"
  | .sessionStart => "session_start"
  | .schedule => "schedule"
  | .webhook => "webhook"
  | .inboundChannel => "inbound_channel"
  | .fileChanged => "file_changed"

def EventKind.all : List EventKind :=
  [.toolCall, .postToolCall, .promptSubmit, .sessionEnd, .stop, .sessionStart, .schedule, .webhook,
    .inboundChannel, .fileChanged]

def EventKind.parse (text : String) : Option EventKind := EventKind.all.find? (·.text = text)

/-- What the filters read of an event. -/
inductive Event
  | toolCall (tool : String) (args : Args)
  | postToolCall
  | promptSubmit
  | sessionEnd
  | stop
  | sessionStart
  | schedule
  | webhook
  | inboundChannel (channelUri sender : String)
  | fileChanged

def Event.kind : Event → EventKind
  | .toolCall _ _ => .toolCall
  | .postToolCall => .postToolCall
  | .promptSubmit => .promptSubmit
  | .sessionEnd => .sessionEnd
  | .stop => .stop
  | .sessionStart => .sessionStart
  | .schedule => .schedule
  | .webhook => .webhook
  | .inboundChannel _ _ => .inboundChannel
  | .fileChanged => .fileChanged

/-! ## Load conditions -/

inductive Matcher
  | toolMatch (tool : String)
  | commandPattern (pattern : String)
  | fileGlob (glob : String)
  | eventType (type : EventKind)
  deriving DecidableEq, Repr

/-- A shorthand of one key to the form with a `kind`. -/
def normalizeMatcher : Json → Json
  | .obj [("tool_match", .str v)] => .obj [("kind", .str "tool_match"), ("tool", .str v)]
  | .obj [("command_pattern", .str v)] =>
      .obj [("kind", .str "command_pattern"), ("pattern", .str v)]
  | .obj [("file_glob", .str v)] => .obj [("kind", .str "file_glob"), ("glob", .str v)]
  | .obj [("event_type", .str v)] => .obj [("kind", .str "event_type"), ("type", .str v)]
  | raw => raw

def matcherCanonical : Json → Option Matcher
  | .obj fields =>
      match stringField fields "kind" with
      | some "tool_match" => (nonempty fields "tool").map .toolMatch
      | some "command_pattern" => (nonempty fields "pattern").map .commandPattern
      | some "file_glob" => (nonempty fields "glob").map .fileGlob
      | some "event_type" => ((stringField fields "type").bind EventKind.parse).map .eventType
      | _ => none
  | _ => none

/-- The malformed ones are dropped. -/
def parseWhenToLoad (raw : List Json) : List Matcher :=
  raw.filterMap fun r => matcherCanonical (normalizeMatcher r)

/-- `new RegExp(pattern)`, as what its `test` says. -/
abbrev RegExp := String → Option (String → Bool)

def extractFilePath (args : Args) : Option String :=
  ["file_path", "path", "notebook_path"].findSome? fun key => (args.text key).filter (· ≠ "")

section

variable (regExp : RegExp) (minimatch : String → String → Bool)

def matchesOne (event : Event) : Matcher → Bool
  | .eventType type => type = event.kind
  | .toolMatch name =>
      match event with
      | .toolCall tool _ => toolMatches tool [name]
      | _ => false
  | .commandPattern pattern =>
      match event with
      | .toolCall _ args => (args.text "command").any fun cmd => (regExp pattern).any (· cmd)
      | _ => false
  | .fileGlob glob =>
      match event with
      | .toolCall _ args => (extractFilePath args).any fun path => minimatch path glob
      | _ => false

def matchesEvent (matchers : List Matcher) (event : Event) : Bool :=
  matchers.any (matchesOne regExp minimatch event)

end

/-! ## Unload conditions and ticks -/

inductive UnloadCondition
  | activeTaskCompletes
  | sessionEnds
  | idleNTurns (n : ℚ)
  deriving DecidableEq

def normalizeUnloadCondition : Json → Json
  | .str "active_task_completes" => .obj [("kind", .str "active_task_completes")]
  | .str "session_ends" => .obj [("kind", .str "session_ends")]
  | .obj [("idle_n_turns", .num n)] => .obj [("kind", .str "idle_n_turns"), ("n", .num n)]
  | raw => raw

/-- `z.number().int().positive()`. -/
def positiveInt : Json → Option ℚ
  | .num text => some (numberOf text) |>.filter fun n => n.den = 1 && 0 < n
  | _ => none

def unloadConditionCanonical : Json → Option UnloadCondition
  | .obj fields =>
      match stringField fields "kind" with
      | some "active_task_completes" => some .activeTaskCompletes
      | some "session_ends" => some .sessionEnds
      | some "idle_n_turns" => ((field fields "n").bind positiveInt).map .idleNTurns
      | _ => none
  | _ => none

/-- The malformed ones are dropped. -/
def parseUnloadsWhen (raw : List Json) : List UnloadCondition :=
  raw.filterMap fun r => unloadConditionCanonical (normalizeUnloadCondition r)

structure TickState where
  turnsSinceActivation : ℚ
  taskCompleted : Bool
  sessionEnded : Bool
  deriving DecidableEq

def createTick : TickState := ⟨0, false, false⟩

def advanceTick (state : TickState) (event : Event) : TickState :=
  match event with
  | .promptSubmit => { state with turnsSinceActivation := state.turnsSinceActivation + 1 }
  | .stop => { state with taskCompleted := true }
  | .sessionEnd => { state with sessionEnded := true }
  | _ => state

def UnloadCondition.fires (tick : TickState) : UnloadCondition → Bool
  | .sessionEnds => tick.sessionEnded
  | .activeTaskCompletes => tick.taskCompleted
  | .idleNTurns n => n ≤ tick.turnsSinceActivation

def shouldUnload (conditions : List UnloadCondition) (tick : TickState) : Bool :=
  conditions.any (UnloadCondition.fires tick)

/-! ## Skills and packs -/

inductive LoadMode
  | preload | lazy
  deriving DecidableEq, Repr

inductive Scope
  | universal | domain | specialty | workflow | project
  deriving DecidableEq, Repr

inductive ActivationScope
  | project | user | hybrid | team | global
  deriving DecidableEq, Repr

inductive PackUsage
  | active | profession | both
  deriving DecidableEq, Repr

def PackUsage.text : PackUsage → String
  | .active => "active"
  | .profession => "profession"
  | .both => "both"

inductive SkillRequires
  | automationModeOn
  | activeTaskPresent
  deriving DecidableEq, Repr

/-- What the filter reads of a trigger; only an `inbound_channel` trigger has the two texts. -/
structure Trigger where
  kind : EventKind
  channel : Option String
  senderPattern : Option String
  deriving DecidableEq, Repr

inductive RuleKind
  | trackCheck
  | destinationCheck
  deriving DecidableEq, Repr

/-- The steps of a rule are read by the evaluator; a destination check has none of its own, and no
preconditions. -/
structure Rule where
  id : String
  kind : RuleKind
  requires : List SkillRequires
  process : Json

/-- The facets that a block declares, in their order. -/
abbrev ServesBlock := List (String × String)

/-- A block of `serves` that stands alone is a list of one. -/
structure Skill where
  name : String
  load : LoadMode
  whenToLoad : List Json
  requires : List SkillRequires
  unloadsWhen : List Json
  triggers : List Trigger
  serves : Option (List ServesBlock)
  rules : List Rule

inductive DriftPolicy
  | blockTool | warn | fullStopAndRedo | notifyAndPause | autoCorrect | escalate
  | unknown (text : String)
  deriving DecidableEq, Repr

/-- The two records as what reading a property of them gives. -/
structure DriftResponse where
  default : DriftPolicy
  perRule : String → Option DriftPolicy
  correctiveSkills : String → Option String

/-- What the dispatcher reads of a pack; of the team it reads the names of the roles. -/
structure Pack where
  name : String
  scope : Scope
  skills : List Skill
  driftResponse : Option DriftResponse
  activationScope : Option ActivationScope
  usage : Option PackUsage
  team : Option (List String)

/-- A universal pack's preloaded skill stays for the session. -/
def isPinned (pack : Pack) (skill : Skill) : Bool :=
  pack.scope = .universal && skill.load = .preload

/-- The second half of `partitionSkills`. -/
def dynamicSkills (packs : List Pack) : List Skill :=
  packs.flatMap fun pack => pack.skills.filter fun skill => !isPinned pack skill

/-! ## Unload state by name -/

/-- No tick keeps the skill loaded. -/
def shouldSkillUnload (skill : Skill) (tick : Option TickState) : Bool :=
  match tick with
  | none => false
  | some tick =>
      let conditions := parseUnloadsWhen skill.unloadsWhen
      if conditions = [] then false else shouldUnload conditions tick

/-- What is persisted by name, after the event; a name that is not loaded is dropped. -/
def advanceSkillTicks (prev : String → Option TickState) (event : Event)
    (loadedSkillIds : List String) (reactivated : String → Bool) (id : String) :
    Option TickState :=
  if id ∈ loadedSkillIds then
    match prev id with
    | none => some (advanceTick createTick event)
    | some base => some (advanceTick (if reactivated id then createTick else base) event)
  else none

section

variable (regExp : RegExp) (minimatch : String → String → Bool) (event : Event)
  (prev : String → Option TickState)

/-- Is the name one of a skill whose load condition the event matches? -/
def isReactivated (dynamic : List Skill) (name : String) : Bool :=
  dynamic.any fun s => s.name = name &&
    matchesEvent regExp minimatch (parseWhenToLoad s.whenToLoad) event

/-- The names to skip. -/
def computeUnloadSkips (dynamic : List Skill) : List String :=
  let ticks := advanceSkillTicks prev event (dynamic.map (·.name))
    (isReactivated regExp minimatch event dynamic)
  (dynamic.filter fun s => shouldSkillUnload s (ticks s.name)).map (·.name)

variable {regExp minimatch event prev} {dynamic dynamic' : List Skill} {name : String}

theorem mem_computeUnloadSkips :
    name ∈ computeUnloadSkips regExp minimatch event prev dynamic ↔
      ∃ s ∈ dynamic, s.name = name ∧ shouldSkillUnload s (advanceSkillTicks prev event
        (dynamic.map (·.name)) (isReactivated regExp minimatch event dynamic) name) = true := by
  unfold computeUnloadSkips
  rw [List.mem_map]
  constructor
  · rintro ⟨s, mem, rfl⟩
    have kept := List.mem_filter.mp mem
    exact ⟨s, kept.1, rfl, kept.2⟩
  · rintro ⟨s, mem, rfl, fires⟩
    exact ⟨s, List.mem_filter.mpr ⟨mem, fires⟩, rfl⟩

theorem isReactivated_congr (same : ∀ s, s.name = name → (s ∈ dynamic ↔ s ∈ dynamic')) :
    isReactivated regExp minimatch event dynamic name =
      isReactivated regExp minimatch event dynamic' name := by
  rw [Bool.eq_iff_iff]
  simp only [isReactivated, List.any_eq_true, Bool.and_eq_true, decide_eq_true_eq]
  constructor
  · rintro ⟨s, mem, named, hit⟩
    exact ⟨s, (same s named).mp mem, named, hit⟩
  · rintro ⟨s, mem, named, hit⟩
    exact ⟨s, (same s named).mpr mem, named, hit⟩

theorem advanceSkillTicks_congr {ids ids' : List String} {reactivated reactivated' : String → Bool}
    (loaded : name ∈ ids ↔ name ∈ ids') (same : reactivated name = reactivated' name) :
    advanceSkillTicks prev event ids reactivated name =
      advanceSkillTicks prev event ids' reactivated' name := by
  simp only [advanceSkillTicks, loaded, same]

/-- Whether a name is skipped is up to the skills of that name. -/
theorem mem_computeUnloadSkips_congr (same : ∀ s, s.name = name → (s ∈ dynamic ↔ s ∈ dynamic')) :
    name ∈ computeUnloadSkips regExp minimatch event prev dynamic ↔
      name ∈ computeUnloadSkips regExp minimatch event prev dynamic' := by
  have loaded : name ∈ dynamic.map (·.name) ↔ name ∈ dynamic'.map (·.name) := by
    simp only [List.mem_map]
    exact ⟨fun ⟨s, mem, named⟩ => ⟨s, (same s named).mp mem, named⟩,
      fun ⟨s, mem, named⟩ => ⟨s, (same s named).mpr mem, named⟩⟩
  rw [mem_computeUnloadSkips, mem_computeUnloadSkips,
    advanceSkillTicks_congr loaded (isReactivated_congr same)]
  exact ⟨fun ⟨s, mem, named, fires⟩ => ⟨s, (same s named).mp mem, named, fires⟩,
    fun ⟨s, mem, named, fires⟩ => ⟨s, (same s named).mpr mem, named, fires⟩⟩

end

/-! ## Triggers, preconditions, lenses -/

/-- `/^(telegram|slack|discord):\/\//`, with the group. -/
def platformOf (channelUri : String) : Option String :=
  ["telegram", "slack", "discord"].find? fun platform =>
    (platform ++ "://").toList.isPrefixOf channelUri.toList

def inboundChannelTriggerMatches (regExp : RegExp) (trigger : Trigger)
    (channelUri sender : String) : Bool :=
  (trigger.channel.all fun channel => channel = "" || platformOf channelUri = some channel) &&
    trigger.senderPattern.all fun pattern => pattern = "" || (regExp pattern).any (· sender)

structure DispatchScopeCtx where
  inProject : Bool
  isUserSession : Bool
  deriving DecidableEq, Repr

def activationScopeApplies (scope : ActivationScope) (ctx : DispatchScopeCtx) : Bool :=
  match scope with
  | .project => ctx.inProject
  | .user => ctx.isUserSession
  | .hybrid => ctx.inProject && ctx.isUserSession
  | .team => false
  | .global => ctx.isUserSession

/-- The answers of the cache, which asks once a dispatch for each kind. -/
structure RequiresCache where
  automationModeOn : Bool
  activeTaskPresent : Bool
  deriving DecidableEq, Repr

def skillRequiresHold (preconds : List SkillRequires) (cache : RequiresCache) : Bool :=
  preconds.all fun
    | .automationModeOn => cache.automationModeOn
    | .activeTaskPresent => cache.activeTaskPresent

structure Facets where
  intent : String
  domain : Option String
  stakes : Option String
  deriving DecidableEq, Repr

def facetMap (f : Facets) (key : String) : Option String :=
  if key = "intent" then some f.intent
  else if key = "domain" then f.domain
  else if key = "stakes" then f.stakes
  else none

def segments (path : String) : List (List Char) :=
  if path = "" then [] else path.toList.splitOn '.'

/-- `path` is at or below the node. -/
def contains (node path : String) : Bool := (segments node).isPrefixOf (segments path)

/-- An axis that the turn has no value for does not count. -/
def blockMatches (block : ServesBlock) (fm : String → Option String) : Bool :=
  block.all fun (key, value) =>
    match fm key with
    | none => true
    | some turn =>
        if key ∈ ["domain", "lang", "framework"] then contains value turn else turn = value

def skillServesMatches (serves : List ServesBlock) (facets : Facets) : Bool :=
  serves.any fun block => blockMatches block (facetMap facets)

def skillServesDomainMatches (serves : List ServesBlock) (projectDomain : String) : Bool :=
  serves.any fun block => (block.lookup "domain").all (contains · projectDomain)

end Opensquid.Hooks
