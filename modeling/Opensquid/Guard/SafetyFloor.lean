import Opensquid.Guard.ReviewerGuard
import Opensquid.Lib.JsonFields

/-!
# The safety floor

A policy of forbidden actions, tested against the text of an action: the command of a
shell call, the path of a file call, the printed arguments of any other call.

The first forbidden action that a call matches decides, so the order of the list counts: a
hardline rule halts the call exactly if no dangerous rule that matches stands in front
(`halt_iff_hardline_first`). The shipped policy lists its hardline rules first.
-/

namespace Opensquid.Guard

open Opensquid.Lib

inductive SafetyTier
  | hardline
  | dangerous
  deriving DecidableEq, Repr

inductive SafetyMatch
  | pipeToShell
  | deleteVerb
  deriving DecidableEq, Repr

structure SafetyRule where
  id : Option String := none
  tool : Option String := none
  argPattern : String
  tier : SafetyTier
  message : String
  «match» : Option SafetyMatch := none
  deriving DecidableEq, Repr

structure AllowRule where
  tool : Option String := none
  argPattern : String
  deriving DecidableEq, Repr

structure SafetyPolicy where
  forbid : List SafetyRule := []
  allow : List AllowRule := []
  deriving DecidableEq, Repr

inductive SafetyAction
  | pass
  | warn
  | block
  | halt
  deriving DecidableEq, Repr

structure SafetyResult where
  action : SafetyAction
  message : Option String := none
  ruleId : Option String := none
  deriving DecidableEq, Repr

/-! ## The policy's schema -/

/-- `z.enum(['hardline', 'dangerous'])`. -/
def SafetyTier.ofString : String → Option SafetyTier
  | "hardline" => some .hardline
  | "dangerous" => some .dangerous
  | _ => none

/-- `z.enum(['pipe_to_shell', 'delete_verb'])`. -/
def SafetyMatch.ofString : String → Option SafetyMatch
  | "pipe_to_shell" => some .pipeToShell
  | "delete_verb" => some .deleteVerb
  | _ => none

/-- `z.string().min(1).optional()` under a key. -/
def optionalNonempty (fields : List (String × Json)) (key : String) : Option (Option String) :=
  match Json.field fields key with
  | none => some none
  | some _ => (Json.nonempty fields key).map some

def SafetyRule.parse : Json → Option SafetyRule
  | .obj fields => do
      guard (Json.strict ["id", "tool", "argPattern", "tier", "message", "match"] fields)
      let id ← optionalNonempty fields "id"
      let tool ← optionalNonempty fields "tool"
      let argPattern ← Json.nonempty fields "argPattern"
      let tier ← (Json.stringField fields "tier").bind SafetyTier.ofString
      let message ← Json.nonempty fields "message"
      let refinement ←
        match Json.field fields "match" with
        | none => some none
        | some j => ((Json.asString j).bind SafetyMatch.ofString).map some
      return { id, tool, argPattern, tier, message, «match» := refinement }
  | _ => none

def AllowRule.parse : Json → Option AllowRule
  | .obj fields => do
      guard (Json.strict ["tool", "argPattern"] fields)
      let tool ← optionalNonempty fields "tool"
      let argPattern ← Json.nonempty fields "argPattern"
      return { tool, argPattern }
  | _ => none

/-- `z.array(schema).default([])` under a key. -/
def arrayField {α : Type} (parse : Json → Option α) (fields : List (String × Json)) (key : String) :
    Option (List α) :=
  match Json.field fields key with
  | none => some []
  | some (.arr items) => items.mapM parse
  | some _ => none

def SafetyPolicy.parse : Json → Option SafetyPolicy
  | .obj fields => do
      guard (Json.strict ["forbid", "allow"] fields)
      let forbid ← arrayField SafetyRule.parse fields "forbid"
      let allow ← arrayField AllowRule.parse fields "allow"
      return { forbid, allow }
  | _ => none

/-! ## The action of a call -/

/-- What `call.args ?? {}` has under a key when it is a string; `null` is also no arguments. -/
def textArg (args : Json) (key : String) : String :=
  match args with
  | .obj fields => (Args.text fields key).getD ""
  | _ => ""

/-- `JSON.stringify(call.args ?? '')`. -/
def printArgs (args : Json) : List Char :=
  match args with
  | .null => Json.stringify (.str "")
  | args => Json.stringify args

/-- The text itself, or the printed arguments in its place when it is empty. -/
def textOrArgs (args : Json) (text : String) : List Char :=
  if text = "" then printArgs args else text.toList

/-- What the rules are matched against. -/
def actionText (tool : String) (args : Json) : List Char :=
  let action :=
    if tool = "Bash" then textOrArgs args (textArg args "command")
    else if toolMatches tool ["Write", "Edit", "NotebookEdit"] then
      (textArg args "file_path").toList
    else if tool = "Read" then textOrArgs args (textArg args "file_path")
    else printArgs args
  tool.toList ++ ' ' :: action

/-- `/\|\s*(sh|bash)\b/`. -/
def pipesToShell (hay : List Char) : Bool :=
  hay.tails.any fun rest =>
    rest.head? = some '|' &&
      let shell := rest.tail.dropWhile isSpace
      (['s', 'h'].isPrefixOf shell && wordEnds (shell.drop 2)) ||
        (['b', 'a', 's', 'h'].isPrefixOf shell && wordEnds (shell.drop 4))

/-- `/>>?\s*[^\s|;&<>]*\.opensquid/`. -/
def redirectsToSubstrate (hay : List Char) : Bool :=
  hay.tails.any fun rest =>
    rest.head? = some '>' && includes (String.ofList ((rest.tail.dropWhile isSpace).takeWhile fun c =>
      !isSpace c && c ∉ ['|', ';', '&', '<', '>'])) ".opensquid"

def deletes (hay : List Char) : Bool :=
  ["rm", "unlink", "shred", "truncate"].any (hasWord · hay) || redirectsToSubstrate hay

def SafetyMatch.holds : SafetyMatch → List Char → Bool
  | .pipeToShell => pipesToShell
  | .deleteVerb => deletes

/-- The rule is of this tool, or of any. -/
def ofTool (rule : Option String) (tool : String) : Bool := rule.all fun name => toolMatches tool [name]

def SafetyRule.applies (r : SafetyRule) (tool : String) (hay : List Char) : Bool :=
  ofTool r.tool tool && includes (String.ofList hay) r.argPattern && r.match.all (·.holds hay)

def AllowRule.applies (a : AllowRule) (tool : String) (hay : List Char) : Bool :=
  ofTool a.tool tool && includes (String.ofList hay) a.argPattern

/-- An explicitly permitted action. -/
def SafetyPolicy.allows (policy : SafetyPolicy) (tool : String) (args : Json) : Bool :=
  policy.allow.any (·.applies tool (actionText tool args))

/-- The rule is one of the tier and matches the call. -/
def SafetyRule.Denies (r : SafetyRule) (tier : SafetyTier) (tool : String) (args : Json) : Prop :=
  r.tier = tier ∧ r.applies tool (actionText tool args) = true

instance (r : SafetyRule) (tier : SafetyTier) (tool : String) (args : Json) :
    Decidable (r.Denies tier tool args) := inferInstanceAs (Decidable (_ ∧ _))

/-- The first rule that applies decides. -/
def checkSafety (tool : String) (args : Json) (policy : SafetyPolicy) (dangerousToWarn : Bool) :
    SafetyResult :=
  if policy.allows tool args then { action := .pass }
  else
    match policy.forbid.find? (·.applies tool (actionText tool args)) with
    | none => { action := .pass }
    | some r =>
        let ruleId := r.id.getD r.argPattern
        match r.tier with
        | .hardline => { action := .halt, message := some r.message, ruleId := some ruleId }
        | .dangerous =>
            { action := if dangerousToWarn then .warn else .block
              message := some r.message, ruleId := some ruleId }

/-! ## Which rule decides -/

/-- A hardline rule denies the call, and no dangerous rule in front of it does. -/
def HardlineFirst (forbid : List SafetyRule) (tool : String) (args : Json) : Prop :=
  ∃ before r after, forbid = before ++ r :: after ∧ r.Denies .hardline tool args ∧
    ∀ s ∈ before, ¬ s.Denies .dangerous tool args

variable {policy : SafetyPolicy} {tool : String} {args : Json} {r : SafetyRule}

theorem checkSafety_of_find (notAllowed : policy.allows tool args = false)
    (found : policy.forbid.find? (·.applies tool (actionText tool args)) = some r)
    (dangerousToWarn : Bool) :
    (checkSafety tool args policy dangerousToWarn).action = .halt ↔ r.tier = .hardline := by
  unfold checkSafety
  rw [notAllowed, found]
  cases tier : r.tier with
  | hardline => simp [tier]
  | dangerous => cases dangerousToWarn <;> simp [tier]

theorem exists_find_of_denies (listed : r ∈ policy.forbid) {tier : SafetyTier}
    (denies : r.Denies tier tool args) :
    ∃ first, policy.forbid.find? (·.applies tool (actionText tool args)) = some first := by
  apply Option.isSome_iff_exists.mp
  rw [List.find?_isSome]
  exact ⟨r, listed, denies.2⟩

theorem hardlineFirst_iff_find
    (found : policy.forbid.find? (·.applies tool (actionText tool args)) = some r) :
    HardlineFirst policy.forbid tool args ↔ r.tier = .hardline := by
  constructor
  · intro ⟨before, h, after, split, ⟨hardline, applies⟩, free⟩
    rw [split, List.find?_append, List.find?_cons, applies] at found
    cases early : before.find? (·.applies tool (actionText tool args)) with
    | none =>
        rw [early, Option.none_or] at found
        cases found
        exact hardline
    | some s =>
        rw [early, Option.some_or] at found
        cases found
        have hit := List.find?_some early
        cases tier : r.tier with
        | hardline => rfl
        | dangerous => exact absurd ⟨tier, hit⟩ (free r (List.mem_of_find?_eq_some early))
  · intro hardline
    obtain ⟨applies, before, after, split, free⟩ := List.find?_eq_some_iff_append.mp found
    refine ⟨before, r, after, split, ⟨hardline, applies⟩, ?_⟩
    intro s mem denies
    have missed := free s mem
    rw [denies.2] at missed
    cases missed

/-- A hardline rule that denies the call halts it, whatever the options, if and only if one of them
stands in front of every dangerous rule that denies the call. -/
theorem halt_iff_hardline_first (notAllowed : policy.allows tool args = false)
    (denied : ∃ r ∈ policy.forbid, r.Denies .hardline tool args) (dangerousToWarn : Bool) :
    (checkSafety tool args policy dangerousToWarn).action = .halt ↔
      HardlineFirst policy.forbid tool args := by
  obtain ⟨r, listed, denies⟩ := denied
  obtain ⟨first, found⟩ := exists_find_of_denies listed denies
  rw [checkSafety_of_find notAllowed found, hardlineFirst_iff_find found]

/-- A hardline rule without a dangerous one in front is never outranked. -/
theorem hardlineFirst_of_sorted {forbid : List SafetyRule}
    (sorted : forbid.Pairwise fun r s => s.tier = .hardline → r.tier = .hardline)
    (listed : r ∈ forbid) (denies : r.Denies .hardline tool args) : HardlineFirst forbid tool args := by
  obtain ⟨before, after, rfl⟩ := List.append_of_mem listed
  refine ⟨before, r, after, rfl, denies, ?_⟩
  intro s mem dangerous
  have hardline := (List.pairwise_append.mp sorted).2.2 s mem r List.mem_cons_self denies.1
  rw [dangerous.1] at hardline
  cases hardline

/-! ## The shipped policy -/

/-- `DEFAULT_SAFETY_POLICY`: the hardline rules stand before the broad dangerous ones. -/
def defaultSafetyPolicy : SafetyPolicy where
  allow :=
    [{ tool := some "Write", argPattern := "/.opensquid/context.md" },
     { tool := some "Edit", argPattern := "/.opensquid/context.md" }]
  forbid :=
    [{ id := some "rm-rf-root", tool := some "Bash", argPattern := "rm -rf /", tier := .hardline
       message := "recursive root delete is forbidden" },
     { id := some "rm-rf-home", tool := some "Bash", argPattern := "rm -rf ~", tier := .hardline
       message := "recursive home delete is forbidden" },
     { id := some "substrate-env-write", tool := some "Write", argPattern := ".opensquid/.env"
       tier := .hardline, message := "writing the opensquid secret store (.env) is forbidden" },
     { id := some "substrate-env-edit", tool := some "Edit", argPattern := ".opensquid/.env"
       tier := .hardline, message := "editing the opensquid secret store (.env) is forbidden" },
     { id := some "substrate-env-exfil", tool := some "Bash", argPattern := ".opensquid/.env"
       tier := .hardline
       message := "exfiltrating the opensquid secret store via a shell is forbidden" },
     { id := some "substrate-delete", tool := some "Bash", argPattern := ".opensquid/"
       tier := .hardline, «match» := some .deleteVerb
       message := "deleting opensquid substrate state is forbidden" },
     { id := some "substrate-write", tool := some "Write", argPattern := "/.opensquid/"
       tier := .dangerous, message := "writing opensquid substrate state" },
     { id := some "substrate-edit", tool := some "Edit", argPattern := "/.opensquid/"
       tier := .dangerous, message := "editing opensquid substrate state" },
     { id := some "chmod-777", tool := some "Bash", argPattern := "chmod 777", tier := .dangerous
       message := "world-writable chmod is dangerous" },
     { id := some "pipe-to-shell", tool := some "Bash", argPattern := "curl", tier := .dangerous
       «match» := some .pipeToShell, message := "piping a remote script to a shell is dangerous" }]

/-- What `JSON.parse` makes of the file, if there is one that it can read. -/
def loadSafetyPolicy (file : Option Json) : SafetyPolicy :=
  (file.bind SafetyPolicy.parse).getD defaultSafetyPolicy

/-- No call outranks a hardline rule of the shipped policy. -/
theorem default_hardlineFirst (listed : r ∈ defaultSafetyPolicy.forbid)
    (denies : r.Denies .hardline tool args) : HardlineFirst defaultSafetyPolicy.forbid tool args :=
  hardlineFirst_of_sorted (by decide) listed denies

theorem default_halts_root_delete :
    (checkSafety "Bash" (.obj [("command", .str "rm -rf /")]) defaultSafetyPolicy true).action =
      .halt :=
  (halt_iff_hardline_first (by decide +kernel) ⟨_, List.mem_cons_self, by decide +kernel⟩ true).mpr
    (default_hardlineFirst List.mem_cons_self (by decide +kernel))

/-- The shipped rule for recursive deletes behind a broader dangerous one. -/
def outrankedPolicy : Json :=
  .obj [("forbid", .arr
    [.obj [("argPattern", .str "rm"), ("tier", .str "dangerous"), ("message", .str "deleting is dangerous")],
     .obj [("tool", .str "Bash"), ("argPattern", .str "rm -rf /"), ("tier", .str "hardline"),
       ("message", .str "recursive root delete is forbidden")]])]

/-- The schema accepts the policy, its hardline rule matches the call, and the call goes on with a
warning. -/
theorem dangerous_outranks_hardline :
    ∃ policy, SafetyPolicy.parse outrankedPolicy = some policy ∧
      loadSafetyPolicy (some outrankedPolicy) = policy ∧
      policy.allows "Bash" (.obj [("command", .str "rm -rf /")]) = false ∧
      (∃ r ∈ policy.forbid, r.Denies .hardline "Bash" (.obj [("command", .str "rm -rf /")])) ∧
      (checkSafety "Bash" (.obj [("command", .str "rm -rf /")]) policy true).action = .warn ∧
      (checkSafety "Bash" (.obj [("command", .str "rm -rf /")]) policy false).action = .block :=
  ⟨_, rfl, rfl, by decide +kernel⟩

end Opensquid.Guard
