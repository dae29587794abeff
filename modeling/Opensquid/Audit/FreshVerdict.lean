import Mathlib.Data.List.Dedup
import Mathlib.Data.List.Perm.Subperm
import Opensquid.Audit.Succeeded
import Opensquid.Durable.Evaluator
import Opensquid.Lib.Replacement

/-!
# Reading an audit as fresh

A rule of a pack audits an artifact by a `cached_audit` step with several lenses. The guards read
the verdict again from what that step has stored, if it is about the artifact's present text and
was asked for by the present prompts. So both sides render the templates of the rule and hash what
they get: the evaluator and `cached_audit` when they write (`interpolateArgs_stepArgs`),
`readAuditPolicy` and `readFreshAuditVerdict` when they read.

`freshly_read_iff`: over every history of audits, the reader returns the verdict of an audit that
has just succeeded, and nothing that no such audit has earned, just if the text that it hashes for
each lens is the policy text that the writer hashes. The writer hashes a JSON text with the prompt
in it, the reader hashes the prompt. So where both render a lens alike, this is not so.
-/

namespace Opensquid.Audit

open Opensquid.Lib Utf16 Opensquid.Subagents
open Opensquid.Durable (Value Bindings Engine ProcessStep interpolateValue interpolateItems
  interpolateFields interpolateArgs replaceTemplates stringifyBinding resolveBindingPath)

/-! ## The rule as it is written -/

/-- The `cached_audit` step of a rule. Its texts are templates. -/
structure AuditRule where
  cacheKey : String
  model : String
  lenses : List AuditLens
  subject : String
  passVerdict : Option String := none
  failVerdict : Option String := none
  timeoutMs : Option Nat := none

def optionalValue {α : Type} (key : String) (value : α → Value) (given : Option α) :
    List (String × Value) :=
  (given.map fun a => (key, value a)).toList

def lensValue (lens : AuditLens) : Value :=
  .obj (optionalValue "criteria" (fun criteria => .arr (criteria.map .str)) lens.criteria ++
    [("id", .str lens.id), ("prompt", .str lens.prompt)])

/-- The step's `args`. -/
def AuditRule.stepArgs (rule : AuditRule) : List (String × Value) :=
  [("cache_key", .str rule.cacheKey)] ++ optionalValue "fail_verdict" .str rule.failVerdict ++
    [("lenses", .arr (rule.lenses.map lensValue)), ("model", .str rule.model)] ++
    optionalValue "pass_verdict" .str rule.passVerdict ++ [("subject", .str rule.subject)] ++
    optionalValue "timeout_ms" (fun ms => .num ms) rule.timeoutMs

/-- What the schema of `cached_audit` reads from such arguments. -/
def AuditRule.args (rule : AuditRule) : CachedAuditArgs where
  model := rule.model
  reviews := .fanout rule.lenses
  passVerdict := rule.passVerdict.getD "GUESS_FREE"
  failVerdict := rule.failVerdict.getD "UNRESOLVED"
  timeoutMs := rule.timeoutMs
  subject := some rule.subject

def AuditLens.render (rendered : String → String) (lens : AuditLens) : AuditLens where
  id := rendered lens.id
  prompt := rendered lens.prompt
  criteria := lens.criteria.map (·.map rendered)

def AuditRule.render (rendered : String → String) (rule : AuditRule) : AuditRule where
  cacheKey := rendered rule.cacheKey
  model := rendered rule.model
  lenses := rule.lenses.map (AuditLens.render rendered)
  subject := rendered rule.subject
  passVerdict := rule.passVerdict.map rendered
  failVerdict := rule.failVerdict.map rendered
  timeoutMs := rule.timeoutMs

section

variable {ρ : Type} (engine : Engine ρ) (bindings : Bindings ρ)

/-- A template with the bindings put in. -/
def rendering (template : String) : String :=
  String.ofList (replaceTemplates
    (fun name => stringifyBinding engine (resolveBindingPath name (engine.contentsOf bindings)))
    template.toList.length template.toList)

theorem interpolateItems_map {α : Type} (value value' : α → Value)
    (each : ∀ a, interpolateValue engine bindings (value a) = value' a) (items : List α) :
    interpolateItems engine bindings (items.map value) = items.map value' := by
  induction items with
  | nil => rw [List.map_nil, interpolateItems, List.map_nil]
  | cons a items ih => rw [List.map_cons, interpolateItems, each, ih, List.map_cons]

theorem interpolateFields_append (fields more : List (String × Value)) :
    interpolateFields engine bindings (fields ++ more) =
      interpolateFields engine bindings fields ++ interpolateFields engine bindings more := by
  induction fields with
  | nil => rw [interpolateFields, List.nil_append, List.nil_append]
  | cons field fields ih =>
      obtain ⟨key, value⟩ := field
      rw [List.cons_append, interpolateFields, interpolateFields, ih]
      split
      · rfl
      · rfl

theorem interpolateValue_str (text : String) :
    interpolateValue engine bindings (.str text) = .str (rendering engine bindings text) := by
  rw [interpolateValue]
  rfl

theorem interpolateFields_optional {α : Type} {key : String} (ordinary : key ≠ "__proto__")
    (value : α → Value) (given : Option α) (change : α → α)
    (each : ∀ a, interpolateValue engine bindings (value a) = value (change a)) :
    interpolateFields engine bindings (optionalValue key value given) =
      optionalValue key value (given.map change) := by
  cases given with
  | none =>
      change interpolateFields engine bindings [] = []
      rw [interpolateFields]
  | some a =>
      change interpolateFields engine bindings [(key, value a)] = [(key, value (change a))]
      rw [interpolateFields, if_neg ordinary, each, interpolateFields]

theorem interpolateValue_lens (lens : AuditLens) :
    interpolateValue engine bindings (lensValue lens) =
      lensValue (lens.render (rendering engine bindings)) := by
  rw [lensValue, interpolateValue, interpolateFields_append,
    interpolateFields_optional engine bindings (by decide) _ _
      (List.map (rendering engine bindings)) fun criteria => ?_]
  · rw [interpolateFields, if_neg (by decide), interpolateFields, if_neg (by decide),
      interpolateFields, interpolateValue_str, interpolateValue_str]
    rfl
  · rw [interpolateValue, interpolateItems_map engine bindings _ _
      (interpolateValue_str engine bindings), List.map_map]
    rfl

/-- The evaluator calls `cached_audit` with the arguments of the rendered rule. -/
theorem interpolateArgs_stepArgs (rule : AuditRule) :
    interpolateArgs engine bindings rule.stepArgs =
      .obj (rule.render (rendering engine bindings)).stepArgs := by
  rw [interpolateArgs, interpolateValue, AuditRule.stepArgs]
  simp only [interpolateFields_append]
  rw [interpolateFields_optional engine bindings (by decide) _ _ (rendering engine bindings)
      (interpolateValue_str engine bindings),
    interpolateFields_optional engine bindings (by decide) _ _ (rendering engine bindings)
      (interpolateValue_str engine bindings),
    interpolateFields_optional engine bindings (by decide) _ _ id fun ms => by
      rw [interpolateValue]
      rfl]
  simp only [interpolateFields, if_neg (show ¬ "cache_key" = "__proto__" by decide),
    if_neg (show ¬ "lenses" = "__proto__" by decide),
    if_neg (show ¬ "model" = "__proto__" by decide),
    if_neg (show ¬ "subject" = "__proto__" by decide), interpolateValue,
    interpolateItems_map engine bindings _ _ (interpolateValue_lens engine bindings), Option.map_id]
  rw [AuditRule.stepArgs]
  simp only [AuditRule.render, List.map_map]
  rfl

end

/-! ## The reader -/

structure AuditBinding where
  rule : String
  rubric : String

/-- A rule of a pack's skill; not every rule has a process. -/
structure PackRule where
  id : String
  process : Option (List ProcessStep) := none

structure LensTemplate where
  id : String
  promptTemplate : String
  deriving DecidableEq

structure ScopeAuditPolicy where
  lenses : List LensTemplate
  rubric : String

def lensTemplate (value : Value) : Option LensTemplate :=
  match value.textField "id", value.textField "prompt" with
  | some id, some prompt => some ⟨id, prompt⟩
  | _, _ => none

/-- The lenses of the first `cached_audit` step, if all are well formed and differ in their ids. -/
def declaredLenses (rule : PackRule) : Option (List LensTemplate) :=
  let step := (rule.process.getD []).find? fun step => step.call = "cached_audit"
  match step.bind fun step => step.args.bind (Value.get "lenses") with
  | some (.arr values) =>
      let lenses := values.filterMap lensTemplate
      if lenses.length ≠ values.length ∨ ¬ (lenses.map LensTemplate.id).Nodup then none
      else some lenses
  | _ => none

/-- `undefined` where no rule is bound, `null` where it has no policy that can be read. -/
def readAuditPolicy (rubrics : String → Option String) (skills : List (List PackRule))
    (binding : AuditBinding) : Option (Option ScopeAuditPolicy) :=
  (skills.flatten.find? fun rule => rule.id = binding.rule ∧ rule.process.isSome).map fun rule =>
    (declaredLenses rule).bind fun lenses =>
      (rubrics binding.rubric).map fun rubric => ⟨lenses, rubric⟩

/-- The text that the reader hashes for a lens. -/
def expectedText (rubric artifact template : String) : List Char :=
  replaceAll "\x7b\x7beffective\x7d\x7d".toList artifact.toList
    (replaceAll "\x7b\x7brubric\x7d\x7d".toList rubric.toList template.toList)

def scopeAuditExpectedLenses (sha : Sha256) (artifact : String) (policy : ScopeAuditPolicy) :
    List AuditCacheLens :=
  policy.lenses.map fun lens => ⟨lens.id,
    sha.hex (expectedText policy.rubric artifact lens.promptTemplate)⟩

structure ScopeAuditEntry where
  verdict : Text
  subjectHash : Option String
  complete : Option Bool
  lenses : Option (List AuditCacheLens)

/-- `new Map(lenses).get(id)`: the last of an id counts. -/
def hashOf (lenses : List AuditCacheLens) (id : String) : Option String :=
  (lenses.reverse.find? fun lens => lens.id = id).map AuditCacheLens.promptHash

def certifiesLenses (entry : ScopeAuditEntry) (expected : List AuditCacheLens) : Bool :=
  entry.complete = some true && entry.lenses.any fun lenses =>
    lenses.length = expected.length &&
      (lenses.map AuditCacheLens.id).dedup.length = expected.length &&
      expected.all fun lens => hashOf lenses lens.id = some lens.promptHash

def auditEntryCertifiesSubject (entry : ScopeAuditEntry) (currentHash : String)
    (expected : Option (List AuditCacheLens)) : Bool :=
  entry.subjectHash = some currentHash && expected.all (certifiesLenses entry)

def asTaskAuditEntry (entry : AuditEvidenceEntry) : Option ScopeAuditEntry :=
  (deriveAuditEvidenceVerdict entry).map fun verdict =>
    match entry.outcome with
    | .verdict _ => ⟨verdict, entry.subjectHash, none, none⟩
    | .fanout complete lenses _ _ _ =>
        ⟨verdict, entry.subjectHash, some complete, some (lenses.map AuditLensVerdict.key)⟩

/-- The latest evidence and the newest attempts; nothing where the store cannot be read. -/
def candidates (audits : Option TaskAudits) : List ScopeAuditEntry :=
  match audits with
  | none => []
  | some audits => (audits.latest.toList ++ audits.history.take 20).filterMap asTaskAuditEntry

/-- The artifact is what its file holds now, if it can be read, and the audits are those that the
task has under the key of the binding. -/
def readFreshAuditVerdict (sha : Sha256) (artifact : Option String)
    (policy : Option (Option ScopeAuditPolicy)) (audits : Option TaskAudits) : Option Text :=
  match policy, artifact with
  | some none, _ => none
  | _, none => none
  | none, some artifact =>
      ((candidates audits).find? fun entry =>
        auditEntryCertifiesSubject entry (sha.hex artifact.toList) none).map ScopeAuditEntry.verdict
  | some (some policy), some artifact =>
      ((candidates audits).find? fun entry =>
        auditEntryCertifiesSubject entry (sha.hex artifact.toList)
          (some (scopeAuditExpectedLenses sha artifact policy))).map ScopeAuditEntry.verdict

/-! ## The policy of a rule -/

/-- The rule that is bound audits with this step. -/
def Declares (skills : List (List PackRule)) (binding : AuditBinding) (rule : AuditRule) : Prop :=
  ∃ packRule step,
    skills.flatten.find? (fun rule => rule.id = binding.rule ∧ rule.process.isSome) =
      some packRule ∧
    (packRule.process.getD []).find? (fun step => step.call = "cached_audit") = some step ∧
    step.args = some rule.stepArgs

theorem get_lenses (rule : AuditRule) :
    Value.get "lenses" rule.stepArgs = some (.arr (rule.lenses.map lensValue)) := by
  rw [AuditRule.stepArgs]
  cases rule.failVerdict with
  | none => simp [optionalValue, Value.get]
  | some token => simp [optionalValue, Value.get]

theorem lensTemplate_lensValue (lens : AuditLens) :
    lensTemplate (lensValue lens) = some ⟨lens.id, lens.prompt⟩ := by
  rw [lensValue]
  cases lens.criteria with
  | none => simp [optionalValue, lensTemplate, Value.textField, Value.field, Value.get, Value.text]
  | some criteria =>
      simp [optionalValue, lensTemplate, Value.textField, Value.field, Value.get, Value.text]

def templates (rule : AuditRule) : List LensTemplate :=
  rule.lenses.map fun lens => ⟨lens.id, lens.prompt⟩

/-- The policy has the rule's ids and prompts, as they are written. -/
theorem readAuditPolicy_eq {skills : List (List PackRule)} {binding : AuditBinding}
    {rule : AuditRule} {rubrics : String → Option String} {rubric : String}
    (declared : Declares skills binding rule) (nodup : (rule.lenses.map AuditLens.id).Nodup)
    (read : rubrics binding.rubric = some rubric) :
    readAuditPolicy rubrics skills binding = some (some ⟨templates rule, rubric⟩) := by
  obtain ⟨packRule, step, found, first, args⟩ := declared
  have listed : (rule.lenses.map lensValue).filterMap lensTemplate = templates rule := by
    have each : lensTemplate ∘ lensValue =
        some ∘ fun lens : AuditLens => (⟨lens.id, lens.prompt⟩ : LensTemplate) :=
      funext lensTemplate_lensValue
    rw [List.filterMap_map, each, List.filterMap_eq_map, templates]
  have whole : ¬ ((templates rule).length ≠ (rule.lenses.map lensValue).length ∨
      ¬ ((templates rule).map LensTemplate.id).Nodup) := by
    rw [templates, List.length_map, List.length_map, List.map_map]
    exact not_or.mpr ⟨not_not.mpr rfl, not_not.mpr nodup⟩
  have lenses : declaredLenses packRule = some (templates rule) := by
    rw [declaredLenses, first]
    simp only [Option.bind_some, args, get_lenses, listed]
    exact if_neg whole
  rw [readAuditPolicy, found, Option.map_some, lenses, Option.bind_some, read]
  rfl

/-! ## Certificates -/

section

variable {entry : AuditEvidenceEntry} {expected : List AuditCacheLens} {currentHash : String}

/-- A certificate has every lens that is expected, and no more. -/
theorem lenses_of_certifies {entry : ScopeAuditEntry}
    (certifies : auditEntryCertifiesSubject entry currentHash (some expected) = true) :
    entry.subjectHash = some currentHash ∧ entry.complete = some true ∧
      ∃ lenses, entry.lenses = some lenses ∧ lenses.length = expected.length ∧
        ∀ lens ∈ expected, lens ∈ lenses := by
  obtain ⟨subject, lenses⟩ := (Bool.and_eq_true _ _).mp certifies
  obtain ⟨complete, lenses⟩ := (Bool.and_eq_true _ _).mp lenses
  obtain ⟨lenses, there, same⟩ := (Option.any_eq_true _ _).mp lenses
  obtain ⟨counted, all⟩ := (Bool.and_eq_true _ _).mp same
  obtain ⟨length, -⟩ := (Bool.and_eq_true _ _).mp counted
  refine ⟨of_decide_eq_true subject, of_decide_eq_true complete, lenses, there,
    of_decide_eq_true length, fun lens mem => ?_⟩
  obtain ⟨found, search, hash⟩ :=
    Option.map_eq_some_iff.mp (of_decide_eq_true (List.all_eq_true.mp all lens mem))
  have id := List.find?_some search
  have inside := List.mem_reverse.mp (List.mem_of_find?_eq_some search)
  have same : found = lens := by
    cases found
    cases lens
    cases of_decide_eq_true id
    cases hash
    rfl
  exact same ▸ inside

theorem hashOf_of_mem {lenses : List AuditCacheLens} (nodup : (lenses.map AuditCacheLens.id).Nodup)
    {lens : AuditCacheLens} (mem : lens ∈ lenses) :
    hashOf lenses lens.id = some lens.promptHash := by
  have found : (lenses.reverse.find? fun other => other.id = lens.id).isSome = true :=
    List.find?_isSome.mpr ⟨lens, List.mem_reverse.mpr mem, decide_eq_true rfl⟩
  obtain ⟨other, search⟩ := Option.isSome_iff_exists.mp found
  have id := List.find?_some search
  have inside := List.mem_reverse.mp (List.mem_of_find?_eq_some search)
  have same := List.inj_on_of_nodup_map nodup inside mem (of_decide_eq_true id)
  rw [hashOf, search, Option.map_some, same]

/-- Complete evidence of the subject with just these lenses is a certificate. -/
theorem certifies_of_keys {entry : ScopeAuditEntry} (subject : entry.subjectHash = some currentHash)
    (complete : entry.complete = some true) (lenses : entry.lenses = some expected)
    (nodup : (expected.map AuditCacheLens.id).Nodup) :
    auditEntryCertifiesSubject entry currentHash (some expected) = true := by
  refine (Bool.and_eq_true _ _).mpr ⟨decide_eq_true subject, ?_⟩
  refine (Bool.and_eq_true _ _).mpr ⟨decide_eq_true complete, ?_⟩
  refine (Option.any_eq_true _ _).mpr ⟨expected, lenses, ?_⟩
  refine (Bool.and_eq_true _ _).mpr ⟨(Bool.and_eq_true _ _).mpr ⟨decide_eq_true rfl, ?_⟩, ?_⟩
  · rw [nodup.dedup, List.length_map]
    exact decide_eq_true rfl
  · exact List.all_eq_true.mpr fun lens mem => decide_eq_true (hashOf_of_mem nodup mem)

theorem mem_candidates {audits : TaskAudits} {read : ScopeAuditEntry}
    (mem : read ∈ candidates (some audits)) :
    ∃ entry ∈ audits.entries, asTaskAuditEntry entry = some read := by
  obtain ⟨entry, known, same⟩ := List.mem_filterMap.mp mem
  refine ⟨entry, ?_, same⟩
  rcases List.mem_append.mp known with latest | history
  · exact List.mem_append_left _ latest
  · exact List.mem_append_right _ (List.mem_of_mem_take history)

end

/-- What complete evidence reads as. -/
theorem asTaskAuditEntry_of_succeeded {sha : Sha256} {args : CachedAuditArgs}
    {lenses : List AuditLens} {entry : AuditEvidenceEntry} {text : Text}
    (succeeded : Succeeded sha args lenses entry text) :
    asTaskAuditEntry entry =
      some ⟨text, subjectHash sha args, some true, some (lenses.map (policyKey sha args))⟩ := by
  obtain ⟨found, failures, pass, fail, outcome⟩ := succeeded.complete
  have keys := succeeded.keys
  rw [AuditEvidenceEntry.lenses, outcome] at keys
  rw [asTaskAuditEntry, succeeded.verdict, Option.map_some, outcome, ← succeeded.subject, ← keys]

/-- Evidence that reads as complete is so. -/
theorem complete_of_read {entry : AuditEvidenceEntry} {read : ScopeAuditEntry}
    (same : asTaskAuditEntry entry = some read) (complete : read.complete = some true) :
    ∃ found failures pass fail, entry.outcome = .fanout true found failures pass fail := by
  obtain ⟨verdict, -, rfl⟩ := Option.map_eq_some_iff.mp same
  cases outcome : entry.outcome with
  | verdict text =>
      rw [outcome] at complete
      cases complete
  | fanout whole found failures pass fail =>
      rw [outcome] at complete
      cases complete
      exact ⟨found, failures, pass, fail, rfl⟩

/-! ## Writer and reader -/

/-- The same audit: what is declared agrees, but for the order of the lenses. -/
structure SameAudit (args args' : CachedAuditArgs) : Prop where
  policy : SamePolicy args args'
  subject : args.subject = args'.subject
  lenses : ∃ lenses lenses', args.reviews = .fanout lenses ∧ args'.reviews = .fanout lenses' ∧
    lenses.Perm lenses'

/-- Whatever audits have been called for: what an audit returns is read as the verdict of its
subject from then on, and what is read has been returned by an audit of that subject under these
lenses. -/
structure FreshlyRead (sha : Sha256) (policy : Option (Option ScopeAuditPolicy))
    (args : CachedAuditArgs) (artifact : String) : Prop where
  current : ∀ (history : List AuditCall) (call : AuditCall) (text : Text), call.args = args →
    (cachedAudit sha call (runAudits sha history).audits).result = .ok text →
    readFreshAuditVerdict sha (some artifact) policy
      (some (runAudits sha (history ++ [call])).audits) = some text
  earned : ∀ (history : List AuditCall) (text : Text),
    sha.Distinguishes (hashedTexts sha (args :: history.map AuditCall.args)) →
    readFreshAuditVerdict sha (some artifact) policy (some (runAudits sha history).audits) =
      some text →
    ∃ before call after, history = before ++ call :: after ∧ SameAudit call.args args ∧
      (cachedAudit sha call (runAudits sha before).audits).result = .ok text

/-- The reader hashes for a lens what the writer does. -/
def SameText (rubric : String) (rendered : String → String) (rule : AuditRule)
    (lens : AuditLens) : Prop :=
  rendered lens.id = lens.id ∧
    expectedText rubric (rendered rule.subject) lens.prompt =
      policyText (rule.render rendered).args (lens.render rendered)

theorem replaceTemplates_of_not_mem (substitute : String → String) {n : Nat} {text : List Char}
    (plain : '\x7b' ∉ text) (enough : text.length ≤ n) :
    replaceTemplates substitute n text = text := by
  induction n generalizing text with
  | zero =>
      rw [List.eq_nil_of_length_eq_zero (Nat.le_zero.mp enough)]
      rfl
  | succ n ih =>
      cases text with
      | nil => rfl
      | cons c rest =>
          rw [List.mem_cons, not_or] at plain
          have none : Durable.templateAt (c :: rest) = none := by
            unfold Durable.templateAt
            split
            · rename_i same
              injection same with same
              exact absurd same.symm plain.1
            · rfl
          rw [replaceTemplates, none]
          dsimp only
          rw [ih plain.2 (Nat.le_of_succ_le_succ enough)]

theorem not_mem_of_isAuditLensId {id : String} (valid : isAuditLensId id = true) :
    '\x7b' ∉ id.toList := by
  unfold isAuditLensId at valid
  split at valid
  · cases valid
  · rename_i c rest same
    simp only [Bool.and_eq_true] at valid
    rw [same]
    intro mem
    rcases List.mem_cons.mp mem with rfl | mem
    · exact absurd valid.1.1 (by decide)
    · exact absurd (List.all_eq_true.mp valid.2 _ mem) (by decide)

theorem length_prompt_lt (args : CachedAuditArgs) (lens : AuditLens) :
    lens.prompt.toList.length < (policyText args lens).length := by
  have inner := Json.length_le_length_quote lens.prompt
  simp only [policyText, policyJson, List.cons_append, List.nil_append, Json.stringify,
    Json.moreFields, List.length_cons, List.length_append]
  omega

section

variable {sha : Sha256} {ρ : Type} {engine : Engine ρ} {bindings : Bindings ρ} {rule : AuditRule}
  {rubric : String} {rendered : String → String}

theorem rendering_of_not_mem {template : String} (plain : '\x7b' ∉ template.toList) :
    rendering engine bindings template = template := by
  rw [rendering, replaceTemplates_of_not_mem _ plain (Nat.le_refl _), String.ofList_toList]

theorem lensSet_of_valid (valid : (rule.render rendered).args.Valid) :
    AuditLensSet (rule.lenses.map (AuditLens.render rendered)) := valid.2.1

/-- Ids that differ when they are rendered differ as they are written. -/
theorem nodup_of_valid (valid : (rule.render rendered).args.Valid) :
    (rule.lenses.map AuditLens.id).Nodup := by
  have nodup := (lensSet_of_valid valid).2.2.2
  rw [List.map_map] at nodup
  have composed : AuditLens.id ∘ AuditLens.render rendered = rendered ∘ AuditLens.id := rfl
  rw [composed, ← List.map_map] at nodup
  exact nodup.of_map

theorem expected_eq (artifact : String) :
    scopeAuditExpectedLenses sha artifact ⟨templates rule, rubric⟩ = rule.lenses.map fun lens =>
      ⟨lens.id, sha.hex (expectedText rubric artifact lens.prompt)⟩ := by
  rw [scopeAuditExpectedLenses, templates, List.map_map]
  rfl

/-- Where reader and writer hash the same texts, the reader expects the policies of the lenses. -/
theorem expected_of_sameText (same : ∀ lens ∈ rule.lenses, SameText rubric rendered rule lens) :
    scopeAuditExpectedLenses sha (rendered rule.subject) ⟨templates rule, rubric⟩ =
      (rule.lenses.map (AuditLens.render rendered)).map
        (policyKey sha (rule.render rendered).args) := by
  rw [expected_eq, List.map_map]
  refine List.map_congr_left fun lens mem => ?_
  obtain ⟨id, text⟩ := same lens mem
  rw [Function.comp_apply, policyKey, auditLensPolicyHash, ← text]
  exact congrArg (AuditCacheLens.mk · _) id.symm

end

/-! ## When writer and reader agree -/

/-- An audit that passes where everything works. -/
def passingCall (args : CachedAuditArgs) (valid : args.Valid) : AuditCall where
  args := args
  valid := valid
  env := { call := fun _ => .ok (verdictText args.passVerdict) }

theorem hasVerdict_verdictText (token : String) : hasVerdict (verdictText token) = true := by
  have label : txt "VERDICT: " = txt "VERDICT:" ++ [32] := by decide
  have start : txt "VERDICT:" <+: verdictText token := by
    rw [verdictText, label, List.append_assoc]
    exact List.prefix_append _ _
  exact decide_eq_true start.isInfix

/-- The first audit of a task succeeds where everything works. -/
theorem passingCall_ok {sha : Sha256} {args : CachedAuditArgs} (valid : args.Valid)
    {lenses : List AuditLens} (fans : args.reviews = .fanout lenses) : ∃ text,
    (cachedAudit sha (passingCall args valid) (runAudits sha []).audits).result = .ok text := by
  rw [@cachedAudit_of_fanout _ (passingCall args valid) lenses _ fans]
  rcases fanoutAudit_cases sha (passingCall args valid).env (passingCall args valid).args lenses
      (runAudits sha []).audits with ⟨-, invalid⟩ | ⟨entry, found, pass, fail, hit⟩ | stored
  · have set := @lensSet_of_fanout (passingCall args valid) lenses fans
    exact absurd (fanoutEntry_valid valid.tokens set (authorized_valid []))
      (invalid (works_of_call _) (authorized_valid []))
  · exact ⟨_, by rw [hit.outcome]⟩
  · rcases stored.result with ⟨-, done⟩ | ⟨failures, -⟩
    · exact ⟨_, done⟩
    · refine absurd (List.filterMap_eq_nil_iff.mpr fun lens _ => ?_) failures
      obtain ⟨verdict, done⟩ := @attempt_of_answer sha (passingCall args valid) lens
        (priorLenses sha args (perLensLimit lenses.length)
          (authorizedEntries sha (passingCall args valid).env args (runAudits sha []).audits)
          lenses)
        (perLensLimit lenses.length) _ rfl (hasVerdict_verdictText args.passVerdict)
      exact congrArg errorOf done

section

variable {sha : Sha256} {policy : ScopeAuditPolicy} {artifact : String} {audits : TaskAudits}
  {text : Text}

/-- What is read stands in stored evidence that is certified. -/
theorem certificate_of_read (read : readFreshAuditVerdict sha (some artifact) (some (some policy))
      (some audits) = some text) :
    ∃ entry ∈ audits.entries, ∃ seen, asTaskAuditEntry entry = some seen ∧ seen.verdict = text ∧
      auditEntryCertifiesSubject seen (sha.hex artifact.toList)
        (some (scopeAuditExpectedLenses sha artifact policy)) = true := by
  obtain ⟨seen, search, verdict⟩ := Option.map_eq_some_iff.mp read
  obtain ⟨entry, known, same⟩ := mem_candidates (List.mem_of_find?_eq_some search)
  have certifies := List.find?_some search
  exact ⟨entry, known, seen, same, verdict, certifies⟩

/-- The latest evidence is read if it is certified. -/
theorem read_of_latest {entry : AuditEvidenceEntry} {seen : ScopeAuditEntry}
    (same : asTaskAuditEntry entry = some seen)
    (certifies : auditEntryCertifiesSubject seen (sha.hex artifact.toList)
      (some (scopeAuditExpectedLenses sha artifact policy)) = true) :
    readFreshAuditVerdict sha (some artifact) (some (some policy)) (some (audits.store entry)) =
      some seen.verdict := by
  have first : candidates (some (audits.store entry)) =
      seen :: ((audits.store entry).history.take 20).filterMap asTaskAuditEntry := by
    rw [candidates]
    change (entry :: (audits.store entry).history.take 20).filterMap asTaskAuditEntry = _
    rw [List.filterMap_cons, same]
  change ((candidates (some (audits.store entry))).find? _).map _ = _
  rw [first, List.find?_cons, certifies]
  rfl

end

section

variable {sha : Sha256} {rule : AuditRule} {rubric : String} {ρ : Type} {engine : Engine ρ}
  {bindings : Bindings ρ}

/-- Where the verdict of the first audit is read, reader and writer hash the same texts. -/
theorem sameText_of_read {call : AuditCall} {text read : Text}
    (valid : (rule.render (rendering engine bindings)).args.Valid)
    (apart : sha.Distinguishes (identityTexts sha (rule.render (rendering engine bindings)).args ++
      rule.lenses.map fun lens =>
        expectedText rubric (rendering engine bindings rule.subject) lens.prompt))
    (audits : call.args = (rule.render (rendering engine bindings)).args)
    (ok : (cachedAudit sha call (runAudits sha []).audits).result = .ok text)
    (found : readFreshAuditVerdict sha (some (rendering engine bindings rule.subject))
      (some (some ⟨templates rule, rubric⟩)) (some (runAudits sha [call]).audits) = some read) :
    ∀ lens ∈ rule.lenses, SameText rubric (rendering engine bindings) rule lens := by
  have set := lensSet_of_valid valid
  have fans : call.args.reviews =
      .fanout (rule.lenses.map (AuditLens.render (rendering engine bindings))) := by
    rw [audits]
    rfl
  obtain ⟨entry, row, succeeded⟩ := succeeded_of_ok fans ok
  obtain ⟨stored, known, seen, same, -, certifies⟩ := certificate_of_read found
  have own : stored = entry := by
    rw [show [call] = [] ++ [call] from rfl, runAudits_append, AuditState.call, row] at known
    rcases mem_entries_store known with here | before
    · exact here
    · cases before
  subst own
  rw [asTaskAuditEntry_of_succeeded succeeded] at same
  cases same
  obtain ⟨-, -, keys, there, -, all⟩ := lenses_of_certifies certifies
  cases there
  rw [expected_eq] at all
  intro lens declared
  obtain ⟨other, known, key⟩ := List.mem_map.mp (all _ (List.mem_map_of_mem declared))
  obtain ⟨source, declared', rfl⟩ := List.mem_map.mp known
  rw [audits] at key
  injection key with id hash
  have valid_id : isAuditLensId lens.id = true :=
    id ▸ (set.2.2.1 _ (List.mem_map_of_mem declared')).1
  have plain : rendering engine bindings lens.id = lens.id :=
    rendering_of_not_mem (not_mem_of_isAuditLensId valid_id)
  -- only this lens has the id
  have one : source.render (rendering engine bindings) = lens.render (rendering engine bindings) :=
    List.inj_on_of_nodup_map set.2.2.2 (List.mem_map_of_mem declared')
      (List.mem_map_of_mem declared) (id.trans plain.symm)
  refine ⟨plain, (apart _ (List.mem_append_left _ ?_) _
    (List.mem_append_right _ (List.mem_map_of_mem declared)) ?_).symm⟩
  · exact List.mem_append_right _ (List.mem_map_of_mem (List.mem_map_of_mem declared))
  · rw [← one]
    exact hash

/-- A lens that both sides render alike is hashed as two texts. -/
theorem not_sameText {lens : AuditLens}
    (alike : expectedText rubric (rendering engine bindings rule.subject) lens.prompt =
      (rendering engine bindings lens.prompt).toList) :
    ¬ SameText rubric (rendering engine bindings) rule lens := by
  intro same
  have longer := length_prompt_lt (rule.render (rendering engine bindings)).args
    (lens.render (rendering engine bindings))
  rw [← same.2, alike] at longer
  exact Nat.lt_irrefl _ longer

/-- Where reader and writer hash the same texts, what an audit returns is read. -/
theorem current_of_sameText
    (valid : (rule.render (rendering engine bindings)).args.Valid)
    (same : ∀ lens ∈ rule.lenses, SameText rubric (rendering engine bindings) rule lens)
    (history : List AuditCall) (call : AuditCall) (text : Text)
    (audits : call.args = (rule.render (rendering engine bindings)).args)
    (ok : (cachedAudit sha call (runAudits sha history).audits).result = .ok text) :
    readFreshAuditVerdict sha (some (rendering engine bindings rule.subject))
      (some (some ⟨templates rule, rubric⟩)) (some (runAudits sha (history ++ [call])).audits) =
        some text := by
  have fans : call.args.reviews =
      .fanout (rule.lenses.map (AuditLens.render (rendering engine bindings))) := by
    rw [audits]
    rfl
  obtain ⟨entry, row, succeeded⟩ := succeeded_of_ok fans ok
  have expected := @expected_of_sameText sha rule rubric _ same
  rw [runAudits_append, AuditState.call, row]
  refine read_of_latest (asTaskAuditEntry_of_succeeded succeeded) (certifies_of_keys ?_ rfl ?_ ?_)
  · rw [audits]
    rfl
  · rw [expected, audits]
  · rw [expected, List.map_map]
    exact (lensSet_of_valid valid).2.2.2

/-- Where reader and writer hash the same texts, what is read has been earned. -/
theorem earned_of_sameText
    (valid : (rule.render (rendering engine bindings)).args.Valid)
    (same : ∀ lens ∈ rule.lenses, SameText rubric (rendering engine bindings) rule lens)
    (history : List AuditCall) (text : Text)
    (apart : sha.Distinguishes (hashedTexts sha
      ((rule.render (rendering engine bindings)).args :: history.map AuditCall.args)))
    (read : readFreshAuditVerdict sha (some (rendering engine bindings rule.subject))
      (some (some ⟨templates rule, rubric⟩)) (some (runAudits sha history).audits) = some text) :
    ∃ before call after, history = before ++ call :: after ∧
      SameAudit call.args (rule.render (rendering engine bindings)).args ∧
      (cachedAudit sha call (runAudits sha before).audits).result = .ok text := by
  have set := lensSet_of_valid valid
  have expected := @expected_of_sameText sha rule rubric _ same
  obtain ⟨entry, known, seen, reads, verdict, certifies⟩ := certificate_of_read read
  obtain ⟨subject, complete, keys, there, length, all⟩ := lenses_of_certifies certifies
  obtain ⟨before, call, after, declared, text', whole, fans, ok, succeeded⟩ :=
    earned_runAudits history entry known (complete_of_read reads complete)
  rw [asTaskAuditEntry_of_succeeded succeeded] at reads
  cases reads
  cases there
  cases verdict
  have own : (rule.render (rendering engine bindings)).args ∈
      (rule.render (rendering engine bindings)).args :: history.map AuditCall.args :=
    List.mem_cons_self
  have used : call.args ∈
      (rule.render (rendering engine bindings)).args :: history.map AuditCall.args :=
    List.mem_cons_of_mem _ (List.mem_map_of_mem (by rw [whole]; simp))
  rw [expected] at all length
  -- each rendered lens is one of the call's, under the same policy
  have each : ∀ lens ∈ rule.lenses.map (AuditLens.render (rendering engine bindings)),
      SamePolicy call.args (rule.render (rendering engine bindings)).args ∧ lens ∈ declared := by
    intro lens mem
    obtain ⟨other, listed, key⟩ := List.mem_map.mp (all _ (List.mem_map_of_mem mem))
    injection key with id hash
    have asked : Review.lens other ∈ call.args.reviews.asked := by
      rw [fans]
      exact List.mem_map_of_mem listed
    obtain ⟨policies, rfl⟩ := policyText_inj (apart _ (policyText_mem used asked) _
      (policyText_mem own (List.mem_map_of_mem mem)) hash)
    exact ⟨policies, listed⟩
  refine ⟨before, call, after, whole, ⟨?_, ?_, declared, _, fans, rfl, ?_⟩, ok⟩
  · obtain ⟨first, mem⟩ := List.exists_mem_of_length_pos
      (Nat.lt_of_lt_of_le (by decide) set.1 : 0 < _)
    exact (each first mem).1
  · exact subject_of_hash apart used own subject
  · have nodup := set.2.2.2.of_map
    rw [List.length_map, List.length_map] at length
    exact ((nodup.subperm fun lens mem => (each lens mem).2).perm_of_length_le
      (Nat.le_of_eq length)).symm

/-- The guards read the audits of a rule as fresh just if they hash the policy texts that
`cached_audit` hashes; and where they hash the rendered prompt of a lens, they do not. -/
theorem freshly_read_iff {skills : List (List PackRule)} {binding : AuditBinding}
    {rubrics : String → Option String} (declared : Declares skills binding rule)
    (read : rubrics binding.rubric = some rubric)
    (valid : (rule.render (rendering engine bindings)).args.Valid)
    (apart : sha.Distinguishes (identityTexts sha (rule.render (rendering engine bindings)).args ++
      rule.lenses.map fun lens =>
        expectedText rubric (rendering engine bindings rule.subject) lens.prompt)) :
    (FreshlyRead sha (readAuditPolicy rubrics skills binding)
        (rule.render (rendering engine bindings)).args (rendering engine bindings rule.subject) ↔
      ∀ lens ∈ rule.lenses, SameText rubric (rendering engine bindings) rule lens) ∧
    ∀ lens ∈ rule.lenses,
      expectedText rubric (rendering engine bindings rule.subject) lens.prompt =
        (rendering engine bindings lens.prompt).toList →
      ¬ FreshlyRead sha (readAuditPolicy rubrics skills binding)
        (rule.render (rendering engine bindings)).args
        (rendering engine bindings rule.subject) := by
  rw [readAuditPolicy_eq declared (nodup_of_valid valid) read]
  have needed : FreshlyRead sha (some (some ⟨templates rule, rubric⟩))
      (rule.render (rendering engine bindings)).args (rendering engine bindings rule.subject) →
      ∀ lens ∈ rule.lenses, SameText rubric (rendering engine bindings) rule lens := by
    intro fresh
    obtain ⟨text, ok⟩ := @passingCall_ok sha _ valid _ rfl
    exact sameText_of_read valid apart rfl ok (fresh.current [] _ text rfl ok)
  exact ⟨⟨needed, fun same => ⟨current_of_sameText valid same, earned_of_sameText valid same⟩⟩,
    fun lens known alike fresh => not_sameText alike (needed fresh lens known)⟩

end

/-! ## A rule with two lenses -/

theorem contents_text (text : String) : id (Value.str text) = .str text := rfl

theorem contents_restored (_ : Nat) (value : Value) : id value = value := rfl

/-- The engine of a rule without conditions, numbers and durable steps. -/
def textEngine : Engine Value where
  contents := id
  ofString := .str
  parsed _ v := v
  evalCondition _ _ := true
  numberText _ := ""
  sha256Hex _ := ""
  contents_ofString := contents_text
  contents_parsed := contents_restored

def planRule : AuditRule where
  cacheKey := "plan-audit-cache"
  model := "m"
  lenses :=
    [{ id := "facts", prompt := "Facts? \x7b\x7brubric\x7d\x7d \x7b\x7beffective\x7d\x7d" },
      { id := "scope", prompt := "Gaps? \x7b\x7beffective\x7d\x7d" }]
  subject := "\x7b\x7beffective\x7d\x7d"

def planBindings : Bindings Value := [("rubric", .str "Cite."), ("effective", .str "The plan.")]

/-- The rule as `cached_audit` gets it. -/
def renderedPlan : AuditRule := planRule.render (rendering textEngine planBindings)

def planRules : List PackRule :=
  [{ id := "plan-audit",
     process := some [{ call := "cached_audit", args := some planRule.stepArgs }] }]

def planBinding : AuditBinding := ⟨"plan-audit", "plan.md"⟩

def planRubrics (name : String) : Option String := if name = "plan.md" then some "Cite." else none

/-- The texts that are hashed for the rule, with their SHA-256. -/
def ruleHashes : List (List Char × String) :=
  [("The plan.".toList, planHash),
    ("Facts? Cite. The plan.".toList,
      "2e29209e3c62c411205add9c778de201db4e62ba54bd49e597f02e312827fabb"),
    ("Gaps? The plan.".toList, "888d680b1345ce7b166b744c969d18ab70abc9c8d26f183ce6bb4df95b74e31e"),
    (policyText renderedPlan.args { id := "facts", prompt := "Facts? Cite. The plan." },
      "12d6d6bc5974275c427269841bbf5cca1b686cc4ffc0cf7ba3d4b18149b5cf87"),
    (policyText renderedPlan.args { id := "scope", prompt := "Gaps? The plan." },
      "e79ae0133d91fd91517373619d8a54d52a6157c92c2efd90f68fa3eb8bdfc6d3"),
    ((Json.obj [("identity", .str (String.ofList (declarationJson renderedPlan.args).stringify)),
        ("subjectHash", .str planHash)]).stringify,
      "8de2a58fa3b6209a41be3eff64ac148c17b55728517062e61668262d72f3c9e4")]

def ruleSha : Sha256 := listedSha ruleHashes planHash (by decide +kernel)

theorem renderedPlan_valid : renderedPlan.args.Valid := by decide +kernel

theorem declares_plan : Declares [planRules] planBinding planRule :=
  ⟨_, _, rfl, rfl, rfl⟩

theorem distinguishes_rule : ruleSha.Distinguishes (identityTexts ruleSha renderedPlan.args ++
    planRule.lenses.map fun lens => expectedText "Cite." renderedPlan.subject lens.prompt) :=
  distinguishes_listed (by decide +kernel) (by decide +kernel)

/-- Every lens passes, and the guards do not read the verdict. -/
theorem passed_plan_unread :
    Declares [planRules] planBinding planRule ∧
      ∃ text, (cachedAudit ruleSha (passingCall renderedPlan.args renderedPlan_valid)
          (runAudits ruleSha []).audits).result = .ok text ∧
        readFreshAuditVerdict ruleSha (some renderedPlan.subject)
          (readAuditPolicy planRubrics [planRules] planBinding)
          (some (runAudits ruleSha [passingCall renderedPlan.args renderedPlan_valid]).audits) =
          none := by
  obtain ⟨text, ok⟩ := @passingCall_ok ruleSha _ renderedPlan_valid _ rfl
  refine ⟨declares_plan, text, ok, Option.eq_none_iff_forall_ne_some.mpr fun read found => ?_⟩
  rw [@readAuditPolicy_eq _ _ _ planRubrics "Cite." declares_plan (by decide) rfl] at found
  have same := sameText_of_read renderedPlan_valid distinguishes_rule rfl ok found
  exact not_sameText (by decide +kernel) (same _ List.mem_cons_self)

theorem freshly_read_plan :
    (FreshlyRead ruleSha (readAuditPolicy planRubrics [planRules] planBinding) renderedPlan.args
        renderedPlan.subject ↔
      ∀ lens ∈ planRule.lenses,
        SameText "Cite." (rendering textEngine planBindings) planRule lens) ∧
    ∀ lens ∈ planRule.lenses,
      expectedText "Cite." renderedPlan.subject lens.prompt =
        (rendering textEngine planBindings lens.prompt).toList →
      ¬ FreshlyRead ruleSha (readAuditPolicy planRubrics [planRules] planBinding) renderedPlan.args
        renderedPlan.subject :=
  freshly_read_iff declares_plan rfl renderedPlan_valid distinguishes_rule

end Opensquid.Audit
