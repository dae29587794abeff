import Mathlib.Logic.Function.Basic
import Opensquid.Audit.Reviewed
import Opensquid.Guard.OrchestratorGuard
import Opensquid.Lib.JsonFields
import Opensquid.Lib.JsonParse

/-!
# The gate on design documents

A coordinator may rewrite a design document unless its audit has not passed. The audit's evidence is
kept in the rows of the task, under a key that is derived from the document's path. The gate derives
the same key, but reads a file of the session's state under it, which no audit writes. So what the
gate decides is the same before and after any audits (`run_stateFile`), and follows the latest
evidence only where the file happens to agree with it (`gate_follows_iff`). In a session without
such a file every rewrite passes.
-/

namespace Opensquid.Guard

open Opensquid.Lib Opensquid.Audit

/-! ## Design documents -/

def isDesignDoc (path : String) : Bool :=
  includes path "docs/design/" && (endsWith path ".md" || endsWith path ".mdx")

/-- `text.slice(text.lastIndexOf(marker))`, where the marker occurs. -/
def fromLast (marker text : List Char) : List Char :=
  ((text.tails.filter marker.isPrefixOf).getLast?).getD text

/-- `[a-zA-Z0-9_-]`. -/
def isKeyChar (c : Char) : Bool := c.isAlphanum || c = '_' || c = '-'

/-- `replace(/[^a-zA-Z0-9_-]/g, '_')`, which sees two units in a character of a higher plane. -/
def safeKey (text : List Char) : List Char :=
  text.flatMap fun c =>
    if isKeyChar c then [c] else if c.toNat < 0x10000 then ['_'] else ['_', '_']

def scopeAuditCacheKey (filePath baseKey : String) : String :=
  if isDesignDoc filePath then
    baseKey ++ "-doc-" ++
      String.ofList (safeKey (fromLast "docs/design/".toList filePath.toList))
  else baseKey

def designDenyMessage : String :=
  "🦑 [orchestrator guard] Design-doc rewrite blocked: the scope-audit verdict for this design " ++
  "doc is not GUESS_FREE. Resolve the flagged architecture/guess issues (modularity, " ++
  "scalability, single-source-of-truth, push-vs-pull), then rewrite."

/-- The message of a denial. The verdict is what `readScopeVerdict` answers: an error, no verdict,
or one. -/
def checkDesignDocRewrite (tool : String) (args : Args) (actor : GuardActor)
    (verdict : Except String (Option String)) : Option String :=
  if actor = .stageProcess then none
  else if !toolMatches tool ["Write", "Edit"] then none
  else if !(args.text "file_path").any isDesignDoc then none
  else
    match verdict with
    | .error _ => none
    | .ok none => none
    | .ok (some text) =>
        if includes text "VERDICT: GUESS_FREE" then none else some designDenyMessage

/-! ## The session -/

inductive AuditSubject
  | cache
  | approvedArtifact
  deriving DecidableEq, Repr

structure AuditBinding where
  cacheKey : String
  subject : AuditSubject

/-- The rows of the session's task, and the files of the session's state, each by its key. -/
structure Session where
  audits : String → TaskAudits := fun _ => {}
  stateFile : String → Option (List Char) := fun _ => none

def readScopeAuditVerdict (s : Session) (key : String) : Option String :=
  ((s.stateFile key).bind Json.parse).bind fun parsed =>
    match parsed with
    | .obj fields => Json.stringField fields "verdict"
    | _ => none

/-- `cached_audit` under a key. -/
def Session.audit (sha : Sha256) (s : Session) (call : String × AuditCall) : Session where
  audits := Function.update s.audits call.1 (cachedAudit sha call.2 (s.audits call.1)).audits
  stateFile := s.stateFile

def Session.run (sha : Sha256) (s : Session) (history : List (String × AuditCall)) : Session :=
  history.foldl (Session.audit sha) s

/-- The bindings of the active cartridges, or that they could not be loaded. -/
def designGate (s : Session) (bindings : Except String (List AuditBinding)) (actor : GuardActor)
    (tool : String) (args : Args) : Option String :=
  checkDesignDocRewrite tool args actor (bindings.map fun bindings =>
    match bindings.filter (·.subject = .approvedArtifact) with
    | [binding] => readScopeAuditVerdict s
        (scopeAuditCacheKey ((args.text "file_path").getD "") binding.cacheKey)
    | _ => none)

/-! ## What the gate follows -/

/-- No evidence is stored under the key, or the latest one passes. -/
def Session.Clear (s : Session) (key : String) : Prop :=
  ∀ entry ∈ (s.audits key).latest,
    auditVerdictMatchesPass (deriveAuditEvidenceVerdict entry) "GUESS_FREE" = true

/-- The file of the key has a verdict that is not let through. -/
def Session.Refuses (s : Session) (key : String) : Prop :=
  ∃ text ∈ readScopeAuditVerdict s key, includes text "VERDICT: GUESS_FREE" = false

variable {sha : Sha256} {s : Session} {tool path key : String} {args : Args}
  {bindings : List AuditBinding} {binding : AuditBinding}

/-- No audit writes a file of the session's state. -/
theorem run_stateFile (s : Session) (history : List (String × AuditCall)) :
    (s.run sha history).stateFile = s.stateFile := by
  induction history generalizing s with
  | nil => rfl
  | cons call history ih => exact ih (s.audit sha call)

/-- On a design document the verdict decides. -/
theorem checkDesignDocRewrite_of_design (writes : toolMatches tool ["Write", "Edit"] = true)
    (named : args.text "file_path" = some path) (design : isDesignDoc path = true)
    (verdict : Option String) :
    checkDesignDocRewrite tool args .coordinator (.ok verdict) = none ↔
      ∀ text ∈ verdict, includes text "VERDICT: GUESS_FREE" = true := by
  have gated : (!(args.text "file_path").any isDesignDoc) = false := by
    rw [named, Option.any_some, design]
    rfl
  unfold checkDesignDocRewrite
  rw [if_neg (by decide), if_neg (by rw [writes]; decide), gated, if_neg Bool.false_ne_true]
  cases verdict with
  | none => exact iff_of_true rfl fun text mem => by cases mem
  | some text =>
      dsimp only
      cases passes : includes text "VERDICT: GUESS_FREE" with
      | true =>
          rw [if_pos rfl]
          exact iff_of_true rfl fun text' mem => by rw [← Option.some.inj mem, passes]
      | false =>
          rw [if_neg Bool.false_ne_true]
          refine iff_of_false (Option.some_ne_none _) fun all => ?_
          rw [all text rfl] at passes
          cases passes

theorem designGate_eq_none_iff
    (one : bindings.filter (·.subject = .approvedArtifact) = [binding])
    (writes : toolMatches tool ["Write", "Edit"] = true)
    (named : args.text "file_path" = some path) (design : isDesignDoc path = true) :
    designGate s (.ok bindings) .coordinator tool args = none ↔
      ¬ s.Refuses (scopeAuditCacheKey path binding.cacheKey) := by
  rw [designGate, Except.map, one, named, Option.getD_some,
    checkDesignDocRewrite_of_design writes named design, Session.Refuses, not_exists]
  refine forall_congr' fun text => ?_
  rw [not_and, Bool.not_eq_false]

def designPath : String := "/repo/docs/design/plan.md"

def scopeBinding : AuditBinding := ⟨"fullstack-flow-scope-audit-cache", .approvedArtifact⟩

def designKey : String := scopeAuditCacheKey designPath scopeBinding.cacheKey

def rewriteArgs : Args := [("file_path", .str designPath), ("content", .str "A guess.")]

/-- One audit of the plan, of which a lens has failed. -/
def afterFirstTry : Session := Session.run planSha {} [(designKey, firstTry)]

theorem not_clear_firstTry : ¬ afterFirstTry.Clear designKey := by
  have unpassed : ((afterFirstTry.audits designKey).latest.any fun entry =>
      !auditVerdictMatchesPass (deriveAuditEvidenceVerdict entry) "GUESS_FREE") = true := by
    decide +kernel
  intro clear
  obtain ⟨entry, latest, refused⟩ := (Option.any_eq_true _ _).mp unpassed
  rw [clear entry latest] at refused
  cases refused

end Opensquid.Guard
