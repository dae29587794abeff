import Opensquid.Audit.Declaration

/-!
# Cached audits

`cached_audit` on the evidence of one task under one cache key. A call reads the attempts that are
stored, returns an exact one again, or asks the model: for a single review, or for every lens that
no attempt has an output of under the same policy and subject. What it has got is stored as an
attempt of its own, also when some lenses have failed. The lock of the key spans a whole call, so
that calls happen one after the other; each meets an environment of its own, whose lock, model and
store may fail.
-/

namespace Opensquid.Audit

open Opensquid.Lib Utf16 Opensquid.Subagents

/-! ## The store -/

/-- The rows of one task and key: the latest evidence, and the attempts from the newest on. -/
structure TaskAudits where
  latest : Option AuditEvidenceEntry := none
  history : List AuditEvidenceEntry := []

def HISTORY_LIMIT : Nat := 100

/-- An exception: its message, and what `String` makes of it. -/
structure Thrown where
  message : Text
  printed : Text

/-- What a model is asked. -/
inductive Review
  | prompt (text : String)
  | lens (lens : AuditLens)
  deriving DecidableEq, Repr

/-- What one call meets. -/
structure Environment where
  lock : Except Thrown Unit := .ok ()
  historyReads : Bool := true
  latestReads : Bool := true
  /-- Whether the model's alias is known. -/
  models : Except Thrown Bool := .ok true
  admission : Except Thrown Unit := .ok ()
  call : Review → Except Thrown Text
  writes : Bool := true

def TaskAudits.store (audits : TaskAudits) (entry : AuditEvidenceEntry) : TaskAudits where
  latest := some entry
  history := (entry :: audits.history).take HISTORY_LIMIT

/-- Nothing is written if the store refuses, or the entry is malformed. -/
def writeTaskAuditCache (env : Environment) (audits : TaskAudits) (entry : AuditEvidenceEntry) :
    Option TaskAudits :=
  if env.writes = true ∧ entry.Valid then some (audits.store entry) else none

def readCachedEntries (env : Environment) (audits : TaskAudits) : List AuditEvidenceEntry :=
  if env.historyReads then
    if audits.history ≠ [] then audits.history
    else if env.latestReads then audits.latest.toList else []
  else []

def bestExactEntry (entries : List AuditEvidenceEntry) (hash : String) :
    Option AuditEvidenceEntry :=
  entries.find? fun entry => entry.hash = hash

/-! ## Calls and results -/

/-- The schema has accepted the arguments. -/
structure AuditCall where
  args : CachedAuditArgs
  valid : args.Valid
  env : Environment

structure ModelCall where
  args : CachedAuditArgs
  review : Review
  answer : Except Thrown Text

inductive ErrorKind
  | argInvalid
  | runtime

structure FunctionError where
  kind : ErrorKind
  message : Text

structure Outcome where
  audits : TaskAudits
  result : Except FunctionError Text
  calls : List ModelCall := []

def named (args : CachedAuditArgs) (text : String) : Text :=
  txt "cached_audit(" ++ txt args.model ++ txt ")" ++ txt text

def runtimeError (args : CachedAuditArgs) (text : String) (more : Text := []) :
    Except FunctionError Text :=
  .error ⟨.runtime, named args text ++ more⟩

def unknownAlias (args : CachedAuditArgs) : Except FunctionError Text :=
  .error ⟨.argInvalid, txt "Unknown model alias \"" ++ txt args.model ++ txt "\""⟩

/-- `text.includes('VERDICT:')`. -/
def hasVerdict (text : Text) : Bool := txt "VERDICT:" <:+: text

def describeFailure (error : Thrown) : Text :=
  if error.message = [] then txt "unknown audit failure" else error.message

/-! ## Fan-out -/

def perLensLimit (count : Nat) : Nat := max 1024 (MAX_AUDIT_AGGREGATE_EVIDENCE_BYTES / count)

structure AuditFanoutResult where
  completed : List AuditLensVerdict
  failures : List (String × Thrown)

/-- A prior output is of this very policy. -/
def reuses (cached : List (String × AuditLensVerdict)) (lensHash : AuditLens → String)
    (lens : AuditLens) : Option AuditLensVerdict :=
  (cached.lookup lens.id).filter fun prior => prior.promptHash = lensHash lens

/-- How one lens comes out: reused, completed or failed. -/
def attempt (cached : List (String × AuditLensVerdict)) (lensHash : AuditLens → String)
    (review : AuditLens → Except Thrown Text) (lens : AuditLens) :
    Except (String × Thrown) AuditLensVerdict :=
  match reuses cached lensHash lens with
  | some prior => .ok prior
  | none =>
      match review lens with
      | .ok output => .ok ⟨lens.id, lensHash lens, output⟩
      | .error error => .error (lens.id, error)

def okOf {ε α : Type} : Except ε α → Option α
  | .ok value => some value
  | .error _ => none

def errorOf {ε α : Type} : Except ε α → Option ε
  | .ok _ => none
  | .error error => some error

def AuditFanout.run (lenses : List AuditLens) (cached : List (String × AuditLensVerdict))
    (lensHash : AuditLens → String) (review : AuditLens → Except Thrown Text) :
    AuditFanoutResult where
  completed := lenses.filterMap fun lens => okOf (attempt cached lensHash review lens)
  failures := lenses.filterMap fun lens => errorOf (attempt cached lensHash review lens)

variable (sha : Sha256)

def priorLens (args : CachedAuditArgs) (limit : Nat) (authorized : List AuditEvidenceEntry)
    (lens : AuditLens) : Option AuditLensVerdict :=
  ((authorized.flatMap AuditEvidenceEntry.lenses).find? fun prior =>
    prior.id = lens.id ∧ prior.promptHash = auditLensPolicyHash sha args lens).map fun prior =>
      { prior with output := truncateUtf8 prior.output limit }

def priorLenses (args : CachedAuditArgs) (limit : Nat) (authorized : List AuditEvidenceEntry)
    (lenses : List AuditLens) : List (String × AuditLensVerdict) :=
  lenses.filterMap fun lens =>
    (priorLens sha args limit authorized lens).map fun prior => (lens.id, prior)

/-- One lens's review: an answer without a verdict is a failure. -/
def reviewLens (env : Environment) (limit : Nat) (lens : AuditLens) : Except Thrown Text :=
  match env.call (.lens lens) with
  | .error error => .error error
  | .ok out =>
      if hasVerdict out then .ok (truncateUtf8 out limit)
      else
        let message := "audit lens " ++ lens.id ++ " returned no VERDICT line"
        .error ⟨txt message, txt ("AuditNoVerdictError: " ++ message)⟩

/-- The lenses of complete evidence, if they are those that are declared. -/
def exactFanout (args : CachedAuditArgs) (lenses : List AuditLens) (entry : AuditEvidenceEntry) :
    Option (List AuditLensVerdict × String × String) :=
  match entry.outcome with
  | .verdict _ => none
  | .fanout false _ _ _ _ => none
  | .fanout true found _ passVerdict failVerdict =>
      if found.length = lenses.length ∧ ∀ pair ∈ lenses.zip found,
          pair.2.id = pair.1.id ∧ pair.2.promptHash = auditLensPolicyHash sha args pair.1 then
        some (found, passVerdict, failVerdict)
      else none

/-- The evidence of the same subject. -/
def authorizedEntries (env : Environment) (args : CachedAuditArgs) (audits : TaskAudits) :
    List AuditEvidenceEntry :=
  (readCachedEntries env audits).filter fun entry => entry.subjectHash = subjectHash sha args

def runFanout (env : Environment) (args : CachedAuditArgs) (lenses : List AuditLens)
    (audits : TaskAudits) : AuditFanoutResult :=
  let limit := perLensLimit lenses.length
  AuditFanout.run lenses (priorLenses sha args limit (authorizedEntries sha env args audits) lenses)
    (auditLensPolicyHash sha args) (reviewLens env limit)

/-- The lenses that the model is asked about. -/
def askedLenses (env : Environment) (args : CachedAuditArgs) (lenses : List AuditLens)
    (audits : TaskAudits) : List AuditLens :=
  lenses.filter fun lens => (reuses (priorLenses sha args (perLensLimit lenses.length)
    (authorizedEntries sha env args audits) lenses) (auditLensPolicyHash sha args) lens).isNone

def fanoutEntry (env : Environment) (args : CachedAuditArgs) (lenses : List AuditLens)
    (audits : TaskAudits) : AuditEvidenceEntry :=
  let fanout := runFanout sha env args lenses audits
  { hash := auditDeclarationCacheHash sha args
    outcome := .fanout fanout.failures.isEmpty fanout.completed
      (fanout.failures.map fun failure =>
        ⟨failure.1, truncateUtf8 (describeFailure failure.2) 4096⟩)
      args.passVerdict args.failVerdict
    subjectHash := subjectHash sha args }

/-- Asking the model about the lenses that are missing. -/
def freshFanout (env : Environment) (args : CachedAuditArgs) (lenses : List AuditLens)
    (audits : TaskAudits) : Outcome :=
  let fanout := runFanout sha env args lenses audits
  let entry := fanoutEntry sha env args lenses audits
  let calls := (askedLenses sha env args lenses audits).map fun lens =>
    ⟨args, .lens lens, env.call (.lens lens)⟩
  match writeTaskAuditCache env audits entry with
  | none => ⟨audits, runtimeError args " could not persist canonical task evidence", calls⟩
  | some audits' =>
      if fanout.failures.isEmpty then
        ⟨audits', .ok (truncateUtf8
          (aggregateAuditLenses fanout.completed args.passVerdict args.failVerdict)
          MAX_SUBAGENT_RESULT_BYTES), calls⟩
      else
        ⟨audits', runtimeError args " fan-out incomplete:\n"
          ((deriveAuditEvidenceVerdict entry).getD (verdictText args.failVerdict)), calls⟩

def fanoutAudit (env : Environment) (args : CachedAuditArgs) (lenses : List AuditLens)
    (audits : TaskAudits) : Outcome :=
  let failed (error : Thrown) : Outcome :=
    ⟨audits, runtimeError args " fan-out admission: " error.message, []⟩
  match env.lock with
  | .error error => failed error
  | .ok () =>
      let cached := bestExactEntry (authorizedEntries sha env args audits)
        (auditDeclarationCacheHash sha args)
      match cached.bind fun entry => (exactFanout sha args lenses entry).map fun found =>
          (entry, found) with
      | some (entry, found, passVerdict, failVerdict) =>
          match writeTaskAuditCache env audits entry with
          | none => ⟨audits, runtimeError args " could not republish canonical task evidence", []⟩
          | some audits' => ⟨audits', .ok (aggregateAuditLenses found passVerdict failVerdict), []⟩
      | none =>
          match env.models with
          | .error error => failed error
          | .ok false => ⟨audits, unknownAlias args, []⟩
          | .ok true =>
              match env.admission with
              | .error error => failed error
              | .ok () => freshFanout sha env args lenses audits

/-! ## Single review -/

def singleVerdict (entry : AuditEvidenceEntry) : Option Text :=
  match entry.outcome with
  | .verdict text => if text = [] then none else some text
  | .fanout .. => none

def freshSingle (env : Environment) (args : CachedAuditArgs) (prompt : String)
    (audits : TaskAudits) : Outcome :=
  let calls := [⟨args, .prompt prompt, env.call (.prompt prompt)⟩]
  match env.call (.prompt prompt) with
  | .error error => ⟨audits, runtimeError args ": " error.printed, calls⟩
  | .ok out =>
      let cacheable := truncateUtf8 out MAX_SUBAGENT_RESULT_BYTES
      if hasVerdict cacheable then
        match writeTaskAuditCache env audits
            ⟨auditDeclarationCacheHash sha args, .verdict cacheable, subjectHash sha args⟩ with
        | none => ⟨audits, runtimeError args " could not persist canonical task evidence", calls⟩
        | some audits' => ⟨audits', .ok cacheable, calls⟩
      else if hasVerdict out then
        ⟨audits, runtimeError args " verdict falls outside persisted evidence bound", calls⟩
      else ⟨audits, .ok cacheable, calls⟩

def singleAudit (env : Environment) (args : CachedAuditArgs) (prompt : String)
    (audits : TaskAudits) : Outcome :=
  let failed (error : Thrown) : Outcome :=
    ⟨audits, runtimeError args " cache-key admission: " error.message, []⟩
  match env.lock with
  | .error error => failed error
  | .ok () =>
      let cached := bestExactEntry (authorizedEntries sha env args audits)
        (auditDeclarationCacheHash sha args)
      match cached.bind fun entry => (singleVerdict entry).map fun text => (entry, text) with
      | some (entry, text) =>
          match writeTaskAuditCache env audits entry with
          | none => ⟨audits, runtimeError args " could not republish canonical task evidence", []⟩
          | some audits' => ⟨audits', .ok text, []⟩
      | none =>
          match env.models with
          | .error error => failed error
          | .ok false => ⟨audits, unknownAlias args, []⟩
          | .ok true => freshSingle sha env args prompt audits

def cachedAudit (call : AuditCall) (audits : TaskAudits) : Outcome :=
  match call.args.reviews with
  | .single prompt => singleAudit sha call.env call.args prompt audits
  | .fanout lenses => fanoutAudit sha call.env call.args lenses audits

/-! ## Histories -/

/-- What is stored after a history of calls, and every call of the model. -/
structure AuditState where
  audits : TaskAudits := {}
  log : List ModelCall := []

def AuditState.call (s : AuditState) (call : AuditCall) : AuditState :=
  let outcome := cachedAudit sha call s.audits
  ⟨outcome.audits, s.log ++ outcome.calls⟩

def runAudits (history : List AuditCall) : AuditState := history.foldl (AuditState.call sha) {}

end Opensquid.Audit
