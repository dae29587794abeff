import Mathlib.Data.List.TakeWhile
import Opensquid.Runtime.TruncateUtf8

/-!
# Audit evidence

What an audit leaves behind: the verdict of a single review, or the outputs of several lenses with
the failures of those that did not complete. Evidence is read as a text whose first line is a
verdict. A fan-out has the pass verdict as its first line just when every lens has it
(`aggregate_passes_iff`); everything else reads as the fail verdict, whatever the outputs say.
-/

namespace Opensquid.Audit

open Opensquid.Lib Utf16 Opensquid.Subagents

/-! ## Schemas -/

/-- A text as its code units. -/
abbrev Text := List Nat

def txt (s : String) : Text := encode s.toList

def AUDIT_LENS_MIN : Nat := 2
def AUDIT_LENS_MAX : Nat := 4
def MAX_SUBAGENT_RESULT_BYTES : Nat := 50 * 1024
def MAX_AUDIT_AGGREGATE_EVIDENCE_BYTES : Nat := MAX_SUBAGENT_RESULT_BYTES - 1024

def isSmallOrDigit (c : Char) : Bool := ('a' ≤ c && c ≤ 'z') || ('0' ≤ c && c ≤ '9')

def isBig (c : Char) : Bool := 'A' ≤ c && c ≤ 'Z'

/-- `/^[a-z0-9][a-z0-9._-]{0,63}$/`. -/
def isAuditLensId (id : String) : Bool :=
  match id.toList with
  | [] => false
  | c :: rest => isSmallOrDigit c && rest.length ≤ 63 &&
      rest.all fun d => isSmallOrDigit d || d = '.' || d = '_' || d = '-'

/-- `/^[A-Z][A-Z_]{0,63}$/`. -/
def isVerdictToken (token : String) : Bool :=
  match token.toList with
  | [] => false
  | c :: rest => isBig c && rest.length ≤ 63 && rest.all fun d => isBig d || d = '_'

/-- `/^[a-f0-9]{64}$/`. -/
def isSha256 (hash : String) : Bool :=
  hash.toList.length = 64 &&
    hash.toList.all fun c => ('a' ≤ c && c ≤ 'f') || ('0' ≤ c && c ≤ '9')

def utf8Bounded (maxBytes : Nat) (text : Text) : Prop :=
  1 ≤ byteLength text ∧ byteLength text ≤ maxBytes

instance (maxBytes : Nat) (text : Text) : Decidable (utf8Bounded maxBytes text) :=
  inferInstanceAs (Decidable (_ ∧ _))

structure AuditLensVerdict where
  id : String
  promptHash : String
  output : Text
  deriving DecidableEq, Repr

structure AuditFailure where
  id : String
  error : Text
  deriving DecidableEq, Repr

/-- The verdict of one review, or the outcomes of a fan-out. The schema admits no mixture. -/
inductive AuditOutcome
  | verdict (text : Text)
  | fanout (complete : Bool) (lenses : List AuditLensVerdict) (failures : List AuditFailure)
      (passVerdict failVerdict : String)
  deriving DecidableEq, Repr

structure AuditEvidenceEntry where
  hash : String
  outcome : AuditOutcome
  subjectHash : Option String := none
  deriving DecidableEq, Repr

/-- A lens as the schema takes it. -/
def AuditLensVerdict.Valid (lens : AuditLensVerdict) : Prop :=
  isAuditLensId lens.id = true ∧ isSha256 lens.promptHash = true ∧
    utf8Bounded MAX_SUBAGENT_RESULT_BYTES lens.output

instance (lens : AuditLensVerdict) : Decidable lens.Valid := inferInstanceAs (Decidable (_ ∧ _ ∧ _))

def AuditFailure.Valid (failure : AuditFailure) : Prop :=
  isAuditLensId failure.id = true ∧ utf8Bounded 4096 failure.error

instance (failure : AuditFailure) : Decidable failure.Valid := inferInstanceAs (Decidable (_ ∧ _))

/-- The bytes of all outputs. -/
def evidenceBytes (lenses : List AuditLensVerdict) : Nat :=
  (lenses.map fun lens => byteLength lens.output).foldl (· + ·) 0

def outcomeIds (lenses : List AuditLensVerdict) (failures : List AuditFailure) : List String :=
  lenses.map AuditLensVerdict.id ++ failures.map AuditFailure.id

/-- What the refinement asks of the lenses and failures. -/
def Counted : Bool → List AuditLensVerdict → List AuditFailure → Prop
  | true, lenses, failures => AUDIT_LENS_MIN ≤ lenses.length ∧ failures = []
  | false, lenses, failures => failures ≠ [] ∧
      AUDIT_LENS_MIN ≤ (outcomeIds lenses failures).length ∧
      (outcomeIds lenses failures).length ≤ AUDIT_LENS_MAX

instance : (complete : Bool) → (lenses : List AuditLensVerdict) → (failures : List AuditFailure) →
    Decidable (Counted complete lenses failures)
  | true, _, _ => inferInstanceAs (Decidable (_ ∧ _))
  | false, _, _ => inferInstanceAs (Decidable (_ ∧ _ ∧ _))

def AuditOutcome.Valid : AuditOutcome → Prop
  | .verdict text => utf8Bounded MAX_SUBAGENT_RESULT_BYTES text
  | .fanout complete lenses failures passVerdict failVerdict =>
      (lenses.length ≤ AUDIT_LENS_MAX ∧ ∀ lens ∈ lenses, lens.Valid) ∧
      (failures.length ≤ AUDIT_LENS_MAX ∧ ∀ failure ∈ failures, failure.Valid) ∧
      (isVerdictToken passVerdict = true ∧ isVerdictToken failVerdict = true ∧
        passVerdict ≠ failVerdict) ∧
      evidenceBytes lenses ≤ MAX_AUDIT_AGGREGATE_EVIDENCE_BYTES ∧
      (outcomeIds lenses failures).Nodup ∧ Counted complete lenses failures

instance : (outcome : AuditOutcome) → Decidable outcome.Valid
  | .verdict _ => inferInstanceAs (Decidable (utf8Bounded _ _))
  | .fanout _ _ _ _ _ => inferInstanceAs (Decidable ((_ ∧ _) ∧ (_ ∧ _) ∧ (_ ∧ _ ∧ _) ∧ _ ∧ _ ∧ _))

def AuditEvidenceEntry.Valid (entry : AuditEvidenceEntry) : Prop :=
  isSha256 entry.hash = true ∧ (∀ hash ∈ entry.subjectHash, isSha256 hash = true) ∧
    entry.outcome.Valid

instance (entry : AuditEvidenceEntry) : Decidable entry.Valid :=
  inferInstanceAs (Decidable (_ ∧ (∀ hash ∈ entry.subjectHash, isSha256 hash = true) ∧ _))

def AuditEvidenceEntry.lenses (entry : AuditEvidenceEntry) : List AuditLensVerdict :=
  match entry.outcome with
  | .verdict _ => []
  | .fanout _ lenses _ _ _ => lenses

/-! ## Texts -/

/-- `rows.join('\n')`. -/
def joinLines (rows : List Text) : Text := [10].intercalate rows

/-- `output.split(/\r?\n/, 1)[0]`. -/
def verdictLine (output : Text) : Text :=
  let line := output.takeWhile (· ≠ 10)
  if line.length < output.length ∧ line.getLast? = some 13 then line.dropLast else line

/-- `VERDICT: …`. -/
def verdictText (token : String) : Text := txt "VERDICT: " ++ txt token

def isSpaceUnit (u : Nat) : Bool :=
  (9 ≤ u && u ≤ 13) || u = 0x20 || u = 0xa0 || u = 0x1680 || (0x2000 ≤ u && u ≤ 0x200a) ||
    u = 0x2028 || u = 0x2029 || u = 0x202f || u = 0x205f || u = 0x3000 || u = 0xfeff

def isBigUnit (u : Nat) : Bool := 65 ≤ u && u ≤ 90

/-- How long a match of `VERDICT:\s*[A-Z][A-Z_]*` at the start is. -/
def tokenLength (text : Text) : Option Nat :=
  if (txt "VERDICT:").isPrefixOf text then
    let spaces := (text.drop 8).takeWhile isSpaceUnit
    match (text.drop 8).drop spaces.length with
    | [] => none
    | u :: rest =>
        if isBigUnit u then
          some (8 + spaces.length + 1 + (rest.takeWhile fun v => isBigUnit v || v = 95).length)
        else none
  else none

/-- The text without the matches; the number is how much of one is still to be dropped. -/
def dropTokens : Nat → Text → Text
  | _, [] => []
  | n + 1, _ :: rest => dropTokens n rest
  | 0, u :: rest =>
      match tokenLength (u :: rest) with
      | some (n + 1) => dropTokens n rest
      | _ => u :: dropTokens 0 rest

def trimUnits (text : Text) : Text :=
  ((text.dropWhile isSpaceUnit).reverse.dropWhile isSpaceUnit).reverse

def stripVerdictTokens (output : Text) : Text := trimUnits (dropTokens 0 output)

/-! ## Reading evidence -/

def attributionId (lens : AuditLensVerdict) (index : Nat) : String :=
  if isAuditLensId lens.id then lens.id else "lens-" ++ toString (index + 1)

def evidenceWithinBudget (lenses : List AuditLensVerdict) : Prop :=
  evidenceBytes lenses ≤ MAX_AUDIT_AGGREGATE_EVIDENCE_BYTES

instance (lenses : List AuditLensVerdict) : Decidable (evidenceWithinBudget lenses) :=
  inferInstanceAs (Decidable (_ ≤ _))

/-- `- [id] …`. -/
def row (id : String) (body : Text) : Text := txt "- [" ++ txt id ++ txt "] " ++ body

def findingBody (passLine : Text) (lens : AuditLensVerdict) : Text :=
  if verdictLine lens.output = passLine then txt "PASS"
  else if stripVerdictTokens lens.output = [] then
    txt "review did not return the exact pass verdict"
  else stripVerdictTokens lens.output

def lensFindingRows (lenses : List AuditLensVerdict) (passLine : Text) : List Text :=
  lenses.mapIdx fun index lens => row (attributionId lens index) (findingBody passLine lens)

def boundedFailureAggregate (failVerdict : String) (rows boundedFallbackRows : List Text) : Text :=
  let aggregate := joinLines (verdictText failVerdict :: rows)
  if byteLength aggregate ≤ MAX_SUBAGENT_RESULT_BYTES then aggregate
  else joinLines (verdictText failVerdict :: boundedFallbackRows)

/-- A row for each lens that says the same. -/
def sameRows (lenses : List AuditLensVerdict) (body : String) : List Text :=
  lenses.mapIdx fun index lens => row (attributionId lens index) (txt body)

/-- Lens sets that are too small or too large. -/
def miscounted (lenses : List AuditLensVerdict) (passVerdict failVerdict : String) : Text :=
  if lenses = [] then
    joinLines [verdictText failVerdict,
      txt "- [audit] invalid lens evidence count (0 completed; expected 2-4)"]
  else
    let attributed := lenses.take 256
    let omitted := lenses.length - attributed.length
    let rest := if omitted = 0 then []
      else [txt ("- [audit] " ++ toString omitted ++ " additional invalid lenses omitted")]
    let fallbackRows := sameRows attributed "invalid lens-set evidence (expected 2-4)" ++ rest
    if ¬ evidenceWithinBudget attributed then joinLines (verdictText failVerdict :: fallbackRows)
    else boundedFailureAggregate failVerdict
      (lensFindingRows attributed (verdictText passVerdict) ++ rest) fallbackRows

def aggregateAuditLenses (lenses : List AuditLensVerdict) (passVerdict failVerdict : String) :
    Text :=
  if ¬ (isVerdictToken passVerdict = true ∧ isVerdictToken failVerdict = true ∧
      passVerdict ≠ failVerdict) then
    joinLines [txt "VERDICT: UNRESOLVED", txt "- [audit] invalid pass/fail verdict policy"]
  else if lenses.length < AUDIT_LENS_MIN ∨ AUDIT_LENS_MAX < lenses.length then
    miscounted lenses passVerdict failVerdict
  else if ¬ ((∀ lens ∈ lenses, isAuditLensId lens.id = true) ∧
      (lenses.map AuditLensVerdict.id).Nodup) then
    joinLines (verdictText failVerdict :: sameRows lenses "invalid or duplicate lens id")
  else if ¬ evidenceWithinBudget lenses then
    joinLines (verdictText failVerdict ::
      sameRows lenses "audit output exceeded aggregate evidence bound")
  else if ∀ lens ∈ lenses, verdictLine lens.output = verdictText passVerdict then
    joinLines [verdictText passVerdict, txt "AUDIT FAN-OUT: " ++
      (txt ", ").intercalate (lenses.mapIdx fun index lens => txt (attributionId lens index)) ++
      txt (" (" ++ toString lenses.length ++ "/" ++ toString lenses.length ++ ")")]
  else
    boundedFailureAggregate failVerdict (lensFindingRows lenses (verdictText passVerdict))
      (sameRows lenses "audit output exceeded aggregate evidence bound")

/-- Exact semantic pass check. -/
def auditVerdictMatchesPass (verdict : Option Text) (passVerdict : String) : Bool :=
  isVerdictToken passVerdict && verdict.any (verdictLine · = verdictText passVerdict)

/-- What a lens that has completed says in evidence of which others failed. -/
def fallbackBody (passVerdict : String) (lens : AuditLensVerdict) : Text :=
  if verdictLine lens.output = verdictText passVerdict then txt "PASS"
  else txt "completed review did not return the exact pass verdict"

def partialVerdict (lenses : List AuditLensVerdict) (failures : List AuditFailure)
    (passVerdict failVerdict : String) : Text :=
  boundedFailureAggregate failVerdict
    (lensFindingRows lenses (verdictText passVerdict) ++
      failures.map fun failure => row failure.id failure.error)
    ((lenses.mapIdx fun index lens =>
        row (attributionId lens index) (fallbackBody passVerdict lens)) ++
      failures.map fun failure => row failure.id (txt "reviewer failed"))

def deriveAuditEvidenceVerdict (entry : AuditEvidenceEntry) : Option Text :=
  match entry.outcome with
  | .verdict text => some text
  | .fanout true lenses _ passVerdict failVerdict =>
      some (aggregateAuditLenses lenses passVerdict failVerdict)
  | .fanout false lenses failures passVerdict failVerdict =>
      if failures = [] then none else some (partialVerdict lenses failures passVerdict failVerdict)

/-! ## First lines -/

/-- A line of its own. -/
def Plain (line : Text) : Prop := ∀ u ∈ line, u ≠ 10 ∧ u ≠ 13

theorem verdictLine_self {line : Text} (plain : Plain line) : verdictLine line = line := by
  have whole : line.takeWhile (· ≠ 10) = line :=
    List.takeWhile_eq_self_iff.mpr fun u mem => decide_eq_true (plain u mem).1
  rw [verdictLine, whole, if_neg fun both => Nat.lt_irrefl _ both.1]

theorem verdictLine_append {line : Text} (plain : Plain line) (rest : Text) :
    verdictLine (line ++ 10 :: rest) = line := by
  have first : (line ++ 10 :: rest).takeWhile (· ≠ 10) = line := by
    rw [List.takeWhile_append_of_pos fun u mem => decide_eq_true (plain u mem).1]
    exact List.append_nil line
  rw [verdictLine, first, if_neg]
  intro both
  exact (plain 13 (List.mem_of_getLast? both.2)).2 rfl

theorem verdictLine_joinLines {line : Text} (plain : Plain line) (rows : List Text) :
    verdictLine (joinLines (line :: rows)) = line := by
  cases rows with
  | nil =>
      have single : joinLines [line] = line := by simp [joinLines]
      rw [single, verdictLine_self plain]
  | cons next rows =>
      have split : joinLines (line :: next :: rows) = line ++ 10 :: joinLines (next :: rows) := by
        simp [joinLines, List.intercalate]
      rw [split, verdictLine_append plain]

theorem isBig_spec {c : Char} (big : (isBig c || c = '_') = true) :
    65 ≤ c.toNat ∧ c.toNat < 128 := by
  rcases (Bool.or_eq_true _ _).mp big with letter | underscore
  · obtain ⟨low, high⟩ := (Bool.and_eq_true _ _).mp letter
    have low : 'A'.toNat ≤ c.toNat := of_decide_eq_true low
    have high : c.toNat ≤ 'Z'.toNat := of_decide_eq_true high
    exact ⟨low, Nat.lt_of_le_of_lt high (by decide)⟩
  · rw [of_decide_eq_true underscore]
    decide

theorem token_spec {token : String} (valid : isVerdictToken token = true) :
    ∀ c ∈ token.toList, 65 ≤ c.toNat ∧ c.toNat < 128 := by
  unfold isVerdictToken at valid
  split at valid
  · cases valid
  · rename_i c rest same
    simp only [Bool.and_eq_true] at valid
    intro d mem
    rw [same] at mem
    rcases List.mem_cons.mp mem with rfl | mem
    · exact isBig_spec (by rw [valid.1.1, Bool.true_or])
    · exact isBig_spec (List.all_eq_true.mp valid.2 d mem)

theorem txt_token {token : String} (valid : isVerdictToken token = true) :
    txt token = token.toList.map Char.toNat :=
  encode_of_plain fun c mem => decide_eq_false (by have := token_spec valid c mem; omega)

theorem plain_verdictText {token : String} (valid : isVerdictToken token = true) :
    Plain (verdictText token) := by
  intro u mem
  rcases List.mem_append.mp mem with label | mem
  · have marks : ∀ u ∈ txt "VERDICT: ", u ≠ 10 ∧ u ≠ 13 := by decide
    exact marks u label
  · rw [txt_token valid] at mem
    obtain ⟨c, known, rfl⟩ := List.mem_map.mp mem
    have := token_spec valid c known
    omega

theorem verdictText_inj {pass fail : String} (valid : isVerdictToken pass = true)
    (valid' : isVerdictToken fail = true) (same : verdictText pass = verdictText fail) :
    pass = fail := by
  have tokens := List.append_cancel_left same
  rw [txt_token valid, txt_token valid'] at tokens
  exact String.toList_injective (List.map_injective_iff.mpr (fun _ _ => Char.toNat_inj.mp) tokens)

/-! ## What passes -/

section

variable {lenses : List AuditLensVerdict} {failures : List AuditFailure}
  {passVerdict failVerdict : String}

/-- Verdict tokens that the schema takes. -/
structure Tokens (passVerdict failVerdict : String) : Prop where
  pass : isVerdictToken passVerdict = true
  fail : isVerdictToken failVerdict = true
  distinct : passVerdict ≠ failVerdict

theorem Tokens.fail_ne (tokens : Tokens passVerdict failVerdict) :
    verdictText failVerdict ≠ verdictText passVerdict := fun same =>
  tokens.distinct (verdictText_inj tokens.fail tokens.pass same).symm

theorem verdictLine_bounded (tokens : Tokens passVerdict failVerdict) (rows fallback : List Text) :
    verdictLine (boundedFailureAggregate failVerdict rows fallback) = verdictText failVerdict := by
  unfold boundedFailureAggregate
  dsimp only
  split
  · exact verdictLine_joinLines (plain_verdictText tokens.fail) _
  · exact verdictLine_joinLines (plain_verdictText tokens.fail) _

theorem verdictLine_miscounted (tokens : Tokens passVerdict failVerdict) :
    verdictLine (miscounted lenses passVerdict failVerdict) = verdictText failVerdict := by
  unfold miscounted
  split
  · exact verdictLine_joinLines (plain_verdictText tokens.fail) _
  · dsimp only
    split
    · exact verdictLine_joinLines (plain_verdictText tokens.fail) _
    · exact verdictLine_bounded tokens _ _

/-- Between two and four lenses under different ids, within the budget. -/
structure WellCounted (lenses : List AuditLensVerdict) : Prop where
  enough : AUDIT_LENS_MIN ≤ lenses.length
  few : lenses.length ≤ AUDIT_LENS_MAX
  ids : ∀ lens ∈ lenses, isAuditLensId lens.id = true
  nodup : (lenses.map AuditLensVerdict.id).Nodup
  budget : evidenceWithinBudget lenses

/-- The first line is the pass verdict if every lens has it, else the fail verdict. -/
theorem aggregate_cases (tokens : Tokens passVerdict failVerdict) :
    verdictLine (aggregateAuditLenses lenses passVerdict failVerdict) = verdictText failVerdict ∨
      WellCounted lenses ∧ (∀ lens ∈ lenses, verdictLine lens.output = verdictText passVerdict) ∧
        verdictLine (aggregateAuditLenses lenses passVerdict failVerdict) =
          verdictText passVerdict := by
  unfold aggregateAuditLenses
  rw [if_neg (not_not.mpr ⟨tokens.pass, tokens.fail, tokens.distinct⟩)]
  split
  · exact .inl (verdictLine_miscounted tokens)
  · rename_i counted
    split
    · exact .inl (verdictLine_joinLines (plain_verdictText tokens.fail) _)
    · rename_i named
      split
      · exact .inl (verdictLine_joinLines (plain_verdictText tokens.fail) _)
      · rename_i budget
        split
        · rename_i passes
          obtain ⟨enough, few⟩ := not_or.mp counted
          obtain ⟨ids, nodup⟩ := not_not.mp named
          exact .inr ⟨⟨Nat.not_lt.mp enough, Nat.not_lt.mp few, ids, nodup, not_not.mp budget⟩,
            passes, verdictLine_joinLines (plain_verdictText tokens.pass) _⟩
        · exact .inl (verdictLine_bounded tokens _ _)

theorem aggregate_passes (tokens : Tokens passVerdict failVerdict)
    (passes : verdictLine (aggregateAuditLenses lenses passVerdict failVerdict) =
      verdictText passVerdict) :
    WellCounted lenses ∧ ∀ lens ∈ lenses, verdictLine lens.output = verdictText passVerdict := by
  rcases aggregate_cases tokens with fails | ⟨counted, all, -⟩
  · exact absurd (fails.symm.trans passes) tokens.fail_ne
  · exact ⟨counted, all⟩

theorem aggregate_passes_iff (tokens : Tokens passVerdict failVerdict) :
    verdictLine (aggregateAuditLenses lenses passVerdict failVerdict) = verdictText passVerdict ↔
      WellCounted lenses ∧
        ∀ lens ∈ lenses, verdictLine lens.output = verdictText passVerdict := by
  refine ⟨aggregate_passes tokens, fun ⟨counted, all⟩ => ?_⟩
  have sized : ¬ (lenses.length < AUDIT_LENS_MIN ∨ AUDIT_LENS_MAX < lenses.length) :=
    not_or.mpr ⟨Nat.not_lt.mpr counted.enough, Nat.not_lt.mpr counted.few⟩
  rw [aggregateAuditLenses, if_neg (not_not.mpr ⟨tokens.pass, tokens.fail, tokens.distinct⟩),
    if_neg sized, if_neg (not_not.mpr ⟨counted.ids, counted.nodup⟩),
    if_neg (not_not.mpr counted.budget), if_pos all]
  exact verdictLine_joinLines (plain_verdictText tokens.pass) _

end

end Opensquid.Audit
