import Opensquid.Audit.Evidence
import Opensquid.Lib.JsonText

/-!
# What an audit declares

The arguments of `cached_audit`: a prompt or several lenses, the verdict tokens, a time limit and
the subject. Evidence is kept under a hash of the whole declaration, and each lens's output under a
hash of the lens's own policy. Both hash a JSON text; the text determines what it identifies
(`policyText_inj`, `declarationText_inj`), so that two hashes agree only if the declarations do or
the hash collides on their texts.
-/

namespace Opensquid.Audit

open Opensquid.Lib Utf16

/-! ## Arguments -/

def MAX_AUDIT_TEXT_BYTES : Nat := 300000
def MAX_AUDIT_CRITERIA : Nat := 16
def MAX_AUDIT_CRITERION_BYTES : Nat := 4096

/-- A text of at most so many units and bytes. -/
def isBoundedText (maxBytes : Nat) (text : String) : Bool :=
  (txt text).length ≤ maxBytes ∧ byteLength (txt text) ≤ maxBytes

@[ext]
structure AuditLens where
  id : String
  prompt : String
  criteria : Option (List String) := none
  deriving DecidableEq, Repr


def renderPrompt (lens : AuditLens) : String :=
  match lens.criteria with
  | none => lens.prompt
  | some criteria =>
      lens.prompt ++ "\n\nCriteria:\n" ++ "\n".intercalate (criteria.map ("- " ++ ·))

def AuditLens.Valid (lens : AuditLens) : Prop :=
  isAuditLensId lens.id = true ∧
    (isBoundedText MAX_AUDIT_TEXT_BYTES lens.prompt = true ∧ lens.prompt ≠ "") ∧
    (∀ criteria ∈ lens.criteria, criteria ≠ [] ∧ criteria.length ≤ MAX_AUDIT_CRITERIA ∧
      ∀ criterion ∈ criteria,
        criterion ≠ "" ∧ isBoundedText MAX_AUDIT_CRITERION_BYTES criterion = true) ∧
    byteLength (txt (renderPrompt lens)) ≤ MAX_AUDIT_TEXT_BYTES

instance (lens : AuditLens) : Decidable lens.Valid :=
  inferInstanceAs (Decidable (_ ∧ (_ ∧ _) ∧ (∀ criteria ∈ lens.criteria, _ ∧ _ ∧ _) ∧ _))

def AuditLensSet (lenses : List AuditLens) : Prop :=
  AUDIT_LENS_MIN ≤ lenses.length ∧ lenses.length ≤ AUDIT_LENS_MAX ∧
    (∀ lens ∈ lenses, lens.Valid) ∧ (lenses.map AuditLens.id).Nodup

instance (lenses : List AuditLens) : Decidable (AuditLensSet lenses) :=
  inferInstanceAs (Decidable (_ ∧ _ ∧ _ ∧ _))

/-- Exactly one of prompt and lenses. -/
inductive Reviews
  | single (prompt : String)
  | fanout (lenses : List AuditLens)
  deriving DecidableEq, Repr

def Reviews.Valid : Reviews → Prop
  | .single prompt => isBoundedText MAX_AUDIT_TEXT_BYTES prompt = true ∧ prompt ≠ ""
  | .fanout lenses => AuditLensSet lenses

instance : (reviews : Reviews) → Decidable reviews.Valid
  | .single prompt => inferInstanceAs
      (Decidable (isBoundedText MAX_AUDIT_TEXT_BYTES prompt = true ∧ prompt ≠ ""))
  | .fanout lenses => inferInstanceAs (Decidable (AuditLensSet lenses))

structure CachedAuditArgs where
  model : String
  reviews : Reviews
  passVerdict : String := "GUESS_FREE"
  failVerdict : String := "UNRESOLVED"
  timeoutMs : Option Nat := none
  subject : Option String := none
  deriving DecidableEq, Repr

def CachedAuditArgs.Valid (args : CachedAuditArgs) : Prop :=
  args.model ≠ "" ∧ args.reviews.Valid ∧
    (isVerdictToken args.passVerdict = true ∧ isVerdictToken args.failVerdict = true ∧
      args.passVerdict ≠ args.failVerdict) ∧
    (∀ timeout ∈ args.timeoutMs, 1 ≤ timeout ∧ timeout ≤ 600000) ∧
    ∀ subject ∈ args.subject, isBoundedText MAX_AUDIT_TEXT_BYTES subject = true

instance (args : CachedAuditArgs) : Decidable args.Valid :=
  inferInstanceAs (Decidable (_ ∧ _ ∧ (_ ∧ _ ∧ _) ∧
    (∀ timeout ∈ args.timeoutMs, 1 ≤ timeout ∧ timeout ≤ 600000) ∧
    ∀ subject ∈ args.subject, isBoundedText MAX_AUDIT_TEXT_BYTES subject = true))

theorem CachedAuditArgs.Valid.tokens {args : CachedAuditArgs} (valid : args.Valid) :
    Tokens args.passVerdict args.failVerdict :=
  ⟨valid.2.2.1.1, valid.2.2.1.2.1, valid.2.2.1.2.2⟩

/-! ## Identities -/

/-- The hash of a text, as 64 hexadecimal digits. -/
structure Sha256 where
  hex : List Char → String
  sound : ∀ text, isSha256 (hex text) = true

/-- The hash has no collision among these texts. -/
def Sha256.Distinguishes (sha : Sha256) (texts : List (List Char)) : Prop :=
  ∀ text ∈ texts, ∀ other ∈ texts, sha.hex text = sha.hex other → text = other

def number (n : Nat) : Json := .num (String.ofList (Nat.toDigits 10 n))

/-- A field that is left out when it is undefined. -/
def optionalField (key : String) (value : Option Json) : List (String × Json) :=
  (value.map fun json => (key, json)).toList

def strings (texts : List String) : Json := .arr (texts.map .str)

def AuditLens.toJson (lens : AuditLens) : Json :=
  .obj ([("id", .str lens.id), ("prompt", .str lens.prompt)] ++
    optionalField "criteria" (lens.criteria.map strings))

def policyJson (args : CachedAuditArgs) (lens : AuditLens) : Json :=
  .obj ([("model", .str args.model), ("id", .str lens.id), ("prompt", .str lens.prompt)] ++
    optionalField "criteria" (lens.criteria.map strings) ++
    [("passVerdict", .str args.passVerdict), ("failVerdict", .str args.failVerdict)] ++
    optionalField "timeoutMs" (args.timeoutMs.map number))

def policyText (args : CachedAuditArgs) (lens : AuditLens) : List Char :=
  (policyJson args lens).stringify

def auditLensPolicyHash (sha : Sha256) (args : CachedAuditArgs) (lens : AuditLens) : String :=
  sha.hex (policyText args lens)

def reviewsFields : Reviews → List (String × Json) × List (String × Json)
  | .single prompt => ([("mode", .str "prompt")], [("prompt", .str prompt)])
  | .fanout lenses => ([("mode", .str "lenses")], [("lenses", .arr (lenses.map AuditLens.toJson))])

def declarationJson (args : CachedAuditArgs) : Json :=
  .obj ((reviewsFields args.reviews).1 ++ [("model", .str args.model)] ++
    (reviewsFields args.reviews).2 ++
    [("pass_verdict", .str args.passVerdict), ("fail_verdict", .str args.failVerdict)] ++
    optionalField "timeout_ms" (args.timeoutMs.map number))

def subjectHash (sha : Sha256) (args : CachedAuditArgs) : Option String :=
  args.subject.map fun subject => sha.hex subject.toList

/-- The text whose hash evidence is kept under. -/
def declarationText (sha : Sha256) (args : CachedAuditArgs) : List Char :=
  let identity := (declarationJson args).stringify
  match subjectHash sha args with
  | none => identity
  | some hash =>
      (Json.obj [("identity", .str (String.ofList identity)), ("subjectHash", .str hash)]).stringify

def auditDeclarationCacheHash (sha : Sha256) (args : CachedAuditArgs) : String :=
  sha.hex (declarationText sha args)

/-- The texts by whose hashes a call finds evidence. -/
def identityTexts (sha : Sha256) (args : CachedAuditArgs) : List (List Char) :=
  declarationText sha args :: (args.subject.map String.toList).toList ++
    match args.reviews with
    | .single _ => []
    | .fanout lenses => lenses.map (policyText args)

/-! ## Texts determine what they identify -/

theorem number_wf (n : Nat) : (number n).Wf := by
  refine ⟨?_, fun c mem => ?_⟩
  · rw [String.toList_ofList]
    exact Nat.toDigits_ne_nil
  · rw [String.toList_ofList] at mem
    rw [Json.isNumChar, Nat.isDigit_of_mem_toDigits (by omega) (by omega) mem]
    rfl

theorem number_inj {n m : Nat} (same : number n = number m) : n = m := by
  injection same with same
  have digits := congrArg String.toList same
  rw [String.toList_ofList, String.toList_ofList] at digits
  have value := congrArg (fun chars => Nat.ofDigitChars 10 chars 0) digits
  rwa [Nat.ofDigitChars_ten_toDigits, Nat.ofDigitChars_ten_toDigits] at value

theorem strings_wf (texts : List String) : (strings texts).Wf := by
  induction texts with
  | nil => trivial
  | cons text texts ih => exact ⟨trivial, ih⟩

theorem strings_inj {texts others : List String} (same : strings texts = strings others) :
    texts = others := by
  injection same with same
  exact List.map_injective_iff.mpr (fun _ _ same => by injection same) same

theorem wfFields_append {fields more : List (String × Json)} (wf : Json.WfFields fields)
    (wf' : Json.WfFields more) : Json.WfFields (fields ++ more) := by
  induction fields with
  | nil => exact wf'
  | cons field fields ih => exact ⟨wf.1, ih wf.2⟩

theorem optionalField_wf {key : String} {value : Option Json} (wf : ∀ json ∈ value, json.Wf) :
    Json.WfFields (optionalField key value) := by
  cases value with
  | none => trivial
  | some json => exact ⟨wf json rfl, trivial⟩

theorem optionalField_inj {key : String} {value value' : Option Json}
    (same : optionalField key value = optionalField key value') : value = value' := by
  cases value <;> cases value'
  · rfl
  · cases same
  · cases same
  · injection same with same
    injection same with _ same
    rw [same]

/-- Whether an optional field is there shows in what follows it. -/
theorem optionalField_append_inj {key next : String} (other : key ≠ next)
    {value value' : Option Json} {json json' : Json} {rest rest' : List (String × Json)}
    (same : optionalField key value ++ (next, json) :: rest =
      optionalField key value' ++ (next, json') :: rest') :
    value = value' ∧ json = json' ∧ rest = rest' := by
  cases value with
  | none =>
      cases value' with
      | none =>
          injection same with same rest
          injection same with _ same
          exact ⟨rfl, same, rest⟩
      | some _ =>
          injection same with same
          injection same with same
          exact absurd same.symm other
  | some _ =>
      cases value' with
      | none =>
          injection same with same
          injection same with same
          exact absurd same other
      | some _ =>
          injection same with first rest
          injection first with _ first
          injection rest with second rest
          injection second with _ second
          exact ⟨by rw [first], second, rest⟩

theorem criteria_wf (criteria : Option (List String)) :
    Json.WfFields (optionalField "criteria" (criteria.map strings)) :=
  optionalField_wf fun json mem => by
    obtain ⟨texts, -, rfl⟩ := Option.map_eq_some_iff.mp mem
    exact strings_wf texts

theorem timeout_wf (key : String) (timeout : Option Nat) :
    Json.WfFields (optionalField key (timeout.map number)) :=
  optionalField_wf fun json mem => by
    obtain ⟨ms, -, rfl⟩ := Option.map_eq_some_iff.mp mem
    exact number_wf ms

theorem map_number_inj {timeout timeout' : Option Nat}
    (same : timeout.map number = timeout'.map number) : timeout = timeout' :=
  Option.map_injective (fun _ _ same => number_inj same) same

theorem map_strings_inj {criteria criteria' : Option (List String)}
    (same : criteria.map strings = criteria'.map strings) : criteria = criteria' :=
  Option.map_injective (fun _ _ same => strings_inj same) same

/-- Arguments that agree but for what is reviewed, and of what subject. -/
structure SamePolicy (args args' : CachedAuditArgs) : Prop where
  model : args.model = args'.model
  pass : args.passVerdict = args'.passVerdict
  fail : args.failVerdict = args'.failVerdict
  timeout : args.timeoutMs = args'.timeoutMs

theorem verdicts_inj {pass fail timeout : String} {args args' : CachedAuditArgs}
    (same : (pass, Json.str args.passVerdict) :: (fail, Json.str args.failVerdict) ::
        optionalField timeout (args.timeoutMs.map number) =
      (pass, Json.str args'.passVerdict) :: (fail, Json.str args'.failVerdict) ::
        optionalField timeout (args'.timeoutMs.map number)) :
    args.passVerdict = args'.passVerdict ∧ args.failVerdict = args'.failVerdict ∧
      args.timeoutMs = args'.timeoutMs := by
  injection same with passes rest
  injection rest with fails rest
  injection passes with _ passes
  injection passes with passes
  injection fails with _ fails
  injection fails with fails
  exact ⟨passes, fails, map_number_inj (optionalField_inj rest)⟩

/-- A policy text determines the policy and the lens. -/
theorem policyText_inj {args args' : CachedAuditArgs} {lens lens' : AuditLens}
    (same : policyText args lens = policyText args' lens') :
    SamePolicy args args' ∧ lens = lens' := by
  have wf : ∀ args lens, (policyJson args lens).Wf := fun args lens =>
    wfFields_append (wfFields_append (wfFields_append ⟨trivial, trivial, trivial, trivial⟩
      (criteria_wf lens.criteria)) ⟨trivial, trivial, trivial⟩) (timeout_wf _ args.timeoutMs)
  have json := Json.stringify_injective (wf args lens) (wf args' lens') same
  injection json with fields
  simp only [List.append_assoc, List.cons_append, List.nil_append] at fields
  injection fields with model fields
  injection fields with id fields
  injection fields with prompt fields
  injection model with _ model
  injection model with model
  injection id with _ id
  injection id with id
  injection prompt with _ prompt
  injection prompt with prompt
  obtain ⟨criteria, pass, rest⟩ := optionalField_append_inj (by simp) fields
  injection pass with pass
  injection rest with fail rest
  injection fail with _ fail
  injection fail with fail
  refine ⟨⟨model, pass, fail, map_number_inj (optionalField_inj rest)⟩, ?_⟩
  exact AuditLens.ext id prompt (map_strings_inj criteria)

theorem lensJson_wf (lens : AuditLens) : lens.toJson.Wf :=
  wfFields_append ⟨trivial, trivial, trivial⟩ (criteria_wf lens.criteria)

theorem toJson_inj {lens lens' : AuditLens} (same : lens.toJson = lens'.toJson) : lens = lens' := by
  injection same with fields
  injection fields with id fields
  injection fields with prompt fields
  injection id with _ id
  injection id with id
  injection prompt with _ prompt
  injection prompt with prompt
  exact AuditLens.ext id prompt (map_strings_inj (optionalField_inj fields))

theorem lensesJson_wf (lenses : List AuditLens) : (Json.arr (lenses.map AuditLens.toJson)).Wf := by
  induction lenses with
  | nil => trivial
  | cons lens lenses ih => exact ⟨lensJson_wf lens, ih⟩

theorem declarationJson_wf (args : CachedAuditArgs) : (declarationJson args).Wf := by
  refine wfFields_append (wfFields_append (wfFields_append (wfFields_append ?_
    ⟨trivial, trivial⟩) ?_) ⟨trivial, trivial, trivial⟩) (timeout_wf _ args.timeoutMs)
  · cases args.reviews <;> exact ⟨trivial, trivial⟩
  · cases args.reviews with
    | single prompt => exact ⟨trivial, trivial⟩
    | fanout lenses => exact ⟨lensesJson_wf lenses, trivial⟩

theorem reviewsFields_inj {reviews reviews' : Reviews}
    (mode : (reviewsFields reviews).1 = (reviewsFields reviews').1)
    (what : (reviewsFields reviews).2 = (reviewsFields reviews').2) : reviews = reviews' := by
  cases reviews with
  | single prompt =>
      cases reviews' with
      | single prompt' =>
          injection what with what
          injection what with _ what
          injection what with what
          rw [what]
      | fanout lenses' =>
          injection what with what
          injection what with what
          exact absurd what (by simp)
  | fanout lenses =>
      cases reviews' with
      | single prompt' =>
          injection what with what
          injection what with what
          exact absurd what (by simp)
      | fanout lenses' =>
          injection what with what
          injection what with _ what
          injection what with what
          rw [List.map_injective_iff.mpr (fun _ _ => toJson_inj) what]

theorem declarationJson_inj {args args' : CachedAuditArgs}
    (same : declarationJson args = declarationJson args') :
    SamePolicy args args' ∧ args.reviews = args'.reviews := by
  injection same with fields
  have one : ∀ reviews, (reviewsFields reviews).1.length = 1 ∧
      (reviewsFields reviews).2.length = 1 := fun reviews => by
    cases reviews <;> exact ⟨rfl, rfl⟩
  obtain ⟨modes, whats⟩ := one args.reviews
  obtain ⟨modes', whats'⟩ := one args'.reviews
  simp only [List.append_assoc, List.cons_append, List.nil_append] at fields
  obtain ⟨mode, fields⟩ := List.append_inj fields (modes.trans modes'.symm)
  injection fields with model fields
  obtain ⟨what, fields⟩ := List.append_inj fields (whats.trans whats'.symm)
  injection model with _ model
  injection model with model
  obtain ⟨pass, fail, timeout⟩ := verdicts_inj fields
  exact ⟨⟨model, pass, fail, timeout⟩, reviewsFields_inj mode what⟩

/-- A declaration text determines the declaration, up to the subject. -/
theorem declarationText_inj {sha : Sha256} {args args' : CachedAuditArgs}
    (same : declarationText sha args = declarationText sha args') :
    SamePolicy args args' ∧ args.reviews = args'.reviews := by
  have wf := declarationJson_wf args
  have wf' := declarationJson_wf args'
  have keyed : ∀ (args : CachedAuditArgs) identity hash, declarationJson args ≠
      .obj [("identity", .str identity), ("subjectHash", .str hash)] := by
    intro args identity hash same
    injection same with fields
    cases reviews : args.reviews <;>
      · rw [reviews] at fields
        injection fields with mode
        injection mode with mode
        exact absurd mode (by simp)
  have keyed_wf : ∀ identity hash,
      (Json.obj [("identity", .str identity), ("subjectHash", .str hash)]).Wf :=
    fun _ _ => ⟨trivial, trivial, trivial⟩
  unfold declarationText at same
  cases subject : subjectHash sha args with
  | none =>
      cases subject' : subjectHash sha args' with
      | none =>
          rw [subject, subject'] at same
          exact declarationJson_inj (Json.stringify_injective wf wf' same)
      | some hash' =>
          rw [subject, subject'] at same
          exact absurd (Json.stringify_injective wf (keyed_wf _ _) same) (keyed _ _ _)
  | some hash =>
      cases subject' : subjectHash sha args' with
      | none =>
          rw [subject, subject'] at same
          exact absurd (Json.stringify_injective wf' (keyed_wf _ _) same.symm)
            (keyed _ _ _)
      | some hash' =>
          rw [subject, subject'] at same
          have json := Json.stringify_injective (keyed_wf _ _) (keyed_wf _ _) same
          injection json with fields
          injection fields with identity
          injection identity with _ identity
          injection identity with identity
          have texts := congrArg String.toList identity
          rw [String.toList_ofList, String.toList_ofList] at texts
          exact declarationJson_inj (Json.stringify_injective wf wf' texts)

end Opensquid.Audit
