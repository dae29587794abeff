import Mathlib.Data.List.Nodup
import Opensquid.Audit.CachedAudit

/-!
# How a fan-out comes out

One call on several lenses: where each completed output comes from (`mem_completed`), that every
declared lens comes out once (`outcomeIds_perm`), that the attempt which is stored is always one
that the schema takes (`fanoutEntry_valid`), and the three ways in which the call ends
(`fanoutAudit_cases`). On its way through the store an output may be cut several times; no cut makes
a verdict line (`verdictLine_of_truncate`).
-/

namespace Opensquid.Audit

open Opensquid.Lib Utf16 Opensquid.Subagents

/-! ## First lines and cuts -/

/-- A line as short as any verdict line. -/
def Short (line : Text) : Prop := line.length ≤ 73

theorem short_verdictText {token : String} (valid : isVerdictToken token = true) :
    Short (verdictText token) := by
  have few : token.toList.length ≤ 64 := by
    unfold isVerdictToken at valid
    split at valid
    · cases valid
    · rename_i c rest same
      simp only [Bool.and_eq_true, decide_eq_true_eq] at valid
      rw [same, List.length_cons]
      omega
  have label : (txt "VERDICT: ").length = 9 := by decide
  rw [Short, verdictText, List.length_append, label, txt_token valid, List.length_map]
  omega

theorem takeWhile_of_fresh {line : Text} (fresh : 10 ∉ line) (more : Text) :
    (line ++ 10 :: more).takeWhile (· ≠ 10) = line := by
  have passes : ∀ u ∈ line, decide (u ≠ 10) = true := fun u mem =>
    decide_eq_true fun ten => fresh (ten ▸ mem)
  rw [List.takeWhile_append_of_pos passes]
  exact List.append_nil line

theorem verdictLine_append_of_mem {front : Text} (broken : 10 ∈ front) (rest : Text) :
    verdictLine (front ++ rest) =
      if (front.takeWhile (· ≠ 10)).getLast? = some 13 then (front.takeWhile (· ≠ 10)).dropLast
      else front.takeWhile (· ≠ 10) := by
  obtain ⟨before, after, same, fresh⟩ := List.eq_append_cons_of_mem broken
  have first : (front ++ rest).takeWhile (· ≠ 10) = front.takeWhile (· ≠ 10) := by
    rw [same, List.append_assoc, List.cons_append, takeWhile_of_fresh fresh,
      takeWhile_of_fresh fresh]
  have shorter : (front.takeWhile (· ≠ 10)).length < (front ++ rest).length := by
    rw [← first]
    have start := List.takeWhile_prefix (l := front ++ rest) fun u => decide (u ≠ 10)
    refine Nat.lt_of_le_of_ne start.length_le fun whole => ?_
    have all := List.takeWhile_eq_self_iff.mp (start.eq_of_length whole)
    exact of_decide_eq_true (all 10 (List.mem_append_left rest broken)) rfl
  rw [verdictLine, first]
  exact if_congr (and_iff_right shorter) rfl rfl

/-- No cut makes a short first line. -/
theorem verdictLine_of_truncate {text line : Text} {limit : Nat} (roomy : 1024 ≤ limit)
    (short : Short line) (same : verdictLine (truncateUtf8 text limit) = line) :
    verdictLine text = line := by
  by_cases fits : (byteLength text : Int) ≤ limit
  · rwa [truncateUtf8, if_pos fits] at same
  obtain ⟨front, next, more, whole, cut, -, beyond⟩ := truncateUtf8_cut fits (by omega)
  rw [cut] at same
  by_cases broken : 10 ∈ front
  · rw [whole, verdictLine_append_of_mem broken]
    rwa [verdictLine_append_of_mem broken] at same
  · -- the marker starts a new line, and the start is far too long for a verdict
    have bytes := byteLength_le (front ++ [next])
    rw [List.length_append, List.length_singleton] at bytes
    have marker : suffix = 10 :: suffix.tail := by decide
    have first : (front ++ suffix).takeWhile (· ≠ 10) = front := by
      rw [marker, takeWhile_of_fresh broken]
    rw [verdictLine, first] at same
    unfold Short at short
    split at same
    · rw [← same, List.length_dropLast] at short
      omega
    · rw [← same] at short
      omega

/-- Whatever short first line the text has, the answer has. -/
def LineFrom (answer text : Text) : Prop :=
  ∀ line, Short line → verdictLine text = line → verdictLine answer = line

theorem LineFrom.refl (answer : Text) : LineFrom answer answer := fun _ _ same => same

theorem LineFrom.truncate {answer text : Text} (lines : LineFrom answer text) {limit : Nat}
    (roomy : 1024 ≤ limit) : LineFrom answer (truncateUtf8 text limit) := fun line short same =>
  lines line short (verdictLine_of_truncate roomy short same)

theorem le_perLensLimit (count : Nat) : 1024 ≤ perLensLimit count := Nat.le_max_left _ _

/-! ## How a lens comes out -/

section

variable {sha : Sha256} {env : Environment} {args : CachedAuditArgs} {lenses : List AuditLens}
  {audits : TaskAudits} {lens : AuditLens}

theorem mem_lookup {entries : List (String × AuditLensVerdict)} {id : String}
    {prior : AuditLensVerdict} (found : entries.lookup id = some prior) :
    (id, prior) ∈ entries := by
  obtain ⟨before, after, split, _⟩ := List.lookup_eq_some_iff.mp found
  rw [split]
  exact List.mem_append_right _ List.mem_cons_self

/-- A lens that is reused has an output in the evidence of the subject, under its own policy. -/
theorem exists_of_reuses {limit : Nat} {authorized : List AuditEvidenceEntry}
    {prior : AuditLensVerdict} (found : reuses (priorLenses sha args limit authorized lenses)
      (auditLensPolicyHash sha args) lens = some prior) :
    ∃ entry ∈ authorized, ∃ stored ∈ entry.lenses, stored.id = lens.id ∧
      stored.promptHash = auditLensPolicyHash sha args lens ∧
      prior = { stored with output := truncateUtf8 stored.output limit } := by
  obtain ⟨found, hash⟩ := Option.filter_eq_some_iff.mp found
  have hash := of_decide_eq_true hash
  obtain ⟨other, -, listed⟩ := List.mem_filterMap.mp (mem_lookup found)
  obtain ⟨verdict, search, same⟩ := Option.map_eq_some_iff.mp listed
  obtain ⟨ids, values⟩ := Prod.mk.inj same
  obtain ⟨stored, search, cut⟩ := Option.map_eq_some_iff.mp search
  obtain rfl := cut.trans values
  obtain ⟨entry, mem, inside⟩ := List.mem_flatMap.mp (List.mem_of_find?_eq_some search)
  have passes := List.find?_some search
  have facts := of_decide_eq_true passes
  exact ⟨entry, mem, stored, inside, facts.1.trans ids, hash, rfl⟩

/-- A lens with an output in the evidence of the subject is reused. -/
theorem reuses_isSome {limit : Nat} {authorized : List AuditEvidenceEntry}
    (distinct : (lenses.map AuditLens.id).Nodup) (declared : lens ∈ lenses)
    {entry : AuditEvidenceEntry} (known : entry ∈ authorized) {stored : AuditLensVerdict}
    (inside : stored ∈ entry.lenses) (id : stored.id = lens.id)
    (hash : stored.promptHash = auditLensPolicyHash sha args lens) :
    (reuses (priorLenses sha args limit authorized lenses) (auditLensPolicyHash sha args)
      lens).isSome = true := by
  have search : ((authorized.flatMap AuditEvidenceEntry.lenses).find? fun prior =>
      prior.id = lens.id ∧ prior.promptHash = auditLensPolicyHash sha args lens).isSome = true :=
    List.find?_isSome.mpr ⟨stored, List.mem_flatMap.mpr ⟨entry, known, inside⟩,
      decide_eq_true ⟨id, hash⟩⟩
  obtain ⟨first, search⟩ := Option.isSome_iff_exists.mp search
  have passes := List.find?_some search
  have facts := of_decide_eq_true passes
  have prior : priorLens sha args limit authorized lens =
      some { first with output := truncateUtf8 first.output limit } := by
    rw [priorLens, search]
    rfl
  have listed : (lens.id, { first with output := truncateUtf8 first.output limit }) ∈
      priorLenses sha args limit authorized lenses :=
    List.mem_filterMap.mpr ⟨lens, declared, by rw [prior]; rfl⟩
  have found : ∃ verdict, (priorLenses sha args limit authorized lenses).lookup lens.id =
      some verdict := by
    refine Option.isSome_iff_exists.mp (List.lookup_isSome_iff.mpr ⟨_, listed, ?_⟩)
    exact beq_self_eq_true _
  obtain ⟨verdict, found⟩ := found
  -- no other lens has this id
  obtain ⟨other, declared', same⟩ := List.mem_filterMap.mp (mem_lookup found)
  obtain ⟨verdict', prior', same⟩ := Option.map_eq_some_iff.mp same
  obtain ⟨ids, values⟩ := Prod.mk.inj same
  have lens_same := List.inj_on_of_nodup_map distinct declared' declared ids
  rw [lens_same, prior] at prior'
  cases prior'
  rw [reuses, found, ← values, Option.filter_some, if_pos (decide_eq_true facts.2)]
  rfl

/-! ## Attempts that the schema takes -/

theorem hasVerdict_ne_nil {text : Text} (verdict : hasVerdict text = true) : text ≠ [] := by
  intro none
  subst none
  revert verdict
  decide

/-- An output of a completed lens is a cut of what the lens's answer was, or of a stored output. -/
theorem mem_completed {verdict : AuditLensVerdict}
    (mem : verdict ∈ (runFanout sha env args lenses audits).completed) :
    ∃ lens ∈ lenses, verdict.id = lens.id ∧
      verdict.promptHash = auditLensPolicyHash sha args lens ∧ ∃ text,
        verdict.output = truncateUtf8 text (perLensLimit lenses.length) ∧
        ((∃ entry ∈ authorizedEntries sha env args audits, ∃ stored ∈ entry.lenses,
            stored.id = lens.id ∧ stored.promptHash = verdict.promptHash ∧ stored.output = text) ∨
          lens ∈ askedLenses sha env args lenses audits ∧ env.call (.lens lens) = .ok text ∧
            hasVerdict text = true) := by
  obtain ⟨lens, declared, out⟩ := List.mem_filterMap.mp mem
  refine ⟨lens, declared, ?_⟩
  unfold attempt at out
  split at out
  · rename_i prior found
    cases out
    obtain ⟨entry, known, stored, inside, id, hash, rfl⟩ := exists_of_reuses found
    exact ⟨id, hash, stored.output, rfl, .inl ⟨entry, known, stored, inside, id, rfl, rfl⟩⟩
  · rename_i missing
    split at out
    · rename_i output review
      cases out
      refine ⟨rfl, rfl, ?_⟩
      unfold reviewLens at review
      split at review
      · cases review
      · rename_i text answer
        split at review
        · rename_i verdict
          cases review
          have asked : lens ∈ askedLenses sha env args lenses audits :=
            List.mem_filter.mpr ⟨declared, by rw [missing]; rfl⟩
          exact ⟨text, rfl, .inr ⟨asked, answer, verdict⟩⟩
        · cases review
    · cases out

theorem mem_failures {failure : String × Thrown}
    (mem : failure ∈ (runFanout sha env args lenses audits).failures) :
    ∃ lens ∈ lenses, failure.1 = lens.id := by
  obtain ⟨lens, declared, out⟩ := List.mem_filterMap.mp mem
  refine ⟨lens, declared, ?_⟩
  unfold attempt at out
  split at out
  · cases out
  · split at out
    · cases out
    · cases out
      rfl

/-- Every item comes out on one of two sides. -/
theorem partition_perm {α β γ δ : Type} (f : α → Except β γ) (left : β → δ) (right : γ → δ)
    (key : α → δ) (items : List α) (errors : ∀ x ∈ items, ∀ e, f x = .error e → left e = key x)
    (values : ∀ x ∈ items, ∀ v, f x = .ok v → right v = key x) :
    ((items.filterMap fun x => okOf (f x)).map right ++
      (items.filterMap fun x => errorOf (f x)).map left).Perm (items.map key) := by
  induction items with
  | nil => exact .refl _
  | cons x items ih =>
      have rest := ih (fun y mem => errors y (List.mem_cons_of_mem _ mem))
        (fun y mem => values y (List.mem_cons_of_mem _ mem))
      cases out : f x with
      | ok v =>
          have here := values x List.mem_cons_self v out
          simp only [List.filterMap_cons, out, okOf, errorOf, List.map_cons, List.cons_append, here]
          exact rest.cons _
      | error e =>
          have here := errors x List.mem_cons_self e out
          simp only [List.filterMap_cons, out, okOf, errorOf, List.map_cons, here]
          exact List.perm_middle.trans (rest.cons _)

theorem attempt_ids {cached : List (String × AuditLensVerdict)} {limit : Nat}
    {authorized : List AuditEvidenceEntry} {review : AuditLens → Except Thrown Text}
    (priors : cached = priorLenses sha args limit authorized lenses) :
    (∀ verdict, attempt cached (auditLensPolicyHash sha args) review lens = .ok verdict →
      verdict.id = lens.id) ∧
    ∀ failure, attempt cached (auditLensPolicyHash sha args) review lens = .error failure →
      failure.1 = lens.id := by
  subst priors
  unfold attempt
  split
  · rename_i prior found
    refine ⟨fun verdict same => ?_, nofun⟩
    cases same
    obtain ⟨entry, known, stored, inside, id, hash, rfl⟩ := exists_of_reuses found
    exact id
  · split
    · exact ⟨fun verdict same => by cases same; rfl, nofun⟩
    · exact ⟨nofun, fun failure same => by cases same; rfl⟩

/-- Every declared lens has completed or failed, and nothing else has. -/
theorem outcomeIds_perm :
    ((runFanout sha env args lenses audits).completed.map AuditLensVerdict.id ++
      (runFanout sha env args lenses audits).failures.map Prod.fst).Perm
      (lenses.map AuditLens.id) :=
  partition_perm _ Prod.fst AuditLensVerdict.id AuditLens.id lenses
    (fun _ _ e same => (attempt_ids rfl).2 e same) (fun _ _ v same => (attempt_ids rfl).1 v same)

theorem evidenceBytes_le {verdicts : List AuditLensVerdict} {limit : Nat}
    (each : ∀ verdict ∈ verdicts, byteLength verdict.output ≤ limit) :
    evidenceBytes verdicts ≤ verdicts.length * limit := by
  have sum : ∀ (sizes : List Nat) (start : Nat), (∀ size ∈ sizes, size ≤ limit) →
      sizes.foldl (· + ·) start ≤ start + sizes.length * limit := by
    intro sizes
    induction sizes with
    | nil => intro start _; exact Nat.le_add_right _ _
    | cons size sizes ih =>
        intro start small
        have here := small size List.mem_cons_self
        have rest := ih (start + size) fun other mem => small other (List.mem_cons_of_mem _ mem)
        rw [List.foldl_cons, List.length_cons, Nat.succ_mul]
        omega
  have total := sum (verdicts.map fun verdict => byteLength verdict.output) 0 fun size mem => by
    obtain ⟨verdict, known, rfl⟩ := List.mem_map.mp mem
    exact each verdict known
  rwa [List.length_map, Nat.zero_add] at total

/-- The shares of so many lenses are within the budget. -/
theorem perLensLimit_le {count part : Nat} (enough : AUDIT_LENS_MIN ≤ count)
    (few : count ≤ AUDIT_LENS_MAX) (among : part ≤ count) :
    perLensLimit count ≤ MAX_SUBAGENT_RESULT_BYTES ∧
      part * perLensLimit count ≤ MAX_AUDIT_AGGREGATE_EVIDENCE_BYTES := by
  have shares : ∀ n ∈ [2, 3, 4], perLensLimit n ≤ MAX_SUBAGENT_RESULT_BYTES ∧
      n * perLensLimit n ≤ MAX_AUDIT_AGGREGATE_EVIDENCE_BYTES := by decide
  have listed : count ∈ [2, 3, 4] := by
    have enough : 2 ≤ count := enough
    have few : count ≤ 4 := few
    simp only [List.mem_cons, List.not_mem_nil, or_false]
    omega
  obtain ⟨whole, all⟩ := shares count listed
  exact ⟨whole, Nat.le_trans (Nat.mul_le_mul_right _ among) all⟩

theorem utf8Bounded_truncate {text : Text} {limit maxBytes : Nat} (solid : text ≠ [])
    (roomy : 1024 ≤ limit) (within : limit ≤ maxBytes) :
    utf8Bounded maxBytes (truncateUtf8 text limit) := by
  have upper := @byteLength_truncateUtf8_le limit text (by omega)
  exact ⟨one_le_byteLength (truncateUtf8_ne_nil solid (by omega)), by omega⟩

theorem solid_of_bounded {maxBytes : Nat} {text : Text} (bounded : utf8Bounded maxBytes text) :
    text ≠ [] := by
  intro none
  subst none
  exact absurd bounded.1 (by decide)

theorem describeFailure_ne_nil (error : Thrown) : describeFailure error ≠ [] := by
  unfold describeFailure
  split
  · decide
  · assumption

theorem valid_of_lenses {entry : AuditEvidenceEntry} (valid : entry.Valid)
    {verdict : AuditLensVerdict} (inside : verdict ∈ entry.lenses) : verdict.Valid := by
  obtain ⟨-, -, outcome⟩ := valid
  unfold AuditEvidenceEntry.lenses at inside
  split at inside
  · cases inside
  · rename_i complete lenses failures pass fail same
    rw [same] at outcome
    exact outcome.1.2 verdict inside

/-- What a call would store is always evidence that the schema takes. -/
theorem fanoutEntry_valid (tokens : Tokens args.passVerdict args.failVerdict)
    (set : AuditLensSet lenses)
    (known : ∀ entry ∈ authorizedEntries sha env args audits, entry.Valid) :
    (fanoutEntry sha env args lenses audits).Valid := by
  obtain ⟨enough, few, lens_valid, distinct⟩ := set
  have ids := @outcomeIds_perm sha env args lenses audits
  have parts := ids.length_eq
  rw [List.length_append, List.length_map, List.length_map, List.length_map] at parts
  obtain ⟨share, budget⟩ := perLensLimit_le enough few
    (Nat.le.intro parts : (runFanout sha env args lenses audits).completed.length ≤ lenses.length)
  refine ⟨sha.sound _, fun hash mem => ?_, ⟨?_, ?_⟩, ⟨?_, ?_⟩,
    ⟨tokens.pass, tokens.fail, tokens.distinct⟩, ?_, ?_, ?_⟩
  · obtain ⟨subject, -, rfl⟩ := Option.map_eq_some_iff.mp mem
    exact sha.sound _
  · omega
  · intro verdict mem
    obtain ⟨lens, declared, id, hash, text, output, source⟩ := mem_completed mem
    refine ⟨id ▸ (lens_valid lens declared).1, hash ▸ sha.sound _, ?_⟩
    have solid : text ≠ [] := by
      rcases source with ⟨entry, stored, prior, inside, -, -, rfl⟩ | ⟨-, -, verdict⟩
      · exact solid_of_bounded (valid_of_lenses (known entry stored) inside).2.2
      · exact hasVerdict_ne_nil verdict
    rw [output]
    exact utf8Bounded_truncate solid (le_perLensLimit _) share
  · rw [List.length_map]
    omega
  · intro failure mem
    obtain ⟨thrown, failed, rfl⟩ := List.mem_map.mp mem
    obtain ⟨lens, declared, id⟩ := mem_failures failed
    exact ⟨id ▸ (lens_valid lens declared).1,
      utf8Bounded_truncate (describeFailure_ne_nil _) (by decide : 1024 ≤ 4096) (Nat.le_refl _)⟩
  · refine Nat.le_trans (evidenceBytes_le fun verdict mem => ?_) budget
    obtain ⟨lens, declared, id, hash, text, output, -⟩ := mem_completed mem
    rw [output]
    have upper := @byteLength_truncateUtf8_le (perLensLimit lenses.length) text
      (by have := le_perLensLimit lenses.length; omega)
    omega
  · rw [outcomeIds, List.map_map]
    exact ids.nodup_iff.mpr distinct
  · cases failures : (runFanout sha env args lenses audits).failures with
    | nil =>
        rw [failures, List.length_nil] at parts
        exact ⟨by omega, rfl⟩
    | cons failure rest =>
        have total : (outcomeIds (runFanout sha env args lenses audits).completed
            ((failure :: rest).map fun failure =>
              ⟨failure.1, truncateUtf8 (describeFailure failure.2) 4096⟩)).length =
            lenses.length := by
          rw [outcomeIds, List.length_append, List.length_map, List.length_map, List.length_map,
            ← failures]
          exact parts
        exact ⟨List.cons_ne_nil _ _, by rw [total]; exact enough, by rw [total]; exact few⟩

/-! ## What a call does -/

def askedCalls (sha : Sha256) (env : Environment) (args : CachedAuditArgs)
    (lenses : List AuditLens) (audits : TaskAudits) : List ModelCall :=
  (askedLenses sha env args lenses audits).map fun lens =>
    ⟨args, .lens lens, env.call (.lens lens)⟩

/-- An exact attempt is returned again. -/
structure FanoutHit (sha : Sha256) (env : Environment) (args : CachedAuditArgs)
    (lenses : List AuditLens) (audits : TaskAudits) (entry : AuditEvidenceEntry)
    (found : List AuditLensVerdict) (pass fail : String) : Prop where
  known : entry ∈ authorizedEntries sha env args audits
  hash : entry.hash = auditDeclarationCacheHash sha args
  exact : exactFanout sha args lenses entry = some (found, pass, fail)
  valid : entry.Valid
  outcome : fanoutAudit sha env args lenses audits =
    ⟨audits.store entry, .ok (aggregateAuditLenses found pass fail), []⟩

/-- What was missing has been asked for, and the attempt is stored. -/
structure FanoutStored (sha : Sha256) (env : Environment) (args : CachedAuditArgs)
    (lenses : List AuditLens) (audits : TaskAudits) : Prop where
  valid : (fanoutEntry sha env args lenses audits).Valid
  row : (fanoutAudit sha env args lenses audits).audits =
    audits.store (fanoutEntry sha env args lenses audits)
  calls : (fanoutAudit sha env args lenses audits).calls = askedCalls sha env args lenses audits
  result : (runFanout sha env args lenses audits).failures = [] ∧
      (fanoutAudit sha env args lenses audits).result = .ok (truncateUtf8
        (aggregateAuditLenses (runFanout sha env args lenses audits).completed args.passVerdict
          args.failVerdict) MAX_SUBAGENT_RESULT_BYTES) ∨
    (runFanout sha env args lenses audits).failures ≠ [] ∧
      ∃ error, (fanoutAudit sha env args lenses audits).result = .error error

/-- Nothing is stored. -/
structure FanoutFailed (sha : Sha256) (env : Environment) (args : CachedAuditArgs)
    (lenses : List AuditLens) (audits : TaskAudits) : Prop where
  row : (fanoutAudit sha env args lenses audits).audits = audits
  calls : ∀ call ∈ (fanoutAudit sha env args lenses audits).calls,
    call ∈ askedCalls sha env args lenses audits
  result : ∃ error, (fanoutAudit sha env args lenses audits).result = .error error

structure Environment.Works (env : Environment) : Prop where
  lock : env.lock = .ok ()
  models : env.models = .ok true
  admission : env.admission = .ok ()
  writes : env.writes = true

theorem writeTaskAuditCache_cases (env : Environment) (audits : TaskAudits)
    (entry : AuditEvidenceEntry) :
    writeTaskAuditCache env audits entry = none ∧ ¬ (env.writes = true ∧ entry.Valid) ∨
      writeTaskAuditCache env audits entry = some (audits.store entry) ∧ entry.Valid := by
  unfold writeTaskAuditCache
  split
  · rename_i both
    exact .inr ⟨rfl, both.2⟩
  · rename_i refused
    exact .inl ⟨rfl, refused⟩

theorem freshFanout_cases (same : fanoutAudit sha env args lenses audits =
      freshFanout sha env args lenses audits) :
    FanoutFailed sha env args lenses audits ∧
        ¬ (env.writes = true ∧ (fanoutEntry sha env args lenses audits).Valid) ∨
      FanoutStored sha env args lenses audits := by
  unfold freshFanout at same
  dsimp only at same
  rcases writeTaskAuditCache_cases env audits (fanoutEntry sha env args lenses audits) with
    ⟨refused, invalid⟩ | ⟨stored, valid⟩
  · rw [refused] at same
    exact .inl ⟨⟨by rw [same], fun call mem => by rwa [same] at mem, _, by rw [same]; rfl⟩, invalid⟩
  · rw [stored] at same
    refine .inr ⟨valid, ?_, ?_, ?_⟩
    · rw [same]
      dsimp only
      split <;> rfl
    · rw [same]
      dsimp only
      split <;> rfl
    · cases failures : (runFanout sha env args lenses audits).failures with
      | nil =>
          rw [failures] at same
          exact .inl ⟨rfl, by rw [same]; rfl⟩
      | cons failure rest =>
          rw [failures] at same
          exact .inr ⟨List.cons_ne_nil _ _, _, by rw [same]; rfl⟩

theorem fanoutFailed_of_eq {error : FunctionError}
    (same : fanoutAudit sha env args lenses audits = ⟨audits, .error error, []⟩) :
    FanoutFailed sha env args lenses audits where
  row := by rw [same]
  calls := fun call mem => by
    rw [same] at mem
    cases mem
  result := ⟨error, by rw [same]⟩

/-- The exact attempt that a call finds. -/
def exactHit (sha : Sha256) (env : Environment) (args : CachedAuditArgs) (lenses : List AuditLens)
    (audits : TaskAudits) : Option (AuditEvidenceEntry × List AuditLensVerdict × String × String) :=
  (bestExactEntry (authorizedEntries sha env args audits)
    (auditDeclarationCacheHash sha args)).bind fun entry =>
      (exactFanout sha args lenses entry).map fun found => (entry, found)

theorem fanoutAudit_of_hit {entry : AuditEvidenceEntry} {found : List AuditLensVerdict}
    {pass fail : String} (lock : env.lock = .ok ())
    (hit : exactHit sha env args lenses audits = some (entry, found, pass, fail)) :
    fanoutAudit sha env args lenses audits = match writeTaskAuditCache env audits entry with
      | none => ⟨audits, runtimeError args " could not republish canonical task evidence", []⟩
      | some audits' => ⟨audits', .ok (aggregateAuditLenses found pass fail), []⟩ := by
  unfold exactHit at hit
  rw [fanoutAudit, lock]
  cases write : writeTaskAuditCache env audits entry with
  | none => simp only [hit, write]
  | some audits' => simp only [hit, write]

theorem fanoutAudit_of_miss (lock : env.lock = .ok ())
    (miss : exactHit sha env args lenses audits = none) :
    fanoutAudit sha env args lenses audits = match env.models with
      | .error error => ⟨audits, runtimeError args " fan-out admission: " error.message, []⟩
      | .ok false => ⟨audits, unknownAlias args, []⟩
      | .ok true =>
          match env.admission with
          | .error error => ⟨audits, runtimeError args " fan-out admission: " error.message, []⟩
          | .ok () => freshFanout sha env args lenses audits := by
  unfold exactHit at miss
  rw [fanoutAudit, lock]
  cases env.models with
  | error error => simp only [miss]
  | ok known =>
      cases known with
      | false => simp only [miss]
      | true =>
          cases env.admission with
          | error error => simp only [miss]
          | ok admitted => simp only [miss]

theorem exactHit_some {entry : AuditEvidenceEntry} {found : List AuditLensVerdict}
    {pass fail : String}
    (hit : exactHit sha env args lenses audits = some (entry, found, pass, fail)) :
    entry ∈ authorizedEntries sha env args audits ∧
      entry.hash = auditDeclarationCacheHash sha args ∧
      exactFanout sha args lenses entry = some (found, pass, fail) := by
  obtain ⟨first, best, exact⟩ := Option.bind_eq_some_iff.mp hit
  obtain ⟨found', exact, same⟩ := Option.map_eq_some_iff.mp exact
  obtain ⟨rfl, rfl⟩ := Prod.mk.inj same
  have passes := List.find?_some best
  exact ⟨List.mem_of_find?_eq_some best, of_decide_eq_true passes, exact⟩

theorem fanoutAudit_cases (sha : Sha256) (env : Environment) (args : CachedAuditArgs)
    (lenses : List AuditLens) (audits : TaskAudits) :
    FanoutFailed sha env args lenses audits ∧ (env.Works →
        (∀ entry ∈ authorizedEntries sha env args audits, entry.Valid) →
          ¬ (fanoutEntry sha env args lenses audits).Valid) ∨
      (∃ entry found pass fail, FanoutHit sha env args lenses audits entry found pass fail) ∨
      FanoutStored sha env args lenses audits := by
  cases lock : env.lock with
  | error error =>
      have same : fanoutAudit sha env args lenses audits =
          ⟨audits, runtimeError args " fan-out admission: " error.message, []⟩ := by
        rw [fanoutAudit, lock]
      refine .inl ⟨fanoutFailed_of_eq same, fun works => ?_⟩
      rw [works.lock] at lock
      cases lock
  | ok nothing =>
      cases hit : exactHit sha env args lenses audits with
      | some hit' =>
          obtain ⟨entry, found, pass, fail⟩ := hit'
          obtain ⟨known, hash, exact⟩ := exactHit_some hit
          have same := fanoutAudit_of_hit lock hit
          rcases writeTaskAuditCache_cases env audits entry with
            ⟨refused, invalid⟩ | ⟨stored, valid⟩
          · rw [refused] at same
            refine .inl ⟨fanoutFailed_of_eq same, fun works valid => ?_⟩
            exact absurd ⟨works.writes, valid entry known⟩ invalid
          · rw [stored] at same
            exact .inr (.inl ⟨entry, found, pass, fail, known, hash, exact, valid, same⟩)
      | none =>
          have same := fanoutAudit_of_miss lock hit
          cases models : env.models with
          | error error =>
              rw [models] at same
              refine .inl ⟨fanoutFailed_of_eq same, fun works => ?_⟩
              rw [works.models] at models
              cases models
          | ok configured =>
              rw [models] at same
              cases configured with
              | false =>
                  refine .inl ⟨fanoutFailed_of_eq same, fun works => ?_⟩
                  rw [works.models] at models
                  cases models
              | true =>
                  cases admission : env.admission with
                  | error error =>
                      rw [admission] at same
                      refine .inl ⟨fanoutFailed_of_eq same, fun works => ?_⟩
                      rw [works.admission] at admission
                      cases admission
                  | ok nothing =>
                      rw [admission] at same
                      rcases freshFanout_cases same with ⟨silent, invalid⟩ | stored
                      · exact .inl ⟨silent, fun works _ valid => invalid ⟨works.writes, valid⟩⟩
                      · exact .inr (.inr stored)

end

end Opensquid.Audit
