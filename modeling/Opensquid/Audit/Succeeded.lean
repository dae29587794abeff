import Opensquid.Audit.Reviewed

/-!
# What a succeeded audit leaves

A call of `cached_audit` with lenses that returns a verdict has stored complete evidence of its
subject: an output of each lens under its policy, with this verdict (`succeeded_of_ok`). Nothing
else is complete: whatever audits are called for, complete evidence has been stored by a call that
returned its verdict (`earned_runAudits`).
-/

namespace Opensquid.Audit

open Opensquid.Lib Utf16 Opensquid.Subagents

/-! ## Complete evidence -/

/-- What evidence is told apart by: a lens and the hash of what it has been asked for. -/
structure AuditCacheLens where
  id : String
  promptHash : String
  deriving DecidableEq

def AuditLensVerdict.key (verdict : AuditLensVerdict) : AuditCacheLens :=
  ⟨verdict.id, verdict.promptHash⟩

def policyKey (sha : Sha256) (args : CachedAuditArgs) (lens : AuditLens) : AuditCacheLens :=
  ⟨lens.id, auditLensPolicyHash sha args lens⟩

/-- Complete evidence of this subject, with an output of each lens under its policy. -/
structure Succeeded (sha : Sha256) (args : CachedAuditArgs) (lenses : List AuditLens)
    (entry : AuditEvidenceEntry) (text : Text) : Prop where
  subject : entry.subjectHash = subjectHash sha args
  complete : ∃ found failures pass fail, entry.outcome = .fanout true found failures pass fail
  keys : entry.lenses.map AuditLensVerdict.key = lenses.map (policyKey sha args)
  verdict : deriveAuditEvidenceVerdict entry = some text

section

variable {α β γ ε : Type}

theorem map_eq_of_zip {f : α → γ} {g : β → γ} {xs : List α} {ys : List β}
    (length : ys.length = xs.length) (each : ∀ pair ∈ xs.zip ys, g pair.2 = f pair.1) :
    ys.map g = xs.map f := by
  induction xs generalizing ys with
  | nil => rw [List.eq_nil_of_length_eq_zero length]; rfl
  | cons x xs ih =>
      cases ys with
      | nil => cases length
      | cons y ys =>
          rw [List.map_cons, List.map_cons, each (x, y) List.mem_cons_self,
            ih (Nat.succ.inj length) fun pair mem => each pair (List.mem_cons_of_mem _ mem)]

/-- Where nothing comes out on the side of the errors, all items do on the other. -/
theorem map_okOf {f : α → Except ε β} {g : β → γ} {h : α → γ} {items : List α}
    (none : items.filterMap (fun x => errorOf (f x)) = [])
    (each : ∀ x v, f x = .ok v → g v = h x) :
    (items.filterMap fun x => okOf (f x)).map g = items.map h := by
  induction items with
  | nil => rfl
  | cons x items ih =>
      rw [List.filterMap_cons] at none
      rw [List.filterMap_cons, List.map_cons]
      cases out : f x with
      | error e =>
          rw [out] at none
          cases none
      | ok v =>
          rw [out] at none
          change g v :: (items.filterMap fun x => okOf (f x)).map g = h x :: items.map h
          rw [ih none, each x v out]

theorem length_intercalate_le {sep : List α} {rows : List (List α)} {bound : Nat}
    (each : ∀ row ∈ rows, row.length ≤ bound) :
    (sep.intercalate rows).length ≤ rows.length * (bound + sep.length) := by
  induction rows with
  | nil => exact Nat.zero_le _
  | cons row rows ih =>
      have here := each row List.mem_cons_self
      have rest := ih fun other mem => each other (List.mem_cons_of_mem _ mem)
      rw [List.length_cons, Nat.succ_mul]
      cases rows with
      | nil =>
          rw [List.intercalate_singleton]
          omega
      | cons next rows =>
          rw [List.intercalate_cons_cons, List.length_append, List.length_append]
          omega

end

/-! ## The bound of a verdict -/

theorem length_txt_le (s : String) : (txt s).length ≤ 2 * s.toList.length := by
  unfold txt
  generalize s.toList = chars
  induction chars with
  | nil => exact Nat.zero_le _
  | cons c chars ih =>
      have short : (units c).length ≤ 2 := by
        unfold units
        split
        · exact Nat.le_refl 2
        · exact Nat.le_succ 1
      rw [encode_cons, List.length_append, List.length_cons]
      omega

theorem length_txt_id {id : String} (valid : isAuditLensId id = true) : (txt id).length ≤ 128 := by
  have bound := length_txt_le id
  unfold isAuditLensId at valid
  split at valid
  · cases valid
  · rename_i c rest same
    simp only [Bool.and_eq_true, decide_eq_true_eq] at valid
    rw [same, List.length_cons] at bound
    omega

theorem length_row_le {id : String} (valid : isAuditLensId id = true) {body : Text} {bound : Nat}
    (short : body.length ≤ bound) : (row id body).length ≤ 133 + bound := by
  have named := length_txt_id valid
  have marks : (txt "- [").length = 3 ∧ (txt "] ").length = 2 := by decide
  rw [row, List.length_append, List.length_append, List.length_append]
  omega

theorem byteLength_le_max {text : Text} (short : text.length ≤ 17000) :
    byteLength text ≤ MAX_SUBAGENT_RESULT_BYTES := by
  have bytes := byteLength_le text
  have large : MAX_SUBAGENT_RESULT_BYTES = 51200 := rfl
  omega

section

variable {found : List AuditLensVerdict} (counted : WellCounted found)

include counted

theorem attributionId_of_counted {index : ℕ} (below : index < found.length) :
    attributionId found[index] index = found[index].id :=
  if_pos (counted.ids _ (List.getElem_mem below))

theorem length_names_le :
    ((txt ", ").intercalate
      (found.mapIdx fun index lens => txt (attributionId lens index))).length ≤
        found.length * 130 := by
  have each : ∀ name ∈ found.mapIdx fun index lens => txt (attributionId lens index),
      name.length ≤ 128 := by
    intro name mem
    obtain ⟨index, below, rfl⟩ := List.mem_mapIdx.mp mem
    rw [attributionId_of_counted counted below]
    exact length_txt_id (counted.ids _ (List.getElem_mem below))
  have comma : (txt ", ").length = 2 := by decide
  have bound := @length_intercalate_le _ (txt ", ") _ _ each
  rwa [List.length_mapIdx, comma] at bound

theorem length_ratio_le :
    (txt (" (" ++ toString found.length ++ "/" ++ toString found.length ++ ")")).length ≤ 12 := by
  have enough : 2 ≤ found.length := counted.enough
  have few : found.length ≤ 4 := counted.few
  have all : ∀ n ∈ [2, 3, 4],
      (txt (" (" ++ toString n ++ "/" ++ toString n ++ ")")).length ≤ 12 := by decide
  refine all found.length ?_
  simp only [List.mem_cons, List.not_mem_nil, or_false]
  omega

theorem byteLength_passes_le {pass : String} (token : isVerdictToken pass = true) :
    byteLength (joinLines [verdictText pass, txt "AUDIT FAN-OUT: " ++
      (txt ", ").intercalate (found.mapIdx fun index lens => txt (attributionId lens index)) ++
      txt (" (" ++ toString found.length ++ "/" ++ toString found.length ++ ")")]) ≤
        MAX_SUBAGENT_RESULT_BYTES := by
  have few : found.length ≤ 4 := counted.few
  have names := length_names_le counted
  have ratio := length_ratio_le counted
  have label : (txt "AUDIT FAN-OUT: ").length = 15 := by decide
  refine byteLength_le_max (Nat.le_trans (@length_intercalate_le _ [10] _ 1000 fun line mem => ?_)
    (show 2 * (1000 + 1) ≤ 17000 by decide))
  rcases List.mem_cons.mp mem with rfl | mem
  · exact Nat.le_trans (short_verdictText token) (by decide)
  · rw [List.mem_singleton.mp mem, List.length_append, List.length_append, label]
    omega

theorem byteLength_sameRows_le {fail : String} (token : isVerdictToken fail = true) :
    byteLength (joinLines (verdictText fail ::
      sameRows found "audit output exceeded aggregate evidence bound")) ≤
        MAX_SUBAGENT_RESULT_BYTES := by
  have few : found.length ≤ 4 := counted.few
  have lines := @length_intercalate_le _ [10] (verdictText fail ::
    sameRows found "audit output exceeded aggregate evidence bound") 400 fun line mem => by
      rcases List.mem_cons.mp mem with rfl | mem
      · exact Nat.le_trans (short_verdictText token) (by decide)
      · obtain ⟨index, below, rfl⟩ := List.mem_mapIdx.mp mem
        rw [attributionId_of_counted counted below]
        have body := @length_row_le _ (counted.ids _ (List.getElem_mem below))
          (txt "audit output exceeded aggregate evidence bound") 47 (by decide)
        omega
  have count : (sameRows found "audit output exceeded aggregate evidence bound").length =
      found.length := List.length_mapIdx
  rw [List.length_cons, count] at lines
  have more : (found.length + 1) * (400 + [10].length) ≤ 5 * 401 :=
    Nat.mul_le_mul (by omega) (Nat.le_refl _)
  refine byteLength_le_max ?_
  unfold joinLines
  omega

/-- The verdict on lenses that are well counted is within the bound of what is returned. -/
theorem byteLength_aggregate_le {pass fail : String} (tokens : Tokens pass fail) :
    byteLength (aggregateAuditLenses found pass fail) ≤ MAX_SUBAGENT_RESULT_BYTES := by
  have sized : ¬ (found.length < AUDIT_LENS_MIN ∨ AUDIT_LENS_MAX < found.length) :=
    not_or.mpr ⟨Nat.not_lt.mpr counted.enough, Nat.not_lt.mpr counted.few⟩
  rw [aggregateAuditLenses, if_neg (not_not.mpr ⟨tokens.pass, tokens.fail, tokens.distinct⟩),
    if_neg sized, if_neg (not_not.mpr ⟨counted.ids, counted.nodup⟩),
    if_neg (not_not.mpr counted.budget)]
  split
  · exact byteLength_passes_le counted tokens.pass
  · unfold boundedFailureAggregate
    dsimp only
    split
    · assumption
    · exact byteLength_sameRows_le counted tokens.fail

end

/-! ## Audits that succeed -/

section

variable {sha : Sha256} {env : Environment} {args : CachedAuditArgs} {lenses : List AuditLens}
  {audits : TaskAudits} {entry : AuditEvidenceEntry} {text : Text}

theorem wellCounted_of_valid {found : List AuditLensVerdict} {failures : List AuditFailure}
    {pass fail : String} (valid : (AuditOutcome.fanout true found failures pass fail).Valid) :
    Tokens pass fail ∧ WellCounted found := by
  obtain ⟨⟨few, each⟩, -, tokens, budget, ids, enough, -⟩ := valid
  refine ⟨⟨tokens.1, tokens.2.1, tokens.2.2⟩, enough, few, fun lens mem => (each lens mem).1, ?_,
    budget⟩
  rw [outcomeIds] at ids
  exact ids.of_append_left

/-- All lenses have come out, each under its policy. -/
theorem completed_keys (all : (runFanout sha env args lenses audits).failures = []) :
    (runFanout sha env args lenses audits).completed.map AuditLensVerdict.key =
      lenses.map (policyKey sha args) := by
  refine map_okOf all fun lens verdict done => ?_
  have id := (attempt_ids rfl).1 verdict done
  have hash : verdict.promptHash = auditLensPolicyHash sha args lens := by
    unfold attempt at done
    split at done
    · rename_i prior found
      cases done
      exact of_decide_eq_true (Option.filter_eq_some_iff.mp found).2
    · split at done
      · cases done
        rfl
      · cases done
  rw [AuditLensVerdict.key, policyKey, id, hash]

theorem succeeded_of_hit {found : List AuditLensVerdict} {pass fail : String}
    (hit : FanoutHit sha env args lenses audits entry found pass fail) :
    Succeeded sha args lenses entry (aggregateAuditLenses found pass fail) := by
  have exact := hit.exact
  unfold exactFanout at exact
  split at exact
  · cases exact
  · cases exact
  · rename_i found' failures pass' fail' outcome
    split at exact
    · rename_i same
      cases exact
      refine ⟨(mem_entries_of_authorized hit.known).2, ⟨_, _, _, _, outcome⟩, ?_, ?_⟩
      · rw [AuditEvidenceEntry.lenses, outcome]
        refine map_eq_of_zip same.1 fun pair mem => ?_
        obtain ⟨id, hash⟩ := same.2 pair mem
        rw [AuditLensVerdict.key, policyKey, id, hash]
      · rw [deriveAuditEvidenceVerdict, outcome]
    · cases exact

theorem succeeded_of_stored (stored : FanoutStored sha env args lenses audits)
    (all : (runFanout sha env args lenses audits).failures = []) :
    Succeeded sha args lenses (fanoutEntry sha env args lenses audits)
      (truncateUtf8 (aggregateAuditLenses (runFanout sha env args lenses audits).completed
        args.passVerdict args.failVerdict) MAX_SUBAGENT_RESULT_BYTES) := by
  have outcome : (fanoutEntry sha env args lenses audits).outcome =
      .fanout true (runFanout sha env args lenses audits).completed [] args.passVerdict
        args.failVerdict := by
    rw [fanoutEntry]
    dsimp only
    rw [all]
    rfl
  obtain ⟨-, -, valid⟩ := stored.valid
  rw [outcome] at valid
  obtain ⟨tokens, counted⟩ := wellCounted_of_valid valid
  refine ⟨rfl, ⟨_, _, _, _, outcome⟩, ?_, ?_⟩
  · rw [AuditEvidenceEntry.lenses, outcome]
    exact completed_keys all
  · rw [deriveAuditEvidenceVerdict, outcome, truncateUtf8,
      if_pos (by exact_mod_cast byteLength_aggregate_le counted tokens)]

end

section

variable {sha : Sha256} {call : AuditCall} {lenses : List AuditLens} {audits : TaskAudits}

/-- A call that returns a verdict has stored evidence with that verdict. -/
theorem succeeded_of_ok (fans : call.args.reviews = .fanout lenses) {text : Text}
    (ok : (cachedAudit sha call audits).result = .ok text) :
    ∃ entry, (cachedAudit sha call audits).audits = audits.store entry ∧
      Succeeded sha call.args lenses entry text := by
  rw [cachedAudit_of_fanout fans] at ok ⊢
  rcases fanoutAudit_cases sha call.env call.args lenses audits with
    ⟨failed, -⟩ | ⟨entry, found, pass, fail, hit⟩ | stored
  · obtain ⟨error, refused⟩ := failed.result
    rw [refused] at ok
    cases ok
  · rw [hit.outcome] at ok ⊢
    cases ok
    exact ⟨entry, rfl, succeeded_of_hit hit⟩
  · rcases stored.result with ⟨all, done⟩ | ⟨-, error, refused⟩
    · rw [done] at ok
      cases ok
      exact ⟨_, stored.row, succeeded_of_stored stored all⟩
    · rw [refused] at ok
      cases ok

/-- Complete evidence has been stored by a call that returned its verdict. -/
def Earned (sha : Sha256) (history : List AuditCall) (entry : AuditEvidenceEntry) : Prop :=
  (∃ found failures pass fail, entry.outcome = .fanout true found failures pass fail) →
    ∃ before call after lenses text, history = before ++ call :: after ∧
      call.args.reviews = .fanout lenses ∧
      (cachedAudit sha call (runAudits sha before).audits).result = .ok text ∧
      Succeeded sha call.args lenses entry text

theorem Earned.mono {history : List AuditCall} {entry : AuditEvidenceEntry}
    (earned : Earned sha history entry) (more : List AuditCall) :
    Earned sha (history ++ more) entry := by
  intro complete
  obtain ⟨before, call, after, lenses, text, rfl, rest⟩ := earned complete
  exact ⟨before, call, after ++ more, lenses, text, by simp, rest⟩

/-- What a call stores is earned by it, if it was not before. -/
theorem earned_of_stores {history : List AuditCall} {entry : AuditEvidenceEntry}
    (before : ∀ entry ∈ (runAudits sha history).audits.entries, Earned sha history entry)
    (row : (cachedAudit sha call (runAudits sha history).audits).audits =
      (runAudits sha history).audits.store entry) : Earned sha (history ++ [call]) entry := by
  intro complete
  cases reviews : call.args.reviews with
  | fanout lenses =>
      have same := @cachedAudit_of_fanout sha call lenses (runAudits sha history).audits reviews
      have latest : ∀ other, (runAudits sha history).audits.store other =
          (runAudits sha history).audits.store entry → other = entry := fun other same =>
        Option.some.inj (congrArg TaskAudits.latest same)
      rcases fanoutAudit_cases sha call.env call.args lenses (runAudits sha history).audits with
        ⟨failed, -⟩ | ⟨hit, found, pass, fail, again⟩ | stored
      · rw [same, failed.row] at row
        have known : entry ∈ (runAudits sha history).audits.entries :=
          row ▸ List.mem_append_left _ (List.mem_singleton.mpr rfl)
        exact (before entry known).mono [call] complete
      · have outcome := again.outcome
        rw [same, outcome] at row
        obtain rfl := latest hit row
        exact ⟨history, call, [], lenses, _, rfl, reviews, by rw [same, outcome],
          succeeded_of_hit again⟩
      · rw [same, stored.row] at row
        obtain rfl := latest _ row
        rcases stored.result with ⟨all, done⟩ | ⟨some', -⟩
        · exact ⟨history, call, [], lenses, _, rfl, reviews, by rw [same, done],
            succeeded_of_stored stored all⟩
        · -- an attempt with failures is not complete
          obtain ⟨found, failures, pass, fail, outcome⟩ := complete
          rw [fanoutEntry] at outcome
          injection outcome with whole
          exact absurd (List.isEmpty_iff.mp whole) some'
  | single prompt =>
      have same : cachedAudit sha call (runAudits sha history).audits =
          singleAudit sha call.env call.args prompt (runAudits sha history).audits := by
        rw [cachedAudit, reviews]
      rw [same] at row
      obtain ⟨found, failures, pass, fail, outcome⟩ := complete
      generalize result :
        singleAudit sha call.env call.args prompt (runAudits sha history).audits = out at row
      have how := result ▸
        singleAudit_cases sha call.env call.args prompt (runAudits sha history).audits
      have known : (runAudits sha history).audits =
          (runAudits sha history).audits.store entry → Earned sha (history ++ [call]) entry :=
        fun row => (before entry (row ▸ List.mem_append_left _ (List.mem_singleton.mpr rfl))).mono _
      cases how with
      | failed => exact known row ⟨_, _, _, _, outcome⟩
      | unstored => exact known row ⟨_, _, _, _, outcome⟩
      | hit _ _ kind =>
          cases Option.some.inj (congrArg TaskAudits.latest row)
          rw [kind] at outcome
          cases outcome
      | stored _ new =>
          cases Option.some.inj (congrArg TaskAudits.latest row)
          subst new
          cases outcome

theorem earned_runAudits (history : List AuditCall) :
    ∀ entry ∈ (runAudits sha history).audits.entries, Earned sha history entry := by
  induction history using List.reverseRecOn with
  | nil => exact fun entry mem => by cases mem
  | append_singleton history call ih =>
      intro entry mem
      rw [runAudits_append, AuditState.call] at mem
      rcases cachedAudit_row call (runAudits sha history).audits with same | ⟨new, row⟩
      · rw [same] at mem
        exact (ih entry mem).mono [call]
      · rw [row] at mem
        rcases mem_entries_store mem with rfl | earlier
        · exact earned_of_stores ih row
        · exact (ih entry earlier).mono [call]

end

end Opensquid.Audit
