import Opensquid.Audit.Fanout

/-!
# What an audit's pass rests on

Over every history of calls on one task and key, whatever the models answer and whatever fails:

* `pass_reviewed`: a call that returns the pass verdict rests on an answer of the model to every
  declared review, under the same policy and subject, whose first line is exactly the pass line.
  The answer may be of an earlier call, and may have been cut several times on its way through the
  store; no cut makes a pass line (`verdictLine_of_truncate`). Two declarations are told apart by
  their hashes, so these must not collide on the texts that are hashed in the history.
* `fanout_stored`: where lock, model and store work, an attempt is stored that the schema takes,
  with an output of every declared lens that is answered.
* `not_asked_again`: a lens that has been answered is not asked about again while the attempt is
  among the newest hundred.
-/

namespace Opensquid.Audit

open Opensquid.Lib Utf16 Opensquid.Subagents

variable {sha : Sha256}

/-! ## Single reviews -/

/-- A single review returns a stored verdict again, or the cut answer of its own call, which it
stores if there is a verdict in it; or it fails and stores nothing. -/
inductive SingleCase (sha : Sha256) (env : Environment) (args : CachedAuditArgs) (prompt : String)
    (audits : TaskAudits) : Outcome → Prop
  | failed {error : FunctionError} {calls : List ModelCall} :
    (∀ call ∈ calls, call = ⟨args, .prompt prompt, env.call (.prompt prompt)⟩) →
    SingleCase sha env args prompt audits ⟨audits, .error error, calls⟩
  | hit {entry : AuditEvidenceEntry} {text : Text} :
    entry ∈ authorizedEntries sha env args audits →
    entry.hash = auditDeclarationCacheHash sha args → entry.outcome = .verdict text →
    entry.Valid → SingleCase sha env args prompt audits ⟨audits.store entry, .ok text, []⟩
  | unstored {out : Text} : env.call (.prompt prompt) = .ok out →
    SingleCase sha env args prompt audits
      ⟨audits, .ok (truncateUtf8 out MAX_SUBAGENT_RESULT_BYTES), [⟨args, .prompt prompt, .ok out⟩]⟩
  | stored {out : Text} {entry : AuditEvidenceEntry} : env.call (.prompt prompt) = .ok out →
    entry = ⟨auditDeclarationCacheHash sha args,
      .verdict (truncateUtf8 out MAX_SUBAGENT_RESULT_BYTES), subjectHash sha args⟩ →
    entry.Valid →
    SingleCase sha env args prompt audits ⟨audits.store entry,
      .ok (truncateUtf8 out MAX_SUBAGENT_RESULT_BYTES), [⟨args, .prompt prompt, .ok out⟩]⟩

theorem freshSingle_cases (sha : Sha256) (env : Environment) (args : CachedAuditArgs)
    (prompt : String) (audits : TaskAudits) :
    SingleCase sha env args prompt audits (freshSingle sha env args prompt audits) := by
  unfold freshSingle
  cases answer : env.call (.prompt prompt) with
  | error error =>
      exact .failed fun call mem => by rw [List.mem_singleton.mp mem, answer]
  | ok out =>
      have own : ∀ call ∈ [(⟨args, .prompt prompt, .ok out⟩ : ModelCall)],
          call = ⟨args, .prompt prompt, env.call (.prompt prompt)⟩ := fun call mem => by
        rw [List.mem_singleton.mp mem, answer]
      dsimp only
      split
      · rcases writeTaskAuditCache_cases env audits ⟨auditDeclarationCacheHash sha args,
          .verdict (truncateUtf8 out MAX_SUBAGENT_RESULT_BYTES), subjectHash sha args⟩ with
          ⟨refused, -⟩ | ⟨stored, valid⟩
        · rw [refused]
          exact .failed own
        · rw [stored]
          exact .stored answer rfl valid
      · split
        · exact .failed own
        · exact .unstored answer

theorem singleAudit_cases (sha : Sha256) (env : Environment) (args : CachedAuditArgs)
    (prompt : String) (audits : TaskAudits) :
    SingleCase sha env args prompt audits (singleAudit sha env args prompt audits) := by
  unfold singleAudit
  cases env.lock with
  | error error => exact .failed nofun
  | ok nothing =>
      dsimp only
      cases cached : (bestExactEntry (authorizedEntries sha env args audits)
          (auditDeclarationCacheHash sha args)).bind fun entry =>
            (singleVerdict entry).map fun text => (entry, text) with
      | some hit =>
          obtain ⟨entry, text⟩ := hit
          obtain ⟨first, best, verdict⟩ := Option.bind_eq_some_iff.mp cached
          obtain ⟨text', verdict, same⟩ := Option.map_eq_some_iff.mp verdict
          obtain ⟨rfl, rfl⟩ := Prod.mk.inj same
          have passes := List.find?_some best
          have outcome : first.outcome = .verdict text' := by
            unfold singleVerdict at verdict
            split at verdict
            · rename_i same
              split at verdict
              · cases verdict
              · cases verdict
                exact same
            · cases verdict
          dsimp only
          rcases writeTaskAuditCache_cases env audits first with ⟨refused, -⟩ | ⟨stored, valid⟩
          · rw [refused]
            exact .failed nofun
          · rw [stored]
            exact .hit (List.mem_of_find?_eq_some best) (of_decide_eq_true passes) outcome valid
      | none =>
          dsimp only
          cases env.models with
          | error error => exact .failed nofun
          | ok configured =>
              cases configured with
              | false => exact .failed nofun
              | true => exact freshSingle_cases sha env args prompt audits

/-! ## What stored evidence rests on -/

/-- The reviews that a declaration asks for. -/
def Reviews.asked : Reviews → List Review
  | .single prompt => [.prompt prompt]
  | .fanout lenses => lenses.map .lens

/-- An output comes from an answer to the lens, under the policy and about the subject. -/
def LensBacked (sha : Sha256) (used : List CachedAuditArgs) (log : List ModelCall)
    (subject : Option String) (verdict : AuditLensVerdict) : Prop :=
  ∃ call ∈ log, ∃ lens out, call.args ∈ used ∧ .lens lens ∈ call.args.reviews.asked ∧
    call.review = .lens lens ∧ call.answer = .ok out ∧ verdict.id = lens.id ∧
    verdict.promptHash = auditLensPolicyHash sha call.args lens ∧
    subjectHash sha call.args = subject ∧ LineFrom out verdict.output

def OutcomeBacked (sha : Sha256) (used : List CachedAuditArgs) (log : List ModelCall)
    (args : CachedAuditArgs) : AuditOutcome → Prop
  | .verdict text => ∃ prompt out, args.reviews = .single prompt ∧
      ⟨args, .prompt prompt, .ok out⟩ ∈ log ∧ LineFrom out text
  | .fanout _ found _ passVerdict failVerdict =>
      passVerdict = args.passVerdict ∧ failVerdict = args.failVerdict ∧
        ∀ verdict ∈ found, LensBacked sha used log (subjectHash sha args) verdict

/-- Evidence that the schema takes, stored under the hash of a declaration of the history. -/
structure Backed (sha : Sha256) (used : List CachedAuditArgs) (log : List ModelCall)
    (entry : AuditEvidenceEntry) : Prop where
  valid : entry.Valid
  backed : ∃ args ∈ used, entry.hash = auditDeclarationCacheHash sha args ∧
    entry.subjectHash = subjectHash sha args ∧ OutcomeBacked sha used log args entry.outcome

def TaskAudits.entries (audits : TaskAudits) : List AuditEvidenceEntry :=
  audits.latest.toList ++ audits.history

/-- All stored evidence is backed by the calls so far. -/
def Kept (sha : Sha256) (used : List CachedAuditArgs) (s : AuditState) : Prop :=
  ∀ entry ∈ s.audits.entries, Backed sha used s.log entry

section

variable {used more : List CachedAuditArgs} {log calls : List ModelCall}
  {entry : AuditEvidenceEntry} {audits : TaskAudits} {env : Environment} {args : CachedAuditArgs}

theorem LensBacked.mono {subject : Option String} {verdict : AuditLensVerdict}
    (backed : LensBacked sha used log subject verdict) :
    LensBacked sha (used ++ more) (log ++ calls) subject verdict := by
  obtain ⟨call, mem, lens, out, known, rest⟩ := backed
  exact ⟨call, List.mem_append_left _ mem, lens, out, List.mem_append_left _ known, rest⟩

theorem Backed.mono (backed : Backed sha used log entry) :
    Backed sha (used ++ more) (log ++ calls) entry := by
  obtain ⟨valid, args, mem, hash, subject, outcome⟩ := backed
  refine ⟨valid, args, List.mem_append_left _ mem, hash, subject, ?_⟩
  cases kind : entry.outcome with
  | verdict text =>
      rw [kind] at outcome
      obtain ⟨prompt, out, single, answered, lines⟩ := outcome
      exact ⟨prompt, out, single, List.mem_append_left _ answered, lines⟩
  | fanout complete found failures pass fail =>
      rw [kind] at outcome
      exact ⟨outcome.1, outcome.2.1, fun verdict mem => (outcome.2.2 verdict mem).mono⟩

theorem mem_entries_of_authorized (known : entry ∈ authorizedEntries sha env args audits) :
    entry ∈ audits.entries ∧ entry.subjectHash = subjectHash sha args := by
  obtain ⟨read, subject⟩ := List.mem_filter.mp known
  refine ⟨?_, of_decide_eq_true subject⟩
  unfold readCachedEntries at read
  split at read
  · split at read
    · exact List.mem_append_right _ read
    · split at read
      · exact List.mem_append_left _ read
      · cases read
  · cases read

theorem mem_entries_store {other : AuditEvidenceEntry}
    (mem : other ∈ (audits.store entry).entries) : other = entry ∨ other ∈ audits.entries := by
  rcases List.mem_append.mp mem with latest | history
  · exact .inl (List.mem_singleton.mp latest)
  · rcases List.mem_cons.mp (List.mem_of_mem_take history) with here | earlier
    · exact .inl here
    · exact .inr (List.mem_append_right _ earlier)

end

/-- A completed output is backed by what was stored before and the calls of its own. -/
theorem completed_backed {used : List CachedAuditArgs} {log : List ModelCall}
    {env : Environment} {args : CachedAuditArgs} {lenses : List AuditLens} {audits : TaskAudits}
    (kept : ∀ entry ∈ audits.entries, Backed sha used log entry)
    (fans : args.reviews = .fanout lenses) {verdict : AuditLensVerdict}
    (mem : verdict ∈ (runFanout sha env args lenses audits).completed) :
    LensBacked sha (used ++ [args]) (log ++ askedCalls sha env args lenses audits)
      (subjectHash sha args) verdict := by
  obtain ⟨lens, declared, id, hash, text, output, source⟩ := mem_completed mem
  rcases source with ⟨entry, known, stored, inside, id', hash', rfl⟩ | ⟨asked, answer, -⟩
  · -- the output was stored by an earlier call
    obtain ⟨known, subject⟩ := mem_entries_of_authorized known
    obtain ⟨-, args', -, -, subject', outcome⟩ := kept entry known
    unfold AuditEvidenceEntry.lenses at inside
    cases kind : entry.outcome with
    | verdict text =>
        rw [kind] at inside
        cases inside
    | fanout complete found failures pass fail =>
        rw [kind] at inside outcome
        obtain ⟨call, logged, lens', out, known', asked, review, answer, id'', hash'', same,
          lines⟩ := outcome.2.2 stored inside
        refine ⟨call, List.mem_append_left _ logged, lens', out, List.mem_append_left _ known',
          asked, review, answer, ?_, ?_, ?_, ?_⟩
        · rw [id, ← id', id'']
        · rw [← hash', hash'']
        · rw [same, ← subject', subject]
        · rw [output]
          exact lines.truncate (le_perLensLimit _)
  · refine ⟨⟨args, .lens lens, env.call (.lens lens)⟩,
      List.mem_append_right _ (List.mem_map_of_mem asked), lens, text,
      List.mem_append_right _ List.mem_cons_self, ?_, rfl, answer, id, hash, rfl, ?_⟩
    · rw [fans]
      exact List.mem_map_of_mem declared
    · rw [output]
      exact (LineFrom.refl text).truncate (le_perLensLimit _)

theorem fanoutEntry_backed {used : List CachedAuditArgs} {log : List ModelCall}
    {env : Environment} {args : CachedAuditArgs} {lenses : List AuditLens} {audits : TaskAudits}
    (kept : ∀ entry ∈ audits.entries, Backed sha used log entry)
    (fans : args.reviews = .fanout lenses)
    (valid : (fanoutEntry sha env args lenses audits).Valid) :
    Backed sha (used ++ [args]) (log ++ askedCalls sha env args lenses audits)
      (fanoutEntry sha env args lenses audits) :=
  ⟨valid, args, List.mem_append_right _ List.mem_cons_self, rfl, rfl, rfl, rfl,
    fun _ mem => completed_backed kept fans mem⟩

/-- Every call keeps the evidence backed. -/
theorem Kept.call {used : List CachedAuditArgs} {s : AuditState} (kept : Kept sha used s)
    (call : AuditCall) : Kept sha (used ++ [call.args]) (s.call sha call) := by
  intro entry mem
  unfold AuditState.call at mem ⊢
  dsimp only at mem ⊢
  cases reviews : call.args.reviews with
  | fanout lenses =>
      have same : cachedAudit sha call s.audits =
          fanoutAudit sha call.env call.args lenses s.audits := by
        rw [cachedAudit, reviews]
      rw [same] at mem ⊢
      rcases fanoutAudit_cases sha call.env call.args lenses s.audits with
        ⟨failed, -⟩ | ⟨hit, found, pass, fail, again⟩ | stored
      · rw [failed.row] at mem
        exact (kept entry mem).mono
      · rw [again.outcome] at mem ⊢
        rcases mem_entries_store mem with rfl | earlier
        · exact (kept entry (mem_entries_of_authorized again.known).1).mono
        · exact (kept entry earlier).mono
      · rw [stored.row] at mem
        rw [stored.calls]
        rcases mem_entries_store mem with rfl | earlier
        · exact fanoutEntry_backed kept reviews stored.valid
        · exact (kept entry earlier).mono
  | single prompt =>
      have same : cachedAudit sha call s.audits =
          singleAudit sha call.env call.args prompt s.audits := by
        rw [cachedAudit, reviews]
      rw [same] at mem ⊢
      generalize outcome : singleAudit sha call.env call.args prompt s.audits = result at mem ⊢
      have how := outcome ▸ singleAudit_cases sha call.env call.args prompt s.audits
      cases how with
      | failed => exact (kept entry mem).mono
      | unstored => exact (kept entry mem).mono
      | hit known =>
          rcases mem_entries_store mem with rfl | earlier
          · exact (kept entry (mem_entries_of_authorized known).1).mono
          · exact (kept entry earlier).mono
      | stored answer new valid =>
          rcases mem_entries_store mem with rfl | earlier
          · subst new
            refine ⟨valid, call.args, List.mem_append_right _ List.mem_cons_self, rfl, rfl, prompt,
              _, reviews, List.mem_append_right _ List.mem_cons_self, ?_⟩
            exact (LineFrom.refl _).truncate (by decide : 1024 ≤ MAX_SUBAGENT_RESULT_BYTES)
          · exact (kept entry earlier).mono

theorem runAudits_append (history : List AuditCall) (call : AuditCall) :
    runAudits sha (history ++ [call]) = (runAudits sha history).call sha call := by
  rw [runAudits, List.foldl_append]
  rfl

theorem kept_runAudits (history : List AuditCall) :
    Kept sha (history.map AuditCall.args) (runAudits sha history) := by
  induction history using List.reverseRecOn with
  | nil => exact fun entry mem => by cases mem
  | append_singleton history call ih =>
      rw [runAudits_append, List.map_append]
      exact ih.call call

/-! ## What a pass rests on -/

/-- The model has answered the review under this policy and about this subject, with the pass line
first. -/
def Approved (log : List ModelCall) (args : CachedAuditArgs) (review : Review) : Prop :=
  ∃ call ∈ log, SamePolicy call.args args ∧ call.args.subject = args.subject ∧
    call.review = review ∧ ∃ out, call.answer = .ok out ∧
      verdictLine out = verdictText args.passVerdict

/-- The texts that are hashed for these declarations. -/
def hashedTexts (sha : Sha256) (used : List CachedAuditArgs) : List (List Char) :=
  used.flatMap (identityTexts sha)

section

variable {used : List CachedAuditArgs} {log : List ModelCall} {args : CachedAuditArgs}

theorem declaration_of_hash (apart : sha.Distinguishes (hashedTexts sha used))
    {args' : CachedAuditArgs} (known : args ∈ used) (known' : args' ∈ used)
    (same : auditDeclarationCacheHash sha args = auditDeclarationCacheHash sha args') :
    SamePolicy args args' ∧ args.reviews = args'.reviews := by
  refine declarationText_inj (apart _ ?_ _ ?_ same)
  · exact List.mem_flatMap.mpr ⟨args, known, List.mem_cons_self⟩
  · exact List.mem_flatMap.mpr ⟨args', known', List.mem_cons_self⟩

theorem subject_of_hash (apart : sha.Distinguishes (hashedTexts sha used))
    {args' : CachedAuditArgs} (known : args ∈ used) (known' : args' ∈ used)
    (same : subjectHash sha args = subjectHash sha args') : args.subject = args'.subject := by
  have mem : ∀ args ∈ used, ∀ subject ∈ args.subject, subject.toList ∈ hashedTexts sha used :=
    fun args known subject given => List.mem_flatMap.mpr ⟨args, known,
      List.mem_append_left _ (List.mem_cons_of_mem _ (by rw [given]; exact List.mem_cons_self))⟩
  unfold subjectHash at same
  cases subject : args.subject with
  | none =>
      rw [subject] at same
      exact (Option.map_eq_none_iff.mp same.symm).symm
  | some text =>
      rw [subject] at same
      obtain ⟨text', subject', same⟩ := Option.map_eq_some_iff.mp same.symm
      rw [subject']
      exact congrArg some (String.toList_inj.mp
        (apart _ (mem args known text subject) _ (mem args' known' text' subject') same.symm))

theorem policyText_mem {lens : AuditLens} (known : args ∈ used)
    (asked : Review.lens lens ∈ args.reviews.asked) :
    policyText args lens ∈ hashedTexts sha used := by
  refine List.mem_flatMap.mpr ⟨args, known, List.mem_append_right _ ?_⟩
  cases reviews : args.reviews with
  | single prompt =>
      rw [reviews] at asked
      cases List.mem_singleton.mp asked
  | fanout lenses =>
      rw [reviews] at asked
      obtain ⟨lens', declared, same⟩ := List.mem_map.mp asked
      cases same
      exact List.mem_map_of_mem declared

/-- A passing output under a lens's policy hash has come from an answer to that lens. -/
theorem approved_of_backed (apart : sha.Distinguishes (hashedTexts sha used))
    (valid : isVerdictToken args.passVerdict = true) (known : args ∈ used) {lens : AuditLens}
    (asked : Review.lens lens ∈ args.reviews.asked) {verdict : AuditLensVerdict}
    (backed : LensBacked sha used log (subjectHash sha args) verdict)
    (hash : verdict.promptHash = auditLensPolicyHash sha args lens)
    (passes : verdictLine verdict.output = verdictText args.passVerdict) :
    Approved log args (.lens lens) := by
  obtain ⟨call, logged, lens', out, known', asked', review, answer, -, hash', subject, lines⟩ :=
    backed
  obtain ⟨policy, rfl⟩ := policyText_inj (apart _ (policyText_mem known' asked') _
    (policyText_mem known asked) (hash'.symm.trans hash))
  exact ⟨call, logged, policy, subject_of_hash apart known' known subject, review, out, answer,
    lines _ (short_verdictText valid) passes⟩

end

theorem matchesPass {text : Text} {token : String}
    (passes : auditVerdictMatchesPass (some text) token = true) :
    verdictLine text = verdictText token := by
  obtain ⟨-, line⟩ := (Bool.and_eq_true _ _).mp passes
  exact of_decide_eq_true line

theorem mem_exactFanout {args : CachedAuditArgs} {lenses : List AuditLens}
    {entry : AuditEvidenceEntry} {found : List AuditLensVerdict} {pass fail : String}
    (exact : exactFanout sha args lenses entry = some (found, pass, fail)) :
    (∃ failures, entry.outcome = .fanout true found failures pass fail) ∧
      ∀ lens ∈ lenses, ∃ verdict ∈ found, verdict.id = lens.id ∧
        verdict.promptHash = auditLensPolicyHash sha args lens := by
  unfold exactFanout at exact
  split at exact
  · cases exact
  · cases exact
  · rename_i found' failures pass' fail' outcome
    split at exact
    · rename_i pairs
      cases exact
      refine ⟨⟨failures, outcome⟩, fun lens declared => ?_⟩
      rw [← List.map_fst_zip (Nat.le_of_eq pairs.1.symm)] at declared
      obtain ⟨pair, zipped, rfl⟩ := List.mem_map.mp declared
      exact ⟨pair.2, (List.of_mem_zip zipped).2, pairs.2 pair zipped⟩
    · cases exact

/-- A fan-out passes only on passing answers to all its lenses. -/
theorem fanout_approved {history : List AuditCall} {call : AuditCall} {lenses : List AuditLens}
    (fans : call.args.reviews = .fanout lenses)
    (apart : sha.Distinguishes (hashedTexts sha ((history ++ [call]).map AuditCall.args)))
    {text : Text} (done : (cachedAudit sha call (runAudits sha history).audits).result = .ok text)
    (passes : verdictLine text = verdictText call.args.passVerdict) :
    ∀ lens ∈ lenses,
      Approved (runAudits sha (history ++ [call])).log call.args (.lens lens) := by
  intro lens declared
  have tokens := call.valid.tokens
  have set : AuditLensSet lenses := by
    have reviews := call.valid.2.1
    rwa [fans] at reviews
  have same : cachedAudit sha call (runAudits sha history).audits =
      fanoutAudit sha call.env call.args lenses (runAudits sha history).audits := by
    rw [cachedAudit, fans]
  have asked : Review.lens lens ∈ call.args.reviews.asked := by
    rw [fans]
    exact List.mem_map_of_mem declared
  have used : call.args ∈ (history ++ [call]).map AuditCall.args :=
    List.mem_map_of_mem (List.mem_append_right _ List.mem_cons_self)
  rw [runAudits_append, AuditState.call, same]
  rw [same] at done
  rw [List.map_append, List.map_singleton] at apart used
  have kept := @kept_runAudits sha history
  rcases fanoutAudit_cases sha call.env call.args lenses (runAudits sha history).audits with
    ⟨failed, -⟩ | ⟨entry, found, pass, fail, hit⟩ | stored
  · obtain ⟨error, failed⟩ := failed.result
    rw [done] at failed
    cases failed
  · -- the declaration that has stored the entry is this one
    rw [hit.outcome] at done ⊢
    cases done
    obtain ⟨⟨failures, outcome⟩, each⟩ := mem_exactFanout hit.exact
    obtain ⟨known, subject⟩ := mem_entries_of_authorized hit.known
    obtain ⟨-, args', known', hash, subject', backed⟩ := kept entry known
    obtain ⟨policy, -⟩ := declaration_of_hash apart (List.mem_append_left _ known') used
      (hash.symm.trans hit.hash)
    rw [outcome] at backed
    obtain ⟨rfl, rfl, backed⟩ := backed
    rw [policy.pass, policy.fail] at passes
    obtain ⟨-, all⟩ := aggregate_passes tokens passes
    obtain ⟨verdict, mem, -, promptHash⟩ := each lens declared
    have source : LensBacked sha (history.map AuditCall.args ++ [call.args])
        ((runAudits sha history).log ++ []) (subjectHash sha call.args) verdict := by
      rw [← subject, subject']
      exact (backed verdict mem).mono
    exact approved_of_backed apart tokens.pass used asked source promptHash (all verdict mem)
  · rcases stored.result with ⟨none, ok⟩ | ⟨-, error, failed⟩
    · rw [done] at ok
      cases ok
      have passes := verdictLine_of_truncate (by decide : 1024 ≤ MAX_SUBAGENT_RESULT_BYTES)
        (short_verdictText tokens.pass) passes
      obtain ⟨-, all⟩ := aggregate_passes tokens passes
      rw [stored.calls]
      -- the lens is among the completed, since none has failed
      have ids := @outcomeIds_perm sha call.env call.args lenses (runAudits sha history).audits
      rw [none, List.map_nil, List.append_nil] at ids
      obtain ⟨verdict, mem, id⟩ :=
        List.mem_map.mp (ids.mem_iff.mpr (List.mem_map_of_mem declared))
      obtain ⟨lens', declared', id', promptHash, -⟩ := mem_completed mem
      have own := List.inj_on_of_nodup_map set.2.2.2 declared' declared (id'.symm.trans id)
      subst own
      exact approved_of_backed apart tokens.pass used asked (completed_backed kept fans mem)
        promptHash (all verdict mem)
    · rw [done] at failed
      cases failed

/-- A single review passes only on a passing answer to its prompt. -/
theorem single_approved {history : List AuditCall} {call : AuditCall} {prompt : String}
    (single : call.args.reviews = .single prompt)
    (apart : sha.Distinguishes (hashedTexts sha ((history ++ [call]).map AuditCall.args)))
    {text : Text} (done : (cachedAudit sha call (runAudits sha history).audits).result = .ok text)
    (passes : verdictLine text = verdictText call.args.passVerdict) :
    Approved (runAudits sha (history ++ [call])).log call.args (.prompt prompt) := by
  have short := short_verdictText call.valid.tokens.pass
  have same : cachedAudit sha call (runAudits sha history).audits =
      singleAudit sha call.env call.args prompt (runAudits sha history).audits := by
    rw [cachedAudit, single]
  have used : call.args ∈ (history ++ [call]).map AuditCall.args :=
    List.mem_map_of_mem (List.mem_append_right _ List.mem_cons_self)
  rw [runAudits_append, AuditState.call, same]
  rw [same] at done
  rw [List.map_append, List.map_singleton] at apart used
  generalize outcome : singleAudit sha call.env call.args prompt (runAudits sha history).audits =
    result at done ⊢
  have how := outcome ▸
    singleAudit_cases sha call.env call.args prompt (runAudits sha history).audits
  -- an answer of the call's own is cut once
  have own : ∀ out, text = truncateUtf8 out MAX_SUBAGENT_RESULT_BYTES →
      Approved ((runAudits sha history).log ++ [⟨call.args, .prompt prompt, .ok out⟩]) call.args
        (.prompt prompt) := by
    intro out cut
    rw [cut] at passes
    exact ⟨_, List.mem_append_right _ List.mem_cons_self, ⟨rfl, rfl, rfl, rfl⟩, rfl, rfl, out, rfl,
      verdictLine_of_truncate (by decide : 1024 ≤ MAX_SUBAGENT_RESULT_BYTES) short passes⟩
  cases how with
  | failed => cases done
  | @unstored out answer =>
      cases done
      exact own out rfl
  | @stored out entry answer new valid =>
      cases done
      exact own out rfl
  | @hit entry text known hash kind valid =>
      cases done
      obtain ⟨known, subject⟩ := mem_entries_of_authorized known
      obtain ⟨-, args', known', hash', subject', backed⟩ := kept_runAudits history entry known
      obtain ⟨policy, reviews⟩ := declaration_of_hash apart (List.mem_append_left _ known') used
        (hash'.symm.trans hash)
      rw [kind] at backed
      obtain ⟨prompt', out, single', logged, lines⟩ := backed
      rw [single', single] at reviews
      cases reviews
      exact ⟨_, List.mem_append_left _ logged, policy,
        subject_of_hash apart (List.mem_append_left _ known') used (subject'.symm.trans subject),
        rfl, out, rfl, lines _ short passes⟩

/-- Over any history, a call that returns the pass verdict rests on a passing answer to each of its
reviews. -/
theorem pass_reviewed (history : List AuditCall) (call : AuditCall)
    (apart : sha.Distinguishes (hashedTexts sha ((history ++ [call]).map AuditCall.args)))
    {text : Text} (done : (cachedAudit sha call (runAudits sha history).audits).result = .ok text)
    (passes : auditVerdictMatchesPass (some text) call.args.passVerdict = true) :
    ∀ review ∈ call.args.reviews.asked,
      Approved (runAudits sha (history ++ [call])).log call.args review := by
  intro review asked
  cases reviews : call.args.reviews with
  | single prompt =>
      rw [reviews] at asked
      rw [List.mem_singleton.mp asked]
      exact single_approved reviews apart done (matchesPass passes)
  | fanout lenses =>
      rw [reviews] at asked
      obtain ⟨lens, declared, rfl⟩ := List.mem_map.mp asked
      exact fanout_approved reviews apart done (matchesPass passes) lens declared

/-! ## What is stored, and not asked for again -/

/-- There is an output of the lens under its policy. -/
def Holds (sha : Sha256) (args : CachedAuditArgs) (lens : AuditLens) (entry : AuditEvidenceEntry) :
    Prop :=
  entry.subjectHash = subjectHash sha args ∧ ∃ verdict ∈ entry.lenses, verdict.id = lens.id ∧
    verdict.promptHash = auditLensPolicyHash sha args lens

section

variable {call : AuditCall} {lenses : List AuditLens} {audits : TaskAudits} {lens : AuditLens}
  {entry : AuditEvidenceEntry}

theorem cachedAudit_of_fanout (fans : call.args.reviews = .fanout lenses) :
    cachedAudit sha call audits = fanoutAudit sha call.env call.args lenses audits := by
  rw [cachedAudit, fans]

theorem lensSet_of_fanout (fans : call.args.reviews = .fanout lenses) : AuditLensSet lenses := by
  have reviews := call.valid.2.1
  rwa [fans] at reviews

/-- A lens with a readable output under its policy is reused. -/
theorem reuses_of_held (fans : call.args.reviews = .fanout lenses) (declared : lens ∈ lenses)
    (stored : entry ∈ audits.history) (held : Holds sha call.args lens entry)
    (reads : call.env.historyReads = true) :
    (reuses (priorLenses sha call.args (perLensLimit lenses.length)
      (authorizedEntries sha call.env call.args audits) lenses)
      (auditLensPolicyHash sha call.args) lens).isSome = true := by
  obtain ⟨subject, verdict, inside, id, promptHash⟩ := held
  have known : entry ∈ authorizedEntries sha call.env call.args audits := by
    refine List.mem_filter.mpr ⟨?_, decide_eq_true subject⟩
    rw [readCachedEntries, if_pos reads, if_pos (List.ne_nil_of_mem stored)]
    exact stored
  exact reuses_isSome (lensSet_of_fanout fans).2.2.2 declared known inside id promptHash

/-- A lens that is reused is not asked about. -/
theorem silent_of_held (fans : call.args.reviews = .fanout lenses) (declared : lens ∈ lenses)
    (stored : entry ∈ audits.history) (held : Holds sha call.args lens entry)
    (reads : call.env.historyReads = true) :
    ∀ asked ∈ (cachedAudit sha call audits).calls, asked.review ≠ .lens lens := by
  have reused := reuses_of_held fans declared stored held reads
  have silent : ∀ asked ∈ askedCalls sha call.env call.args lenses audits,
      asked.review ≠ .lens lens := by
    intro asked mem review
    obtain ⟨lens', missing, rfl⟩ := List.mem_map.mp mem
    cases review
    have none := (List.mem_filter.mp missing).2
    rw [Option.isNone_iff_eq_none] at none
    rw [none] at reused
    cases reused
  rw [cachedAudit_of_fanout fans]
  rcases fanoutAudit_cases sha call.env call.args lenses audits with
    ⟨failed, -⟩ | ⟨entry, found, pass, fail, hit⟩ | stored
  · exact fun asked mem => silent asked (failed.calls asked mem)
  · rw [hit.outcome]
    exact fun asked mem => by cases mem
  · rw [stored.calls]
    exact silent

theorem holds_of_hit {found : List AuditLensVerdict} {pass fail : String}
    (hit : FanoutHit sha call.env call.args lenses audits entry found pass fail)
    (declared : lens ∈ lenses) : Holds sha call.args lens entry := by
  obtain ⟨⟨failures, outcome⟩, each⟩ := mem_exactFanout hit.exact
  obtain ⟨verdict, mem, facts⟩ := each lens declared
  refine ⟨(mem_entries_of_authorized hit.known).2, verdict, ?_, facts⟩
  rw [AuditEvidenceEntry.lenses, outcome]
  exact mem

/-- A lens that comes out has its output in the attempt. -/
theorem holds_of_attempt (fans : call.args.reviews = .fanout lenses) (declared : lens ∈ lenses)
    {verdict : AuditLensVerdict}
    (completes : attempt (priorLenses sha call.args (perLensLimit lenses.length)
      (authorizedEntries sha call.env call.args audits) lenses)
      (auditLensPolicyHash sha call.args) (reviewLens call.env (perLensLimit lenses.length)) lens =
        .ok verdict) :
    Holds sha call.args lens (fanoutEntry sha call.env call.args lenses audits) := by
  have mem : verdict ∈ (runFanout sha call.env call.args lenses audits).completed :=
    List.mem_filterMap.mpr ⟨lens, declared, by rw [completes]; rfl⟩
  obtain ⟨lens', declared', id, promptHash, -⟩ := mem_completed mem
  have own := List.inj_on_of_nodup_map (lensSet_of_fanout fans).2.2.2 declared' declared
    (id.symm.trans ((attempt_ids rfl).1 verdict completes))
  subst own
  exact ⟨rfl, verdict, mem, id, promptHash⟩

/-- A lens that is reused or gets an answer with a verdict comes out. -/
theorem attempt_of_answer {cached : List (String × AuditLensVerdict)} {limit : Nat} {out : Text}
    (answer : call.env.call (.lens lens) = .ok out) (verdict : hasVerdict out = true) :
    ∃ verdict, attempt cached (auditLensPolicyHash sha call.args) (reviewLens call.env limit) lens =
      .ok verdict := by
  unfold attempt
  split
  · exact ⟨_, rfl⟩
  · rw [reviewLens, answer]
    dsimp only
    rw [if_pos verdict]
    exact ⟨_, rfl⟩

/-- On valid evidence a fan-out in a working environment stores an attempt with what it is
answered. -/
theorem stores_of_works (fans : call.args.reviews = .fanout lenses) (works : call.env.Works)
    (known : ∀ entry ∈ authorizedEntries sha call.env call.args audits, entry.Valid) :
    ∃ entry, (cachedAudit sha call audits).audits = audits.store entry ∧ entry.Valid ∧
      entry.hash = auditDeclarationCacheHash sha call.args ∧
      ∀ lens ∈ lenses, (∃ out, call.env.call (.lens lens) = .ok out ∧ hasVerdict out = true) →
        Holds sha call.args lens entry := by
  rw [cachedAudit_of_fanout fans]
  rcases fanoutAudit_cases sha call.env call.args lenses audits with
    ⟨-, invalid⟩ | ⟨entry, found, pass, fail, hit⟩ | stored
  · exact absurd (fanoutEntry_valid call.valid.tokens (lensSet_of_fanout fans) known)
      (invalid works known)
  · exact ⟨entry, by rw [hit.outcome], hit.valid, hit.hash,
      fun lens declared _ => holds_of_hit hit declared⟩
  · refine ⟨_, stored.row, stored.valid, rfl, fun lens declared answered => ?_⟩
    obtain ⟨out, answer, verdict⟩ := answered
    obtain ⟨verdict, completes⟩ := attempt_of_answer answer verdict
    exact holds_of_attempt fans declared completes

end

theorem authorized_valid (history : List AuditCall) {env : Environment} {args : CachedAuditArgs} :
    ∀ entry ∈ authorizedEntries sha env args (runAudits sha history).audits, entry.Valid :=
  fun entry mem => (kept_runAudits history entry (mem_entries_of_authorized mem).1).valid

theorem cachedAudit_row (call : AuditCall) (audits : TaskAudits) :
    (cachedAudit sha call audits).audits = audits ∨
      ∃ entry, (cachedAudit sha call audits).audits = audits.store entry := by
  unfold cachedAudit
  cases call.args.reviews with
  | single prompt =>
      dsimp only
      generalize outcome : singleAudit sha call.env call.args prompt audits = result
      have how := outcome ▸ singleAudit_cases sha call.env call.args prompt audits
      cases how with
      | failed => exact .inl rfl
      | unstored => exact .inl rfl
      | hit => exact .inr ⟨_, rfl⟩
      | stored => exact .inr ⟨_, rfl⟩
  | fanout lenses =>
      rcases fanoutAudit_cases sha call.env call.args lenses audits with
        ⟨failed, -⟩ | ⟨entry, found, pass, fail, hit⟩ | stored
      · exact .inl failed.row
      · exact .inr ⟨entry, by dsimp only; rw [hit.outcome]⟩
      · exact .inr ⟨_, stored.row⟩

/-- An attempt moves on by one place with each attempt that is stored after it. -/
theorem stays_in_history {later : List AuditCall} {s : AuditState} {entry : AuditEvidenceEntry}
    {place : Nat} (here : s.audits.history[place]? = some entry)
    (room : place + later.length < HISTORY_LIMIT) :
    entry ∈ (later.foldl (AuditState.call sha) s).audits.history := by
  induction later generalizing s place with
  | nil => exact List.mem_of_getElem? here
  | cons call later ih =>
      rw [List.length_cons] at room
      rw [List.foldl_cons]
      rcases cachedAudit_row call s.audits with same | ⟨new, same⟩
      · refine @ih _ place ?_ (by omega)
        rw [AuditState.call, same]
        exact here
      · refine @ih _ (place + 1) ?_ (by omega)
        rw [AuditState.call, same]
        change ((new :: s.audits.history).take HISTORY_LIMIT)[place + 1]? = some entry
        rw [List.getElem?_take_of_lt (by omega)]
        exact here

/-- A lens that has completed in a stored attempt is not asked about again within the next hundred
calls, if the store can be read. -/
theorem not_asked_again (history later : List AuditCall) (call again : AuditCall)
    {lenses lenses' : List AuditLens} (fans : call.args.reviews = .fanout lenses)
    (works : call.env.Works) {lens : AuditLens} (declared : lens ∈ lenses)
    (answered : ∃ out, call.env.call (.lens lens) = .ok out ∧ hasVerdict out = true)
    (soon : later.length < HISTORY_LIMIT) (fans' : again.args.reviews = .fanout lenses')
    (declared' : lens ∈ lenses') (policy : SamePolicy again.args call.args)
    (subject : subjectHash sha again.args = subjectHash sha call.args)
    (reads : again.env.historyReads = true) :
    ∀ asked ∈ (cachedAudit sha again (runAudits sha (history ++ call :: later)).audits).calls,
      asked.review ≠ .lens lens := by
  obtain ⟨entry, row, -, -, held⟩ := stores_of_works fans works (authorized_valid history)
  obtain ⟨own, verdict, inside, id, promptHash⟩ := held lens declared answered
  have start : ((runAudits sha history).call sha call).audits.history[0]? = some entry := by
    rw [AuditState.call, row]
    rfl
  have kept : entry ∈ (runAudits sha (history ++ call :: later)).audits.history := by
    rw [runAudits, List.foldl_append, List.foldl_cons]
    exact stays_in_history start (by omega)
  have hash : verdict.promptHash = auditLensPolicyHash sha again.args lens := by
    have text : policyText again.args lens = policyText call.args lens := by
      rw [policyText, policyText, policyJson, policyJson, policy.model, policy.pass, policy.fail,
        policy.timeout]
    rw [promptHash, auditLensPolicyHash, auditLensPolicyHash, text]
  exact silent_of_held fans' declared' kept
    ⟨own.trans subject.symm, verdict, inside, id, hash⟩ reads

/-! ## A retry -/

def factsLens : AuditLens := { id := "facts", prompt := "Facts?" }

def scopeLens : AuditLens := { id := "scope", prompt := "Gaps?" }

def planAudit : CachedAuditArgs where
  model := "m"
  reviews := .fanout [factsLens, scopeLens]
  subject := some "The plan."

def planHash : String := "8fe5cea302b55eedcdf6be44565e119bad4f877508c76726e09b0d69e6c0ba5f"

/-- The texts that are hashed for the audit of the plan, with their SHA-256. -/
def planHashes : List (List Char × String) :=
  [("The plan.".toList, planHash),
    (policyText planAudit factsLens,
      "970060f7203d7abebbdb510d1cc30b9a0fdb0576a4568a3348d2584ee9b0ffd1"),
    (policyText planAudit scopeLens,
      "7d91dc567d0cacb7b78efb171e38cd23c781948b96ba18330369b13e3970292c"),
    ((Json.obj [("identity", .str (String.ofList (declarationJson planAudit).stringify)),
        ("subjectHash", .str planHash)]).stringify,
      "c6df5b29dbf404151cf8c7da4af567e29175e7fb03e1b4d439e876042924b1f8")]

/-- The hash as far as these texts need it. -/
def listedSha (hashes : List (List Char × String)) (other : String)
    (valid : ((other :: hashes.map Prod.snd).all isSha256) = true) : Sha256 where
  hex text := ((hashes.find? (·.1 = text)).map (·.2)).getD other
  sound text := by
    cases found : hashes.find? (·.1 = text) with
    | none => exact List.all_eq_true.mp valid _ List.mem_cons_self
    | some listed =>
        exact List.all_eq_true.mp valid _ (List.mem_cons_of_mem _
          (List.mem_map_of_mem (List.mem_of_find?_eq_some found)))

/-- Texts that are listed with hashes of their own are told apart. -/
theorem distinguishes_listed {hashes : List (List Char × String)} {other : String}
    {valid : ((other :: hashes.map Prod.snd).all isSha256) = true} {texts : List (List Char)}
    (nodup : (hashes.map Prod.snd).Nodup) (listed : ∀ text ∈ texts, text ∈ hashes.map Prod.fst) :
    (listedSha hashes other valid).Distinguishes texts := by
  have entry : ∀ text ∈ texts, (text, (listedSha hashes other valid).hex text) ∈ hashes := by
    intro text mem
    obtain ⟨row, known, rfl⟩ := List.mem_map.mp (listed text mem)
    cases found : hashes.find? (·.1 = row.1) with
    | none => exact absurd rfl (of_decide_eq_false
        (Bool.not_eq_true _ ▸ List.find?_eq_none.mp found row known))
    | some first =>
        have search := List.find?_some found
        have same : first.1 = row.1 := of_decide_eq_true search
        have hex : (listedSha hashes other valid).hex row.1 = first.2 := by
          change ((hashes.find? (·.1 = row.1)).map (·.2)).getD other = first.2
          rw [found]
          rfl
        rw [hex, ← same]
        exact List.mem_of_find?_eq_some found
  intro text mem text' mem' same
  have rows := List.inj_on_of_nodup_map nodup (entry text mem) (entry text' mem') same
  exact congrArg Prod.fst rows

def planSha : Sha256 := listedSha planHashes planHash (by decide +kernel)

def passing : Text := txt "VERDICT: GUESS_FREE"

/-- Every lens but the first fails. -/
def busy (review : Review) : Except Thrown Text :=
  if review = .lens factsLens then .ok passing else .error ⟨txt "busy", txt "Error: busy"⟩

def firstTry : AuditCall where
  args := planAudit
  valid := by decide +kernel
  env := { call := busy }

def secondTry : AuditCall where
  args := planAudit
  valid := by decide +kernel
  env := { call := fun _ => .ok passing }

theorem works_of_call (call : Review → Except Thrown Text) :
    ({ call := call } : Environment).Works := ⟨rfl, rfl, rfl, rfl⟩

theorem firstTry_answered :
    ∃ out, firstTry.env.call (.lens factsLens) = .ok out ∧ hasVerdict out = true :=
  ⟨passing, rfl, by decide +kernel⟩

/-- The texts of any audits of the plan are told apart. -/
theorem distinguishes_plan {used : List CachedAuditArgs} (all : ∀ args ∈ used, args = planAudit) :
    planSha.Distinguishes (hashedTexts planSha used) := by
  have texts : planSha.Distinguishes (identityTexts planSha planAudit) :=
    distinguishes_listed (by decide +kernel) (by decide +kernel)
  have same : ∀ text ∈ hashedTexts planSha used, text ∈ identityTexts planSha planAudit := by
    intro text mem
    obtain ⟨args, known, mem⟩ := List.mem_flatMap.mp mem
    rwa [all args known] at mem
  exact fun text mem other mem' => texts text (same text mem) other (same other mem')

theorem distinguishes_retry : planSha.Distinguishes
    (hashedTexts planSha (([firstTry] ++ [secondTry]).map AuditCall.args)) :=
  distinguishes_plan fun args used => by
    rcases List.mem_cons.mp used with rfl | used
    · rfl
    · exact List.mem_singleton.mp used

theorem secondTry_passes : ∃ text,
    (cachedAudit planSha secondTry (runAudits planSha [firstTry]).audits).result = .ok text ∧
      auditVerdictMatchesPass (some text) secondTry.args.passVerdict = true := by
  have replay : (okOf (cachedAudit planSha secondTry
      (runAudits planSha [firstTry]).audits).result).any
        (fun text => auditVerdictMatchesPass (some text) secondTry.args.passVerdict) = true := by
    decide +kernel
  obtain ⟨text, ok, passes⟩ := (Option.any_eq_true _ _).mp replay
  cases done :
      (cachedAudit planSha secondTry (runAudits planSha [firstTry]).audits).result with
  | error error =>
      rw [done] at ok
      cases ok
  | ok text' =>
      rw [done] at ok
      cases ok
      exact ⟨text, rfl, passes⟩

theorem pass_reviewed_retry :
    Approved (runAudits planSha ([firstTry] ++ [secondTry])).log planAudit
      (.lens factsLens) := by
  obtain ⟨text, done, passes⟩ := secondTry_passes
  exact pass_reviewed [firstTry] secondTry distinguishes_retry done passes (.lens factsLens)
    List.mem_cons_self

theorem not_asked_again_secondTry : Review.lens factsLens ∉
    (cachedAudit planSha secondTry
      (runAudits planSha ([] ++ firstTry :: [])).audits).calls.map ModelCall.review := by
  intro again
  obtain ⟨asked, mem, review⟩ := List.mem_map.mp again
  exact not_asked_again [] [] firstTry secondTry rfl (works_of_call _) List.mem_cons_self
    firstTry_answered (by decide) rfl List.mem_cons_self ⟨rfl, rfl, rfl, rfl⟩ rfl rfl asked mem
    review

end Opensquid.Audit
