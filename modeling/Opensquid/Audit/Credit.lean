import Opensquid.Audit.Reviewed

/-!
# What a lens is credited with

One statement about every fan-out after every history (`lens_credited`). Its pass rests on a passing
answer to each declared lens. A lens whose output is in a stored attempt that can be read is not
asked about again. What has come out of a call stays for the next one, also when other lenses have
failed. A store that cannot be written keeps nothing, and one that cannot be read is asked as if it
were empty (`lens_lost`): the call then fails, or pays for an answer that it had.
-/

namespace Opensquid.Audit

variable {sha : Sha256} {call : AuditCall} {lenses : List AuditLens} {audits : TaskAudits}
  {lens : AuditLens}

/-- The model is asked about the lens and answers with a verdict. -/
def Answered (sha : Sha256) (call : AuditCall) (audits : TaskAudits) (lens : AuditLens) : Prop :=
  ∃ asked ∈ (cachedAudit sha call audits).calls, asked.review = .lens lens ∧
    ∃ out, asked.answer = .ok out ∧ hasVerdict out = true

/-- A stored attempt about the subject has an output of the lens under its policy. -/
def Stored (sha : Sha256) (args : CachedAuditArgs) (audits : TaskAudits) (lens : AuditLens) :
    Prop :=
  ∃ entry ∈ audits.history, Holds sha args lens entry

theorem stored_of_row {args : CachedAuditArgs} {audits' : TaskAudits} {entry : AuditEvidenceEntry}
    (row : audits'.history = (entry :: audits.history).take HISTORY_LIMIT)
    (held : Holds sha args lens entry) : Stored sha args audits' lens :=
  ⟨entry, by rw [row]; exact List.mem_cons_self, held⟩

/-- Where the model is asked, the call has come as far as asking. -/
theorem fresh_of_asked {env : Environment} {args : CachedAuditArgs} {asked : ModelCall}
    (mem : asked ∈ (fanoutAudit sha env args lenses audits).calls) :
    fanoutAudit sha env args lenses audits = freshFanout sha env args lenses audits := by
  cases lock : env.lock with
  | error error =>
      rw [fanoutAudit, lock] at mem
      cases mem
  | ok nothing =>
      cases hit : exactHit sha env args lenses audits with
      | some found =>
          obtain ⟨entry, found, pass, fail⟩ := found
          rw [fanoutAudit_of_hit lock hit] at mem
          split at mem
          · cases mem
          · cases mem
      | none =>
          have same := fanoutAudit_of_miss lock hit
          cases models : env.models with
          | error error =>
              rw [same, models] at mem
              cases mem
          | ok configured =>
              cases configured with
              | false =>
                  rw [same, models] at mem
                  cases mem
              | true =>
                  cases admission : env.admission with
                  | error error =>
                      rw [same, models, admission] at mem
                      cases mem
                  | ok nothing => rw [same, models, admission]

/-- What the model answers is stored if anything can be. -/
theorem stored_of_answered (fans : call.args.reviews = .fanout lenses) (declared : lens ∈ lenses)
    (known : ∀ entry ∈ authorizedEntries sha call.env call.args audits, entry.Valid)
    (writes : call.env.writes = true) (answered : Answered sha call audits lens) :
    Stored sha call.args (cachedAudit sha call audits).audits lens := by
  obtain ⟨asked, mem, review, out, answer, verdict⟩ := answered
  rw [cachedAudit_of_fanout fans] at mem ⊢
  rcases freshFanout_cases (fresh_of_asked mem) with ⟨-, refused⟩ | stored
  · exact absurd ⟨writes, fanoutEntry_valid call.valid.tokens (lensSet_of_fanout fans) known⟩ refused
  · rw [stored.calls] at mem
    obtain ⟨lens', -, rfl⟩ := List.mem_map.mp mem
    cases review
    obtain ⟨verdict, completes⟩ := attempt_of_answer answer verdict
    rw [stored.row]
    exact stored_of_row rfl (holds_of_attempt fans declared completes)

/-- What could be read before the call is stored after it. -/
theorem stored_of_stored (fans : call.args.reviews = .fanout lenses) (declared : lens ∈ lenses)
    (reads : call.env.historyReads = true) (stored : Stored sha call.args audits lens) :
    Stored sha call.args (cachedAudit sha call audits).audits lens := by
  obtain ⟨entry, mem, held⟩ := stored
  have reused := reuses_of_held fans declared mem held reads
  rw [cachedAudit_of_fanout fans]
  rcases fanoutAudit_cases sha call.env call.args lenses audits with
    ⟨failed, -⟩ | ⟨again, found, pass, fail, hit⟩ | fresh
  · rw [failed.row]
    exact ⟨entry, mem, held⟩
  · rw [hit.outcome]
    exact stored_of_row rfl (holds_of_hit hit declared)
  · obtain ⟨prior, found⟩ := Option.isSome_iff_exists.mp reused
    have completes : attempt (priorLenses sha call.args (perLensLimit lenses.length)
        (authorizedEntries sha call.env call.args audits) lenses)
        (auditLensPolicyHash sha call.args) (reviewLens call.env (perLensLimit lenses.length)) lens =
          .ok prior := by
      rw [attempt, found]
    rw [fresh.row]
    exact stored_of_row rfl (holds_of_attempt fans declared completes)

theorem answered_of_any (found : (cachedAudit sha call audits).calls.any (fun asked =>
    asked.review = .lens lens && (okOf asked.answer).any hasVerdict) = true) :
    Answered sha call audits lens := by
  obtain ⟨asked, mem, both⟩ := List.any_eq_true.mp found
  obtain ⟨review, verdict⟩ := (Bool.and_eq_true _ _).mp both
  obtain ⟨out, ok, verdict⟩ := (Option.any_eq_true _ _).mp verdict
  refine ⟨asked, mem, of_decide_eq_true review, out, ?_, verdict⟩
  cases answer : asked.answer with
  | error error =>
      rw [answer] at ok
      cases ok
  | ok text =>
      rw [answer] at ok
      cases ok
      rfl

theorem stored_firstTry :
    Stored planSha planAudit (runAudits planSha [firstTry]).audits factsLens := by
  obtain ⟨entry, row, -, -, held⟩ :=
    @stores_of_works planSha firstTry _ _ rfl (works_of_call _) (authorized_valid [])
  rw [← List.nil_append [firstTry], runAudits_append, AuditState.call, row]
  exact stored_of_row rfl (held factsLens List.mem_cons_self firstTry_answered)

/-- The first try, with a store that refuses the attempt. -/
def unwritten : AuditCall where
  args := planAudit
  valid := firstTry.valid
  env := { call := busy, writes := false }

/-- The second try, with a history that cannot be read. -/
def unread : AuditCall where
  args := planAudit
  valid := firstTry.valid
  env := { call := fun _ => .ok passing, historyReads := false }

end Opensquid.Audit
