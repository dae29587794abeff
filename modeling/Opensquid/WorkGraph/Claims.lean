import Opensquid.WorkGraph.Log

/-!
# Claims

A claim is the token stored in an issue's row. `applyOp_claimTokenAt` says what
may change it: an acquisition that finds the row claimable, or a release that
names its token or none. From that, over the folded ops of any run: between the
acquisitions of two calls that both won an issue, the earlier claim ended
(`Ended`), by such a release or by an acquisition at or after the expiry it had
then (`claims_exclusive`).

The acquisition that ends a claim need not be the later of the two: a third
caller may have taken the expired claim over and released it again before a
slow op with an early timestamp lands (`slowClaim_wins`).

Expiries are compared as text. `Sys.Dated` restricts the runs to instants whose
text has a four-digit year, where that is the order of the instants.
-/

namespace Opensquid.WorkGraph

open Opensquid.Lib Opensquid.Lib.Iso

variable {digest : Digest}

/-! ## What changes a claim -/

/-- A release that names the token, or no token. -/
def WgPayload.releases (token : String) : WgPayload → Prop
  | .claimReleased expectedToken => expectedToken.getD "" = "" ∨ expectedToken = some token
  | _ => False

instance (token : String) (payload : WgPayload) : Decidable (payload.releases token) := by
  cases payload <;> unfold WgPayload.releases <;> infer_instance

/-- What one op does to the claim columns of the row of its issue. -/
inductive WgOp.ClaimStep (op : WgOp) (row row' : IssueRow) : Prop
  | kept :
      row'.claimToken = row.claimToken → row'.claimExpiresAt = row.claimExpiresAt →
      WgOp.ClaimStep op row row'
  | acquired {token expiresAt : String} {audience : ClaimAudience} :
      op.payload = .claimAcquired token audience expiresAt → row.claimable op.ts = true →
      row'.claimToken = some token → row'.claimExpiresAt = some expiresAt →
      WgOp.ClaimStep op row row'
  | renewed {token expiresAt : String} :
      op.payload = .claimRenewed token expiresAt →
      row'.claimToken = row.claimToken → row'.claimExpiresAt = some expiresAt →
      WgOp.ClaimStep op row row'
  | released :
      (∀ token ∈ row.claimToken, op.payload.releases token) →
      row'.claimToken = none → row'.claimExpiresAt = none → WgOp.ClaimStep op row row'

/-- An update keeps the row it finds, or sets it where its condition holds. -/
theorem updated_row {cond : Bool} {op : WgOp} {row new : IssueRow}
    (accepted : cond = true → op.ClaimStep row new) :
    op.ClaimStep row (if cond then new else row) := by
  cases cond with
  | false => exact .kept rfl rfl
  | true => exact accepted rfl

theorem WgOp.issueStep_claim (op : WgOp) (row : IssueRow) :
    ∃ row', op.issueStep digest (some row) = some row' ∧ op.ClaimStep row row' := by
  cases payload : op.payload <;>
    simp only [issueStep, applyOp, payload, Projection.updateIssueWhere,
      Projection.insertIssueOrIgnore, Projection.upsertEdge, Projection.deleteEdge,
      Function.update_self, Option.map_some, Option.getD_some, Option.some.injEq, exists_eq_left']
  case claimAcquired token audience expiresAt =>
    exact updated_row fun claimable => .acquired payload claimable rfl rfl
  case claimRenewed token expiresAt =>
    exact updated_row fun _ => .renewed payload rfl rfl
  case claimReleased expected =>
    refine updated_row fun holds => .released (fun token stored => ?_) rfl rfl
    rw [payload]
    rcases of_decide_eq_true holds with unconditional | named
    · exact .inl unconditional
    · cases expected with
      | none => exact .inl rfl
      | some expected => exact .inr (stored.symm.trans named).symm
  all_goals
    first
    | exact .kept rfl rfl
    | exact updated_row fun _ => .kept rfl rfl

/-- A row that a fold creates is unclaimed. -/
theorem WgOp.issueStep_none {op : WgOp} {row' : IssueRow}
    (created : op.issueStep digest none = some row') :
    row'.claimToken = none ∧ row'.claimExpiresAt = none := by
  cases payload : op.payload <;>
    simp only [issueStep, applyOp, payload, Projection.updateIssueWhere,
      Projection.insertIssueOrIgnore, Projection.upsertEdge, Projection.deleteEdge,
      Function.update_self, Option.map_none, Option.getD_none, Option.some.injEq, reduceCtorEq]
      at created
  case issueCreated title body =>
    subst created
    exact ⟨rfl, rfl⟩

/-- What one op does to the claim of any issue. -/
theorem applyOp_claim (p : Projection) (op : WgOp) (id : String) :
    (applyOp digest p op).issues id = p.issues id ∨
      op.issueId = id ∧ (∃ row row', p.issues id = some row ∧
        (applyOp digest p op).issues id = some row' ∧ op.ClaimStep row row') ∨
      (p.issues id = none ∧ ∀ row' ∈ (applyOp digest p op).issues id,
        row'.claimToken = none ∧ row'.claimExpiresAt = none) := by
  by_cases other : id = op.issueId
  · subst other
    rw [applyOp_issues_self]
    cases present : p.issues op.issueId with
    | none => exact .inr (.inr ⟨rfl, fun row' created => op.issueStep_none created⟩)
    | some row =>
        obtain ⟨row', stepped, claim⟩ := op.issueStep_claim row
        exact .inr (.inl ⟨rfl, row, row', rfl, stepped, claim⟩)
  · exact .inl (applyOp_issues_of_ne other)

/-! ## Acquisitions and endings in a list of folded ops -/

/-- The projection once the ops have been folded. -/
def projAfter (digest : Digest) (ops : List WgOp) : Projection :=
  ops.foldl (applyOp digest) .empty

theorem projAfter_take_succ {ops : List WgOp} {m : Nat} {op : WgOp} (at_m : ops[m]? = some op) :
    projAfter digest (ops.take (m + 1)) = applyOp digest (projAfter digest (ops.take m)) op := by
  rw [List.take_add_one, at_m, projAfter, List.foldl_append]
  rfl

/-- The op at position `i` acquires the claim of the issue with this token, and
its compare-and-set succeeds. -/
def AcquiredAt (digest : Digest) (ops : List WgOp) (id token : String) (i : Nat) : Prop :=
  ∃ op row audience expiresAt, ops[i]? = some op ∧ op.issueId = id ∧
    op.payload = .claimAcquired token audience expiresAt ∧
    (projAfter digest (ops.take i)).issues id = some row ∧ row.claimable op.ts = true

/-- The expiry is at or before the timestamp, as instants. -/
def ExpiredAt (expiresAt : Option String) (ts : String) : Prop :=
  ∃ text ∈ expiresAt, ∃ expiry stamp : Int,
    toISOString expiry = some text ∧ toISOString stamp = some ts ∧ expiry ≤ stamp

/-- Past position `i` and no later than `j`, the claim with this token ended:
while it was stored, an op released it by its token or without one, or an
acquisition took effect at or after the expiry then stored. -/
def EndedBetween (digest : Digest) (ops : List WgOp) (id token : String) (i j : Nat) : Prop :=
  ∃ m op row, i < m ∧ m ≤ j ∧ ops[m]? = some op ∧ op.issueId = id ∧
    (projAfter digest (ops.take m)).issues id = some row ∧ row.claimToken = some token ∧
    (op.payload.releases token ∨
      ∃ token' audience expiresAt, op.payload = .claimAcquired token' audience expiresAt ∧
        row.claimable op.ts = true ∧ ExpiredAt row.claimExpiresAt op.ts)

theorem AcquiredAt.claimTokenAt {ops : List WgOp} {id token : String} {i : Nat}
    (acquired : AcquiredAt digest ops id token i) :
    (projAfter digest (ops.take (i + 1))).claimTokenAt id = some token := by
  obtain ⟨op, row, audience, expiresAt, at_i, rfl, payload, present, claimable⟩ := acquired
  rw [projAfter_take_succ at_i, Projection.claimTokenAt, applyOp_issues_self, present]
  simp only [WgOp.issueStep, applyOp, payload, Projection.updateIssueWhere, claimable,
    Function.update_self, Option.map_some, Option.bind_some, ↓reduceIte]

/-- A later fold does not undo an acquisition of the past. -/
theorem AcquiredAt.append {ops : List WgOp} {id token : String} {i : Nat}
    (acquired : AcquiredAt digest ops id token i) (more : List WgOp) :
    AcquiredAt digest (ops ++ more) id token i := by
  obtain ⟨op, row, audience, expiresAt, at_i, issue, payload, present, claimable⟩ := acquired
  have inside : i < ops.length := (List.getElem?_eq_some_iff.mp at_i).1
  refine ⟨op, row, audience, expiresAt, ?_, issue, payload, ?_, claimable⟩
  · rw [List.getElem?_append_left inside, at_i]
  · rw [List.take_append_of_le_length inside.le, present]

/-- A stored token was acquired. -/
theorem exists_acquiredAt {ops : List WgOp} {id token : String} {n : Nat} (within : n ≤ ops.length)
    (stored : (projAfter digest (ops.take n)).claimTokenAt id = some token) :
    ∃ i, AcquiredAt digest ops id token i := by
  induction n with
  | zero => cases stored
  | succ n ih =>
      have at_n : ops[n]? = some ops[n] := List.getElem?_eq_getElem (by omega)
      rw [projAfter_take_succ at_n] at stored
      rcases applyOp_claim (projAfter digest (ops.take n)) ops[n] id with
        same | ⟨issue, row, row', present, stepped, claim⟩ | ⟨-, unclaimed⟩
      · refine ih (by omega) ?_
        rw [← stored, Projection.claimTokenAt, Projection.claimTokenAt, same]
      · simp only [Projection.claimTokenAt, stepped, Option.bind_some] at stored
        have before (same : row'.claimToken = row.claimToken) :
            ∃ i, AcquiredAt digest ops id token i := by
          refine ih (by omega) ?_
          rw [Projection.claimTokenAt, present, Option.bind_some, ← same, stored]
        cases claim with
        | kept token _ => exact before token
        | renewed _ token _ => exact before token
        | @acquired token' expiresAt audience payload claimable new _ =>
            cases new.symm.trans stored
            exact ⟨n, _, row, audience, expiresAt, at_n, issue, payload, present, claimable⟩
        | released _ none _ => cases none.symm.trans stored
      · obtain ⟨row', created, claimed⟩ := Option.bind_eq_some_iff.mp stored
        cases (unclaimed row' created).1.symm.trans claimed

/-- Where a property that holds past `i` is lost by `j`, some step loses it. -/
theorem exists_step_losing (holds : Nat → Prop) {i j : Nat} (before : i < j)
    (start : holds (i + 1)) (lost : ¬ holds (j + 1)) :
    ∃ m, i < m ∧ m ≤ j ∧ holds m ∧ ¬ holds (m + 1) := by
  induction j with
  | zero => omega
  | succ j ih =>
      by_cases kept : holds (j + 1)
      · exact ⟨j + 1, before, le_rfl, kept, lost⟩
      · by_cases last : i = j
        · exact absurd (last ▸ start) kept
        · obtain ⟨m, past, within, step⟩ := ih (by omega) kept
          exact ⟨m, past, by omega, step⟩

/-! ## Instants with a four-digit year -/

/-- The text of an instant before the year 10000. -/
def BeforeYear10000 (text : String) : Prop :=
  ∃ t < year10000, toISOString t = some text

/-- The text of a clock reading before the year 10000. -/
def ClockText (text : String) : Prop :=
  ∃ t, 0 ≤ t ∧ t < year10000 ∧ toISOString t = some text

theorem toISOString_eq_some {t : Int} {text : String} (rendered : toISOString t = some text) :
    text = String.ofList (isoText t) := by
  unfold toISOString at rendered
  split at rendered
  · exact (Option.some.inj rendered).symm
  · cases rendered

/-- On such texts the comparison of the columns is the comparison of instants. -/
theorem expiredAt_of_le {expiresAt ts : String} (expiry : BeforeYear10000 expiresAt)
    (clock : ClockText ts) (le : expiresAt ≤ ts) : ExpiredAt (some expiresAt) ts := by
  obtain ⟨t, before, rendered⟩ := expiry
  obtain ⟨u, epoch, before', rendered'⟩ := clock
  refine ⟨expiresAt, rfl, t, u, rendered, rendered', ?_⟩
  rw [toISOString_eq_some rendered, toISOString_eq_some rendered'] at le
  exact (isoText_le_iff before (by omega) before').mp le

/-- The expiry an op stores, if it stores one. -/
def WgPayload.expiresAt : WgPayload → Option String
  | .claimAcquired _ _ expiresAt => some expiresAt
  | .claimRenewed _ expiresAt => some expiresAt
  | _ => none

/-- The op's timestamp and the expiry it stores have four-digit years. -/
def WgOp.Dated (op : WgOp) : Prop :=
  ClockText op.ts ∧ ∀ expiresAt ∈ op.payload.expiresAt, BeforeYear10000 expiresAt

/-- Every expiry in the table comes from an op. -/
theorem dated_of_stored {ops : List WgOp} (dated : ∀ op ∈ ops, op.Dated) {n : Nat}
    (within : n ≤ ops.length) {id : String} {row : IssueRow}
    (present : (projAfter digest (ops.take n)).issues id = some row) :
    ∀ expiresAt ∈ row.claimExpiresAt, BeforeYear10000 expiresAt := by
  induction n generalizing row with
  | zero => cases present
  | succ n ih =>
      have at_n : ops[n]? = some ops[n] := List.getElem?_eq_getElem (by omega)
      have member : ops[n] ∈ ops := List.getElem_mem _
      rw [projAfter_take_succ at_n] at present
      rcases applyOp_claim (projAfter digest (ops.take n)) ops[n] id with
        same | ⟨-, old, row', before, stepped, claim⟩ | ⟨-, unclaimed⟩
      · exact ih (by omega) (same ▸ present)
      · cases stepped.symm.trans present
        cases claim with
        | kept _ expires => exact expires ▸ ih (by omega) before
        | acquired payload _ _ expires | renewed payload _ expires =>
            rw [expires]
            rintro _ ⟨⟩
            exact (dated _ member).2 _ (by rw [payload]; rfl)
        | released _ _ expires =>
            rw [expires]
            nofun
      · rw [(unclaimed row present).2]
        nofun

/-- Between the acquisitions of two tokens, the first claim ended. -/
theorem AcquiredAt.endedBetween {ops : List WgOp} (dated : ∀ op ∈ ops, op.Dated)
    {id token token' : String} {i j : Nat} (first : AcquiredAt digest ops id token i)
    (second : AcquiredAt digest ops id token' j) (differ : token ≠ token') (before : i < j) :
    EndedBetween digest ops id token i j := by
  have lost : (projAfter digest (ops.take (j + 1))).claimTokenAt id ≠ some token := by
    rw [second.claimTokenAt]
    exact fun same => differ (Option.some.inj same).symm
  obtain ⟨m, past, within, stored, changed⟩ := exists_step_losing
    (fun m => (projAfter digest (ops.take m)).claimTokenAt id = some token) before
    first.claimTokenAt lost
  have inside : m < ops.length := by
    obtain ⟨op, _, _, _, at_j, _⟩ := second
    have := (List.getElem?_eq_some_iff.mp at_j).1
    omega
  have at_m : ops[m]? = some ops[m] := List.getElem?_eq_getElem inside
  have member : ops[m] ∈ ops := List.getElem_mem _
  obtain ⟨row, present, claimed⟩ := Option.bind_eq_some_iff.mp stored
  rw [projAfter_take_succ at_m] at changed
  refine ⟨m, ops[m], row, past, within, at_m, ?_⟩
  rcases applyOp_claim (projAfter digest (ops.take m)) ops[m] id with
    same | ⟨issue, old, row', old_present, stepped, claim⟩ | ⟨absent, -⟩
  · exact absurd (by rw [Projection.claimTokenAt, same]; exact stored) changed
  · cases old_present.symm.trans present
    refine ⟨issue, present, claimed, ?_⟩
    have after : row'.claimToken ≠ some token := by
      simpa only [Projection.claimTokenAt, stepped, Option.bind_some] using changed
    cases claim with
    | kept same _ => exact absurd (same.trans claimed) after
    | renewed _ same _ => exact absurd (same.trans claimed) after
    | released names _ _ => exact .inl (names token claimed)
    | @acquired new expiresAt audience payload claimable _ _ =>
        refine .inr ⟨new, audience, expiresAt, payload, claimable, ?_⟩
        -- the row is claimed, so the compare-and-set went through the expiry
        obtain ⟨-, free | ⟨text, expires, le⟩⟩ := of_decide_eq_true claimable
        · cases free.symm.trans claimed
        · rw [expires]
          exact expiredAt_of_le (dated_of_stored dated inside.le present text expires)
            (dated _ member).1 le
  · cases absent.symm.trans present

/-! ## Tokens over a run -/

/-- The claim token a process is trying to win with. -/
def ProcState.claimToken : ProcState → Option String
  | .idle => none
  | .queued req => req.claimToken
  | .selecting req _ _ => req.claimToken
  | .inserting req _ _ _ => req.claimToken
  | .writing _ token => token
  | .folding _ token => token
  | .readingBack _ token => some token

theorem afterFold_claimToken (op : WgOp) (token : Option String) :
    (afterFold op token).claimToken = token := by
  cases token <;> rfl

theorem afterFailure_claimToken {req : Append} {ts : String} {attempt : Nat} {token : String}
    (held : token ∈ (afterFailure req ts attempt).claimToken) : token ∈ req.claimToken := by
  unfold afterFailure at held
  split at held
  · exact held
  · cases held

/-- A token in a process's hands was there before, or is freshly drawn. -/
theorem Sys.Step.claimToken {env : Env} {s t : Sys} {e : Event} (fire : Sys.Step env s e t)
    {q : Nat} {token : String} (held : token ∈ (t.procs q).claimToken) :
    token ∈ (s.procs q).claimToken ∨
      (∃ call, e = .invoke q call) ∧ token ∉ s.tokens ∧ token ∈ t.tokens := by
  cases fire with
  | tick | refused | cursorRead | opsListed | markAdvanced | passFailed => exact .inl held
  | invoked idle appended fresh =>
      rcases mem_update.mp held with ⟨rfl, new⟩ | ⟨-, old⟩
      · refine .inr ⟨⟨_, rfl⟩, fresh token new, List.mem_append_left _ ?_⟩
        exact Option.mem_toList.mpr new
      · exact .inl old
  | stamped before | selected before | inserted before _ | fileWritten before =>
      rcases mem_update.mp held with ⟨rfl, new⟩ | ⟨-, old⟩
      · exact .inl (by rw [before]; exact new)
      · exact .inl old
  | folded before =>
      rcases mem_update.mp held with ⟨rfl, new⟩ | ⟨-, old⟩
      · rw [afterFold_claimToken] at new
        exact .inl (by rw [before]; exact new)
      · exact .inl old
  | retried before =>
      rcases mem_update.mp held with ⟨rfl, new⟩ | ⟨-, old⟩
      · exact .inl (by rw [before]; exact afterFailure_claimToken new)
      · exact .inl old
  | wasBusy before =>
      rcases mem_update.mp held with ⟨rfl, new⟩ | ⟨-, old⟩
      · rcases before with before | ⟨_, before⟩ <;>
          exact .inl (by rw [before]; exact afterFailure_claimToken new)
      · exact .inl old
  | stampFailed | claimWon | claimFenced | claimLost =>
      rcases mem_update.mp held with ⟨rfl, new⟩ | ⟨-, old⟩
      · cases new
      · exact .inl old

theorem Sys.Step.tokens_subset {env : Env} {s t : Sys} {e : Event} (fire : Sys.Step env s e t) :
    s.tokens ⊆ t.tokens := by
  cases fire with
  | invoked => exact List.subset_append_right _ _
  | _ => exact List.Subset.refl _

/-- A claim is won by the process that reads its own token back. -/
theorem Sys.Step.won {env : Env} {s t : Sys} {e : Event} (fire : Sys.Step env s e t) :
    t.won = s.won ∨ ∃ p id token, token ∈ (s.procs p).claimToken ∧
      (t.procs p).claimToken = none ∧ s.proj.claimTokenAt id = some token ∧
      t.won = s.won ++ [(id, token)] := by
  cases fire with
  | @claimWon p id token reading stored =>
      refine .inr ⟨p, id, token, by rw [reading]; rfl, ?_, stored, rfl⟩
      exact congrArg ProcState.claimToken (Function.update_self p .idle s.procs)
  | _ => exact .inl rfl

/-- The folded ops only grow. -/
theorem Sys.Step.folded_prefix {env : Env} {s t : Sys} {e : Event} (fire : Sys.Step env s e t) :
    ∃ more, t.folded = s.folded ++ more := by
  cases fire with
  | @folded p op token folding => exact ⟨[op], rfl⟩
  | _ => exact ⟨[], (List.append_nil _).symm⟩

/-- No token is shared: each is known once drawn, in the hands of one process at
most, and won at most once. A won token was acquired. -/
structure Sys.TokenInv (env : Env) (s : Sys) : Prop where
  known : ∀ p, ∀ token ∈ (s.procs p).claimToken, token ∈ s.tokens
  owner : ∀ p q token, token ∈ (s.procs p).claimToken → token ∈ (s.procs q).claimToken → p = q
  wonKnown : ∀ entry ∈ s.won, entry.2 ∈ s.tokens
  wonFree : ∀ p, ∀ token ∈ (s.procs p).claimToken, ∀ entry ∈ s.won, entry.2 ≠ token
  wonOnce : (s.won.map Prod.snd).Nodup
  acquired : ∀ entry ∈ s.won, ∃ i, AcquiredAt env.digest s.folded entry.1 entry.2 i

theorem Sys.TokenInv.init (env : Env) (now : Int) : (Sys.init now).TokenInv env where
  known _ _ held := nomatch held
  owner _ _ _ held := nomatch held
  wonKnown := List.forall_mem_nil _
  wonFree _ _ held := nomatch held
  wonOnce := List.nodup_nil
  acquired := List.forall_mem_nil _

theorem Sys.Step.tokenInv {env : Env} {s t : Sys} {e : Event} (fire : Sys.Step env s e t)
    (logged : s.Logged env) (inv : s.TokenInv env) : t.TokenInv env := by
  have keep : s.tokens ⊆ t.tokens := fire.tokens_subset
  have known (p : Nat) (token : String) (held : token ∈ (t.procs p).claimToken) :
      token ∈ t.tokens := by
    rcases fire.claimToken held with old | ⟨-, -, fresh⟩
    · exact keep (inv.known p token old)
    · exact fresh
  have owner (p q : Nat) (token : String) (held : token ∈ (t.procs p).claimToken)
      (held' : token ∈ (t.procs q).claimToken) : p = q := by
    rcases fire.claimToken held with old | ⟨⟨_, invoked⟩, unknown, -⟩ <;>
      rcases fire.claimToken held' with old' | ⟨⟨_, invoked'⟩, unknown', -⟩
    · exact inv.owner p q token old old'
    · exact absurd (inv.known p token old) unknown'
    · exact absurd (inv.known q token old') unknown
    · cases invoked.symm.trans invoked'
      rfl
  have acquired (id token : String) (past : ∃ i, AcquiredAt env.digest s.folded id token i) :
      ∃ i, AcquiredAt env.digest t.folded id token i := by
    obtain ⟨more, grown⟩ := fire.folded_prefix
    exact past.imp fun i at_i => grown ▸ at_i.append more
  have stillFree (p : Nat) (token : String) (held : token ∈ (t.procs p).claimToken)
      (entry : String × String) (member : entry ∈ s.won) : entry.2 ≠ token := by
    rcases fire.claimToken held with old | ⟨-, unknown, -⟩
    · exact inv.wonFree p token old entry member
    · exact fun same => unknown (same ▸ inv.wonKnown entry member)
  rcases fire.won with same | ⟨p, id, token, mine, released, stored, won⟩
  · refine ⟨known, owner, ?_, ?_, ?_, ?_⟩ <;> rw [same]
    · exact fun entry member => keep (inv.wonKnown entry member)
    · exact stillFree
    · exact inv.wonOnce
    · exact fun entry member => acquired entry.1 entry.2 (inv.acquired entry member)
  · refine ⟨known, owner, ?_, ?_, ?_, ?_⟩ <;> rw [won]
    · intro entry member
      rcases List.mem_append.mp member with old | new
      · exact keep (inv.wonKnown entry old)
      · rw [List.mem_singleton.mp new]
        exact keep (inv.known p token mine)
    · intro q other held entry member
      rcases List.mem_append.mp member with old | new
      · exact stillFree q other held entry old
      · rw [List.mem_singleton.mp new]
        rintro rfl
        -- the winner no longer holds its token, and nobody else did
        rcases fire.claimToken held with old | ⟨-, unknown, -⟩
        · cases inv.owner p q token mine old
          rw [released] at held
          cases held
        · exact unknown (inv.known p token mine)
    · rw [List.map_append]
      refine inv.wonOnce.append (List.nodup_singleton _) ?_
      intro used member new
      obtain ⟨entry, old, rfl⟩ := List.mem_map.mp member
      exact inv.wonFree p token mine entry old (List.mem_singleton.mp new)
    · intro entry member
      rcases List.mem_append.mp member with old | new
      · exact acquired entry.1 entry.2 (inv.acquired entry old)
      · rw [List.mem_singleton.mp new]
        refine acquired id token (exists_acquiredAt le_rfl ?_)
        rw [List.take_length, projAfter, ← logged.live]
        exact stored

/-! ## Dates over a run -/

/-- The event reads the clock, and computes an expiry, before the year 10000. -/
def FourDigitYears (s : Sys) : Event → Prop
  | .invoke _ (.claimIssue _ _ ttlSec _ _) => s.clock + ttlSec * 1000 < year10000
  | .invoke _ (.renewClaim _ _ ttlSec) => s.clock + ttlSec * 1000 < year10000
  | .stamp _ => s.clock < year10000
  | _ => True

/-- `FourDigitYears` as a test. -/
def fourDigitYears (s : Sys) : Event → Bool
  | .invoke _ (.claimIssue _ _ ttlSec _ _) => s.clock + ttlSec * 1000 < year10000
  | .invoke _ (.renewClaim _ _ ttlSec) => s.clock + ttlSec * 1000 < year10000
  | .stamp _ => s.clock < year10000
  | _ => true

theorem FourDigitYears.of_test {s : Sys} {e : Event} (passed : fourDigitYears s e = true) :
    FourDigitYears s e := by
  unfold fourDigitYears at passed
  split at passed <;> simp_all [FourDigitYears]

/-- The request a process has not inserted yet. -/
def ProcState.request : ProcState → Option Append
  | .queued req => some req
  | .selecting req _ _ => some req
  | .inserting req _ _ _ => some req
  | _ => none

/-- The timestamp a process has read for its op. -/
def ProcState.stampText : ProcState → Option String
  | .selecting _ ts _ => some ts
  | .inserting _ ts _ _ => some ts
  | _ => none

theorem afterFailure_request {req req' : Append} {ts : String} {attempt : Nat}
    (held : req' ∈ (afterFailure req ts attempt).request) : req' = req := by
  unfold afterFailure at held
  split at held
  · exact (Option.some.inj held).symm
  · cases held

theorem afterFailure_stampText {req : Append} {ts ts' : String} {attempt : Nat}
    (held : ts' ∈ (afterFailure req ts attempt).stampText) : ts' = ts := by
  unfold afterFailure at held
  split at held
  · exact (Option.some.inj held).symm
  · cases held

/-- Every instant on its way into the table has a four-digit year. -/
structure Sys.DatedInv (s : Sys) : Prop where
  clock : 0 ≤ s.clock
  request : ∀ p, ∀ req ∈ (s.procs p).request, ∀ expiresAt ∈ req.payload.expiresAt,
    BeforeYear10000 expiresAt
  stampText : ∀ p, ∀ ts ∈ (s.procs p).stampText, ClockText ts
  unfolded : ∀ p, ∀ op ∈ (s.procs p).unfolded, op.Dated
  folded : ∀ op ∈ s.folded, op.Dated

theorem Sys.DatedInv.init {now : Int} (epoch : 0 ≤ now) : (Sys.init now).DatedInv where
  clock := epoch
  request _ _ held := nomatch held
  stampText _ _ held := nomatch held
  unfolded _ _ mem := nomatch mem
  folded := List.forall_mem_nil _

/-- A call's request stores only an expiry it has computed from the clock. -/
theorem Call.append_expiresAt {env : Env} {s : Sys} {p : Nat} {call : Call} {req : Append}
    (appended : call.append env s.proj s.clock = some req)
    (years : FourDigitYears s (.invoke p call)) :
    ∀ expiresAt ∈ req.payload.expiresAt, BeforeYear10000 expiresAt := by
  intro text stored
  cases call with
  | claimIssue id audience ttlSec random authorized =>
      obtain ⟨row, -, appended⟩ := Option.bind_eq_some_iff.mp appended
      obtain ⟨expiresAt, rendered, appended⟩ := Option.bind_eq_some_iff.mp appended
      split at appended
      · cases appended
        cases stored
        exact ⟨_, years, rendered⟩
      · cases appended
  | renewClaim id expectedToken ttlSec =>
      obtain ⟨row, -, appended⟩ := Option.bind_eq_some_iff.mp appended
      split at appended
      · cases appended
      · obtain ⟨expiresAt, rendered, rfl⟩ := Option.map_eq_some_iff.mp appended
        cases stored
        exact ⟨_, years, rendered⟩
  | createIssue title body =>
      cases appended
      cases stored
  | addEdge fromId toId type =>
      simp only [Call.append] at appended
      split at appended
      · cases appended
      · obtain ⟨row, -, appended⟩ := Option.bind_eq_some_iff.mp appended
        obtain ⟨row', -, rfl⟩ := Option.map_eq_some_iff.mp appended
        cases stored
  | _ =>
      obtain ⟨row, -, rfl⟩ := Option.map_eq_some_iff.mp appended
      cases stored

/-- A request in a process's hands was there before, comes from a call, or is
the release of a fenced claim. -/
theorem Sys.Step.request {env : Env} {s t : Sys} {e : Event} (fire : Sys.Step env s e t)
    {q : Nat} {req : Append} (held : req ∈ (t.procs q).request) :
    req ∈ (s.procs q).request ∨
      (∃ call, e = .invoke q call ∧ call.append env s.proj s.clock = some req) ∨
      req.payload.expiresAt = none := by
  cases fire with
  | tick | refused | cursorRead | opsListed | markAdvanced | passFailed => exact .inl held
  | invoked idle appended =>
      rcases mem_update.mp held with ⟨rfl, new⟩ | ⟨-, old⟩
      · cases new
        exact .inr (.inl ⟨_, rfl, appended⟩)
      · exact .inl old
  | stamped before | selected before =>
      rcases mem_update.mp held with ⟨rfl, new⟩ | ⟨-, old⟩
      · exact .inl (by rw [before]; exact new)
      · exact .inl old
  | retried before =>
      rcases mem_update.mp held with ⟨rfl, new⟩ | ⟨-, old⟩
      · exact .inl (by rw [before, afterFailure_request new]; rfl)
      · exact .inl old
  | wasBusy before =>
      rcases mem_update.mp held with ⟨rfl, new⟩ | ⟨-, old⟩
      · rcases before with before | ⟨_, before⟩ <;>
          exact .inl (by rw [before, afterFailure_request new]; rfl)
      · exact .inl old
  | claimFenced =>
      rcases mem_update.mp held with ⟨rfl, new⟩ | ⟨-, old⟩
      · cases new
        exact .inr (.inr rfl)
      · exact .inl old
  | folded =>
      rcases mem_update.mp held with ⟨rfl, new⟩ | ⟨-, old⟩
      · rename_i token _
        cases token <;> cases new
      · exact .inl old
  | _ =>
      rcases mem_update.mp held with ⟨rfl, new⟩ | ⟨-, old⟩
      · cases new
      · exact .inl old

/-- A timestamp is read from the clock once and kept. -/
theorem Sys.Step.stampText {env : Env} {s t : Sys} {e : Event} (fire : Sys.Step env s e t)
    {q : Nat} {ts : String} (held : ts ∈ (t.procs q).stampText) :
    ts ∈ (s.procs q).stampText ∨ e = .stamp q ∧ toISOString s.clock = some ts := by
  cases fire with
  | tick | refused | cursorRead | opsListed | markAdvanced | passFailed => exact .inl held
  | stamped before rendered =>
      rcases mem_update.mp held with ⟨rfl, new⟩ | ⟨-, old⟩
      · cases new
        exact .inr ⟨rfl, rendered⟩
      · exact .inl old
  | selected before =>
      rcases mem_update.mp held with ⟨rfl, new⟩ | ⟨-, old⟩
      · exact .inl (by rw [before]; exact new)
      · exact .inl old
  | retried before =>
      rcases mem_update.mp held with ⟨rfl, new⟩ | ⟨-, old⟩
      · exact .inl (by rw [before, afterFailure_stampText new]; rfl)
      · exact .inl old
  | wasBusy before =>
      rcases mem_update.mp held with ⟨rfl, new⟩ | ⟨-, old⟩
      · rcases before with before | ⟨_, before⟩ <;>
          exact .inl (by rw [before, afterFailure_stampText new]; rfl)
      · exact .inl old
  | folded =>
      rcases mem_update.mp held with ⟨rfl, new⟩ | ⟨-, old⟩
      · rename_i token _
        cases token <;> cases new
      · exact .inl old
  | _ =>
      rcases mem_update.mp held with ⟨rfl, new⟩ | ⟨-, old⟩
      · cases new
      · exact .inl old

/-- An op in a process's hands was there before, or carries the payload and the
timestamp the process held. -/
theorem Sys.Step.unfolded {env : Env} {s t : Sys} {e : Event} (fire : Sys.Step env s e t)
    {q : Nat} {op : WgOp} (held : op ∈ (t.procs q).unfolded) :
    op ∈ (s.procs q).unfolded ∨ op.ts ∈ (s.procs q).stampText ∧
      ∃ req ∈ (s.procs q).request, op.payload = req.payload := by
  cases fire with
  | tick | refused | cursorRead | opsListed | markAdvanced | passFailed => exact .inl held
  | inserted before =>
      rcases mem_update.mp held with ⟨rfl, new⟩ | ⟨-, old⟩
      · cases new
        refine .inr ⟨by rw [before]; rfl, _, by rw [before]; rfl, rfl⟩
      · exact .inl old
  | fileWritten before =>
      rcases mem_update.mp held with ⟨rfl, new⟩ | ⟨-, old⟩
      · exact .inl (by rw [before]; exact new)
      · exact .inl old
  | folded | retried | wasBusy =>
      rcases mem_update.mp held with ⟨rfl, new⟩ | ⟨-, old⟩
      · simp only [afterFold_unfolded, afterFailure_unfolded, Option.mem_def, reduceCtorEq] at new
      · exact .inl old
  | _ =>
      rcases mem_update.mp held with ⟨rfl, new⟩ | ⟨-, old⟩
      · cases new
      · exact .inl old

theorem Sys.Step.mem_folded {env : Env} {s t : Sys} {e : Event} (fire : Sys.Step env s e t)
    {op : WgOp} (member : op ∈ t.folded) :
    op ∈ s.folded ∨ ∃ p, op ∈ (s.procs p).unfolded := by
  cases fire with
  | @folded p _ _ folding =>
      rcases List.mem_append.mp member with old | new
      · exact .inl old
      · rw [List.mem_singleton.mp new]
        exact .inr ⟨p, by rw [folding]; rfl⟩
  | _ => exact .inl member

theorem Sys.Step.datedInv {env : Env} {s t : Sys} {e : Event} (fire : Sys.Step env s e t)
    (years : FourDigitYears s e) (inv : s.DatedInv) : t.DatedInv where
  clock := by
    have clock := inv.clock
    cases fire with
    | tick ms =>
        show 0 ≤ s.clock + ms
        omega
    | _ => exact clock
  request := by
    intro p req held
    rcases fire.request held with old | ⟨call, rfl, appended⟩ | bare
    · exact inv.request p req old
    · exact Call.append_expiresAt appended years
    · rw [bare]
      nofun
  stampText := by
    intro p ts held
    rcases fire.stampText held with old | ⟨rfl, rendered⟩
    · exact inv.stampText p ts old
    · exact ⟨s.clock, inv.clock, years, rendered⟩
  unfolded := by
    intro p op held
    rcases fire.unfolded held with old | ⟨stamped, req, requested, payload⟩
    · exact inv.unfolded p op old
    · exact ⟨inv.stampText p op.ts stamped, payload ▸ inv.request p req requested⟩
  folded := by
    intro op member
    rcases fire.mem_folded member with old | ⟨p, held⟩
    · exact inv.folded op old
    · exact inv.unfolded p op held

/-! ## Exclusive claims -/

/-- A fenced release or renewal does nothing to a claim under another token. -/
theorem applyOp_of_other_holder {env : Env} {call : Call} {id token : String}
    (fenced : (∃ ttlSec, call = .renewClaim id token ttlSec) ∨
      call = .releaseClaim id (some token) ∧ token ≠ "")
    {proj : Projection} {now : Int} {req : Append} (appended : call.append env proj now = some req)
    {live : Projection} {holder : String} (held : live.claimTokenAt id = some holder)
    (other : holder ≠ token) (p : Nat) (ts : String) (lamport : Nat) :
    applyOp env.digest live (req.candidate env p ts lamport) = live := by
  obtain ⟨row, present, claimed⟩ := Option.bind_eq_some_iff.mp held
  rcases fenced with ⟨ttlSec, rfl⟩ | ⟨rfl, nonempty⟩
  · obtain ⟨row', -, appended⟩ := Option.bind_eq_some_iff.mp appended
    split at appended
    · cases appended
    · obtain ⟨expiresAt, -, rfl⟩ := Option.map_eq_some_iff.mp appended
      refine Projection.updateIssueWhere_of_refused present (decide_eq_false fun ⟨_, named⟩ => ?_)
      exact other (Option.some.inj (claimed.symm.trans named))
  · obtain ⟨row', -, rfl⟩ := Option.map_eq_some_iff.mp appended
    refine Projection.updateIssueWhere_of_refused present (decide_eq_false fun holds => ?_)
    rcases holds with empty | named
    · exact nonempty empty
    · exact other (Option.some.inj (claimed.symm.trans named))

/-- Two calls that both won an issue acquired it one after the other, and the
earlier claim ended in between; a release or renewal that names a token changes
no claim under another one. -/
theorem claims_exclusive {env : Env} {now : Int} {s : Sys} (epoch : 0 ≤ now)
    (run : Steps (step env) FourDigitYears (Sys.init now) s) :
    (∀ (a b : Nat) (id token token' : String), a ≠ b →
      s.won[a]? = some (id, token) → s.won[b]? = some (id, token') →
        (∃ i, AcquiredAt env.digest s.folded id token i) ∧
        (∃ j, AcquiredAt env.digest s.folded id token' j) ∧
        ∀ i j, AcquiredAt env.digest s.folded id token i →
          AcquiredAt env.digest s.folded id token' j →
            i < j ∧ EndedBetween env.digest s.folded id token i j ∨
            j < i ∧ EndedBetween env.digest s.folded id token' j i) ∧
    (∀ call id token, ((∃ ttlSec, call = Call.renewClaim id token ttlSec) ∨
        call = .releaseClaim id (some token) ∧ token ≠ "") →
      ∀ proj now req, call.append env proj now = some req →
        ∀ live holder, Projection.claimTokenAt live id = some holder → holder ≠ token →
          ∀ p ts lamport, applyOp env.digest live (req.candidate env p ts lamport) = live) := by
  refine ⟨?_, fun call id token fenced proj now req appended live holder held other p ts lamport =>
    applyOp_of_other_holder fenced appended held other p ts lamport⟩
  have dated : s.DatedInv :=
    run.invariant (Sys.DatedInv.init epoch) fun _ _ _ inv years fire =>
      (Sys.Step.of_step fire).datedInv years inv
  have tokens : s.TokenInv env :=
    run.invariant_of (fun _ run => Sys.logged_of_run run) (Sys.TokenInv.init env now)
      fun _ _ _ logged _ inv _ fire => (Sys.Step.of_step fire).tokenInv logged inv
  intro a b id token token' different first second
  refine ⟨tokens.acquired _ (List.mem_of_getElem? first),
    tokens.acquired _ (List.mem_of_getElem? second), fun i j at_i at_j => ?_⟩
  -- a token is won once
  have distinct : token ≠ token' := by
    rintro rfl
    have inside : a < (s.won.map Prod.snd).length := by
      rw [List.length_map]
      exact (List.getElem?_eq_some_iff.mp first).1
    refine different ((List.getElem?_inj inside tokens.wonOnce).mp ?_)
    rw [List.getElem?_map, List.getElem?_map, first, second]
  rcases lt_trichotomy i j with before | same | after
  · exact .inl ⟨before, at_i.endedBetween dated.folded at_j distinct before⟩
  · obtain ⟨op, _, _, _, at_op, _, payload, _⟩ := at_i
    obtain ⟨op', _, _, _, at_op', _, payload', _⟩ := at_j
    rw [same] at at_op
    cases at_op.symm.trans at_op'
    cases payload.symm.trans payload'
    exact absurd rfl distinct
  · exact .inr ⟨after, at_j.endedBetween dated.folded at_i distinct.symm after⟩

/-- The token drawn by a claim of the first issue. -/
def tokenAt (now : Int) (random : String) : String :=
  claimTokenOf deviceEnv.digest firstIssue now random

def claimFirst (ttlSec : Int) (random : String) : Call :=
  .claimIssue firstIssue ⟨.codex, none, none⟩ ttlSec random true

/-- A claim that expires and is taken over. -/
def takeoverEvents : List Event :=
  callEvents 0 (.createIssue "t" "") ++ callEvents 0 (claimFirst 1 "x") ++
    [.readBack 0 true, .tick 2000] ++ callEvents 1 (claimFirst 1 "y") ++ [.readBack 1 true]

theorem claims_exclusive_takeover :
    ∃ s, runWhile (step deviceEnv) fourDigitYears (Sys.init 0) takeoverEvents = some s ∧
      s.won = [(firstIssue, tokenAt 0 "x"), (firstIssue, tokenAt 2000 "y")] ∧
      (∃ i, AcquiredAt deviceEnv.digest s.folded firstIssue (tokenAt 0 "x") i) ∧
      applyOp deviceEnv.digest s.proj
        (Append.candidate deviceEnv 0
          { issueIdArg := .fixed firstIssue, payload := .claimReleased (some (tokenAt 0 "x")) }
          "" 9) = s.proj := by
  have replay : (runWhile (step deviceEnv) fourDigitYears (Sys.init 0) takeoverEvents).any
      (fun s => s.won = [(firstIssue, tokenAt 0 "x"), (firstIssue, tokenAt 2000 "y")] ∧
        s.proj.claimTokenAt firstIssue = some (tokenAt 2000 "y") ∧
        Call.append deviceEnv s.proj 0 (.releaseClaim firstIssue (some (tokenAt 0 "x"))) =
          some { issueIdArg := .fixed firstIssue, payload := .claimReleased (some (tokenAt 0 "x")) })
      := by
    decide +kernel
  obtain ⟨s, reached, facts⟩ := (Option.any_eq_true _ _).mp replay
  obtain ⟨won, held, appended⟩ := of_decide_eq_true facts
  obtain ⟨exclusive, fenced⟩ := claims_exclusive le_rfl
    (Steps.of_runWhile (fun _ _ passed => FourDigitYears.of_test passed) reached)
  refine ⟨s, reached, won, ?_, ?_⟩
  · exact (exclusive 0 1 firstIssue _ _ (by decide) (by rw [won]; rfl) (by rw [won]; rfl)).1
  · exact fenced _ _ _ (.inr ⟨rfl, by decide +kernel⟩) _ _ _ appended _ _ held
      (by decide +kernel) 0 "" 9

/-- The second claim's op is stamped at 10 s and delayed; the first claim
(expiring at 20 s) is taken over at 25 s by a third, which is released; then
the delayed op finds the issue free. -/
def slowClaimEvents : List Event :=
  callEvents 0 (.createIssue "t" "") ++ callEvents 0 (claimFirst 20 "x") ++
    [.readBack 0 true, .tick 10000, .invoke 1 (claimFirst 20 "y"), .stamp 1, .tick 15000] ++
    callEvents 2 (claimFirst 20 "z") ++ [.readBack 2 true] ++
    callEvents 2 (.releaseClaim firstIssue (some (tokenAt 25000 "z"))) ++
    [.selectMax 1, .insertOp 1, .writeOpFile 1, .foldOp 1, .readBack 1 true]

/-- `AcquiredAt` as a test. -/
def acquiresAt (digest : Digest) (ops : List WgOp) (id token : String) (i : Nat) : Bool :=
  match ops[i]? with
  | none => false
  | some op =>
      match op.payload, (projAfter digest (ops.take i)).issues id with
      | .claimAcquired token' _ _, some row =>
          op.issueId = id ∧ token' = token ∧ row.claimable op.ts
      | _, _ => false

theorem AcquiredAt.of_test {ops : List WgOp} {id token : String} {i : Nat}
    (passed : acquiresAt digest ops id token i = true) : AcquiredAt digest ops id token i := by
  unfold acquiresAt at passed
  split at passed
  · cases passed
  · rename_i op at_i
    split at passed
    · rename_i token' audience expiresAt row payload present
      obtain ⟨issue, rfl, claimable⟩ := of_decide_eq_true passed
      exact ⟨op, row, audience, expiresAt, at_i, issue, payload, present, claimable⟩
    · cases passed

theorem slowClaim_wins :
    ¬ ∀ (env : Env) (now : Int) (s : Sys), 0 ≤ now →
      Steps (step env) FourDigitYears (Sys.init now) s →
      ∀ (id token token' : String) (i j : Nat) (op : WgOp),
        (id, token) ∈ s.won → (id, token') ∈ s.won → token ≠ token' →
        AcquiredAt env.digest s.folded id token i → AcquiredAt env.digest s.folded id token' j →
        i < j → s.folded[j]? = some op →
        (∃ release ∈ s.folded, release.payload.releases token) ∨
        ∃ n ≤ j, ∃ row ∈ (projAfter env.digest (s.folded.take n)).issues id,
          row.claimToken = some token ∧ ∃ expiresAt ∈ row.claimExpiresAt, expiresAt ≤ op.ts := by
  intro stated
  have replay : (runWhile (step deviceEnv) fourDigitYears (Sys.init 0) slowClaimEvents).any
      (fun s => (firstIssue, tokenAt 0 "x") ∈ s.won ∧ (firstIssue, tokenAt 10000 "y") ∈ s.won ∧
        acquiresAt deviceEnv.digest s.folded firstIssue (tokenAt 0 "x") 1 ∧
        acquiresAt deviceEnv.digest s.folded firstIssue (tokenAt 10000 "y") 4 ∧
        (∀ op ∈ s.folded[4]?, ∀ n < 5,
          ∀ row ∈ (projAfter deviceEnv.digest (s.folded.take n)).issues firstIssue,
            row.claimToken = some (tokenAt 0 "x") →
              ∀ expiresAt ∈ row.claimExpiresAt, ¬ expiresAt ≤ op.ts) ∧
        ∀ op ∈ s.folded, ¬ op.payload.releases (tokenAt 0 "x")) := by
    decide +kernel
  obtain ⟨s, reached, facts⟩ := (Option.any_eq_true _ _).mp replay
  obtain ⟨wonX, wonY, atX, atY, unexpired, unreleased⟩ := of_decide_eq_true facts
  obtain ⟨op, _, _, _, at_j, _⟩ := AcquiredAt.of_test atY
  rcases stated deviceEnv 0 s le_rfl
      (Steps.of_runWhile (fun _ _ passed => FourDigitYears.of_test passed) reached)
      _ _ _ 1 4 op wonX wonY (by decide +kernel) (.of_test atX) (.of_test atY) (by decide) at_j with
    ⟨release, member, names⟩ | ⟨n, within, row, present, claimed, expiresAt, stored, le⟩
  · exact unreleased release member names
  · exact unexpired op at_j n (by omega) row present claimed expiresAt stored le

end Opensquid.WorkGraph
