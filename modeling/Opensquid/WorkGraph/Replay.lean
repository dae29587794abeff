import Opensquid.Lib.FoldOrder
import Opensquid.WorkGraph.Log

/-!
# Replay against the live projection

The live projection is the fold of the ops in the order their `applyOp` ran;
`rebuildWorkGraph` folds the same ops in `(lamport, id)` order. The lamport is
allocated, the file written and the op folded in separate statements, so the two
orders differ as soon as two processes overlap, and with them the results
(`reversedClaims_rebuild_ne`).

`WgOp.Conflicts` says which two ops must not be folded out of order, and
`rebuildWorkGraph_eq` that a run which folds no such pair out of order can be
rebuilt.
-/

namespace Opensquid.WorkGraph

open Opensquid.Lib

/-! ## Ops that may be folded out of order -/

/-- The issue columns that are last-writer-wins by lamport. -/
inductive LwwField
  | title
  | body
  | status
  | archiveReason
  deriving DecidableEq

/-- The columns a last-writer-wins op writes; `none` for every other op. -/
def WgPayload.lwwFields : WgPayload → Option (List LwwField)
  | .issueSet title body status =>
      some <| (title.map fun _ => LwwField.title).toList ++
        (body.map fun _ => LwwField.body).toList ++ (status.map fun _ => LwwField.status).toList
  | .issueArchived _ => some [.status, .archiveReason]
  | .issueUnarchived => some [.status, .archiveReason]
  | _ => none

/-- `later` overwrites every column `earlier` writes, under a greater lamport. -/
def WgOp.Supersedes (later earlier : WgOp) : Prop :=
  earlier.lamport < later.lamport ∧
    ∃ fields ∈ later.payload.lwwFields, ∃ fields' ∈ earlier.payload.lwwFields, fields' ⊆ fields

instance (later earlier : WgOp) : Decidable (later.Supersedes earlier) :=
  inferInstanceAs (Decidable (_ ∧ ∃ fields ∈ later.payload.lwwFields,
    ∃ fields' ∈ earlier.payload.lwwFields, fields' ⊆ fields))

/-- Folding `earlier` after `later` may differ from folding it before: both write
one issue row and `later` does not supersede `earlier`, or both write one edge
row and are not the same op but for their stamps. -/
def WgOp.Conflicts (digest : Digest) (later earlier : WgOp) : Prop :=
  (later.edgeTarget digest = none ∧ earlier.edgeTarget digest = none ∧
    later.issueId = earlier.issueId ∧ ¬ later.Supersedes earlier) ∨
  (later.edgeTarget digest ≠ none ∧ later.edgeTarget digest = earlier.edgeTarget digest ∧
    ¬ (later.payload = earlier.payload ∧ later.project = earlier.project))

instance (digest : Digest) (later earlier : WgOp) : Decidable (later.Conflicts digest earlier) :=
  inferInstanceAs (Decidable ((_ ∧ _ ∧ _ ∧ ¬ later.Supersedes earlier) ∨ (_ ∧ _ ∧ ¬ (_ ∧ _))))

/-- The columns a last-writer-wins op writes, apart from its stamps. -/
def WgPayload.overwrite (row : IssueRow) : WgPayload → IssueRow
  | .issueSet title body status =>
      { row with
        title := title.getD row.title, body := body.getD row.body,
        status := status.getD row.status }
  | .issueArchived reason =>
      { row with status := .archived, archiveReason := some (reason.getD "") }
  | .issueUnarchived => { row with status := .open, archiveReason := none }
  | _ => row

/-- The stamps of a last-writer-wins op. -/
def WgOp.stampRow (op : WgOp) (row : IssueRow) : IssueRow :=
  { row with updatedAt := op.ts, lww := op.lamport }

variable {digest : Digest}

/-- A last-writer-wins op overwrites its columns unless the row has a later stamp. -/
theorem WgOp.issueStep_of_lwwFields {op : WgOp} {fields : List LwwField}
    (lww : op.payload.lwwFields = some fields) (row : Option IssueRow) :
    op.issueStep digest row = row.map fun row =>
      if row.lww ≤ op.lamport then op.stampRow (op.payload.overwrite row) else row := by
  cases payload : op.payload <;> simp only [payload, WgPayload.lwwFields, reduceCtorEq] at lww <;>
    simp only [WgOp.issueStep, applyOp, payload, Projection.updateIssueWhere,
      Function.update_self, decide_eq_true_eq, WgOp.stampRow, WgPayload.overwrite]

/-- A patch column that is covered by a later patch leaves no trace. -/
theorem getD_getD_of_covered {α : Type} {later earlier : Option α} {old : α}
    (covered : ∀ x, earlier = some x → ∃ y, later = some y) :
    later.getD (earlier.getD old) = later.getD old := by
  cases later with
  | some new => rfl
  | none =>
      cases earlier with
      | none => rfl
      | some old' =>
          obtain ⟨y, absent⟩ := covered old' rfl
          cases absent

/-- Under the covering write, a covered one leaves nothing behind. -/
theorem WgOp.Supersedes.stampRow_overwrite {later earlier : WgOp}
    (supersedes : later.Supersedes earlier) (row : IssueRow) :
    later.stampRow (later.payload.overwrite (earlier.stampRow (earlier.payload.overwrite row))) =
      later.stampRow (later.payload.overwrite row) := by
  obtain ⟨-, fields, lww, fields', lww', covered⟩ := supersedes
  rw [Option.mem_def] at lww lww'
  have title := @covered .title
  have body := @covered .body
  have status := @covered .status
  have reason := @covered .archiveReason
  cases payload : later.payload <;> simp only [payload, WgPayload.lwwFields, reduceCtorEq] at lww <;>
    cases payload' : earlier.payload <;>
    simp only [payload', WgPayload.lwwFields, reduceCtorEq] at lww' <;>
    cases lww <;> cases lww' <;>
    simp at title body status reason <;>
    simp only [WgOp.stampRow, WgPayload.overwrite]
  case issueSet.issueSet =>
    rw [getD_getD_of_covered title, getD_getD_of_covered body, getD_getD_of_covered status]
  case issueArchived.issueSet | issueUnarchived.issueSet =>
    rw [Option.eq_none_iff_forall_ne_some.mpr title, Option.eq_none_iff_forall_ne_some.mpr body]
    rfl

/-- A superseded op may be folded late: its successor's stamp turns it away. -/
theorem WgOp.Supersedes.issueStep_comm {later earlier : WgOp}
    (supersedes : later.Supersedes earlier) (row : Option IssueRow) :
    earlier.issueStep digest (later.issueStep digest row) =
      later.issueStep digest (earlier.issueStep digest row) := by
  have overwritten := supersedes.stampRow_overwrite
  obtain ⟨before, fields, lww, fields', lww', -⟩ := supersedes
  simp only [issueStep_of_lwwFields lww, issueStep_of_lwwFields lww', Option.map_map]
  cases row with
  | none => rfl
  | some row =>
      simp only [Option.map_some, Function.comp_apply, Option.some.injEq]
      by_cases open_later : row.lww ≤ later.lamport
      · by_cases open_earlier : row.lww ≤ earlier.lamport
        · have refused : ¬ later.lamport ≤ earlier.lamport := by omega
          have accepted : earlier.lamport ≤ later.lamport := by omega
          simp only [open_later, open_earlier, ↓reduceIte, stampRow, refused, accepted]
          exact (overwritten row).symm
        · have refused : ¬ later.lamport ≤ earlier.lamport := by omega
          simp only [open_later, open_earlier, ↓reduceIte, stampRow, refused]
      · have closed_earlier : ¬ row.lww ≤ earlier.lamport := by omega
        simp only [open_later, closed_earlier, ↓reduceIte]

/-- Ops that do not conflict may be folded in either order. -/
theorem WgOp.opsCommute_of_not_conflicts {later earlier : WgOp}
    (free : ¬ later.Conflicts digest earlier) :
    OpsCommute (applyOp digest) later earlier := by
  intro proj
  obtain ⟨freeIssue, freeEdge⟩ := not_or.mp free
  simp only [not_and, not_not] at freeIssue
  rw [not_and, not_and, not_not] at freeEdge
  have issues : (applyOp digest (applyOp digest proj later) earlier).issues =
      (applyOp digest (applyOp digest proj earlier) later).issues := by
    by_cases same : later.issueId = earlier.issueId
    · have comm (row : Option IssueRow) : earlier.issueStep digest (later.issueStep digest row) =
          later.issueStep digest (earlier.issueStep digest row) := by
        cases target : later.edgeTarget digest with
        | some key => simp only [issueStep_of_edgeTarget target]
        | none =>
            cases target' : earlier.edgeTarget digest with
            | some key => simp only [issueStep_of_edgeTarget target']
            | none => exact (freeIssue target target' same).issueStep_comm row
      simp only [applyOp_issues, same, Function.update_self, Function.update_idem, comm]
    · simp only [applyOp_issues, Function.update_of_ne same, Function.update_of_ne (Ne.symm same)]
      exact Function.update_comm same _ _ _
  have edges : (applyOp digest (applyOp digest proj later) earlier).edges =
      (applyOp digest (applyOp digest proj earlier) later).edges := by
    simp only [applyOp_edges]
    cases target : later.edgeTarget digest with
    | none => rfl
    | some key =>
        cases target' : earlier.edgeTarget digest with
        | none => rfl
        | some key' =>
            by_cases same : key = key'
            · subst same
              have agree := freeEdge (by simp only [target, ne_eq, reduceCtorEq, not_false_eq_true])
                (target.trans target'.symm)
              -- the two ops are one function of the edge row
              have step_eq : later.edgeStep digest = earlier.edgeStep digest := by
                funext row
                simp only [edgeStep, agree.1, agree.2]
              simp only [step_eq, Function.update_self, Function.update_idem]
            · simp only [Function.update_of_ne same, Function.update_of_ne (Ne.symm same)]
              exact Function.update_comm same _ _ _
  exact Projection.ext issues edges

/-! ## Rebuilding -/

/-- The op the event is about to fold. -/
def Sys.aboutToFold (s : Sys) : Event → Option WgOp
  | .foldOp p =>
      match s.procs p with
      | .folding op _ => some op
      | _ => none
  | _ => none

/-- The event folds no op behind a conflicting one that replay puts after it. -/
def FoldsInOrder (env : Env) (s : Sys) (e : Event) : Prop :=
  ∀ op ∈ s.aboutToFold e, ∀ folded ∈ s.folded,
    ¬ folded.replayLe op → ¬ folded.Conflicts env.digest op

instance (env : Env) (s : Sys) (e : Event) : Decidable (FoldsInOrder env s e) :=
  inferInstanceAs (Decidable (∀ op ∈ s.aboutToFold e, ∀ folded ∈ s.folded,
    ¬ folded.replayLe op → ¬ folded.Conflicts env.digest op))

instance : Std.Total WgOp.replayLe where
  total a b := by
    rcases lt_trichotomy a.lamport b.lamport with below | same | above
    · exact .inl (.inl below)
    · rcases le_total a.id b.id with le | ge
      · exact .inl (.inr ⟨same, le⟩)
      · exact .inr (.inr ⟨same.symm, ge⟩)
    · exact .inr (.inl above)

instance : IsTrans WgOp WgOp.replayLe where
  trans a b c ab bc := by
    rcases ab with ab | ⟨ab, ab'⟩ <;> rcases bc with bc | ⟨bc, bc'⟩
    · exact .inl (ab.trans bc)
    · exact .inl (bc ▸ ab)
    · exact .inl (ab ▸ bc)
    · exact .inr ⟨ab.trans bc, ab'.trans bc'⟩

/-- The folded ops are in replay order up to commuting ones. -/
def Sys.FoldedInOrder (env : Env) (s : Sys) : Prop :=
  OrderedUpToCommuting (applyOp env.digest) WgOp.replayLe s.folded

theorem Sys.Step.foldedInOrder {env : Env} {s t : Sys} {e : Event} (fire : Sys.Step env s e t)
    (inOrder : FoldsInOrder env s e) (ordered : s.FoldedInOrder env) : t.FoldedInOrder env := by
  cases fire with
  | @folded p op token folding =>
      have about : op ∈ s.aboutToFold (.foldOp p) := by
        simp only [Sys.aboutToFold, folding, Option.mem_def]
      refine List.pairwise_append.mpr ⟨ordered, List.pairwise_singleton _ op, ?_⟩
      intro earlier member last same outOfOrder
      rw [List.mem_singleton] at same
      subst same
      exact WgOp.opsCommute_of_not_conflicts (inOrder last about earlier member outOfOrder)
  | _ => exact ordered

/-- Defaults change no op a store has logged. -/
theorem WgOp.withDefaults_of_stamped {op : WgOp}
    (stamped : op.project = LOCAL_PROJECT ∧ op.actorId ≠ "") : op.withDefaults = op := by
  have named : op.project ≠ "" := by
    rw [stamped.1]
    decide
  simp only [WgOp.withDefaults, named, stamped.2, ↓reduceIte]

/-- Once every call has finished, replaying the op files gives the live
projection, provided that no op was folded behind a conflicting one that replay
puts after it. -/
theorem rebuildWorkGraph_eq {env : Env} {now : Int} {s : Sys} (sourced : env.sourceDir = true)
    (run : Steps (step env) (FoldsInOrder env) (Sys.init now) s)
    (finished : ∀ p, s.procs p = .idle) {files : List WgOp} (listing : files.Perm s.opFiles) :
    rebuildWorkGraph env.digest files = s.proj := by
  have logged := Sys.logged_of_run run
  have start : (Sys.init now).FoldedInOrder env := List.Pairwise.nil
  have ordered : s.FoldedInOrder env :=
    run.invariant start fun _ _ _ ordered inOrder fire =>
      (Sys.Step.of_step fire).foldedInOrder inOrder ordered
  -- no process holds an op, so the files and the folded ops are the whole log
  have filed (op : WgOp) : op ∈ s.opFiles ↔ op ∈ s.wgOps := by
    rw [logged.files sourced op]
    exact and_iff_left fun p held => by rw [finished p] at held; cases held
  have folded (op : WgOp) : op ∈ s.folded ↔ op ∈ s.wgOps := by
    rw [logged.folds op]
    exact and_iff_left fun p held => by rw [finished p] at held; cases held
  have perm : s.folded.Perm files :=
    ((List.perm_ext_iff_of_nodup logged.foldsOnce logged.filesOnce).mpr fun op =>
      (folded op).trans (filed op).symm).trans listing.symm
  have defaults : files.map WgOp.withDefaults = files :=
    (List.map_congr_left fun op member =>
      WgOp.withDefaults_of_stamped
        (logged.stamps op ((folded op).mp (perm.mem_iff.mpr member)))).trans (List.map_id files)
  have antisymm : ∀ a ∈ s.folded, ∀ b ∈ s.folded, a.replayLe b → b.replayLe a → a = b := by
    intro a memA b memB ab ba
    refine logged.ids a ((folded a).mp memA) b ((folded b).mp memB) ?_
    rcases ab with ab | ⟨same, ab⟩ <;> rcases ba with ba | ⟨same', ba⟩
    · omega
    · omega
    · omega
    · exact le_antisymm ab ba
  rw [rebuildWorkGraph, defaults, foldl_insertionSort_of_perm perm antisymm ordered, logged.live]

/-! ## Two runs -/

/-- The process whose call an event advances. -/
def Event.proc : Event → Option Nat
  | .invoke p _ | .stamp p | .selectMax p | .insertOp p | .busy p | .writeOpFile p | .foldOp p
  | .readBack p _ => some p
  | _ => none

/-- The other processes' events leave a process where it stands. -/
theorem Sys.Step.procs_eq {env : Env} {s t : Sys} {e : Event} (fire : Sys.Step env s e t) {p : Nat}
    (other : e.proc ≠ some p) : t.procs p = s.procs p := by
  cases fire with
  | tick | refused | cursorRead | opsListed | markAdvanced | passFailed => rfl
  | _ => exact Function.update_of_ne (fun same => other (congrArg some same.symm)) _ _

theorem procs_of_runWhile {env : Env} {ok : Sys → Event → Bool} {s t : Sys} {events : List Event}
    {p : Nat} (others : ∀ e ∈ events, e.proc ≠ some p)
    (reached : runWhile (step env) ok s events = some t) : t.procs p = s.procs p := by
  induction events generalizing s with
  | nil =>
      cases reached
      rfl
  | cons e events ih =>
      rw [runWhile] at reached
      split at reached
      · obtain ⟨u, fire, rest⟩ := Option.bind_eq_some_iff.mp reached
        rw [ih (fun e mem => others e (List.mem_cons_of_mem _ mem)) rest,
          (Sys.Step.of_step fire).procs_eq (others e List.mem_cons_self)]
      · cases reached

/-- All calls have finished once those of the processes that the events name have. -/
theorem finished_of_runWhile {env : Env} {ok : Sys → Event → Bool} {now : Int} {t : Sys}
    {events : List Event} {n : Nat} (named : ∀ e ∈ events, ∀ p ∈ e.proc, p < n)
    (reached : runWhile (step env) ok (Sys.init now) events = some t)
    (finished : ∀ p < n, t.procs p = .idle) (p : Nat) : t.procs p = .idle := by
  by_cases named' : p < n
  · exact finished p named'
  · exact procs_of_runWhile (fun e mem same => named' (named e mem p same)) reached

/-- Two title changes, the earlier one folded behind the later one. -/
def overtakenEvents : List Event :=
  callEvents 0 (.createIssue "t" "") ++
    [.invoke 0 (.updateIssue firstIssue (some "a") none none), .stamp 0, .selectMax 0, .insertOp 0] ++
    callEvents 1 (.updateIssue firstIssue (some "b") none none) ++ [.writeOpFile 0, .foldOp 0]

theorem rebuildWorkGraph_eq_overtaken :
    ∃ s, runWhile (step deviceEnv) (fun s e => FoldsInOrder deviceEnv s e) (Sys.init 0)
        overtakenEvents = some s ∧
      rebuildWorkGraph deviceEnv.digest s.opFiles.reverse = s.proj := by
  have replay : (runWhile (step deviceEnv) (fun s e => FoldsInOrder deviceEnv s e) (Sys.init 0)
      overtakenEvents).any (fun s => ∀ p < 2, s.procs p = .idle) := by
    decide +kernel
  obtain ⟨s, reached, idle⟩ := (Option.any_eq_true _ _).mp replay
  have finished := finished_of_runWhile (by decide) reached (of_decide_eq_true idle)
  exact ⟨s, reached, rebuildWorkGraph_eq rfl
    (Steps.of_runWhile (fun _ _ inOrder => of_decide_eq_true inOrder) reached) finished
    (List.reverse_perm _)⟩

/-- Two claims, the later one folded first: it holds the claim in the live
projection, the earlier one in the replayed projection. -/
def reversedClaimEvents : List Event :=
  callEvents 0 (.createIssue "t" "") ++
    [.invoke 0 (.claimIssue firstIssue ⟨.codex, none, none⟩ 60 "x" true), .stamp 0, .selectMax 0,
      .insertOp 0, .writeOpFile 0] ++
    callEvents 1 (.claimIssue firstIssue ⟨.codex, none, none⟩ 60 "y" true) ++
    [.foldOp 0, .readBack 0 true, .readBack 1 true]

theorem reversedClaims_rebuild_ne :
    ¬ ∀ (env : Env) (now : Int) (s : Sys), env.sourceDir = true →
      Steps (step env) AnyStep (Sys.init now) s → (∀ p, s.procs p = .idle) →
        rebuildWorkGraph env.digest s.opFiles = s.proj := by
  intro equal
  have replay : (runWhile (step deviceEnv) (fun _ _ => true) (Sys.init 0)
      reversedClaimEvents).any (fun s => (∀ p < 2, s.procs p = .idle) ∧
        (rebuildWorkGraph deviceEnv.digest s.opFiles).claimTokenAt firstIssue ≠
          s.proj.claimTokenAt firstIssue) := by
    decide +kernel
  obtain ⟨s, reached, facts⟩ := (Option.any_eq_true _ _).mp replay
  obtain ⟨idle, differ⟩ := of_decide_eq_true facts
  have finished := finished_of_runWhile (by decide) reached idle
  have same := equal deviceEnv 0 s rfl (Steps.of_runWhile (fun _ _ _ => trivial) reached) finished
  exact differ (congrArg (Projection.claimTokenAt · firstIssue) same)

end Opensquid.WorkGraph
