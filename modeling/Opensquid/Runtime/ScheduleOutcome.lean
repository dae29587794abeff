import Mathlib.Data.List.Perm.Subperm
import Opensquid.Lib.Steps
import Opensquid.Lib.Table

/-!
# Outcomes of a schedule

Every fire of a schedule is captured in a log, with the signal of the user once there is one. A
verdict counts the signals of the last fires, and applying it makes the schedule permanent or
retires it. The status that a verdict holds is the one of the time when it was computed, and the
log holds a fire again when its signal is captured later.

`immune_of_current`: a status is final, and a verdict counts every run at most once, where no
verdict that writes is overtaken by another one and replaced signals are old. `snapshot_current` is
the invariant: the status of a verdict that has not been overtaken is the stored one.
-/

namespace Opensquid.Runtime.Schedule

open Opensquid.Lib

/-! ## Outcomes and verdicts -/

inductive UserSignal
  | redo
  | approve
  | manualOverride
  deriving DecidableEq, Repr

structure ScheduleOutcome where
  scheduleId : String
  runId : String
  fireTime : String
  userSignal : Option UserSignal := none
  deriving DecidableEq, Repr

inductive Status
  | probationary
  | permanent
  | retired
  deriving DecidableEq, Repr

inductive Recommend
  | promote
  | retire
  | keepProbationary
  deriving DecidableEq, Repr

structure SchedulePromotionThreshold where
  windowN : Int
  minApproved : Int
  minRedoRetire : Int
  deriving DecidableEq, Repr

def DEFAULT_SCHEDULE_THRESHOLD : SchedulePromotionThreshold := ⟨5, 4, 3⟩

structure Counts where
  runCount : Nat
  approvedCount : Nat
  redoCount : Nat
  manualOverrideCount : Nat
  deriving DecidableEq, Repr

structure ScheduleVerdict where
  scheduleId : String
  status : Status
  counts : Counts
  recommend : Recommend
  deriving DecidableEq, Repr

/-! ## Evaluation -/

/-- `Array.slice(start)`. -/
def slice {α : Type} (start : Int) (xs : List α) : List α :=
  xs.drop (if start < 0 then xs.length + start else start).toNat

def signaled (outcomes : List ScheduleOutcome) : List ScheduleOutcome :=
  outcomes.filter fun o => o.userSignal.isSome

/-- The signaled fires that are counted. -/
def window (threshold : SchedulePromotionThreshold) (outcomes : List ScheduleOutcome) :
    List ScheduleOutcome :=
  slice (-threshold.windowN) (signaled outcomes)

def tally (runs : List ScheduleOutcome) : Counts where
  runCount := runs.length
  approvedCount := runs.countP fun o => o.userSignal = some .approve
  redoCount := runs.countP fun o => o.userSignal = some .redo
  manualOverrideCount := runs.countP fun o => o.userSignal = some .manualOverride

/-- Harm comes first; a promotion needs the whole window and no objection. -/
def decideRecommend (counts : Counts) (threshold : SchedulePromotionThreshold) : Recommend :=
  if threshold.minRedoRetire ≤ counts.redoCount then .retire
  else if threshold.windowN ≤ counts.runCount ∧ threshold.minApproved ≤ counts.approvedCount ∧
      counts.redoCount = 0 ∧ counts.manualOverrideCount = 0 then .promote
  else .keepProbationary

/-! ## The store -/

/-- The log and the status file of every schedule of a session. -/
structure Store where
  outcomes : String → List ScheduleOutcome := fun _ => []
  statusFile : String → Option Status := fun _ => none

/-- A schedule without a status file is probationary. -/
def Store.readStatus (store : Store) (id : String) : Status :=
  (store.statusFile id).getD .probationary

def Store.writeStatus (store : Store) (id : String) (status : Status) : Store :=
  { store with statusFile := Function.update store.statusFile id (some status) }

/-- Append to the log, none where the outcome is rejected; `parses` is the parser of dates. -/
def Store.captureScheduleOutcome (parses : String → Bool) (store : Store)
    (outcome : ScheduleOutcome) : Option Store :=
  if outcome.scheduleId = "" ∨ outcome.runId = "" ∨ parses outcome.fireTime = false then none
  else some { store with
    outcomes := Function.update store.outcomes outcome.scheduleId
      (store.outcomes outcome.scheduleId ++ [outcome]) }

def Store.evaluateSchedulePromotion (store : Store) (id : String)
    (threshold : SchedulePromotionThreshold) : ScheduleVerdict where
  scheduleId := id
  status := store.readStatus id
  counts := tally (window threshold (store.outcomes id))
  recommend := decideRecommend (tally (window threshold (store.outcomes id))) threshold

structure ApplyVerdictResult where
  applied : Bool
  newStatus : Status
  reason : Option String := none
  deriving DecidableEq, Repr

def Store.applyScheduleVerdict (store : Store) (verdict : ScheduleVerdict) (userOverride : Bool) :
    ApplyVerdictResult × Store :=
  if verdict.recommend = .promote ∧ verdict.status = .probationary then
    (⟨true, .permanent, none⟩, store.writeStatus verdict.scheduleId .permanent)
  else if verdict.recommend = .retire then
    if verdict.status = .permanent ∧ userOverride = false then
      (⟨false, verdict.status,
        some "permanent schedule is eviction-immune (user-action-only retire)"⟩, store)
    else if verdict.status ≠ .retired then
      (⟨true, .retired, none⟩, store.writeStatus verdict.scheduleId .retired)
    else (⟨false, verdict.status, none⟩, store)
  else (⟨false, verdict.status, none⟩, store)

/-! ## Runs -/

/-- A verdict, with the threshold and the log that it was computed from, and the number of the
status writes before. -/
structure Evaluation where
  threshold : SchedulePromotionThreshold
  outcomes : List ScheduleOutcome
  verdict : ScheduleVerdict
  since : Nat

/-- The store, and all verdicts that have been computed: each may be applied at any time. -/
structure World where
  store : Store := {}
  evaluations : List Evaluation := []
  /-- The schedules whose status has been written, in the order of the writes. -/
  written : List String := []

inductive Event
  | capture (outcome : ScheduleOutcome)
  | evaluate (id : String) (threshold : SchedulePromotionThreshold)
  | apply (index : Nat)
  deriving DecidableEq, Repr

/-- One call, without an override by the user. -/
def step (parses : String → Bool) (w : World) : Event → Option World
  | .capture outcome =>
      (w.store.captureScheduleOutcome parses outcome).map fun store => { w with store }
  | .evaluate id threshold => some { w with
      evaluations := w.evaluations ++
        [⟨threshold, w.store.outcomes id, w.store.evaluateSchedulePromotion id threshold,
          w.written.length⟩] }
  | .apply index => w.evaluations[index]?.map fun evaluation =>
      let (result, store) := w.store.applyScheduleVerdict evaluation.verdict false
      { w with
        store
        written := if result.applied then w.written ++ [evaluation.verdict.scheduleId]
          else w.written }

/-- A status that is final is still there. -/
def Immune (s t : Store) : Prop :=
  ∀ id, s.readStatus id ≠ .probationary → t.readStatus id = s.readStatus id

/-- The outcome is the latest signaled one of its run. -/
def IsLatest (outcomes : List ScheduleOutcome) (o : ScheduleOutcome) : Prop :=
  (signaled outcomes).reverse.find? (fun later => later.runId = o.runId) = some o

/-- The fires of the window are those of different runs, each with its latest signal; they are what
is counted, and a promotion rests on as many as the window asks for. -/
structure CountsRuns (e : Evaluation) : Prop where
  once : ((window e.threshold e.outcomes).map ScheduleOutcome.runId).Nodup
  latest : ∀ o ∈ window e.threshold e.outcomes, IsLatest e.outcomes o
  counts : e.verdict.counts = tally (window e.threshold e.outcomes)
  promote : e.verdict.recommend = .promote →
    e.threshold.windowN ≤ (window e.threshold e.outcomes).length

/-- The status that a verdict writes. -/
def ScheduleVerdict.writes (verdict : ScheduleVerdict) : Option Status :=
  match verdict.status, verdict.recommend with
  | .probationary, .promote => some .permanent
  | .probationary, .retire => some .retired
  | .probationary, .keepProbationary | .permanent, _ | .retired, _ => none

/-- No status of its schedule has been written since the verdict was computed. -/
def Standing (w : World) (e : Evaluation) : Prop :=
  e.verdict.scheduleId ∉ w.written.drop e.since

/-- Every signal that a later one of its run replaces has `windowN` signals behind it. -/
def ReplacedAreOld (windowN : Int) : List ScheduleOutcome → Prop
  | [] => True
  | o :: after => ((∃ later ∈ after, later.runId = o.runId) → 0 < windowN ∧ windowN ≤ after.length) ∧
      ReplacedAreOld windowN after

/-- Replaced signals are old where a verdict is computed, and a verdict that writes a status has not
been overtaken by another one. -/
def Current (w : World) : Event → Prop
  | .capture _ => True
  | .evaluate id threshold =>
      ReplacedAreOld threshold.windowN (signaled (w.store.outcomes id))
  | .apply index => ∀ evaluation ∈ w.evaluations[index]?, evaluation.verdict.writes.isSome = true →
      Standing w evaluation

variable {parses : String → Bool} {store s t u : Store} {w w' v : World} {id : String}
  {threshold : SchedulePromotionThreshold} {outcomes : List ScheduleOutcome}
  {verdict : ScheduleVerdict}

/-! ## Applying a verdict -/

theorem readStatus_writeStatus {status : Status} {other : String} :
    (store.writeStatus id status).readStatus other =
      if other = id then status else store.readStatus other := by
  unfold Store.readStatus Store.writeStatus
  dsimp only
  split
  · rename_i same
    rw [same, Function.update_self, Option.getD_some]
  · rename_i different
    rw [Function.update_of_ne different]

/-- Applying a verdict writes the status that it writes, and nothing else. -/
theorem apply_eq : (store.applyScheduleVerdict verdict false).2 =
    (verdict.writes.map fun status => store.writeStatus verdict.scheduleId status).getD store := by
  obtain ⟨schedule, status, counts, recommend⟩ := verdict
  cases status <;> cases recommend <;> rfl

theorem Immune.refl : Immune s s := fun _ _ => rfl

theorem Immune.trans (first : Immune s t) (second : Immune t u) : Immune s u := by
  intro id final
  have kept := first id final
  rw [← kept] at final ⊢
  exact second id final

/-- A verdict leaves every final status there if and only if the schedule that it writes to
is probationary, or has that status. -/
theorem apply_immune_iff : Immune store (store.applyScheduleVerdict verdict false).2 ↔
    ∀ status ∈ verdict.writes, store.readStatus verdict.scheduleId = .probationary ∨
      store.readStatus verdict.scheduleId = status := by
  rw [apply_eq]
  cases written : verdict.writes with
  | none =>
      refine iff_of_true Immune.refl fun status none' => ?_
      cases none'
  | some status =>
      simp only [Option.map_some, Option.getD_some, Option.mem_def, Option.some.injEq,
        forall_eq']
      constructor
      · intro immune
        by_cases open' : store.readStatus verdict.scheduleId = .probationary
        · exact .inl open'
        · have kept := immune verdict.scheduleId open'
          rw [readStatus_writeStatus, if_pos rfl] at kept
          exact .inr kept.symm
      · intro current id final
        rw [readStatus_writeStatus]
        split
        · rename_i same
          rw [same] at final ⊢
          rcases current with open' | already
          · exact absurd open' final
          · exact already.symm
        · rfl

/-! ## Counting -/

/-- A run that is once in a window is there with its latest signal. -/
theorem isLatest_of_mem_window
    (distinct : ((window threshold outcomes).map ScheduleOutcome.runId).Nodup)
    {o : ScheduleOutcome} (counted : o ∈ window threshold outcomes) : IsLatest outcomes o := by
  unfold window slice at distinct counted
  generalize (if -threshold.windowN < 0 then _ else _ : Int).toNat = start at distinct counted
  have split : signaled outcomes = (signaled outcomes).take start ++ (signaled outcomes).drop start :=
    (List.take_append_drop ..).symm
  unfold IsLatest
  rw [split, List.reverse_append, List.find?_append]
  have backwards : ((((signaled outcomes).drop start).reverse).map ScheduleOutcome.runId).Nodup := by
    rw [List.map_reverse]
    exact List.nodup_reverse.mpr distinct
  rw [Table.find_of_mem backwards (List.mem_reverse.mpr counted), Option.some_or]

theorem le_of_promote {counts : Counts} (promote : decideRecommend counts threshold = .promote) :
    threshold.windowN ≤ counts.runCount := by
  unfold decideRecommend at promote
  split at promote
  · cases promote
  · split at promote
    · rename_i enough
      exact enough.1
    · cases promote

/-- No run is twice in a window just if the signals that have been replaced are old. -/
theorem nodup_drop_iff {windowN : Int} (positive : 0 < windowN) {signals : List ScheduleOutcome} :
    ((signals.drop (signals.length - windowN).toNat).map ScheduleOutcome.runId).Nodup ↔
      ReplacedAreOld windowN signals := by
  induction signals with
  | nil =>
      rw [List.drop_nil]
      exact iff_of_true List.nodup_nil trivial
  | cons o after ih =>
      rw [ReplacedAreOld, ← ih, List.length_cons]
      by_cases inside : windowN ≤ after.length
      · -- The first signal is not in the window.
        have start : (((after.length + 1 : Nat) : Int) - windowN).toNat =
            (after.length - windowN).toNat + 1 := by omega
        rw [start, List.drop_succ_cons]
        exact ⟨fun distinct => ⟨fun _ => ⟨positive, inside⟩, distinct⟩, And.right⟩
      · have start : (((after.length + 1 : Nat) : Int) - windowN).toNat = 0 := by omega
        have start' : (after.length - windowN).toNat = 0 := by omega
        rw [start, start', List.drop_zero, List.drop_zero, List.map_cons, List.nodup_cons]
        refine and_congr_left fun _ => ⟨fun fresh replaced => absurd ?_ fresh, fun old again => ?_⟩
        · exact List.mem_map.mpr replaced
        · exact inside (old (List.mem_map.mp again)).2

theorem window_of_pos (positive : 0 < threshold.windowN) : window threshold outcomes =
    (signaled outcomes).drop ((signaled outcomes).length - threshold.windowN).toNat := by
  rw [window, slice, if_pos (by omega)]
  rfl

theorem nodup_of_old {windowN : Int} (none : ¬ 0 < windowN) {signals : List ScheduleOutcome}
    (old : ReplacedAreOld windowN signals) : (signals.map ScheduleOutcome.runId).Nodup := by
  induction signals with
  | nil => exact List.nodup_nil
  | cons o after ih =>
      refine List.nodup_cons.mpr ⟨fun again => ?_, ih old.2⟩
      exact none (old.1 (List.mem_map.mp again)).1

theorem distinct_of_old (old : ReplacedAreOld threshold.windowN (signaled outcomes)) :
    ((window threshold outcomes).map ScheduleOutcome.runId).Nodup := by
  by_cases positive : 0 < threshold.windowN
  · rw [window_of_pos positive]
    exact (nodup_drop_iff positive).mpr old
  · exact (nodup_of_old positive old).sublist ((List.drop_sublist _ _).map _)

theorem countsRuns_of_old {since : Nat}
    (old : ReplacedAreOld threshold.windowN (signaled (store.outcomes id))) :
    CountsRuns ⟨threshold, store.outcomes id, store.evaluateSchedulePromotion id threshold, since⟩ :=
  ⟨distinct_of_old old, fun _ counted => isLatest_of_mem_window (distinct_of_old old) counted, rfl,
    le_of_promote⟩

/-- For a window of some runs the condition is exact. -/
theorem countsRuns_iff (positive : 0 < threshold.windowN) {since : Nat} :
    CountsRuns ⟨threshold, store.outcomes id, store.evaluateSchedulePromotion id threshold, since⟩ ↔
      ReplacedAreOld threshold.windowN (signaled (store.outcomes id)) := by
  refine ⟨fun counts => ?_, countsRuns_of_old⟩
  have once := counts.once
  dsimp only at once
  rw [window_of_pos positive] at once
  exact (nodup_drop_iff positive).mp once

/-! ## Every run -/

/-- A verdict is applied if it writes a status. -/
theorem applied_iff : (store.applyScheduleVerdict verdict false).1.applied = true ↔
    verdict.writes.isSome = true := by
  obtain ⟨schedule, status, counts, recommend⟩ := verdict
  cases status <;> cases recommend <;> exact iff_of_eq rfl

/-- The status of a verdict that has not been overtaken is the stored one. -/
structure Snapshots (w : World) : Prop where
  since : ∀ e ∈ w.evaluations, e.since ≤ w.written.length
  status : ∀ e ∈ w.evaluations, Standing w e →
    e.verdict.status = w.store.readStatus e.verdict.scheduleId

theorem Snapshots.step {e : Event} (known : Snapshots w) (fire : step parses w e = some w') :
    Snapshots w' := by
  cases e with
  | capture outcome =>
      obtain ⟨store, captured, rfl⟩ := Option.map_eq_some_iff.mp fire
      unfold Store.captureScheduleOutcome at captured
      split at captured
      · cases captured
      · cases captured
        exact ⟨known.since, known.status⟩
  | evaluate id threshold =>
      cases fire
      refine ⟨fun x mem => ?_, fun x mem => ?_⟩
      · rcases List.mem_append.mp mem with before | new
        · exact known.since x before
        · cases List.mem_singleton.mp new
          exact Nat.le_refl _
      · rcases List.mem_append.mp mem with before | new
        · exact known.status x before
        · cases List.mem_singleton.mp new
          exact fun _ => rfl
  | apply index =>
      obtain ⟨evaluation, -, rfl⟩ := Option.map_eq_some_iff.mp fire
      dsimp only
      split
      next applied =>
        obtain ⟨status, writes⟩ := Option.isSome_iff_exists.mp (applied_iff.mp applied)
        have stored : (w.store.applyScheduleVerdict evaluation.verdict false).2 =
            w.store.writeStatus evaluation.verdict.scheduleId status := by
          rw [apply_eq, writes]
          rfl
        refine ⟨fun x mem => ?_, fun x mem standing => ?_⟩
        · rw [List.length_append]
          exact Nat.le_trans (known.since x mem) (Nat.le_add_right _ _)
        · unfold Standing at standing
          dsimp only at standing
          rw [List.drop_append_of_le_length (known.since x mem), List.mem_append, not_or,
            List.mem_singleton] at standing
          dsimp only
          rw [stored, readStatus_writeStatus, if_neg standing.2]
          exact known.status x mem standing.1
      next kept =>
        have none : evaluation.verdict.writes = none :=
          Option.not_isSome_iff_eq_none.mp (mt applied_iff.mpr kept)
        have stored : (w.store.applyScheduleVerdict evaluation.verdict false).2 = w.store := by
          rw [apply_eq, none]
          rfl
        refine ⟨known.since, fun x mem standing => ?_⟩
        dsimp only
        rw [stored]
        exact known.status x mem standing

theorem snapshot_current (run : Steps (step parses) Current {} w) : Snapshots w := by
  have start : Snapshots {} := ⟨fun _ none => (List.not_mem_nil none).elim,
    fun _ none => (List.not_mem_nil none).elim⟩
  exact run.invariant start fun _ _ _ known _ fire => known.step fire

theorem probationary_of_writes (writes : verdict.writes.isSome = true) :
    verdict.status = .probationary := by
  obtain ⟨schedule, status, counts, recommend⟩ := verdict
  cases status with
  | probationary => rfl
  | permanent | retired => cases recommend <;> cases writes

theorem step_immune {e : Event} (known : Snapshots w) (current : Current w e)
    (fire : step parses w e = some w') : Immune w.store w'.store := by
  cases e with
  | capture outcome =>
      obtain ⟨store, captured, rfl⟩ := Option.map_eq_some_iff.mp fire
      unfold Store.captureScheduleOutcome at captured
      split at captured
      · cases captured
      · cases captured
        exact Immune.refl
  | evaluate id threshold =>
      cases fire
      exact Immune.refl
  | apply index =>
      obtain ⟨evaluation, found, rfl⟩ := Option.map_eq_some_iff.mp fire
      refine apply_immune_iff.mpr fun status writes => .inl ?_
      have some_status : evaluation.verdict.writes.isSome = true :=
        Option.isSome_iff_exists.mpr ⟨status, writes⟩
      rw [← known.status evaluation (List.mem_of_getElem? found)
        (current evaluation found some_status)]
      exact probationary_of_writes some_status

theorem step_counts {e : Event} (current : Current w e) (fire : step parses w e = some w')
    (counted : ∀ x ∈ w.evaluations, CountsRuns x) : ∀ x ∈ w'.evaluations, CountsRuns x := by
  cases e with
  | capture outcome =>
      obtain ⟨store, -, rfl⟩ := Option.map_eq_some_iff.mp fire
      exact counted
  | evaluate id threshold =>
      cases fire
      intro x mem
      rcases List.mem_append.mp mem with before | new
      · exact counted x before
      · rw [List.mem_singleton.mp new]
        exact countsRuns_of_old current
  | apply index =>
      obtain ⟨evaluation, -, rfl⟩ := Option.map_eq_some_iff.mp fire
      exact counted

/-- Over runs whose steps are all current, a final status stays and every verdict counts runs. -/
theorem immune_of_current (run : Steps (step parses) Current {} w)
    (more : Steps (step parses) Current w v) :
    Immune w.store v.store ∧ ∀ evaluation ∈ v.evaluations, CountsRuns evaluation := by
  have counted : ∀ evaluation ∈ w.evaluations, CountsRuns evaluation :=
    run.invariant (fun _ none' => by cases none') fun _ _ _ known current fire =>
      step_counts current fire known
  constructor
  · induction more with
    | refl => exact Immune.refl
    | tail before current fire immune =>
        exact immune.trans (step_immune (snapshot_current (run.trans before)) current fire)
  · exact more.invariant counted fun _ _ _ known current fire => step_counts current fire known

instance decidableReplacedAreOld (windowN : Int) :
    (signals : List ScheduleOutcome) → Decidable (ReplacedAreOld windowN signals)
  | [] => inferInstanceAs (Decidable True)
  | o :: after =>
      let _ := decidableReplacedAreOld windowN after
      inferInstanceAs (Decidable (((∃ later ∈ after, later.runId = o.runId) →
        0 < windowN ∧ windowN ≤ after.length) ∧ ReplacedAreOld windowN after))

instance {e : Event} : Decidable (Current w e) :=
  match e with
  | .capture _ => inferInstanceAs (Decidable True)
  | .evaluate id threshold => inferInstanceAs (Decidable
      (ReplacedAreOld threshold.windowN (signaled (w.store.outcomes id))))
  | .apply index => inferInstanceAs (Decidable
      (∀ evaluation ∈ w.evaluations[index]?, evaluation.verdict.writes.isSome = true →
        evaluation.verdict.scheduleId ∉ w.written.drop evaluation.since))

/-- The fires of a nightly schedule that the user has signaled, all in the same way. -/
def fires (signal : UserSignal) (runs : List String) : List Event :=
  runs.map fun run => .capture ⟨"nightly", run, "2026-01-01T00:00:00Z", some signal⟩

def evaluateNightly : Event := .evaluate "nightly" DEFAULT_SCHEDULE_THRESHOLD

/-- Five runs are approved and the verdict is applied. -/
def promotion : List Event :=
  fires .approve ["run-1", "run-2", "run-3", "run-4", "run-5"] ++ [evaluateNightly, .apply 0]

/-- Three more are redone, and the next verdict is refused. -/
def refusal : List Event := fires .redo ["run-6", "run-7", "run-8"] ++ [evaluateNightly, .apply 1]

theorem immune_of_current_refusal :
    ∃ w v : World, w.store.readStatus "nightly" = .permanent ∧ Immune w.store v.store ∧
      ∀ evaluation ∈ v.evaluations, CountsRuns evaluation := by
  have replay : (runWhile (step fun _ => true) (fun w e => decide (Current w e)) {} promotion).any
      (fun w => w.store.readStatus "nightly" = .permanent ∧
        (runWhile (step fun _ => true) (fun w e => decide (Current w e)) w refusal).isSome) = true := by
    decide +kernel
  obtain ⟨w, promoted, facts⟩ := (Option.any_eq_true _ _).mp replay
  obtain ⟨permanent, refused⟩ := of_decide_eq_true facts
  obtain ⟨v, refused⟩ := Option.isSome_iff_exists.mp refused
  have run := Steps.of_runWhile (fun _ _ current => of_decide_eq_true current) promoted
  have more := Steps.of_runWhile (fun _ _ current => of_decide_eq_true current) refused
  exact ⟨w, v, permanent, immune_of_current run more⟩

/-- Two verdicts are computed before one of them is applied. -/
def twoVerdicts : List Event :=
  fires .approve ["run-1", "run-2", "run-3", "run-4", "run-5"] ++ [evaluateNightly] ++
    fires .redo ["run-6", "run-7", "run-8"] ++ [evaluateNightly, .apply 0]

/-- The verdict that has not been applied yet retires the permanent schedule. -/
theorem retired_after_promotion : ∃ w v : World, Steps (step fun _ => true) AnyStep {} w ∧
    Steps (step fun _ => true) AnyStep w v ∧ w.store.readStatus "nightly" = .permanent ∧
      v.store.readStatus "nightly" = .retired := by
  have replay : (runWhile (step fun _ => true) (fun _ _ => true) {} twoVerdicts).any
      (fun w => w.store.readStatus "nightly" = .permanent ∧
        (step (fun _ => true) w (.apply 1)).any
          (fun v => v.store.readStatus "nightly" = .retired) = true) = true := by
    decide +kernel
  obtain ⟨w, reached, facts⟩ := (Option.any_eq_true _ _).mp replay
  obtain ⟨permanent, applied⟩ := of_decide_eq_true facts
  obtain ⟨v, fire, retired⟩ := (Option.any_eq_true _ _).mp applied
  have run : Steps (step fun _ => true) AnyStep {} w := Steps.of_runWhile (fun _ _ _ => trivial) reached
  exact ⟨w, v, run, .tail .refl trivial fire, permanent, of_decide_eq_true retired⟩

/-- One run that is captured five times is promoted like five runs. -/
theorem promoted_on_one_run : ∃ w : World, Steps (step fun _ => true) AnyStep {} w ∧
    ∃ evaluation ∈ w.evaluations, ¬ CountsRuns evaluation := by
  have replay : (runWhile (step fun _ => true) (fun _ _ => true) {}
      (fires .approve (List.replicate 5 "run-1") ++ [evaluateNightly])).any
        (fun w => w.evaluations[0]?.any (fun e => e.verdict.recommend = .promote ∧
          e.threshold.windowN = 5 ∧ ∀ o ∈ signaled e.outcomes, o.runId = "run-1") = true) = true := by
    decide +kernel
  obtain ⟨w, reached, facts⟩ := (Option.any_eq_true _ _).mp replay
  obtain ⟨evaluation, computed, facts⟩ := (Option.any_eq_true _ _).mp (of_decide_eq_true facts)
  obtain ⟨promote, five, one⟩ := of_decide_eq_true facts
  refine ⟨w, Steps.of_runWhile (fun _ _ _ => trivial) reached, evaluation,
    List.mem_of_getElem? computed, ?_⟩
  intro counts
  have only : (window evaluation.threshold evaluation.outcomes).map ScheduleOutcome.runId ⊆
      ["run-1"] := by
    intro run mem
    obtain ⟨o, counted, rfl⟩ := List.mem_map.mp mem
    rw [one o ((List.drop_sublist _ _).subset counted)]
    exact List.mem_singleton_self _
  have few := (List.subperm_of_subset counts.once only).length_le
  rw [List.length_map, List.length_singleton] at few
  have many := counts.promote promote
  omega

end Opensquid.Runtime.Schedule
