import Mathlib.Data.List.Chain
import Opensquid.Lib.ProgramView
import Opensquid.Ralph.Laps

/-!
# The metrics of the stages

A drive of an item once more, now with the tokens that laps use, the clock and the rows that
`recordMetric` is given: one row for each stage that the drive leaves. `runItemLaps_conserves` says
that what the laps cost and use is what the rows say, stage by stage. Without the clock, the rows
and the tokens it is the drive of `Ralph.runItemLaps`: `runs_plain`.
-/

namespace Opensquid.Ralph.Metered

open Opensquid.Lib Opensquid.WorkGraph

/-! ## Usage -/

/-- What is added up side by side. -/
@[ext]
structure Usage where
  costUsd : ℚ := 0
  inputTokens : ℚ := 0
  outputTokens : ℚ := 0
  deriving DecidableEq

namespace Usage

instance : Zero Usage := ⟨{}⟩

instance : Add Usage :=
  ⟨fun u v => ⟨u.costUsd + v.costUsd, u.inputTokens + v.inputTokens, u.outputTokens + v.outputTokens⟩⟩

instance : AddCommMonoid Usage where
  add_assoc _ _ _ := Usage.ext (add_assoc _ _ _) (add_assoc _ _ _) (add_assoc _ _ _)
  zero_add _ := Usage.ext (zero_add _) (zero_add _) (zero_add _)
  add_zero _ := Usage.ext (add_zero _) (add_zero _) (add_zero _)
  add_comm _ _ := Usage.ext (add_comm _ _) (add_comm _ _) (add_comm _ _)
  nsmul := nsmulRec

end Usage

structure LapResult where
  outcome : LapOutcome
  costUsd : ℚ
  inputTokens : Option ℚ := none
  outputTokens : Option ℚ := none
  attemptId : Option String := none
  deriving DecidableEq

def LapResult.usage (r : LapResult) : Usage :=
  ⟨r.costUsd, r.inputTokens.getD 0, r.outputTokens.getD 0⟩

/-- The result with other figures. -/
def LapResult.bill (r : LapResult) (u : Usage) : LapResult :=
  { r with costUsd := u.costUsd, inputTokens := some u.inputTokens, outputTokens := some u.outputTokens }

inductive AuthMode
  | api
  | subscription
  deriving DecidableEq, Repr

structure LoopMetricRow extends Usage where
  runId : String
  itemId : String
  stage : String
  harness : String
  authMode : AuthMode
  startedAtMs : ℤ
  endedAtMs : ℤ
  durationMs : ℤ
  deriving DecidableEq

/-! ## What a drive calls -/

inductive StageCall
  | now
  | runLap (item : Issue) (stagePrompt checkpointStage : Option String)
  | readStage (itemId : String)
  | completedStage (item : Issue) (stage : String)
  | stagePrompt (item : Issue) (stage : String)
  | readAttemptStage (attemptId itemId : String)
  | reconcileStage (itemId stage : String)
  | recordMetric (row : LoopMetricRow)

@[reducible] def StageCall.Reply : StageCall → Type
  | .now => ℤ
  | .runLap .. => LapResult
  | .readStage _ | .completedStage .. => Option String
  | .stagePrompt .. | .readAttemptStage .. => String
  | .reconcileStage .. | .recordMetric _ => Unit

abbrev Drive := Program StageCall StageCall.Reply

/-! ## The programs -/

/-- Retries after a crash, a timeout or a failure; `attempts` are left. -/
def superviseLap (run : Drive LapResult) : Nat → Usage → Drive LapResult
  | 0, spent =>
      return LapResult.bill { outcome := .humanRequired .unrecoverableWedge, costUsd := 0 } spent
  | attempts + 1, spent => do
      match ← run.attempt with
      | none => superviseLap run attempts spent
      | some out =>
          let spent := spent + out.usage
          if out.outcome ≠ .crash ∧ out.outcome ≠ .timeout then return out.bill spent
          else superviseLap run attempts spent

structure Config where
  runId : String
  harness : String
  authMode : AuthMode
  maxRetries : Nat
  /-- Whether `recordMetric` is given. -/
  records : Bool
  deriving DecidableEq

/-- Where the loop over the stages stands. -/
structure StageState where
  stage : String
  cost : ℚ
  sameStage : Nat
  stageStartMs : ℤ
  used : Usage
  deriving DecidableEq

section

variable (cfg : Config) (sl : StageLoop) (item : Issue)

def metricRow (s : StageState) (endedAtMs : ℤ) : LoopMetricRow where
  toUsage := s.used
  runId := cfg.runId
  itemId := item.id
  stage := s.stage
  harness := cfg.harness
  authMode := cfg.authMode
  startedAtMs := s.stageStartMs
  endedAtMs
  durationMs := endedAtMs - s.stageStartMs

/-- A metric that cannot be recorded never breaks the drive. -/
def flushStage (s : StageState) : Drive Unit :=
  if cfg.records then do
    let endedAtMs ← Program.await .now
    let _ ← (Program.await (.recordMetric (metricRow cfg item s endedAtMs))).attempt
  else return ()

/-- `sl.completedStage?.(item, stage)`. -/
def completedStage (stage : String) : Drive (Option String) :=
  if sl.completedStage then Program.await (StageCall.completedStage item stage) else return none

/-- The stage that the gate has accepted for the attempt; without an attempt, no advance. -/
def nextStage (stage : String) : Option String → Drive String
  | none => return stage
  | some attemptId => Program.await (StageCall.readAttemptStage attemptId item.id)

/-- The stage is left for the next one. -/
def advance (s : StageState) (next : String) : Drive StageState := do
  flushStage cfg item s
  Program.await (StageCall.reconcileStage item.id next)
  let stageStartMs ← Program.await StageCall.now
  return { stage := next, cost := s.cost, sameStage := 0, stageStartMs, used := 0 }

/-- One supervised lap in the stage, and what it adds to the figures. -/
def stageLap (s : StageState) : Drive (LapResult × StageState) := do
  let sp ← Program.await (StageCall.stagePrompt item s.stage)
  let res ← superviseLap (Program.await (StageCall.runLap item (some sp) (some s.stage)))
    (cfg.maxRetries + 1) 0
  return (res, { s with cost := s.cost + res.costUsd, used := s.used + res.usage })

/-- The loop over the stages, `fuel` rounds of it: it throws when there are more. -/
def stageLaps : Nat → StageState → Drive LapResult
  | 0, _ => .throw
  | fuel + 1, s =>
      if sl.isTerminal s.stage then return { outcome := .shipped, costUsd := s.cost }
      else if !sl.isAutomated s.stage then
        return { outcome := .awaitingInput s.stage, costUsd := s.cost }
      else do
        let completed ← completedStage sl item s.stage
        match completed.filter (· ≠ s.stage) with
        | some completed => do
            let s ← advance cfg item s completed
            stageLaps fuel s
        | none => do
            let (res, s) ← stageLap cfg item s
            if res.outcome ≠ .shipped then do
              flushStage cfg item s
              return { res with costUsd := s.cost }
            else do
              let next ← nextStage item s.stage res.attemptId
              if next = s.stage then
                if maxStageRetries ≤ s.sameStage + 1 then do
                  flushStage cfg item s
                  return { outcome := .humanRequired .unrecoverableWedge, costUsd := s.cost }
                else stageLaps fuel { s with sameStage := s.sameStage + 1 }
              else do
                let s ← advance cfg item s next
                stageLaps fuel s

def runItemLaps (stageLoop : Option StageLoop) (fuel : Nat) : Drive LapResult :=
  match stageLoop with
  | none =>
      superviseLap (Program.await (StageCall.runLap item none none)) (cfg.maxRetries + 1) 0
  | some sl => do
      let stage ← Program.await (StageCall.readStage item.id)
      let stageStartMs ← Program.await StageCall.now
      stageLaps cfg sl item fuel
        { stage := stage.getD sl.initialStage, cost := 0, sameStage := 0, stageStartMs, used := 0 }

end

/-! ## Without the metrics -/

/-- The result without its tokens. -/
def LapResult.plain (r : LapResult) : Ralph.LapResult := ⟨r.outcome, r.costUsd, r.attemptId⟩

/-- The calls that the drive makes without metrics, too. -/
def StageCall.view : (op : StageCall) → Option (Program.Seen op.Reply LapCall.Reply)
  | .now | .recordMetric _ => none
  | .runLap item prompt stage => some ⟨.runLap item prompt stage, LapResult.plain⟩
  | .readStage itemId => some ⟨.readStage itemId, id⟩
  | .completedStage item stage => some ⟨.completedStage item stage, id⟩
  | .stagePrompt item stage => some ⟨.stagePrompt item stage, id⟩
  | .readAttemptStage attempt itemId => some ⟨.readAttemptStage attempt itemId, id⟩
  | .reconcileStage itemId stage => some ⟨.reconcileStage itemId stage, id⟩

section

variable {cfg : Config} {sl : StageLoop} {item : Issue} {s : StageState} {α β : Type} {f : α → β}

theorem await_seen (op : StageCall) (op' : LapCall) {asked : op.Reply → op'.Reply}
    (here : op.view = some ⟨op', asked⟩) :
    Program.SeenAs StageCall.view asked (Program.await op) (Program.await op') :=
  .await op op' here

theorem now_seen {k : ℤ → Drive α} {q : Ralph.Drive β}
    (rest : ∀ now, Program.SeenAs StageCall.view f (k now) q) :
    Program.SeenAs StageCall.view f ((Program.await StageCall.now).bind k) q :=
  .unseen StageCall.now rfl rest

theorem superviseLap_seen {run : Drive LapResult} {run' : Ralph.Drive Ralph.LapResult}
    (same : Program.SeenAs StageCall.view LapResult.plain run run') (attempts : Nat)
    (spent : Usage) : Program.SeenAs StageCall.view LapResult.plain (superviseLap run attempts spent)
      (Ralph.superviseLap run' attempts spent.costUsd) := by
  induction attempts generalizing spent with
  | zero => exact .ret _
  | succ attempts ih =>
      refine Program.SeenAs.bind same.attempt fun out => ?_
      cases out with
      | none => exact ih spent
      | some out =>
          dsimp only [Option.map_some, LapResult.plain]
          split
          · exact .ret _
          · exact ih (spent + out.usage)

theorem flushStage_seen {k : Unit → Drive α} {q : Ralph.Drive β}
    (rest : Program.SeenAs StageCall.view f (k ()) q) :
    Program.SeenAs StageCall.view f ((flushStage cfg item s).bind k) q := by
  unfold flushStage
  split
  · rw [Program.bind_eq, Program.bind_assoc]
    refine now_seen fun endedAtMs => ?_
    rw [Program.bind_eq, Program.bind_assoc]
    exact .unseen_attempt (StageCall.recordMetric (metricRow cfg item s endedAtMs)) rfl fun _ => rest
  · exact rest

theorem advance_seen {next : String} {k : StageState → Drive α} {q : Ralph.Drive β}
    (rest : ∀ stageStartMs, Program.SeenAs StageCall.view f
      (k { stage := next, cost := s.cost, sameStage := 0, stageStartMs, used := 0 }) q) :
    Program.SeenAs StageCall.view f ((advance cfg item s next).bind k)
      ((Program.await (LapCall.reconcileStage item.id next)).bind fun _ => q) := by
  rw [advance, Program.bind_eq, Program.bind_assoc]
  refine flushStage_seen ?_
  rw [Program.bind_eq, Program.bind_assoc]
  refine Program.SeenAs.bind
    (await_seen (.reconcileStage item.id next) (.reconcileStage item.id next) rfl) fun _ => ?_
  rw [Program.bind_eq, Program.bind_assoc]
  exact now_seen rest

theorem completedStage_seen {stage : String} : Program.SeenAs StageCall.view id
    (completedStage sl item stage) (Ralph.completedStage sl item stage) := by
  unfold completedStage Ralph.completedStage
  split
  · exact await_seen (.completedStage item stage) (.completedStage item stage) rfl
  · exact .ret _

theorem nextStage_seen {stage : String} {attemptId : Option String} :
    Program.SeenAs StageCall.view id (nextStage item stage attemptId)
      (Ralph.nextStage item stage attemptId) := by
  cases attemptId with
  | none => exact .ret _
  | some attemptId =>
      exact await_seen (.readAttemptStage attemptId item.id) (.readAttemptStage attemptId item.id) rfl

/-- The loop over the stages is the one without metrics. -/
theorem stageLaps_seen {fuel : Nat} : Program.SeenAs StageCall.view LapResult.plain
    (stageLaps cfg sl item fuel s)
    (Ralph.stageLaps sl cfg.maxRetries item fuel s.stage s.cost s.sameStage) := by
  induction fuel generalizing s with
  | zero => exact .throw
  | succ fuel ih =>
      unfold stageLaps Ralph.stageLaps
      split
      · exact .ret _
      · split
        · exact .ret _
        · refine Program.SeenAs.bind completedStage_seen fun completed => ?_
          dsimp only [id]
          generalize completed.filter (· ≠ s.stage) = skipped
          cases skipped with
          | some completed =>
              exact advance_seen (k := stageLaps cfg sl item fuel) fun stageStartMs =>
                ih (s := ⟨completed, s.cost, 0, stageStartMs, 0⟩)
          | none =>
              simp only [stageLap, Program.bind_eq, Program.bind_assoc, Program.pure_eq]
              refine Program.SeenAs.bind (await_seen (.stagePrompt item s.stage)
                (.stagePrompt item s.stage) rfl) fun prompt => ?_
              refine Program.SeenAs.bind (superviseLap_seen
                (await_seen (.runLap item (some prompt) (some s.stage))
                  (.runLap item (some prompt) (some s.stage)) rfl) _ 0) fun res => ?_
              dsimp only [LapResult.plain, Program.bind]
              split
              · exact flushStage_seen (.ret _)
              · refine Program.SeenAs.bind nextStage_seen fun next => ?_
                dsimp only [id]
                split
                · split
                  · exact flushStage_seen (.ret _)
                  · exact ih (s := ⟨s.stage, _, _, _, _⟩)
                · exact advance_seen (k := stageLaps cfg sl item fuel) fun stageStartMs =>
                    ih (s := ⟨next, _, 0, stageStartMs, 0⟩)

theorem runItemLaps_seen {stageLoop : Option StageLoop} {fuel : Nat} :
    Program.SeenAs StageCall.view LapResult.plain (runItemLaps cfg item stageLoop fuel)
      (Ralph.runItemLaps stageLoop cfg.maxRetries fuel item) := by
  cases stageLoop with
  | none =>
      exact superviseLap_seen (await_seen (.runLap item none none) (.runLap item none none) rfl) _ 0
  | some sl =>
      refine Program.SeenAs.bind (await_seen (.readStage item.id) (.readStage item.id) rfl)
        fun found => ?_
      exact now_seen fun _ => stageLaps_seen

end

/-! ## Runs -/

/-- A lap that has returned, with the stage that it was run for. -/
structure Lap where
  stage : Option String
  result : LapResult
  deriving DecidableEq

/-- What a drive has done: the stage that it found, the laps, the rows and the stages that were
reconciled, in order. -/
structure World where
  found : Option String := none
  laps : List Lap := []
  rows : List LoopMetricRow := []
  reconciled : List (String × String) := []

/-- The environment answers the calls as it likes, or lets them fail; the clock and `recordMetric`
do not fail. -/
def StageCall.exec (op : StageCall) (answers : (op : StageCall) → Option op.Reply) (w : World) :
    Option (World × Option op.Reply) :=
  match op with
  | .now => some (w, some ((answers .now).getD 0))
  | .runLap item prompt stage =>
      let result := answers (.runLap item prompt stage)
      some ({ w with laps := w.laps ++ (result.map (Lap.mk stage)).toList }, result)
  | .readStage id =>
      let stage := answers (.readStage id)
      some ({ w with found := stage.join }, stage)
  | .reconcileStage id stage =>
      some ({ w with reconciled := w.reconciled ++ [(id, stage)] }, answers (.reconcileStage id stage))
  | .recordMetric row => some ({ w with rows := w.rows ++ [row] }, some ())
  | .completedStage item stage => some (w, answers (.completedStage item stage))
  | .stagePrompt item stage => some (w, answers (.stagePrompt item stage))
  | .readAttemptStage attempt id => some (w, answers (.readAttemptStage attempt id))

def used (laps : List Lap) : Usage := (laps.map fun lap => lap.result.usage).sum

/-- The laps are split among the rows: each row has the figures of laps of its own stage. -/
def Split (rows : List LoopMetricRow) (laps : List Lap) : Prop :=
  ∃ groups : List (List Lap), groups.flatten = laps ∧
    List.Forall₂ (fun row group => row.toUsage = used group ∧
      ∀ lap ∈ group, lap.stage = some row.stage) rows groups

/-- What holds of a drive that has returned `result`. -/
structure Conserves (sl : StageLoop) (item : Issue) (w : World) (result : LapResult) : Prop where
  split : Split w.rows w.laps
  billed : result.costUsd = (used w.laps).costUsd
  /-- The stages that were left, and the last one where no row is written for it, are the first
  stage and those that were reconciled. -/
  stages : ∃ last : Option String,
    w.rows.map (·.stage) ++ last.toList =
        w.found.getD sl.initialStage :: w.reconciled.map Prod.snd ∧
      ∀ stage ∈ last, result.outcome = .shipped ∧ sl.isTerminal stage = true ∨
        result.outcome = .awaitingInput stage ∧ sl.isAutomated stage = false
  changes : (w.found.getD sl.initialStage :: w.reconciled.map Prod.snd).IsChain (· ≠ ·)
  own : ∀ entry ∈ w.reconciled, entry.1 = item.id

/-! ### Runs without the metrics -/

/-- What a drive without metrics has done to a board that nobody else writes to. -/
def World.plain (board : Board) (w : World) : LapWorld :=
  ⟨board, (w.laps.map (·.result.plain)).reverse⟩

theorem exists_answer (w : LapWorld) (reply : Option (Option String)) : ∃ answer : LapAnswer,
    some (w, if answer.fails then none else some answer.text) = some (w, reply.map id) := by
  cases reply with
  | none => exact ⟨{ fails := true }, rfl⟩
  | some text => exact ⟨{ text }, rfl⟩

/-- A run with the metrics is, without them, a run of the drive that has the same laps and the same
outcome. -/
theorem runs_plain {cfg : Config} {stageLoop : Option StageLoop} {item : Issue} {fuel : Nat}
    {w : World} {o : Option LapResult} (board : Board)
    (run : (runItemLaps cfg item stageLoop fuel).Runs StageCall.exec (fun _ _ _ => True) {} o w) :
    (Ralph.runItemLaps stageLoop cfg.maxRetries fuel item).Runs LapCall.exec (fun _ _ _ => True)
      ⟨board, []⟩ (o.map LapResult.plain) (w.plain board) := by
  refine @Program.SeenAs.runs _ _ _ _ _ _ _ _ _ _ _ _ _ _ _ LapCall.exec _ (World.plain board)
    ?_ ?_ runItemLaps_seen {} _ _ run
  · intro op answers s t reply unseen done
    cases op <;> cases unseen <;> cases done <;> exact ⟨rfl, rfl⟩
  · intro op answers s t reply as here done
    cases op with
    | now => cases here
    | recordMetric row => cases here
    | runLap item prompt stage =>
        cases here
        cases done
        refine ⟨{ lap := (answers (.runLap item prompt stage)).map LapResult.plain }, ?_⟩
        cases answers (.runLap item prompt stage) with
        | none => simp [LapCall.exec, World.plain]
        | some out => simp [LapCall.exec, World.plain]
    | readStage id =>
        cases here
        cases done
        exact exists_answer _ (answers (.readStage id))
    | completedStage item stage =>
        cases here
        cases done
        exact exists_answer _ (answers (.completedStage item stage))
    | stagePrompt item stage =>
        cases here
        cases done
        exact ⟨{ text := answers (.stagePrompt item stage) }, by
          rw [Option.map_id]
          rfl⟩
    | readAttemptStage attempt id =>
        cases here
        cases done
        exact ⟨{ text := answers (.readAttemptStage attempt id) }, by
          rw [Option.map_id]
          rfl⟩
    | reconcileStage id stage =>
        cases here
        cases done
        refine ⟨{ fails := (answers (.reconcileStage id stage)).isNone }, ?_⟩
        cases answers (.reconcileStage id stage) <;> rfl

/-! ### The laps of a stage -/

section

variable {w : World} {cfg : Config} {sl : StageLoop} {item : Issue}

theorem used_append (laps more : List Lap) : used (laps ++ more) = used laps + used more := by
  rw [used, List.map_append, List.sum_append, ← used, ← used]

theorem usage_bill (r : LapResult) (u : Usage) : (r.bill u).usage = u := rfl

theorem await_always {op : StageCall} {post : Option op.Reply → World → Prop}
    (next : ∀ answers t reply, op.exec answers w = some (t, reply) → post reply t) :
    (Program.await op).Always StageCall.exec (fun _ _ => True) post w :=
  Program.Always.await trivial next

/-- What a supervised lap reports is what its attempts that returned have used. -/
theorem superviseLap_always {prompt stage : Option String} {attempts : Nat} {spent : Usage}
    {before : List Lap} :
    (superviseLap (Program.await (StageCall.runLap item prompt stage)) attempts spent).Always
      StageCall.exec (fun _ _ => True)
      (fun o t => ∃ res laps, o = some res ∧ t = { w with laps := before ++ laps } ∧
        res.usage = spent + used laps ∧ ∀ lap ∈ laps, lap.stage = stage)
      { w with laps := before } := by
  induction attempts generalizing spent before with
  | zero =>
      refine ⟨_, [], rfl, ?_, (add_zero spent).symm, List.forall_mem_nil _⟩
      rw [List.append_nil]
  | succ attempts ih =>
      refine Program.Always.bind (Program.Always.attempt (await_always ?_))
      rintro answers t reply ⟨⟩
      cases answers (.runLap item prompt stage) with
      | none =>
          rw [Option.map_none, Option.toList_none, List.append_nil]
          exact ih
      | some out =>
          have one : used [⟨stage, out⟩] = out.usage := add_zero out.usage
          dsimp only [Option.map_some, Option.toList_some]
          split
          · refine ⟨_, [⟨stage, out⟩], rfl, rfl, ?_, List.forall_mem_singleton.mpr rfl⟩
            rw [usage_bill, one]
          · refine ih.mono fun o t => ?_
            rintro ⟨res, laps, rfl, rfl, spent_eq, all⟩
            refine ⟨res, ⟨stage, out⟩ :: laps, rfl, ?_, ?_, List.forall_mem_cons.mpr ⟨rfl, all⟩⟩
            · rw [List.append_assoc, List.singleton_append]
            · rw [spent_eq, add_assoc, ← one, ← used_append, List.singleton_append]

theorem Split.snoc {rows : List LoopMetricRow} {done current : List Lap} {row : LoopMetricRow}
    (split : Split rows done) (figures : row.toUsage = used current)
    (all : ∀ lap ∈ current, lap.stage = some row.stage) : Split (rows ++ [row]) (done ++ current) := by
  obtain ⟨groups, rfl, each⟩ := split
  refine ⟨groups ++ [current], ?_, ?_⟩
  · rw [List.flatten_append, List.flatten_singleton]
  · exact List.rel_append each (.cons ⟨figures, all⟩ .nil)

/-- The loop stands in a stage: its figures are those of the laps since the last row. -/
structure InStage (sl : StageLoop) (item : Issue) (w : World) (s : StageState) : Prop where
  split : ∃ done current, done ++ current = w.laps ∧ Split w.rows done ∧ s.used = used current ∧
    (∀ lap ∈ current, lap.stage = some s.stage) ∧
      (current = [] ∨ sl.isTerminal s.stage = false ∧ sl.isAutomated s.stage = true)
  billed : s.cost = (used w.laps).costUsd
  stages : w.rows.map (·.stage) ++ [s.stage] =
    w.found.getD sl.initialStage :: w.reconciled.map Prod.snd
  changes : (w.found.getD sl.initialStage :: w.reconciled.map Prod.snd).IsChain (· ≠ ·)
  own : ∀ entry ∈ w.reconciled, entry.1 = item.id

variable {s : StageState}

/-- A drive that ends outside of the automated states has no figures left. -/
theorem InStage.outside {outcome : LapOutcome} (stands : InStage sl item w s)
    (outside : sl.isTerminal s.stage = false → sl.isAutomated s.stage = false)
    (ends : outcome = .shipped ∧ sl.isTerminal s.stage = true ∨
      outcome = .awaitingInput s.stage ∧ sl.isAutomated s.stage = false) :
    Conserves sl item w { outcome, costUsd := s.cost } where
  split := by
    obtain ⟨done, current, laps, split, -, -, empty | ⟨live, automated⟩⟩ := stands.split
    · rw [← laps, empty, List.append_nil]
      exact split
    · exact absurd ((outside live).symm.trans automated) Bool.false_ne_true
  billed := stands.billed
  stages := ⟨some s.stage, stands.stages, fun stage mem => by cases mem; exact ends⟩
  changes := stands.changes
  own := stands.own

/-- The state after the row of the stage is written. -/
structure Left (sl : StageLoop) (item : Issue) (w : World) (s : StageState) : Prop where
  split : Split w.rows w.laps
  billed : s.cost = (used w.laps).costUsd
  stages : w.rows.map (·.stage) = w.found.getD sl.initialStage :: w.reconciled.map Prod.snd
  last : (w.rows.map (·.stage)).getLast? = some s.stage
  changes : (w.found.getD sl.initialStage :: w.reconciled.map Prod.snd).IsChain (· ≠ ·)
  own : ∀ entry ∈ w.reconciled, entry.1 = item.id

theorem flushStage_always (records : cfg.records = true) (stands : InStage sl item w s) :
    (flushStage cfg item s).Always StageCall.exec (fun _ _ => True)
      (fun o t => o = some () ∧ Left sl item t s) w := by
  rw [flushStage, if_pos records]
  refine Program.Always.bind (await_always ?_)
  rintro answers t reply ⟨⟩
  refine Program.Always.bind (Program.Always.attempt (await_always ?_))
  rintro answers t reply ⟨⟩
  refine ⟨rfl, ?_⟩
  obtain ⟨done, current, laps, split, figures, all, -⟩ := stands.split
  have stages := stands.stages
  refine ⟨?_, stands.billed, ?_, ?_, stands.changes, stands.own⟩
  · rw [← laps]
    exact split.snoc figures all
  · rw [List.map_append, List.map_singleton]
    exact stages
  · rw [List.map_append, List.map_singleton, List.getLast?_concat]
    rfl

theorem Left.escalates {r : LapResult} (left : Left sl item w s) (billed : r.costUsd = s.cost) :
    Conserves sl item w r where
  split := left.split
  billed := billed.trans left.billed
  stages := ⟨none, by rw [Option.toList_none, List.append_nil]; exact left.stages,
    fun _ mem => nomatch mem⟩
  changes := left.changes
  own := left.own

theorem advance_always {next : String} (records : cfg.records = true) (stands : InStage sl item w s)
    (changed : next ≠ s.stage) :
    (advance cfg item s next).Always StageCall.exec (fun _ _ => True)
      (fun o t => ∀ s', o = some s' → InStage sl item t s') w := by
  refine Program.Always.bind ((flushStage_always records stands).mono fun o t => ?_)
  rintro ⟨rfl, left⟩
  refine Program.Always.bind (await_always ?_)
  rintro answers u reply ⟨⟩
  cases answers (.reconcileStage item.id next) with
  | none => exact fun _ returned => nomatch returned
  | some _ =>
      refine Program.Always.bind (await_always ?_)
      rintro answers u reply ⟨⟩
      rintro s' ⟨⟩
      refine ⟨⟨t.laps, [], List.append_nil _, left.split, rfl, List.forall_mem_nil _, .inl rfl⟩,
        left.billed, ?_, ?_, ?_⟩
      · rw [left.stages, List.map_append]
        rfl
      · have changes : (t.found.getD sl.initialStage :: t.reconciled.map Prod.snd ++ [next]).IsChain
            (· ≠ ·) := by
          refine List.isChain_append.mpr ⟨left.changes, .singleton next, ?_⟩
          rw [← left.stages, left.last]
          rintro _ ⟨⟩ _ ⟨⟩
          exact changed.symm
        rw [List.cons_append] at changes
        rw [List.map_append]
        exact changes
      · exact List.forall_mem_append.mpr ⟨left.own, List.forall_mem_singleton.mpr rfl⟩

/-- A lap in an automated stage counts for the stage. -/
theorem stageLap_always (stands : InStage sl item w s) (live : sl.isTerminal s.stage = false)
    (automated : sl.isAutomated s.stage = true) :
    (stageLap cfg item s).Always StageCall.exec (fun _ _ => True)
      (fun o t => ∀ res s', o = some (res, s') → InStage sl item t s' ∧ s'.stage = s.stage) w := by
  refine Program.Always.bind (await_always ?_)
  rintro answers t reply ⟨⟩
  cases answers (.stagePrompt item s.stage) with
  | none => rintro _ _ ⟨⟩
  | some sp =>
      refine Program.Always.bind ((@superviseLap_always w item (some sp) (some s.stage)
        (cfg.maxRetries + 1) 0 w.laps).mono fun o t => ?_)
      rintro ⟨res, laps, rfl, rfl, spent, all⟩ res' s' returned
      obtain ⟨rfl, rfl⟩ := Prod.mk.inj (Option.some.inj returned)
      rw [zero_add] at spent
      obtain ⟨done, current, same, split, figures, all', -⟩ := stands.split
      refine ⟨⟨⟨done, current ++ laps, ?_, split, ?_, ?_, .inr ⟨live, automated⟩⟩, ?_, stands.stages,
        stands.changes, stands.own⟩, rfl⟩
      · rw [← List.append_assoc, same]
      · rw [used_append, ← figures, ← spent]
      · exact List.forall_mem_append.mpr ⟨all', all⟩
      · have billed : s.cost + res.costUsd = (used w.laps).costUsd + res.costUsd := by
          rw [stands.billed]
        rw [used_append, ← spent]
        exact billed

theorem quiet_always {op : StageCall} {post : Option op.Reply → World → Prop}
    (quiet : ∀ answers t reply, op.exec answers w = some (t, reply) → t = w)
    (next : ∀ reply, post reply w) :
    (Program.await op).Always StageCall.exec (fun _ _ => True) post w :=
  await_always fun answers t reply done => quiet answers t reply done ▸ next reply

theorem completedStage_always {stage : String} {post : Option (Option String) → World → Prop}
    (next : ∀ reply, post reply w) :
    (completedStage sl item stage).Always StageCall.exec (fun _ _ => True) post w := by
  rw [completedStage]
  split
  · exact quiet_always (by rintro _ _ _ ⟨⟩; rfl) next
  · exact next _

theorem nextStage_always {stage : String} {attemptId : Option String}
    {post : Option String → World → Prop} (next : ∀ reply, post reply w) :
    (nextStage item stage attemptId).Always StageCall.exec (fun _ _ => True) post w := by
  cases attemptId with
  | none => exact next _
  | some attemptId => exact quiet_always (by rintro _ _ _ ⟨⟩; rfl) next

theorem flushed_always {r : LapResult} (records : cfg.records = true) (stands : InStage sl item w s)
    (billed : r.costUsd = s.cost) :
    (do
      flushStage cfg item s
      return r : Drive LapResult).Always StageCall.exec (fun _ _ => True)
      (fun o t => ∀ result, o = some result → Conserves sl item t result) w := by
  refine Program.Always.bind ((flushStage_always records stands).mono fun o t => ?_)
  rintro ⟨rfl, left⟩
  rintro _ ⟨⟩
  exact left.escalates billed

theorem stageLaps_always {fuel : Nat} (records : cfg.records = true) (stands : InStage sl item w s) :
    (stageLaps cfg sl item fuel s).Always StageCall.exec (fun _ _ => True)
      (fun o t => ∀ result, o = some result → Conserves sl item t result) w := by
  induction fuel generalizing s w with
  | zero => exact fun _ returned => nomatch returned
  | succ fuel ih =>
      have goes_on : ∀ {s : StageState} {w : World} {next : String}, InStage sl item w s →
          next ≠ s.stage → (do
            let s ← advance cfg item s next
            stageLaps cfg sl item fuel s : Drive LapResult).Always StageCall.exec (fun _ _ => True)
            (fun o t => ∀ result, o = some result → Conserves sl item t result) w := by
        intro s w next stands changed
        refine Program.Always.bind ((advance_always records stands changed).mono fun o t kept => ?_)
        cases o with
        | none => exact fun _ returned => nomatch returned
        | some s' => exact ih (kept s' rfl)
      rw [stageLaps]
      split
      · next terminal =>
          rintro _ ⟨⟩
          exact stands.outside (fun live => absurd (live.symm.trans terminal) Bool.false_ne_true)
            (.inl ⟨rfl, terminal⟩)
      · next live =>
          have live := Bool.eq_false_iff.mpr live
          split
          · next held =>
              have held := Bool.not_eq_true' _ ▸ held
              rintro _ ⟨⟩
              exact stands.outside (fun _ => held) (.inr ⟨rfl, held⟩)
          · next automated =>
              have automated : sl.isAutomated s.stage = true := by simpa using automated
              refine Program.Always.bind (completedStage_always fun reply => ?_)
              cases reply with
              | none => exact fun _ returned => nomatch returned
              | some completed =>
                  dsimp only
                  split
                  · next completed skipped =>
                      refine goes_on stands ?_
                      simpa using (Option.filter_eq_some_iff.mp skipped).2
                  · refine Program.Always.bind
                      ((stageLap_always stands live automated).mono fun o t kept => ?_)
                    cases o with
                    | none => exact fun _ returned => nomatch returned
                    | some lapped =>
                        obtain ⟨res, s'⟩ := lapped
                        obtain ⟨stands', same⟩ := kept res s' rfl
                        dsimp only
                        split
                        · exact flushed_always records stands' rfl
                        · refine Program.Always.bind (nextStage_always fun reply => ?_)
                          cases reply with
                          | none => exact fun _ returned => nomatch returned
                          | some next =>
                              dsimp only
                              split
                              · split
                                · exact flushed_always records stands' rfl
                                · exact ih ⟨stands'.split, stands'.billed, stands'.stages,
                                    stands'.changes, stands'.own⟩
                              · next changed => exact goes_on stands' changed

/-- A run of the stages that returns has recorded what its laps have cost and used. -/
theorem runItemLaps_always {fuel : Nat} (records : cfg.records = true) :
    (runItemLaps cfg item (some sl) fuel).Always StageCall.exec (fun _ _ => True)
      (fun o t => ∀ result, o = some result → Conserves sl item t result) {} := by
  refine Program.Always.bind (await_always ?_)
  rintro answers t reply ⟨⟩
  cases answers (.readStage item.id) with
  | none => exact fun _ returned => nomatch returned
  | some found =>
      refine Program.Always.bind (await_always ?_)
      rintro answers t reply ⟨⟩
      refine stageLaps_always records ⟨⟨[], [], rfl, ⟨[], rfl, .nil⟩, rfl, List.forall_mem_nil _,
        .inl rfl⟩, rfl, rfl,
        .singleton _, List.forall_mem_nil _⟩

/-! ## Totals -/

theorem Usage.costUsd_sum (us : List Usage) : us.sum.costUsd = (us.map (·.costUsd)).sum := by
  induction us with
  | nil => rfl
  | cons u us ih =>
      rw [List.sum_cons, List.map_cons, List.sum_cons, ← ih]
      rfl

theorem Split.total {rows : List LoopMetricRow} {laps : List Lap} (split : Split rows laps) :
    (rows.map (·.toUsage)).sum = used laps := by
  obtain ⟨groups, rfl, each⟩ := split
  induction each with
  | nil => rfl
  | cons here _ ih =>
      rw [List.map_cons, List.sum_cons, ih, here.1, List.flatten_cons, used_append]

/-- The costs of the rows, of the result and of the laps agree; the rows have the tokens of the
laps; rows, laps and reconciled stages go together stage by stage. -/
theorem runItemLaps_conserves {fuel : Nat} {result : LapResult} (records : cfg.records = true)
    (runs : (runItemLaps cfg item (some sl) fuel).Runs StageCall.exec (fun _ _ _ => True) {}
      (some result) w) :
    (w.rows.map (·.costUsd)).sum = result.costUsd ∧
      result.costUsd = (w.laps.map (·.result.costUsd)).sum ∧
      (w.rows.map (·.toUsage)).sum = used w.laps ∧ Conserves sl item w result := by
  have conserves := (runItemLaps_always records).of_complete runs result rfl
  have total := conserves.split.total
  refine ⟨?_, ?_, total, conserves⟩
  · rw [conserves.billed, ← total, Usage.costUsd_sum, List.map_map]
    rfl
  · rw [conserves.billed, used, Usage.costUsd_sum, List.map_map]
    rfl

end

/-! ## A drive -/

def buildStage : StageLoop where
  initialStage := "build"
  isAutomated stage := stage = "build"
  isTerminal stage := stage = "done"
  completedStage := false

def buildConfig : Config where
  runId := "run"
  harness := "pi"
  authMode := .api
  maxRetries := 1
  records := true

/-- The first lap crashes, the second one ships. -/
def crashThenShip (w : World) : (op : StageCall) → Option op.Reply
  | .now => some 7
  | .runLap .. =>
      some (if w.laps = [] then { outcome := .crash, costUsd := 1 / 2, inputTokens := some 4 }
        else { outcome := .shipped, costUsd := 2, inputTokens := some 5, attemptId := some "a" })
  | .readStage _ | .completedStage .. => some none
  | .stagePrompt .. => some ""
  | .readAttemptStage .. => some "done"
  | .reconcileStage .. | .recordMetric _ => some ()

def buildItem : Issue := { id := "item", title := "", body := "", status := .open }

def drive : Drive LapResult := runItemLaps buildConfig buildItem (some buildStage) 2

theorem drive_runs : ∃ w result,
    drive.Runs StageCall.exec (fun _ _ _ => True) {} (some result) w ∧ result.costUsd = 5 / 2 ∧
      result.inputTokens = none ∧ (w.rows.map (·.inputTokens)).sum = 9 := by
  have played : (drive.play StageCall.exec crashThenShip {}).any (fun (w, o) => o.any fun result =>
      result.costUsd = 5 / 2 ∧ result.inputTokens = none ∧
        (w.rows.map (·.inputTokens)).sum = 9) = true := by decide +kernel
  obtain ⟨⟨w, o⟩, ended, returned⟩ := (Option.any_eq_true _ _).mp played
  obtain ⟨result, rfl, figures⟩ := (Option.any_eq_true _ _).mp returned
  exact ⟨w, result, .of_play ended, of_decide_eq_true figures⟩

theorem runItemLaps_conserves_drive : ∃ w result,
    result.costUsd = 5 / 2 ∧ (w.rows.map (·.costUsd)).sum = result.costUsd ∧
      result.costUsd = (w.laps.map (·.result.costUsd)).sum ∧
      (w.rows.map (·.toUsage)).sum = used w.laps ∧ Conserves buildStage buildItem w result := by
  obtain ⟨w, result, runs, cost, -⟩ := drive_runs
  exact ⟨w, result, cost, runItemLaps_conserves rfl runs⟩

/-- The result of a drive does not have the tokens of its rows. -/
theorem result_without_tokens : ¬ ∀ cfg sl item fuel w result, cfg.records = true →
    (runItemLaps cfg item (some sl) fuel).Runs StageCall.exec (fun _ _ _ => True) {} (some result) w →
    (w.rows.map (·.costUsd)).sum = result.costUsd ∧
      (w.rows.map (·.inputTokens)).sum = result.inputTokens.getD 0 ∧
      (w.rows.map (·.outputTokens)).sum = result.outputTokens.getD 0 := by
  intro all
  obtain ⟨w, result, runs, -, none, nine⟩ := drive_runs
  have equal := (all buildConfig buildStage buildItem 2 w result rfl runs).2.1
  rw [nine, none] at equal
  exact absurd equal (by decide)

end Opensquid.Ralph.Metered
