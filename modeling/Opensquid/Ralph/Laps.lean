import Mathlib.Algebra.Order.Ring.Rat
import Opensquid.WorkGraph.Facade

/-!
# Laps

A lap is one run of the agent on a claimed item. `superviseLap` retries crashed and timed
out laps, `runItemLaps` drives an item through the stages of its pack, one lap at a time.
Both add up what the laps cost; costs are exact numbers here.

What is injected (the agent, the stage store, the prompts) is the environment: it answers
the calls, and a call it does not answer fails. While a lap runs, issues may be created
and linked, and the claim of the item is renewed.
-/

namespace Opensquid.Ralph

open Opensquid.Lib Opensquid.WorkGraph

/-! ## Outcomes -/

inductive HumanRequiredReason
  | irreversibleBoundary
  | scopeFork
  | unrecoverableWedge
  | noDurableCommit
  | budget
  | rateBudget
  | processPaused
  | cancelledByHuman
  | boardWaiting
  | boardEmpty
  deriving DecidableEq, Repr

def HumanRequiredReason.name : HumanRequiredReason → String
  | irreversibleBoundary => "IRREVERSIBLE_BOUNDARY"
  | scopeFork => "SCOPE_FORK"
  | unrecoverableWedge => "UNRECOVERABLE_WEDGE"
  | noDurableCommit => "NO_DURABLE_COMMIT"
  | budget => "BUDGET"
  | rateBudget => "RATE_BUDGET"
  | processPaused => "PROCESS_PAUSED"
  | cancelledByHuman => "CANCELLED_BY_HUMAN"
  | boardWaiting => "BOARD_WAITING"
  | boardEmpty => "BOARD_EMPTY"

/-- Why the loop stopped. -/
inductive RalphStop
  | boardEmpty
  | boardWaiting
  | budget
  | rateBudget
  | processPaused
  | cancelledByHuman
  deriving DecidableEq, Repr

/-- The stop that a resource pause leads to; nothing for what parks a single item. -/
def isResourcePause : HumanRequiredReason → Option RalphStop
  | .budget => some .budget
  | .rateBudget => some .rateBudget
  | .processPaused => some .processPaused
  | .cancelledByHuman => some .cancelledByHuman
  | .boardWaiting => some .boardWaiting
  | .boardEmpty => some .boardEmpty
  | .irreversibleBoundary | .scopeFork | .unrecoverableWedge | .noDurableCommit => none

inductive LapOutcome
  | shipped
  | awaitingInput (stage : String)
  | humanRequired (reason : HumanRequiredReason)
  | wedge
  | timeout
  | crash
  deriving DecidableEq, Repr

structure LapResult where
  outcome : LapOutcome
  costUsd : ℚ
  attemptId : Option String := none
  deriving DecidableEq

/-! ## What a drive calls -/

inductive LapCall
  | getIssue (id : String)
  | runLap (item : Issue) (stagePrompt checkpointStage : Option String)
  | readStage (itemId : String)
  | completedStage (item : Issue) (stage : String)
  | stagePrompt (item : Issue) (stage : String)
  | readAttemptStage (attemptId itemId : String)
  | reconcileStage (itemId stage : String)
  deriving DecidableEq, Repr

@[reducible] def LapCall.Reply : LapCall → Type
  | .getIssue _ => Option Issue
  | .runLap .. => LapResult
  | .readStage _ | .completedStage .. => Option String
  | .stagePrompt .. | .readAttemptStage .. => String
  | .reconcileStage .. => Unit

abbrev Drive := Program LapCall LapCall.Reply

/-- What may happen to the board while a lap runs. -/
inductive LapWrite
  | create (title body newId : String)
  | link (e : Edge)
  | renew (id expiresAt : String)
  deriving DecidableEq, Repr

/-- The environment at one call: what happens meanwhile, and the reply to the call, the
result of a lap or a stage or prompt. -/
structure LapAnswer where
  writes : List LapWrite := []
  lap : Option LapResult := none
  text : Option String := none
  fails : Bool := false
  deriving DecidableEq

/-- The board, and the laps that have returned, the last one first. -/
structure LapWorld where
  board : Board
  laps : List LapResult

def Issue.renew (i : Issue) (expiresAt : String) : Issue :=
  if i.claimToken.isSome then { i with claimExpiresAt := some expiresAt } else i

theorem Issue.renew_id (expiresAt : String) (i : Issue) : (Issue.renew i expiresAt).id = i.id := by
  rw [Issue.renew]
  split <;> rfl

/-- `none`: the id of a created issue is not new. -/
def LapWrite.apply (b : Board) : LapWrite → Option Board
  | .create title body newId =>
      if new : b.issues.get newId = none then some (b.create title body newId new) else none
  | .link e => some (b.addEdge e).1
  | .renew id expiresAt => some (b.modify id (Issue.renew · expiresAt) (Issue.renew_id expiresAt))

def LapCall.exec (op : LapCall) (answer : LapAnswer) (w : LapWorld) :
    Option (LapWorld × Option op.Reply) :=
  match op with
  | .getIssue id => some (w, some (w.board.issue id))
  | .runLap .. =>
      (answer.writes.foldlM LapWrite.apply w.board).map fun board =>
        (⟨board, answer.lap.toList ++ w.laps⟩, answer.lap)
  | .readStage _ | .completedStage .. => some (w, if answer.fails then none else some answer.text)
  | .stagePrompt .. | .readAttemptStage .. => some (w, answer.text)
  | .reconcileStage .. => some (w, if answer.fails then none else some ())

/-! ## The programs -/

/-- Retries after a crash, a timeout or a failure; `attempts` are left. -/
def superviseLap (run : Drive LapResult) : Nat → ℚ → Drive LapResult
  | 0, costUsd => return { outcome := .humanRequired .unrecoverableWedge, costUsd }
  | attempts + 1, costUsd => do
      let out ← (do pure (some (← run))).orElse (pure none)
      match out with
      | none => superviseLap run attempts costUsd
      | some out =>
          let costUsd := costUsd + out.costUsd
          if out.outcome ≠ .crash ∧ out.outcome ≠ .timeout then return { out with costUsd }
          else superviseLap run attempts costUsd

/-- The states of a pack that a process drives. `completedStage`: whether the hook is given. -/
structure StageLoop where
  initialStage : String
  isAutomated : String → Bool
  isTerminal : String → Bool
  completedStage : Bool

def maxStageRetries : Nat := 10

/-- `sl.completedStage?.(item, stage)`. -/
def completedStage (sl : StageLoop) (item : Issue) (stage : String) : Drive (Option String) :=
  if sl.completedStage then Program.await (LapCall.completedStage item stage) else return none

/-- The stage that the gate has accepted for the attempt; without an attempt, no advance. -/
def nextStage (item : Issue) (stage : String) : Option String → Drive String
  | none => return stage
  | some attemptId => Program.await (LapCall.readAttemptStage attemptId item.id)

/-- The loop over the stages, `fuel` rounds of it: it throws when there are more. -/
def stageLaps (sl : StageLoop) (maxRetries : Nat) (item : Issue) :
    Nat → String → ℚ → Nat → Drive LapResult
  | 0, _, _, _ => .throw
  | fuel + 1, stage, cost, sameStage =>
      if sl.isTerminal stage then return { outcome := .shipped, costUsd := cost }
      else if !sl.isAutomated stage then
        return { outcome := .awaitingInput stage, costUsd := cost }
      else do
        let completed ← completedStage sl item stage
        match completed.filter (· ≠ stage) with
        | some completed => do
            Program.await (LapCall.reconcileStage item.id completed)
            stageLaps sl maxRetries item fuel completed cost 0
        | none => do
            let sp ← Program.await (LapCall.stagePrompt item stage)
            let res ← superviseLap (Program.await (LapCall.runLap item (some sp) (some stage)))
              (maxRetries + 1) 0
            let cost := cost + res.costUsd
            if res.outcome ≠ .shipped then return { res with costUsd := cost }
            else do
              let next ← nextStage item stage res.attemptId
              if next = stage then
                if maxStageRetries ≤ sameStage + 1 then
                  return { outcome := .humanRequired .unrecoverableWedge, costUsd := cost }
                else stageLaps sl maxRetries item fuel stage cost (sameStage + 1)
              else do
                Program.await (LapCall.reconcileStage item.id next)
                stageLaps sl maxRetries item fuel next cost 0

def runItemLaps (stageLoop : Option StageLoop) (maxRetries fuel : Nat) (item : Issue) :
    Drive LapResult :=
  match stageLoop with
  | none => superviseLap (Program.await (LapCall.runLap item none none)) (maxRetries + 1) 0
  | some sl => do
      let stage ← Program.await (LapCall.readStage item.id)
      stageLaps sl maxRetries item fuel (stage.getD sl.initialStage) 0 0

/-- The claim is read for its renewal, which goes on while the laps run. -/
def driveClaimedItem (stageLoop : Option StageLoop) (maxRetries fuel : Nat) (item : Issue) :
    Drive LapResult := do
  let _ ← Program.await (LapCall.getIssue item.id)
  runItemLaps stageLoop maxRetries fuel item

/-! ## What a drive does to the board -/

/-- Issues stay, with their wedges; a terminal issue stays terminal. -/
def Keeps (b t : Board) : Prop :=
  ∀ id i, b.issue id = some i → ∃ j, t.issue id = some j ∧
    (i.status.terminal = true → j.status.terminal = true) ∧
      (i.wedgeReason.isSome → j.wedgeReason.isSome)

theorem Keeps.refl (b : Board) : Keeps b b := fun _ i here => ⟨i, here, id, id⟩

theorem Keeps.trans {b t u : Board} (first : Keeps b t) (second : Keeps t u) : Keeps b u := by
  intro id i here
  obtain ⟨j, there, terminal, wedged⟩ := first id i here
  obtain ⟨k, final, terminal', wedged'⟩ := second id j there
  exact ⟨k, final, terminal' ∘ terminal, wedged' ∘ wedged⟩

section

variable {b t : Board} {id : String}

theorem Keeps.modify {f : Issue → Issue} {keep : ∀ i, (f i).id = i.id}
    (terminal : ∀ i, b.issue id = some i → i.status.terminal = true → (f i).status.terminal = true)
    (wedged : ∀ i, i.wedgeReason.isSome → (f i).wedgeReason.isSome) :
    Keeps b (b.modify id f keep) := by
  intro k i here
  by_cases same : k = id
  · subst same
    rw [Board.issue_modify_self, here]
    exact ⟨f i, rfl, terminal i here, wedged i⟩
  · rw [Board.issue_modify_of_ne same]
    exact ⟨i, here, fun h => h, fun h => h⟩

theorem Keeps.create {title body : String} {new : b.issues.get id = none} :
    Keeps b (b.create title body id new) := by
  intro k i here
  have other : k ≠ id := fun same => by
    rw [same, Board.issue, new] at here
    cases here
  rw [Board.issue_create_of_ne other]
  exact ⟨i, here, fun h => h, fun h => h⟩

theorem Keeps.addEdge {e : Edge} : Keeps b (b.addEdge e).1 := by
  rw [Board.addEdge]
  split
  · exact fun k i here => ⟨i, here, fun h => h, fun h => h⟩
  · exact .refl b

theorem Keeps.write {write : LapWrite} (done : write.apply b = some t) : Keeps b t := by
  cases write with
  | create title body newId =>
      simp only [LapWrite.apply] at done
      split at done <;> cases done
      exact .create
  | link e =>
      cases done
      exact .addEdge
  | renew id expiresAt =>
      cases done
      refine .modify (fun i _ terminal => ?_) fun i wedged => ?_
      · simp only [Issue.renew]
        split <;> exact terminal
      · simp only [Issue.renew]
        split <;> exact wedged

theorem Keeps.writes {writes : List LapWrite} (done : writes.foldlM LapWrite.apply b = some t) :
    Keeps b t := by
  induction writes generalizing b with
  | nil =>
      cases done
      exact .refl _
  | cons write rest ih =>
      rw [List.foldlM_cons] at done
      obtain ⟨u, first, done⟩ := Option.bind_eq_some_iff.mp done
      exact (Keeps.write first).trans (ih done)

end

/-! ## What a drive costs -/

def lapCosts (laps : List LapResult) : ℚ := (laps.map (·.costUsd)).sum

/-- What a drive has done since `w`, at that cost. -/
structure Drove (w : LapWorld) (cost : ℚ) (t : LapWorld) : Prop where
  keeps : Keeps w.board t.board
  cost : lapCosts t.laps = lapCosts w.laps + cost

/-- A lap does not claim that the board is empty. -/
def LapAnswer.Honest (answer : LapAnswer) : Prop :=
  ∀ r ∈ answer.lap, r.outcome ≠ .humanRequired .boardEmpty

/-- How a drive ends: it has cost what it says, and says that the board is empty only if
a lap has. -/
def Driven (w : LapWorld) (base : ℚ) (o : Option LapResult) (t : LapWorld) : Prop :=
  Keeps w.board t.board ∧ ∀ r ∈ o, Drove w (base + r.costUsd) t ∧
    r.outcome ≠ .humanRequired .boardEmpty

section

variable {w s t : LapWorld} {base cost : ℚ}

theorem Drove.keep (drove : Drove w cost s) (keeps : Keeps s.board t.board)
    (laps : t.laps = s.laps) : Drove w cost t :=
  ⟨drove.keeps.trans keeps, laps ▸ drove.cost⟩

/-- The calls of a drive, and their honest answers. -/
noncomputable abbrev drives (op : LapCall) : LapAnswer → LapWorld → Option (LapWorld × Option op.Reply) :=
  Program.guarded LapCall.exec (fun _ answer _ => answer.Honest) op

theorem drives_await {op : LapCall} {post : Option op.Reply → LapWorld → Prop}
    (next : ∀ answer t reply, answer.Honest → op.exec answer s = some (t, reply) → post reply t) :
    (Program.await op).Always drives (fun _ _ => True) post s :=
  @Program.Always.await_guarded _ _ _ _ _ _ (fun _ _ => True) s op post trivial next

theorem runLap_always {item : Issue} {prompt stage : Option String}
    {post : Option LapResult → LapWorld → Prop} (drove : Drove w cost s)
    (failed : ∀ t, Drove w cost t → post none t)
    (returned : ∀ r t, Drove w (cost + r.costUsd) t → r.outcome ≠ .humanRequired .boardEmpty →
      post (some r) t) :
    (Program.await (LapCall.runLap item prompt stage)).Always drives (fun _ _ => True) post s := by
  refine drives_await fun answer t reply honest done => ?_
  obtain ⟨board, written, same⟩ := Option.map_eq_some_iff.mp done
  have keeps := drove.keeps.trans (Keeps.writes written)
  cases same
  cases ended : answer.lap with
  | none => exact failed _ ⟨keeps, drove.cost⟩
  | some r =>
      refine returned r _ ⟨keeps, ?_⟩ (honest r ended)
      have total : lapCosts (r :: s.laps) = r.costUsd + lapCosts s.laps := List.sum_cons
      change lapCosts (r :: s.laps) = _
      rw [total, drove.cost, add_comm, add_assoc]

theorem superviseLap_always {item : Issue} {prompt stage : Option String} {attempts : Nat}
    (drove : Drove w (base + cost) s) :
    (superviseLap (Program.await (LapCall.runLap item prompt stage)) attempts cost).Always drives
      (fun _ _ => True) (Driven w base) s := by
  induction attempts generalizing cost s with
  | zero =>
      refine ⟨drove.keeps, ?_⟩
      rintro _ ⟨⟩
      exact ⟨drove, nofun⟩
  | succ attempts ih =>
      refine Program.Always.bind (Program.Always.orElse (Program.Always.bind
        (runLap_always drove (fun t drove => ?_) fun r t drove honest => ?_)))
      · exact ih drove
      · rw [add_assoc] at drove
        dsimp only [Program.pure_eq, Program.Always]
        split
        · refine ⟨drove.keeps, ?_⟩
          rintro _ ⟨⟩
          exact ⟨drove, honest⟩
        · exact ih drove

/-- A call other than a lap changes nothing. -/
theorem read_always {op : LapCall} {post : Option op.Reply → LapWorld → Prop}
    (quiet : ∀ item prompt stage, op ≠ .runLap item prompt stage)
    (next : ∀ reply, post reply s) : (Program.await op).Always drives (fun _ _ => True) post s := by
  refine drives_await fun answer t reply _ done => ?_
  have same : t = s := by
    cases op with
    | runLap item prompt stage => exact absurd rfl (quiet item prompt stage)
    | _ =>
        cases done
        rfl
  exact same ▸ next reply

theorem Drove.failed (drove : Drove w cost s) : Driven w base none s :=
  ⟨drove.keeps, fun _ failed => nomatch failed⟩

theorem Drove.ends {r : LapResult} (drove : Drove w r.costUsd s)
    (honest : r.outcome ≠ .humanRequired .boardEmpty) : Driven w 0 (some r) s := by
  refine ⟨drove.keeps, ?_⟩
  rintro _ ⟨⟩
  exact ⟨(zero_add r.costUsd).symm ▸ drove, honest⟩

theorem completedStage_always {sl : StageLoop} {item : Issue} {stage : String}
    {post : Option (Option String) → LapWorld → Prop} (next : ∀ reply, post reply s) :
    (completedStage sl item stage).Always drives (fun _ _ => True) post s := by
  rw [completedStage]
  split
  · exact read_always (fun _ _ _ same => nomatch same) next
  · exact next _

theorem nextStage_always {item : Issue} {stage : String} {attemptId : Option String}
    {post : Option String → LapWorld → Prop} (next : ∀ reply, post reply s) :
    (nextStage item stage attemptId).Always drives (fun _ _ => True) post s := by
  cases attemptId with
  | none => exact next _
  | some attemptId => exact read_always (fun _ _ _ same => nomatch same) next

theorem stageLaps_always {sl : StageLoop} {maxRetries fuel sameStage : Nat} {item : Issue}
    {stage : String} (drove : Drove w cost s) :
    (stageLaps sl maxRetries item fuel stage cost sameStage).Always drives (fun _ _ => True)
      (Driven w 0) s := by
  induction fuel generalizing stage cost sameStage s with
  | zero => exact drove.failed
  | succ fuel ih =>
      -- the coordinator writes the next stage, and goes on
      have advance : ∀ {cost t next}, Drove w cost t → (do
          Program.await (LapCall.reconcileStage item.id next)
          stageLaps sl maxRetries item fuel next cost 0 : Drive LapResult).Always drives
            (fun _ _ => True) (Driven w 0) t := fun {cost t next} drove => by
        refine Program.Always.bind (read_always (fun _ _ _ same => nomatch same) fun reply => ?_)
        cases reply with
        | none => exact drove.failed
        | some _ => exact ih drove
      rw [stageLaps]
      split
      · exact drove.ends nofun
      · split
        · exact drove.ends nofun
        · refine Program.Always.bind (completedStage_always fun reply => ?_)
          cases reply with
          | none => exact drove.failed
          | some completed =>
              dsimp only
              split
              · exact advance drove
              · refine Program.Always.bind (read_always (fun _ _ _ same => nomatch same) fun reply => ?_)
                cases reply with
                | none => exact drove.failed
                | some sp =>
                    have lapped : Drove w (cost + 0) s := (add_zero cost).symm ▸ drove
                    refine Program.Always.bind ((superviseLap_always lapped).mono ?_)
                    rintro o t ⟨keeps, ended⟩
                    cases o with
                    | none => exact ⟨keeps, fun _ failed => nomatch failed⟩
                    | some res =>
                        obtain ⟨drove, honest⟩ := ended res rfl
                        dsimp only
                        split
                        · exact Drove.ends (r := { res with costUsd := _ }) drove honest
                        · refine Program.Always.bind (nextStage_always fun reply => ?_)
                          cases reply with
                          | none => exact drove.failed
                          | some next =>
                              dsimp only
                              split
                              · split
                                · exact drove.ends nofun
                                · exact ih drove
                              · exact advance drove

/-- What a drive costs is what its laps cost; if its laps do not say that the board is
empty, it does not. -/
theorem driveClaimedItem_always {stageLoop : Option StageLoop} {maxRetries fuel : Nat} {item : Issue} :
    (driveClaimedItem stageLoop maxRetries fuel item).Always drives (fun _ _ => True)
      (Driven w 0) w := by
  have start : Drove w 0 w := ⟨.refl _, (add_zero _).symm⟩
  refine Program.Always.bind (read_always (fun _ _ _ same => nomatch same) fun reply => ?_)
  cases reply with
  | none => exact start.failed
  | some _ =>
      cases stageLoop with
      | none => exact superviseLap_always ((add_zero (0 : ℚ)).symm ▸ start)
      | some sl =>
          refine Program.Always.bind (read_always (fun _ _ _ same => nomatch same) fun reply => ?_)
          cases reply with
          | none => exact start.failed
          | some stage => exact stageLaps_always start

end

end Opensquid.Ralph
