import Mathlib.Data.List.Perm.Subperm
import Opensquid.Packs.CompileV2

/-!
# The loop driver

`runToTerminal` takes a machine of a compiled pack from state to state: an executor is pulled until
its completion guard holds or the progress floor stops it, gates and decisions are evaluated, and a
sub-flow is a run of another machine of the pack. A walk has at most `maxWalk` states, but nothing
bounds how deep flows are nested: a flow that comes to itself never ends (`again_never_ends`).

`driver_ships_lawfully` is about a run in which no flow is started while it is running and every
state that is come to has a name that the engine does not read as a path: it ends, and if it ships
it has gone along declared transitions to a shipped terminal, leaving every state as its kind
demands, in the sub-flows too (`Ships`).

What the driver is given stands in `LoopDeps`, over a world `σ` that the calls change; a call that
throws has no result.
-/

namespace Opensquid.Loop

open Opensquid.Lib Opensquid.Lib.PathText
open Opensquid.Machine Opensquid.Packs

/-! ## The progress floor -/

inductive FloorAction
  | pass | warn | block | halt
  deriving DecidableEq, Repr

structure ToolObservation where
  tool : String
  argsHash : String
  failed : Bool
  idempotentSameResult : Bool
  deriving DecidableEq, Repr

/-- The counters; a key that is not counted is at 0. -/
structure ProgressFloor where
  exact : String → Nat := fun _ => 0
  sameTool : String → Nat := fun _ => 0
  noProgress : String → Nat := fun _ => 0

def ProgressFloor.observe (floor : ProgressFloor) (call : ToolObservation) :
    FloorAction × ProgressFloor :=
  if call.failed then
    let exactN := floor.exact call.argsHash + 1
    let sameN := floor.sameTool call.tool + 1
    (if 8 ≤ sameN then .halt
      else if 5 ≤ exactN then .block
      else if 2 ≤ exactN ∨ 3 ≤ sameN then .warn
      else .pass,
      { exact := Function.update floor.exact call.argsHash exactN
        sameTool := Function.update floor.sameTool call.tool sameN
        noProgress := Function.update floor.noProgress call.argsHash 0 })
  else if call.idempotentSameResult then
    let k := floor.noProgress call.argsHash + 1
    (if 5 ≤ k then .block else if 2 ≤ k then .warn else .pass,
      { floor with noProgress := Function.update floor.noProgress call.argsHash k })
  else (.pass, floor)

/-- The actions of the floor on one call after the other. -/
def ProgressFloor.actions (floor : ProgressFloor) : List ToolObservation → List FloorAction
  | [] => []
  | call :: calls => (floor.observe call).1 :: (floor.observe call).2.actions calls

/-! ## Executors -/

structure InnerStep where
  observation : ToolObservation
  completionGuardHeld : Bool
  deriving DecidableEq, Repr

inductive LoopVerdict
  | continue
  | release
  | break (reason : String)
  deriving DecidableEq, Repr

def evaluateCompletion (completionGuardHeld : Bool) (floorAction : FloorAction) : LoopVerdict :=
  if floorAction = .halt then .break "progress-floor-degenerate"
  else if completionGuardHeld then .release
  else .continue

/-- An executor that gives up some time, whatever the world does. A pull says what step was made,
if it does not give up, and `rest` is the executor after it. -/
inductive Executor (σ : Type)
  | gaveUp
  | pulled (next : StateT σ Option (Option InnerStep)) (rest : σ → Executor σ)

/-- What the driver is given. -/
structure LoopDeps (σ : Type) where
  ensureExecutor : String → StateT σ Option (Executor σ)
  eval : String → StateT σ Option Bool
  makeFloor : StateT σ Option ProgressFloor := pure {}

/-- How the inner loop ends: the verdict that it ends with, none if the executor gives up. -/
def pull {σ : Type} : Executor σ → ProgressFloor → StateT σ Option (Option LoopVerdict)
  | .gaveUp, _ => return none
  | .pulled next rest, floor => do
      match ← next with
      | none => return none
      | some inner =>
          let (floorAction, floor) := floor.observe inner.observation
          match evaluateCompletion inner.completionGuardHeld floorAction with
          | .continue => pull (rest (← get)) floor
          | verdict => return some verdict

section

variable {σ : Type} (deps : LoopDeps σ)

def runExecutor (fsm : Fsm) (state : String) (entry : StateMeta) : StateT σ Option DriverStep := do
  let exec ← deps.ensureExecutor (entry.executor.getD state)
  let floor ← deps.makeFloor
  match ← pull exec floor with
  | some .release => advanceOn fsm state entry none
  | some (.break reason) => return .outcome .wedge (some reason)
  | some .continue | none =>
      return .outcome .wedge (some ("executor '" ++ entry.executor.getD state ++ "' exhausted"))

/-! ## The driver -/

/-- What a run of a machine comes to; none if it is not over within the nesting, and `some none` if
it throws. -/
abbrev Ran (σ α : Type) := Option (Option (α × σ))

/-- The sub-flow has been run. -/
def afterSubFlow (fsm : Fsm) (state : String) (entry : StateMeta) :
    Option (Outcome × σ) → Ran σ DriverStep
  | none => some none
  | some (.shipped, s) => some ((advanceOn fsm state entry none : StateT σ Option DriverStep) s)
  | some (.wedge, s) => some (some (.outcome .wedge
      (some ("sub_flow '" ++ entry.flow.getD state ++ "' wedged")), s))

variable (flows : List (String × CompiledMachine))

/-- One state; `child` runs the machine of a sub-flow. -/
def driverStep (child : CompiledMachine → σ → Ran σ Outcome) (machine : CompiledMachine) (fsm : Fsm)
    (state : String) (s : σ) : Ran σ DriverStep :=
  match machine.entryOf state with
  | none => some none
  | some entry =>
      match entry.kind with
      | .executor => some (runExecutor deps fsm state entry s)
      | .gate => some (evalGate deps.eval fsm state entry s)
      | .decision => some (evalDecision deps.eval fsm state entry s)
      | .terminal => some (some (.outcome (entry.outcome.getD .wedge) none, s))
      | .subFlow =>
          match flows.lookup (entry.flow.getD "") with
          | none => some none
          | some nested => (child nested s).bind (afterSubFlow fsm state entry)

/-- The walk from a state, of so many states at most. -/
def walkFrom (child : CompiledMachine → σ → Ran σ Outcome) (machine : CompiledMachine) (fsm : Fsm) :
    Nat → String → σ → Ran σ Outcome
  | 0, _, s => some (some (.wedge, s))
  | n + 1, cur, s =>
      match driverStep deps flows child machine fsm cur s with
      | none => none
      | some none => some none
      | some (some (.outcome outcome _, s)) => some (some (outcome, s))
      | some (some (.action _ _, s)) => some (some (.wedge, s))
      | some (some (.advance next _, s)) => walkFrom child machine fsm n next s

/-- The backstop. -/
def maxWalk : Nat := 10000

/-- The run of a machine with so many runs inside each other at most. -/
def runToTerminal : Nat → CompiledMachine → σ → Ran σ Outcome
  | 0, _, _ => none
  | depth + 1, machine, s =>
      match machine.fsm with
      | none => some none
      | some fsm => walkFrom deps flows (runToTerminal depth) machine fsm maxWalk fsm.initial s

end

/-! ## What a run comes to -/

section

variable {σ : Type} (deps : LoopDeps σ) (flows : List (String × CompiledMachine))

/-- The state is left for the other one. -/
def Advances (machine : CompiledMachine) (fsm : Fsm) (state : String) (s : σ) (next : String)
    (s' : σ) : Prop :=
  ∃ depth notice, driverStep deps flows (runToTerminal deps flows depth) machine fsm state s =
    some (some (.advance next notice, s'))

/-- The states that the run of a machine comes to, with their number. -/
inductive Visits (machine : CompiledMachine) (fsm : Fsm) (s₀ : σ) : Nat → String → σ → Prop
  | start : Visits machine fsm s₀ 0 fsm.initial s₀
  | next {n : Nat} {state next : String} {s s' : σ} : Visits machine fsm s₀ n state s →
      n < maxWalk → Advances deps flows machine fsm state s next s' →
      Visits machine fsm s₀ (n + 1) next s'

/-- A state that starts a flow. -/
structure StartsFlow (flows : List (String × CompiledMachine)) (machine : CompiledMachine)
    (state : String) (entry : StateMeta) (nested : CompiledMachine) : Prop where
  found : machine.entryOf state = some entry
  kind : entry.kind = .subFlow
  registered : flows.lookup (entry.flow.getD "") = some nested

/-- The runs that a run comes to, with the flows that are running then, the last started first. -/
inductive Nested (root : CompiledMachine) (s₀ : σ) : List String → CompiledMachine → σ → Prop
  | root : Nested root s₀ [] root s₀
  | start {running : List String} {machine nested : CompiledMachine} {fsm : Fsm} {n : Nat}
      {state : String} {entry : StateMeta} {s s' : σ} : Nested root s₀ running machine s →
      machine.fsm = some fsm → Visits deps flows machine fsm s n state s' → n < maxWalk →
      StartsFlow flows machine state entry nested →
      Nested root s₀ (entry.flow.getD "" :: running) nested s'

/-! ## More nesting -/

variable {deps flows} {child child' : CompiledMachine → σ → Ran σ Outcome}
  {machine nested root : CompiledMachine} {fsm : Fsm} {state next : String} {entry : StateMeta}
  {s s' s₀ : σ} {depth depth' n : Nat}

/-- The second run goes on where the first one is not over. -/
def Extends (child child' : CompiledMachine → σ → Ran σ Outcome) : Prop :=
  ∀ machine s r, child machine s = some r → child' machine s = some r

theorem StartsFlow.driverStep_eq (starts : StartsFlow flows machine state entry nested)
    (child : CompiledMachine → σ → Ran σ Outcome) :
    driverStep deps flows child machine fsm state s =
      (child nested s).bind (afterSubFlow fsm state entry) := by
  rw [driverStep, starts.found]
  dsimp only
  rw [starts.kind]
  dsimp only
  rw [starts.registered]

/-- A state starts a flow, or its step is over whatever the nested runs are. -/
theorem startsFlow_or_over (deps : LoopDeps σ) (flows : List (String × CompiledMachine))
    (machine : CompiledMachine) (fsm : Fsm) (state : String) (s : σ) :
    (∃ entry nested, StartsFlow flows machine state entry nested) ∨
      ∃ r, ∀ child, driverStep deps flows child machine fsm state s = some r := by
  unfold driverStep
  cases found : machine.entryOf state with
  | none => exact .inr ⟨none, fun _ => rfl⟩
  | some entry =>
      dsimp only
      cases kind : entry.kind with
      | executor => exact .inr ⟨_, fun _ => rfl⟩
      | gate => exact .inr ⟨_, fun _ => rfl⟩
      | decision => exact .inr ⟨_, fun _ => rfl⟩
      | terminal => exact .inr ⟨_, fun _ => rfl⟩
      | subFlow =>
          cases registered : flows.lookup (entry.flow.getD "") with
          | none => exact .inr ⟨none, fun _ => rfl⟩
          | some nested => exact .inl ⟨entry, nested, found, kind, registered⟩

theorem driverStep_of_extends (extend : Extends child child') {r : Option (DriverStep × σ)}
    (done : driverStep deps flows child machine fsm state s = some r) :
    driverStep deps flows child' machine fsm state s = some r := by
  rcases startsFlow_or_over deps flows machine fsm state s with ⟨entry, nested, starts⟩ | ⟨r', always⟩
  · rw [starts.driverStep_eq] at done ⊢
    obtain ⟨ran, first, rest⟩ := Option.bind_eq_some_iff.mp done
    rw [extend nested s ran first]
    exact rest
  · rw [always] at done ⊢
    exact done

theorem walkFrom_of_extends (extend : Extends child child') {r : Option (Outcome × σ)}
    (done : walkFrom deps flows child machine fsm n state s = some r) :
    walkFrom deps flows child' machine fsm n state s = some r := by
  induction n generalizing state s with
  | zero => exact done
  | succ n ih =>
      unfold walkFrom at done ⊢
      cases stepped : driverStep deps flows child machine fsm state s with
      | none =>
          rw [stepped] at done
          cases done
      | some result =>
          rw [driverStep_of_extends extend stepped]
          rw [stepped] at done
          rcases result with _ | ⟨action | _ | _, _⟩
          · exact done
          · exact ih done
          · exact done
          · exact done

theorem extends_succ :
    Extends (runToTerminal deps flows depth) (runToTerminal deps flows (depth + 1)) := by
  induction depth with
  | zero =>
      intro machine s r done
      cases done
  | succ depth ih =>
      intro machine s r done
      unfold runToTerminal at done ⊢
      cases present : machine.fsm with
      | none =>
          rw [present] at done
          exact done
      | some fsm =>
          rw [present] at done
          exact walkFrom_of_extends ih done

theorem extends_of_le (le : depth ≤ depth') :
    Extends (runToTerminal deps flows depth) (runToTerminal deps flows depth') := by
  induction le with
  | refl => exact fun _ _ _ done => done
  | step _ ih => exact fun machine s r done => extends_succ machine s r (ih machine s r done)

/-! ## The end of a run -/

variable (deps flows) in
/-- The run is over in some nesting: it returns or throws. -/
def Ends (machine : CompiledMachine) (s : σ) : Prop :=
  ∃ depth r, runToTerminal deps flows depth machine s = some r

/-- A step ends if the flow that it may start does. -/
theorem exists_driverStep (children : ∀ entry nested,
      StartsFlow flows machine state entry nested → Ends deps flows nested s) :
    ∃ depth r, driverStep deps flows (runToTerminal deps flows depth) machine fsm state s =
      some r := by
  rcases startsFlow_or_over deps flows machine fsm state s with ⟨entry, nested, starts⟩ | ⟨r, always⟩
  · obtain ⟨depth, ran, done⟩ := children entry nested starts
    obtain ⟨r, after⟩ : ∃ r, afterSubFlow fsm state entry ran = some r := by
      rcases ran with _ | ⟨_ | _, _⟩ <;> exact ⟨_, rfl⟩
    exact ⟨depth, r, by rw [starts.driverStep_eq, done, Option.bind_some, after]⟩
  · exact ⟨0, r, always _⟩

theorem exists_walkFrom {s₀ : σ} (children : ∀ k state s entry nested,
      Visits deps flows machine fsm s₀ k state s → k < maxWalk →
      StartsFlow flows machine state entry nested → Ends deps flows nested s)
    {k : Nat} (whole : k + n = maxWalk) (visited : Visits deps flows machine fsm s₀ k state s) :
    ∃ depth r, walkFrom deps flows (runToTerminal deps flows depth) machine fsm n state s =
      some r := by
  induction n generalizing k state s with
  | zero => exact ⟨0, _, rfl⟩
  | succ n ih =>
      have early : k < maxWalk := by omega
      obtain ⟨depth, r, stepped⟩ := exists_driverStep fun entry nested starts =>
        children k state s entry nested visited early starts
      rcases r with _ | ⟨⟨next, notice⟩ | _ | _, s'⟩
      · exact ⟨depth, none, by rw [walkFrom, stepped]⟩
      · have advances : Advances deps flows machine fsm state s next s' := ⟨depth, notice, stepped⟩
        obtain ⟨depth', r, rest⟩ := ih (by omega) (visited.next early advances)
        refine ⟨max depth depth', r, ?_⟩
        rw [walkFrom, driverStep_of_extends (extends_of_le (le_max_left _ _)) stepped]
        exact walkFrom_of_extends (extends_of_le (le_max_right _ _)) rest
      · exact ⟨depth, _, by rw [walkFrom, stepped]⟩
      · exact ⟨depth, _, by rw [walkFrom, stepped]⟩

theorem ends_of_children (children : ∀ fsm k state s entry nested, machine.fsm = some fsm →
      Visits deps flows machine fsm s₀ k state s → k < maxWalk →
      StartsFlow flows machine state entry nested → Ends deps flows nested s) :
    Ends deps flows machine s₀ := by
  cases present : machine.fsm with
  | none => exact ⟨1, none, by rw [runToTerminal, present]⟩
  | some fsm =>
      obtain ⟨depth, r, walked⟩ := exists_walkFrom
        (fun k state s entry nested => children fsm k state s entry nested present)
        (Nat.zero_add maxWalk) .start
      exact ⟨depth + 1, r, by rw [runToTerminal, present]; exact walked⟩

theorem mem_of_lookup_eq_some {α : Type} {rows : List (String × α)} {key : String} {value : α}
    (found : rows.lookup key = some value) : (key, value) ∈ rows := by
  obtain ⟨before, after, split, -⟩ := List.lookup_eq_some_iff.mp found
  rw [split]
  exact List.mem_append_right _ List.mem_cons_self

theorem Nested.subset {running : List String} (nest : Nested deps flows root s₀ running machine s) :
    running ⊆ flows.map Prod.fst := by
  induction nest with
  | root => exact List.nil_subset _
  | start _ _ _ _ starts ih =>
      exact List.cons_subset.mpr ⟨List.mem_map_of_mem (mem_of_lookup_eq_some starts.registered), ih⟩

theorem Nested.length_le {running : List String}
    (fresh : ∀ running machine s, Nested deps flows root s₀ running machine s → running.Nodup)
    (nest : Nested deps flows root s₀ running machine s) : running.length ≤ flows.length := by
  have short := (List.subperm_of_subset (fresh running machine s nest) nest.subset).length_le
  rwa [List.length_map] at short

/-- As many flows can run inside each other as the pack has. -/
theorem Nested.ends {running : List String}
    (fresh : ∀ running machine s, Nested deps flows root s₀ running machine s → running.Nodup)
    (nest : Nested deps flows root s₀ running machine s) : Ends deps flows machine s := by
  -- by how many flows are not running
  induction room : flows.length - running.length generalizing running machine s with
  | zero =>
      refine ends_of_children fun fsm k state s' entry nested present visited early starts => ?_
      have deeper := nest.start present visited early starts
      have short := deeper.length_le fresh
      rw [List.length_cons] at short
      omega
  | succ c ih =>
      refine ends_of_children fun fsm k state s' entry nested present visited early starts => ?_
      refine ih (nest.start present visited early starts) ?_
      rw [List.length_cons]
      omega

/-! ## Shipping -/

/-- A transition on the event leads from the state, or from any, to the other one. -/
def DeclaredOn (fsm : Fsm) (state event next : String) : Prop :=
  ∃ t ∈ fsm.transitions, (t.from = state ∨ t.from = ANY_STATE) ∧ t.on = some event ∧ t.to = next

/-- The executor makes the steps when it is pulled. -/
inductive Makes : Executor σ → List InnerStep → σ → σ → Prop
  | nil {exec : Executor σ} {s : σ} : Makes exec [] s s
  | cons {next : StateT σ Option (Option InnerStep)} {rest : σ → Executor σ} {inner : InnerStep}
      {steps : List InnerStep} {s s' s'' : σ} : next s = some (some inner, s') →
      Makes (rest s') steps s' s'' → Makes (.pulled next rest) (inner :: steps) s s''

/-- The inner loop ends with a step whose completion guard holds, and the floor does not halt it. -/
def Completes (exec : Executor σ) (floor : ProgressFloor) (s s' : σ) : Prop :=
  ∃ before inner, Makes exec (before ++ [inner]) s s' ∧ inner.completionGuardHeld = true ∧
    FloorAction.halt ∉ floor.actions ((before ++ [inner]).map InnerStep.observation)

variable (deps) in
/-- The event of the first branch whose guard holds. -/
inductive FirstHolding : List DecisionBranch → String → σ → σ → Prop
  | otherwise {emits : String} {rest : List DecisionBranch} {s : σ} :
      FirstHolding (.otherwise emits :: rest) emits s s
  | holds {guard emits : String} {rest : List DecisionBranch} {s s' : σ} :
      deps.eval guard s = some (true, s') → FirstHolding (.guarded guard emits :: rest) emits s s'
  | fails {guard emits event : String} {rest : List DecisionBranch} {s s' s'' : σ} :
      deps.eval guard s = some (false, s') → FirstHolding rest event s' s'' →
      FirstHolding (.guarded guard emits :: rest) event s s''

variable (deps) in
/-- How a state that starts no flow is left, with its event. -/
inductive LeftOn (state : String) (entry : StateMeta) (event : String) : σ → σ → Prop
  | executor {exec : Executor σ} {floor : ProgressFloor} {s s' s'' s''' : σ} :
      entry.kind = .executor → entry.emits = some event →
      deps.ensureExecutor (entry.executor.getD state) s = some (exec, s') →
      deps.makeFloor s' = some (floor, s'') → Completes exec floor s'' s''' →
      LeftOn state entry event s s'''
  | gate {ok : Bool} {s s' : σ} : entry.kind = .gate → entry.emits = some event →
      deps.eval (entry.guard.getD "") s = some (ok, s') →
      ok = true ∨ entry.onFail.map OnFail.action = some .warn → LeftOn state entry event s s'
  | decision {s s' : σ} : entry.kind = .decision →
      FirstHolding deps (entry.branches.getD []) event s s' → LeftOn state entry event s s'

variable (deps flows) in
/-- The machine goes from the state to a shipped terminal along declared transitions, and leaves
every state as its kind demands. -/
inductive Ships : CompiledMachine → String → σ → σ → Prop
  | terminal {machine : CompiledMachine} {state : String} {entry : StateMeta} {s : σ} :
      machine.entryOf state = some entry → entry.kind = .terminal → entry.outcome = some .shipped →
      Ships machine state s s
  | state {machine : CompiledMachine} {fsm : Fsm} {state next event : String} {entry : StateMeta}
      {s s' s'' : σ} : machine.fsm = some fsm → machine.entryOf state = some entry →
      LeftOn deps state entry event s s' → DeclaredOn fsm state event next →
      Ships machine next s' s'' → Ships machine state s s''
  | subFlow {machine nested : CompiledMachine} {fsm inner : Fsm} {state next event : String}
      {entry : StateMeta} {s s' s'' : σ} : machine.fsm = some fsm →
      StartsFlow flows machine state entry nested → nested.fsm = some inner →
      Ships nested inner.initial s s' → entry.emits = some event →
      DeclaredOn fsm state event next → Ships machine next s' s'' → Ships machine state s s''

/-! ### What a step leaves -/

theorem transitionOn_run (fsm : Fsm) (state event : String) (s : σ) :
    (transitionOn fsm state event : StateT σ Option String) s =
      (transitionOn fsm state event : Option String).map fun next => (next, s) := by
  unfold transitionOn
  cases stepFlat fsm state event none with
  | none => rfl
  | some r =>
      dsimp only
      split <;> rfl

theorem lead_run (fsm : Fsm) (state event : String) (note : Option String) (s : σ) :
    (do return .advance (← transitionOn fsm state event) note : StateT σ Option DriverStep) s =
      (transitionOn fsm state event : Option String).map fun next => (.advance next note, s) := by
  change ((transitionOn fsm state event : StateT σ Option String) s).bind _ = _
  rw [transitionOn_run]
  cases (transitionOn fsm state event : Option String) <;> rfl

theorem advanceOn_run (fsm : Fsm) (state : String) (entry : StateMeta) (note : Option String)
    (s : σ) :
    (advanceOn fsm state entry note : StateT σ Option DriverStep) s =
      entry.emits.bind fun event => (transitionOn fsm state event : Option String).map fun next =>
        (.advance next note, s) := by
  unfold advanceOn emitOf
  cases entry.emits with
  | none => rfl
  | some event => exact lead_run fsm state event note s

theorem exists_of_advanceOn {note : Option String} {r : DriverStep × σ}
    (moved : (advanceOn fsm state entry note : StateT σ Option DriverStep) s = some r) :
    ∃ event next, entry.emits = some event ∧ transitionOn fsm state event = some next ∧
      r = (.advance next note, s) := by
  rw [advanceOn_run] at moved
  obtain ⟨event, emits, moved⟩ := Option.bind_eq_some_iff.mp moved
  obtain ⟨next, leads, same⟩ := Option.map_eq_some_iff.mp moved
  exact ⟨event, next, emits, leads, same.symm⟩

theorem completes_of_pull {exec : Executor σ} {floor : ProgressFloor}
    (released : pull exec floor s = some (some .release, s')) : Completes exec floor s s' := by
  induction exec generalizing floor s with
  | gaveUp => cases released
  | pulled next rest ih =>
      rw [pull] at released
      obtain ⟨⟨answer, s₁⟩, made, released⟩ := Option.bind_eq_some_iff.mp released
      cases answer with
      | none => cases released
      | some inner =>
          dsimp only at released
          unfold evaluateCompletion at released
          by_cases halted : (floor.observe inner.observation).1 = .halt
          · rw [if_pos halted] at released
            cases released
          · rw [if_neg halted] at released
            cases held : inner.completionGuardHeld with
            | true =>
                rw [held] at released
                cases released
                refine ⟨[], inner, .cons made .nil, held, ?_⟩
                simpa [ProgressFloor.actions] using Ne.symm halted
            | false =>
                rw [held] at released
                obtain ⟨before, last, steps, holds, running⟩ := ih s₁ released
                refine ⟨inner :: before, last, .cons made steps, holds, ?_⟩
                simp only [List.cons_append, List.map_cons, ProgressFloor.actions, List.mem_cons,
                  not_or]
                exact ⟨Ne.symm halted, running⟩

theorem firstHolding_of_evalBranches {branches : List DecisionBranch} {r : DriverStep × σ}
    (left : (evalBranches deps.eval fsm state branches : StateT σ Option DriverStep) s = some r) :
    ∃ event next, FirstHolding deps branches event s r.2 ∧
      transitionOn fsm state event = some next ∧ r.1 = .advance next none := by
  induction branches generalizing s with
  | nil => cases left
  | cons branch rest ih =>
      cases branch with
      | otherwise emits =>
          obtain ⟨next, leads, rfl⟩ := Option.map_eq_some_iff.mp
            ((lead_run fsm state emits none s).symm.trans left)
          exact ⟨emits, next, .otherwise, leads, rfl⟩
      | guarded guard emits =>
          obtain ⟨⟨ok, s₁⟩, evaluated, left⟩ := Option.bind_eq_some_iff.mp left
          cases ok with
          | true =>
              obtain ⟨next, leads, rfl⟩ := Option.map_eq_some_iff.mp
                ((lead_run fsm state emits none s₁).symm.trans left)
              exact ⟨emits, next, .holds evaluated, leads, rfl⟩
          | false =>
              obtain ⟨event, next, first, leads, same⟩ := ih left
              exact ⟨event, next, .fails evaluated first, leads, same⟩

/-- An executor advances or wedges. -/
theorem runExecutor_cases {r : DriverStep × σ} (kind : entry.kind = .executor)
    (ran : runExecutor deps fsm state entry s = some r) :
    (∃ event next, LeftOn deps state entry event s r.2 ∧ transitionOn fsm state event = some next ∧
      r.1 = .advance next none) ∨ ∃ reason, r.1 = .outcome .wedge reason := by
  obtain ⟨⟨exec, s₁⟩, connected, ran⟩ := Option.bind_eq_some_iff.mp ran
  obtain ⟨⟨floor, s₂⟩, made, ran⟩ := Option.bind_eq_some_iff.mp ran
  obtain ⟨⟨verdict, s₃⟩, pulled, ran⟩ := Option.bind_eq_some_iff.mp ran
  rcases verdict with _ | ⟨_ | _ | reason⟩
  · cases ran
    exact .inr ⟨_, rfl⟩
  · cases ran
    exact .inr ⟨_, rfl⟩
  · obtain ⟨event, next, emits, leads, rfl⟩ := exists_of_advanceOn ran
    have completes := completes_of_pull pulled
    exact .inl ⟨event, next, .executor kind emits connected made completes, leads, rfl⟩
  · cases ran
    exact .inr ⟨_, rfl⟩

/-- A gate advances or acts. -/
theorem evalGate_cases {r : DriverStep × σ} (kind : entry.kind = .gate)
    (ran : (evalGate deps.eval fsm state entry : StateT σ Option DriverStep) s = some r) :
    (∃ event next notice, LeftOn deps state entry event s r.2 ∧
      transitionOn fsm state event = some next ∧ r.1 = .advance next notice) ∨
    ∃ action message, r.1 = .action action message := by
  obtain ⟨⟨ok, s₁⟩, evaluated, ran⟩ := Option.bind_eq_some_iff.mp ran
  cases ok with
  | true =>
      obtain ⟨event, next, emits, leads, rfl⟩ := exists_of_advanceOn ran
      exact .inl ⟨event, next, _, .gate kind emits evaluated (.inl rfl), leads, rfl⟩
  | false =>
      dsimp only at ran
      rw [if_neg Bool.false_ne_true] at ran
      by_cases warns : (entry.onFailAt state).action = .warn
      · rw [if_pos warns] at ran
        obtain ⟨event, next, emits, leads, rfl⟩ := exists_of_advanceOn ran
        have declared : entry.onFail.map OnFail.action = some .warn := by
          unfold StateMeta.onFailAt at warns
          cases onFail : entry.onFail with
          | none =>
              rw [onFail] at warns
              cases warns
          | some onFail' =>
              rw [onFail] at warns
              exact congrArg some warns
        exact .inl ⟨event, next, _, .gate kind emits evaluated (.inr declared), leads, rfl⟩
      · rw [if_neg warns] at ran
        cases ran
        exact .inr ⟨_, _, rfl⟩

/-- What a step does: it ends the run at a terminal or short of one, or it goes to another state. -/
inductive Stepped (deps : LoopDeps σ) (flows : List (String × CompiledMachine)) (depth : Nat)
    (machine : CompiledMachine) (fsm : Fsm) (state : String) (s : σ) : DriverStep × σ → Prop
  | terminal {entry : StateMeta} : machine.entryOf state = some entry → entry.kind = .terminal →
      Stepped deps flows depth machine fsm state s
        (.outcome (entry.outcome.getD .wedge) none, s)
  | wedged {reason : Option String} {s' : σ} :
      Stepped deps flows depth machine fsm state s (.outcome .wedge reason, s')
  | action {action : FailAction} {message : String} {s' : σ} :
      Stepped deps flows depth machine fsm state s (.action action message, s')
  | left {entry : StateMeta} {event next : String} {notice : Option String} {s' : σ} :
      machine.entryOf state = some entry → LeftOn deps state entry event s s' →
      transitionOn fsm state event = some next →
      Stepped deps flows depth machine fsm state s (.advance next notice, s')
  | shipped {entry : StateMeta} {nested : CompiledMachine} {event next : String} {s' : σ} :
      StartsFlow flows machine state entry nested →
      runToTerminal deps flows depth nested s = some (some (.shipped, s')) →
      entry.emits = some event → transitionOn fsm state event = some next →
      Stepped deps flows depth machine fsm state s (.advance next none, s')

theorem stepped {r : DriverStep × σ}
    (done : driverStep deps flows (runToTerminal deps flows depth) machine fsm state s =
      some (some r)) : Stepped deps flows depth machine fsm state s r := by
  unfold driverStep at done
  cases found : machine.entryOf state with
  | none =>
      rw [found] at done
      cases done
  | some entry =>
      rw [found] at done
      dsimp only at done
      obtain ⟨taken, s'⟩ := r
      cases kind : entry.kind <;> rw [kind] at done <;> dsimp only at done
      · rcases runExecutor_cases kind (Option.some.inj done) with
          ⟨event, next, left, leads, same⟩ | ⟨reason, same⟩
        · cases same
          exact .left found left leads
        · cases same
          exact .wedged
      · rcases evalGate_cases kind (Option.some.inj done) with
          ⟨event, next, notice, left, leads, same⟩ | ⟨action, message, same⟩
        · cases same
          exact .left found left leads
        · cases same
          exact .action
      · obtain ⟨event, next, first, leads, same⟩ :=
          firstHolding_of_evalBranches (Option.some.inj done)
        cases same
        exact .left found (.decision kind first) leads
      · split at done
        · cases done
        · rename_i nested registered
          obtain ⟨ran, runs, after⟩ := Option.bind_eq_some_iff.mp done
          rcases ran with _ | ⟨_ | _, s₁⟩
          · cases after
          · obtain ⟨event, next, emits, leads, same⟩ := exists_of_advanceOn (Option.some.inj after)
            cases same
            exact .shipped ⟨found, kind, registered⟩ runs emits leads
          · cases after
            exact .wedged
      · cases done
        exact .terminal found kind

/-! ### From the steps to the run -/

theorem declaredOn_of_transitionOn {event : String} (valid : validateFsm fsm = [])
    (plain : PATH_SEP ∉ state.toList) (named : next ≠ "")
    (leads : transitionOn fsm state event = some next) : DeclaredOn fsm state event next := by
  rw [transitionOn_eq valid] at leads
  obtain ⟨t, taken, leads⟩ := Option.bind_eq_some_iff.mp leads
  split at leads
  · exact absurd (Option.some.inj leads).symm named
  · split at leads
    · cases leads
    · rw [takenTransition_eq] at taken
      obtain ⟨⟨t', i⟩, fires, rfl⟩ := Option.map_eq_some_iff.mp taken
      obtain ⟨passes, at_i⟩ := firstTransition_some fires
      obtain ⟨on, -, -⟩ := of_decide_eq_true passes
      have source := source_of_enabled plain passes
      exact ⟨t', List.mem_of_getElem? at_i, source, on, Option.some.inj leads⟩

/-- The engine reads the name as that of one state. -/
def PlainName (state : String) : Prop := state ≠ "" ∧ PATH_SEP ∉ state.toList

instance (state : String) : Decidable (PlainName state) := inferInstanceAs (Decidable (_ ∧ _))

theorem ships_of_walkFrom {s₀ : σ} (present : machine.fsm = some fsm) (valid : validateFsm fsm = [])
    (plain : ∀ k state s, Visits deps flows machine fsm s₀ k state s → PlainName state)
    (children : ∀ k state s entry nested s', Visits deps flows machine fsm s₀ k state s →
      k < maxWalk → StartsFlow flows machine state entry nested →
      runToTerminal deps flows depth nested s = some (some (.shipped, s')) →
      ∃ inner, nested.fsm = some inner ∧ Ships deps flows nested inner.initial s s')
    {k : Nat} (whole : k + n = maxWalk) (visited : Visits deps flows machine fsm s₀ k state s)
    (ships : walkFrom deps flows (runToTerminal deps flows depth) machine fsm n state s =
      some (some (.shipped, s'))) : Ships deps flows machine state s s' := by
  induction n generalizing k state s with
  | zero => cases ships
  | succ n ih =>
      have early : k < maxWalk := by omega
      rw [walkFrom] at ships
      rcases done : driverStep deps flows (runToTerminal deps flows depth) machine fsm state s with
        _ | _ | ⟨r, s₁⟩ <;> rw [done] at ships
      · cases ships
      · cases ships
      · cases stepped done with
        | @terminal entry found kind =>
            obtain ⟨outcome, rfl⟩ := Prod.mk.inj (Option.some.inj (Option.some.inj ships))
            cases declared : entry.outcome with
            | none =>
                rw [declared] at outcome
                cases outcome
            | some outcome' =>
                rw [declared] at outcome
                exact .terminal found kind (declared.trans (congrArg some outcome))
        | wedged => cases ships
        | action => cases ships
        | left found left leads =>
            have onward := visited.next early ⟨depth, _, done⟩
            have named := (plain _ _ _ onward).1
            have single := (plain k state s visited).2
            have declared := declaredOn_of_transitionOn valid single named leads
            exact .state present found left declared (ih (by omega) onward ships)
        | shipped starts runs emits leads =>
            have onward := visited.next early ⟨depth, _, done⟩
            have named := (plain _ _ _ onward).1
            have single := (plain k state s visited).2
            have declared := declaredOn_of_transitionOn valid single named leads
            obtain ⟨inner, own, lawful⟩ := children k state s _ _ _ visited early starts runs
            exact .subFlow present starts own lawful emits declared (ih (by omega) onward ships)

variable {pack : PackV2} {compiled : CompiledPack}

theorem Nested.mem_machines {running : List String} {flows : List (String × CompiledMachine)}
    (registry : flows = compiled.flows.getD [])
    (nest : Nested deps flows compiled.machine s₀ running machine s) :
    machine ∈ compiled.machines := by
  cases nest with
  | root => exact List.mem_cons_self
  | start _ _ _ _ starts =>
      rw [registry] at starts
      exact List.mem_cons_of_mem _ (List.mem_map_of_mem (mem_of_lookup_eq_some starts.registered))

theorem ships_of_runToTerminal (accepted : compilePackV2 pack = .ok compiled)
    {flows : List (String × CompiledMachine)} (registry : flows = compiled.flows.getD [])
    (plain : ∀ running machine s fsm k state s',
      Nested deps flows compiled.machine s₀ running machine s → machine.fsm = some fsm →
      Visits deps flows machine fsm s k state s' → PlainName state)
    {running : List String} (nest : Nested deps flows compiled.machine s₀ running machine s)
    (ships : runToTerminal deps flows depth machine s = some (some (.shipped, s'))) :
    ∃ fsm, machine.fsm = some fsm ∧ Ships deps flows machine fsm.initial s s' := by
  induction depth generalizing running machine s s' with
  | zero => cases ships
  | succ depth ih =>
      cases present : machine.fsm with
      | none =>
          rw [runToTerminal, present] at ships
          cases ships
      | some fsm =>
          rw [runToTerminal, present] at ships
          obtain ⟨source, made⟩ := exists_source accepted (nest.mem_machines registry) present
          have same : source.engine = fsm := Option.some.inj (made.fsm.symm.trans present)
          refine ⟨fsm, rfl, ships_of_walkFrom present (same ▸ made.valid)
            (fun k state s' => plain running machine s fsm k state s' nest present) ?_
            (Nat.zero_add maxWalk) .start ships⟩
          intro k state s₁ entry nested s₂ visited early starts runs
          exact ih (nest.start present visited early starts) runs

/-- The registry that all machines of the pack share. -/
def registry (compiled : CompiledPack) : List (String × CompiledMachine) :=
  compiled.flows.getD []

/-- No flow is started while it is running, and every state that is come to has a plain name. -/
structure Straight (deps : LoopDeps σ) (compiled : CompiledPack) (s₀ : σ) : Prop where
  fresh : ∀ running machine s,
    Nested deps (registry compiled) compiled.machine s₀ running machine s → running.Nodup
  plain : ∀ running machine s fsm k state s',
    Nested deps (registry compiled) compiled.machine s₀ running machine s →
    machine.fsm = some fsm →
    Visits deps (registry compiled) machine fsm s k state s' → PlainName state

/-! ## Packs whose runs are straight -/

/-- Every flow starts flows of lower rank only. -/
def Ordered (flows : List (String × CompiledMachine)) (rank : String → Nat) : Prop :=
  ∀ flow ∈ flows, ∀ row ∈ flow.2.entries, row.2.kind = .subFlow →
    rank (row.2.flow.getD "") < rank flow.1

instance (flows : List (String × CompiledMachine)) (rank : String → Nat) :
    Decidable (Ordered flows rank) :=
  inferInstanceAs (Decidable (∀ flow ∈ flows, ∀ row ∈ flow.2.entries, row.2.kind = .subFlow →
    rank (row.2.flow.getD "") < rank flow.1))

theorem Nested.sorted {flows : List (String × CompiledMachine)} {rank : String → Nat}
    (ordered : Ordered flows rank) {running : List String}
    (nest : Nested deps flows root s₀ running machine s) :
    running.Pairwise (fun a b => rank a < rank b) ∧
      ∀ name ∈ running.head?, flows.lookup name = some machine := by
  induction nest with
  | root => exact ⟨List.Pairwise.nil, fun _ mem => by cases mem⟩
  | @start running machine nested fsm n state entry s s' _ _ _ _ starts ih =>
      obtain ⟨sorted, current⟩ := ih
      refine ⟨List.pairwise_cons.mpr ⟨fun name mem => ?_, sorted⟩, fun name head => ?_⟩
      · cases running with
        | nil => cases mem
        | cons first rest =>
            have lower := ordered (first, machine) (mem_of_lookup_eq_some (current first rfl))
              (state, entry) (mem_of_lookup_eq_some starts.found) starts.kind
            rcases List.mem_cons.mp mem with rfl | outer
            · exact lower
            · exact lower.trans ((List.pairwise_cons.mp sorted).1 name outer)
      · cases head
        exact starts.registered

theorem Visits.mem_states {flows : List (String × CompiledMachine)} {k : Nat}
    (valid : validateFsm fsm = []) (plain : Plain fsm)
    (visited : Visits deps flows machine fsm s₀ k state s) : state ∈ fsm.states := by
  induction visited with
  | start => exact initial_mem valid
  | next _ _ advances ih =>
      obtain ⟨depth, notice, done⟩ := advances
      cases stepped done with
      | left _ _ leads => exact (transitionOn_declared valid plain ih leads).2.2
      | shipped _ _ _ leads => exact (transitionOn_declared valid plain ih leads).2.2

/-- Whatever the driver is given, where the flows can be ordered and no state is called like a
path. -/
theorem straight_of_ordered (deps : LoopDeps σ) (s₀ : σ)
    (accepted : compilePackV2 pack = .ok compiled) (rank : String → Nat)
    (ordered : Ordered (registry compiled) rank)
    (plain : ∀ machine ∈ compiled.machines, ∀ fsm ∈ machine.fsm, ∀ state ∈ fsm.states,
      PlainName state) : Straight deps compiled s₀ where
  fresh running machine s nest := (nest.sorted ordered).1.imp fun lower same =>
    absurd (congrArg rank same) lower.ne
  plain running machine s fsm k state s' nest present visited := by
    have mem := nest.mem_machines rfl
    obtain ⟨source, made⟩ := exists_source accepted mem present
    have same : source.engine = fsm := Option.some.inj (made.fsm.symm.trans present)
    have names := plain machine mem fsm present
    have plain : Plain fsm := fun name known => (names name known).2
    exact names state (visited.mem_states (same ▸ made.valid) plain)

/-! ## The run of a pack -/

/-- A run in which no flow runs inside itself and no state is called like a path ends, and ships
only as its machines say. -/
theorem driver_ships_lawfully (accepted : compilePackV2 pack = .ok compiled)
    (straight : Straight deps compiled s₀) :
    Ends deps (registry compiled) compiled.machine s₀ ∧
      ∀ depth s', runToTerminal deps (registry compiled) depth compiled.machine s₀ =
        some (some (.shipped, s')) → ∃ fsm, compiled.machine.fsm = some fsm ∧
          Ships deps (registry compiled) compiled.machine fsm.initial s₀ s' := by
  refine ⟨Nested.ends straight.fresh .root, fun depth s' ships => ?_⟩
  exact ships_of_runToTerminal accepted rfl straight.plain .root ships

end

/-- Every guard holds, and there is no executor. -/
def greenDeps : LoopDeps Unit where
  ensureExecutor := fun _ _ => none
  eval := fun _ s => some (true, s)

theorem driver_ships_lawfully_review : ∃ compiled, compilePackV2 reviewPack = .ok compiled ∧
    Ends greenDeps (registry compiled) compiled.machine () ∧
      ∃ fsm, compiled.machine.fsm = some fsm ∧
        Ships greenDeps (registry compiled) compiled.machine fsm.initial () () := by
  have accepted : compilePackV2 reviewPack = .ok _ := rfl
  refine ⟨_, accepted, ?_⟩
  have straight := straight_of_ordered greenDeps () accepted (fun _ => 0) (by decide +kernel)
    (by decide +kernel)
  obtain ⟨ends, lawful⟩ := driver_ships_lawfully accepted straight
  exact ⟨ends, lawful 2 () rfl⟩

/-- A flow that starts itself. It waits for a guard first, so that it is the heap that grows and
not the stack. -/
def againFsm : FsmV2 :=
  { initial := "check"
    states := [("check", .gate "green" none "go" ⟨.block, "stop"⟩),
      ("again", .subFlow "again" "done"), ("end", .terminal .shipped)]
    transitions := [{ «from» := "check", on := some "go", «to» := "again" },
      { «from» := "again", on := some "done", «to» := "end" }] }

def againPack : PackV2 :=
  { name := "again", fsm := some againFsm, flows := some [("again", againFsm)]
    guards := [("green", "tests.green")] }

def againMachine : CompiledMachine :=
  { fsm := some againFsm.engine
    entries := againFsm.states.map fun (name, state) => (name, state.entry)
    guardExprs := [("green", "tests.green")] }

/-- The flow passes its gate and comes to itself. -/
theorem walkFrom_again (child : CompiledMachine → Unit → Ran Unit Outcome)
    (unended : child againMachine () = none) :
    walkFrom greenDeps [("again", againMachine)] child againMachine againFsm.engine (9998 + 1 + 1)
      "check" () = none := by
  have starts : StartsFlow [("again", againMachine)] againMachine "again"
      (StateV2.subFlow "again" "done").entry againMachine := ⟨rfl, rfl, rfl⟩
  have passes : driverStep greenDeps [("again", againMachine)] child againMachine againFsm.engine
      "check" () = some (some (.advance "again" none, ())) := rfl
  have stuck : driverStep greenDeps [("again", againMachine)] child againMachine againFsm.engine
      "again" () = none := by
    rw [starts.driverStep_eq, unended, Option.bind_none]
  rw [walkFrom, passes]
  dsimp only
  rw [walkFrom, stuck]

/-- It compiles, and its run is over in no nesting. -/
theorem again_never_ends : ∃ compiled, compilePackV2 againPack = .ok compiled ∧
    ¬ Ends greenDeps (registry compiled) compiled.machine () := by
  refine ⟨⟨againMachine, some [("again", againMachine)]⟩, rfl, fun ended => ?_⟩
  obtain ⟨depth, r, done⟩ := ended
  have never (depth : Nat) :
      runToTerminal greenDeps [("again", againMachine)] depth againMachine () = none := by
    induction depth with
    | zero => rfl
    | succ depth ih => exact walkFrom_again _ ih
  cases (never depth).symm.trans done

/-- Two names, one of them read as a path below the other. -/
def nestedNamePack : PackV2 :=
  { name := "nested names"
    fsm := some
      { initial := "ship/it"
        states := [("ship", .terminal .wedge), ("done", .terminal .shipped),
          ("ship/it", .gate "green" none "go" ⟨.block, "stop"⟩)]
        transitions := [{ «from» := "ship", on := some "go", «to» := "done" }] }
    guards := [("green", "tests.green")] }

/-- It ships along a transition that leads from another state. -/
example : ∃ compiled, compilePackV2 nestedNamePack = .ok compiled ∧
    runToTerminal greenDeps (registry compiled) 1 compiled.machine () =
      some (some (.shipped, ())) :=
  ⟨_, rfl, rfl⟩

end Opensquid.Loop
