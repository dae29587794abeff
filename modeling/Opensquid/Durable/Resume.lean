import Opensquid.Durable.Together
import Mathlib.Data.Fintype.EquivFin

/-!
# Resuming an interrupted process

`evaluateProcess` is called again on what an interrupted call left in the store. The
resumed call ends like an uninterrupted one, for every process, exactly if the durable
outputs of the registry are unharmed and nothing can tell the values of the two calls
apart (`resume_eq_uninterrupted_iff`). That both are needed is shown by one more step after
those that led the calls there.

The condition fails on an output that has the shape of a buffer envelope, which comes back
as a buffer although plain JSON should pass through unchanged (`envelope_resume_differs`),
and on an output that is an object of the bindings, which comes back as another one
(`alias_resume_differs`).
-/

namespace Opensquid.Durable

section

variable {ρ : Type} (engine : Engine ρ) (registry : FunctionRegistry engine)
  (steps : List ProcessStep) (bindings : Bindings ρ) (runId : String)

/-- The stores that interrupted calls leave behind: each call is cut off after any
number of its writes, all of them when it ended by itself. -/
inductive Interrupted (fresh : CheckpointStore) : CheckpointStore → Prop
  | fresh : Interrupted fresh fresh
  | cut {store : CheckpointStore} (written : Nat) : Interrupted fresh store →
      Interrupted fresh
        (((evaluateProcess engine registry runId steps bindings store).writes.take written).foldl
          CheckpointStore.append store)

/-- The call on `store` ends like the call on `fresh` and invokes no durable
primitive again whose completed row has the same inputs hash. -/
structure ResumesExactly (fresh store : CheckpointStore) : Prop where
  result : (evaluateProcess engine registry runId steps bindings store).result =
    (evaluateProcess engine registry runId steps bindings fresh).result
  finals : engine.contentsOf (evaluateProcess engine registry runId steps bindings store).bindings =
    engine.contentsOf (evaluateProcess engine registry runId steps bindings fresh).bindings
  invocations :
    ∀ invocation ∈ (evaluateProcess engine registry runId steps bindings store).invocations,
      registry.durable invocation.fn = true →
      ∀ row ∈ store.fetchRun runId, row.stepIdx = invocation.stepIdx → row.status = .completed →
        row.inputsHash ≠ engine.inputsHash invocation.fn invocation.args

end

section

variable {ρ : Type} {engine : Engine ρ} {registry : FunctionRegistry engine}
  {steps : List ProcessStep} {bindings : Bindings ρ} {runId : String} {fresh store : CheckpointStore}

/-- A call that invokes a durable primitive found no completed row with its hash. -/
theorem checkpointHit_eq_none_of_mem_invoke {i : Nat} {step : ProcessStep}
    {prior : Option CheckpointRow} {invocation : Invocation}
    (member : invocation ∈ (invoke engine registry runId i step bindings prior).invocations)
    (durable : registry.durable invocation.fn = true) :
    invocation.stepIdx = i ∧
      checkpointHit prior (engine.inputsHash invocation.fn invocation.args) = none := by
  simp only [invoke, invokeDurable] at member
  split at member
  · split at member
    · cases member
    · rename_i miss
      rw [List.mem_singleton.mp member]
      exact ⟨rfl, miss⟩
  · rename_i other
    rw [List.mem_singleton.mp member] at durable
    exact absurd durable other

theorem checkpointHit_eq_none_of_mem_evalSteps {prior : Nat → Option CheckpointRow} {i : Nat}
    {invocation : Invocation}
    (member : invocation ∈ (evalSteps engine registry runId prior i steps bindings).invocations)
    (durable : registry.durable invocation.fn = true) :
    checkpointHit (prior invocation.stepIdx)
      (engine.inputsHash invocation.fn invocation.args) = none := by
  induction steps generalizing i bindings with
  | nil => cases member
  | cons step rest ih =>
      rw [evalSteps] at member
      split at member
      · exact ih member
      · simp only at member
        split at member
        · simp only [Run.after, List.append_nil] at member
          obtain ⟨idx, miss⟩ := checkpointHit_eq_none_of_mem_invoke member durable
          rwa [idx]
        · rcases List.mem_append.mp member with head | tail
          · obtain ⟨idx, miss⟩ := checkpointHit_eq_none_of_mem_invoke head durable
            rwa [idx]
          · exact ih tail

theorem evaluateProcess_fresh (unwritten : fresh.fetchRun runId = []) :
    evaluateProcess engine registry runId steps bindings fresh =
      evalSteps engine registry runId noPrior 0 steps bindings := by
  have none : fresh.loadCheckpointMap runId = noPrior := by
    funext i
    rw [CheckpointStore.loadCheckpointMap, unwritten]
    rfl
  rw [evaluateProcess, none]

/-- What is read back of a write stands for whatever the write stands for. -/
theorem Alike.restored (unharmed : OutputsUnharmed engine registry) {j : Nat} {step : ProcessStep}
    {b : Bindings ρ} {write : CheckpointRow} (durable : registry.durable step.call = true)
    (alike : Alike (stepRow engine registry runId j step b) write) :
    Alike (CheckpointStore.restored (stepRow engine registry runId j step b)) write := by
  refine ⟨alike.fn, alike.status, alike.inputsHash, fun complete => ?_⟩
  have spec := checkpointWrite_spec engine runId j step
    (interpolateArgs engine b (step.args.getD [])) (registry.dispatch step b)
  obtain ⟨value, ok⟩ := spec.2.2.2.2.2.mp (alike.status.trans complete)
  have named : write.fn = step.call := alike.fn.symm.trans spec.2.2.1
  have read := alike.outputs complete
  have outputs : (stepRow engine registry runId j step b).outputs = engine.contents value := by
    rw [stepRow, ok]
    rfl
  rw [outputs, named] at read
  rw [CheckpointStore.restored, outputs, named, ← read]
  exact (reading_restore_iff (registry.plain durable ok)).mpr
    (unharmed step.call (step.args.getD []) b value durable ok)

/-- What an interrupted call writes, cut off anywhere, leaves the rows of more steps. -/
theorem Left.append {writes ws : List CheckpointRow} {m : Nat}
    (left : Left writes m (store.loadCheckpointMap runId)) (mine : ∀ w ∈ ws, w.runId = runId)
    (increasing : ws.Pairwise fun w later => w.stepIdx < later.stepIdx)
    (alike : ∀ w ∈ ws, ∀ write ∈ writes, w.stepIdx = write.stepIdx →
      Alike (CheckpointStore.restored w) write)
    (covers : ∀ write ∈ writes, m ≤ write.stepIdx → ∃ w ∈ ws, w.stepIdx = write.stepIdx)
    (written : Nat) :
    ∃ m', Left writes m'
      (((ws.take written).foldl CheckpointStore.append store).loadCheckpointMap runId) := by
  rcases List.eq_nil_or_concat (ws.take written) with none | ⟨init, last, split⟩
  · rw [none]
    exact ⟨m, left⟩
  · rw [List.concat_eq_append] at split
    have whole : ws = (init ++ [last]) ++ ws.drop written := by
      rw [← split, List.take_append_drop]
    have kept : ∀ w ∈ init ++ [last], w ∈ ws := fun w mem =>
      List.mem_of_mem_take (split.symm ▸ mem)
    have takenMine : ∀ w ∈ init ++ [last], w.runId = runId := fun w mem => mine w (kept w mem)
    have takenIncreasing := (whole ▸ increasing).sublist (List.sublist_append_left (init ++ [last]) _)
    have atMost : ∀ w ∈ init ++ [last], w.stepIdx ≤ last.stepIdx := by
      intro w mem
      rcases List.mem_append.mp mem with before | here
      · exact ((List.pairwise_append.mp takenIncreasing).2.2 w before last
          (List.mem_singleton_self last)).le
      · rw [List.mem_singleton.mp here]
    rw [split]
    refine ⟨max m (last.stepIdx + 1), fun write mem below => ?_, fun j above => ?_⟩
    · by_cases again : ∃ w ∈ init ++ [last], w.stepIdx = write.stepIdx
      · obtain ⟨w, taken, place⟩ := again
        refine ⟨CheckpointStore.restored w, ?_, alike w (kept w taken) write mem place⟩
        rw [← place]
        exact CheckpointStore.loadCheckpointMap_foldl_of_mem takenMine takenIncreasing taken
      · have before : write.stepIdx < m := by
          by_contra above
          obtain ⟨w, found, place⟩ := covers write mem (not_lt.mp above)
          rw [whole] at found
          rcases List.mem_append.mp found with taken | dropped
          · exact again ⟨w, taken, place⟩
          · have later := (List.pairwise_append.mp (whole ▸ increasing)).2.2 last
              (List.mem_append_right _ (List.mem_singleton_self last)) w dropped
            omega
        rw [CheckpointStore.loadCheckpointMap_foldl_of_ne takenMine fun w taken place =>
          again ⟨w, taken, place⟩]
        exact left.rows write mem before
    · rw [CheckpointStore.loadCheckpointMap_foldl_of_ne takenMine fun w taken place => by
        have := atMost w taken
        omega]
      exact left.rest j (by omega)

theorem Fresh.together {m : Nat} :
    Together engine registry Fresh (decide (0 < m)) 0 bindings bindings := by
  have start : Together engine registry Fresh true 0 bindings bindings := .start ⟨rfl, rfl, rfl⟩
  by_cases some : 0 < m
  · rwa [decide_eq_true some]
  · rw [decide_eq_false some]
    exact start.cut

/-- Interrupted calls leave the rows of the uninterrupted call, up to some step. -/
theorem Interrupted.left (cannotTell : CannotTell engine registry Fresh)
    (unharmed : OutputsUnharmed engine registry) (unwritten : fresh.fetchRun runId = [])
    (interrupted : Interrupted engine registry steps bindings runId fresh store) :
    ∃ m, Left (evalSteps engine registry runId noPrior 0 steps bindings).writes m
      (store.loadCheckpointMap runId) := by
  induction interrupted with
  | fresh =>
      refine ⟨0, fun _ _ below => absurd below (Nat.not_lt_zero _), fun j _ => ?_⟩
      rw [CheckpointStore.loadCheckpointMap, unwritten]
      rfl
  | cut written _ ih =>
      obtain ⟨m, left⟩ := ih
      obtain ⟨_, _, follows⟩ := evalSteps_eq cannotTell keptBySet_eq Fresh.together rfl left
      refine left.append (fun w mem => (mine_of_mem mem).1) pairwise_writes ?_ follows.covers written
      intro w mem write mem' place
      have alike := follows.alike w mem write mem' place
      obtain ⟨j, step, b, _, _, durable, rfl⟩ := exists_stepRow mem
      exact alike.restored unharmed durable

theorem Interrupted.resumesExactly (cannotTell : CannotTell engine registry Fresh)
    (unharmed : OutputsUnharmed engine registry) (unwritten : fresh.fetchRun runId = [])
    (interrupted : Interrupted engine registry steps bindings runId fresh store) :
    ResumesExactly engine registry steps bindings runId fresh store := by
  obtain ⟨m, left⟩ := interrupted.left cannotTell unharmed unwritten
  obtain ⟨result, finals, -⟩ := evalSteps_eq cannotTell keptBySet_eq Fresh.together rfl left
  refine ⟨?_, ?_, ?_⟩
  · rw [evaluateProcess_fresh unwritten]
    exact result
  · rw [evaluateProcess_fresh unwritten]
    exact finals.symm
  · intro invocation member durable row found idx complete hash
    have miss := checkpointHit_eq_none_of_mem_evalSteps member durable
    rw [CheckpointStore.loadCheckpointMap_eq_some_iff.mpr ⟨found, idx⟩] at miss
    simp only [checkpointHit, Option.bind_some, if_pos (And.intro complete hash)] at miss
    cases miss

end

/-! ## The condition is necessary -/

/-! ### Probes -/

section

variable {ρ : Type} {engine : Engine ρ}

/-- A step that calls the primitive and binds its value. -/
def probe (name fn : String) (args : List (String × Value)) : ProcessStep :=
  { call := fn, args := some args, as := some name }

/-- A step under a condition that leaves a trace whenever it is executed. -/
def guarded (name expr : String) : ProcessStep :=
  { call := "probe", as := some name, «if» := some expr, onError := some .continue }

/-- What a run shows of a step that binds the name. -/
def Run.trace (engine : Engine ρ) (name : String) (run : Run ρ) : RuleResult × Option Value :=
  (run.result, Value.get name (engine.contentsOf run.bindings))

/-- What a probe shows of a reading. -/
def Reading.seen (i : Nat) : Reading → RuleResult × Option Value
  | .failed message => (.error message i, none)
  | .returned result => (result, none)
  | .given v => (.noVerdict, some v)

theorem returned_ne {fn : String} {outcome : Except String Value} {result : RuleResult}
    (returned : reading fn outcome = .returned result) :
    result ≠ .noVerdict ∧ ∀ message i, result ≠ .error message i := by
  cases outcome with
  | error message => cases returned
  | ok v =>
      rw [reading] at returned
      split at returned
      · rw [← Reading.returned.inj returned, verdictResult]
        split
        · exact ⟨fun same => (by cases same), fun _ _ same => (by cases same)⟩
        · exact ⟨fun same => (by cases same), fun _ _ same => (by cases same)⟩
      · split at returned
        · rw [← Reading.returned.inj returned]
          exact ⟨fun same => (by cases same), fun _ _ same => (by cases same)⟩
        · cases returned

theorem reading_eq_of_seen {fn : String} {outcome outcome' : Except String Value} {i : Nat}
    (same : (reading fn outcome).seen i = (reading fn outcome').seen i) :
    reading fn outcome = reading fn outcome' := by
  cases read : reading fn outcome with
  | failed message =>
      cases read' : reading fn outcome' with
      | failed message' =>
          rw [read, read'] at same
          cases same
          rfl
      | returned result =>
          rw [read, read'] at same
          exact absurd (congrArg Prod.fst same).symm ((returned_ne read').2 message i)
      | given v =>
          rw [read, read'] at same
          cases congrArg Prod.fst same
  | returned result =>
      cases read' : reading fn outcome' with
      | failed message' =>
          rw [read, read'] at same
          exact absurd (congrArg Prod.fst same) ((returned_ne read).2 message' i)
      | returned result' =>
          rw [read, read'] at same
          exact congrArg _ (congrArg Prod.fst same)
      | given v =>
          rw [read, read'] at same
          cases congrArg Prod.snd same
  | given v =>
      cases read' : reading fn outcome' with
      | failed message' =>
          rw [read, read'] at same
          cases congrArg Prod.fst same
      | returned result' =>
          rw [read, read'] at same
          cases congrArg Prod.snd same
      | given v' =>
          rw [read, read'] at same
          exact congrArg _ (Option.some.inj (congrArg Prod.snd same))

variable {registry : FunctionRegistry engine} {runId : String}
  {prior : Nat → Option CheckpointRow} {i : Nat} {bindings : Bindings ρ} {name : String}

/-- The one step of a run, when it binds a new name. -/
theorem trace_single {step : ProcessStep} (executed : skipped engine step bindings = false)
    (named : step.as = some name) (new : Value.get name bindings = none) :
    let call := invoke engine registry runId i step bindings (prior i)
    let run := evalSteps engine registry runId prior i [step] bindings
    run.writes = call.writes ∧
      run.trace engine name =
        (settle i step (engine.reading step.call call.result)).elim
          (.noVerdict, some (engine.reading step.call call.result).bound)
          fun ended => (ended, none) := by
  have unbound : Value.get name (engine.contentsOf bindings) = none := by
    rw [get_contentsOf, new]
    rfl
  intro call run
  have next := afterCall_eq engine i step bindings call.result
  cases settled : settle i step (engine.reading step.call call.result) with
  | some ended =>
      rw [settled] at next
      rw [show run = _ from evalSteps_done executed next]
      exact ⟨List.append_nil _, congrArg (Prod.mk ended) unbound⟩
  | none =>
      rw [settled] at next
      rw [show run = _ from evalSteps_go executed next]
      have bound : Value.get name (engine.contentsOf
          (bindAs step (boundValue engine call.result) bindings)) =
          some (engine.reading step.call call.result).bound := by
        rw [contentsOf_bindAs, contents_boundValue settled, bindAs, named]
        dsimp only
        rw [Bindings.get_set, if_pos rfl]
      exact ⟨List.append_nil _, congrArg (Prod.mk _) bound⟩

/-- A probe that binds a new name shows all that the loop reads of the outcome. -/
theorem trace_probe {fn : String} {args : List (String × Value)}
    (new : Value.get name bindings = none) :
    (evalSteps engine registry runId prior i [probe name fn args] bindings).trace engine name =
      (engine.reading fn
        (invoke engine registry runId i (probe name fn args) bindings (prior i)).result).seen i := by
  have executed : skipped engine (probe name fn args) bindings = false := rfl
  rw [(trace_single executed rfl new).2, show (probe name fn args).call = fn from rfl]
  cases engine.reading fn
      (invoke engine registry runId i (probe name fn args) bindings (prior i)).result with
  | failed message => rfl
  | returned result => rfl
  | given v =>
      rw [settle_given rfl]
      rfl

/-- The trace shows whether the condition held. -/
theorem trace_guarded {expr : String} (new : Value.get name bindings = none) :
    engine.evalCondition expr bindings = false ↔
      (evalSteps engine registry runId prior i [guarded name expr] bindings).trace engine name =
        (.noVerdict, none) := by
  have skips : skipped engine (guarded name expr) bindings = !engine.evalCondition expr bindings :=
    rfl
  cases holds : engine.evalCondition expr bindings with
  | false =>
      rw [holds] at skips
      rw [evalSteps_skip skips, evalSteps, Run.trace, get_contentsOf, new]
      exact iff_of_true rfl rfl
  | true =>
      rw [holds] at skips
      rw [(trace_single skips rfl new).2]
      refine iff_of_false Bool.noConfusion fun untouched => ?_
      cases read : engine.reading (guarded name expr).call
          (invoke engine registry runId i (guarded name expr) bindings (prior i)).result with
      | failed message =>
          rw [read] at untouched
          cases congrArg Prod.snd untouched
      | returned result =>
          rw [read] at untouched
          exact (returned_ne read).1 (congrArg Prod.fst untouched)
      | given v =>
          rw [read, settle_given rfl] at untouched
          cases congrArg Prod.snd untouched

end

/-! ### Steps that lead two calls somewhere -/

section

variable {ρ : Type} (engine : Engine ρ) (registry : FunctionRegistry engine) (runId : String)

/-- The steps, from the `i`-th on, lead an evaluation that finds these rows from the one bindings to
the other. -/
def Passes (prior : Nat → Option CheckpointRow) (i : Nat) (steps : List ProcessStep)
    (b : Bindings ρ) (ws : List CheckpointRow) (after : Bindings ρ) : Prop :=
  ∀ rest,
    let run := evalSteps engine registry runId prior i (steps ++ rest) b
    let tail := evalSteps engine registry runId prior (i + steps.length) rest after
    run.result = tail.result ∧ run.bindings = tail.bindings ∧ run.writes = ws ++ tail.writes

variable {engine registry runId} {prior : Nat → Option CheckpointRow} {i : Nat}
  {steps : List ProcessStep} {b after next : Bindings ρ} {ws : List CheckpointRow}
  {step : ProcessStep}

theorem Passes.nil : Passes engine registry runId prior i [] b [] b := fun _ => ⟨rfl, rfl, rfl⟩

theorem Passes.append {more : List ProcessStep} {ws' : List CheckpointRow}
    (first : Passes engine registry runId prior i steps b ws after)
    (second : Passes engine registry runId prior (i + steps.length) more after ws' next) :
    Passes engine registry runId prior i (steps ++ more) b (ws ++ ws') next := by
  intro rest
  obtain ⟨result, finals, writes⟩ := first (more ++ rest)
  obtain ⟨result', finals', writes'⟩ := second rest
  dsimp only
  rw [List.append_assoc, List.length_append, ← Nat.add_assoc, List.append_assoc, ← writes']
  exact ⟨result.trans result', finals.trans finals', writes⟩

theorem Passes.skip (skip : skipped engine step b = true) :
    Passes engine registry runId prior i [step] b [] b := by
  intro rest
  dsimp only
  rw [List.singleton_append, evalSteps_skip skip]
  exact ⟨rfl, rfl, rfl⟩

theorem Passes.go (executed : skipped engine step b = false)
    (go : afterCall engine i step b (invoke engine registry runId i step b (prior i)).result =
      .go next) :
    Passes engine registry runId prior i [step] b
      (invoke engine registry runId i step b (prior i)).writes next := by
  intro rest
  dsimp only
  rw [List.singleton_append, evalSteps_go executed go]
  exact ⟨rfl, rfl, rfl⟩

/-- The writes of the steps are those of an evaluation of them. -/
theorem Passes.writes_eq (passes : Passes engine registry runId prior i steps b ws after) :
    ws = (evalSteps engine registry runId prior i steps b).writes := by
  obtain ⟨_, _, writes⟩ := passes []
  rw [List.append_nil, evalSteps, List.append_nil] at writes
  exact writes.symm

variable (engine registry runId) in
/-- The steps, from the `i`-th on, end alike on both bindings. -/
def EndsAlike (i : Nat) (rest : List ProcessStep) (b b' : Bindings ρ) : Prop :=
  (evalSteps engine registry runId noPrior i rest b').result =
      (evalSteps engine registry runId noPrior i rest b).result ∧
    SameNames (engine.contentsOf (evalSteps engine registry runId noPrior i rest b').bindings)
      (engine.contentsOf (evalSteps engine registry runId noPrior i rest b).bindings)

/-- Some name is bound in neither. -/
theorem exists_new (b b' : Bindings ρ) :
    ∃ name, Value.get name b = none ∧ Value.get name b' = none := by
  obtain ⟨name, unused⟩ := Infinite.exists_notMem_finset ((b ++ b').map Prod.fst).toFinset
  rw [List.mem_toFinset] at unused
  refine ⟨name, Bindings.get_eq_none_iff.mpr fun entry mem named => unused ?_,
    Bindings.get_eq_none_iff.mpr fun entry mem named => unused ?_⟩
  · exact named ▸ List.mem_map_of_mem (List.mem_append_left _ mem)
  · exact named ▸ List.mem_map_of_mem (List.mem_append_right _ mem)

/-- Bindings that no steps can tell apart agree. -/
theorem agree_of_endsAlike {b b' : Bindings ρ}
    (alike : ∀ rest, EndsAlike engine registry runId i rest b b') : Agree engine registry b b' := by
  obtain ⟨name, newHere, newThere⟩ := exists_new b b'
  have traces : ∀ rest,
      (evalSteps engine registry runId noPrior i rest b').trace engine name =
        (evalSteps engine registry runId noPrior i rest b).trace engine name :=
    fun rest => Prod.ext (alike rest).1 ((alike rest).2 name)
  constructor
  · intro expr
    have shown : engine.evalCondition expr b = false ↔
        (evalSteps engine registry runId noPrior i [guarded name expr] b).trace engine name =
          (.noVerdict, none) := trace_guarded newHere
    have shown' : engine.evalCondition expr b' = false ↔
        (evalSteps engine registry runId noPrior i [guarded name expr] b').trace engine name =
          (.noVerdict, none) := trace_guarded newThere
    rw [traces, ← shown] at shown'
    cases holds : engine.evalCondition expr b with
    | false => exact (shown'.mpr holds).symm
    | true =>
        rw [holds] at shown'
        exact (Bool.eq_true_of_not_eq_false fun fails => nomatch shown'.mp fails).symm
  · intro fn args
    have same := traces [probe name fn args]
    rw [trace_probe newHere, trace_probe newThere, noPrior, invoke_none, invoke_none] at same
    exact reading_eq_of_seen same

end

/-! ### A process that leads two calls somewhere -/

section

variable {ρ : Type} {engine : Engine ρ} {registry : FunctionRegistry engine}

/-- The rows that the steps before `i` find are these. -/
structure Finds (kept : List CheckpointRow) (i : Nat) (prior : Nat → Option CheckpointRow) : Prop where
  rows : ∀ write ∈ kept, prior write.stepIdx = some (CheckpointStore.restored write)
  rest : ∀ j < i, (∀ write ∈ kept, write.stepIdx ≠ j) → prior j = none

variable (engine registry) in
/-- The steps lead an uninterrupted call to the one bindings and a resumed call, on the first of
the rows written, to the other. -/
structure Walked (restoring : Bool) (b b' : Bindings ρ) (steps : List ProcessStep)
    (initial : Bindings ρ) (kept dropped : List CheckpointRow) : Prop where
  whole : Passes engine registry "run" noPrior 0 steps initial (kept ++ dropped) b
  all : restoring = true → dropped = []
  resumed : ∀ prior, Finds kept steps.length prior →
    ∃ ws, Passes engine registry "run" prior 0 steps initial ws b'

variable {prior : Nat → Option CheckpointRow} {restoring : Bool} {b b' initial : Bindings ρ}
  {steps : List ProcessStep} {kept dropped : List CheckpointRow}

theorem Walked.mem (walked : Walked engine registry restoring b b' steps initial kept dropped)
    {write : CheckpointRow} (mem : write ∈ kept) :
    write.runId = "run" ∧ write.stepIdx < steps.length := by
  have inWhole := List.mem_append_left dropped mem
  rw [walked.whole.writes_eq] at inWhole
  obtain ⟨mine, _, below⟩ := mine_of_mem inWhole
  exact ⟨mine, below.trans_eq (Nat.zero_add _)⟩

theorem Walked.increasing
    (walked : Walked engine registry restoring b b' steps initial kept dropped) :
    kept.Pairwise fun write later => write.stepIdx < later.stepIdx := by
  have whole : (kept ++ dropped).Pairwise fun write later => write.stepIdx < later.stepIdx := by
    rw [walked.whole.writes_eq]
    exact pairwise_writes
  exact (List.pairwise_append.mp whole).1

/-- What is read of a table that holds the rows. -/
theorem Walked.finds (walked : Walked engine registry restoring b b' steps initial kept dropped)
    (i : Nat) : Finds kept i ((kept.foldl CheckpointStore.append .empty).loadCheckpointMap "run") := by
  have mine : ∀ write ∈ kept, write.runId = "run" := fun write mem => (walked.mem mem).1
  refine ⟨fun write mem => ?_, fun j _ other => ?_⟩
  · exact CheckpointStore.loadCheckpointMap_foldl_of_mem mine walked.increasing mem
  · rw [CheckpointStore.loadCheckpointMap_foldl_of_ne mine other]
    rfl

theorem Finds.of_succ {more : List CheckpointRow} {i : Nat}
    (finds : Finds (kept ++ more) (i + 1) prior) (last : ∀ write ∈ more, write.stepIdx = i) :
    Finds kept i prior := by
  refine ⟨fun write mem => finds.rows write (List.mem_append_left _ mem), fun j below other => ?_⟩
  refine finds.rest j (Nat.lt_succ_of_lt below) fun write mem => ?_
  rcases List.mem_append.mp mem with before | here
  · exact other write before
  · rw [last write here]
    exact below.ne'

/-- A step whose row is found complete is not called again. -/
theorem invoke_of_found {step : ProcessStep} {value : ρ} {i : Nat}
    (durable : registry.durable step.call = true) (ok : registry.dispatch step b = .ok value)
    (same : interpolateArgs engine b' (step.args.getD []) =
      interpolateArgs engine b (step.args.getD [])) :
    invoke engine registry "run" i step b'
        (some (CheckpointStore.restored (stepRow engine registry "run" i step b))) =
      ⟨.ok (engine.parsed i (engine.contents value).restore), [], []⟩ := by
  have row : stepRow engine registry "run" i step b =
      checkpointWrite engine "run" i step (interpolateArgs engine b (step.args.getD [])) (.ok value) :=
    congrArg _ ok
  rw [row, invoke, if_pos durable, invokeDurable, same]
  simp only [checkpointHit, Option.bind_some, CheckpointStore.restored, checkpointWrite, and_self,
    if_true]

theorem Walked.skip {step : ProcessStep}
    (walked : Walked engine registry restoring b b' steps initial kept dropped)
    (skip : skipped engine step b = true) (skip' : skipped engine step b' = true) :
    Walked engine registry restoring b b' (steps ++ [step]) initial kept dropped := by
  refine ⟨?_, walked.all, fun prior finds => ?_⟩
  · have whole := walked.whole.append (.skip skip)
    rwa [List.append_nil] at whole
  · rw [List.length_append, List.length_singleton] at finds
    obtain ⟨ws, resumed⟩ := walked.resumed prior
      ⟨finds.rows, fun j below => finds.rest j (Nat.lt_succ_of_lt below)⟩
    exact ⟨_, resumed.append (.skip skip')⟩

/-- What the first call of one more step adds to the whole. -/
theorem Walked.first {step : ProcessStep} {after : Bindings ρ}
    (walked : Walked engine registry restoring b b' steps initial kept dropped)
    (skip : skipped engine step b = false)
    (go : afterCall engine steps.length step b (registry.dispatch step b) = .go after) :
    Passes engine registry "run" noPrior 0 (steps ++ [step]) initial
      (kept ++ dropped ++ (firstCall engine registry "run" steps.length step b).writes) after := by
  have first : invoke engine registry "run" (0 + steps.length) step b (noPrior (0 + steps.length)) =
      firstCall engine registry "run" steps.length step b := by
    rw [Nat.zero_add]
    exact invoke_none
  rw [← first]
  refine walked.whole.append (.go skip ?_)
  rw [first, Nat.zero_add]
  exact go

/-- The resumed call finds the row of a durable step that has succeeded. -/
theorem Walked.restored (unharmed : OutputsUnharmed engine registry) {step : ProcessStep} {value : ρ}
    {after : Bindings ρ} (walked : Walked engine registry true b b' steps initial kept [])
    (sameContents : engine.contentsOf b' = engine.contentsOf b)
    (skip : skipped engine step b = false) (skip' : skipped engine step b' = false)
    (durable : registry.durable step.call = true) (ok : registry.dispatch step b = .ok value)
    (go : afterCall engine steps.length step b (.ok value) = .go after) :
    Walked engine registry true after
      (bindAs step (engine.parsed steps.length (engine.contents value)) b') (steps ++ [step])
      initial (kept ++ [stepRow engine registry "run" steps.length step b]) [] := by
  have writes : (firstCall engine registry "run" steps.length step b).writes =
      [stepRow engine registry "run" steps.length step b] := if_pos durable
  have whole := walked.first skip (ok ▸ go)
  rw [List.append_nil, writes, ← List.append_nil (kept ++ _)] at whole
  refine ⟨whole, fun _ => rfl, fun prior finds => ?_⟩
  rw [List.length_append, List.length_singleton] at finds
  obtain ⟨ws, resumed⟩ := walked.resumed prior (finds.of_succ fun write mem => by
    rw [List.mem_singleton.mp mem, stepRow_stepIdx])
  have found := finds.rows _ (List.mem_append_right _ (List.mem_singleton_self _))
  rw [stepRow_stepIdx] at found
  have sameArgs : interpolateArgs engine b' (step.args.getD []) =
      interpolateArgs engine b (step.args.getD []) :=
    SameNames.args (keptBySet_eq.names _ _ sameContents) _
  have hit : invoke engine registry "run" steps.length step b' (prior steps.length) =
      ⟨.ok (engine.parsed steps.length (engine.contents value).restore), [], []⟩ := by
    rw [found]
    exact invoke_of_found durable ok sameArgs
  -- the restored output is bound as it was
  obtain ⟨goesOn, _⟩ := bindings_of_go go
  have given : reading step.call (.ok (engine.contents value)) = .given (engine.contents value) :=
    reading_of_goesOn goesOn
  have read := (reading_restore_iff (registry.plain durable ok)).mpr
    (unharmed step.call (step.args.getD []) b value durable ok)
  have settled : settle steps.length step
      (reading step.call (.ok (engine.contents value).restore)) = none := read ▸ goesOn
  have back : (engine.contents value).restore = engine.contents value :=
    Reading.given.inj ((reading_of_goesOn settled).symm.trans (read.trans given))
  have parsed : engine.reading step.call (.ok (engine.parsed steps.length (engine.contents value))) =
      engine.reading step.call (.ok value) := by
    rw [Engine.reading, Except.map, engine.contents_parsed]
    rfl
  refine ⟨_, resumed.append (.go skip' ?_)⟩
  rw [Nat.zero_add, hit, back, afterCall_eq, parsed, goesOn]
  rfl

/-- The resumed call finds no completed row of the step. -/
theorem Walked.called {step : ProcessStep} {after after' : Bindings ρ}
    (walked : Walked engine registry restoring b b' steps initial kept dropped)
    (skip : skipped engine step b = false) (skip' : skipped engine step b' = false)
    (only : restoring = true → registry.durable step.call = true →
      ∃ message, registry.dispatch step b = .error message)
    (go : afterCall engine steps.length step b (registry.dispatch step b) = .go after)
    (go' : afterCall engine steps.length step b' (registry.dispatch step b') = .go after') :
    ∃ kept dropped,
      Walked engine registry restoring after after' (steps ++ [step]) initial kept dropped := by
  have whole := walked.first skip go
  have again : ∀ prior, (∀ row ∈ prior steps.length, registry.durable step.call = true →
      row.status ≠ .completed) →
      ∀ ws, Passes engine registry "run" prior 0 steps initial ws b' →
      ∃ ws, Passes engine registry "run" prior 0 (steps ++ [step]) initial ws after' := by
    intro prior missing ws resumed
    refine ⟨_, resumed.append (.go skip' ?_)⟩
    rw [Nat.zero_add]
    rcases invoke_cases engine registry "run" steps.length step b' (prior steps.length) with
      ⟨row, present, durable, complete, _⟩ | ⟨_, missed⟩
    · exact absurd complete (missing row present durable)
    · rw [missed]
      exact go'
  cases restoring with
  | true =>
      -- all rows are kept, and that of this step is not completed
      rw [walked.all rfl] at whole walked
      rw [List.append_nil, ← List.append_nil (kept ++ _)] at whole
      refine ⟨_, [], whole, fun _ => rfl, fun prior finds => ?_⟩
      rw [List.length_append, List.length_singleton] at finds
      have place : ∀ write ∈ (firstCall engine registry "run" steps.length step b).writes,
          write.stepIdx = steps.length := by
        intro write mem
        rw [← invoke_none] at mem
        rw [(mem_invoke_writes mem).2, stepRow_stepIdx]
      obtain ⟨ws, resumed⟩ := walked.resumed prior (finds.of_succ place)
      refine again prior (fun row present durable complete => ?_) ws resumed
      have head : stepRow engine registry "run" steps.length step b ∈
          (firstCall engine registry "run" steps.length step b).writes := by
        rw [firstCall, if_pos durable]
        exact List.mem_singleton_self _
      have found := finds.rows _ (List.mem_append_right _ head)
      rw [stepRow_stepIdx, Option.mem_def.mp present] at found
      obtain ⟨message, failed⟩ := only rfl durable
      rw [Option.some.inj found, CheckpointStore.restored, stepRow, failed] at complete
      cases complete
  | false =>
      -- the rows kept are those of the steps before
      rw [List.append_assoc] at whole
      refine ⟨kept, _, whole, fun all => (by cases all), fun prior finds => ?_⟩
      rw [List.length_append, List.length_singleton] at finds
      obtain ⟨ws, resumed⟩ := walked.resumed prior
        ⟨finds.rows, fun j below => finds.rest j (Nat.lt_succ_of_lt below)⟩
      refine again prior (fun row present _ _ => ?_) ws resumed
      rw [finds.rest _ (Nat.lt_succ_self _) fun write mem => (walked.mem mem).2.ne] at present
      cases present

variable (always : ∀ steps bindings runId fresh store, fresh.fetchRun runId = [] →
  Interrupted engine registry steps bindings runId fresh store →
  ResumesExactly engine registry steps bindings runId fresh store)

include always

/-- Whatever steps follow, the two calls end alike. -/
theorem Walked.ends (walked : Walked engine registry restoring b b' steps initial kept dropped)
    (rest : List ProcessStep) :
    (evalSteps engine registry "run" noPrior steps.length rest b').result =
        (evalSteps engine registry "run" noPrior steps.length rest b).result ∧
      engine.contentsOf (evalSteps engine registry "run" noPrior steps.length rest b').bindings =
        engine.contentsOf (evalSteps engine registry "run" noPrior steps.length rest b).bindings := by
  have whole : evaluateProcess engine registry "run" (steps ++ rest) initial .empty =
      evalSteps engine registry "run" noPrior 0 (steps ++ rest) initial :=
    evaluateProcess_fresh rfl
  obtain ⟨result, finals, writes⟩ := walked.whole rest
  have begun : Interrupted engine registry (steps ++ rest) initial "run" .empty .empty := .fresh
  have cut := begun.cut kept.length
  rw [whole, writes, List.append_assoc, List.take_left] at cut
  obtain ⟨_, resumed⟩ := walked.resumed _ (walked.finds _)
  obtain ⟨result', finals', _⟩ := resumed rest
  have absent : ∀ j, steps.length ≤ j →
      (kept.foldl CheckpointStore.append .empty).loadCheckpointMap "run" j = noPrior j :=
    fun j above => (walked.finds (j + 1)).rest j (Nat.lt_succ_self j) fun write mem =>
      ((walked.mem mem).2.trans_le above).ne
  rw [Nat.zero_add] at result finals result' finals'
  rw [evalSteps_congr absent] at result' finals'
  have exactly := always (steps ++ rest) initial "run" .empty _ rfl cut
  have results := exactly.result
  have ends := exactly.finals
  rw [whole, result] at results
  rw [whole, finals] at ends
  exact ⟨result'.symm.trans results, (congrArg engine.contentsOf finals').symm.trans ends⟩

/-- Resuming the probe after its write shows the loop the restored value. -/
theorem outputsUnharmed_of_resumesExactly : OutputsUnharmed engine registry := by
  intro fn args bindings value durable ok
  obtain ⟨name, new, _⟩ := exists_new bindings bindings
  have dispatched : registry.dispatch (probe name fn args) bindings = .ok value := ok
  have executed : skipped engine (probe name fn args) bindings = false := rfl
  let row := stepRow engine registry "run" 0 (probe name fn args) bindings
  have whole : evaluateProcess engine registry "run" [probe name fn args] bindings .empty =
      evalSteps engine registry "run" noPrior 0 [probe name fn args] bindings :=
    evaluateProcess_fresh rfl
  have first : invoke engine registry "run" 0 (probe name fn args) bindings (noPrior 0) =
      firstCall engine registry "run" 0 (probe name fn args) bindings := invoke_none
  have writes : (evalSteps engine registry "run" noPrior 0 [probe name fn args] bindings).writes =
      [row] := by
    rw [(trace_single executed rfl new).1, first, firstCall]
    exact if_pos durable
  have begun : Interrupted engine registry [probe name fn args] bindings "run" .empty .empty :=
    .fresh
  have cut := begun.cut 1
  rw [whole, writes] at cut
  have mine : row.runId = "run" := (checkpointWrite_spec engine "run" 0 _ _ _).1
  have loaded : (CheckpointStore.append .empty row).loadCheckpointMap "run" 0 =
      some (CheckpointStore.restored row) := by
    have read := CheckpointStore.loadCheckpointMap_append .empty row 0
    rwa [mine, if_pos (stepRow_stepIdx engine registry "run" 0 _ _)] at read
  have resumed := always [probe name fn args] bindings "run" .empty
    (CheckpointStore.append .empty row) rfl cut
  have traces : (evalSteps engine registry "run"
      ((CheckpointStore.append .empty row).loadCheckpointMap "run") 0 [probe name fn args]
        bindings).trace engine name =
      (evalSteps engine registry "run" noPrior 0 [probe name fn args] bindings).trace engine name := by
    rw [← whole]
    exact Prod.ext resumed.result (congrArg (Value.get name) resumed.finals)
  rw [trace_probe new, trace_probe new, loaded, invoke_of_found durable dispatched rfl, first,
    firstCall, dispatched] at traces
  have read := reading_eq_of_seen traces
  rw [Except.map, Except.map, engine.contents_parsed] at read
  exact (reading_restore_iff (registry.plain durable ok)).mp read

/-- Two calls that go side by side are led there by some process. -/
theorem exists_walked {i : Nat} (together : Together engine registry Fresh restoring i b b') :
    ∃ steps initial kept dropped, steps.length = i ∧
      Walked engine registry restoring b b' steps initial kept dropped := by
  induction together with
  | start begins =>
      obtain ⟨_, rfl, rfl⟩ := begins
      exact ⟨[], _, [], [], rfl, .nil, fun _ => rfl, fun _ _ => ⟨[], .nil⟩⟩
  | cut _ ih =>
      obtain ⟨steps, initial, kept, dropped, place, walked⟩ := ih
      exact ⟨steps, initial, kept, dropped, place, walked.whole, nofun, walked.resumed⟩
  | skip _ skip skip' ih =>
      obtain ⟨steps, initial, kept, dropped, rfl, walked⟩ := ih
      exact ⟨_, initial, kept, dropped, List.length_append, walked.skip skip skip'⟩
  | restored _ skip skip' durable ok go ih =>
      obtain ⟨steps, initial, kept, dropped, rfl, walked⟩ := ih
      obtain rfl := walked.all rfl
      exact ⟨_, initial, _, [], List.length_append, walked.restored
        (outputsUnharmed_of_resumesExactly always) (walked.ends always []).2 skip skip' durable ok go⟩
  | called _ skip skip' only go go' ih =>
      obtain ⟨steps, initial, kept, dropped, rfl, walked⟩ := ih
      obtain ⟨kept, dropped, next⟩ := walked.called skip skip' only go go'
      exact ⟨_, initial, kept, dropped, List.length_append, next⟩

end

/-- A resumed call equals an uninterrupted one, for every process, whatever the
bindings, the run id and the points of interruption, exactly when the loop cannot
tell the registry's durable outputs from their restored form, nor the conditions
and the primitives the new values from those of the uninterrupted call. -/
theorem resume_eq_uninterrupted_iff {ρ : Type} (engine : Engine ρ)
    (registry : FunctionRegistry engine) :
    (∀ steps bindings runId fresh store, fresh.fetchRun runId = [] →
      Interrupted engine registry steps bindings runId fresh store →
      ResumesExactly engine registry steps bindings runId fresh store) ↔
    OutputsUnharmed engine registry ∧ CannotTell engine registry Fresh := by
  constructor
  · intro always
    refine ⟨outputsUnharmed_of_resumesExactly always, fun restoring i b b' together => ?_⟩
    obtain ⟨steps, initial, kept, dropped, rfl, walked⟩ := exists_walked always together
    have alike : ∀ rest, EndsAlike engine registry "run" steps.length rest b b' := fun rest =>
      ⟨(walked.ends always rest).1, fun name => congrArg _ (walked.ends always rest).2⟩
    exact agree_of_endsAlike alike
  · rintro ⟨unharmed, cannotTell⟩ steps bindings runId fresh store unwritten interrupted
    exact interrupted.resumesExactly cannotTell unharmed unwritten

/-! ## A document that looks like an envelope -/

/-- The engine of a process without conditions and templates whose one durable call is
`fetch` without arguments. -/
def fetchEngine : Engine Value where
  contents := id
  ofString := .str
  parsed _ v := v
  evalCondition _ _ := true
  numberText _ := ""
  sha256Hex _ := "5d01132ab8c734b74cc89a287f5118439adeec2e7000f681c9a57fcf2e5da9c3"
  contents_ofString _ := rfl
  contents_parsed _ _ := rfl

def envelopeDocument : Value :=
  .obj [("__type", .str "base64"), ("data", .str "aGVsbG8=")]

/-- A durable primitive `fetch` returns a JSON document. -/
def fetchRegistry : FunctionRegistry fetchEngine where
  durable fn := fn = "fetch"
  call fn _ _ :=
    if fn = "fetch" then .ok envelopeDocument else .error ("No function \"" ++ fn ++ "\"")
  plain durable called := by
    rw [if_pos (of_decide_eq_true durable)] at called
    cases called
    exact ⟨by decide, trivial, trivial, trivial⟩

def fetchSteps : List ProcessStep := [{ call := "fetch", as := some "body" }]

/-- What the call leaves behind when it is cut off after its write. -/
def fetchStore : CheckpointStore :=
  ((evaluateProcess fetchEngine fetchRegistry "run" fetchSteps [] .empty).writes.take 1).foldl
    CheckpointStore.append .empty

/-- The uninterrupted call binds the document, the resumed call a buffer. -/
theorem envelope_resume_differs :
    CheckpointStore.fetchRun .empty "run" = [] ∧
      Interrupted fetchEngine fetchRegistry fetchSteps [] "run" .empty fetchStore ∧
      ¬ ResumesExactly fetchEngine fetchRegistry fetchSteps [] "run" .empty fetchStore := by
  refine ⟨rfl, .cut 1 .fresh, fun resumes => ?_⟩
  have whole : fetchEngine.contentsOf
      (evaluateProcess fetchEngine fetchRegistry "run" fetchSteps [] .empty).bindings =
      [("body", envelopeDocument)] := rfl
  have resumed : fetchEngine.contentsOf
      (evaluateProcess fetchEngine fetchRegistry "run" fetchSteps [] fetchStore).bindings =
      [("body", .buffer [104, 101, 108, 108, 111])] := rfl
  have same := resumed.symm.trans (resumes.finals.trans whole)
  rw [List.cons.injEq, Prod.mk.injEq] at same
  exact nomatch same.1.2

/-! ## An output that is an object of the bindings -/

/-- A JavaScript value: what it contains and, of an object, which one it is. -/
structure Ref where
  contents : Value
  identity : Nat

/-- The engine of a process whose one condition compares two objects. -/
def aliasEngine : Engine Ref where
  contents := Ref.contents
  ofString s := ⟨.str s, 0⟩
  parsed i v := ⟨v, i + 1⟩
  evalCondition expr bindings := expr = "copy == doc" ∧
    (Value.get "copy" bindings).map Ref.identity = (Value.get "doc" bindings).map Ref.identity
  numberText _ := ""
  sha256Hex _ := "5d01132ab8c734b74cc89a287f5118439adeec2e7000f681c9a57fcf2e5da9c3"
  contents_ofString _ := rfl
  contents_parsed _ _ := rfl

/-- The durable `fetch` returns the object `{ x: true }` that is bound to `doc`; the pure
`note` gives a text. -/
def aliasRegistry : FunctionRegistry aliasEngine where
  durable fn := fn = "fetch"
  call fn _ bindings :=
    if fn = "fetch" then
      match Value.get "doc" bindings with
      | some ⟨.obj [("x", .bool true)], identity⟩ => .ok ⟨.obj [("x", .bool true)], identity⟩
      | _ => .error "no document"
    else .ok ⟨.str "same", 0⟩
  plain durable called := by
    rw [if_pos (of_decide_eq_true durable)] at called
    split at called
    · cases called
      exact ⟨by decide, trivial, trivial⟩
    · cases called

def aliasSteps : List ProcessStep :=
  [{ call := "fetch", as := some "copy" },
    { call := "note", as := some "mark", «if» := some "copy == doc" }]

def boundDocument : Bindings Ref := [("doc", ⟨.obj [("x", .bool true)], 0⟩)]

def aliasStore : CheckpointStore :=
  ((evaluateProcess aliasEngine aliasRegistry "run" aliasSteps boundDocument .empty).writes.take
    1).foldl CheckpointStore.append .empty

/-- The uninterrupted call finds `copy` and `doc` to be one object, the resumed call two. -/
theorem alias_resume_differs :
    CheckpointStore.fetchRun .empty "run" = [] ∧
      Interrupted aliasEngine aliasRegistry aliasSteps boundDocument "run" .empty aliasStore ∧
      ¬ ResumesExactly aliasEngine aliasRegistry aliasSteps boundDocument "run" .empty aliasStore := by
  refine ⟨rfl, .cut 1 .fresh, fun resumes => ?_⟩
  have whole : (aliasEngine.contentsOf (evaluateProcess aliasEngine aliasRegistry "run" aliasSteps
      boundDocument .empty).bindings).map Prod.fst = ["doc", "copy", "mark"] := by decide
  have resumed : (aliasEngine.contentsOf (evaluateProcess aliasEngine aliasRegistry "run" aliasSteps
      boundDocument aliasStore).bindings).map Prod.fst = ["doc", "copy"] := by decide
  have same := resumed.symm.trans ((congrArg _ resumes.finals).trans whole)
  cases same

end Opensquid.Durable
