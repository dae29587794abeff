import Opensquid.Durable.Reading

/-!
# Two calls side by side

An interrupted call leaves the rows of some first steps. The call that finds them binds a new
value for each step that has succeeded; the uninterrupted call has the primitive's own. The
two stay in step (`evalSteps_eq`) as long as no condition and no primitive can tell
their bindings apart (`CannotTell`). Those that read contents only cannot
(`ReadsContents.cannotTell`).
-/

namespace Opensquid.Durable

section

variable {ρ : Type} {engine : Engine ρ}

/-- The outcome of a step's primitive. -/
def FunctionRegistry.dispatch (registry : FunctionRegistry engine) (step : ProcessStep)
    (bindings : Bindings ρ) : Except String ρ :=
  registry.call step.call (interpolateArgs engine bindings (step.args.getD [])) bindings

variable (engine) (registry : FunctionRegistry engine)

/-- The bindings of an uninterrupted call and of a resumed one before the same step. While
it finds the rows of an interrupted call, the resumed one binds a new value for each
durable step that has succeeded; it calls the other primitives again. -/
inductive Together (start : Bool → Nat → Bindings ρ → Bindings ρ → Prop) :
    Bool → Nat → Bindings ρ → Bindings ρ → Prop
  | start {restoring : Bool} {i : Nat} {b b' : Bindings ρ} :
      start restoring i b b' → Together start restoring i b b'
  | cut {i : Nat} {b b' : Bindings ρ} :
      Together start true i b b' → Together start false i b b'
  | skip {restoring : Bool} {i : Nat} {b b' : Bindings ρ} {step : ProcessStep} :
      Together start restoring i b b' →
      skipped engine step b = true → skipped engine step b' = true →
      Together start restoring (i + 1) b b'
  | restored {i : Nat} {b b' after : Bindings ρ} {step : ProcessStep} {value : ρ} :
      Together start true i b b' →
      skipped engine step b = false → skipped engine step b' = false →
      registry.durable step.call = true → registry.dispatch step b = .ok value →
      afterCall engine i step b (.ok value) = .go after →
      Together start true (i + 1) after
        (bindAs step (engine.parsed i (engine.contents value)) b')
  | called {restoring : Bool} {i : Nat} {b b' after after' : Bindings ρ} {step : ProcessStep} :
      Together start restoring i b b' →
      skipped engine step b = false → skipped engine step b' = false →
      (restoring = true → registry.durable step.call = true →
        ∃ message, registry.dispatch step b = .error message) →
      afterCall engine i step b (registry.dispatch step b) = .go after →
      afterCall engine i step b' (registry.dispatch step b') = .go after' →
      Together start restoring (i + 1) after after'

/-- Every condition has the same truth value, and the loop reads the same from every call. -/
structure Agree (b b' : Bindings ρ) : Prop where
  condition : ∀ expr, engine.evalCondition expr b = engine.evalCondition expr b'
  call : ∀ fn args,
    engine.reading fn (registry.call fn (interpolateArgs engine b' args) b') =
      engine.reading fn (registry.call fn (interpolateArgs engine b args) b)

/-- Neither a condition nor a primitive can tell the two calls apart. -/
def CannotTell (start : Bool → Nat → Bindings ρ → Bindings ρ → Prop) : Prop :=
  ∀ restoring i b b', Together engine registry start restoring i b b' →
    Agree engine registry b b'

/-- A call of `evaluateProcess` and its resumption begin with the same bindings. -/
def Fresh (restoring : Bool) (i : Nat) (b b' : Bindings ρ) : Prop :=
  restoring = true ∧ i = 0 ∧ b = b'

/-- Every durable output that a step can get is unharmed. -/
def OutputsUnharmed : Prop :=
  ∀ (fn : String) (args : List (String × Value)) (bindings : Bindings ρ) (value : ρ),
    registry.durable fn = true →
    registry.call fn (interpolateArgs engine bindings args) bindings = .ok value →
    Unharmed fn (engine.contents value)

end

/-! ## Comparing bindings -/

def SameNames {α : Type} (b b' : Bindings α) : Prop := ∀ name, Value.get name b = Value.get name b'

/-- A comparison that binding the same value keeps, of bindings that give each name the same. -/
structure KeptBySet (R : Bindings Value → Bindings Value → Prop) : Prop where
  set : ∀ b b' name value, R b b' → R (b.set name value) (b'.set name value)
  names : ∀ b b', R b b' → SameNames b b'

theorem keptBySet_eq : KeptBySet Eq :=
  ⟨fun _ _ name value same => congrArg (fun b => b.set name value) same,
    fun _ _ same _ => congrArg _ same⟩

theorem keptBySet_sameNames : KeptBySet SameNames := by
  refine ⟨fun b b' name value same other => ?_, fun _ _ same => same⟩
  rw [Bindings.get_set, Bindings.get_set, same other]

section

variable {ρ : Type} {engine : Engine ρ} {b b' : Bindings ρ}

theorem SameNames.resolve {b b' : Bindings Value} (same : SameNames b b') (path : String) :
    resolveBindingPath path b = resolveBindingPath path b' := by
  unfold resolveBindingPath
  split
  · rfl
  · rename_i head segments _
    rw [same head]

mutual

theorem SameNames.value (same : SameNames (engine.contentsOf b) (engine.contentsOf b')) :
    ∀ v, interpolateValue engine b v = interpolateValue engine b' v
  | .str s => by
      rw [interpolateValue, interpolateValue]
      simp only [same.resolve]
  | .arr items => by rw [interpolateValue, interpolateValue, SameNames.items same items]
  | .obj fields => by rw [interpolateValue, interpolateValue, SameNames.fields same fields]
  | .buffer bytes => by rw [interpolateValue, interpolateValue]
  | .undefined => by rw [interpolateValue, interpolateValue]
  | .null => by rw [interpolateValue, interpolateValue]
  | .bool x => by rw [interpolateValue, interpolateValue]
  | .num x => by rw [interpolateValue, interpolateValue]

theorem SameNames.items (same : SameNames (engine.contentsOf b) (engine.contentsOf b')) :
    ∀ items, interpolateItems engine b items = interpolateItems engine b' items
  | [] => by rw [interpolateItems, interpolateItems]
  | v :: rest => by
      rw [interpolateItems, interpolateItems, SameNames.value same v, SameNames.items same rest]

theorem SameNames.fields (same : SameNames (engine.contentsOf b) (engine.contentsOf b')) :
    ∀ fields, interpolateFields engine b fields = interpolateFields engine b' fields
  | [] => by rw [interpolateFields, interpolateFields]
  | (key, v) :: rest => by
      rw [interpolateFields, interpolateFields, SameNames.value same v, SameNames.fields same rest]

end

theorem SameNames.args (same : SameNames (engine.contentsOf b) (engine.contentsOf b'))
    (args : List (String × Value)) :
    interpolateArgs engine b args = interpolateArgs engine b' args :=
  SameNames.value same (.obj args)

/-- After outcomes that are read alike the loop does the same. -/
theorem afterCall_alike {R : Bindings Value → Bindings Value → Prop} (keeps : KeptBySet R)
    {i : Nat} {step : ProcessStep} {result result' : Except String ρ}
    (same : R (engine.contentsOf b) (engine.contentsOf b'))
    (alike : engine.reading step.call result' = engine.reading step.call result) :
    (∃ ended, afterCall engine i step b result = .done ended ∧
        afterCall engine i step b' result' = .done ended) ∨
      ∃ after after', afterCall engine i step b result = .go after ∧
        afterCall engine i step b' result' = .go after' ∧
        R (engine.contentsOf after) (engine.contentsOf after') := by
  rw [afterCall_eq, afterCall_eq, alike]
  cases settled : settle i step (engine.reading step.call result) with
  | some ended => exact .inl ⟨ended, rfl, rfl⟩
  | none =>
      refine .inr ⟨_, _, rfl, rfl, ?_⟩
      rw [contentsOf_bindAs, contentsOf_bindAs, contents_boundValue settled,
        contents_boundValue (alike ▸ settled), alike, bindAs, bindAs]
      cases step.as with
      | none => exact same
      | some name => exact keeps.set _ _ name _ same

end

/-! ## One step of the evaluator -/

/-- The rows of a run that has no rows yet. -/
def noPrior (_ : Nat) : Option CheckpointRow := none

section

variable {ρ : Type} {engine : Engine ρ} {registry : FunctionRegistry engine} {runId : String}
  {prior : Nat → Option CheckpointRow} {i : Nat} {step : ProcessStep} {rest : List ProcessStep}
  {b : Bindings ρ}

theorem evalSteps_skip (skip : skipped engine step b = true) :
    evalSteps engine registry runId prior i (step :: rest) b =
      evalSteps engine registry runId prior (i + 1) rest b := by
  rw [evalSteps, if_pos skip]

theorem evalSteps_done (executed : skipped engine step b = false) {result : RuleResult}
    (done : afterCall engine i step b
      (invoke engine registry runId i step b (prior i)).result = .done result) :
    evalSteps engine registry runId prior i (step :: rest) b =
      .after (invoke engine registry runId i step b (prior i)) ⟨result, b, [], []⟩ := by
  rw [evalSteps, executed, if_neg Bool.false_ne_true]
  dsimp only
  rw [done]

theorem evalSteps_go (executed : skipped engine step b = false) {after : Bindings ρ}
    (go : afterCall engine i step b
      (invoke engine registry runId i step b (prior i)).result = .go after) :
    evalSteps engine registry runId prior i (step :: rest) b =
      .after (invoke engine registry runId i step b (prior i))
        (evalSteps engine registry runId prior (i + 1) rest after) := by
  rw [evalSteps, executed, if_neg Bool.false_ne_true]
  dsimp only
  rw [go]

variable (engine registry runId i step b)

/-- The row of a step's call. -/
def stepRow : CheckpointRow :=
  checkpointWrite engine runId i step (interpolateArgs engine b (step.args.getD []))
    (registry.dispatch step b)

theorem checkpointWrite_spec (args : Value) (result : Except String ρ) :
    let row := checkpointWrite engine runId i step args result
    row.runId = runId ∧ row.stepIdx = i ∧ row.fn = step.call ∧
      row.inputsHash = engine.inputsHash step.call args ∧ row.asBinding = step.as ∧
      (row.status = .completed ↔ ∃ value, result = .ok value) := by
  cases result with
  | ok value => exact ⟨rfl, rfl, rfl, rfl, rfl, iff_of_true rfl ⟨value, rfl⟩⟩
  | error message =>
      exact ⟨rfl, rfl, rfl, rfl, rfl,
        iff_of_false (fun same => by cases same) fun ⟨_, same⟩ => by cases same⟩

theorem stepRow_stepIdx : (stepRow engine registry runId i step b).stepIdx = i :=
  (checkpointWrite_spec engine runId i step _ _).2.1

/-- What a step does that finds no completed row of its inputs. -/
def firstCall : Called ρ :=
  ⟨registry.dispatch step b,
    if registry.durable step.call then [stepRow engine registry runId i step b] else [],
    [⟨i, step.call, interpolateArgs engine b (step.args.getD [])⟩]⟩

variable {engine registry runId i step b} in
theorem invoke_none : invoke engine registry runId i step b none =
    firstCall engine registry runId i step b := by
  rw [invoke, firstCall]
  split <;> rfl

theorem invoke_cases (prior : Option CheckpointRow) :
    (∃ row ∈ prior, registry.durable step.call = true ∧ row.status = .completed ∧
      row.inputsHash = (stepRow engine registry runId i step b).inputsHash ∧
      invoke engine registry runId i step b prior =
        ⟨.ok (engine.parsed i row.outputs), [], []⟩) ∨
    ((∀ row ∈ prior, registry.durable step.call = true → row.status = .completed →
        row.inputsHash ≠ (stepRow engine registry runId i step b).inputsHash) ∧
      invoke engine registry runId i step b prior =
        firstCall engine registry runId i step b) := by
  have hash : (stepRow engine registry runId i step b).inputsHash =
      engine.inputsHash step.call (interpolateArgs engine b (step.args.getD [])) :=
    (checkpointWrite_spec engine runId i step _ _).2.2.2.1
  rw [hash, ← invoke_none, invoke, invoke]
  by_cases durable : registry.durable step.call = true
  · rw [if_pos durable, if_pos durable, invokeDurable]
    cases prior with
    | none => exact .inr ⟨fun _ absent => (Option.not_mem_none _ absent).elim, rfl⟩
    | some row =>
        rw [checkpointHit, Option.bind_some]
        split
        · rename_i outputs hit
          split at hit
          · rename_i both
            cases hit
            exact .inl ⟨row, rfl, durable, both.1, both.2, rfl⟩
          · cases hit
        · rename_i miss
          split at miss
          · cases miss
          · rename_i other
            refine .inr ⟨?_, rfl⟩
            rintro _ ⟨⟩ _ complete same
            exact other ⟨complete, same⟩
  · rw [if_neg durable, if_neg durable]
    exact .inr ⟨fun _ _ calls => absurd calls durable, rfl⟩

variable {engine registry runId i step b}

/-- A call writes at most the row of its step. -/
theorem mem_invoke_writes {prior : Option CheckpointRow} {write : CheckpointRow}
    (member : write ∈ (invoke engine registry runId i step b prior).writes) :
    registry.durable step.call = true ∧ write = stepRow engine registry runId i step b := by
  rcases invoke_cases engine registry runId i step b prior with ⟨_, _, _, _, _, hit⟩ | ⟨_, first⟩
  · rw [hit] at member
    cases member
  · rw [first, firstCall] at member
    dsimp only at member
    split at member
    · rename_i durable
      exact ⟨durable, List.mem_singleton.mp member⟩
    · cases member

/-- An evaluation reads the rows of its own steps only. -/
theorem evalSteps_congr {prior' : Nat → Option CheckpointRow} {steps : List ProcessStep}
    (same : ∀ j, i ≤ j → prior j = prior' j) :
    evalSteps engine registry runId prior i steps b =
      evalSteps engine registry runId prior' i steps b := by
  induction steps generalizing i b with
  | nil => rfl
  | cons step rest ih =>
      have later := fun b => ih (b := b) fun j above => same j (Nat.le_of_succ_le above)
      rw [evalSteps, evalSteps, same i le_rfl]
      simp only [later]

/-- Each write is the row of a durable step from `i` on. -/
theorem exists_stepRow {steps : List ProcessStep} {write : CheckpointRow}
    (member : write ∈ (evalSteps engine registry runId prior i steps b).writes) :
    ∃ j step b, i ≤ j ∧ j < i + steps.length ∧ registry.durable step.call = true ∧
      write = stepRow engine registry runId j step b := by
  induction steps generalizing i b with
  | nil => cases member
  | cons step rest ih =>
      have later : ∀ {b'}, write ∈ (evalSteps engine registry runId prior (i + 1) rest b').writes →
          ∃ j step b, i ≤ j ∧ j < i + (rest.length + 1) ∧ registry.durable step.call = true ∧
            write = stepRow engine registry runId j step b := by
        intro b' tail
        obtain ⟨j, step, b, above, below, found⟩ := ih tail
        exact ⟨j, step, b, Nat.le_of_succ_le above, by omega, found⟩
      have here : write ∈ (invoke engine registry runId i step b (prior i)).writes →
          ∃ j step b, i ≤ j ∧ j < i + (rest.length + 1) ∧ registry.durable step.call = true ∧
            write = stepRow engine registry runId j step b := by
        intro head
        obtain ⟨durable, same⟩ := mem_invoke_writes head
        exact ⟨i, step, b, le_rfl, by omega, durable, same⟩
      cases skip : skipped engine step b with
      | true =>
          rw [evalSteps_skip skip] at member
          exact later member
      | false =>
          cases next : afterCall engine i step b
              (invoke engine registry runId i step b (prior i)).result with
          | done result =>
              rw [evalSteps_done skip next, Run.after, List.append_nil] at member
              exact here member
          | go after =>
              rw [evalSteps_go skip next, Run.after] at member
              exact (List.mem_append.mp member).elim here later

theorem mine_of_mem {steps : List ProcessStep} {write : CheckpointRow}
    (member : write ∈ (evalSteps engine registry runId prior i steps b).writes) :
    write.runId = runId ∧ i ≤ write.stepIdx ∧ write.stepIdx < i + steps.length := by
  obtain ⟨j, step, b, above, below, _, rfl⟩ := exists_stepRow member
  obtain ⟨run, place, -⟩ := checkpointWrite_spec engine runId j step
    (interpolateArgs engine b (step.args.getD [])) (registry.dispatch step b)
  exact ⟨run, above.trans place.ge, place.trans_lt below⟩

theorem pairwise_writes {steps : List ProcessStep} :
    (evalSteps engine registry runId prior i steps b).writes.Pairwise
      fun write later => write.stepIdx < later.stepIdx := by
  induction steps generalizing i b with
  | nil => exact .nil
  | cons step rest ih =>
      have head : (invoke engine registry runId i step b (prior i)).writes = [] ∨
          (invoke engine registry runId i step b (prior i)).writes =
            [stepRow engine registry runId i step b] := by
        rcases invoke_cases engine registry runId i step b (prior i) with ⟨_, _, _, _, _, hit⟩ | ⟨_, first⟩
        · rw [hit]
          exact .inl rfl
        · rw [first, firstCall]
          exact (ite_eq_or_eq _ _ _).symm
      cases skip : skipped engine step b with
      | true =>
          rw [evalSteps_skip skip]
          exact ih
      | false =>
          cases next : afterCall engine i step b
              (invoke engine registry runId i step b (prior i)).result with
          | done result =>
              rw [evalSteps_done skip next, Run.after, List.append_nil]
              rcases head with none | one
              · rw [none]
                exact .nil
              · rw [one]
                exact List.pairwise_singleton _ _
          | go after =>
              rw [evalSteps_go skip next, Run.after]
              rcases head with none | one
              · rw [none]
                exact ih
              · rw [one]
                refine List.pairwise_cons.mpr ⟨fun later member => ?_, ih⟩
                rw [stepRow_stepIdx]
                exact (mine_of_mem member).2.1

end

/-! ## In step with the uninterrupted call -/

section

variable {ρ : Type} {engine : Engine ρ} {registry : FunctionRegistry engine} {runId : String}

/-- A row stands for a write: the evaluator does the same when it finds it. -/
structure Alike (row write : CheckpointRow) : Prop where
  fn : row.fn = write.fn
  status : row.status = write.status
  inputsHash : row.inputsHash = write.inputsHash
  outputs : write.status = .completed →
    reading write.fn (.ok row.outputs) = reading write.fn (.ok write.outputs)

/-- The rows of the steps before `m` stand for the writes, and there are no others. -/
structure Left (writes : List CheckpointRow) (m : Nat) (prior : Nat → Option CheckpointRow) :
    Prop where
  rows : ∀ write ∈ writes, write.stepIdx < m → ∃ row, prior write.stepIdx = some row ∧ Alike row write
  rest : ∀ j, m ≤ j → prior j = none

/-- Writes that stand for others, for all of them from the step `m` on. -/
structure Follows (m : Nat) (ws writes : List CheckpointRow) : Prop where
  alike : ∀ w ∈ ws, ∀ write ∈ writes, w.stepIdx = write.stepIdx → Alike w write
  covers : ∀ write ∈ writes, m ≤ write.stepIdx → ∃ w ∈ ws, w.stepIdx = write.stepIdx

theorem Follows.append {m n : Nat} {ws ws' writes writes' : List CheckpointRow}
    (head : Follows m ws writes) (tail : Follows m ws' writes')
    (place : ∀ w ∈ ws ++ writes, w.stepIdx = n) (later : ∀ w ∈ ws' ++ writes', n < w.stepIdx) :
    Follows m (ws ++ ws') (writes ++ writes') := by
  constructor
  · intro w mem write mem' same
    rcases List.mem_append.mp mem with first | second <;>
      rcases List.mem_append.mp mem' with first' | second'
    · exact head.alike w first write first' same
    · have here := place w (List.mem_append_left _ first)
      have there := later write (List.mem_append_right _ second')
      omega
    · have here := place write (List.mem_append_right _ first')
      have there := later w (List.mem_append_left _ second)
      omega
    · exact tail.alike w second write second' same
  · intro write mem above
    rcases List.mem_append.mp mem with first | second
    · obtain ⟨w, found, same⟩ := head.covers write first above
      exact ⟨w, List.mem_append_left _ found, same⟩
    · obtain ⟨w, found, same⟩ := tail.covers write second above
      exact ⟨w, List.mem_append_right _ found, same⟩

theorem Together.next {start : Bool → Nat → Bindings ρ → Bindings ρ → Prop} {i j m : Nat}
    {b b' : Bindings ρ} (together : Together engine registry start (decide (i < m)) j b b') :
    Together engine registry start (decide (i + 1 < m)) j b b' := by
  by_cases below : i + 1 < m
  · rw [decide_eq_true (Nat.lt_of_succ_lt below)] at together
    rwa [decide_eq_true below]
  · rw [decide_eq_false below]
    by_cases last : i < m
    · rw [decide_eq_true last] at together
      exact together.cut
    · rwa [decide_eq_false last] at together

/-- Calls that are read alike write rows that stand for each other. -/
theorem alike_stepRow {i : Nat} {step : ProcessStep} {b b' : Bindings ρ}
    (same : SameNames (engine.contentsOf b) (engine.contentsOf b'))
    (alike : engine.reading step.call (registry.dispatch step b') =
      engine.reading step.call (registry.dispatch step b)) :
    Alike (stepRow engine registry runId i step b') (stepRow engine registry runId i step b) := by
  rw [stepRow, stepRow, same.args]
  cases result : registry.dispatch step b with
  | error message =>
      cases result' : registry.dispatch step b' with
      | error message' => exact ⟨rfl, rfl, rfl, nofun⟩
      | ok value' =>
          rw [result, result', Engine.reading, Engine.reading, Except.map, Except.map] at alike
          exact absurd alike (reading_ok_ne _ _ _)
  | ok value =>
      cases result' : registry.dispatch step b' with
      | error message' =>
          rw [result, result', Engine.reading, Engine.reading, Except.map, Except.map] at alike
          exact absurd alike.symm (reading_ok_ne _ _ _)
      | ok value' =>
          rw [result, result'] at alike
          exact ⟨rfl, rfl, rfl, fun _ => alike⟩

/-- One call on the rows of an interrupted run is read as the first one and writes alike. -/
theorem invoke_alike {start : Bool → Nat → Bindings ρ → Bindings ρ → Prop} {m i : Nat}
    {step : ProcessStep} {b b' : Bindings ρ}
    (together : Together engine registry start (decide (i < m)) i b b')
    (skip : skipped engine step b = false) (skip' : skipped engine step b' = false)
    (sameNames : SameNames (engine.contentsOf b) (engine.contentsOf b'))
    (alike : engine.reading step.call (registry.dispatch step b') =
      engine.reading step.call (registry.dispatch step b))
    {prior : Option CheckpointRow}
    (rows : ∀ write ∈ (firstCall engine registry runId i step b).writes, i < m →
      ∃ row, prior = some row ∧ Alike row write)
    (rest : m ≤ i → prior = none) :
    let first := firstCall engine registry runId i step b
    let call := invoke engine registry runId i step b' prior
    engine.reading step.call call.result = engine.reading step.call first.result ∧
      Follows m call.writes first.writes ∧
      ∀ after after', afterCall engine i step b first.result = .go after →
        afterCall engine i step b' call.result = .go after' →
        Together engine registry start (decide (i + 1 < m)) (i + 1) after after' := by
  have row : registry.durable step.call = true → stepRow engine registry runId i step b ∈
      (firstCall engine registry runId i step b).writes := by
    intro durable
    rw [firstCall, if_pos durable]
    exact List.mem_singleton_self _
  have own : Alike (stepRow engine registry runId i step b')
      (stepRow engine registry runId i step b) := alike_stepRow sameNames alike
  have spec := checkpointWrite_spec engine runId i step
    (interpolateArgs engine b (step.args.getD [])) (registry.dispatch step b)
  intro first call
  rcases invoke_cases engine registry runId i step b' prior with
    ⟨found, present, durable, complete, hash, hit⟩ | ⟨miss, missed⟩
  · -- only a restored row is found
    have below : i < m := by
      by_contra above
      rw [rest (not_lt.mp above)] at present
      cases present
    obtain ⟨_, here, stands⟩ := rows _ (row durable) below
    rw [Option.mem_def.mp present] at here
    cases here
    obtain ⟨value, ok⟩ := spec.2.2.2.2.2.mp (stands.status ▸ complete)
    have outputs : (stepRow engine registry runId i step b).outputs = engine.contents value := by
      rw [stepRow, ok]
      rfl
    have read : reading step.call (.ok found.outputs) =
        reading step.call (.ok (engine.contents value)) := by
      have same := stands.outputs (stands.status ▸ complete)
      rwa [outputs, show (stepRow engine registry runId i step b).fn = step.call from
        spec.2.2.1] at same
    have result : call.result = .ok (engine.parsed i found.outputs) := by rw [show call = _ from hit]
    have firstResult : first.result = .ok value := ok
    have parsed : engine.reading step.call (.ok (engine.parsed i found.outputs)) =
        reading step.call (.ok found.outputs) := by
      rw [Engine.reading, Except.map, engine.contents_parsed]
    rw [result, firstResult, parsed]
    refine ⟨read, ⟨?_, ?_⟩, ?_⟩
    · rw [show call = _ from hit]
      intro w mem
      cases mem
    · intro write mem above
      rw [show first.writes = [stepRow engine registry runId i step b] from if_pos durable,
        List.mem_singleton] at mem
      rw [mem, stepRow_stepIdx] at above
      exact absurd below (not_lt.mpr above)
    · intro after after' go go'
      obtain ⟨goesOn, rfl⟩ := bindings_of_go go'
      rw [parsed] at goesOn
      have given : found.outputs = engine.contents value := by
        have settled := reading_of_goesOn goesOn
        rw [read] at goesOn settled
        exact (Reading.given.inj ((reading_of_goesOn goesOn).symm.trans settled)).symm
      rw [boundValue, given]
      rw [decide_eq_true below] at together
      have next := together.restored skip skip' durable ok go
      rw [← decide_eq_true below] at next
      exact next.next
  · -- the primitive is called again, or for the first time
    have result : call.result = registry.dispatch step b' := by rw [show call = _ from missed]; rfl
    have writes : call.writes = if registry.durable step.call then
        [stepRow engine registry runId i step b'] else [] := by rw [show call = _ from missed]; rfl
    have firstWrites : first.writes = if registry.durable step.call then
        [stepRow engine registry runId i step b] else [] := rfl
    rw [result]
    refine ⟨alike, ?_, ?_⟩
    · rw [writes, firstWrites]
      split
      · refine ⟨?_, ?_⟩
        · intro w mem write mem' _
          rw [List.mem_singleton.mp mem, List.mem_singleton.mp mem']
          exact own
        · intro write mem _
          refine ⟨_, List.mem_singleton_self _, ?_⟩
          rw [List.mem_singleton.mp mem, stepRow_stepIdx, stepRow_stepIdx]
      · exact ⟨fun w mem => (by cases mem), fun write mem => (by cases mem)⟩
    · intro after after' go go'
      refine (together.called skip skip' (fun restoring durable => ?_) go go').next
      -- a completed row would have been found
      obtain ⟨found, present, stands⟩ := rows _ (row durable) (of_decide_eq_true restoring)
      cases outcome : registry.dispatch step b with
      | error message => exact ⟨message, rfl⟩
      | ok value =>
          have complete := spec.2.2.2.2.2.mpr ⟨value, outcome⟩
          exact absurd (stands.inputsHash.trans own.inputsHash.symm)
            (miss found present durable (stands.status.trans complete))

/-- The evaluator on the rows of an interrupted call stays in step with the uninterrupted call. -/
theorem evalSteps_eq {start : Bool → Nat → Bindings ρ → Bindings ρ → Prop}
    (cannotTell : CannotTell engine registry start) {R : Bindings Value → Bindings Value → Prop}
    (keeps : KeptBySet R) {prior : Nat → Option CheckpointRow} {m : Nat}
    {steps : List ProcessStep} {i : Nat} {b b' : Bindings ρ}
    (together : Together engine registry start (decide (i < m)) i b b')
    (same : R (engine.contentsOf b) (engine.contentsOf b'))
    (left : Left (evalSteps engine registry runId noPrior i steps b).writes m prior) :
    let whole := evalSteps engine registry runId noPrior i steps b
    let run := evalSteps engine registry runId prior i steps b'
    run.result = whole.result ∧
      R (engine.contentsOf whole.bindings) (engine.contentsOf run.bindings) ∧
      Follows m run.writes whole.writes := by
  induction steps generalizing i b b' with
  | nil => exact ⟨rfl, same, nofun, nofun⟩
  | cons step rest ih =>
      obtain ⟨condition, call⟩ := cannotTell _ _ _ _ together
      have skips : skipped engine step b' = skipped engine step b := by
        rw [skipped, skipped]
        simp only [condition]
      cases skip : skipped engine step b with
      | true =>
          rw [skip] at skips
          simp only [evalSteps_skip skip, evalSteps_skip skips] at left ⊢
          exact ih (together.skip skip skips).next same left
      | false =>
          rw [skip] at skips
          have first : invoke engine registry runId i step b (noPrior i) =
              firstCall engine registry runId i step b := invoke_none
          have rows : ∀ write ∈ (firstCall engine registry runId i step b).writes, i < m →
              ∃ row, prior i = some row ∧ Alike row write := by
            intro write mem below
            have place : write.stepIdx = i := by
              rw [← first] at mem
              rw [(mem_invoke_writes mem).2, stepRow_stepIdx]
            refine place ▸ left.rows write ?_ (place.symm ▸ below)
            cases next : afterCall engine i step b
                (invoke engine registry runId i step b (noPrior i)).result with
            | done result =>
                rw [evalSteps_done skip next, first]
                exact List.mem_append_left _ mem
            | go after =>
                rw [evalSteps_go skip next, first]
                exact List.mem_append_left _ mem
          obtain ⟨alike, writes, next⟩ := invoke_alike together skip skips
            (keeps.names _ _ same) (call step.call (step.args.getD [])) rows (left.rest i)
          rw [← first] at alike writes next
          rcases afterCall_alike keeps same alike with
            ⟨ended, done, done'⟩ | ⟨after, after', go, go', kept⟩
          · rw [evalSteps_done skip done, evalSteps_done skips done']
            simp only [Run.after, List.append_nil]
            exact ⟨trivial, same, writes⟩
          · rw [evalSteps_go skip go] at left ⊢
            rw [evalSteps_go skips go']
            have leftTail : Left (evalSteps engine registry runId noPrior (i + 1) rest after).writes
                m prior :=
              ⟨fun write mem => left.rows write (List.mem_append_right _ mem), left.rest⟩
            obtain ⟨results, finals, tail⟩ := ih (next after after' go go') kept leftTail
            refine ⟨results, finals, writes.append (n := i) tail ?_ ?_⟩
            · intro w mem
              rcases List.mem_append.mp mem with here | here <;>
                rw [(mem_invoke_writes here).2, stepRow_stepIdx]
            · intro w mem
              rcases List.mem_append.mp mem with later | later <;>
                exact (mine_of_mem later).2.1

end

/-! ## Primitives that read contents -/

section

variable {ρ : Type}

/-- Conditions and primitives read what the bindings contain, by name. -/
structure ReadsContents (engine : Engine ρ) (registry : FunctionRegistry engine) : Prop where
  condition : ∀ b b', SameNames (engine.contentsOf b) (engine.contentsOf b') →
    ∀ expr, engine.evalCondition expr b = engine.evalCondition expr b'
  call : ∀ b b', SameNames (engine.contentsOf b) (engine.contentsOf b') → ∀ fn args,
    (registry.call fn args b').map engine.contents = (registry.call fn args b).map engine.contents

variable {engine : Engine ρ} {registry : FunctionRegistry engine} {b b' : Bindings ρ}

theorem ReadsContents.agree (reads : ReadsContents engine registry)
    (same : SameNames (engine.contentsOf b) (engine.contentsOf b')) :
    Agree engine registry b b' := by
  refine ⟨reads.condition b b' same, fun fn args => ?_⟩
  rw [Engine.reading, Engine.reading, same.args, reads.call b b' same]

theorem ReadsContents.sameNames (reads : ReadsContents engine registry)
    {start : Bool → Nat → Bindings ρ → Bindings ρ → Prop}
    (starts : ∀ restoring i b b', start restoring i b b' →
      SameNames (engine.contentsOf b) (engine.contentsOf b'))
    {restoring : Bool} {i : Nat} (together : Together engine registry start restoring i b b') :
    SameNames (engine.contentsOf b) (engine.contentsOf b') := by
  induction together with
  | start begins => exact starts _ _ _ _ begins
  | cut _ ih => exact ih
  | skip _ _ _ ih => exact ih
  | restored _ _ _ _ _ go ih =>
      rw [(bindings_of_go go).2, contentsOf_bindAs, contentsOf_bindAs, engine.contents_parsed,
        boundValue, bindAs, bindAs]
      split
      · exact keptBySet_sameNames.set _ _ _ _ ih
      · exact ih
  | called _ _ _ _ go go' ih =>
      rename_i step _ _ _ _
      rcases afterCall_alike keptBySet_sameNames ih
        ((reads.agree ih).call step.call (step.args.getD [])) with
        ⟨ended, done, _⟩ | ⟨after, after', goes, goes', kept⟩
      · cases go.symm.trans done
      · cases go.symm.trans goes
        cases go'.symm.trans goes'
        exact kept

/-- What reads contents only can tell no objects apart. -/
theorem ReadsContents.cannotTell (reads : ReadsContents engine registry)
    {start : Bool → Nat → Bindings ρ → Bindings ρ → Prop}
    (starts : ∀ restoring i b b', start restoring i b b' →
      SameNames (engine.contentsOf b) (engine.contentsOf b')) :
    CannotTell engine registry start :=
  fun _ _ _ _ together => reads.agree (reads.sameNames starts together)

end

end Opensquid.Durable
