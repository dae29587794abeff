import Opensquid.Durable.CheckpointStore
import Opensquid.Lib.PathText
import Opensquid.Lib.Whitespace

/-!
# The process evaluator with checkpoints

`evaluateProcess` walks the steps of a rule. A step whose primitive is durable is
skipped when the run has a completed row of that step with the same inputs hash:
the row's outputs stand for the primitive's value. Otherwise the primitive is
called and the outcome is written.

A run records, besides its result and final bindings, the rows it writes and the
primitives it invokes, in order. A process that dies leaves a prefix of these
writes behind.

Bindings hold JavaScript values, which have an identity and an order of their keys.
The loop reads only what they contain; conditions and primitives can read the rest.
-/

namespace Opensquid.Durable

open Opensquid.Lib

/-! ## Bindings -/

/-- A `Map` from names to values. -/
abbrev Bindings (ρ : Type) := List (String × ρ)

namespace Bindings

variable {ρ : Type}

def set (bindings : Bindings ρ) (name : String) (value : ρ) : Bindings ρ :=
  if bindings.any (·.1 = name) then
    bindings.map fun entry => if entry.1 = name then (name, value) else entry
  else bindings ++ [(name, value)]

theorem get_append (name : String) (bindings more : Bindings ρ) :
    Value.get name (bindings ++ more) = (Value.get name bindings).or (Value.get name more) := by
  induction bindings with
  | nil => rfl
  | cons entry rest ih =>
      rw [List.cons_append, Value.get, Value.get, ih]
      split <;> rfl

theorem get_eq_none_iff {name : String} {bindings : Bindings ρ} :
    Value.get name bindings = none ↔ ∀ entry ∈ bindings, entry.1 ≠ name := by
  induction bindings with
  | nil => exact iff_of_true rfl (List.forall_mem_nil _)
  | cons entry rest ih =>
      rw [List.forall_mem_cons, ← ih, Value.get]
      by_cases here : entry.1 = name
      · rw [if_pos here]
        exact iff_of_false (Option.some_ne_none _) fun both => both.1 here
      · rw [if_neg here]
        exact (and_iff_right here).symm

/-- The entries of the name get a value. -/
theorem get_replace (name other : String) (value : ρ) (bindings : Bindings ρ) :
    Value.get other (bindings.map fun entry => if entry.1 = name then (name, value) else entry) =
      if name = other then (Value.get other bindings).map fun _ => value
      else Value.get other bindings := by
  induction bindings with
  | nil => exact (ite_self _).symm
  | cons entry rest ih =>
      rw [List.map_cons]
      by_cases here : entry.1 = name
      · rw [if_pos here, Value.get, ih, Value.get, here]
        split <;> rfl
      · rw [if_neg here, Value.get, ih, Value.get]
        by_cases same : name = other
        · subst same
          rw [if_neg here, if_pos rfl, if_pos rfl, if_neg here]
        · rw [if_neg same, if_neg same]

theorem get_set (bindings : Bindings ρ) (name other : String) (value : ρ) :
    Value.get other (bindings.set name value) =
      if name = other then some value else Value.get other bindings := by
  rw [Bindings.set]
  split
  · rename_i bound
    obtain ⟨entry, mem, named⟩ := List.any_eq_true.mp bound
    rw [get_replace]
    split
    · rename_i same
      subst same
      cases there : Value.get name bindings with
      | none => exact absurd (of_decide_eq_true named) (get_eq_none_iff.mp there entry mem)
      | some old => rfl
    · rfl
  · rename_i unbound
    rw [get_append, Value.get]
    split
    · rename_i same
      subst same
      have absent : Value.get name bindings = none := get_eq_none_iff.mpr fun entry mem named =>
        unbound (List.any_eq_true.mpr ⟨entry, mem, decide_eq_true named⟩)
      rw [absent, Option.none_or]
    · rw [Value.get, Option.or_none]

end Bindings

/-! ## Steps and results -/

inductive OnEmpty
  | pass
  | block
  | «continue»
  deriving DecidableEq, Repr

inductive OnError
  | abort
  | «continue»
  deriving DecidableEq, Repr

structure ProcessStep where
  call : String
  args : Option (List (String × Value)) := none
  as : Option String := none
  «if» : Option String := none
  onEmpty : Option OnEmpty := none
  onError : Option OnError := none

inductive RuleResult
  | verdict (verdict : Value)
  | directive (nextAction : Value)
  | noVerdict
  | error (error : String) (step : Nat)
  | injectContext (content : String)

/-- What the evaluator runs on: JavaScript values with what they contain, and the pure
functions that it is given, the expression evaluator of `if`, `String(n)` and the digest
of a canonical JSON text, which the canonical form determines. -/
structure Engine (ρ : Type) where
  contents : ρ → Value
  ofString : String → ρ
  /-- The new value that `canonicalJsonParse` makes when the row of a step is read. -/
  parsed : Nat → Value → ρ
  evalCondition : String → Bindings ρ → Bool
  numberText : ℚ → String
  sha256Hex : Value → String
  contents_ofString : ∀ s, contents (ofString s) = .str s
  contents_parsed : ∀ i v, contents (parsed i v) = v

/-- A function registry. A primitive gives a value or an error message, determined
by its arguments, which are made for the call, and the bindings; a durable primitive
gives plain JSON. -/
structure FunctionRegistry {ρ : Type} (engine : Engine ρ) where
  durable : String → Bool
  call : String → Value → Bindings ρ → Except String ρ
  plain : ∀ {fn args bindings value}, durable fn = true → call fn args bindings = .ok value →
    (engine.contents value).Plain

def Engine.inputsHash {ρ : Type} (engine : Engine ρ) (fn : String) (args : Value) : String :=
  engine.sha256Hex (Value.canonicalize (.obj [("args", args), ("fn", .str fn)]))

/-- What the bindings contain. -/
def Engine.contentsOf {ρ : Type} (engine : Engine ρ) (bindings : Bindings ρ) : Bindings Value :=
  bindings.map fun entry => (entry.1, engine.contents entry.2)

section

variable {ρ : Type} (engine : Engine ρ)

theorem get_contentsOf (name : String) (bindings : Bindings ρ) :
    Value.get name (engine.contentsOf bindings) =
      (Value.get name bindings).map engine.contents := by
  induction bindings with
  | nil => rfl
  | cons entry rest ih =>
      rw [Engine.contentsOf, List.map_cons, Value.get, Value.get]
      split
      · rfl
      · exact ih

theorem contentsOf_set (bindings : Bindings ρ) (name : String) (value : ρ) :
    engine.contentsOf (bindings.set name value) =
      (engine.contentsOf bindings).set name (engine.contents value) := by
  have bound : (engine.contentsOf bindings).any (·.1 = name) = bindings.any (·.1 = name) := by
    rw [Engine.contentsOf, List.any_map]
    rfl
  rw [Bindings.set, Bindings.set, bound]
  split
  · rw [Engine.contentsOf, Engine.contentsOf, List.map_map, List.map_map]
    refine List.map_congr_left fun entry _ => ?_
    rw [Function.comp_apply, Function.comp_apply]
    split <;> rfl
  · rw [Engine.contentsOf, List.map_append]
    rfl

end

/-! ## Interpolation -/

/-- `[\w.]`. -/
def isNameChar (c : Char) : Bool := c.isAlphanum || c = '_' || c = '.'

/-- The template that the text starts with, as its name and what follows. -/
def templateAt : List Char → Option (String × List Char)
  | '\x7b' :: '\x7b' :: rest =>
      let inner := rest.dropWhile isSpace
      let name := inner.takeWhile isNameChar
      match (inner.dropWhile isNameChar).dropWhile isSpace with
      | '\x7d' :: '\x7d' :: after => if name = [] then none else some (String.ofList name, after)
      | _ => none
  | _ => none

/-- Replace every template, from left to right; `n` bounds the text's length. -/
def replaceTemplates (substitute : String → String) : Nat → List Char → List Char
  | n + 1, c :: rest =>
      match templateAt (c :: rest) with
      | some (name, after) => (substitute name).toList ++ replaceTemplates substitute n after
      | none => c :: replaceTemplates substitute n rest
  | _, _ => []

def indexed (items : List Value) (key : String) : Value :=
  if key = "length" then .num items.length
  else ((items.zipIdx.find? fun entry => toString entry.2 = key).map Prod.fst).getD .undefined

/-- `cur[segment]`. What a prototype holds prints as nothing, like an absent
property. -/
def property (cur : Value) (segment : String) : Value :=
  match cur with
  | .obj fields => (Value.get segment fields).getD .undefined
  | .arr items => indexed items segment
  | .buffer bytes => indexed (bytes.map fun b => .num b.toNat) segment
  | _ => .undefined

def resolveBindingPath (path : String) (bindings : Bindings Value) : Value :=
  match PathText.segs '.' path with
  | [] => .undefined
  | head :: segments => segments.foldl property ((Value.get head bindings).getD .undefined)

def policyToolActualName (v : Value) : Option String :=
  match v, v.field "__opensquidPolicyToolValue", v.field "aliases" with
  | .str s, _, _ => some s
  | _, some (.bool true), some (.arr _) => v.textField "actual"
  | _, _, _ => none

section

variable {ρ : Type} (engine : Engine ρ)

def stringifyBinding (v : Value) : String :=
  match policyToolActualName v with
  | some name => name
  | none =>
      match v with
      | .num n => engine.numberText n
      | .bool b => if b then "true" else "false"
      | _ => ""

variable (bindings : Bindings ρ)

mutual

def interpolateValue : Value → Value
  | .str s => .str (String.ofList (replaceTemplates
      (fun name => stringifyBinding engine
        (resolveBindingPath name (engine.contentsOf bindings)))
      s.toList.length s.toList))
  | .arr items => .arr (interpolateItems items)
  | .obj fields => .obj (interpolateFields fields)
  | .buffer bytes => .buffer bytes
  | .undefined => .undefined
  | .null => .null
  | .bool b => .bool b
  | .num n => .num n

def interpolateItems : List Value → List Value
  | [] => []
  | v :: rest => interpolateValue v :: interpolateItems rest

/-- As in `canonicalize`, assigning `__proto__` adds no key. -/
def interpolateFields : List (String × Value) → List (String × Value)
  | [] => []
  | (key, v) :: rest =>
      if key = "__proto__" then interpolateFields rest
      else (key, interpolateValue v) :: interpolateFields rest

end

def interpolateArgs (args : List (String × Value)) : Value :=
  interpolateValue engine bindings (.obj args)

end

/-! ## Shapes of values -/

def isEmpty : Value → Bool
  | .undefined => true
  | .null => true
  | .arr [] => true
  | .str s => s = ""
  | _ => false

/-- `typeof v === 'object' && v !== null`. -/
def isObject : Value → Bool
  | .arr _ => true
  | .obj _ => true
  | .buffer _ => true
  | _ => false

def isVerdict (v : Value) : Bool :=
  match v.textField "level" with
  | none => false
  | some level =>
      if level = "directive" then (v.field "next_action").any isObject
      else (v.textField "message").isSome

/-- `isInjectContext`, with the content. -/
def injectedContext (v : Value) : Option String :=
  if v.textField "kind" = some "inject_context" then v.textField "content" else none

/-! ## One call -/

structure Invocation where
  stepIdx : Nat
  fn : String
  args : Value

/-- The outcome of a call, the row it wrote and the primitive it invoked. -/
structure Called (ρ : Type) where
  result : Except String ρ
  writes : List CheckpointRow
  invocations : List Invocation

/-- The outputs of a completed row with that inputs hash. -/
def checkpointHit (prior : Option CheckpointRow) (inputsHash : String) : Option Value :=
  prior.bind fun row =>
    if row.status = .completed ∧ row.inputsHash = inputsHash then some row.outputs else none

/-- What the loop does after a call: return or go on to the next step. -/
inductive Next (ρ : Type)
  | done (result : RuleResult)
  | go (bindings : Bindings ρ)

/-- A run of the evaluator. -/
structure Run (ρ : Type) where
  result : RuleResult
  bindings : Bindings ρ
  writes : List CheckpointRow
  invocations : List Invocation

section

variable {ρ : Type} (engine : Engine ρ) (registry : FunctionRegistry engine) (runId : String)

/-- The row of an outcome. -/
def checkpointWrite (i : Nat) (step : ProcessStep) (args : Value) :
    Except String ρ → CheckpointRow
  | .ok value =>
      { runId, stepIdx := i, fn := step.call, inputsHash := engine.inputsHash step.call args,
        outputs := engine.contents value, asBinding := step.as, status := .completed,
        errorMessage := none }
  | .error message =>
      { runId, stepIdx := i, fn := step.call, inputsHash := engine.inputsHash step.call args,
        outputs := .null, asBinding := step.as, status := .errored, errorMessage := some message }

def invokeDurable (i : Nat) (step : ProcessStep) (args : Value) (bindings : Bindings ρ)
    (prior : Option CheckpointRow) : Called ρ :=
  match checkpointHit prior (engine.inputsHash step.call args) with
  | some outputs => ⟨.ok (engine.parsed i outputs), [], []⟩
  | none =>
      let result := registry.call step.call args bindings
      ⟨result, [checkpointWrite engine runId i step args result], [⟨i, step.call, args⟩]⟩

/-- The dispatch of a step. -/
def invoke (i : Nat) (step : ProcessStep) (bindings : Bindings ρ)
    (prior : Option CheckpointRow) : Called ρ :=
  let args := interpolateArgs engine bindings (step.args.getD [])
  if registry.durable step.call then
    invokeDurable engine registry runId i step args bindings prior
  else ⟨registry.call step.call args bindings, [], [⟨i, step.call, args⟩]⟩

/-! ## The loop -/

def bindAs (step : ProcessStep) (value : ρ) (bindings : Bindings ρ) : Bindings ρ :=
  match step.as with
  | some name => bindings.set name value
  | none => bindings

def verdictResult (v : Value) : RuleResult :=
  if v.textField "level" = some "directive" then
    .directive ((v.field "next_action").getD .undefined)
  else .verdict v

def returnedEmpty (i : Nat) : Value :=
  .obj [("level", .str "block"), ("message", .str ("Step " ++ toString i ++ " returned empty"))]

def afterCall (i : Nat) (step : ProcessStep) (bindings : Bindings ρ) :
    Except String ρ → Next ρ
  | .error message =>
      if step.onError = some .continue then
        .go (bindAs step (engine.ofString message) bindings)
      else .done (.error message i)
  | .ok value =>
      let v := engine.contents value
      if step.call = "verdict" ∧ isVerdict v then .done (verdictResult v)
      else
        match injectedContext v with
        | some content => .done (.injectContext content)
        | none =>
            if isEmpty v ∧ step.onEmpty = some .pass then .done .noVerdict
            else if isEmpty v ∧ step.onEmpty = some .block then
              .done (.verdict (returnedEmpty i))
            else .go (bindAs step value bindings)

def Run.after (call : Called ρ) (run : Run ρ) : Run ρ :=
  { run with
    writes := call.writes ++ run.writes
    invocations := call.invocations ++ run.invocations }

def skipped (step : ProcessStep) (bindings : Bindings ρ) : Bool :=
  step.if.any fun expr => !engine.evalCondition expr bindings

def evalSteps (prior : Nat → Option CheckpointRow) :
    Nat → List ProcessStep → Bindings ρ → Run ρ
  | _, [], bindings => ⟨.noVerdict, bindings, [], []⟩
  | i, step :: rest, bindings =>
      if skipped engine step bindings then evalSteps prior (i + 1) rest bindings
      else
        let call := invoke engine registry runId i step bindings (prior i)
        match afterCall engine i step bindings call.result with
        | .done result => .after call ⟨result, bindings, [], []⟩
        | .go bindings => .after call (evalSteps prior (i + 1) rest bindings)

/-- `evaluateProcess` with a checkpoint store and without a memo cache. -/
def evaluateProcess (steps : List ProcessStep) (bindings : Bindings ρ)
    (store : CheckpointStore) : Run ρ :=
  evalSteps engine registry runId (store.loadCheckpointMap runId) 0 steps bindings

end

end Opensquid.Durable
