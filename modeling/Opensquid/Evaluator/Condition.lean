import Opensquid.Lib.LossyCache
import Opensquid.Evaluator.Interpreter

/-!
# Conditions

`evalCondition` parses a text through a cache of trees that lives as long as the process, evaluates
the tree and answers false, with a warning, wherever something goes wrong. Over every history of
calls the answers are those of the texts alone (`evalConditions_exact`).
-/

namespace Opensquid.Evaluator

open Opensquid.Lib

variable {ν : Type}

inductive Warning
  | expression (error : ExpressionError)
  | limit (limit : Limit)
  | runtime (error : RuntimeError)
  deriving DecidableEq, Repr

/-- What a call of `evalCondition` gives, and the kind of what it warns of. -/
structure Answer where
  holds : Bool
  warning : Option Warning
  deriving DecidableEq, Repr

section

variable (number : List Char → ν) (numbers : JsNumbers ν)
  (compile : List Char → Option (Value ν → Except RuntimeError Bool))

/-- The tree of a text that is trimmed and not empty. -/
def parseTrimmed (trimmed : List Char) : Except ExpressionError (ASTNode ν) :=
  match tokenize trimmed.length 0 trimmed with
  | none => .error .lexing
  | some tokens => parseTokens number tokens

/-- The context of a condition: the bindings, and the functions that are allowed. -/
def conditionCtx (bindings : List Char → Option (Value ν)) : EvalCtx ν :=
  ⟨bindings, FUNCTIONS numbers compile⟩

def answerOf (result : Except (Limit ⊕ RuntimeError) (Value ν × Nat)) : Answer :=
  match result with
  | .ok (value, _) => ⟨value.truthy numbers, none⟩
  | .error (.inl limit) => ⟨false, some (.limit limit)⟩
  | .error (.inr error) => ⟨false, some (.runtime error)⟩

def answerTree (bindings : List Char → Option (Value ν)) :
    Except ExpressionError (ASTNode ν) → Answer
  | .error error => ⟨false, some (.expression error)⟩
  | .ok ast => answerOf numbers (evaluate numbers (conditionCtx numbers compile bindings) ast 0 0)

variable (cache : LossyCache (List Char) (ASTNode ν))

def evalCondition (s : cache.State) (expr : List Char)
    (bindings : List Char → Option (Value ν)) : Answer × cache.State :=
  let trimmed := trim expr
  if trimmed = [] then (⟨true, none⟩, s)
  else
    let (parsed, s) := cache.memo (parseTrimmed number) s trimmed
    (answerTree numbers compile bindings parsed, s)

/-- A call of `evalCondition`. -/
structure ConditionCall (ν : Type) where
  expr : List Char
  bindings : List Char → Option (Value ν)

/-- The calls of a process, one after the other. -/
def evalConditions (s : cache.State) : List (ConditionCall ν) → List Answer
  | [] => []
  | call :: calls =>
      let (answer, s) := evalCondition number numbers compile cache s call.expr call.bindings
      answer :: evalConditions s calls

/-! ## What a text alone says -/

/-- The text has a tree that denotes the value within the caps. -/
def Denotes (call : ConditionCall ν) (value : Value ν) : Prop :=
  ∃ node, parseExpression number call.expr = .ok node ∧
    (meaning numbers (conditionCtx numbers compile call.bindings) node).Fits caps 0 0 ∧
    (meaning numbers (conditionCtx numbers compile call.bindings) node).outcome = .ok value

/-- Blank, or a truthy value. -/
def Holds (call : ConditionCall ν) : Prop :=
  trim call.expr = [] ∨
    ∃ value, Denotes number numbers compile call value ∧ value.truthy numbers = true

/-- Blank, or any value. -/
def Sound (call : ConditionCall ν) : Prop :=
  trim call.expr = [] ∨ ∃ value, Denotes number numbers compile call value

/-- The answer says what the text alone says, and is silent only where all went well. -/
structure Exact (call : ConditionCall ν) (answer : Answer) : Prop where
  holds : answer.holds = true ↔ Holds number numbers compile call
  silent : answer.warning = none ↔ Sound number numbers compile call

variable {number numbers compile}

theorem parseExpression_of_some {expr : List Char} (some_text : trim expr ≠ []) :
    parseExpression number expr = parseTrimmed number (trim expr) := by
  rw [parseExpression, if_neg some_text]
  rfl

theorem exact_blank {call : ConditionCall ν} (blank : trim call.expr = []) :
    Exact number numbers compile call ⟨true, none⟩ where
  holds := iff_of_true rfl (.inl blank)
  silent := iff_of_true rfl (.inl blank)

/-- A text that denotes nothing: the answer is a warning. -/
theorem exact_warned {call : ConditionCall ν} (some_text : trim call.expr ≠ [])
    (nothing : ∀ value, ¬ Denotes number numbers compile call value) (warning : Warning) :
    Exact number numbers compile call ⟨false, some warning⟩ where
  holds := by
    refine iff_of_false Bool.false_ne_true fun holds => ?_
    rcases holds with blank | ⟨value, denotes, -⟩
    · exact some_text blank
    · exact nothing value denotes
  silent := by
    refine iff_of_false nofun fun sound => ?_
    rcases sound with blank | ⟨value, denotes⟩
    · exact some_text blank
    · exact nothing value denotes

/-- A text denotes one value at most. -/
theorem denotes_unique {call : ConditionCall ν} {value value' : Value ν}
    (denotes : Denotes number numbers compile call value)
    (denotes' : Denotes number numbers compile call value') : value = value' := by
  obtain ⟨node, parsed, -, outcome⟩ := denotes
  obtain ⟨node', parsed', -, outcome'⟩ := denotes'
  obtain rfl := Except.ok.inj (parsed.symm.trans parsed')
  exact Except.ok.inj (outcome.symm.trans outcome')

theorem exact_value {call : ConditionCall ν} {value : Value ν} (some_text : trim call.expr ≠ [])
    (denotes : Denotes number numbers compile call value) :
    Exact number numbers compile call ⟨value.truthy numbers, none⟩ where
  holds := by
    refine ⟨fun yes => .inr ⟨value, denotes, yes⟩, fun holds => ?_⟩
    rcases holds with blank | ⟨value', denotes', yes⟩
    · exact absurd blank some_text
    · rw [denotes_unique denotes denotes']
      exact yes
  silent := iff_of_true rfl (.inr ⟨value, denotes⟩)

theorem exact_answerTree {call : ConditionCall ν} (some_text : trim call.expr ≠ []) :
    Exact number numbers compile call
      (answerTree numbers compile call.bindings (parseTrimmed number (trim call.expr))) := by
  have parsing : parseExpression number call.expr = parseTrimmed number (trim call.expr) :=
    parseExpression_of_some some_text
  cases parsed : parseTrimmed number (trim call.expr) with
  | error error =>
      refine exact_warned some_text (fun value denotes => ?_) _
      obtain ⟨node, read, -⟩ := denotes
      rw [parsing, parsed] at read
      cases read
  | ok ast =>
      rw [parsed] at parsing
      have same {node : ASTNode ν} (read : parseExpression number call.expr = .ok node) :
          node = ast := Except.ok.inj (read.symm.trans parsing)
      obtain ⟨within, beyond⟩ :=
        evaluate_exact numbers (conditionCtx numbers compile call.bindings) ast
      rw [answerTree]
      by_cases fits :
          (meaning numbers (conditionCtx numbers compile call.bindings) ast).Fits caps 0 0
      · rw [within fits]
        cases outcome :
            (meaning numbers (conditionCtx numbers compile call.bindings) ast).outcome with
        | ok value => exact exact_value some_text ⟨ast, parsing, fits, outcome⟩
        | error error =>
            refine exact_warned some_text (fun value denotes => ?_) _
            obtain ⟨node, read, -, denoted⟩ := denotes
            rw [same read, outcome] at denoted
            cases denoted
      · obtain ⟨limit, stopped⟩ := beyond fits
        rw [stopped]
        refine exact_warned some_text (fun value denotes => ?_) _
        obtain ⟨node, read, fits', -⟩ := denotes
        rw [same read] at fits'
        exact fits fits'

variable {cache}

theorem evalCondition_spec {s : cache.State} (agrees : cache.Agrees (parseTrimmed number) s)
    (call : ConditionCall ν) :
    Exact number numbers compile call
        (evalCondition number numbers compile cache s call.expr call.bindings).1 ∧
      cache.Agrees (parseTrimmed number)
        (evalCondition number numbers compile cache s call.expr call.bindings).2 := by
  unfold evalCondition
  dsimp only
  split
  next blank => exact ⟨exact_blank blank, agrees⟩
  next some_text =>
    refine ⟨?_, LossyCache.memo_agrees agrees _⟩
    rw [LossyCache.memo_fst agrees]
    exact exact_answerTree some_text

theorem forall_evalConditions {s : cache.State} (agrees : cache.Agrees (parseTrimmed number) s)
    (calls : List (ConditionCall ν)) :
    List.Forall₂ (Exact number numbers compile) calls
      (evalConditions number numbers compile cache s calls) := by
  induction calls generalizing s with
  | nil => exact .nil
  | cons call calls ih =>
      have spec : Exact number numbers compile call
          (evalCondition number numbers compile cache s call.expr call.bindings).1 ∧ _ :=
        evalCondition_spec agrees call
      exact .cons spec.1 (ih spec.2)

/-- Whatever the cache forgets, every answer of a process is true exactly if its text is blank, or
denotes within the caps a value that is truthy; and it comes without a warning exactly if the text
is blank or denotes a value at all. -/
theorem evalConditions_exact (calls : List (ConditionCall ν)) :
    List.Forall₂ (Exact number numbers compile) calls
      (evalConditions number numbers compile cache cache.empty calls) :=
  forall_evalConditions LossyCache.agrees_empty calls

end

end Opensquid.Evaluator
