import Opensquid.Lib.Metered
import Opensquid.Lib.Utf16
import Opensquid.Evaluator.Parser

/-!
# The expression interpreter

Conditions of a pack are evaluated by walking their trees, with a cap on the depth and on the nodes
that are visited. `meaning` says what a tree denotes when nothing is capped, and what it takes;
`evaluate_exact`: the interpreter gives the meaning of every tree that stays within the caps, and a
limit error for every other tree. A small tree stays within them (`fits_of_small`); a flat chain of
more operands than the depth cap allows does not, as its tree leans to the left (`chain_limit`).
-/

namespace Opensquid.Evaluator

open Opensquid.Lib

/-! ## Values -/

/-- A value that an expression can meet; `===` tells arrays and objects by their identity. -/
inductive Value (ν : Type)
  | undefined
  | null
  | boolean (value : Bool)
  | number (value : ν)
  | string (value : List Char)
  | array (identity : Nat) (items : List (Value ν))
  | object (identity : Nat) (fields : List (List Char × Value ν))

/-- What the interpreter asks of numbers. -/
structure JsNumbers (ν : Type) where
  ofLength : Nat → ν
  eq : ν → ν → Bool
  lt : ν → ν → Bool
  le : ν → ν → Bool
  truthy : ν → Bool
  /-- The array index that the number is. -/
  index : ν → Option Nat

variable {ν : Type}

namespace Value

def isNullish : Value ν → Bool
  | undefined | null => true
  | boolean _ | number _ | string _ | array _ _ | object _ _ => false

def asBoolean : Value ν → Option Bool
  | boolean value => some value
  | undefined | null | number _ | string _ | array _ _ | object _ _ => none

def asNumber : Value ν → Option ν
  | number value => some value
  | undefined | null | boolean _ | string _ | array _ _ | object _ _ => none

def asString : Value ν → Option (List Char)
  | string value => some value
  | undefined | null | boolean _ | number _ | array _ _ | object _ _ => none

def asArray : Value ν → Option (List (Value ν))
  | array _ items => some items
  | undefined | null | boolean _ | number _ | string _ | object _ _ => none

/-- `Boolean(value)`. -/
def truthy (numbers : JsNumbers ν) : Value ν → Bool
  | undefined | null => false
  | boolean value => value
  | number value => numbers.truthy value
  | string value => value ≠ []
  | array _ _ | object _ _ => true

/-- `lhs === rhs`. -/
def strictEquals (numbers : JsNumbers ν) : Value ν → Value ν → Bool
  | undefined, undefined | null, null => true
  | boolean a, boolean b => a = b
  | number a, number b => numbers.eq a b
  | string a, string b => a = b
  | array a _, array b _ | object a _, object b _ => a = b
  | _, _ => false

end Value

/-- The length of a string in UTF-16. -/
def stringLength (value : List Char) : Nat := (Utf16.encode value).length

/-! ## Tool values -/

def uniqueAliases (tool : List Char) : List (List Char) :=
  if tool = "MultiEdit".toList then ["MultiEdit".toList, "Edit".toList] else [tool]

/-- The tool and its aliases, where the value looks like one of `toPolicyToolValue`. -/
def asPolicyToolValue : Value ν → Option (List Char × List (Value ν))
  | .object _ fields => do
      let marked ← (fields.lookup "__opensquidPolicyToolValue".toList).bind Value.asBoolean
      let actual ← (fields.lookup "actual".toList).bind Value.asString
      let aliases ← (fields.lookup "aliases".toList).bind Value.asArray
      if marked then some (actual, aliases) else none
  | .undefined | .null | .boolean _ | .number _ | .string _ | .array _ _ => none

/-- `policyToolActualName`, which `toolValueString` is as well. -/
def policyToolActualName (value : Value ν) : Option (List Char) :=
  value.asString <|> (asPolicyToolValue value).map Prod.fst

def toolMatches (actual expected : List Char) : Bool :=
  (uniqueAliases actual).any (· = expected)

def toolValueEquals (lhs rhs : Value ν) : Option Bool :=
  match asPolicyToolValue lhs with
  | some (actual, _) => some ((policyToolActualName rhs).any (toolMatches actual))
  | none =>
      match asPolicyToolValue rhs with
      | some (actual, _) => some ((policyToolActualName lhs).any (toolMatches actual))
      | none => none

/-! ## Paths and comparisons -/

/-- An own property of an array under a string. -/
def elementNamed (items : List (Value ν)) (name : List Char) : Value ν :=
  (((List.range items.length).find? fun i => Nat.toDigits 10 i = name).bind (items[·]?)).getD
    .undefined

section

variable (numbers : JsNumbers ν)

def property (name : List Char) : Value ν → Value ν
  | .string value =>
      if name = "length".toList then .number (numbers.ofLength (stringLength value))
      else .undefined
  | .array _ items =>
      if name = "length".toList then .number (numbers.ofLength items.length)
      else elementNamed items name
  | .object _ fields => (fields.lookup name).getD .undefined
  | .undefined | .null | .boolean _ | .number _ => .undefined

/-- A string between brackets; `length` is an own property of an array, and not of a string. -/
def stringIndex (name : List Char) : Value ν → Value ν
  | .array _ items =>
      if name = "length".toList then .number (numbers.ofLength items.length)
      else elementNamed items name
  | .object _ fields => (fields.lookup name).getD .undefined
  | .undefined | .null | .boolean _ | .number _ | .string _ => .undefined

def numberIndex (index : ν) (value : Value ν) : Value ν :=
  (value.asArray.bind fun items => (numbers.index index).bind (items[·]?)).getD .undefined

def resolveSegment (cur : Value ν) : PathSegment ν → Value ν
  | .prop name => property numbers name cur
  | .index (.inl index) => numberIndex numbers index cur
  | .index (.inr name) => stringIndex numbers name cur

def resolvePath : Value ν → List (PathSegment ν) → Value ν
  | cur, [] => cur
  | cur, segment :: segments =>
      if cur.isNullish then .undefined
      else resolvePath (resolveSegment numbers cur segment) segments

/-- Two numbers in an order. -/
def compareNumbers (compare : ν → ν → Bool) (lhs rhs : Value ν) : Bool :=
  lhs.asNumber.any fun a => rhs.asNumber.any (compare a)

/-- Called for the comparisons only. -/
def applyCompare (lhs rhs : Value ν) : BinaryOp → Bool
  | .eq => (toolValueEquals lhs rhs).getD (lhs.strictEquals numbers rhs)
  | .ne => !(toolValueEquals lhs rhs).getD (lhs.strictEquals numbers rhs)
  | .lt => compareNumbers numbers.lt lhs rhs
  | .le => compareNumbers numbers.le lhs rhs
  | .gt => compareNumbers numbers.lt rhs lhs
  | .ge => compareNumbers numbers.le rhs lhs
  | .and | .or => false

/-! ## Functions -/

inductive RuntimeError
  | unknownFunction (name : List Char)
  /-- A handler throws; of those of `FUNCTIONS`, on an alias of a forged tool value. -/
  | thrown
  deriving DecidableEq, Repr

abbrev FnHandler (ν : Type) := List (Value ν) → Except RuntimeError (Value ν)

def argument (args : List (Value ν)) (i : Nat) : Value ν := args[i]?.getD .undefined

def len (x : Value ν) : Nat :=
  match policyToolActualName x with
  | some text => stringLength text
  | none =>
      match x with
      | .array _ items => items.length
      | .object _ fields => fields.length
      | .undefined | .null | .boolean _ | .number _ | .string _ => 0

/-- `aliases.some(test)`. -/
def someAlias (test : Value ν → Except RuntimeError Bool) :
    List (Value ν) → Except RuntimeError Bool
  | [] => .ok false
  | name :: aliases => do if ← test name then .ok true else someAlias test aliases

/-- A test of a string, or of any alias of a tool value. -/
def withToolAliases (subject : Value ν) (test : Value ν → Except RuntimeError Bool) :
    Except RuntimeError Bool :=
  match asPolicyToolValue subject with
  | some (_, aliases) => someAlias test aliases
  | none =>
      match subject with
      | .string _ => test subject
      | .undefined | .null | .boolean _ | .number _ | .array _ _ | .object _ _ => .ok false

/-- A method of strings with one argument, which other values lack. -/
def stringMethod (method : List Char → List Char → Bool) (other : List Char) :
    Value ν → Except RuntimeError Bool
  | .string text => .ok (method other text)
  | .undefined | .null | .boolean _ | .number _ | .array _ _ | .object _ _ => .error .thrown

/-- Arrays have a method `includes` as well. -/
def includesMethod (part : List Char) : Value ν → Except RuntimeError Bool
  | .array _ items => .ok (items.any fun item => item.asString = some part)
  | .string text => .ok (part <:+: text)
  | .undefined | .null | .boolean _ | .number _ | .object _ _ => .error .thrown

/-- A test of a text against a second text; false unless both are given. -/
def textTest (test : List Char → Value ν → Except RuntimeError Bool) (args : List (Value ν)) :
    Except RuntimeError (Value ν) :=
  match argument args 1 with
  | .string other => (withToolAliases (argument args 0) (test other)).map .boolean
  | .undefined | .null | .boolean _ | .number _ | .array _ _ | .object _ _ =>
      .ok (.boolean false)

/-- `compile`: the test that RE2 makes of a pattern, where the pattern is one of its; on what is
no string the test can throw. Whatever is thrown, nothing matches. -/
def «match» (compile : List Char → Option (Value ν → Except RuntimeError Bool))
    (args : List (Value ν)) : Value ν :=
  let tested := textTest (fun pattern name => (compile pattern).elim (.ok false) (· name)) args
  tested.toOption.getD (.boolean false)

def FUNCTIONS (compile : List Char → Option (Value ν → Except RuntimeError Bool))
    (name : List Char) : Option (FnHandler ν) :=
  if name = "len".toList then
    some fun args => .ok (.number (numbers.ofLength (len (argument args 0))))
  else if name = "contains".toList then some (textTest includesMethod)
  else if name = "startsWith".toList then
    some (textTest (stringMethod fun start text => start.isPrefixOf text))
  else if name = "endsWith".toList then
    some (textTest (stringMethod fun stop text => stop.isSuffixOf text))
  else if name = "match".toList then some fun args => .ok («match» compile args)
  else none

end

/-! ## The interpreter -/

/-- The context of an evaluation, less its count of steps. -/
structure EvalCtx (ν : Type) where
  bindings : List Char → Option (Value ν)
  functions : List Char → Option (FnHandler ν)

/-- `MAX_DEPTH` and `MAX_STEPS`. -/
def caps : Caps := ⟨64, 10000⟩

def LiteralValue.toValue : LiteralValue ν → Value ν
  | .string value => .string value
  | .number value => .number value
  | .boolean value => .boolean value
  | .null => .null

section

variable (numbers : JsNumbers ν) (ctx : EvalCtx ν)

mutual

def evaluate : ASTNode ν → Nat → Capped RuntimeError (Value ν)
  | .literal value _, depth => do
      Capped.enter caps depth
      return value.toValue
  | .name id _, depth => do
      Capped.enter caps depth
      return (ctx.bindings id).getD .undefined
  | .path target segments _, depth => do
      Capped.enter caps depth
      let root ← evaluate target (depth + 1)
      return resolvePath numbers root segments
  | .call name args _, depth => do
      Capped.enter caps depth
      match ctx.functions name with
      | none => Capped.of (.error (RuntimeError.unknownFunction name))
      | some fn => do
          let args ← evaluateArgs args (depth + 1)
          Capped.of (fn args)
  | .unary operand _, depth => do
      Capped.enter caps depth
      let value ← evaluate operand (depth + 1)
      return .boolean (!value.truthy numbers)
  | .binary op lhs rhs _, depth => do
      Capped.enter caps depth
      let left ← evaluate lhs (depth + 1)
      if op = .and then
        if left.truthy numbers then evaluate rhs (depth + 1) else return left
      else if op = .or then
        if left.truthy numbers then return left else evaluate rhs (depth + 1)
      else do
        let right ← evaluate rhs (depth + 1)
        return .boolean (applyCompare numbers left right op)

/-- The arguments of a call, from left to right. -/
def evaluateArgs : List (ASTNode ν) → Nat → Capped RuntimeError (List (Value ν))
  | [], _ => return []
  | arg :: args, depth => do
      let value ← evaluate arg depth
      let values ← evaluateArgs args depth
      return value :: values

end

/-! ## The meaning of a tree -/

mutual

/-- What a tree denotes without caps, and what it takes: `&&` and `||` leave their right side alone
where the left one decides, and an error ends everything. -/
def meaning : ASTNode ν → Metered RuntimeError (Value ν)
  | .literal value _ => (Metered.pure value.toValue).visit
  | .name id _ => (Metered.pure ((ctx.bindings id).getD .undefined)).visit
  | .path target segments _ =>
      ((meaning target).bind fun root => .pure (resolvePath numbers root segments)).visit
  | .call name args _ =>
      (match ctx.functions name with
      | none => Metered.of (.error (RuntimeError.unknownFunction name))
      | some fn => (meanings args).bind fun values => .of (fn values)).visit
  | .unary operand _ =>
      ((meaning operand).bind fun value => .pure (.boolean (!value.truthy numbers))).visit
  | .binary op lhs rhs _ =>
      ((meaning lhs).bind fun left =>
        if op = .and then if left.truthy numbers then meaning rhs else .pure left
        else if op = .or then if left.truthy numbers then .pure left else meaning rhs
        else (meaning rhs).bind fun right =>
          .pure (.boolean (applyCompare numbers left right op))).visit

def meanings : List (ASTNode ν) → Metered RuntimeError (List (Value ν))
  | [] => .pure []
  | arg :: args => (meaning arg).bind fun value => (meanings args).bind fun values =>
      .pure (value :: values)

end

mutual

theorem evaluate_refines : (node : ASTNode ν) → ∀ depth,
    Refines caps depth (evaluate numbers ctx node depth) (meaning numbers ctx node)
  | .literal value _, depth => by
      rw [evaluate, meaning]
      exact .visit (.pure _)
  | .name id _, depth => by
      rw [evaluate, meaning]
      exact .visit (.pure _)
  | .path target segments _, depth => by
      rw [evaluate, meaning]
      exact .visit (.bind (evaluate_refines target (depth + 1)) fun root => .pure _)
  | .call name args _, depth => by
      rw [evaluate, meaning]
      refine .visit ?_
      cases ctx.functions name with
      | none => exact .of _
      | some fn => exact .bind (evaluateArgs_refines args (depth + 1)) fun values => .of _
  | .unary operand _, depth => by
      rw [evaluate, meaning]
      exact .visit (.bind (evaluate_refines operand (depth + 1)) fun value => .pure _)
  | .binary op lhs rhs _, depth => by
      rw [evaluate, meaning]
      refine .visit (.bind (evaluate_refines lhs (depth + 1)) fun left => ?_)
      have right := evaluate_refines rhs (depth + 1)
      by_cases conj : op = .and
      · rw [if_pos conj, if_pos conj]
        by_cases yes : left.truthy numbers = true
        · rw [if_pos yes, if_pos yes]
          exact right
        · rw [if_neg yes, if_neg yes]
          exact .pure left
      rw [if_neg conj, if_neg conj]
      by_cases disj : op = .or
      · rw [if_pos disj, if_pos disj]
        by_cases yes : left.truthy numbers = true
        · rw [if_pos yes, if_pos yes]
          exact .pure left
        · rw [if_neg yes, if_neg yes]
          exact right
      rw [if_neg disj, if_neg disj]
      exact .bind right fun value => .pure _

theorem evaluateArgs_refines : (args : List (ASTNode ν)) → ∀ depth,
    Refines caps depth (evaluateArgs numbers ctx args depth) (meanings numbers ctx args)
  | [], depth => by
      rw [evaluateArgs, meanings]
      exact .pure []
  | arg :: args, depth => by
      rw [evaluateArgs, meanings]
      exact .bind (evaluate_refines arg depth) fun value =>
        .bind (evaluateArgs_refines args depth) fun values => .pure _

end

/-- A top-level evaluation gives the meaning of the tree where that stays within the caps, and a
limit error elsewhere. -/
theorem evaluate_exact (node : ASTNode ν) :
    ((meaning numbers ctx node).Fits caps 0 0 →
      evaluate numbers ctx node 0 0 = Capped.of (meaning numbers ctx node).outcome
        (meaning numbers ctx node).visits) ∧
    (¬ (meaning numbers ctx node).Fits caps 0 0 →
      ∃ limit, evaluate numbers ctx node 0 0 = .error (.inl limit)) := by
  have refines := evaluate_refines numbers ctx node 0 0 (Nat.zero_le _) (Nat.zero_le _)
  rwa [Nat.zero_add] at refines

/-! ## What a tree takes at most -/

mutual

def ASTNode.size : ASTNode ν → Nat
  | .literal _ _ | .name _ _ => 1
  | .path target _ _ => target.size + 1
  | .call _ args _ => ASTNode.sizes args + 1
  | .unary operand _ => operand.size + 1
  | .binary _ lhs rhs _ => lhs.size + rhs.size + 1

def ASTNode.sizes : List (ASTNode ν) → Nat
  | [] => 0
  | arg :: args => arg.size + ASTNode.sizes args

end

mutual

def ASTNode.levels : ASTNode ν → Nat
  | .literal _ _ | .name _ _ => 1
  | .path target _ _ => target.levels + 1
  | .call _ args _ => ASTNode.levelsOf args + 1
  | .unary operand _ => operand.levels + 1
  | .binary _ lhs rhs _ => max lhs.levels rhs.levels + 1

def ASTNode.levelsOf : List (ASTNode ν) → Nat
  | [] => 0
  | arg :: args => max arg.levels (ASTNode.levelsOf args)

end

mutual

/-- No node is visited twice. -/
theorem visits_le : (node : ASTNode ν) → (meaning numbers ctx node).visits ≤ node.size
  | .literal value _ => by
      rw [meaning]
      exact Nat.le_refl 1
  | .name id _ => by
      rw [meaning]
      exact Nat.le_refl 1
  | .path target segments _ => by
      rw [meaning]
      exact Nat.succ_le_succ (Metered.visits_last_le (visits_le target) fun root => rfl)
  | .call name args _ => by
      rw [meaning]
      refine Nat.succ_le_succ ?_
      cases ctx.functions name with
      | none => exact Nat.zero_le _
      | some fn =>
          exact Metered.visits_last_le (visitsOf_le args) fun values => rfl
  | .unary operand _ => by
      rw [meaning]
      exact Nat.succ_le_succ (Metered.visits_last_le (visits_le operand) fun value => rfl)
  | .binary op lhs rhs _ => by
      rw [meaning]
      refine Nat.succ_le_succ (Metered.visits_bind_le (visits_le lhs) fun left => ?_)
      have right := visits_le rhs
      split
      · split
        · exact right
        · exact Nat.zero_le _
      split
      · split
        · exact Nat.zero_le _
        · exact right
      · exact Metered.visits_last_le right fun value => rfl

theorem visitsOf_le : (args : List (ASTNode ν)) →
    (meanings numbers ctx args).visits ≤ ASTNode.sizes args
  | [] => by
      rw [meanings]
      exact Nat.le_refl 0
  | arg :: args => by
      rw [meanings]
      exact Metered.visits_bind_le (visits_le arg) fun value =>
        Metered.visits_last_le (visitsOf_le args) fun values => rfl

end

mutual

theorem height_le : (node : ASTNode ν) → (meaning numbers ctx node).height ≤ node.levels
  | .literal value _ => by
      rw [meaning]
      exact Nat.le_refl 1
  | .name id _ => by
      rw [meaning]
      exact Nat.le_refl 1
  | .path target segments _ => by
      rw [meaning]
      exact Nat.succ_le_succ (Metered.height_bind_le (height_le target) fun root => Nat.zero_le _)
  | .call name args _ => by
      rw [meaning]
      refine Nat.succ_le_succ ?_
      cases ctx.functions name with
      | none => exact Nat.zero_le _
      | some fn =>
          exact Metered.height_bind_le (heightOf_le args) fun values => Nat.zero_le _
  | .unary operand _ => by
      rw [meaning]
      exact Nat.succ_le_succ (Metered.height_bind_le (height_le operand) fun value =>
        Nat.zero_le _)
  | .binary op lhs rhs _ => by
      rw [meaning]
      have right : (meaning numbers ctx rhs).height ≤ max lhs.levels rhs.levels :=
        Nat.le_trans (height_le rhs) (Nat.le_max_right _ _)
      refine Nat.succ_le_succ (Metered.height_bind_le
        (Nat.le_trans (height_le lhs) (Nat.le_max_left _ _)) fun left => ?_)
      split
      · split
        · exact right
        · exact Nat.zero_le _
      split
      · split
        · exact Nat.zero_le _
        · exact right
      · exact Metered.height_bind_le right fun value => Nat.zero_le _

theorem heightOf_le : (args : List (ASTNode ν)) →
    (meanings numbers ctx args).height ≤ ASTNode.levelsOf args
  | [] => by
      rw [meanings]
      exact Nat.le_refl 0
  | arg :: args => by
      rw [meanings]
      exact Metered.height_bind_le (Nat.le_trans (height_le arg) (Nat.le_max_left _ _))
        fun value => Metered.height_bind_le
          (Nat.le_trans (heightOf_le args) (Nat.le_max_right _ _)) fun values => Nat.zero_le _

end

/-- A tree that is small enough has its meaning, whatever the bindings are. -/
theorem fits_of_small {node : ASTNode ν} (size : node.size ≤ caps.steps)
    (levels : node.levels ≤ caps.depth + 1) : (meaning numbers ctx node).Fits caps 0 0 := by
  have visits := visits_le numbers ctx node
  have height := height_le numbers ctx node
  exact ⟨by omega, by omega⟩

/-! ## Chains -/

theorem height_binary (op : BinaryOp) (lhs rhs : ASTNode ν) (offset : Nat) :
    (meaning numbers ctx lhs).height + 1 ≤
      (meaning numbers ctx (.binary op lhs rhs offset)).height := by
  rw [meaning]
  exact Nat.succ_le_succ (Metered.le_height_bind _ _)

theorem one_le_height (node : ASTNode ν) : 1 ≤ (meaning numbers ctx node).height := by
  cases node <;> (rw [meaning]; exact Nat.succ_le_succ (Nat.zero_le _))

theorem height_chain (op : BinaryOp) (first : ASTNode ν) (rest : List (ASTNode ν)) :
    rest.length + (meaning numbers ctx first).height ≤
      (meaning numbers ctx (chain op first rest)).height := by
  induction rest generalizing first with
  | nil => exact Nat.le_of_eq (Nat.zero_add _)
  | cons next rest ih =>
      have longer := ih (.binary op first next first.offset)
      have deeper := height_binary numbers ctx op first next first.offset
      rw [List.length_cons]
      show _ ≤ (meaning numbers ctx (chain op (.binary op first next first.offset) rest)).height
      omega

/-- A chain of more operands than the depth cap allows is never evaluated, though it has no nesting
and whatever its operands are. -/
theorem chain_limit (op : BinaryOp) (first : ASTNode ν) {rest : List (ASTNode ν)}
    (long : caps.depth < rest.length) :
    ∃ limit, evaluate numbers ctx (chain op first rest) 0 0 = .error (.inl limit) := by
  refine (evaluate_exact numbers ctx _).2 fun fits => ?_
  have deep := height_chain numbers ctx op first rest
  have one := one_le_height numbers ctx first
  have cap := fits.2
  omega

end

/-- Whole numbers, as far as expressions need them. -/
def wholeNumbers : JsNumbers Nat where
  ofLength := id
  eq a b := a = b
  lt a b := a < b
  le a b := a ≤ b
  truthy n := n ≠ 0
  index := some

/-- `true && true && …` with 66 operands. -/
theorem chain_limit_truths : ∃ limit,
    evaluate wholeNumbers ⟨fun _ => none, fun _ => none⟩
      (chain .and (.literal (.boolean true) 0) (List.replicate 65 (.literal (.boolean true) 0)))
      0 0 = .error (.inl limit) :=
  chain_limit _ _ _ _ (by decide)

end Opensquid.Evaluator
