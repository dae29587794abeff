import Opensquid.Evaluator.Lexer

/-!
# The expression parser

The rules of the grammar, each with what the visitor makes of its node. A rule looks at the next
token where it has a choice; loops and the recursion through `expression` have fuel, of which the
number of tokens is enough.
-/

namespace Opensquid.Evaluator

/-! ## Trees -/

inductive BinaryOp
  | eq
  | ne
  | lt
  | le
  | gt
  | ge
  | and
  | or
  deriving DecidableEq, Repr

/-- The value of a literal, where `ν` is the type of numbers. -/
inductive LiteralValue (ν : Type)
  | string (value : List Char)
  | number (value : ν)
  | boolean (value : Bool)
  | null
  deriving DecidableEq, Repr

inductive PathSegment (ν : Type)
  | prop (name : List Char)
  | index (value : ν ⊕ List Char)
  deriving DecidableEq, Repr

inductive ASTNode (ν : Type)
  | literal (value : LiteralValue ν) (offset : Nat)
  | name (id : List Char) (offset : Nat)
  | path (target : ASTNode ν) (segments : List (PathSegment ν)) (offset : Nat)
  | call (name : List Char) (args : List (ASTNode ν)) (offset : Nat)
  | unary (operand : ASTNode ν) (offset : Nat)
  | binary (op : BinaryOp) (lhs rhs : ASTNode ν) (offset : Nat)

variable {α ν : Type}

def ASTNode.offset : ASTNode ν → Nat
  | literal _ offset | name _ offset | path _ _ offset | call _ _ offset | unary _ offset
  | binary _ _ _ offset => offset

/-! ## String literals -/

/-- `ESC`. -/
def unescape (c : Char) : Char :=
  if c = 'n' then '\n' else if c = 't' then '\t' else if c = 'r' then '\r' else c

/-- The loop of `parseStringLit`; a backslash at the very end stays. -/
def parseInner : List Char → List Char
  | [] => []
  | [c] => [c]
  | c :: d :: text => if c = '\\' then unescape d :: parseInner text else c :: parseInner (d :: text)

def parseStringLit (raw : List Char) : List Char := parseInner raw.tail.dropLast

/-! ## Rules -/

abbrev Rule := StateT (List Token) Option

def consume (type : TokenType) : Rule Token
  | [] => none
  | t :: ts => if t.type = type then some (t, ts) else none

/-- The type of the next token. -/
def la : Rule (Option TokenType) := fun ts => some (ts.head?.map (·.type), ts)

/-- `MANY`: as long as the next token is one that the item can start with. -/
def many (first : TokenType → Bool) (item : Rule α) : Nat → Rule (List α)
  | 0 => fun ts => if ts.head?.any (first ·.type) then none else some ([], ts)
  | fuel + 1 => fun ts =>
      if ts.head?.any (first ·.type) then
        (do
          let x ← item
          let xs ← many first item fuel
          return x :: xs) ts
      else some ([], ts)

section

variable (number : List Char → ν)

def litNode (type : TokenType) (project : List Char → LiteralValue ν) : Rule (ASTNode ν) := do
  let t ← consume type
  return .literal (project t.image) t.startOffset

def literal : Rule (ASTNode ν) := do
  match ← la with
  | some .stringLit => litNode .stringLit fun image => .string (parseStringLit image)
  | some .numberLit => litNode .numberLit fun image => .number (number image)
  | some .true => litNode .true fun _ => .boolean true
  | some .false => litNode .false fun _ => .boolean false
  | some .null => litNode .null fun _ => .null
  | _ => failure

def indexValue : Rule (ν ⊕ List Char) := do
  match ← la with
  | some .numberLit =>
      let t ← consume .numberLit
      return .inl (number t.image)
  | some .stringLit =>
      let t ← consume .stringLit
      return .inr (parseStringLit t.image)
  | _ => failure

def pathSegment : Rule (PathSegment ν) := do
  match ← la with
  | some .dot =>
      let _ ← consume .dot
      let id ← consume .identifier
      return .prop id.image
  | some .lBracket =>
      let _ ← consume .lBracket
      let value ← indexValue number
      let _ ← consume .rBracket
      return .index value
  | _ => failure

def startsSegment (type : TokenType) : Bool := type = .dot || type = .lBracket

/-- `( ',' expression )*`. -/
def moreArgs (fuel : Nat) (expression : Rule (ASTNode ν)) : Rule (List (ASTNode ν)) :=
  many (· = .comma) (do let _ ← consume .comma; expression) fuel

/-- What stands between the parentheses of a call. -/
def callArgs (fuel : Nat) (expression : Rule (ASTNode ν)) : Rule (List (ASTNode ν)) := do
  match ← la with
  | some .rParen => return []
  | _ =>
      let arg ← expression
      let args ← moreArgs fuel expression
      return arg :: args

def callOrPath (fuel : Nat) (expression : Rule (ASTNode ν)) : Rule (ASTNode ν) := do
  let id ← consume .identifier
  match ← la with
  | some .lParen =>
      let _ ← consume .lParen
      let args ← callArgs fuel expression
      let _ ← consume .rParen
      return .call id.image args id.startOffset
  | _ =>
      let segs ← many startsSegment (pathSegment number) fuel
      let name := .name id.image id.startOffset
      return if segs = [] then name else .path name segs id.startOffset

def primary (fuel : Nat) (expression : Rule (ASTNode ν)) : Rule (ASTNode ν) := do
  match ← la with
  | some .lParen =>
      let _ ← consume .lParen
      let sub ← expression
      let _ ← consume .rParen
      return sub
  | some .identifier => callOrPath number fuel expression
  | _ => literal number

/-- The comparison that a token stands for. -/
def pickCompareOp : TokenType → Option BinaryOp
  | .eqEq => some .eq
  | .notEq => some .ne
  | .lte => some .le
  | .gte => some .ge
  | .lt => some .lt
  | .gt => some .gt
  | _ => none

/-- The optional operator of `compareExpr`. -/
def compareOp : Rule (Option BinaryOp)
  | [] => some (none, [])
  | t :: ts =>
      match pickCompareOp t.type with
      | some op => some (some op, ts)
      | none => some (none, t :: ts)

def compareExpr (fuel : Nat) (expression : Rule (ASTNode ν)) : Rule (ASTNode ν) := do
  let lhs ← primary number fuel expression
  match ← compareOp with
  | some op =>
      let rhs ← primary number fuel expression
      return .binary op lhs rhs lhs.offset
  | none => return lhs

def notExpr (fuel : Nat) (expression : Rule (ASTNode ν)) : Rule (ASTNode ν) := do
  match ← la with
  | some .bang =>
      let bang ← consume .bang
      let operand ← compareExpr number fuel expression
      return .unary operand bang.startOffset
  | _ => compareExpr number fuel expression

/-- `first op a op b …`, folded from left to right. -/
def chain (op : BinaryOp) (first : ASTNode ν) (rest : List (ASTNode ν)) : ASTNode ν :=
  rest.foldl (fun lhs rhs => .binary op lhs rhs lhs.offset) first

/-- An operand and then `( type operand )*`. -/
def foldBinary (type : TokenType) (op : BinaryOp) (fuel : Nat) (operand : Rule (ASTNode ν)) :
    Rule (ASTNode ν) := do
  let lhs ← operand
  let rhs ← many (· = type) (do let _ ← consume type; operand) fuel
  return chain op lhs rhs

def andExpr (fuel : Nat) (expression : Rule (ASTNode ν)) : Rule (ASTNode ν) :=
  foldBinary .andAnd .and fuel (notExpr number fuel expression)

def orExpr (fuel : Nat) (expression : Rule (ASTNode ν)) : Rule (ASTNode ν) :=
  foldBinary .orOr .or fuel (andExpr number fuel expression)

def expression : Nat → Rule (ASTNode ν)
  | 0 => failure
  | fuel + 1 => orExpr number fuel (expression fuel)

/-! ## Texts -/

inductive ExpressionError
  | emptyExpression
  | lexing
  | parsing
  deriving DecidableEq, Repr

/-- `parserInstance.expression()` and the visitor; input that is left over is an error. -/
def parseTokens (tokens : List Token) : Except ExpressionError (ASTNode ν) :=
  match expression number (tokens.length + 1) tokens with
  | some (node, []) => .ok node
  | _ => .error .parsing

def parseExpression (expr : List Char) : Except ExpressionError (ASTNode ν) :=
  let trimmed := Lib.trim expr
  if trimmed = [] then .error .emptyExpression
  else
    match tokenize trimmed.length 0 trimmed with
    | none => .error .lexing
    | some tokens => parseTokens number tokens

end

end Opensquid.Evaluator
