import Opensquid.Evaluator.Image

/-!
# Printing and parsing expressions

`printExpression` writes a tree with the parentheses that the levels of the grammar ask for.
`parse_print`: what it writes for a tree of the parser's image is parsed to the same tree, up to
offsets.
-/

namespace Opensquid.Evaluator

open Opensquid.Lib

variable {α ν : Type}

/-! ## Levels -/

/-- The rules that an expression can be the outermost node of. -/
inductive Level
  | orExpr
  | andExpr
  | notExpr
  | compareExpr
  | primary
  deriving DecidableEq, Repr

def Level.tightness : Level → Nat
  | orExpr => 1
  | andExpr => 2
  | notExpr => 3
  | compareExpr => 4
  | primary => 5

def BinaryOp.level : BinaryOp → Level
  | or => .orExpr
  | and => .andExpr
  | _ => .compareExpr

def BinaryOp.lhsLevel : BinaryOp → Level
  | or => .orExpr
  | and => .andExpr
  | _ => .primary

def BinaryOp.rhsLevel : BinaryOp → Level
  | or => .andExpr
  | and => .notExpr
  | _ => .primary

def BinaryOp.token : BinaryOp → TokenType
  | eq => .eqEq
  | ne => .notEq
  | lt => .lt
  | le => .lte
  | gt => .gt
  | ge => .gte
  | and => .andAnd
  | or => .orOr

def ASTNode.level : ASTNode ν → Level
  | unary _ _ => .notExpr
  | binary op _ _ _ => op.level
  | _ => .primary

/-! ## Printing -/

section

variable (decimal : ν → List Char)

def LiteralValue.sym : LiteralValue ν → Sym
  | string value => ⟨.stringLit, quote value⟩
  | number value => ⟨.numberLit, decimal value⟩
  | boolean true => TokenType.true.sym
  | boolean false => TokenType.false.sym
  | null => TokenType.null.sym

def PathSegment.symbols : PathSegment ν → List Sym
  | prop name => [TokenType.dot.sym, ⟨.identifier, name⟩]
  | index (.inl value) =>
      [TokenType.lBracket.sym, ⟨.numberLit, decimal value⟩, TokenType.rBracket.sym]
  | index (.inr value) =>
      [TokenType.lBracket.sym, ⟨.stringLit, quote value⟩, TokenType.rBracket.sym]

/-- Parentheses around a node that is looser than its place. -/
def parenthesise (level : Level) (node : ASTNode ν) (syms : List Sym) : List Sym :=
  if node.level.tightness < level.tightness then
    TokenType.lParen.sym :: (syms ++ [TokenType.rParen.sym])
  else syms

mutual

def ASTNode.symbols : ASTNode ν → List Sym
  | .literal value _ => [value.sym decimal]
  | .name id _ => [⟨.identifier, id⟩]
  | .path target segments _ => target.symbols ++ segments.flatMap (·.symbols decimal)
  | .call name args _ =>
      ⟨.identifier, name⟩ :: TokenType.lParen.sym :: (argSymbols args ++ [TokenType.rParen.sym])
  | .unary operand _ => TokenType.bang.sym :: parenthesise .compareExpr operand operand.symbols
  | .binary op lhs rhs _ =>
      parenthesise op.lhsLevel lhs lhs.symbols ++
        op.token.sym :: parenthesise op.rhsLevel rhs rhs.symbols

def argSymbols : List (ASTNode ν) → List Sym
  | [] => []
  | arg :: args => arg.symbols ++ moreArgSymbols args

def moreArgSymbols : List (ASTNode ν) → List Sym
  | [] => []
  | arg :: args => TokenType.comma.sym :: (arg.symbols ++ moreArgSymbols args)

end

def printExpression (node : ASTNode ν) : List Char := render (ASTNode.symbols decimal node)

end

mutual

/-- The tree without its offsets. -/
def ASTNode.erase : ASTNode ν → ASTNode ν
  | .literal value _ => .literal value 0
  | .name id _ => .name id 0
  | .path target segments _ => .path target.erase segments 0
  | .call name args _ => .call name (eraseAll args) 0
  | .unary operand _ => .unary operand.erase 0
  | .binary op lhs rhs _ => .binary op lhs.erase rhs.erase 0

def eraseAll : List (ASTNode ν) → List (ASTNode ν)
  | [] => []
  | node :: nodes => node.erase :: eraseAll nodes

end

/-! ## Rules on symbols -/

/-- How tightly an expression binds that the token can follow as a part of a larger one. -/
def TokenType.tightness : TokenType → Nat
  | .orOr => 1
  | .andAnd => 2
  | .eqEq | .notEq | .lt | .lte | .gt | .gte => 4
  | .lParen | .lBracket | .dot => 5
  | _ => 0

/-- What follows does not go on with an expression of the level. -/
def Follows (level : Level) (rest : List Token) : Prop :=
  ∀ t ∈ rest.head?, t.type.tightness < level.tightness

/-- The rule reads the symbols as the node. -/
def ReadsAt (fuel : Nat) (rule : Rule (ASTNode ν)) (level : Level) (syms : List Sym)
    (node : ASTNode ν) : Prop :=
  ∀ ts rest, ts.map Token.toSym = syms → ts.length ≤ fuel → Follows level rest →
    ∃ read, rule (ts ++ rest) = some (read, rest) ∧ read.erase = node.erase

section

variable {rule : Rule α} {x : α} {t : Token} {ts rest : List Token}

theorem bind_of_read {β : Type} {k : α → Rule β} (read : rule ts = some (x, rest)) :
    (rule >>= k) ts = k x rest := by
  change (rule ts).bind _ = _
  rw [read, Option.bind_some]

theorem many_stop {first : TokenType → Bool} {item : Rule α} {fuel : Nat}
    (other : ∀ t ∈ rest.head?, first t.type = Bool.false) :
    many first item fuel rest = some ([], rest) := by
  have stop : ¬ rest.head?.any (first ·.type) = Bool.true := by
    cases rest with
    | nil => exact Bool.false_ne_true
    | cons t rest => exact Bool.eq_false_iff.mp (other t rfl)
  cases fuel <;> exact if_neg stop

theorem many_step {first : TokenType → Bool} {item : Rule α} {fuel : Nat}
    (go : first t.type = Bool.true) (read : item (t :: ts) = some (x, rest)) :
    many first item (fuel + 1) (t :: ts) =
      (many first item fuel rest).map fun found => (x :: found.1, found.2) := by
  have start : many first item (fuel + 1) (t :: ts) =
      (item >>= fun x => many first item fuel >>= fun xs => pure (x :: xs)) (t :: ts) := if_pos go
  rw [start, bind_of_read read]
  change Option.bind _ _ = _
  cases many first item fuel rest <;> rfl

end

/-! ## Chains of operators -/

section

variable {fuel : Nat} {type : TokenType} {op : BinaryOp} {operand : Rule (ASTNode ν)}
  {level : Level} {syms more : List Sym} {node lhs rhs : ASTNode ν}

/-- The operand rule reads the first operand, and the loop reads the others, whatever comes next. -/
def Chain (fuel : Nat) (type : TokenType) (op : BinaryOp) (operand : Rule (ASTNode ν))
    (level : Level) (syms : List Sym) (node : ASTNode ν) : Prop :=
  ∀ ts rest, ts.map Token.toSym = syms → ts.length ≤ fuel → Follows level rest →
    ∃ lhs rhs mid left, operand (ts ++ rest) = some (lhs, mid) ∧ fuel ≤ left + ts.length ∧
      many (· = type) (do let _ ← consume type; operand) fuel mid =
        (many (· = type) (do let _ ← consume type; operand) left rest).map
          (fun found => (rhs ++ found.1, found.2)) ∧
      (rhs.foldl (fun acc r => .binary op acc r acc.offset) lhs).erase = node.erase

theorem Chain.of_readsAt (reads : ReadsAt fuel operand level syms node) :
    Chain fuel type op operand level syms node := by
  intro ts rest same short follows
  obtain ⟨read, run, erased⟩ := reads ts rest same short follows
  refine ⟨read, [], rest, fuel, run, Nat.le_add_right _ _, ?_, erased⟩
  exact Option.map_id'.symm

theorem Chain.snoc {offset : Nat} (chain : Chain fuel type op operand level syms lhs)
    (reads : ReadsAt fuel operand level more rhs) (looser : type.tightness < level.tightness) :
    Chain fuel type op operand level (syms ++ type.sym :: more) (.binary op lhs rhs offset) := by
  intro ts rest same short follows
  obtain ⟨front, back, rfl, front_same, back_same⟩ := List.map_eq_append_iff.mp same
  obtain ⟨⟨s, o⟩, after, rfl, rfl, after_same⟩ := List.map_eq_cons_iff.mp back_same
  rw [List.length_append, List.length_cons] at short
  have next : Follows level (⟨type.sym, o⟩ :: (after ++ rest)) := by
    rintro _ ⟨⟩
    exact looser
  obtain ⟨first, others, mid, left, run, enough, loop, erased⟩ :=
    chain front _ front_same (by omega) next
  obtain ⟨read, run', erased'⟩ := reads after rest after_same (by omega) follows
  obtain ⟨left, rfl⟩ : ∃ less, left = less + 1 := Nat.exists_eq_add_one.mpr (by omega)
  refine ⟨first, others ++ [read], mid, left, ?_, ?_, ?_, ?_⟩
  · rw [List.append_assoc]
    exact run
  · rw [List.length_append, List.length_cons]
    omega
  · have item : (do let _ ← consume type; operand) (⟨type.sym, o⟩ :: (after ++ rest)) =
        some (read, rest) := (bind_of_read (if_pos rfl)).trans run'
    rw [loop, many_step (decide_eq_true rfl) item, Option.map_map]
    refine congrArg (Option.map · _) (funext fun found => ?_)
    exact congrArg (·, found.2) (List.append_cons others read found.1)
  · rw [List.foldl_append, List.foldl_cons, List.foldl_nil, ASTNode.erase, erased, erased',
      ASTNode.erase]

theorem Chain.readsAt {looser : Level} (chain : Chain fuel type op operand level syms node)
    (stops : ∀ {rest}, Follows looser rest → Follows level rest ∧ ∀ t ∈ rest.head?, t.type ≠ type) :
    ReadsAt fuel (foldBinary type op fuel operand) looser syms node := by
  intro ts rest same short follows
  obtain ⟨follows', apart⟩ := stops follows
  obtain ⟨lhs, rhs, mid, left, run, -, loop, erased⟩ := chain ts rest same short follows'
  rw [many_stop fun t mem => decide_eq_false (apart t mem), Option.map_some] at loop
  dsimp only at loop
  rw [List.append_nil] at loop
  exact ⟨_, (bind_of_read run).trans (bind_of_read loop), erased⟩

end

/-! ## Levels of the grammar -/

section

variable (number : List Char → ν)

def Level.rule (level : Level) (fuel : Nat) : Rule (ASTNode ν) :=
  match level with
  | orExpr => Evaluator.orExpr number fuel (expression number fuel)
  | andExpr => Evaluator.andExpr number fuel (expression number fuel)
  | notExpr => Evaluator.notExpr number fuel (expression number fuel)
  | compareExpr => Evaluator.compareExpr number fuel (expression number fuel)
  | primary => Evaluator.primary number fuel (expression number fuel)

def Reads (level : Level) (syms : List Sym) (node : ASTNode ν) : Prop :=
  ∀ fuel, ReadsAt fuel (level.rule number fuel) level syms node

/-- What is known of the symbols of a node of the level: those of the two levels with loops are
read as a chain. -/
def Parses (level : Level) (syms : List Sym) (node : ASTNode ν) : Prop :=
  match level with
  | .orExpr => ∀ fuel, Chain fuel .orOr .or (Level.andExpr.rule number fuel) .andExpr syms node
  | .andExpr => ∀ fuel, Chain fuel .andAnd .and (Level.notExpr.rule number fuel) .notExpr syms node
  | level => Reads number level syms node

end

section

variable {number : List Char → ν} {level : Level} {syms more : List Sym}
  {node operand lhs rhs : ASTNode ν} {rest : List Token} {offset : Nat}

theorem Follows.mono {tighter : Level} (follows : Follows level rest)
    (le : level.tightness ≤ tighter.tightness) : Follows tighter rest :=
  fun t mem => (follows t mem).trans_le le

theorem Follows.apart {type : TokenType} (follows : Follows level rest)
    (le : level.tightness ≤ type.tightness) : ∀ t ∈ rest.head?, t.type ≠ type := by
  rintro t mem rfl
  exact absurd (follows t mem) (Nat.not_lt.mpr le)

theorem Parses.reads (parses : Parses number level syms node) : Reads number level syms node := by
  intro fuel
  cases level with
  | orExpr =>
      exact (parses fuel).readsAt fun follows => ⟨follows.mono (by decide), follows.apart (by decide)⟩
  | andExpr =>
      exact (parses fuel).readsAt fun follows => ⟨follows.mono (by decide), follows.apart (by decide)⟩
  | notExpr | compareExpr | primary => exact parses fuel

theorem compareOp_stop (follows : Follows .compareExpr rest) : compareOp rest = some (none, rest) := by
  cases rest with
  | nil => rfl
  | cons t rest =>
      have loose := follows t rfl
      have none : pickCompareOp t.type = none := by
        cases type : t.type <;> first | rfl | (rw [type] at loose; exact absurd loose (by decide))
      rw [compareOp, none]

/-- No expression of the level starts with `!`. -/
theorem compareExpr_bang {fuel : Nat} {ts : List Token} {t : Token} (bang : t.type = .bang) :
    Level.compareExpr.rule number fuel (t :: ts) = none := by
  obtain ⟨⟨type, image⟩, o⟩ := t
  cases bang
  rfl

theorem notExpr_eq_compareExpr {fuel : Nat} {ts : List Token}
    (other : ∀ t ∈ ts.head?, t.type ≠ .bang) :
    Level.notExpr.rule number fuel ts = Level.compareExpr.rule number fuel ts := by
  cases ts with
  | nil => rfl
  | cons t ts =>
      have other := other t rfl
      obtain ⟨⟨type, image⟩, o⟩ := t
      cases type with
      | bang => exact absurd rfl other
      | _ => rfl

theorem Parses.compare_of (parses : Parses number level syms node) (tight : 4 ≤ level.tightness) :
    Parses number .compareExpr syms node := by
  cases level with
  | orExpr | andExpr | notExpr => exact absurd tight (by decide)
  | compareExpr => exact parses
  | primary =>
      intro fuel ts rest same short follows
      obtain ⟨read, run, erased⟩ := parses fuel ts rest same short (follows.mono (by decide))
      exact ⟨read, (bind_of_read run).trans (bind_of_read (compareOp_stop follows)), erased⟩

theorem Parses.not_of (parses : Parses number level syms node) (tight : 3 ≤ level.tightness) :
    Parses number .notExpr syms node := by
  by_cases same_level : level = .notExpr
  · exact same_level ▸ parses
  · have compare : Parses number .compareExpr syms node :=
      parses.compare_of (by revert same_level tight; cases level <;> decide)
    intro fuel ts rest same short follows
    obtain ⟨read, run, erased⟩ := compare fuel ts rest same short (follows.mono (by decide))
    refine ⟨read, ?_, erased⟩
    rw [notExpr_eq_compareExpr, run]
    intro t first bang
    obtain ⟨ts', split⟩ := List.head?_eq_some_iff.mp first
    rw [split, compareExpr_bang bang] at run
    cases run

theorem Parses.and_of (parses : Parses number level syms node) (tight : 2 ≤ level.tightness) :
    Parses number .andExpr syms node := by
  by_cases same_level : level = .andExpr
  · exact same_level ▸ parses
  · have not : Parses number .notExpr syms node :=
      parses.not_of (by revert same_level tight; cases level <;> decide)
    exact fun fuel => Chain.of_readsAt (not fuel)

theorem Parses.or_of (parses : Parses number level syms node) : Parses number .orExpr syms node := by
  by_cases same_level : level = .orExpr
  · exact same_level ▸ parses
  · have and : Parses number .andExpr syms node :=
      parses.and_of (by revert same_level; cases level <;> decide)
    exact fun fuel => Chain.of_readsAt (and.reads fuel)

theorem Parses.loosen {looser : Level} (parses : Parses number level syms node)
    (le : looser.tightness ≤ level.tightness) : Parses number looser syms node := by
  cases looser with
  | orExpr => exact parses.or_of
  | andExpr => exact parses.and_of le
  | notExpr => exact parses.not_of le
  | compareExpr => exact parses.compare_of le
  | primary =>
      cases level with
      | primary => exact parses
      | _ => exact absurd le (by decide)

theorem primary_lParen {fuel : Nat} {expression : Rule (ASTNode ν)} {ts : List Token} :
    primary number fuel expression (⟨TokenType.lParen.sym, offset⟩ :: ts) =
      (do
        let sub ← expression
        let _ ← consume .rParen
        return sub) ts := rfl

theorem Parses.parentheses (parses : Parses number .orExpr syms node) :
    Parses number .primary (TokenType.lParen.sym :: (syms ++ [TokenType.rParen.sym])) node := by
  intro fuel ts rest same short follows
  obtain ⟨⟨s, o⟩, ts, rfl, rfl, within⟩ := List.map_eq_cons_iff.mp same
  obtain ⟨inner, close, rfl, inner_same, close_same⟩ := List.map_eq_append_iff.mp within
  obtain ⟨⟨s, o'⟩, rfl, rfl⟩ := List.map_eq_singleton_iff.mp close_same
  rw [List.length_cons, List.length_append] at short
  obtain ⟨fuel, rfl⟩ : ∃ less, fuel = less + 1 := Nat.exists_eq_add_one.mpr (by omega)
  have close : Follows .orExpr (⟨TokenType.rParen.sym, o'⟩ :: rest) := by
    rintro _ ⟨⟩
    exact Nat.zero_lt_one
  obtain ⟨read, run, erased⟩ := parses.reads fuel inner _ inner_same (by omega) close
  refine ⟨read, ?_, erased⟩
  rw [List.cons_append, List.append_assoc, List.singleton_append]
  exact primary_lParen.trans (bind_of_read run)

/-- A node can stand at every level, in parentheses where it needs them. -/
theorem Parses.parenthesise (parses : Parses number node.level syms node) (level : Level) :
    Parses number level (parenthesise level node syms) node := by
  rw [Evaluator.parenthesise]
  split
  · exact parses.or_of.parentheses.loosen (by cases level <;> decide)
  · next tight => exact parses.loosen (Nat.not_lt.mp tight)

end

/-! ## Literals -/

/-- The numerals that the printer writes are read as the numbers they are for. -/
def Decimals (number : List Char → ν) (decimal : ν → List Char) : Prop :=
  ∀ value, IsNumeral number value → IsNumber (decimal value) ∧ number (decimal value) = value

theorem parseInner_escape (text : List Char) : parseInner (text.flatMap escape) = text := by
  induction text with
  | nil => rfl
  | cons c text ih =>
      rw [List.flatMap_cons]
      by_cases special : c = '"' ∨ c = '\\'
      · have plain : unescape c = c := by
          rcases special with rfl | rfl <;> decide
        rw [escape, if_pos special, List.cons_append, List.singleton_append, parseInner, if_pos rfl,
          plain, ih]
      · rw [escape, if_neg special, List.singleton_append]
        cases rest : text.flatMap escape with
        | nil =>
            rw [rest] at ih
            rw [← ih]
            rfl
        | cons d more =>
            rw [parseInner, if_neg (not_or.mp special).2, ← rest, ih]

theorem parseStringLit_quote (text : List Char) : parseStringLit (quote text) = text := by
  rw [parseStringLit, quote, List.tail_cons, List.dropLast_concat, parseInner_escape]

/-! ## Nodes -/

section

variable {number : List Char → ν} {decimal : ν → List Char} {fuel offset : Nat}
  {expression : Rule (ASTNode ν)} {id : List Char} {ts rest : List Token}

theorem parses_literal (decimals : Decimals number decimal) {value : LiteralValue ν}
    (readable : value.Readable number) :
    Parses number .primary [value.sym decimal] (.literal value offset) := by
  intro fuel ts rest same short follows
  obtain ⟨⟨s, o⟩, rfl, rfl⟩ := List.map_eq_singleton_iff.mp same
  refine ⟨.literal value o, ?_, rfl⟩
  cases value with
  | string value =>
      exact congrArg (fun text => some (ASTNode.literal (.string text) o, rest))
        (parseStringLit_quote value)
  | number value =>
      exact congrArg (fun value => some (ASTNode.literal (.number value) o, rest))
        (decimals value readable).2
  | boolean value => cases value <;> rfl
  | null => rfl

theorem callOrPath_other (other : ∀ t ∈ ts.head?, t.type ≠ .lParen) :
    callOrPath number fuel expression (⟨⟨.identifier, id⟩, offset⟩ :: ts) =
      (do
        let segs ← many startsSegment (pathSegment number) fuel
        return if segs = [] then ASTNode.name id offset else .path (.name id offset) segs offset) ts := by
  cases ts with
  | nil => rfl
  | cons t ts =>
      have other := other t rfl
      obtain ⟨⟨type, image⟩, o⟩ := t
      cases type with
      | lParen => exact absurd rfl other
      | _ => rfl

theorem pathSegment_symbols (decimals : Decimals number decimal) {segment : PathSegment ν}
    (readable : segment.Readable number) (same : ts.map Token.toSym = segment.symbols decimal)
    (rest : List Token) : ∃ t ts', ts = t :: ts' ∧ startsSegment t.type = Bool.true ∧
      pathSegment number (t :: (ts' ++ rest)) = some (segment, rest) := by
  cases segment with
  | prop name =>
      obtain ⟨⟨s, o⟩, ts, rfl, rfl, after⟩ := List.map_eq_cons_iff.mp same
      obtain ⟨⟨s, o'⟩, rfl, rfl⟩ := List.map_eq_singleton_iff.mp after
      exact ⟨_, _, rfl, rfl, rfl⟩
  | index value =>
      cases value with
      | inl value =>
          obtain ⟨⟨s, o⟩, ts, rfl, rfl, after⟩ := List.map_eq_cons_iff.mp same
          obtain ⟨⟨s, o'⟩, ts, rfl, rfl, close⟩ := List.map_eq_cons_iff.mp after
          obtain ⟨⟨s, o''⟩, rfl, rfl⟩ := List.map_eq_singleton_iff.mp close
          refine ⟨_, _, rfl, rfl, ?_⟩
          exact congrArg (fun value => some (PathSegment.index (.inl value), rest))
            (decimals value readable).2
      | inr value =>
          obtain ⟨⟨s, o⟩, ts, rfl, rfl, after⟩ := List.map_eq_cons_iff.mp same
          obtain ⟨⟨s, o'⟩, ts, rfl, rfl, close⟩ := List.map_eq_cons_iff.mp after
          obtain ⟨⟨s, o''⟩, rfl, rfl⟩ := List.map_eq_singleton_iff.mp close
          refine ⟨_, _, rfl, rfl, ?_⟩
          exact congrArg (fun text => some (PathSegment.index (.inr text), rest))
            (parseStringLit_quote value)

theorem many_segments (decimals : Decimals number decimal) {segments : List (PathSegment ν)}
    (readable : ∀ segment ∈ segments, segment.Readable number) (follows : Follows .primary rest) :
    ∀ {fuel ts}, ts.map Token.toSym = segments.flatMap (·.symbols decimal) → ts.length ≤ fuel →
      many startsSegment (pathSegment number) fuel (ts ++ rest) = some (segments, rest) := by
  induction segments with
  | nil =>
      intro fuel ts same _
      rw [List.map_eq_nil_iff.mp same, List.nil_append]
      refine many_stop fun t mem => ?_
      have dot : t.type ≠ .dot := follows.apart (by decide) t mem
      have bracket : t.type ≠ .lBracket := follows.apart (by decide) t mem
      rw [startsSegment, decide_eq_false dot, decide_eq_false bracket, Bool.or_false]
  | cons segment segments ih =>
      intro fuel ts same short
      obtain ⟨here, others⟩ := List.forall_mem_cons.mp readable
      obtain ⟨front, back, rfl, front_same, back_same⟩ := List.map_eq_append_iff.mp same
      obtain ⟨t, front', rfl, start, read⟩ := pathSegment_symbols decimals here front_same (back ++ rest)
      rw [List.length_append, List.length_cons] at short
      obtain ⟨fuel, rfl⟩ : ∃ less, fuel = less + 1 := Nat.exists_eq_add_one.mpr (by omega)
      rw [List.append_assoc, List.cons_append, many_step start read, ih others back_same (by omega)]
      rfl

theorem parses_path (decimals : Decimals number decimal) {segments : List (PathSegment ν)}
    (readable : ∀ segment ∈ segments, segment.Readable number) {node : ASTNode ν}
    (same_node : ∀ o, (if segments = [] then ASTNode.name id o
      else .path (.name id o) segments o).erase = node.erase) :
    Parses number .primary (⟨.identifier, id⟩ :: segments.flatMap (·.symbols decimal)) node := by
  intro fuel ts rest same short follows
  obtain ⟨⟨s, o⟩, ts, rfl, rfl, segs_same⟩ := List.map_eq_cons_iff.mp same
  have short' : ts.length ≤ fuel := (Nat.le_succ _).trans short
  refine ⟨_, ?_, same_node o⟩
  have other : ∀ t ∈ (ts ++ rest).head?, t.type ≠ .lParen := by
    cases segments with
    | nil =>
        rw [List.map_eq_nil_iff.mp segs_same]
        exact follows.apart (by decide)
    | cons segment segments =>
        obtain ⟨front, back, rfl, front_same, -⟩ := List.map_eq_append_iff.mp segs_same
        obtain ⟨t, front, rfl, start, -⟩ :=
          pathSegment_symbols decimals (List.forall_mem_cons.mp readable).1 front_same rest
        rintro _ ⟨⟩ paren
        rw [paren] at start
        cases start
  exact (callOrPath_other other).trans
    (bind_of_read (many_segments decimals readable follows segs_same short'))

theorem callArgs_other (other : ∀ t ∈ ts.head?, t.type ≠ .rParen) :
    callArgs fuel expression ts =
      (do
        let arg ← expression
        let args ← moreArgs fuel expression
        return arg :: args) ts := by
  cases ts with
  | nil => rfl
  | cons t ts =>
      have other := other t rfl
      obtain ⟨⟨type, image⟩, o⟩ := t
      cases type with
      | rParen => exact absurd rfl other
      | _ => rfl

/-- An argument ends where the next one or the `)` begins. -/
theorem follows_args {args : List (ASTNode ν)}
    (same : ts.map Token.toSym = moreArgSymbols decimal args) :
    Follows .orExpr (ts ++ ⟨TokenType.rParen.sym, offset⟩ :: rest) := by
  cases args with
  | nil =>
      rw [List.map_eq_nil_iff.mp same]
      rintro _ ⟨⟩
      exact Nat.zero_lt_one
  | cons arg args =>
      obtain ⟨⟨s, o⟩, ts, rfl, rfl, -⟩ := List.map_eq_cons_iff.mp same
      rintro _ ⟨⟩
      exact Nat.zero_lt_one

theorem moreArgs_symbols (fuel offset : Nat) (rest : List Token) {args : List (ASTNode ν)}
    (parses : ∀ arg ∈ args, Parses number .orExpr (arg.symbols decimal) arg) :
    ∀ left ts, ts.map Token.toSym = moreArgSymbols decimal args → ts.length ≤ left →
      ts.length ≤ fuel → ∃ read, many (· = .comma)
          (do let _ ← consume .comma; Level.orExpr.rule number fuel) left
          (ts ++ ⟨TokenType.rParen.sym, offset⟩ :: rest) =
        some (read, ⟨TokenType.rParen.sym, offset⟩ :: rest) ∧ eraseAll read = eraseAll args := by
  induction args with
  | nil =>
      intro left ts same _ _
      rw [List.map_eq_nil_iff.mp same]
      exact ⟨[], many_stop (by rintro _ ⟨⟩; rfl), rfl⟩
  | cons arg args ih =>
      intro left ts same enough short
      obtain ⟨here, others⟩ := List.forall_mem_cons.mp parses
      obtain ⟨⟨s, o⟩, ts, rfl, rfl, within⟩ := List.map_eq_cons_iff.mp same
      obtain ⟨front, back, rfl, front_same, back_same⟩ := List.map_eq_append_iff.mp within
      rw [List.length_cons, List.length_append] at enough short
      obtain ⟨left, rfl⟩ : ∃ less, left = less + 1 := Nat.exists_eq_add_one.mpr (by omega)
      obtain ⟨read, run, erased⟩ :=
        here.reads fuel front _ front_same (by omega) (follows_args back_same)
      obtain ⟨reads, run', erased'⟩ := ih others left back back_same (by omega) (by omega)
      refine ⟨read :: reads, ?_, congrArg₂ List.cons erased erased'⟩
      have item : (do let _ ← consume .comma; Level.orExpr.rule number fuel : Rule (ASTNode ν))
          (⟨TokenType.comma.sym, o⟩ :: (front ++ (back ++ ⟨TokenType.rParen.sym, offset⟩ :: rest))) =
          some (read, back ++ ⟨TokenType.rParen.sym, offset⟩ :: rest) :=
        (bind_of_read rfl).trans run
      rw [List.cons_append, List.append_assoc, many_step rfl item, run']
      rfl

theorem callArgs_symbols (offset : Nat) (rest : List Token) {args : List (ASTNode ν)}
    (parses : ∀ arg ∈ args, Parses number .orExpr (arg.symbols decimal) arg)
    (same : ts.map Token.toSym = argSymbols decimal args) (short : ts.length ≤ fuel) :
    ∃ read, callArgs (fuel + 1) (Level.orExpr.rule number fuel)
        (ts ++ ⟨TokenType.rParen.sym, offset⟩ :: rest) =
      some (read, ⟨TokenType.rParen.sym, offset⟩ :: rest) ∧ eraseAll read = eraseAll args := by
  cases args with
  | nil =>
      rw [List.map_eq_nil_iff.mp same]
      exact ⟨[], rfl, rfl⟩
  | cons arg args =>
      obtain ⟨here, others⟩ := List.forall_mem_cons.mp parses
      obtain ⟨front, back, rfl, front_same, back_same⟩ := List.map_eq_append_iff.mp same
      rw [List.length_append] at short
      obtain ⟨read, run, erased⟩ :=
        here.reads fuel front _ front_same (by omega) (follows_args back_same)
      obtain ⟨reads, run', erased'⟩ :=
        moreArgs_symbols fuel offset rest others (fuel + 1) back back_same (by omega) (by omega)
      refine ⟨read :: reads, ?_, congrArg₂ List.cons erased erased'⟩
      rw [List.append_assoc, callArgs_other]
      · exact (bind_of_read run).trans (bind_of_read run')
      · intro t first paren
        obtain ⟨ts', split⟩ := List.head?_eq_some_iff.mp first
        obtain ⟨⟨type, image⟩, o⟩ := t
        cases paren
        rw [split] at run
        cases run

theorem primary_call {o : Nat} :
    primary number fuel expression
        (⟨⟨.identifier, id⟩, offset⟩ :: ⟨TokenType.lParen.sym, o⟩ :: ts) =
      (do
        let args ← callArgs fuel expression
        let _ ← consume .rParen
        return ASTNode.call id args offset) ts := rfl

theorem parses_call {args : List (ASTNode ν)}
    (parses : ∀ arg ∈ args, Parses number .orExpr (arg.symbols decimal) arg) :
    Parses number .primary
      (⟨.identifier, id⟩ :: TokenType.lParen.sym :: (argSymbols decimal args ++ [TokenType.rParen.sym]))
      (.call id args offset) := by
  intro fuel ts rest same short follows
  obtain ⟨⟨s, o⟩, ts, rfl, rfl, after⟩ := List.map_eq_cons_iff.mp same
  obtain ⟨⟨s, o'⟩, ts, rfl, rfl, within⟩ := List.map_eq_cons_iff.mp after
  obtain ⟨inner, close, rfl, inner_same, close_same⟩ := List.map_eq_append_iff.mp within
  obtain ⟨⟨s, o''⟩, rfl, rfl⟩ := List.map_eq_singleton_iff.mp close_same
  rw [List.length_cons, List.length_cons, List.length_append] at short
  obtain ⟨fuel, rfl⟩ : ∃ less, fuel = less + 1 := Nat.exists_eq_add_one.mpr (by omega)
  have short' : inner.length ≤ fuel := by omega
  obtain ⟨read, run, erased⟩ := callArgs_symbols o'' rest parses inner_same short'
  refine ⟨.call id read o, ?_, congrArg (ASTNode.call id · 0) erased⟩
  rw [List.cons_append, List.cons_append, List.append_assoc, List.singleton_append]
  exact primary_call.trans (bind_of_read run)

theorem notExpr_bang : notExpr number fuel expression (⟨TokenType.bang.sym, offset⟩ :: ts) =
    (do
      let operand ← compareExpr number fuel expression
      return ASTNode.unary operand offset) ts := rfl

theorem parses_unary {syms : List Sym} {operand : ASTNode ν}
    (parses : Parses number .compareExpr syms operand) :
    Parses number .notExpr (TokenType.bang.sym :: syms) (.unary operand offset) := by
  intro fuel ts rest same short follows
  obtain ⟨⟨s, o⟩, ts, rfl, rfl, after⟩ := List.map_eq_cons_iff.mp same
  obtain ⟨read, run, erased⟩ :=
    parses.reads fuel ts rest after ((Nat.le_succ _).trans short) (follows.mono (by decide))
  refine ⟨.unary read o, ?_, congrArg (ASTNode.unary · 0) erased⟩
  exact notExpr_bang.trans (bind_of_read run)

theorem parses_compare {op : BinaryOp} {left right : List Sym} {lhs rhs : ASTNode ν}
    (compare : pickCompareOp op.token = some op) (parses : Parses number .primary left lhs)
    (parses' : Parses number .primary right rhs) :
    Parses number .compareExpr (left ++ op.token.sym :: right) (.binary op lhs rhs offset) := by
  intro fuel ts rest same short follows
  obtain ⟨front, back, rfl, front_same, back_same⟩ := List.map_eq_append_iff.mp same
  obtain ⟨⟨s, o⟩, after, rfl, rfl, after_same⟩ := List.map_eq_cons_iff.mp back_same
  rw [List.length_append, List.length_cons] at short
  have next : Follows .primary (⟨op.token.sym, o⟩ :: (after ++ rest)) := by
    have loose : op.token.tightness < 5 := by
      revert compare
      cases op <;> decide
    rintro _ ⟨⟩
    exact loose
  obtain ⟨read, run, erased⟩ := parses.reads fuel front _ front_same (by omega) next
  obtain ⟨read', run', erased'⟩ :=
    parses'.reads fuel after rest after_same (by omega) (follows.mono (by decide))
  refine ⟨.binary op read read' read.offset, ?_, ?_⟩
  · have operator : compareOp (⟨op.token.sym, o⟩ :: (after ++ rest)) =
        some (some op, after ++ rest) := by
      rw [compareOp, show (⟨op.token.sym, o⟩ : Token).type = op.token from rfl, compare]
    rw [List.append_assoc]
    exact (bind_of_read run).trans ((bind_of_read operator).trans (bind_of_read run'))
  · rw [ASTNode.erase, erased, erased', ASTNode.erase]

theorem parses_binary {op : BinaryOp} {left right : List Sym} {lhs rhs : ASTNode ν}
    (parses : Parses number op.lhsLevel left lhs) (parses' : Parses number op.rhsLevel right rhs) :
    Parses number op.level (left ++ op.token.sym :: right) (.binary op lhs rhs offset) := by
  cases op with
  | or => exact fun fuel => (parses fuel).snoc (parses'.reads fuel) (by decide)
  | and => exact fun fuel => (parses fuel).snoc (parses'.reads fuel) (by decide)
  | _ => exact parses_compare rfl parses parses'

/-- The symbols of a tree are read as the tree. -/
theorem parses_symbols (decimals : Decimals number decimal) {node : ASTNode ν}
    (readable : node.Readable number) : Parses number node.level (node.symbols decimal) node := by
  induction readable with
  | literal readable => exact parses_literal decimals readable
  | name identifier =>
      have none : ∀ segment ∈ ([] : List (PathSegment ν)), segment.Readable number := nofun
      exact parses_path decimals none fun _ => rfl
  | path identifier some_segment readable =>
      refine parses_path decimals readable fun o => ?_
      rw [if_neg some_segment]
      rfl
  | call identifier _ ih => exact parses_call fun arg mem => (ih arg mem).or_of
  | unary _ ih => exact parses_unary (ih.parenthesise .compareExpr)
  | binary _ _ left right => exact parses_binary (left.parenthesise _) (right.parenthesise _)

/-! ## Texts -/

theorem lexes_literal (decimals : Decimals number decimal) {value : LiteralValue ν}
    (readable : value.Readable number) : Lexes (value.sym decimal) := by
  cases value with
  | string value => exact lexes_quote value
  | number value => exact lexes_number (decimals value readable).1
  | boolean value => cases value <;> exact lexes_sym (by decide)
  | null => exact lexes_sym (by decide)

theorem lexes_segment (decimals : Decimals number decimal) {segment : PathSegment ν}
    (readable : segment.Readable number) : ∀ s ∈ segment.symbols decimal, Lexes s := by
  have bracket : Lexes TokenType.lBracket.sym := lexes_sym (by decide)
  have close : ∀ s ∈ [TokenType.rBracket.sym], Lexes s :=
    List.forall_mem_singleton.mpr (lexes_sym (by decide))
  cases segment with
  | prop name =>
      refine List.forall_mem_cons.mpr ⟨lexes_sym (by decide), ?_⟩
      exact List.forall_mem_singleton.mpr (lexes_identifier readable)
  | index value =>
      cases value with
      | inl value =>
          refine List.forall_mem_cons.mpr ⟨bracket, List.forall_mem_cons.mpr ⟨?_, close⟩⟩
          exact lexes_number (decimals value readable).1
      | inr value =>
          exact List.forall_mem_cons.mpr ⟨bracket, List.forall_mem_cons.mpr ⟨lexes_quote value, close⟩⟩

theorem lexes_parenthesise {level : Level} {node : ASTNode ν} {syms : List Sym}
    (lexes : ∀ s ∈ syms, Lexes s) : ∀ s ∈ parenthesise level node syms, Lexes s := by
  rw [parenthesise]
  split
  · refine List.forall_mem_cons.mpr ⟨lexes_sym (by decide), List.forall_mem_append.mpr ⟨lexes, ?_⟩⟩
    exact List.forall_mem_singleton.mpr (lexes_sym (by decide))
  · exact lexes

theorem lexes_moreArgs {args : List (ASTNode ν)}
    (lexes : ∀ arg ∈ args, ∀ s ∈ arg.symbols decimal, Lexes s) :
    ∀ s ∈ moreArgSymbols decimal args, Lexes s := by
  induction args with
  | nil => exact nofun
  | cons arg args ih =>
      obtain ⟨here, others⟩ := List.forall_mem_cons.mp lexes
      exact List.forall_mem_cons.mpr
        ⟨lexes_sym (by decide), List.forall_mem_append.mpr ⟨here, ih others⟩⟩

theorem lexes_args {args : List (ASTNode ν)}
    (lexes : ∀ arg ∈ args, ∀ s ∈ arg.symbols decimal, Lexes s) :
    ∀ s ∈ argSymbols decimal args, Lexes s := by
  cases args with
  | nil => exact nofun
  | cons arg args =>
      obtain ⟨here, others⟩ := List.forall_mem_cons.mp lexes
      exact List.forall_mem_append.mpr ⟨here, lexes_moreArgs others⟩

/-- Every symbol of a tree is read as the token that it is. -/
theorem lexes_symbols (decimals : Decimals number decimal) {node : ASTNode ν}
    (readable : node.Readable number) : ∀ s ∈ node.symbols decimal, Lexes s := by
  induction readable with
  | literal readable => exact List.forall_mem_singleton.mpr (lexes_literal decimals readable)
  | name identifier => exact List.forall_mem_singleton.mpr (lexes_identifier identifier)
  | path identifier _ readable =>
      refine List.forall_mem_append.mpr
        ⟨List.forall_mem_singleton.mpr (lexes_identifier identifier), ?_⟩
      exact List.forall_mem_flatMap.mpr fun segment mem => lexes_segment decimals (readable segment mem)
  | call identifier _ ih =>
      refine List.forall_mem_cons.mpr ⟨lexes_identifier identifier, ?_⟩
      refine List.forall_mem_cons.mpr ⟨lexes_sym (by decide), ?_⟩
      refine List.forall_mem_append.mpr ⟨lexes_args ih, ?_⟩
      exact List.forall_mem_singleton.mpr (lexes_sym (by decide))
  | unary _ ih => exact List.forall_mem_cons.mpr ⟨lexes_sym (by decide), lexes_parenthesise ih⟩
  | @binary op _ _ _ _ _ left right =>
      have operator : Lexes op.token.sym := by cases op <;> exact lexes_sym (by decide)
      exact List.forall_mem_append.mpr
        ⟨lexes_parenthesise left, List.forall_mem_cons.mpr ⟨operator, lexes_parenthesise right⟩⟩

theorem parse_print (decimals : Decimals number decimal) {node : ASTNode ν}
    (readable : node.Readable number) : ∃ read,
      parseExpression number (printExpression decimal node) = .ok read ∧ read.erase = node.erase := by
  have lexes := lexes_symbols decimals readable
  obtain ⟨tokens, lexed, same⟩ := tokenize_render lexes 0 (Nat.le_refl _)
  have end_of_text : Follows .orExpr [] := nofun
  obtain ⟨read, run, erased⟩ :=
    (parses_symbols decimals readable).or_of.reads tokens.length tokens [] same (Nat.le_refl _) end_of_text
  refine ⟨read, ?_, erased⟩
  rw [List.append_nil] at run
  have some_text : printExpression decimal node ≠ [] := by
    intro empty
    rw [printExpression] at empty
    rw [empty] at lexed
    cases lexed
    cases run
  have whole : parseTokens number tokens = .ok read := by
    have found : expression number (tokens.length + 1) tokens = some (read, []) := run
    rw [parseTokens, found]
  have trimmed : trim (printExpression decimal node) = printExpression decimal node :=
    trim_render lexes
  rw [parseExpression, trimmed]
  rw [if_neg some_text, printExpression, lexed]
  exact whole

/-- What the parser gives are the readable trees, and every readable tree is read back from its
text, up to offsets. -/
theorem parseExpression_printExpression (decimals : Decimals number decimal) :
    (∀ text node, parseExpression number text = .ok node → node.Readable number) ∧
      ∀ node : ASTNode ν, node.Readable number → ∃ read,
        parseExpression number (printExpression decimal node) = .ok read ∧
          read.erase = node.erase :=
  ⟨fun _ _ => readable_of_parse, fun _ => parse_print decimals⟩

end

section

/-- `Number` on the numerals of whole numbers. -/
def wholeNumber (text : List Char) : Nat := Nat.ofDigitChars 10 (text.takeWhile Char.isDigit) 0

theorem decimals_wholeNumber : Decimals wholeNumber (Nat.toDigits 10) := by
  intro value _
  have digits : ∀ c ∈ Nat.toDigits 10 value, c.isDigit = Bool.true :=
    fun c mem => Nat.isDigit_of_mem_toDigits (by decide) (by decide) mem
  have all : (Nat.toDigits 10 value).takeWhile Char.isDigit = Nat.toDigits 10 value :=
    List.takeWhile_eq_self_iff.mpr digits
  refine ⟨⟨_, Nat.toDigits_ne_nil, digits, .inl rfl⟩, ?_⟩
  rw [wholeNumber, all]
  exact Nat.ofDigitChars_toDigits (by decide) (by decide)

/-- `!f(a.b[3], "\"") == 12 && (p || q)`. -/
def sampleTree : ASTNode Nat :=
  .binary .and
    (.unary
      (.binary .eq
        (.call ['f']
          [.path (.name ['a'] 0) [.prop ['b'], .index (.inl 3)] 0, .literal (.string ['"']) 0] 0)
        (.literal (.number 12) 0) 0) 0)
    (.binary .or (.name ['p'] 0) (.name ['q'] 0) 0) 0

example : printExpression (Nat.toDigits 10) sampleTree =
    "!f(a.b[3], \"\\\"\") == 12 && (p || q)".toList := by decide +kernel

theorem isIdentifier_letter {c : Char} (start : isIdentifierStart c = Bool.true) :
    IsIdentifier [c] :=
  ⟨⟨c, [], rfl, start, nofun⟩, nofun⟩

theorem sampleTree_readable : sampleTree.Readable wholeNumber := by
  have starts : (['a', 'b', 'f', 'p', 'q'].all isIdentifierStart) = Bool.true := by decide
  have letter : ∀ c ∈ ['a', 'b', 'f', 'p', 'q'], IsIdentifier [c] := fun c mem =>
    isIdentifier_letter (List.all_eq_true.mp starts c mem)
  have all : ([['3'], ['1', '2']].all fun text => text.all Char.isDigit) = Bool.true := by decide
  have digits : ∀ text : List Char, text ∈ [['3'], ['1', '2']] → IsNumber text := fun text mem => by
    have some_digit : text ≠ [] := by
      rintro rfl
      exact absurd mem (by decide)
    exact ⟨text, some_digit, List.all_eq_true.mp (List.all_eq_true.mp all text mem), .inl rfl⟩
  refine .binary (.unary (.binary (.call (letter 'f' (by decide)) ?_) ?_)) (.binary ?_ ?_)
  · refine List.forall_mem_cons.mpr ⟨?_, List.forall_mem_singleton.mpr (.literal trivial)⟩
    refine .path (letter 'a' (by decide)) (List.cons_ne_nil _ _) ?_
    refine List.forall_mem_cons.mpr ⟨letter 'b' (by decide), List.forall_mem_singleton.mpr ?_⟩
    exact ⟨['3'], digits _ (by decide), by decide⟩
  · exact .literal ⟨['1', '2'], digits _ (by decide), by decide⟩
  · exact .name (letter 'p' (by decide))
  · exact .name (letter 'q' (by decide))

theorem parseExpression_printExpression_sampleTree : ∃ read,
    parseExpression wholeNumber (printExpression (Nat.toDigits 10) sampleTree) = .ok read ∧
      read.erase = sampleTree.erase :=
  (parseExpression_printExpression decimals_wholeNumber).2 sampleTree sampleTree_readable

end

end Opensquid.Evaluator
