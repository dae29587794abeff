import Mathlib.Data.List.TakeWhile
import Opensquid.Evaluator.Parser

/-!
# What the expression parser gives

`readable_of_parse`: the names in a tree of the parser are identifiers that are not keywords, its
numbers are those of decimal numerals, and paths start at a name and have a segment.
-/

namespace Opensquid.Evaluator

open Opensquid.Lib

variable {α β ν : Type}

section

variable (number : List Char → ν)

/-- The numbers that a literal can have. -/
def IsNumeral (value : ν) : Prop := ∃ text, IsNumber text ∧ number text = value

def LiteralValue.Readable : LiteralValue ν → Prop
  | .number value => IsNumeral number value
  | _ => True

def PathSegment.Readable : PathSegment ν → Prop
  | .prop name => IsIdentifier name
  | .index (.inl value) => IsNumeral number value
  | .index (.inr _) => True

/-- The trees that the parser gives, with any offsets. -/
inductive ASTNode.Readable : ASTNode ν → Prop
  | literal {value offset} (readable : value.Readable number) : Readable (.literal value offset)
  | name {id offset} (identifier : IsIdentifier id) : Readable (.name id offset)
  | path {id segments offset offset'} (identifier : IsIdentifier id) (some_segment : segments ≠ [])
      (readable : ∀ segment ∈ segments, segment.Readable number) :
      Readable (.path (.name id offset') segments offset)
  | call {name args offset} (identifier : IsIdentifier name) (readable : ∀ arg ∈ args, Readable arg) :
      Readable (.call name args offset)
  | unary {operand offset} (readable : Readable operand) : Readable (.unary operand offset)
  | binary {op lhs rhs offset} (left : Readable lhs) (right : Readable rhs) :
      Readable (.binary op lhs rhs offset)

end

/-! ## Tokens -/

/-- What the lexer promises of a symbol. -/
structure Sym.Lexed (s : Sym) : Prop where
  identifier : s.type = .identifier → IsIdentifier s.image
  number : s.type = .numberLit → IsNumber s.image

section

variable {s : Sym} {text image rest : List Char}

theorem plus_eq_some {p : Char → Bool} (read : plus p text = some (image, rest)) :
    image ≠ [] ∧ ∀ c ∈ image, p c = Bool.true := by
  rw [plus] at read
  split at read
  · cases read
  · next some_char =>
      cases read
      exact ⟨some_char, fun c mem => List.mem_takeWhile_imp mem⟩

theorem isNumber_of_numberPattern (read : numberPattern text = some (image, rest)) :
    IsNumber image := by
  obtain ⟨⟨whole, after⟩, digits, shape⟩ := Option.map_eq_some_iff.mp read
  obtain ⟨some_digit, all⟩ := plus_eq_some digits
  refine ⟨whole, some_digit, all, ?_⟩
  dsimp only at shape
  unfold fraction at shape
  split at shape
  · cases shape
    exact .inl rfl
  · next c after =>
      split at shape
      · next dot =>
          split at shape
          · next more left fraction_read =>
              cases shape
              obtain ⟨some_digit', all'⟩ := plus_eq_some fraction_read
              exact .inr ⟨more, some_digit', all', by rw [dot]⟩
          · cases shape
            exact .inl rfl
      · cases shape
        exact .inl rfl

theorem isIdentifier_of_identifierPattern (read : identifierPattern text = some (image, rest))
    (keywords : ∀ word ∈ [TokenType.true.text, TokenType.false.text, TokenType.null.text],
      keyword word text = none) : IsIdentifier image := by
  cases text with
  | nil => cases read
  | cons c text =>
      rw [identifierPattern] at read
      split at read
      · next start =>
          cases read
          refine ⟨⟨c, _, rfl, start, fun d mem => List.mem_takeWhile_imp mem⟩, fun listed => ?_⟩
          have apart : ∀ d ∈ (text.dropWhile isWordChar).head?, isWordChar d = Bool.false := by
            intro d first
            have stop := List.head?_dropWhile_not isWordChar text
            rw [first] at stop
            exact stop
          have read := @keyword_append (c :: text.takeWhile isWordChar) _ apart
          rw [List.cons_append, List.takeWhile_append_dropWhile] at read
          rw [keywords _ listed] at read
          cases read
      · cases read

theorem Sym.Lexed.of_nextToken (next : nextToken text = some (s, rest)) : s.Lexed := by
  obtain ⟨type, -, read⟩ := List.exists_of_findSome?_eq_some next
  obtain ⟨⟨image, left⟩, here, same⟩ := Option.map_eq_some_iff.mp read
  cases same
  refine ⟨fun identifier => ?_, fun number => ?_⟩
  · dsimp only at identifier
    rw [identifier] at next here
    refine isIdentifier_of_identifierPattern here fun word listed => ?_
    have before : allTokens.dropLast.findSome? (readAs text) = none := by
      refine Option.eq_none_iff_forall_ne_some.mpr fun found first => ?_
      have split : nextToken text = (allTokens.dropLast.findSome? (readAs text)).or
          ([TokenType.identifier].findSome? (readAs text)) :=
        @List.findSome?_append _ _ (readAs text) allTokens.dropLast [.identifier]
      rw [next, first, Option.some_or] at split
      obtain ⟨type, mem, read⟩ := List.exists_of_findSome?_eq_some first
      obtain ⟨_, -, same⟩ := Option.map_eq_some_iff.mp read
      rw [← same] at split
      cases split
      exact absurd mem (by decide)
    have keyword : ∀ type ∈ [TokenType.true, .false, .null], type.pattern text = none :=
      fun type mem => by
        have earlier : type ∈ allTokens.dropLast := by
          revert type
          decide
        exact Option.map_eq_none_iff.mp (List.findSome?_eq_none_iff.mp before type earlier)
    simp only [List.mem_cons, List.not_mem_nil, or_false] at listed
    rcases listed with rfl | rfl | rfl
    · exact keyword .true (by decide)
    · exact keyword .false (by decide)
    · exact keyword .null (by decide)
  · dsimp only at number
    rw [number] at here
    exact isNumber_of_numberPattern here

theorem lexed_of_tokenize {fuel : Nat} : ∀ {offset : Nat} {text : List Char} {tokens : List Token},
    tokenize fuel offset text = some tokens → ∀ t ∈ tokens, t.toSym.Lexed := by
  induction fuel with
  | zero =>
      intro offset text tokens read
      cases text with
      | nil => cases read; exact nofun
      | cons c text => cases read
  | succ fuel ih =>
      intro offset text tokens read
      cases text with
      | nil => cases read; exact nofun
      | cons c text =>
          obtain ⟨⟨s, rest⟩, next, read⟩ := Option.bind_eq_some_iff.mp read
          obtain ⟨others, others_read, rfl⟩ := Option.map_eq_some_iff.mp read
          split
          · exact ih others_read
          · exact List.forall_mem_cons.mpr ⟨.of_nextToken next, ih others_read⟩

end

/-! ## Rules -/

/-- What the rule gives for the tokens of a text. -/
def Yields (rule : Rule α) (post : α → Prop) : Prop :=
  ∀ ts : List Token, (∀ t ∈ ts, t.toSym.Lexed) → ∀ x rest, rule ts = some (x, rest) →
    post x ∧ ∀ t ∈ rest, t.toSym.Lexed

section

variable {rule : Rule α} {next : α → Rule β} {P : α → Prop} {Q : β → Prop}

theorem Yields.bind (first : Yields rule P) (then_ : ∀ x, P x → Yields (next x) Q) :
    Yields (rule >>= next) Q := by
  intro ts lexed y rest run
  obtain ⟨⟨x, mid⟩, run_first, run_then⟩ := Option.bind_eq_some_iff.mp run
  obtain ⟨holds, lexed⟩ := first ts lexed x mid run_first
  exact then_ x holds mid lexed y rest run_then

theorem Yields.pure {x : α} (holds : P x) : Yields (pure x) P := by
  rintro ts lexed _ _ ⟨⟩
  exact ⟨holds, lexed⟩

theorem Yields.failure : Yields failure P := by
  rintro ts lexed x rest ⟨⟩

theorem Yields.consume {type : TokenType} :
    Yields (consume type) fun t => t.toSym.Lexed ∧ t.type = type := by
  intro ts lexed t rest run
  cases ts with
  | nil => cases run
  | cons t ts =>
      obtain ⟨here, others⟩ := List.forall_mem_cons.mp lexed
      rw [Evaluator.consume] at run
      split at run
      · next same =>
          cases run
          exact ⟨⟨here, same⟩, others⟩
      · cases run

theorem Yields.la : Yields la fun _ => True := by
  rintro ts lexed _ _ ⟨⟩
  exact ⟨trivial, lexed⟩

theorem Yields.compareOp : Yields compareOp fun _ => True := by
  intro ts lexed op rest run
  cases ts with
  | nil => cases run; exact ⟨trivial, nofun⟩
  | cons t ts =>
      rw [Evaluator.compareOp] at run
      split at run
      · cases run
        exact ⟨trivial, (List.forall_mem_cons.mp lexed).2⟩
      · cases run
        exact ⟨trivial, lexed⟩

theorem Yields.many {item : Rule α} (each : Yields item P) {first : TokenType → Bool} {fuel : Nat} :
    Yields (many first item fuel) fun xs => ∀ x ∈ xs, P x := by
  induction fuel with
  | zero =>
      intro ts lexed xs rest run
      rw [Evaluator.many] at run
      dsimp only at run
      split at run
      · cases run
      · cases run
        exact ⟨nofun, lexed⟩
  | succ fuel ih =>
      intro ts lexed xs rest run
      rw [Evaluator.many] at run
      dsimp only at run
      split at run
      · have step : Yields (do
            let x ← item
            let xs ← Evaluator.many first item fuel
            return x :: xs) fun xs => ∀ x ∈ xs, P x :=
          each.bind fun x here => ih.bind fun xs others =>
            .pure (List.forall_mem_cons.mpr ⟨here, others⟩)
        exact step ts lexed xs rest run
      · cases run
        exact ⟨nofun, lexed⟩

end

section

variable {number : List Char → ν} {fuel : Nat} {expression : Rule (ASTNode ν)}

theorem yields_literal : Yields (literal number) (·.Readable number) := by
  refine Yields.la.bind fun type _ => ?_
  split
  · exact Yields.consume.bind fun t read => .pure (.literal trivial)
  · exact Yields.consume.bind fun t read => .pure (.literal ⟨t.image, read.1.number read.2, rfl⟩)
  · exact Yields.consume.bind fun t read => .pure (.literal trivial)
  · exact Yields.consume.bind fun t read => .pure (.literal trivial)
  · exact Yields.consume.bind fun t read => .pure (.literal trivial)
  · exact .failure

theorem yields_indexValue : Yields (indexValue number) fun value =>
    (PathSegment.index value).Readable number := by
  refine Yields.la.bind fun type _ => ?_
  split
  · exact Yields.consume.bind fun t read => .pure ⟨t.image, read.1.number read.2, rfl⟩
  · exact Yields.consume.bind fun t read => .pure trivial
  · exact .failure

theorem yields_pathSegment : Yields (pathSegment number) (·.Readable number) := by
  refine Yields.la.bind fun type _ => ?_
  split
  · exact Yields.consume.bind fun _ _ => Yields.consume.bind fun t read =>
      .pure (read.1.identifier read.2)
  · exact Yields.consume.bind fun _ _ => yields_indexValue.bind fun value readable =>
      Yields.consume.bind fun _ _ => .pure readable
  · exact .failure

theorem yields_callArgs (inner : Yields expression (·.Readable number)) :
    Yields (callArgs fuel expression) fun args => ∀ arg ∈ args, arg.Readable number := by
  refine Yields.la.bind fun type _ => ?_
  split
  · exact .pure nofun
  · refine inner.bind fun arg here => ?_
    have more : Yields (moreArgs fuel expression) fun args => ∀ arg ∈ args, arg.Readable number :=
      .many (Yields.consume.bind fun _ _ => inner)
    exact more.bind fun args others => .pure (List.forall_mem_cons.mpr ⟨here, others⟩)

theorem yields_callOrPath (inner : Yields expression (·.Readable number)) :
    Yields (callOrPath number fuel expression) (·.Readable number) := by
  refine Yields.consume.bind fun id read => Yields.la.bind fun type _ => ?_
  have identifier := read.1.identifier read.2
  split
  · exact Yields.consume.bind fun _ _ => (yields_callArgs inner).bind fun args readable =>
      Yields.consume.bind fun _ _ => .pure (.call identifier readable)
  · refine (Yields.many yields_pathSegment).bind fun segs readable => .pure ?_
    split
    · exact .name identifier
    · next some_segment => exact .path identifier some_segment readable

theorem yields_primary (inner : Yields expression (·.Readable number)) :
    Yields (primary number fuel expression) (·.Readable number) := by
  refine Yields.la.bind fun type _ => ?_
  split
  · exact Yields.consume.bind fun _ _ => inner.bind fun sub readable =>
      Yields.consume.bind fun _ _ => .pure readable
  · exact yields_callOrPath inner
  · exact yields_literal

theorem yields_compareExpr (inner : Yields expression (·.Readable number)) :
    Yields (compareExpr number fuel expression) (·.Readable number) := by
  refine (yields_primary inner).bind fun lhs left => Yields.compareOp.bind fun op _ => ?_
  split
  · exact (yields_primary inner).bind fun rhs right => .pure (.binary left right)
  · exact .pure left

theorem yields_notExpr (inner : Yields expression (·.Readable number)) :
    Yields (notExpr number fuel expression) (·.Readable number) := by
  refine Yields.la.bind fun type _ => ?_
  split
  · exact Yields.consume.bind fun _ _ => (yields_compareExpr inner).bind fun operand readable =>
      .pure (.unary readable)
  · exact yields_compareExpr inner

theorem yields_foldBinary {type : TokenType} {op : BinaryOp} {operand : Rule (ASTNode ν)}
    (each : Yields operand (·.Readable number)) :
    Yields (foldBinary type op fuel operand) (·.Readable number) := by
  refine each.bind fun lhs left => ?_
  have others : Yields (many (· = type) (do let _ ← consume type; operand) fuel) fun rhs =>
      ∀ r ∈ rhs, r.Readable number := .many (Yields.consume.bind fun _ _ => each)
  refine others.bind fun rhs right => .pure ?_
  induction rhs generalizing lhs with
  | nil => exact left
  | cons r rhs ih =>
      obtain ⟨here, right⟩ := List.forall_mem_cons.mp right
      exact ih _ (.binary left here) right

theorem yields_expression : ∀ {fuel : Nat}, Yields (Evaluator.expression number fuel) (·.Readable number)
  | 0 => .failure
  | _ + 1 => yields_foldBinary (yields_foldBinary (yields_notExpr yields_expression))

theorem readable_of_parse {text : List Char} {node : ASTNode ν}
    (parsed : parseExpression number text = .ok node) : node.Readable number := by
  rw [parseExpression] at parsed
  split at parsed
  · cases parsed
  · split at parsed
    · cases parsed
    · next tokens read =>
        rw [parseTokens] at parsed
        split at parsed
        · next run =>
            cases parsed
            exact (yields_expression tokens (lexed_of_tokenize read) _ _ run).1
        · cases parsed

end

end Opensquid.Evaluator
