import Mathlib.Algebra.GroupWithZero.Nat
import Opensquid.Lib.Scan

/-!
# The expression lexer

At each position the first pattern of `allTokens` that matches gives the token; white space is
skipped, and a text that no pattern matches is an error. `tokenize_render` says that symbols that
are written one after the other, with spaces where two of them would run together, are read back.
-/

namespace Opensquid.Evaluator

open Opensquid.Lib

inductive TokenType
  | whiteSpace
  | stringLit
  | numberLit
  | true
  | false
  | null
  | eqEq
  | notEq
  | lte
  | gte
  | lt
  | gt
  | andAnd
  | orOr
  | bang
  | lParen
  | rParen
  | lBracket
  | rBracket
  | comma
  | dot
  | identifier
  deriving DecidableEq, Repr

/-! ## Patterns -/

/-- A pattern gives the text that it matches and the rest. -/
abbrev Pattern := List Char → Option (List Char × List Char)

/-- `[p]+`. -/
def plus (p : Char → Bool) : Pattern := fun text =>
  if text.takeWhile p = [] then none else some (text.takeWhile p, text.dropWhile p)

/-- What `.` does not match. -/
def endsLine (c : Char) : Bool := c = '\n' || c = '\r' || c = '\u2028' || c = '\u2029'

/-- `(?:[^"\\]|\\.)*"`. -/
def stringTail : Pattern
  | [] => none
  | c :: text =>
      if c = '"' then some ([c], text)
      else if c = '\\' then
        match text with
        | [] => none
        | d :: text =>
            if endsLine d then none
            else (stringTail text).map fun (image, rest) => (c :: d :: image, rest)
      else (stringTail text).map fun (image, rest) => (c :: image, rest)

/-- `"(?:[^"\\]|\\.)*"`. -/
def stringPattern : Pattern
  | [] => none
  | c :: text =>
      if c = '"' then (stringTail text).map fun (image, rest) => (c :: image, rest) else none

/-- `(?:\.\d+)?` after digits. -/
def fraction (whole : List Char) : List Char → List Char × List Char
  | [] => (whole, [])
  | c :: text =>
      if c = '.' then
        match plus Char.isDigit text with
        | some (digits, rest) => (whole ++ c :: digits, rest)
        | none => (whole, c :: text)
      else (whole, c :: text)

/-- `\d+(?:\.\d+)?`. -/
def numberPattern : Pattern := fun text =>
  (plus Char.isDigit text).map fun (whole, rest) => fraction whole rest

def symbol (image : List Char) : Pattern := fun text =>
  (image.isPrefixOf? text).map fun rest => (image, rest)

/-- `word\b`. -/
def keyword (word : List Char) : Pattern := fun text =>
  (symbol word text).filter fun (_, rest) => wordEnds rest

def either (first second : Pattern) : Pattern := fun text => (first text).or (second text)

def isIdentifierStart (c : Char) : Bool := c.isAlpha || c = '_'

/-- `[A-Za-z_]\w*`. -/
def identifierPattern : Pattern
  | [] => none
  | c :: text =>
      if isIdentifierStart c then some (c :: text.takeWhile isWordChar, text.dropWhile isWordChar)
      else none

def TokenType.pattern : TokenType → Pattern
  | .whiteSpace => plus isSpace
  | .stringLit => stringPattern
  | .numberLit => numberPattern
  | .true => keyword ['t', 'r', 'u', 'e']
  | .false => keyword ['f', 'a', 'l', 's', 'e']
  | .null => keyword ['n', 'u', 'l', 'l']
  | .eqEq => either (symbol ['=', '=', '=']) (symbol ['=', '='])
  | .notEq => either (symbol ['!', '=', '=']) (symbol ['!', '='])
  | .lte => symbol ['<', '=']
  | .gte => symbol ['>', '=']
  | .lt => symbol ['<']
  | .gt => symbol ['>']
  | .andAnd => symbol ['&', '&']
  | .orOr => symbol ['|', '|']
  | .bang => symbol ['!']
  | .lParen => symbol ['(']
  | .rParen => symbol [')']
  | .lBracket => symbol ['[']
  | .rBracket => symbol [']']
  | .comma => symbol [',']
  | .dot => symbol ['.']
  | .identifier => identifierPattern

def allTokens : List TokenType :=
  [.whiteSpace, .stringLit, .numberLit, .true, .false, .null, .eqEq, .notEq, .lte, .gte, .lt, .gt,
    .andAnd, .orOr, .bang, .lParen, .rParen, .lBracket, .rBracket, .comma, .dot, .identifier]

/-! ## Tokens -/

structure Sym where
  type : TokenType
  image : List Char
  deriving DecidableEq, Repr

structure Token extends Sym where
  startOffset : Nat
  deriving DecidableEq, Repr

def readAs (text : List Char) (type : TokenType) : Option (Sym × List Char) :=
  (type.pattern text).map fun (image, rest) => (⟨type, image⟩, rest)

/-- The first pattern that matches. -/
def nextToken (text : List Char) : Option (Sym × List Char) := allTokens.findSome? (readAs text)

/-- The length of a text in UTF-16 code units, in which offsets count. -/
def codeUnits (text : List Char) : Nat := (text.map fun c => if c.val < 0x10000 then 1 else 2).sum

/-- `lexer.tokenize` from an offset on; none: there are lexing errors. Every token takes a
character, so that `fuel` need be no more than the length of the text. -/
def tokenize : Nat → Nat → List Char → Option (List Token)
  | _, _, [] => some []
  | 0, _, _ :: _ => none
  | fuel + 1, offset, c :: text =>
      (nextToken (c :: text)).bind fun (sym, rest) =>
        (tokenize fuel (offset + codeUnits sym.image) rest).map fun tokens =>
          if sym.type = .whiteSpace then tokens else ⟨sym, offset⟩ :: tokens

/-! ## One token -/

/-- The characters that a token of the type can start with. -/
def TokenType.starts (type : TokenType) (c : Char) : Bool :=
  match type with
  | .whiteSpace => isSpace c
  | .stringLit => c = '"'
  | .numberLit => c.isDigit
  | .true => c = 't'
  | .false => c = 'f'
  | .null => c = 'n'
  | .eqEq => c = '='
  | .notEq | .bang => c = '!'
  | .lte | .lt => c = '<'
  | .gte | .gt => c = '>'
  | .andAnd => c = '&'
  | .orOr => c = '|'
  | .lParen => c = '('
  | .rParen => c = ')'
  | .lBracket => c = '['
  | .rBracket => c = ']'
  | .comma => c = ','
  | .dot => c = '.'
  | .identifier => isIdentifierStart c

/-- The characters that a token of the type may run together with. -/
def TokenType.fuses (type : TokenType) (c : Char) : Bool :=
  match type with
  | .numberLit => c.isDigit || c = '.'
  | .true | .false | .null | .identifier => isWordChar c
  | .eqEq | .notEq | .lt | .gt | .bang => c = '='
  | _ => Bool.false

/-- The symbol is read where nothing follows that it runs together with. -/
structure Lexes (s : Sym) : Prop where
  next (rest : List Char) : (∀ c ∈ rest.head?, s.type.fuses c = Bool.false) →
    nextToken (s.image ++ rest) = some (s, rest)
  first : ∃ c tail, s.image = c :: tail ∧ s.type.starts c = Bool.true
  last : ∃ init c, s.image = init ++ [c] ∧ isSpace c = Bool.false
  token : s.type ≠ .whiteSpace

section

variable {type : TokenType} {c : Char} {text rest : List Char}

theorem plus_eq_none {p : Char → Bool} (other : p c = Bool.false) : plus p (c :: text) = none := by
  rw [plus, if_pos (List.takeWhile_cons_of_neg (by rw [other]; exact Bool.false_ne_true))]

theorem symbol_append (image : List Char) : symbol image (image ++ rest) = some (image, rest) := by
  rw [symbol, List.isPrefixOf?_eq_some_iff_append_eq.mpr rfl, Option.map_some]

theorem symbol_eq_none {image : List Char} (other : ¬ image <+: text) : symbol image text = none := by
  rw [symbol, Option.map_eq_none_iff]
  refine Option.eq_none_iff_forall_ne_some.mpr fun after found => other ⟨after, ?_⟩
  exact List.isPrefixOf?_eq_some_iff_append_eq.mp found

theorem symbol_cons_eq_none {d : Char} {image : List Char} (other : c ≠ d) :
    symbol (d :: image) (c :: text) = none :=
  symbol_eq_none fun starts => other (List.cons_prefix_cons.mp starts).1.symm

/-- A longer symbol is not read where its next character does not follow. -/
theorem symbol_longer_eq_none {d : Char} {image more : List Char} (other : ∀ c ∈ rest.head?, c ≠ d) :
    symbol (image ++ d :: more) (image ++ rest) = none := by
  refine symbol_eq_none fun starts => ?_
  rw [List.prefix_append_right_inj] at starts
  obtain ⟨after, rfl⟩ := starts
  exact other d rfl rfl

theorem keyword_cons_eq_none {d : Char} {word : List Char} (other : c ≠ d) :
    keyword (d :: word) (c :: text) = none := by
  rw [keyword, symbol_cons_eq_none other, Option.filter_none]

theorem pattern_eq_none (other : type.starts c = Bool.false) : type.pattern (c :: text) = none := by
  cases type with
  | whiteSpace => exact plus_eq_none other
  | stringLit => exact if_neg (of_decide_eq_false other)
  | numberLit => exact congrArg (Option.map _) (plus_eq_none other)
  | identifier => exact if_neg (Bool.eq_false_iff.mp other)
  | true | false | null => exact keyword_cons_eq_none (of_decide_eq_false other)
  | eqEq | notEq =>
      have apart := of_decide_eq_false other
      exact (congrArg₂ Option.or (symbol_cons_eq_none apart) (symbol_cons_eq_none apart)).trans rfl
  | _ => exact symbol_cons_eq_none (of_decide_eq_false other)

theorem findSome?_readAs {types after : List TokenType} (before : List TokenType) {image : List Char}
    (split : types = before ++ type :: after) (none_before : ∀ t ∈ before, t.pattern text = none)
    (here : type.pattern text = some (image, rest)) :
    types.findSome? (readAs text) = some (⟨type, image⟩, rest) := by
  have skipped : before.findSome? (readAs text) = none :=
    List.findSome?_eq_none_iff.mpr fun t mem => by rw [readAs, none_before t mem, Option.map_none]
  rw [split, List.findSome?_append, skipped, Option.none_or, List.findSome?_cons, readAs, here,
    Option.map_some]

/-- Only the types that can start with the first character matter. -/
theorem nextToken_cons :
    nextToken (c :: text) = (allTokens.filter (·.starts c)).findSome? (readAs (c :: text)) := by
  unfold nextToken
  induction allTokens with
  | nil => rfl
  | cons type types ih =>
      rw [List.filter_cons]
      cases starts : type.starts c with
      | false =>
          rw [if_neg Bool.false_ne_true, List.findSome?_cons, readAs, pattern_eq_none starts]
          exact ih
      | true => rw [if_pos rfl, List.findSome?_cons, List.findSome?_cons, ih]

end

/-- The text of a symbol that has only one. -/
def TokenType.text : TokenType → List Char
  | .true => ['t', 'r', 'u', 'e']
  | .false => ['f', 'a', 'l', 's', 'e']
  | .null => ['n', 'u', 'l', 'l']
  | .eqEq => ['=', '=']
  | .notEq => ['!', '=']
  | .lte => ['<', '=']
  | .gte => ['>', '=']
  | .lt => ['<']
  | .gt => ['>']
  | .andAnd => ['&', '&']
  | .orOr => ['|', '|']
  | .bang => ['!']
  | .lParen => ['(']
  | .rParen => [')']
  | .lBracket => ['[']
  | .rBracket => [']']
  | .comma => [',']
  | .dot => ['.']
  | _ => []

def TokenType.sym (type : TokenType) : Sym := ⟨type, type.text⟩

theorem wordEnds_of_apart {rest : List Char} (apart : ∀ c ∈ rest.head?, isWordChar c = Bool.false) :
    wordEnds rest = Bool.true := by
  cases rest with
  | nil => rfl
  | cons c rest => exact congrArg not (apart c rfl)

theorem keyword_append {word rest : List Char} (apart : ∀ c ∈ rest.head?, isWordChar c = Bool.false) :
    keyword word (word ++ rest) = some (word, rest) := by
  rw [keyword, symbol_append, Option.filter_some, if_pos (wordEnds_of_apart apart)]

theorem next_sym {type : TokenType} {rest : List Char} (fixed : type.text ≠ [])
    (apart : ∀ c ∈ rest.head?, type.fuses c = Bool.false) :
    nextToken (type.text ++ rest) = some (type.sym, rest) := by
  have other : (∀ c ∈ rest.head?, decide (c = '=') = Bool.false) → ∀ c ∈ rest.head?, c ≠ '=' :=
    fun apart c mem => of_decide_eq_false (apart c mem)
  cases type with
  | whiteSpace | stringLit | numberLit | identifier => exact absurd rfl fixed
  | true | false | null =>
      exact nextToken_cons.trans (findSome?_readAs [] rfl nofun (keyword_append apart))
  | eqEq =>
      have longer : symbol ['=', '=', '='] ('=' :: '=' :: rest) = none :=
        @symbol_longer_eq_none rest '=' ['=', '='] [] (other apart)
      have here : TokenType.eqEq.pattern ('=' :: '=' :: rest) = some (['=', '='], rest) :=
        congrArg (Option.or · _) longer
      exact nextToken_cons.trans (findSome?_readAs [] rfl nofun here)
  | notEq =>
      have longer : symbol ['!', '=', '='] ('!' :: '=' :: rest) = none :=
        @symbol_longer_eq_none rest '=' ['!', '='] [] (other apart)
      have here : TokenType.notEq.pattern ('!' :: '=' :: rest) = some (['!', '='], rest) :=
        congrArg (Option.or · _) longer
      exact nextToken_cons.trans (findSome?_readAs [] rfl nofun here)
  | lt =>
      have longer : TokenType.lte.pattern ('<' :: rest) = none :=
        @symbol_longer_eq_none rest '=' ['<'] [] (other apart)
      exact nextToken_cons.trans (findSome?_readAs [.lte] rfl (List.forall_mem_singleton.mpr longer) rfl)
  | gt =>
      have longer : TokenType.gte.pattern ('>' :: rest) = none :=
        @symbol_longer_eq_none rest '=' ['>'] [] (other apart)
      exact nextToken_cons.trans (findSome?_readAs [.gte] rfl (List.forall_mem_singleton.mpr longer) rfl)
  | bang =>
      have longer : TokenType.notEq.pattern ('!' :: rest) = none :=
        congrArg₂ Option.or (@symbol_longer_eq_none rest '=' ['!'] ['='] (other apart))
          (@symbol_longer_eq_none rest '=' ['!'] [] (other apart))
      exact nextToken_cons.trans
        (findSome?_readAs [.notEq] rfl (List.forall_mem_singleton.mpr longer) rfl)
  | _ => rfl

theorem lexes_sym {type : TokenType} (fixed : type.text ≠ []) : Lexes type.sym where
  next _ apart := next_sym fixed apart
  first := by
    cases type with
    | whiteSpace | stringLit | numberLit | identifier => exact absurd rfl fixed
    | _ => exact ⟨_, _, rfl, rfl⟩
  last := by
    cases type with
    | whiteSpace | stringLit | numberLit | identifier => exact absurd rfl fixed
    | _ => exact ⟨_, _, (List.dropLast_append_getLast fixed).symm, rfl⟩
  token same := by
    change type = _ at same
    exact fixed (by rw [same]; rfl)

/-! ## Words and numbers -/

section

variable {c : Char}

theorem isWordChar_of_isIdentifierStart (start : isIdentifierStart c = Bool.true) :
    isWordChar c = Bool.true := by
  rw [isIdentifierStart, Bool.or_eq_true] at start
  rw [isWordChar, Char.isAlphanum, Bool.or_eq_true, Bool.or_eq_true]
  exact start.imp_left .inl

theorem not_isDigit_of_isIdentifierStart (start : isIdentifierStart c = Bool.true) :
    c.isDigit = Bool.false := by
  refine Bool.eq_false_iff.mpr fun digit => ?_
  rw [isIdentifierStart] at start
  delta Char.isAlpha Char.isUpper Char.isLower at start
  simp only [Char.isDigit, Bool.or_eq_true, Bool.and_eq_true, decide_eq_true_eq,
    UInt32.le_iff_toNat_le] at start digit
  have top : c.val.toNat ≤ 57 := digit.2
  rcases start with (⟨low, -⟩ | ⟨low, -⟩) | rfl
  · exact absurd (low.trans top) (by decide)
  · exact absurd (low.trans top) (by decide)
  · exact absurd top (by decide)

theorem not_isSpace_of_starts {type : TokenType} (token : type ≠ .whiteSpace)
    (starts : type.starts c = Bool.true) : isSpace c = Bool.false := by
  cases type with
  | whiteSpace => exact absurd rfl token
  | numberLit => exact not_isSpace_of_isWordChar (isWordChar_of_isDigit starts)
  | identifier => exact not_isSpace_of_isWordChar (isWordChar_of_isIdentifierStart starts)
  | _ =>
      cases of_decide_eq_true starts
      rfl

/-- What a token that starts with a letter can be. -/
theorem mem_of_starts_letter {type : TokenType} (start : isIdentifierStart c = Bool.true)
    (starts : type.starts c = Bool.true) : type ∈ [.true, .false, .null, .identifier] := by
  cases type with
  | true | false | null | identifier => decide
  | whiteSpace =>
      have space := not_isSpace_of_isWordChar (isWordChar_of_isIdentifierStart start)
      exact absurd (space.symm.trans starts) Bool.false_ne_true
  | numberLit =>
      exact absurd ((not_isDigit_of_isIdentifierStart start).symm.trans starts) Bool.false_ne_true
  | _ =>
      cases of_decide_eq_true starts
      exact absurd start (by decide)

theorem eq_of_starts_digit {type : TokenType} (digit : c.isDigit = Bool.true)
    (starts : type.starts c = Bool.true) : type = .numberLit := by
  cases type with
  | numberLit => rfl
  | whiteSpace =>
      have space := not_isSpace_of_isWordChar (isWordChar_of_isDigit digit)
      exact absurd (space.symm.trans starts) Bool.false_ne_true
  | identifier =>
      exact absurd ((not_isDigit_of_isIdentifierStart starts).symm.trans digit) Bool.false_ne_true
  | _ =>
      cases of_decide_eq_true starts
      exact absurd digit (by decide)

end

/-- `[A-Za-z_]\w*`, and not one of the keywords. -/
structure IsIdentifier (word : List Char) : Prop where
  shape : ∃ c tail, word = c :: tail ∧ isIdentifierStart c = Bool.true ∧
    ∀ d ∈ tail, isWordChar d = Bool.true
  free : word ∉ [TokenType.true.text, TokenType.false.text, TokenType.null.text]

theorem takeWhile_append_of_apart {p : Char → Bool} {front rest : List Char}
    (all : ∀ c ∈ front, p c = Bool.true) (apart : ∀ c ∈ rest.head?, p c = Bool.false) :
    (front ++ rest).takeWhile p = front ∧ (front ++ rest).dropWhile p = rest := by
  have stop : rest.takeWhile p = [] ∧ rest.dropWhile p = rest := by
    cases rest with
    | nil => exact ⟨rfl, rfl⟩
    | cons c rest =>
        have not := Bool.eq_false_iff.mp (apart c rfl)
        exact ⟨List.takeWhile_cons_of_neg not, List.dropWhile_cons_of_neg not⟩
  rw [List.takeWhile_append_of_pos all, List.dropWhile_append_of_pos all, stop.1, stop.2,
    List.append_nil]
  exact ⟨rfl, rfl⟩

theorem keyword_eq_none {word other rest : List Char} (all : ∀ c ∈ word, isWordChar c = Bool.true)
    (all' : ∀ c ∈ other, isWordChar c = Bool.true) (apart : ∀ c ∈ rest.head?, isWordChar c = Bool.false)
    (differs : word ≠ other) : keyword other (word ++ rest) = none := by
  rw [keyword, Option.filter_eq_none_iff]
  intro found symbol_read ends
  obtain ⟨after, split, rfl⟩ := Option.map_eq_some_iff.mp symbol_read
  rw [List.isPrefixOf?_eq_some_iff_append_eq] at split
  have apart' : ∀ c ∈ after.head?, isWordChar c = Bool.false := by
    cases after with
    | nil => rintro c ⟨⟩
    | cons d after =>
        rintro c ⟨⟩
        exact (Bool.not_eq_eq_eq_not.mp ends)
  have first := (takeWhile_append_of_apart all apart).1
  rw [← split, (takeWhile_append_of_apart all' apart').1] at first
  exact differs first.symm

theorem lexes_identifier {word : List Char} (identifier : IsIdentifier word) :
    Lexes ⟨.identifier, word⟩ := by
  obtain ⟨⟨c, tail, rfl, start, all⟩, free⟩ := identifier
  have word_chars : ∀ d ∈ c :: tail, isWordChar d = Bool.true :=
    List.forall_mem_cons.mpr ⟨isWordChar_of_isIdentifierStart start, all⟩
  refine ⟨fun rest apart => ?_, ⟨c, tail, rfl, start⟩, ?_, nofun⟩
  · obtain ⟨image, left⟩ := takeWhile_append_of_apart all apart
    have here : TokenType.identifier.pattern (c :: (tail ++ rest)) = some (c :: tail, rest) := by
      change (if isIdentifierStart c then _ else _) = _
      rw [if_pos start, image, left]
    refine findSome?_readAs (allTokens.dropLast) rfl (fun type mem => ?_) here
    by_cases starts : type.starts c = Bool.true
    · have known := mem_of_starts_letter start starts
      have words : ([TokenType.true.text, TokenType.false.text, TokenType.null.text].all
          fun other => other.all isWordChar) = Bool.true := by
        decide
      have keywords : ∀ other ∈ [TokenType.true.text, TokenType.false.text, TokenType.null.text],
          keyword other (c :: (tail ++ rest)) = none := fun other listed => by
        have chars := List.all_eq_true.mp (List.all_eq_true.mp words other listed)
        exact keyword_eq_none word_chars chars apart fun same => free (same ▸ listed)
      simp only [List.mem_cons, List.not_mem_nil, or_false] at known
      rcases known with rfl | rfl | rfl | rfl
      · exact keywords _ (by decide)
      · exact keywords _ (by decide)
      · exact keywords _ (by decide)
      · exact absurd mem (by decide)
    · exact pattern_eq_none (Bool.eq_false_iff.mpr starts)
  · refine ⟨_, _, (List.dropLast_append_getLast (List.cons_ne_nil c tail)).symm, ?_⟩
    exact not_isSpace_of_isWordChar (word_chars _ (List.getLast_mem _))

/-- Digits, with a fraction or without. -/
def IsNumber (text : List Char) : Prop :=
  ∃ whole, whole ≠ [] ∧ (∀ c ∈ whole, c.isDigit = Bool.true) ∧
    (text = whole ∨ ∃ digits, digits ≠ [] ∧ (∀ c ∈ digits, c.isDigit = Bool.true) ∧
      text = whole ++ '.' :: digits)

theorem plus_append {p : Char → Bool} {front rest : List Char} (some_char : front ≠ [])
    (all : ∀ c ∈ front, p c = Bool.true) (apart : ∀ c ∈ rest.head?, p c = Bool.false) :
    plus p (front ++ rest) = some (front, rest) := by
  obtain ⟨image, left⟩ := takeWhile_append_of_apart all apart
  rw [plus, image, left, if_neg some_char]

theorem numberPattern_append {text rest : List Char} (number : IsNumber text)
    (apart : ∀ c ∈ rest.head?, TokenType.numberLit.fuses c = Bool.false) :
    numberPattern (text ++ rest) = some (text, rest) := by
  obtain ⟨whole, some_digit, all, shape⟩ := number
  have apart' : ∀ c ∈ rest.head?, c.isDigit = Bool.false ∧ c ≠ '.' := fun c mem => by
    have both := apart c mem
    rw [TokenType.fuses, Bool.or_eq_false_iff] at both
    exact ⟨both.1, of_decide_eq_false both.2⟩
  rcases shape with rfl | ⟨digits, some_digit', all', rfl⟩
  · rw [numberPattern, plus_append some_digit all fun c mem => (apart' c mem).1, Option.map_some]
    cases rest with
    | nil => rfl
    | cons c rest => exact congrArg some (if_neg (apart' c rfl).2)
  · have point : ∀ c ∈ ('.' :: (digits ++ rest)).head?, c.isDigit = Bool.false := by
      rintro c ⟨⟩
      rfl
    have second := plus_append some_digit' all' fun c mem => (apart' c mem).1
    have both : fraction whole ('.' :: (digits ++ rest)) = (whole ++ '.' :: digits, rest) := by
      simp [fraction, second]
    rw [numberPattern, List.append_assoc, List.cons_append, plus_append some_digit all point,
      Option.map_some]
    exact congrArg some both

theorem lexes_number {text : List Char} (number : IsNumber text) : Lexes ⟨.numberLit, text⟩ := by
  obtain ⟨c, tail, rfl, digit⟩ : ∃ c tail, text = c :: tail ∧ c.isDigit = Bool.true := by
    obtain ⟨whole, some_digit, all, shape⟩ := number
    obtain ⟨c, tail, rfl⟩ := List.exists_cons_of_ne_nil some_digit
    rcases shape with rfl | ⟨digits, -, -, rfl⟩
    · exact ⟨c, _, rfl, all c List.mem_cons_self⟩
    · exact ⟨c, _, rfl, all c List.mem_cons_self⟩
  refine ⟨fun rest apart => ?_, ⟨c, tail, rfl, digit⟩, ?_, nofun⟩
  · refine findSome?_readAs [.whiteSpace, .stringLit] rfl (fun type mem => ?_)
      (numberPattern_append number apart)
    refine pattern_eq_none (Bool.eq_false_iff.mpr fun starts => ?_)
    rw [eq_of_starts_digit digit starts] at mem
    exact absurd mem (by decide)
  · obtain ⟨whole, some_digit, all, shape⟩ := number
    have last : ∀ digits : List Char, digits ≠ [] → (∀ d ∈ digits, d.isDigit = Bool.true) →
        ∃ init d, digits = init ++ [d] ∧ isSpace d = Bool.false := fun digits some_digit all =>
      ⟨_, _, (List.dropLast_append_getLast some_digit).symm,
        not_isSpace_of_isWordChar (isWordChar_of_isDigit (all _ (List.getLast_mem some_digit)))⟩
    rcases shape with same | ⟨digits, some_digit', all', same⟩
    · dsimp only
      rw [same]
      exact last whole some_digit all
    · obtain ⟨init, d, rfl, solid⟩ := last digits some_digit' all'
      dsimp only
      rw [same]
      exact ⟨whole ++ '.' :: init, d, by simp, solid⟩

/-! ## Strings -/

/-- A string between quotes, with its quotes and backslashes escaped. -/
def escape (c : Char) : List Char := if c = '"' ∨ c = '\\' then ['\\', c] else [c]

def quote (text : List Char) : List Char := '"' :: (text.flatMap escape ++ ['"'])

theorem stringTail_step (c : Char) (text : List Char) : stringTail (escape c ++ text) =
    (stringTail text).map fun (image, rest) => (escape c ++ image, rest) := by
  by_cases special : c = '"' ∨ c = '\\'
  · have closed : endsLine c = Bool.false := by
      rcases special with rfl | rfl <;> decide
    rw [escape, if_pos special, List.cons_append, List.singleton_append]
    conv_lhs => unfold stringTail
    rw [if_neg (by decide), if_pos rfl]
    dsimp only
    rw [closed, if_neg Bool.false_ne_true]
    rfl
  · obtain ⟨quoted, escaped⟩ := not_or.mp special
    rw [escape, if_neg special, List.singleton_append]
    conv_lhs => unfold stringTail
    rw [if_neg quoted, if_neg escaped]
    rfl

theorem stringTail_escape (text rest : List Char) :
    stringTail (text.flatMap escape ++ '"' :: rest) = some (text.flatMap escape ++ ['"'], rest) := by
  induction text with
  | nil =>
      unfold stringTail
      exact if_pos rfl
  | cons c text ih =>
      rw [List.flatMap_cons, List.append_assoc, List.append_assoc, stringTail_step, ih,
        Option.map_some]

theorem lexes_quote (text : List Char) : Lexes ⟨.stringLit, quote text⟩ := by
  refine ⟨fun rest _ => ?_, ⟨'"', _, rfl, rfl⟩, ⟨'"' :: text.flatMap escape, '"', rfl, rfl⟩, nofun⟩
  have here : TokenType.stringLit.pattern (quote text ++ rest) = some (quote text, rest) := by
    have body := stringTail_escape text rest
    simp [TokenType.pattern, stringPattern, quote, body]
  exact findSome?_readAs [.whiteSpace] rfl (List.forall_mem_singleton.mpr rfl) here

/-! ## Texts -/

def TokenType.isOperator (type : TokenType) : Bool :=
  type ∈ [.eqEq, .notEq, .lte, .gte, .lt, .gt, .andAnd, .orOr]

def TokenType.isWord (type : TokenType) : Bool :=
  type ∈ [.numberLit, .true, .false, .null, .identifier]

/-- Operators have a space on both sides and commas one behind them; words are kept apart. -/
def spaced (left right : TokenType) : Bool :=
  left.isOperator || right.isOperator || left = .comma || (left.isWord && right.isWord) ||
    (left = .numberLit && right = .dot)

def gap (left : TokenType) : List Sym → List Char
  | [] => []
  | right :: _ => if spaced left right.type then [' '] else []

def render : List Sym → List Char
  | [] => []
  | s :: syms => s.image ++ (gap s.type syms ++ render syms)

section

variable {c : Char}

theorem isWord_of_starts {type : TokenType} (word : isWordChar c = Bool.true)
    (starts : type.starts c = Bool.true) : type.isWord = Bool.true := by
  cases type with
  | numberLit | true | false | null | identifier => rfl
  | whiteSpace =>
      exact absurd ((not_isSpace_of_isWordChar word).symm.trans starts) Bool.false_ne_true
  | _ =>
      cases of_decide_eq_true starts
      exact absurd word (by decide)

theorem eq_eqEq_of_starts {type : TokenType} (starts : type.starts '=' = Bool.true) :
    type = .eqEq := by
  revert starts
  cases type <;> decide

theorem eq_dot_of_starts {type : TokenType} (starts : type.starts '.' = Bool.true) :
    type = .dot := by
  revert starts
  cases type <;> decide

theorem fuses_eq_false {left right : TokenType} (near : spaced left right = Bool.false)
    (starts : right.starts c = Bool.true) : left.fuses c = Bool.false := by
  simp only [spaced, Bool.or_eq_false_iff, Bool.and_eq_false_iff] at near
  obtain ⟨⟨⟨⟨left_op, right_op⟩, -⟩, words⟩, point⟩ := near
  refine Bool.eq_false_iff.mpr fun fused => ?_
  have word (left_word : left.isWord = Bool.true) (word : isWordChar c = Bool.true) : False := by
    have right_word := isWord_of_starts word starts
    rw [left_word, right_word] at words
    exact words.elim nofun nofun
  cases left with
  | numberLit =>
      rcases Bool.or_eq_true_iff.mp fused with digit | dot
      · exact word rfl (isWordChar_of_isDigit digit)
      · cases of_decide_eq_true dot
        cases eq_dot_of_starts starts
        exact point.elim nofun nofun
  | true | false | null | identifier => exact word rfl fused
  | bang =>
      cases of_decide_eq_true fused
      cases eq_eqEq_of_starts starts
      exact absurd right_op (by decide)
  | eqEq | notEq | lt | gt => exact absurd left_op (by decide)
  | _ => exact absurd fused Bool.false_ne_true

end

section

variable {s : Sym} {syms : List Sym}

theorem apart_of_spaced (ok : ∀ s ∈ syms, Lexes s) (left : TokenType) :
    ∀ c ∈ (gap left syms ++ render syms).head?, left.fuses c = Bool.false := by
  cases syms with
  | nil => exact nofun
  | cons right syms =>
      obtain ⟨c, tail, image, starts⟩ := (ok right List.mem_cons_self).first
      rw [gap]
      cases near : spaced left right.type with
      | true =>
          rintro _ ⟨⟩
          cases left <;> decide
      | false =>
          rw [if_neg Bool.false_ne_true, render, image]
          rintro _ ⟨⟩
          exact fuses_eq_false near starts

theorem tokenize_cons {fuel offset : Nat} {text rest : List Char} (some_char : text ≠ [])
    (next : nextToken text = some (s, rest)) : tokenize (fuel + 1) offset text =
      (tokenize fuel (offset + codeUnits s.image) rest).map fun tokens =>
        if s.type = .whiteSpace then tokens else ⟨s, offset⟩ :: tokens := by
  obtain ⟨c, text, rfl⟩ := List.exists_cons_of_ne_nil some_char
  rw [tokenize, next, Option.bind_some]

theorem render_first (ok : ∀ s ∈ syms, Lexes s) :
    ∀ c ∈ (render syms).head?, isSpace c = Bool.false := by
  cases syms with
  | nil => exact nofun
  | cons s syms =>
      obtain ⟨c, tail, image, starts⟩ := (ok s List.mem_cons_self).first
      rw [render, image]
      rintro _ ⟨⟩
      exact not_isSpace_of_starts (ok s List.mem_cons_self).token starts

theorem nextToken_space (ok : ∀ s ∈ syms, Lexes s) :
    nextToken (' ' :: render syms) = some (⟨.whiteSpace, [' ']⟩, render syms) := by
  have here := plus_append (List.cons_ne_nil ' ' []) (fun c mem => by
    rw [List.mem_singleton.mp mem]; rfl) (render_first ok)
  exact findSome?_readAs [] rfl nofun here

/-- Symbols that are written one after the other are read back. -/
theorem tokenize_render (ok : ∀ s ∈ syms, Lexes s) : ∀ {fuel : Nat} (offset : Nat),
    (render syms).length ≤ fuel →
    ∃ tokens, tokenize fuel offset (render syms) = some tokens ∧ tokens.map Token.toSym = syms := by
  induction syms with
  | nil =>
      intro fuel offset _
      cases fuel <;> exact ⟨[], rfl, rfl⟩
  | cons s syms ih =>
      intro fuel offset enough
      obtain ⟨lexes, others⟩ := List.forall_mem_cons.mp ok
      obtain ⟨c, tail, image, -⟩ := lexes.first
      have some_char : render (s :: syms) ≠ [] := by
        rw [render, image]
        exact List.cons_ne_nil _ _
      have next := lexes.next _ (apart_of_spaced others s.type)
      obtain ⟨fuel, rfl⟩ : ∃ less, fuel = less + 1 :=
        Nat.exists_eq_add_one.mpr ((List.length_pos_of_ne_nil some_char).trans_le enough)
      have less : (gap s.type syms ++ render syms).length ≤ fuel := by
        rw [render, image] at enough
        simp only [List.cons_append, List.length_cons, List.length_append] at enough ⊢
        omega
      rw [tokenize_cons some_char next]
      have rest : ∃ tokens, tokenize fuel (offset + codeUnits s.image)
          (gap s.type syms ++ render syms) = some tokens ∧ tokens.map Token.toSym = syms := by
        cases syms with
        | nil => exact ih others _ less
        | cons right syms =>
            rw [gap] at less ⊢
            by_cases near : spaced s.type right.type = Bool.true
            · rw [if_pos near] at less ⊢
              obtain ⟨fuel, rfl⟩ : ∃ less, fuel = less + 1 :=
                Nat.exists_eq_add_one.mpr (Nat.zero_lt_of_lt less)
              obtain ⟨tokens, read, same⟩ := ih others (offset + codeUnits s.image + 1)
                (Nat.le_of_succ_le_succ less)
              refine ⟨tokens, ?_, same⟩
              rw [List.singleton_append, tokenize_cons (List.cons_ne_nil _ _) (nextToken_space others)]
              exact congrArg (Option.map _) read
            · rw [if_neg near] at less ⊢
              exact ih others _ less
      obtain ⟨tokens, read, same⟩ := rest
      refine ⟨⟨s, offset⟩ :: tokens, ?_, congrArg (s :: ·) same⟩
      rw [read, Option.map_some, if_neg lexes.token]

theorem render_last (ok : ∀ s ∈ syms, Lexes s) :
    ∀ c ∈ (render syms).getLast?, isSpace c = Bool.false := by
  induction syms with
  | nil => exact nofun
  | cons s syms ih =>
      obtain ⟨lexes, others⟩ := List.forall_mem_cons.mp ok
      cases syms with
      | nil =>
          obtain ⟨init, d, image, solid⟩ := lexes.last
          rw [render, gap, render, List.append_nil, List.append_nil, image, List.getLast?_concat]
          rintro _ ⟨⟩
          exact solid
      | cons right syms =>
          obtain ⟨c, tail, image, -⟩ := (others right List.mem_cons_self).first
          have some_char : render (right :: syms) ≠ [] := by
            rw [render, image]
            exact List.cons_ne_nil _ _
          rw [render, ← List.append_assoc, List.getLast?_append_of_ne_nil _ some_char]
          exact ih others

/-- The text has no white space around it. -/
theorem trim_render (ok : ∀ s ∈ syms, Lexes s) : trim (render syms) = render syms :=
  trim_eq_self (render_first ok) (render_last ok)

end

end Opensquid.Evaluator
