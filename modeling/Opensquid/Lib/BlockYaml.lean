import Mathlib.Data.List.TakeWhile
import Opensquid.Lib.FrontMatter
import Opensquid.Lib.JsonParse
import Opensquid.Lib.Lists

/-!
# Block YAML

Headers in block style: one line for each field and each item, what belongs to it on deeper lines,
strings without quotation marks where they can only be strings. What is printed is read back
(`parse_print`), so printing and reading are a codec for files with front matter (`codec`).

The lines are an outline: labels, each with its depth. It is read from the last line to the first,
and a line takes the deeper ones behind it (`Outline.ofLines`).
-/

namespace Opensquid.Lib.BlockYaml

open FrontMatter Lines

/-! ## Outlines -/

/-- Labels with labels below them. -/
inductive Outline (α : Type)
  | nil
  | cons (label : α) (below rest : Outline α)

namespace Outline

variable {α : Type}

/-- The labels in order, each with its depth. -/
def lines (depth : Nat) : Outline α → List (Nat × α)
  | nil => []
  | cons label below rest => (depth, label) :: (below.lines (depth + 1) ++ rest.lines depth)

/-- A label whose lines have been read. -/
structure Entry (α : Type) where
  depth : Nat
  label : α
  below : Outline α

def ofEntries : List (Entry α) → Outline α
  | [] => nil
  | e :: entries => cons e.label e.below (ofEntries entries)

/-- A line takes the entries behind it that are deeper. -/
def put (line : Nat × α) (read : List (Entry α)) : List (Entry α) :=
  ⟨line.1, line.2, ofEntries (read.takeWhile (line.1 < ·.depth))⟩ ::
    read.dropWhile (line.1 < ·.depth)

def ofLines (lines : List (Nat × α)) : Outline α := ofEntries (lines.foldr put [])

def entries (depth : Nat) : Outline α → List (Entry α)
  | nil => []
  | cons label below rest => ⟨depth, label, below⟩ :: rest.entries depth

variable {depth : Nat} {read : List (Entry α)}

theorem ofEntries_entries (o : Outline α) : ofEntries (o.entries depth) = o := by
  induction o with
  | nil => rfl
  | cons label below rest _ ih => rw [entries, ofEntries, ih]

theorem depth_of_mem_entries {o : Outline α} {e : Entry α} (mem : e ∈ o.entries depth) :
    e.depth = depth := by
  induction o with
  | nil => cases mem
  | cons label below rest _ ih =>
      rcases List.mem_cons.mp mem with rfl | mem
      · rfl
      · exact ih mem

/-- Lines are put in front of what is not deeper than they are. -/
theorem foldr_put (o : Outline α) (next : ∀ e ∈ read.head?, e.depth ≤ depth) :
    (o.lines depth).foldr put read = o.entries depth ++ read := by
  induction o generalizing depth read with
  | nil => rfl
  | cons label below rest belowIh restIh =>
      have first : ∀ e ∈ (rest.entries depth ++ read).head?, e.depth ≤ depth := by
        intro e mem
        rw [List.head?_append] at mem
        rcases Option.or_eq_some_iff.mp mem with own | ⟨-, later⟩
        · exact (depth_of_mem_entries (List.mem_of_mem_head? own)).le
        · exact next e later
      have deeper : ∀ e ∈ below.entries (depth + 1), decide (depth < e.depth) = true :=
        fun e mem => decide_eq_true (by rw [depth_of_mem_entries mem]; omega)
      have stops : (rest.entries depth ++ read).takeWhile (depth < ·.depth) = [] ∧
          (rest.entries depth ++ read).dropWhile (depth < ·.depth) = rest.entries depth ++ read := by
        generalize rest.entries depth ++ read = later at first
        cases later with
        | nil => exact ⟨rfl, rfl⟩
        | cons e later =>
            have shallow : ¬ decide (depth < e.depth) = true := by
              have := first e rfl
              rw [decide_eq_true_eq]
              omega
            exact ⟨List.takeWhile_cons_of_neg shallow, List.dropWhile_cons_of_neg shallow⟩
      rw [lines, List.foldr_cons, List.foldr_append, restIh next,
        belowIh fun e mem => (first e mem).trans (Nat.le_succ depth), put]
      dsimp only
      rw [List.takeWhile_append_of_pos deeper, List.dropWhile_append_of_pos deeper, stops.1, stops.2,
        List.append_nil, ofEntries_entries]
      rfl

theorem ofLines_lines (o : Outline α) : ofLines (o.lines 0) = o := by
  have none : ∀ e ∈ ([] : List (Entry α)).head?, e.depth ≤ 0 := fun e mem => by cases mem
  rw [ofLines, foldr_put o none, List.append_nil, ofEntries_entries]

end Outline

/-! ## Scalars -/

/-- A value on the line of its key. -/
inductive Scalar
  | null
  | bool (b : Bool)
  | num (n : Nat)
  | str (s : String)
  | emptySeq
  | emptyMap

def Scalar.value : Scalar → Value
  | null => .null
  | bool b => .bool b
  | num n => .num n
  | str s => .str s
  | emptySeq => .seq []
  | emptyMap => .map []

theorem Scalar.wf_value (x : Scalar) : x.value.Wf := by
  cases x with
  | emptyMap => exact ⟨List.nodup_nil, trivial⟩
  | _ => trivial

def isKeyChar (c : Char) : Bool := c.isAlphanum || c = '_'

/-- What is read as no string. -/
def words : List (List Char) :=
  ["null".toList, "Null".toList, "NULL".toList, "true".toList, "True".toList, "TRUE".toList,
    "false".toList, "False".toList, "FALSE".toList]

/-- Neither a colon nor a blank ends the text or is followed by a blank. -/
def calm : List Char → Bool
  | [] => true
  | c :: rest =>
      (if c = ':' ∨ c = ' ' then rest.head?.any isKeyChar else isKeyChar c || c ∈ ['-', '.', '/']) &&
        calm rest

/-- A text that begins with a digit may be a number, unless there is a colon in it. -/
def startsString : List Char → Bool
  | [] => false
  | c :: rest => c.isAlpha || c.isDigit && ':' ∈ rest

def isPlain (text : List Char) : Bool := startsString text && calm text && text ∉ words

def Scalar.print : Scalar → List Char
  | null => "null".toList
  | bool b => if b then "true".toList else "false".toList
  | num n => Nat.toDigits 10 n
  | str s => if isPlain s.toList then s.toList else Json.quote s
  | emptySeq => ['[', ']']
  | emptyMap => ['\x7b', '\x7d']

/-- A string in quotation marks, and what follows. -/
def readQuoted (text : List Char) : Option (String × List Char) :=
  (Json.dropLiteral ['"'] text).bind Json.readString

def readScalar (text : List Char) : Option Scalar :=
  if text = "null".toList then some .null
  else if text = "true".toList then some (.bool true)
  else if text = "false".toList then some (.bool false)
  else if text = ['[', ']'] then some .emptySeq
  else if text = ['\x7b', '\x7d'] then some .emptyMap
  else if Json.isDigits text then some (.num (Nat.ofDigitChars 10 text 0))
  else if isPlain text then some (.str (String.ofList text))
  else
    match readQuoted text with
    | some (s, []) => some (.str s)
    | _ => none

theorem readQuoted_quote (s : String) (rest : List Char) :
    readQuoted (Json.quote s ++ rest) = some (s, rest) := by
  have text : Json.quote s ++ rest = '"' :: (s.toList.flatMap Json.escape ++ '"' :: rest) := by
    rw [Json.quote, List.cons_append, List.append_assoc, List.singleton_append]
  rw [readQuoted, text, Json.dropLiteral_cons, Option.bind_some, Json.readString_body]

theorem startsString_head {text : List Char} (starts : startsString text = true) :
    ∃ c rest, text = c :: rest ∧ c.isAlphanum = true := by
  cases text with
  | nil => cases starts
  | cons c rest =>
      refine ⟨c, rest, rfl, ?_⟩
      rw [startsString, Bool.or_eq_true, Bool.and_eq_true] at starts
      rw [Char.isAlphanum, Bool.or_eq_true]
      exact starts.imp id And.left

theorem not_isDigit_of_isAlpha {c : Char} (letter : c.isAlpha = true) : c.isDigit = false := by
  refine Bool.eq_false_iff.mpr fun digit => ?_
  delta Char.isAlpha Char.isUpper Char.isLower at letter
  simp only [Char.isDigit, Bool.or_eq_true, Bool.and_eq_true, decide_eq_true_eq,
    UInt32.le_iff_toNat_le, ge_iff_le] at letter digit
  have top : '9'.val.toNat = 57 := rfl
  have upper : 'A'.val.toNat = 65 := rfl
  have lower : 'a'.val.toNat = 97 := rfl
  omega

theorem not_isDigits_of_startsString {text : List Char} (starts : startsString text = true) :
    Json.isDigits text = false := by
  refine Bool.eq_false_iff.mpr fun digits => ?_
  rw [Json.isDigits, Bool.and_eq_true] at digits
  have all := List.all_eq_true.mp digits.2
  cases text with
  | nil => cases starts
  | cons c rest =>
      rw [startsString, Bool.or_eq_true, Bool.and_eq_true] at starts
      have digit : c.isDigit = true := all c List.mem_cons_self
      rcases starts with letter | ⟨-, colon⟩
      · exact absurd digit (by rw [not_isDigit_of_isAlpha letter]; decide)
      · exact absurd (all ':' (List.mem_cons_of_mem _ (of_decide_eq_true colon))) (by decide)

theorem readScalar_print (x : Scalar) : readScalar x.print = some x := by
  cases x with
  | null => rfl
  | bool b => cases b <;> rfl
  | emptySeq => rfl
  | emptyMap => rfl
  | num n =>
      have digits : Json.isDigits (Nat.toDigits 10 n) = true := by
        rw [Json.isDigits, Bool.and_eq_true]
        exact ⟨decide_eq_true Nat.toDigits_ne_nil, List.all_eq_true.mpr fun c mem =>
          Nat.isDigit_of_mem_toDigits (by decide) (by decide) mem⟩
      have other : ∀ word : List Char, Json.isDigits word = false → Nat.toDigits 10 n ≠ word :=
        fun word none same => by rw [same, none] at digits; cases digits
      rw [Scalar.print, readScalar, if_neg (other _ rfl), if_neg (other _ rfl), if_neg (other _ rfl),
        if_neg (other _ rfl), if_neg (other _ rfl), if_pos digits, Nat.ofDigitChars_ten_toDigits]
  | str s =>
      rw [Scalar.print]
      split
      · next plain =>
          have parts := plain
          rw [isPlain, Bool.and_eq_true, Bool.and_eq_true] at parts
          obtain ⟨⟨starts, -⟩, word⟩ := parts
          have word := of_decide_eq_true word
          obtain ⟨c, rest, text, alphanum⟩ := startsString_head starts
          have other : ∀ d more, d.isAlphanum = false → s.toList ≠ d :: more :=
            fun d more none same => by
              rw [text] at same
              cases same
              rw [none] at alphanum
              cases alphanum
          rw [readScalar, if_neg fun same => word (by rw [same]; decide),
            if_neg fun same => word (by rw [same]; decide),
            if_neg fun same => word (by rw [same]; decide), if_neg (other _ _ (by decide)),
            if_neg (other _ _ (by decide)), not_isDigits_of_startsString starts, if_neg nofun,
            if_pos plain, String.ofList_toList]
      · have quoted : Json.quote s = '"' :: (s.toList.flatMap Json.escape ++ ['"']) := rfl
        have read := readQuoted_quote s []
        rw [List.append_nil] at read
        have starts : isPlain (Json.quote s) = false := rfl
        have digits : Json.isDigits (Json.quote s) = false := rfl
        have other : ∀ word : List Char, word.head? ≠ some '"' → Json.quote s ≠ word :=
          fun word head same => head (by rw [← same, quoted]; rfl)
        rw [readScalar, if_neg (other _ (by decide)), if_neg (other _ (by decide)),
          if_neg (other _ (by decide)), if_neg (other _ (by decide)), if_neg (other _ (by decide)),
          digits, if_neg nofun, starts, if_neg nofun, read]

/-! ## Lines -/

/-- What stands on a line: a field or an item, with its value or with the lines below as its
value; or a scalar that is the whole header. -/
inductive Label
  | field (key : String) (x : Option Scalar)
  | item (x : Option Scalar)
  | bare (x : Scalar)

def isKey (text : List Char) : Bool := isPlain text && text.all isKeyChar

def printKey (key : String) : List Char :=
  if isKey key.toList then key.toList else Json.quote key

def Label.print : Label → List Char
  | field key none => printKey key ++ [':']
  | field key (some x) => printKey key ++ ':' :: ' ' :: x.print
  | item none => ['-']
  | item (some x) => '-' :: ' ' :: x.print
  | bare x => x.print

def readKey (text : List Char) : Option (String × List Char) :=
  if text.head? = some '"' then readQuoted text
  else some (String.ofList (text.takeWhile isKeyChar), text.dropWhile isKeyChar)

def readField (text : List Char) : Option Label :=
  match readKey text with
  | some (key, [':']) => some (.field key none)
  | some (key, ':' :: ' ' :: rest) => (readScalar rest).map fun x => .field key (some x)
  | _ => none

def readLabel (text : List Char) : Option Label :=
  if text = ['-'] then some (.item none)
  else
    match Json.dropLiteral ['-', ' '] text with
    | some rest => (readScalar rest).map fun x => .item (some x)
    | none => (readField text).or ((readScalar text).map .bare)

/-- How the texts of scalars and keys begin. -/
def Opens (text : List Char) : Prop :=
  ∃ c rest, text = c :: rest ∧ (c.isAlphanum || c ∈ ['"', '[', '\x7b']) = true

theorem opens_quote (s : String) : Opens (Json.quote s) := ⟨'"', _, rfl, by decide⟩

theorem opens_of_isPlain {text : List Char} (plain : isPlain text = true) : Opens text := by
  rw [isPlain, Bool.and_eq_true, Bool.and_eq_true] at plain
  obtain ⟨c, rest, same, alphanum⟩ := startsString_head plain.1.1
  exact ⟨c, rest, same, by rw [alphanum, Bool.true_or]⟩

theorem Scalar.opens (x : Scalar) : Opens x.print := by
  cases x with
  | null => exact ⟨'n', _, rfl, by decide⟩
  | bool b => cases b <;> exact ⟨_, _, rfl, by decide⟩
  | emptySeq => exact ⟨'[', _, rfl, by decide⟩
  | emptyMap => exact ⟨'\x7b', _, rfl, by decide⟩
  | num n =>
      obtain ⟨c, rest, same⟩ := List.exists_cons_of_ne_nil (Nat.toDigits_ne_nil (n := n) (b := 10))
      refine ⟨c, rest, same, ?_⟩
      have digit : c.isDigit = true :=
        Nat.isDigit_of_mem_toDigits (by decide) (by decide) (same ▸ List.mem_cons_self)
      rw [Char.isAlphanum, digit, Bool.or_true, Bool.true_or]
  | str s =>
      rw [print]
      split
      · exact opens_of_isPlain ‹_›
      · exact opens_quote s

theorem opens_printKey (key : String) : Opens (printKey key) := by
  rw [printKey]
  split
  · next plain =>
      rw [isKey, Bool.and_eq_true] at plain
      exact opens_of_isPlain plain.1
  · exact opens_quote key

theorem Opens.ne {text : List Char} (opens : Opens text) {d : Char}
    (other : (d.isAlphanum || d ∈ ['"', '[', '\x7b']) = false) (rest : List Char) :
    text ≠ d :: rest := by
  obtain ⟨c, more, rfl, opener⟩ := opens
  intro same
  rw [(List.cons.inj same).1, other] at opener
  cases opener

theorem Opens.append {text : List Char} (opens : Opens text) (more : List Char) :
    Opens (text ++ more) := by
  obtain ⟨c, rest, rfl, opener⟩ := opens
  exact ⟨c, rest ++ more, rfl, opener⟩

/-- A label that is no item is not read as one. -/
theorem Opens.readLabel {text : List Char} (opens : Opens text) :
    readLabel text = (readField text).or ((readScalar text).map .bare) := by
  obtain ⟨c, rest, rfl, opener⟩ := opens
  have other : c ≠ '-' := fun same => by
    rw [same] at opener
    cases opener
  rw [BlockYaml.readLabel, if_neg fun same => other (List.cons.inj same).1, Json.dropLiteral,
    if_neg fun start => other (List.cons_prefix_cons.mp start).1.symm]

theorem calm_dropWhile {text : List Char} (quiet : calm text = true) (p : Char → Bool) :
    calm (text.dropWhile p) = true := by
  induction text with
  | nil => rfl
  | cons c rest ih =>
      rw [List.dropWhile_cons]
      split
      · rw [calm, Bool.and_eq_true] at quiet
        exact ih quiet.2
      · exact quiet

theorem newline_not_mem_of_calm {text : List Char} (quiet : calm text = true) : '\n' ∉ text := by
  induction text with
  | nil => exact List.not_mem_nil
  | cons c rest ih =>
      rw [calm, Bool.and_eq_true] at quiet
      intro mem
      rcases List.mem_cons.mp mem with rfl | mem
      · rw [if_neg (by decide)] at quiet
        exact absurd quiet.1 (by decide)
      · exact ih quiet.2 mem

theorem readKey_printKey (key : String) (rest : List Char) :
    readKey (printKey key ++ ':' :: rest) = some (key, ':' :: rest) := by
  rw [printKey]
  split
  · next plain =>
      rw [isKey, Bool.and_eq_true] at plain
      have all := List.all_eq_true.mp plain.2
      have bare : (key.toList ++ ':' :: rest).head? ≠ some '"' := fun quoted => by
        obtain ⟨more, same⟩ := List.head?_eq_some_iff.mp quoted
        obtain ⟨c, tail, text, -⟩ := opens_of_isPlain plain.1
        have key : isKeyChar c = true := all c (text ▸ List.mem_cons_self)
        rw [text] at same
        rw [(List.cons.inj same).1] at key
        exact absurd key (by decide)
      rw [readKey, if_neg bare, List.takeWhile_append_of_pos all, List.dropWhile_append_of_pos all,
        List.takeWhile_cons_of_neg (by decide), List.dropWhile_cons_of_neg (by decide),
        List.append_nil, String.ofList_toList]
  · rw [readKey, if_pos (by rfl), readQuoted_quote]

/-- No scalar is read as a field. -/
theorem readField_print (x : Scalar) : readField x.print = none := by
  cases x with
  | null => rfl
  | bool b => cases b <;> rfl
  | emptySeq => rfl
  | emptyMap => rfl
  | num n =>
      have all : ∀ c ∈ Nat.toDigits 10 n, isKeyChar c = true := fun c mem => by
        rw [isKeyChar, Char.isAlphanum, Nat.isDigit_of_mem_toDigits (by decide) (by decide) mem,
          Bool.or_true, Bool.true_or]
      have bare : (Nat.toDigits 10 n).head? ≠ some '"' := fun quoted => by
        have key := all _ (List.mem_of_mem_head? quoted)
        exact absurd key (by decide)
      rw [Scalar.print, readField, readKey, if_neg bare, List.dropWhile_eq_nil_iff.mpr all]
  | str s =>
      rw [Scalar.print]
      split
      · next plain =>
          have quiet := plain
          rw [isPlain, Bool.and_eq_true, Bool.and_eq_true] at quiet
          have quiet := calm_dropWhile quiet.1.2 isKeyChar
          have bare : s.toList.head? ≠ some '"' := fun quoted => by
            obtain ⟨more, same⟩ := List.head?_eq_some_iff.mp quoted
            rw [isPlain, same] at plain
            cases plain
          rw [readField, readKey, if_neg bare]
          generalize s.toList.dropWhile isKeyChar = rest at quiet ⊢
          split
          · next same =>
              cases same
              cases quiet
          · next same =>
              cases same
              cases quiet
          · rfl
      · have read := readQuoted_quote s []
        rw [List.append_nil] at read
        rw [readField, readKey, if_pos (by rfl), read]

theorem readLabel_print (label : Label) : readLabel label.print = some label := by
  cases label with
  | bare x => rw [Label.print, x.opens.readLabel, readField_print, readScalar_print]; rfl
  | item x =>
      cases x with
      | none => rfl
      | some x =>
          have rest : Json.dropLiteral ['-', ' '] ('-' :: ' ' :: x.print) = some x.print :=
            Json.dropLiteral_append ['-', ' '] x.print
          have more : '-' :: ' ' :: x.print ≠ ['-'] := fun same => by cases same
          rw [Label.print, readLabel, if_neg more, rest]
          dsimp only
          rw [readScalar_print]
          rfl
  | field key x =>
      cases x with
      | none =>
          rw [Label.print, ((opens_printKey key).append _).readLabel, readField, readKey_printKey]
          rfl
      | some x =>
          rw [Label.print, ((opens_printKey key).append _).readLabel, readField, readKey_printKey]
          change ((readScalar x.print).map fun x => Label.field key (some x)).or _ = _
          rw [readScalar_print]
          rfl

/-- A line: two blanks for each level, and the label. -/
def printLine (line : Nat × Label) : List Char :=
  List.replicate (2 * line.1) ' ' ++ line.2.print

def readLine (text : List Char) : Option (Nat × Label) :=
  let blanks := (text.takeWhile (· = ' ')).length
  if blanks % 2 = 0 then
    (readLabel (text.dropWhile (· = ' '))).map fun label => (blanks / 2, label)
  else none

theorem Label.print_ne (label : Label) {d : Char} (other : (d.isAlphanum || d ∈ ['"', '[', '\x7b',
    '-']) = false) (rest : List Char) : label.print ≠ d :: rest := by
  have opener : (d.isAlphanum || d ∈ ['"', '[', '\x7b']) = false := by
    rw [Bool.or_eq_false_iff, decide_eq_false_iff_not] at other ⊢
    exact ⟨other.1, fun mem => other.2 (List.mem_append_left ['-'] mem)⟩
  have dash : d ≠ '-' := fun same => by
    rw [same] at other
    cases other
  cases label with
  | bare x => exact x.opens.ne opener rest
  | item x =>
      cases x <;> exact fun same => dash (List.cons.inj same).1.symm
  | field key x =>
      cases x <;> exact ((opens_printKey key).append _).ne opener rest

theorem readLine_printLine (line : Nat × Label) : readLine (printLine line) = some line := by
  obtain ⟨depth, label⟩ := line
  have blanks : ∀ c ∈ List.replicate (2 * depth) ' ', decide (c = ' ') = true :=
    fun c mem => decide_eq_true (List.eq_of_mem_replicate mem)
  have stops : label.print.takeWhile (· = ' ') = [] ∧ label.print.dropWhile (· = ' ') = label.print := by
    cases text : label.print with
    | nil => exact ⟨rfl, rfl⟩
    | cons c rest =>
        have solid : ¬ decide (c = ' ') = true := fun blank =>
          label.print_ne (by decide) rest (of_decide_eq_true blank ▸ text)
        exact ⟨List.takeWhile_cons_of_neg solid, List.dropWhile_cons_of_neg solid⟩
  rw [readLine, printLine, List.takeWhile_append_of_pos blanks, List.dropWhile_append_of_pos blanks,
    stops.1, stops.2, List.append_nil, List.length_replicate, readLabel_print,
    if_pos (Nat.mul_mod_right 2 depth), Nat.mul_div_cancel_left depth (by decide)]
  rfl

theorem newline_not_mem_print (x : Scalar) : '\n' ∉ x.print := by
  cases x with
  | null => decide
  | bool b => cases b <;> decide
  | emptySeq => decide
  | emptyMap => decide
  | num n =>
      intro mem
      exact absurd (Nat.isDigit_of_mem_toDigits (by decide) (by decide) mem) (by decide)
  | str s =>
      rw [Scalar.print]
      split
      · next plain =>
          rw [isPlain, Bool.and_eq_true, Bool.and_eq_true] at plain
          exact newline_not_mem_of_calm plain.1.2
      · exact Json.newline_not_mem_quote s

theorem newline_not_mem_printKey (key : String) : '\n' ∉ printKey key := by
  rw [printKey]
  split
  · next plain =>
      rw [isKey, Bool.and_eq_true] at plain
      exact fun mem => absurd (List.all_eq_true.mp plain.2 _ mem) (by decide)
  · exact Json.newline_not_mem_quote key

theorem newline_not_mem_printLine (line : Nat × Label) : '\n' ∉ printLine line := by
  intro mem
  rcases List.mem_append.mp mem with blank | mem
  · exact absurd (List.eq_of_mem_replicate blank) (by decide)
  · cases label : line.2 with
    | bare x =>
        rw [label] at mem
        exact newline_not_mem_print x mem
    | item x =>
        rw [label] at mem
        cases x with
        | none => exact absurd mem (by decide)
        | some x =>
            rcases List.mem_append.mp (show '\n' ∈ ['-', ' '] ++ x.print from mem) with dash | mem
            · exact absurd dash (by decide)
            · exact newline_not_mem_print x mem
    | field key x =>
        rw [label] at mem
        cases x with
        | none =>
            rcases List.mem_append.mp mem with name | colon
            · exact newline_not_mem_printKey key name
            · exact absurd colon (by decide)
        | some x =>
            rcases List.mem_append.mp mem with name | mem
            · exact newline_not_mem_printKey key name
            · rcases List.mem_append.mp (show '\n' ∈ [':', ' '] ++ x.print from mem) with colon | mem
              · exact absurd colon (by decide)
              · exact newline_not_mem_print x mem

/-- No line is a fence. -/
theorem printLine_ne_fenceLine (line : Nat × Label) : printLine line ≠ fenceLine := by
  obtain ⟨depth, label⟩ := line
  intro fence
  have read := readLine_printLine (depth, label)
  rw [fence] at read
  have none : readLine fenceLine = none := by decide +kernel
  rw [none] at read
  cases read

/-! ## Values as outlines -/

/-- The value on the line of its key, unless it has lines of its own. -/
def inline : Value → Option Scalar
  | .null => some .null
  | .bool b => some (.bool b)
  | .num n => some (.num n)
  | .str s => some (.str s)
  | .seq [] => some .emptySeq
  | .map [] => some .emptyMap
  | .seq (_ :: _) | .map (_ :: _) => none

mutual

/-- The lines below the key of a value. -/
def below : Value → Outline Label
  | .seq items => itemsBelow items
  | .map fields => fieldsBelow fields
  | _ => .nil

def itemsBelow : List Value → Outline Label
  | [] => .nil
  | v :: items => .cons (.item (inline v)) (below v) (itemsBelow items)

def fieldsBelow : List (String × Value) → Outline Label
  | [] => .nil
  | (key, v) :: fields => .cons (.field key (inline v)) (below v) (fieldsBelow fields)

end

def outline (v : Value) : Outline Label :=
  match inline v with
  | some x => .cons (.bare x) .nil .nil
  | none => below v

/-- An entry that is a field. -/
def keyed (entry : Option String × Value) : Option (String × Value) :=
  entry.1.map fun key => (key, entry.2)

/-- What entries are: the items of a sequence, or the fields of a map. -/
def assemble (entries : List (Option String × Value)) : Option Value :=
  if entries.all (·.1.isNone) then some (.seq (entries.map Prod.snd))
  else
    (entries.mapM keyed).bind fun fields =>
      if (fields.map Prod.fst).Nodup then some (.map fields) else none

def valueOf (x : Option Scalar) (entries : List (Option String × Value)) : Option Value :=
  match x with
  | some x => if entries.isEmpty then some x.value else none
  | none => if entries.isEmpty then none else assemble entries

/-- The entries of an outline, items without a key. -/
def decode : Outline Label → Option (List (Option String × Value))
  | .nil => some []
  | .cons label below rest =>
      (decode below).bind fun under => (decode rest).bind fun more =>
        match label with
        | .field key x => (valueOf x under).map fun v => (some key, v) :: more
        | .item x => (valueOf x under).map fun v => (none, v) :: more
        | .bare _ => none

def document : Outline Label → Option Value
  | .cons (.bare x) .nil .nil => some x.value
  | o => (decode o).bind (valueOf none)

def fieldEntry (field : String × Value) : Option String × Value := (some field.1, field.2)

/-- The entries that stand below a value. -/
def entriesOf : Value → List (Option String × Value)
  | .seq items => items.map fun v => (none, v)
  | .map fields => fields.map fieldEntry
  | _ => []

theorem mapM_map {α β : Type} {f : α → β} {g : β → Option α} (back : ∀ a, g (f a) = some a)
    (as : List α) : (as.map f).mapM g = some as := by
  rw [List.mapM_map]
  exact (mapM_of_forall (g := id) fun a _ => back a).trans (congrArg some (List.map_id as))

theorem valueOf_entriesOf {v : Value} (wf : v.Wf) : valueOf (inline v) (entriesOf v) = some v := by
  cases v with
  | null | bool | num | str => rfl
  | seq items =>
      cases items with
      | nil => rfl
      | cons v items =>
          have none : ((v :: items).map fun v => ((none : Option String), v)).all (·.1.isNone) = true :=
            List.all_eq_true.mpr fun entry mem => by
              obtain ⟨v, -, rfl⟩ := List.mem_map.mp mem
              rfl
          have values : ((v :: items).map fun v => ((Option.none : Option String), v)).map Prod.snd =
              v :: items := by
            rw [List.map_map]
            exact List.map_id _
          change assemble ((v :: items).map fun v => (Option.none, v)) = _
          rw [assemble, if_pos none, values]
  | map fields =>
      cases fields with
      | nil => rfl
      | cons field fields =>
          change assemble ((field :: fields).map fieldEntry) = _
          rw [assemble, if_neg (by simp [fieldEntry]), mapM_map (f := fieldEntry) fun _ => rfl, Option.bind_some, if_pos wf.1]

mutual

theorem decode_below (v : Value) (wf : v.Wf) : decode (below v) = some (entriesOf v) := by
  cases v with
  | null | bool | num | str => rfl
  | seq items => exact decode_itemsBelow items wf
  | map fields => exact decode_fieldsBelow fields wf.2

theorem decode_itemsBelow (items : List Value) (wf : Value.WfItems items) :
    decode (itemsBelow items) = some (items.map fun v => (none, v)) := by
  cases items with
  | nil => rfl
  | cons v items =>
      rw [itemsBelow, decode, decode_below v wf.1, Option.bind_some, decode_itemsBelow items wf.2,
        Option.bind_some]
      dsimp only
      rw [valueOf_entriesOf wf.1]
      rfl

theorem decode_fieldsBelow (fields : List (String × Value)) (wf : Value.WfFields fields) :
    decode (fieldsBelow fields) = some (fields.map fieldEntry) := by
  cases fields with
  | nil => rfl
  | cons field fields =>
      obtain ⟨key, v⟩ := field
      rw [fieldsBelow, decode, decode_below v wf.1, Option.bind_some, decode_fieldsBelow fields wf.2,
        Option.bind_some]
      dsimp only
      rw [valueOf_entriesOf wf.1]
      rfl

end

theorem document_of_decode {o : Outline Label} {entries : List (Option String × Value)}
    (read : decode o = some entries) : document o = valueOf none entries := by
  unfold document
  split
  · cases read
  · rw [read, Option.bind_some]

theorem document_outline {v : Value} (wf : v.Wf) : document (outline v) = some v := by
  have whole := valueOf_entriesOf wf
  rw [outline]
  cases on : inline v with
  | some x =>
      rw [on, valueOf] at whole
      split at whole
      · exact whole
      · cases whole
  | none =>
      rw [on] at whole
      exact (document_of_decode (decode_below v wf)).trans whole

/-! ## Headers -/

def print (v : Value) : List Char := unlines '\n' (((outline v).lines 0).map printLine)

def parse (text : List Char) : Option Value :=
  ((completeLines '\n' text).mapM readLine).bind fun lines => document (Outline.ofLines lines)

/-- What is printed is read back. -/
theorem parse_print {v : Value} (wf : v.Wf) : parse (print v) = some v := by
  have free : ∀ line ∈ ((outline v).lines 0).map printLine, '\n' ∉ line := fun line mem => by
    obtain ⟨_, -, rfl⟩ := List.mem_map.mp mem
    exact newline_not_mem_printLine _
  have lines := completeLines_unlines_append free []
  rw [List.append_nil, completeLines_of_not_mem List.not_mem_nil, List.append_nil] at lines
  rw [parse, print, lines, mapM_map readLine_printLine, Option.bind_some, Outline.ofLines_lines,
    document_outline wf]

theorem wf_valueOf {x : Option Scalar} {entries : List (Option String × Value)} {v : Value}
    (wf : ∀ entry ∈ entries, entry.2.Wf) (read : valueOf x entries = some v) : v.Wf := by
  unfold valueOf at read
  cases x with
  | some x =>
      dsimp only at read
      split at read
      · cases read
        exact x.wf_value
      · cases read
  | none =>
      dsimp only at read
      split at read
      · cases read
      · rw [assemble] at read
        split at read
        · cases read
          refine Value.wfItems_iff.mpr fun w mem => ?_
          obtain ⟨entry, known, rfl⟩ := List.mem_map.mp mem
          exact wf entry known
        · obtain ⟨fields, keys, read⟩ := Option.bind_eq_some_iff.mp read
          split at read
          · next distinct =>
              cases read
              refine ⟨distinct, Value.wfFields_iff.mpr fun field mem => ?_⟩
              obtain ⟨entry, known, key⟩ := exists_of_mapM keys mem
              obtain ⟨_, -, rfl⟩ := Option.map_eq_some_iff.mp key
              exact wf entry known
          · cases read

theorem wf_decode {o : Outline Label} {entries : List (Option String × Value)}
    (read : decode o = some entries) : ∀ entry ∈ entries, entry.2.Wf := by
  induction o generalizing entries with
  | nil =>
      cases read
      exact fun entry mem => by cases mem
  | cons label below rest belowIh restIh =>
      obtain ⟨under, belowRead, read⟩ := Option.bind_eq_some_iff.mp read
      obtain ⟨more, restRead, read⟩ := Option.bind_eq_some_iff.mp read
      cases label with
      | bare x => cases read
      | item x =>
          obtain ⟨v, here, rfl⟩ := Option.map_eq_some_iff.mp read
          exact List.forall_mem_cons.mpr ⟨wf_valueOf (belowIh belowRead) here, restIh restRead⟩
      | field key x =>
          obtain ⟨v, here, rfl⟩ := Option.map_eq_some_iff.mp read
          exact List.forall_mem_cons.mpr ⟨wf_valueOf (belowIh belowRead) here, restIh restRead⟩

theorem wf_parse {text : List Char} {v : Value} (read : parse text = some v) : v.Wf := by
  obtain ⟨lines, -, read⟩ := Option.bind_eq_some_iff.mp read
  unfold document at read
  split at read
  · cases read
    exact Scalar.wf_value _
  · obtain ⟨entries, decoded, read⟩ := Option.bind_eq_some_iff.mp read
    exact wf_valueOf (wf_decode decoded) read

theorem outline_ne_nil (v : Value) : outline v ≠ .nil := by
  cases v with
  | null | bool | num | str => exact nofun
  | seq items => cases items <;> exact nofun
  | map fields => cases fields <;> exact nofun

/-- Values in block style. -/
def codec : Codec where
  stringify := print
  parse := parse
  header v := by
    refine ⟨((outline v).lines 0).map printLine, ?_, rfl, fun line mem => ?_⟩
    · cases on : outline v with
      | nil => exact absurd on (outline_ne_nil v)
      | cons label below rest => exact List.cons_ne_nil _ _
    · obtain ⟨line, -, rfl⟩ := List.mem_map.mp mem
      exact ⟨newline_not_mem_printLine line, printLine_ne_fenceLine line⟩
  wf_of_parse := wf_parse
  parse_stringify _ := parse_print

example : print (.map [("id", .str "run-1"), ("at", .str "2026-01-01T00:00:00.000Z"), ("tags", .seq []),
      ("sources", .seq [.str "review", .str "a: b"]), ("notes", .map [("count", .num 12)])]) =
    "id: run-1\nat: 2026-01-01T00:00:00.000Z\ntags: []\nsources:\n  - review\n  - \"a: b\"\nnotes:\n  count: 12\n".toList := by
  decide +kernel

end Opensquid.Lib.BlockYaml
