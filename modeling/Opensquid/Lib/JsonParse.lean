import Mathlib.Data.List.TakeWhile
import Opensquid.Lib.JsonText

/-!
# Reading JSON

`parse` reads a text as `JSON.parse` does, up to the values of its numbers, which are kept as
texts, and to a field that is given twice. What `stringify` prints is read back
(`parse_stringify`). A lone surrogate is no character here, and its escape is not read.
-/

namespace Opensquid.Lib.Json

/-! ## Tokens -/

def isWhitespace (c : Char) : Bool := c ∈ [' ', '\x09', '\x0a', '\x0d']

def skip (text : List Char) : List Char := text.dropWhile isWhitespace

/-- The rest behind a literal. -/
def dropLiteral (literal text : List Char) : Option (List Char) :=
  if literal <+: text then some (text.drop literal.length) else none

def digitOfHex (c : Char) : Option Nat :=
  if c.isDigit then some (c.toNat - 48)
  else if 'a' ≤ c ∧ c ≤ 'f' then some (c.toNat - 87)
  else if 'A' ≤ c ∧ c ≤ 'F' then some (c.toNat - 55)
  else none

/-- A code unit of four hexadecimal digits. -/
def readUnit : List Char → Option (Nat × List Char)
  | a :: b :: c :: d :: rest => do
      return (4096 * (← digitOfHex a) + 256 * (← digitOfHex b) + 16 * (← digitOfHex c) +
        (← digitOfHex d), rest)
  | _ => none

/-- The second half of a pair of surrogates. -/
def readLow (high : Nat) (text : List Char) : Option (Char × List Char) := do
  let rest ← dropLiteral ['\\', 'u'] text
  let (low, rest) ← readUnit rest
  if 0xdc00 ≤ low ∧ low < 0xe000 then
    return (Char.ofNat (0x10000 + 0x400 * (high - 0xd800) + (low - 0xdc00)), rest)
  else none

def readUnicode (text : List Char) : Option (Char × List Char) := do
  let (unit, rest) ← readUnit text
  if 0xd800 ≤ unit ∧ unit < 0xdc00 then readLow unit rest
  else if 0xdc00 ≤ unit ∧ unit < 0xe000 then none
  else return (Char.ofNat unit, rest)

def simpleEscape (c : Char) : Option Char :=
  if c = '"' ∨ c = '\\' ∨ c = '/' then some c
  else if c = 'b' then some '\x08'
  else if c = 't' then some '\x09'
  else if c = 'n' then some '\x0a'
  else if c = 'f' then some '\x0c'
  else if c = 'r' then some '\x0d'
  else none

/-- The character of a string that the text starts with. -/
def readChar : List Char → Option (Char × List Char)
  | [] => none
  | c :: rest =>
      if c = '\\' then
        match rest with
        | [] => none
        | e :: rest =>
            if e = 'u' then readUnicode rest else (simpleEscape e).map fun c => (c, rest)
      else if c.toNat < 32 then none
      else some (c, rest)

/-- The characters up to the closing quotation mark, at most `fuel` of them. -/
def readChars : Nat → List Char → Option (List Char × List Char)
  | 0, _ => none
  | fuel + 1, text =>
      if text.head? = some '"' then some ([], text.tail)
      else do
        let (c, rest) ← readChar text
        let (chars, rest) ← readChars fuel rest
        return (c :: chars, rest)

/-- The string behind its opening quotation mark. -/
def readString (text : List Char) : Option (String × List Char) :=
  (readChars (text.length + 1) text).map fun (chars, rest) => (String.ofList chars, rest)

/-- Some digits, and no more of them. -/
def isDigits (text : List Char) : Bool := text ≠ [] && text.all Char.isDigit

def isExponent : List Char → Bool
  | [] => true
  | e :: rest => e ∈ ['e', 'E'] &&
      isDigits (if rest.head? = some '-' ∨ rest.head? = some '+' then rest.tail else rest)

def isFraction : List Char → Bool
  | [] => true
  | c :: rest =>
      if c = '.' then rest.takeWhile Char.isDigit ≠ [] && isExponent (rest.dropWhile Char.isDigit)
      else isExponent (c :: rest)

def isUnsigned : List Char → Bool
  | [] => false
  | c :: rest => c.isDigit &&
      isFraction (if c = '0' then rest else rest.dropWhile Char.isDigit)

/-- The grammar of numbers. -/
def isNumber (text : List Char) : Bool :=
  isUnsigned (if text.head? = some '-' then text.tail else text)

def readNumber (text : List Char) : Option (Json × List Char) :=
  if isNumber (text.takeWhile isNumChar) then
    some (.num (String.ofList (text.takeWhile isNumChar)), text.dropWhile isNumChar)
  else none

/-- A key and its colon. -/
def readKey (text : List Char) : Option (String × List Char) := do
  let rest ← dropLiteral ['"'] (skip text)
  let (key, rest) ← readString rest
  let rest ← dropLiteral [':'] (skip rest)
  return (key, rest)

/-! ## Values -/

mutual

/-- The value that the text starts with, and the rest. -/
def parseValue : Nat → List Char → Option (Json × List Char)
  | 0, _ => none
  | fuel + 1, text =>
      match kindAt (skip text) with
      | none => none
      | some .null =>
          (dropLiteral ['n', 'u', 'l', 'l'] (skip text)).map fun rest => (.null, rest)
      | some .bool =>
          match dropLiteral ['t', 'r', 'u', 'e'] (skip text) with
          | some rest => some (.bool true, rest)
          | none =>
              (dropLiteral ['f', 'a', 'l', 's', 'e'] (skip text)).map fun rest => (.bool false, rest)
      | some .num => readNumber (skip text)
      | some .str => (readString (skip text).tail).map fun (s, rest) => (.str s, rest)
      | some .arr =>
          match dropLiteral [']'] (skip (skip text).tail) with
          | some rest => some (.arr [], rest)
          | none => do
              let (j, rest) ← parseValue fuel (skip text).tail
              let (items, rest) ← parseItems fuel rest
              return (.arr (j :: items), rest)
      | some .obj =>
          match dropLiteral ['\x7d'] (skip (skip text).tail) with
          | some rest => some (.obj [], rest)
          | none => do
              let (key, rest) ← readKey (skip text).tail
              let (j, rest) ← parseValue fuel rest
              let (fields, rest) ← parseFields fuel rest
              return (.obj ((key, j) :: fields), rest)

def parseItems : Nat → List Char → Option (List Json × List Char)
  | 0, _ => none
  | fuel + 1, text =>
      match dropLiteral [']'] (skip text) with
      | some rest => some ([], rest)
      | none => do
          let rest ← dropLiteral [','] (skip text)
          let (j, rest) ← parseValue fuel rest
          let (items, rest) ← parseItems fuel rest
          return (j :: items, rest)

def parseFields : Nat → List Char → Option (List (String × Json) × List Char)
  | 0, _ => none
  | fuel + 1, text =>
      match dropLiteral ['\x7d'] (skip text) with
      | some rest => some ([], rest)
      | none => do
          let rest ← dropLiteral [','] (skip text)
          let (key, rest) ← readKey rest
          let (j, rest) ← parseValue fuel rest
          let (fields, rest) ← parseFields fuel rest
          return ((key, j) :: fields, rest)

end

def parse (text : List Char) : Option Json := do
  let (j, rest) ← parseValue (text.length + 1) text
  if skip rest = [] then return j else none

example : (parse "[1, -2.5e3, \x7b\"a\": \"\\u00e9\\ud83d\\ude00\"\x7d]".toList).map stringify =
    some "[1,-2.5e3,\x7b\"a\":\"é😀\"\x7d]".toList := by
  decide +kernel

/-! ## What is printed is read -/

theorem dropLiteral_append (literal rest : List Char) :
    dropLiteral literal (literal ++ rest) = some rest := by
  rw [dropLiteral, if_pos (List.prefix_append ..), List.drop_left]

theorem dropLiteral_cons (c : Char) (rest : List Char) : dropLiteral [c] (c :: rest) = some rest :=
  dropLiteral_append [c] rest

theorem dropLiteral_of_head_ne {c d : Char} {rest : List Char} (other : d ≠ c) :
    dropLiteral [c] (d :: rest) = none := by
  refine if_neg fun start => ?_
  exact other (List.cons_prefix_cons.mp start).1.symm

/-- A value starts at once. -/
theorem skip_of_kind {text : List Char} {k : Kind} (starts : kindAt text = some k) :
    skip text = text := by
  cases text with
  | nil => rfl
  | cons c rest =>
      refine List.dropWhile_cons_of_neg fun blank => ?_
      simp only [isWhitespace, List.mem_cons, List.not_mem_nil, or_false, decide_eq_true_eq] at blank
      rcases blank with rfl | rfl | rfl | rfl <;> cases starts

/-- No value starts with a bracket that closes. -/
theorem dropLiteral_of_kind {text : List Char} {k : Kind} (starts : kindAt text = some k) :
    dropLiteral [']'] text = none := by
  cases text with
  | nil => cases starts
  | cons c rest =>
      refine dropLiteral_of_head_ne fun closing => ?_
      rw [closing] at starts
      cases starts

theorem skip_cons {c : Char} {rest : List Char} (solid : isWhitespace c = false) :
    skip (c :: rest) = c :: rest := by
  refine List.dropWhile_cons_of_neg ?_
  rw [solid]
  exact Bool.false_ne_true

theorem digitOfHex_hexDigit : ∀ n < 16, digitOfHex (hexDigit n) = some n := by decide

theorem readChar_escape (c : Char) (rest : List Char) :
    readChar (escape c ++ rest) = some (c, rest) := by
  rw [escape]
  iterate 7
    split
    · rename_i same
      rw [same]
      rfl
  split
  · rename_i control
    have zero : digitOfHex '0' = some 0 := rfl
    have unit : readUnit ('0' :: '0' :: hexDigit (c.toNat / 16) :: hexDigit (c.toNat % 16) :: rest) =
        some (c.toNat, rest) := by
      have digits : 4096 * 0 + 256 * 0 + 16 * (c.toNat / 16) + c.toNat % 16 = c.toNat := by omega
      rw [readUnit, zero, digitOfHex_hexDigit _ (by omega), digitOfHex_hexDigit _ (by omega)]
      dsimp only [bind, Option.bind, pure]
      rw [digits]
    change readUnicode ('0' :: '0' :: hexDigit (c.toNat / 16) :: hexDigit (c.toNat % 16) :: rest) = _
    rw [readUnicode, unit]
    dsimp only [bind, Option.bind, pure]
    rw [if_neg (by omega), if_neg (by omega), Char.ofNat_toNat]
  · rename_i _ backslash _ _ _ _ _ printed
    rw [List.singleton_append]
    unfold readChar
    dsimp only
    rw [if_neg backslash, if_neg printed]

theorem readChars_body (s rest : List Char) {fuel : Nat} (enough : s.length < fuel) :
    readChars fuel (s.flatMap escape ++ '"' :: rest) = some (s, rest) := by
  induction s generalizing fuel with
  | nil =>
      obtain ⟨n, rfl⟩ := Nat.exists_eq_add_one.mpr enough
      rfl
  | cons c s ih =>
      obtain ⟨n, rfl⟩ := Nat.exists_eq_add_one.mpr (Nat.zero_lt_of_lt enough)
      rw [List.flatMap_cons, List.append_assoc, readChars, if_neg, readChar_escape]
      · dsimp only [bind, Option.bind]
        rw [ih (by simpa using enough)]
        rfl
      · intro quoted
        obtain ⟨tail, same⟩ := List.head?_eq_some_iff.mp quoted
        exact escape_append_ne _ _ _ same

/-- A printed string is read back. -/
theorem readString_body (s : String) (rest : List Char) :
    readString (s.toList.flatMap escape ++ '"' :: rest) = some (s, rest) := by
  have shorter : s.toList.length < (s.toList.flatMap escape ++ '"' :: rest).length + 1 := by
    have longer := length_le_length_quote s
    rw [quote, List.length_cons, List.length_append, List.length_singleton] at longer
    rw [List.length_append, List.length_cons]
    omega
  rw [readString, readChars_body _ _ shorter, Option.map_some]
  exact congrArg (fun chars => some (chars, rest)) String.ofList_toList

/-! ## Numbers -/

theorem isNumChar_of_isDigit {c : Char} (digit : c.isDigit = true) : isNumChar c = true := by
  rw [isNumChar, digit, Bool.true_or]

/-- What is in a text is in its digits or behind them. -/
theorem all_of_digits {text : List Char}
    (behind : ∀ c ∈ text.dropWhile Char.isDigit, isNumChar c = true) :
    ∀ c ∈ text, isNumChar c = true := by
  intro c mem
  rw [← List.takeWhile_append_dropWhile (p := Char.isDigit) (l := text)] at mem
  rcases List.mem_append.mp mem with front | back
  · exact isNumChar_of_isDigit (List.mem_takeWhile_imp front)
  · exact behind c back

theorem all_of_isDigits {text : List Char} (digits : isDigits text = true) :
    ∀ c ∈ text, isNumChar c = true := fun c mem =>
  isNumChar_of_isDigit (List.all_eq_true.mp (Bool.and_eq_true_iff.mp digits).2 c mem)

/-- A sign may stand in front. -/
theorem all_of_tail {text : List Char} {signs : Prop} [Decidable signs]
    (sign : signs → ∃ c ∈ text.head?, isNumChar c = true)
    (rest : ∀ c ∈ (if signs then text.tail else text), isNumChar c = true) :
    ∀ c ∈ text, isNumChar c = true := by
  by_cases signed : signs
  · rw [if_pos signed] at rest
    obtain ⟨first, here, num⟩ := sign signed
    obtain ⟨more, rfl⟩ := List.head?_eq_some_iff.mp here
    intro c mem
    rcases List.mem_cons.mp mem with rfl | later
    · exact num
    · exact rest c later
  · rw [if_neg signed] at rest
    exact rest

theorem all_of_isExponent {text : List Char} (exponent : isExponent text = true) :
    ∀ c ∈ text, isNumChar c = true := by
  cases text with
  | nil => exact fun c mem => by cases mem
  | cons e rest =>
      obtain ⟨letter, digits⟩ := Bool.and_eq_true_iff.mp exponent
      have num : isNumChar e = true := by
        simp only [List.mem_cons, List.not_mem_nil, or_false, decide_eq_true_eq] at letter
        rcases letter with rfl | rfl <;> rfl
      have behind : ∀ c ∈ rest, isNumChar c = true := by
        refine all_of_tail (fun signed => ?_) (all_of_isDigits digits)
        rcases signed with minus | plus
        · exact ⟨_, minus, rfl⟩
        · exact ⟨_, plus, rfl⟩
      exact List.forall_mem_cons.mpr ⟨num, behind⟩

theorem all_of_isFraction {text : List Char} (fraction : isFraction text = true) :
    ∀ c ∈ text, isNumChar c = true := by
  cases text with
  | nil => exact fun c mem => by cases mem
  | cons c rest =>
      unfold isFraction at fraction
      dsimp only at fraction
      split at fraction
      · rename_i point
        obtain ⟨-, exponent⟩ := Bool.and_eq_true_iff.mp fraction
        refine List.forall_mem_cons.mpr ⟨?_, all_of_digits (all_of_isExponent exponent)⟩
        rw [point]
        rfl
      · exact all_of_isExponent fraction

theorem wf_of_isNumber {text : String} (number : isNumber text.toList = true) : (num text).Wf := by
  have unsigned : ∀ {cs : List Char}, isUnsigned cs = true →
      cs ≠ [] ∧ ∀ c ∈ cs, isNumChar c = true := by
    intro cs unsigned
    cases cs with
    | nil => cases unsigned
    | cons c rest =>
        obtain ⟨digit, fraction⟩ := Bool.and_eq_true_iff.mp unsigned
        refine ⟨List.cons_ne_nil _ _, List.forall_mem_cons.mpr ⟨isNumChar_of_isDigit digit, ?_⟩⟩
        split at fraction
        · exact all_of_isFraction fraction
        · exact all_of_digits (all_of_isFraction fraction)
  obtain ⟨some', all⟩ := unsigned number
  refine ⟨fun empty => ?_, all_of_tail (fun minus => ⟨_, minus, rfl⟩) all⟩
  rw [empty] at some'
  exact some' rfl

theorem readNumber_append {text : String} {a : List Char} (number : isNumber text.toList = true)
    (ends : Ends a) : readNumber (text.toList ++ a) = some (.num text, a) := by
  obtain ⟨-, all⟩ := wf_of_isNumber number
  have stop : a.takeWhile isNumChar = [] ∧ a.dropWhile isNumChar = a := by
    cases a with
    | nil => exact ⟨rfl, rfl⟩
    | cons c rest =>
        have other : ¬ isNumChar c = true := by
          rw [ends c rfl]
          exact Bool.false_ne_true
        exact ⟨List.takeWhile_cons_of_neg other, List.dropWhile_cons_of_neg other⟩
  have front : (text.toList ++ a).takeWhile isNumChar = text.toList := by
    rw [List.takeWhile_append_of_pos all, stop.1, List.append_nil]
  have back : (text.toList ++ a).dropWhile isNumChar = a := by
    rw [List.dropWhile_append_of_pos all, stop.2]
  rw [readNumber, front, back, if_pos number, String.ofList_toList]

/-! ## The round trip -/

mutual

/-- The numbers are as the grammar has them. -/
def Valid : Json → Prop
  | .num text => isNumber text.toList = true
  | .arr items => ValidItems items
  | .obj fields => ValidFields fields
  | .null | .bool _ | .str _ => True

def ValidItems : List Json → Prop
  | [] => True
  | j :: items => j.Valid ∧ ValidItems items

def ValidFields : List (String × Json) → Prop
  | [] => True
  | (_, j) :: fields => j.Valid ∧ ValidFields fields

end

mutual

theorem Valid.wf : ∀ {j : Json}, j.Valid → j.Wf
  | .num _, valid => wf_of_isNumber valid
  | .arr _, valid => ValidItems.wf valid
  | .obj _, valid => ValidFields.wf valid
  | .null, _ | .bool _, _ | .str _, _ => trivial

theorem ValidItems.wf : ∀ {items : List Json}, ValidItems items → WfItems items
  | [], _ => trivial
  | _ :: _, valid => ⟨valid.1.wf, ValidItems.wf valid.2⟩

theorem ValidFields.wf : ∀ {fields : List (String × Json)}, ValidFields fields → WfFields fields
  | [], _ => trivial
  | (_, _) :: _, valid => ⟨valid.1.wf, ValidFields.wf valid.2⟩

end

theorem validFields_iff {fields : List (String × Json)} :
    ValidFields fields ↔ ∀ field ∈ fields, field.2.Valid := by
  induction fields with
  | nil => exact iff_of_true trivial fun field mem => by cases mem
  | cons field fields ih => rw [ValidFields, ih, List.forall_mem_cons]

theorem readKey_quote (key : String) (rest : List Char) :
    readKey (quote key ++ ':' :: rest) = some (key, rest) := by
  have body : quote key ++ ':' :: rest = '"' :: (key.toList.flatMap escape ++ '"' :: ':' :: rest) := by
    rw [quote, List.cons_append, List.append_assoc]
    rfl
  rw [readKey, body, skip_cons rfl]
  rw [dropLiteral_cons]
  dsimp only [bind, Option.bind]
  rw [readString_body]
  dsimp only
  rw [skip_cons rfl, dropLiteral_cons]
  rfl

theorem length_pos_of_wf {j : Json} (wf : j.Wf) : 0 < (stringify j).length := by
  cases j with
  | null => decide
  | bool b => cases b <;> decide
  | num text => exact List.length_pos_of_ne_nil wf.1
  | str s => exact Nat.succ_pos _
  | arr items => cases items <;> exact Nat.succ_pos _
  | obj fields => cases fields <;> exact Nat.succ_pos _

mutual

/-- A printed value is read back, and what follows is left. -/
theorem parseValue_stringify (j : Json) (valid : j.Valid) {a : List Char} (ends : Ends a) {fuel : Nat}
    (enough : (stringify j).length ≤ fuel) : parseValue fuel (stringify j ++ a) = some (j, a) := by
  have starts := kindAt_stringify j valid.wf a
  have solid := skip_of_kind starts
  obtain ⟨n, rfl⟩ := Nat.exists_eq_add_one.mpr ((length_pos_of_wf valid.wf).trans_le enough)
  rw [parseValue, solid, starts]
  cases j with
  | null => exact congrArg (Option.map _) (dropLiteral_append ['n', 'u', 'l', 'l'] a)
  | bool b =>
      cases b with
      | true =>
          have literal : dropLiteral ['t', 'r', 'u', 'e'] (stringify (.bool true) ++ a) = some a :=
            dropLiteral_append _ a
          dsimp only [kind]
          rw [literal]
      | false =>
          have other : dropLiteral ['t', 'r', 'u', 'e'] (stringify (.bool false) ++ a) = none :=
            if_neg fun start => absurd (List.cons_prefix_cons.mp start).1 (by decide)
          have literal : dropLiteral ['f', 'a', 'l', 's', 'e'] (stringify (.bool false) ++ a) =
              some a := dropLiteral_append _ a
          dsimp only [kind]
          rw [other, literal]
          rfl
  | num text => exact readNumber_append valid ends
  | str s =>
      have inside : (stringify (.str s) ++ a).tail = s.toList.flatMap escape ++ '"' :: a := by
        rw [stringify, quote, List.cons_append, List.tail_cons, List.append_assoc]
        rfl
      dsimp only [kind]
      rw [inside, readString_body]
      rfl
  | arr items =>
      dsimp only [kind]
      cases items with
      | nil =>
          have inside : (stringify (.arr []) ++ a).tail = ']' :: a := by rw [stringify]; rfl
          rw [inside, skip_cons rfl, dropLiteral_cons]
      | cons j items =>
          obtain ⟨first, rest⟩ := valid
          have inside : (stringify (.arr (j :: items)) ++ a).tail =
              stringify j ++ (moreItems items ++ a) := by
            rw [stringify, List.cons_append, List.tail_cons, List.append_assoc]
          rw [stringify, List.length_cons, List.length_append] at enough
          have opens := kindAt_stringify j first.wf (moreItems items ++ a)
          rw [inside, skip_of_kind opens, dropLiteral_of_kind opens]
          dsimp only [bind, Option.bind]
          rw [parseValue_stringify j first (ends_moreItems items a) (by omega)]
          dsimp only
          rw [parseItems_moreItems items rest a (by omega)]
          rfl
  | obj fields =>
      dsimp only [kind]
      cases fields with
      | nil =>
          have inside : (stringify (.obj []) ++ a).tail = '\x7d' :: a := by rw [stringify]; rfl
          rw [inside, skip_cons rfl, dropLiteral_cons]
      | cons field fields =>
          obtain ⟨key, j⟩ := field
          obtain ⟨first, rest⟩ := valid
          have inside : (stringify (.obj ((key, j) :: fields)) ++ a).tail =
              quote key ++ ':' :: (stringify j ++ (moreFields fields ++ a)) := by
            rw [stringify, List.cons_append, List.tail_cons, List.append_assoc, List.cons_append,
              List.append_assoc]
          rw [stringify, List.length_cons, List.length_append, List.length_cons,
            List.length_append] at enough
          have opens : dropLiteral ['\x7d']
              (skip (quote key ++ ':' :: (stringify j ++ (moreFields fields ++ a)))) = none := by
            rw [quote, List.cons_append, skip_cons rfl]
            exact dropLiteral_of_head_ne (by decide)
          rw [inside, opens]
          dsimp only [bind, Option.bind]
          rw [readKey_quote]
          dsimp only
          rw [parseValue_stringify j first (ends_moreFields fields a) (by omega)]
          dsimp only
          rw [parseFields_moreFields fields rest a (by omega)]
          rfl

theorem parseItems_moreItems (items : List Json) (valid : ValidItems items) (a : List Char) {fuel : Nat}
    (enough : (moreItems items).length ≤ fuel) :
    parseItems fuel (moreItems items ++ a) = some (items, a) := by
  cases items with
  | nil =>
      obtain ⟨n, rfl⟩ := Nat.exists_eq_add_one.mpr (Nat.zero_lt_one.trans_le enough)
      rw [moreItems, List.singleton_append, parseItems, skip_cons rfl, dropLiteral_cons]
  | cons j items =>
      obtain ⟨first, rest⟩ := valid
      rw [moreItems, List.length_cons, List.length_append] at enough
      obtain ⟨n, rfl⟩ := Nat.exists_eq_add_one.mpr ((Nat.succ_pos _).trans_le enough)
      rw [moreItems, List.cons_append, List.append_assoc, parseItems, skip_cons rfl,
        dropLiteral_of_head_ne (by decide), dropLiteral_cons]
      dsimp only [bind, Option.bind]
      rw [parseValue_stringify j first (ends_moreItems items a) (by omega)]
      dsimp only
      rw [parseItems_moreItems items rest a (by omega)]
      rfl

theorem parseFields_moreFields (fields : List (String × Json)) (valid : ValidFields fields)
    (a : List Char) {fuel : Nat} (enough : (moreFields fields).length ≤ fuel) :
    parseFields fuel (moreFields fields ++ a) = some (fields, a) := by
  cases fields with
  | nil =>
      obtain ⟨n, rfl⟩ := Nat.exists_eq_add_one.mpr (Nat.zero_lt_one.trans_le enough)
      rw [moreFields, List.singleton_append, parseFields, skip_cons rfl, dropLiteral_cons]
  | cons field fields =>
      obtain ⟨key, j⟩ := field
      obtain ⟨first, rest⟩ := valid
      rw [moreFields, List.length_cons, List.length_append, List.length_cons,
        List.length_append] at enough
      obtain ⟨n, rfl⟩ := Nat.exists_eq_add_one.mpr ((Nat.succ_pos _).trans_le enough)
      rw [moreFields, List.cons_append, List.append_assoc, List.cons_append, List.append_assoc,
        parseFields, skip_cons rfl, dropLiteral_of_head_ne (by decide), dropLiteral_cons]
      dsimp only [bind, Option.bind]
      rw [readKey_quote]
      dsimp only
      rw [parseValue_stringify j first (ends_moreFields fields a) (by omega)]
      dsimp only
      rw [parseFields_moreFields fields rest a (by omega)]
      rfl

end

/-- A printed value is read back. -/
theorem parse_stringify {j : Json} (valid : j.Valid) : parse (stringify j) = some j := by
  have ends : Ends [] := fun c mem => by cases mem
  have read := parseValue_stringify j valid ends (Nat.le_succ (stringify j).length)
  rw [List.append_nil] at read
  rw [parse, read]
  rfl

end Opensquid.Lib.Json
