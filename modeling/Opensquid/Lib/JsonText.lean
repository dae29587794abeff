import Mathlib.Data.String.Basic
import Mathlib.Data.List.Basic
import Mathlib.Tactic.Common

/-!
# JSON as text

`stringify` prints a value as `JSON.stringify` does. The text determines the value
(`stringify_injective`): the printed forms are a prefix code, up to what may follow a
number. A number is given by the text that prints it.
-/

namespace Opensquid.Lib

/-- A JSON value; the fields of an object are in the order they are printed. -/
inductive Json
  | null
  | bool (b : Bool)
  | num (text : String)
  | str (s : String)
  | arr (items : List Json)
  | obj (fields : List (String × Json))

namespace Json

/-! ## Strings -/

def hexDigit (n : Nat) : Char := if n < 10 then Char.ofNat (48 + n) else Char.ofNat (87 + n)

def escape (c : Char) : List Char :=
  if c = '"' then ['\\', '"']
  else if c = '\\' then ['\\', '\\']
  else if c = '\x08' then ['\\', 'b']
  else if c = '\x09' then ['\\', 't']
  else if c = '\x0a' then ['\\', 'n']
  else if c = '\x0c' then ['\\', 'f']
  else if c = '\x0d' then ['\\', 'r']
  else if c.toNat < 32 then
    ['\\', 'u', '0', '0', hexDigit (c.toNat / 16), hexDigit (c.toNat % 16)]
  else [c]

def quote (s : String) : List Char := '"' :: (s.toList.flatMap escape ++ ['"'])

def hexValue (c : Char) : Nat := if c.toNat < 58 then c.toNat - 48 else c.toNat - 87

/-- The character that the text starts with. -/
def unescape : List Char → Option (Char × List Char)
  | '\\' :: 'u' :: '0' :: '0' :: high :: low :: rest =>
      some (Char.ofNat (16 * hexValue high + hexValue low), rest)
  | '\\' :: 'b' :: rest => some ('\x08', rest)
  | '\\' :: 't' :: rest => some ('\x09', rest)
  | '\\' :: 'n' :: rest => some ('\x0a', rest)
  | '\\' :: 'f' :: rest => some ('\x0c', rest)
  | '\\' :: 'r' :: rest => some ('\x0d', rest)
  | '\\' :: c :: rest => some (c, rest)
  | c :: rest => some (c, rest)
  | [] => none

theorem hexValue_hexDigit : ∀ n < 16, hexValue (hexDigit n) = n := by decide

theorem unescape_escape (c : Char) (rest : List Char) :
    unescape (escape c ++ rest) = some (c, rest) := by
  rw [escape]
  iterate 7
    split
    · rename_i same
      rw [same]
      rfl
  split
  · rename_i control
    change some (Char.ofNat (16 * hexValue (hexDigit (c.toNat / 16)) +
      hexValue (hexDigit (c.toNat % 16))), rest) = _
    rw [hexValue_hexDigit _ (by omega), hexValue_hexDigit _ (by omega), Nat.div_add_mod,
      Char.ofNat_toNat]
  · rename_i _ backslash _ _ _ _ _ _
    rw [List.singleton_append]
    unfold unescape
    split <;> simp_all

theorem escape_append_inj {c d : Char} {a b : List Char}
    (same : escape c ++ a = escape d ++ b) : c = d ∧ a = b := by
  have read := unescape_escape c a
  rw [same, unescape_escape] at read
  cases read
  exact ⟨rfl, rfl⟩

/-- An escaped character is no quotation mark. -/
theorem escape_append_ne (c : Char) (a b : List Char) : escape c ++ a ≠ '"' :: b := by
  intro same
  have read := unescape_escape c a
  rw [same] at read
  cases read
  cases same

theorem body_append_inj : ∀ {s t a b : List Char},
    s.flatMap escape ++ '"' :: a = t.flatMap escape ++ '"' :: b → s = t ∧ a = b
  | [], [], _, _, same => ⟨rfl, List.tail_eq_of_cons_eq same⟩
  | [], d :: t, _, _, same => by
      rw [List.flatMap_cons, List.append_assoc] at same
      exact absurd same.symm (escape_append_ne d _ _)
  | c :: s, [], _, _, same => by
      rw [List.flatMap_cons, List.append_assoc] at same
      exact absurd same (escape_append_ne c _ _)
  | c :: s, d :: t, _, _, same => by
      rw [List.flatMap_cons, List.flatMap_cons, List.append_assoc, List.append_assoc] at same
      obtain ⟨rfl, rest⟩ := escape_append_inj same
      obtain ⟨rfl, rfl⟩ := body_append_inj rest
      exact ⟨rfl, rfl⟩

theorem quote_append_inj {s t : String} {a b : List Char} (same : quote s ++ a = quote t ++ b) :
    s = t ∧ a = b := by
  simp only [quote, List.cons_append, List.append_assoc] at same
  obtain ⟨chars, rest⟩ := body_append_inj (List.tail_eq_of_cons_eq same)
  exact ⟨String.toList_inj.mp chars, rest⟩

theorem length_le_length_quote (s : String) : s.toList.length < (quote s).length := by
  have longer : ∀ t : List Char, t.length ≤ (t.flatMap escape).length := fun t => by
    induction t with
    | nil => exact le_rfl
    | cons c t ih =>
        have positive : 0 < (escape c).length := by
          unfold escape
          repeat' split
          all_goals exact Nat.succ_pos _
        rw [List.flatMap_cons, List.length_append, List.length_cons]
        omega
  have := longer s.toList
  rw [quote, List.length_cons, List.length_append]
  omega

/-! ## Values -/

mutual

def stringify : Json → List Char
  | .null => ['n', 'u', 'l', 'l']
  | .bool true => ['t', 'r', 'u', 'e']
  | .bool false => ['f', 'a', 'l', 's', 'e']
  | .num text => text.toList
  | .str s => quote s
  | .arr [] => ['[', ']']
  | .arr (j :: items) => '[' :: (stringify j ++ moreItems items)
  | .obj [] => ['\x7b', '\x7d']
  | .obj ((key, j) :: fields) => '\x7b' :: (quote key ++ ':' :: (stringify j ++ moreFields fields))

/-- The further items and the closing bracket. -/
def moreItems : List Json → List Char
  | [] => [']']
  | j :: items => ',' :: (stringify j ++ moreItems items)

/-- The further fields and the closing brace. -/
def moreFields : List (String × Json) → List Char
  | [] => ['\x7d']
  | (key, j) :: fields => ',' :: (quote key ++ ':' :: (stringify j ++ moreFields fields))

end

def isNumChar (c : Char) : Bool := c.isDigit || c ∈ ['-', '+', '.', 'e', 'E']

mutual

/-- The numbers are number texts. -/
def Wf : Json → Prop
  | .num text => text.toList ≠ [] ∧ ∀ c ∈ text.toList, isNumChar c = true
  | .arr items => WfItems items
  | .obj fields => WfFields fields
  | .null | .bool _ | .str _ => True

def WfItems : List Json → Prop
  | [] => True
  | j :: items => j.Wf ∧ WfItems items

def WfFields : List (String × Json) → Prop
  | [] => True
  | (_, j) :: fields => j.Wf ∧ WfFields fields

end

/-- No number goes on into the text. -/
def Ends (a : List Char) : Prop := ∀ c ∈ a.head?, isNumChar c = false

theorem ends_moreItems (items : List Json) (a : List Char) : Ends (moreItems items ++ a) := by
  cases items <;> rintro c ⟨⟩ <;> rfl

theorem ends_moreFields (fields : List (String × Json)) (a : List Char) :
    Ends (moreFields fields ++ a) := by
  cases fields <;> rintro c ⟨⟩ <;> rfl

theorem num_append_inj : ∀ {s t a b : List Char}, (∀ c ∈ s, isNumChar c = true) →
    (∀ c ∈ t, isNumChar c = true) → Ends a → Ends b → s ++ a = t ++ b → s = t ∧ a = b
  | [], [], _, _, _, _, _, _, same => ⟨rfl, same⟩
  | [], c :: t, _, _, _, numT, ends, _, same => by
      rw [List.nil_append, List.cons_append] at same
      have stop := ends c (by rw [same]; rfl)
      rw [numT c List.mem_cons_self] at stop
      cases stop
  | c :: s, [], _, _, numS, _, _, ends, same => by
      rw [List.nil_append, List.cons_append] at same
      have stop := ends c (by rw [← same]; rfl)
      rw [numS c List.mem_cons_self] at stop
      cases stop
  | c :: s, d :: t, _, _, numS, numT, endsA, endsB, same => by
      obtain ⟨rfl, rest⟩ := List.cons.inj same
      obtain ⟨rfl, rfl⟩ := num_append_inj (fun x mem => numS x (List.mem_cons_of_mem _ mem))
        (fun x mem => numT x (List.mem_cons_of_mem _ mem)) endsA endsB rest
      exact ⟨rfl, rfl⟩

inductive Kind
  | null
  | bool
  | num
  | str
  | arr
  | obj

def kind : Json → Kind
  | .null => .null
  | .bool _ => .bool
  | .num _ => .num
  | .str _ => .str
  | .arr _ => .arr
  | .obj _ => .obj

/-- The kind of value that the text starts with. -/
def kindAt (text : List Char) : Option Kind :=
  match text.head? with
  | some 'n' => some .null
  | some 't' => some .bool
  | some 'f' => some .bool
  | some '"' => some .str
  | some '[' => some .arr
  | some '\x7b' => some .obj
  | some c => if isNumChar c then some .num else none
  | none => none

theorem kindAt_stringify (j : Json) (wf : j.Wf) (a : List Char) :
    kindAt (stringify j ++ a) = some (kind j) := by
  cases j with
  | null => rfl
  | bool b => cases b <;> rfl
  | num text =>
      obtain ⟨some, all⟩ := wf
      obtain ⟨c, rest, same⟩ := List.exists_cons_of_ne_nil some
      have num := all c (same ▸ List.mem_cons_self)
      rw [stringify, same, kindAt, kind, List.cons_append, List.head?_cons]
      split <;> rename_i here <;> cases here <;> try cases num
      rw [if_pos num]
  | str s => rfl
  | arr items => cases items <;> rfl
  | obj fields => cases fields <;> rfl

mutual

/-- The printed value tells where it ends. -/
theorem stringify_append_inj (j k : Json) (wfJ : j.Wf) (wfK : k.Wf) {a b : List Char}
    (endsA : Ends a) (endsB : Ends b) (same : stringify j ++ a = stringify k ++ b) :
    j = k ∧ a = b := by
  have kinds : kind j = kind k := Option.some.inj (by
    rw [← kindAt_stringify j wfJ a, same, kindAt_stringify k wfK])
  cases j <;> cases k <;> cases kinds
  case null.null => exact ⟨rfl, List.append_cancel_left same⟩
  case bool.bool x y =>
    cases x <;> cases y
    · exact ⟨rfl, List.append_cancel_left same⟩
    · cases same
    · cases same
    · exact ⟨rfl, List.append_cancel_left same⟩
  case num.num x y =>
    obtain ⟨chars, rest⟩ := num_append_inj wfJ.2 wfK.2 endsA endsB same
    exact ⟨congrArg num (String.toList_inj.mp chars), rest⟩
  case str.str x y =>
    obtain ⟨rfl, rest⟩ := quote_append_inj same
    exact ⟨rfl, rest⟩
  case arr.arr x y =>
    cases x with
    | nil =>
        cases y with
        | nil => exact ⟨rfl, List.append_cancel_left same⟩
        | cons d y =>
            simp only [stringify, List.cons_append, List.append_assoc, List.cons.injEq,
              true_and] at same
            have none := kindAt_stringify d wfK.1 (moreItems y ++ b)
            rw [← same] at none
            cases none
    | cons c x =>
        cases y with
        | nil =>
            simp only [stringify, List.cons_append, List.append_assoc, List.cons.injEq,
              true_and] at same
            have none := kindAt_stringify c wfJ.1 (moreItems x ++ a)
            rw [same] at none
            cases none
        | cons d y =>
            simp only [stringify, List.cons_append, List.append_assoc, List.cons.injEq,
              true_and] at same
            obtain ⟨rfl, rest⟩ := stringify_append_inj c d wfJ.1 wfK.1 (ends_moreItems x a)
              (ends_moreItems y b) same
            obtain ⟨rfl, rfl⟩ := moreItems_append_inj x y wfJ.2 wfK.2 rest
            exact ⟨rfl, rfl⟩
  case obj.obj x y =>
    cases x with
    | nil =>
        cases y with
        | nil => exact ⟨rfl, List.append_cancel_left same⟩
        | cons d y => cases same
    | cons c x =>
        cases y with
        | nil => cases same
        | cons d y =>
            obtain ⟨key, c⟩ := c
            obtain ⟨key', d⟩ := d
            simp only [stringify, List.cons_append, List.append_assoc, List.cons.injEq,
              true_and] at same
            obtain ⟨rfl, rest⟩ := quote_append_inj same
            obtain ⟨rfl, more⟩ := stringify_append_inj c d wfJ.1 wfK.1 (ends_moreFields x a)
              (ends_moreFields y b) (List.tail_eq_of_cons_eq rest)
            obtain ⟨rfl, rfl⟩ := moreFields_append_inj x y wfJ.2 wfK.2 more
            exact ⟨rfl, rfl⟩

theorem moreItems_append_inj (x y : List Json) (wfX : WfItems x) (wfY : WfItems y)
    {a b : List Char} (same : moreItems x ++ a = moreItems y ++ b) : x = y ∧ a = b := by
  cases x with
  | nil =>
      cases y with
      | nil => exact ⟨rfl, List.append_cancel_left same⟩
      | cons d y => cases same
  | cons c x =>
      cases y with
      | nil => cases same
      | cons d y =>
          simp only [moreItems, List.cons_append, List.append_assoc, List.cons.injEq,
            true_and] at same
          obtain ⟨rfl, rest⟩ := stringify_append_inj c d wfX.1 wfY.1 (ends_moreItems x a)
            (ends_moreItems y b) same
          obtain ⟨rfl, rfl⟩ := moreItems_append_inj x y wfX.2 wfY.2 rest
          exact ⟨rfl, rfl⟩

theorem moreFields_append_inj (x y : List (String × Json)) (wfX : WfFields x) (wfY : WfFields y)
    {a b : List Char} (same : moreFields x ++ a = moreFields y ++ b) : x = y ∧ a = b := by
  cases x with
  | nil =>
      cases y with
      | nil => exact ⟨rfl, List.append_cancel_left same⟩
      | cons d y => cases same
  | cons c x =>
      cases y with
      | nil => cases same
      | cons d y =>
          obtain ⟨key, c⟩ := c
          obtain ⟨key', d⟩ := d
          simp only [moreFields, List.cons_append, List.append_assoc, List.cons.injEq,
            true_and] at same
          obtain ⟨rfl, rest⟩ := quote_append_inj same
          obtain ⟨rfl, more⟩ := stringify_append_inj c d wfX.1 wfY.1 (ends_moreFields x a)
            (ends_moreFields y b) (List.tail_eq_of_cons_eq rest)
          obtain ⟨rfl, rfl⟩ := moreFields_append_inj x y wfX.2 wfY.2 more
          exact ⟨rfl, rfl⟩

end

/-- A value is determined by the text that prints it. -/
theorem stringify_injective {j k : Json} (wfJ : j.Wf) (wfK : k.Wf)
    (same : stringify j = stringify k) : j = k := by
  have ends : Ends [] := fun c mem => by cases mem
  refine (stringify_append_inj j k wfJ wfK ends ends ?_).1
  rw [same]

/-! ## On one line -/

theorem hexDigit_ne_newline : ∀ n < 16, hexDigit n ≠ '\n' := by decide

theorem newline_not_mem_escape (c : Char) : '\n' ∉ escape c := by
  rw [escape]
  iterate 7
    split
    · decide
  rename_i _ _ _ _ other _ _
  split
  · rename_i control
    have high := hexDigit_ne_newline (c.toNat / 16) (by omega)
    have low := hexDigit_ne_newline (c.toNat % 16) (by omega)
    simp [high.symm, low.symm]
  · exact fun mem => other (List.mem_singleton.mp mem).symm

theorem newline_not_mem_quote (s : String) : '\n' ∉ quote s := by
  intro mem
  rcases List.mem_cons.mp mem with same | mem
  · exact absurd same (by decide)
  · rcases List.mem_append.mp mem with inside | last
    · obtain ⟨c, -, escaped⟩ := List.mem_flatMap.mp inside
      exact newline_not_mem_escape c escaped
    · exact absurd (List.mem_singleton.mp last) (by decide)

mutual

theorem newline_not_mem_stringify (j : Json) (wf : j.Wf) : '\n' ∉ j.stringify := by
  cases j with
  | null => decide
  | bool b => cases b <;> decide
  | num text => exact fun mem => absurd (wf.2 _ mem) (by decide)
  | str s => exact newline_not_mem_quote s
  | arr items =>
      cases items with
      | nil => decide
      | cons j items =>
          have first := newline_not_mem_stringify j wf.1
          have more := newline_not_mem_moreItems items wf.2
          simp [stringify, first, more]
  | obj fields =>
      cases fields with
      | nil => decide
      | cons field fields =>
          obtain ⟨key, j⟩ := field
          have name := newline_not_mem_quote key
          have first := newline_not_mem_stringify j wf.1
          have more := newline_not_mem_moreFields fields wf.2
          simp [stringify, name, first, more]

theorem newline_not_mem_moreItems (items : List Json) (wf : WfItems items) :
    '\n' ∉ moreItems items := by
  cases items with
  | nil => decide
  | cons j items =>
      have first := newline_not_mem_stringify j wf.1
      have more := newline_not_mem_moreItems items wf.2
      simp [moreItems, first, more]

theorem newline_not_mem_moreFields (fields : List (String × Json)) (wf : WfFields fields) :
    '\n' ∉ moreFields fields := by
  cases fields with
  | nil => decide
  | cons field fields =>
      obtain ⟨key, j⟩ := field
      have name := newline_not_mem_quote key
      have first := newline_not_mem_stringify j wf.1
      have more := newline_not_mem_moreFields fields wf.2
      simp [moreFields, name, first, more]

end

end Json

end Opensquid.Lib
