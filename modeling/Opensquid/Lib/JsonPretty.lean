import Opensquid.Lib.JsonParse

/-!
# JSON over several lines

`JSON.stringify(value, null, 2)` of an object without objects or lists in it: a line for each
field. What is printed is read (`parse_pretty`).
-/

namespace Opensquid.Lib.Json

def prettyField (key : String) (j : Json) : List Char :=
  '\n' :: ' ' :: ' ' :: (quote key ++ ':' :: ' ' :: stringify j)

/-- The further fields and the closing brace. -/
def prettyMore : List (String × Json) → List Char
  | [] => ['\n', '\x7d']
  | (key, j) :: fields => ',' :: (prettyField key j ++ prettyMore fields)

def pretty : List (String × Json) → List Char
  | [] => ['\x7b', '\x7d']
  | (key, j) :: fields => '\x7b' :: (prettyField key j ++ prettyMore fields)

theorem ends_prettyMore (fields : List (String × Json)) : Ends (prettyMore fields) := by
  intro c first
  cases fields <;> cases first <;> rfl

theorem parseValue_blank (fuel : Nat) (text : List Char) :
    parseValue fuel (' ' :: text) = parseValue fuel text := by
  cases fuel with
  | zero => rfl
  | succ n =>
      have same : skip (' ' :: text) = skip text := rfl
      rw [parseValue, parseValue, same]

/-- A field and what follows it. -/
theorem read_prettyField (key : String) {j : Json} (valid : j.Valid) {more : List Char}
    (ends : Ends more) {fuel : Nat} (enough : (stringify j).length ≤ fuel) :
    ∃ rest, readKey (prettyField key j ++ more) = some (key, rest) ∧
      parseValue fuel rest = some (j, more) := by
  refine ⟨' ' :: (stringify j ++ more), ?_, ?_⟩
  · have key := readKey_quote key (' ' :: (stringify j ++ more))
    rw [prettyField]
    simp only [List.cons_append, List.append_assoc]
    exact key
  · rw [parseValue_blank, parseValue_stringify j valid ends enough]

theorem parseFields_prettyMore (fields : List (String × Json)) (valid : ValidFields fields)
    {fuel : Nat} (enough : (prettyMore fields).length ≤ fuel) :
    parseFields fuel (prettyMore fields) = some (fields, []) := by
  induction fields generalizing fuel with
  | nil =>
      obtain ⟨n, rfl⟩ := Nat.exists_eq_add_one.mpr (Nat.zero_lt_two.trans_le enough)
      have closing : skip (prettyMore []) = ['\x7d'] := rfl
      rw [parseFields, closing, dropLiteral_cons]
  | cons field fields ih =>
      obtain ⟨key, j⟩ := field
      obtain ⟨first, rest⟩ := valid
      rw [prettyMore] at enough ⊢
      rw [List.length_cons, List.length_append, prettyField, List.length_cons, List.length_cons,
        List.length_cons, List.length_append, List.length_cons, List.length_cons] at enough
      obtain ⟨n, rfl⟩ := Nat.exists_eq_add_one.mpr ((Nat.succ_pos _).trans_le enough)
      have size : (stringify j).length ≤ n := by omega
      obtain ⟨text, named, read⟩ := read_prettyField key first (ends_prettyMore fields) size
      rw [parseFields, skip_cons rfl, dropLiteral_of_head_ne (by decide), dropLiteral_cons]
      dsimp only [bind, Option.bind]
      rw [named]
      dsimp only
      rw [read]
      dsimp only
      rw [ih rest (by omega)]
      rfl

/-- A printed object is read back. -/
theorem parse_pretty {fields : List (String × Json)} (valid : ValidFields fields) :
    parse (pretty fields) = some (.obj fields) := by
  cases fields with
  | nil => rfl
  | cons field fields =>
      obtain ⟨key, j⟩ := field
      obtain ⟨first, rest⟩ := valid
      have length : (pretty ((key, j) :: fields)).length =
          (prettyField key j).length + (prettyMore fields).length + 1 := by
        rw [pretty, List.length_cons, List.length_append]
      have size : (stringify j).length ≤ (pretty ((key, j) :: fields)).length := by
        rw [length, prettyField]
        simp only [List.length_cons, List.length_append]
        omega
      obtain ⟨text, named, read⟩ := read_prettyField key first (ends_prettyMore fields) size
      have starts : kindAt (skip (pretty ((key, j) :: fields))) = some .obj := rfl
      have inside : (skip (pretty ((key, j) :: fields))).tail =
          prettyField key j ++ prettyMore fields := rfl
      have opens : dropLiteral ['\x7d'] (skip (prettyField key j ++ prettyMore fields)) = none := by
        have first : skip (prettyField key j ++ prettyMore fields) =
            quote key ++ ':' :: ' ' :: (stringify j ++ prettyMore fields) := by
          rw [prettyField]
          simp only [List.cons_append, List.append_assoc]
          rfl
        rw [first, quote, List.cons_append]
        exact dropLiteral_of_head_ne (by decide)
      rw [parse, parseValue, starts]
      dsimp only
      rw [inside, opens]
      dsimp only [bind, Option.bind]
      rw [named]
      dsimp only
      rw [read]
      dsimp only
      rw [parseFields_prettyMore fields rest (by omega)]
      rfl

end Opensquid.Lib.Json
