import Mathlib.Data.Rat.Defs
import Opensquid.Lib.JsonText

/-!
# Reading the fields of an object

What a schema takes from the fields of a parsed object, and the value of a number.
-/

namespace Opensquid.Lib.Json

/-- The value of a key; the last one counts where a key is given twice. -/
def field (fields : List (String × Json)) (key : String) : Option Json := fields.reverse.lookup key

def asString : Json → Option String
  | .str s => some s
  | _ => none

def asBool : Json → Option Bool
  | .bool b => some b
  | _ => none

/-- `z.string()` under a key. -/
def stringField (fields : List (String × Json)) (key : String) : Option String :=
  (field fields key).bind asString

/-- `z.string().min(1)` under a key. -/
def nonempty (fields : List (String × Json)) (key : String) : Option String :=
  (stringField fields key).filter (· ≠ "")

/-- `z.string().optional()` under a key. -/
def optionalString (fields : List (String × Json)) (key : String) : Option (Option String) :=
  match field fields key with
  | none => some none
  | some j => (asString j).map some

/-- `z.boolean()` under a key. -/
def boolField (fields : List (String × Json)) (key : String) : Option Bool :=
  (field fields key).bind asBool

/-- No key is unknown. -/
def strict (known : List String) (fields : List (String × Json)) : Bool :=
  fields.all fun (key, _) => key ∈ known

/-! ## Numbers -/

def naturalOf (digits : List Char) : Nat := digits.foldl (fun n c => 10 * n + (c.toNat - 48)) 0

def exponentOf : List Char → Int
  | '-' :: digits => -(naturalOf digits : Int)
  | '+' :: digits => naturalOf digits
  | digits => naturalOf digits

/-- The value of an unsigned number. -/
def unsignedOf (text : List Char) : ℚ :=
  let mantissa := text.takeWhile fun c => c ≠ 'e' ∧ c ≠ 'E'
  let whole := mantissa.takeWhile (· ≠ '.')
  let fraction := (mantissa.dropWhile (· ≠ '.')).tail
  let exponent := exponentOf (text.drop (mantissa.length + 1)) - fraction.length
  naturalOf (whole ++ fraction) * (if 0 ≤ exponent then 10 ^ exponent.toNat
    else (10 ^ (-exponent).toNat)⁻¹)

/-- The value that the text of a number stands for. -/
def numberOf (text : String) : ℚ :=
  match text.toList with
  | '-' :: rest => -unsignedOf rest
  | text => unsignedOf text

/-- The double nearest to the number is 1. -/
def isOne (text : String) : Bool :=
  1 - (2 ^ 54)⁻¹ ≤ numberOf text && numberOf text ≤ 1 + (2 ^ 53)⁻¹

/-- The double nearest to the number is 0. -/
def isZero (text : String) : Bool :=
  -(2 ^ 1075)⁻¹ ≤ numberOf text && numberOf text ≤ (2 ^ 1075)⁻¹

/-- What counts as true in a condition. -/
def truthy : Json → Bool
  | .null => false
  | .bool b => b
  | .num text => !isZero text
  | .str s => s ≠ ""
  | .arr _ | .obj _ => true

example : isOne "10.0e-1" = true ∧ isOne "1.01" = false ∧ isZero "-0" = true := by decide +kernel

end Opensquid.Lib.Json
