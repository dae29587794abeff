import Mathlib.Data.List.Basic
import Mathlib.Data.List.TakeWhile

/-!
# White space

The characters that the class `\s` matches and that `trim` removes, and those that end a line.
-/

namespace Opensquid.Lib

/-- `\s`. -/
def isSpace (c : Char) : Bool :=
  c ∈ [' ', '\t', '\n', '\r', '\x0b', '\x0c', '\u00a0', '\u1680', '\u2028', '\u2029', '\u202f',
    '\u205f', '\u3000', '\ufeff'] || ('\u2000' ≤ c && c ≤ '\u200a')

/-- What `.` does not match, and what ends a line for `^` and `$` under the `m` flag. -/
def isLineTerminator (c : Char) : Bool := c ∈ ['\n', '\r', '\u2028', '\u2029']

/-- `text.trim()`. -/
def trim (text : List Char) : List Char :=
  ((text.dropWhile isSpace).reverse.dropWhile isSpace).reverse

theorem dropWhile_isSpace_eq_self {text : List Char} (solid : ∀ c ∈ text.head?, isSpace c = false) :
    text.dropWhile isSpace = text := by
  cases text with
  | nil => rfl
  | cons c text => exact List.dropWhile_cons_of_neg (Bool.eq_false_iff.mp (solid c rfl))

theorem trim_eq_self {text : List Char} (first : ∀ c ∈ text.head?, isSpace c = false)
    (last : ∀ c ∈ text.getLast?, isSpace c = false) : trim text = text := by
  have back : ∀ c ∈ text.reverse.head?, isSpace c = false := by
    rw [List.head?_reverse]
    exact last
  rw [trim, dropWhile_isSpace_eq_self first, dropWhile_isSpace_eq_self back, List.reverse_reverse]

/-- A text without the blanks around it. -/
theorem trim_append {lead text trail : List Char} (blank : ∀ c ∈ lead ++ trail, isSpace c = true)
    (first : ∀ c ∈ text.head?, isSpace c = false) (last : ∀ c ∈ text.getLast?, isSpace c = false)
    (solid : text ≠ []) : trim (lead ++ (text ++ trail)) = text := by
  have front : ∀ c ∈ lead, isSpace c = true := fun c mem => blank c (List.mem_append_left _ mem)
  have back : ∀ c ∈ trail.reverse, isSpace c = true :=
    fun c mem => blank c (List.mem_append_right _ (List.mem_reverse.mp mem))
  have start : ∀ c ∈ (text ++ trail).head?, isSpace c = false := by
    rw [List.head?_append_of_ne_nil _ solid]
    exact first
  have ends : ∀ c ∈ text.reverse.head?, isSpace c = false := by
    rw [List.head?_reverse]
    exact last
  rw [trim, List.dropWhile_append_of_pos front, dropWhile_isSpace_eq_self start,
    List.reverse_append, List.dropWhile_append_of_pos back, dropWhile_isSpace_eq_self ends,
    List.reverse_reverse]

theorem trim_eq_nil {text : List Char} : trim text = [] ↔ ∀ c ∈ text, isSpace c = true := by
  rw [trim, List.reverse_eq_nil_iff, List.dropWhile_eq_nil_iff]
  constructor
  · intro empty c held
    rw [← List.takeWhile_append_dropWhile (p := isSpace) (l := text)] at held
    rcases List.mem_append.mp held with held | held
    · exact List.mem_takeWhile_imp held
    · exact empty c (List.mem_reverse.mpr held)
  · intro all c held
    exact all c ((List.dropWhile_suffix isSpace).subset (List.mem_reverse.mp held))

theorem trim_ne_nil {text : List Char} {c : Char} (held : c ∈ text) (solid : isSpace c = false) :
    trim text ≠ [] := by
  intro empty
  rw [trim_eq_nil.mp empty c held] at solid
  cases solid

end Opensquid.Lib
