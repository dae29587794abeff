import Opensquid.Lib.Occurrence

/-!
# Replacing the occurrences of a text

What `replace` and `replaceAll` put in for a text that they search: the replacement, in which a
dollar sign may stand for what has been found or for what stands around it (`expand`). Without one
the replacement is put in as it is (`expand_of_not_mem`).
-/

namespace Opensquid.Lib

/-- What is put in for a text without groups, found between `before` and `after`. -/
def expand (before found after : List Char) : List Char → List Char
  | [] => []
  | [c] => [c]
  | c :: d :: rest =>
      if c ≠ '$' then c :: expand before found after (d :: rest)
      else if d = '$' then '$' :: expand before found after rest
      else if d = '&' then found ++ expand before found after rest
      else if d = '\x60' then before ++ expand before found after rest
      else if d = '\x27' then after ++ expand before found after rest
      else '$' :: expand before found after (d :: rest)

theorem expand_of_not_mem {before found after text : List Char} (literal : '$' ∉ text) :
    expand before found after text = text := by
  induction text with
  | nil => rfl
  | cons c rest ih =>
      rw [List.mem_cons, not_or] at literal
      cases rest with
      | nil => rfl
      | cons d rest => rw [expand, if_pos (Ne.symm literal.1), ih literal.2]

/-- Replace in `rest`, which stands behind `before`; `n` bounds the number of occurrences. -/
def replaceAllFrom (pattern replacement : List Char) : Nat → List Char → List Char → List Char
  | 0, _, rest => rest
  | n + 1, before, rest =>
      match splitFirst pattern rest with
      | none => rest
      | some (front, after) =>
          front ++ expand (before ++ front) pattern after replacement ++
            replaceAllFrom pattern replacement n (before ++ front ++ pattern) after

/-- `text.replaceAll(pattern, replacement)` of a pattern that is not empty. -/
def replaceAll (pattern replacement text : List Char) : List Char :=
  replaceAllFrom pattern replacement text.length [] text

end Opensquid.Lib
