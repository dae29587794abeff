import Mathlib.Data.List.Infix
import Opensquid.Lib.Whitespace

/-!
# Scanning text

The tests that programs make with `includes`, `endsWith` and a regular expression around a
word.
-/

namespace Opensquid.Lib

/-- `text.includes(part)`. -/
def includes (text part : String) : Bool := part.toList <:+: text.toList

/-- `text.endsWith(last)`. -/
def endsWith (text last : String) : Bool := last.toList.isSuffixOf text.toList

/-- What a character is compared as under `/iu`: a long s and a kelvin sign match too. -/
def foldCase (c : Char) : Char :=
  if c = '\u212a' then 'k' else if c = '\u017f' then 's' else c.toLower

/-! ## Words -/

/-- `\w`. -/
def isWordChar (c : Char) : Bool := c.isAlphanum || c = '_'

theorem isWordChar_of_isDigit {c : Char} (digit : c.isDigit = true) : isWordChar c = true := by
  rw [isWordChar, Char.isAlphanum, digit, Bool.or_true, Bool.true_or]

theorem not_isSpace_of_isWordChar {c : Char} (word : isWordChar c = true) :
    isSpace c = false := by
  refine Bool.eq_false_iff.mpr fun space => ?_
  simp only [isSpace, Bool.or_eq_true, decide_eq_true_eq, List.mem_cons, List.not_mem_nil, or_false,
    Bool.and_eq_true] at space
  rcases space with
    (rfl | rfl | rfl | rfl | rfl | rfl | rfl | rfl | rfl | rfl | rfl | rfl | rfl | rfl) | ⟨low, -⟩
  all_goals try (revert word; decide)
  have high : 0x2000 ≤ c.val.toNat := low
  rw [isWordChar, Char.isAlphanum] at word
  delta Char.isAlpha Char.isUpper Char.isLower at word
  simp only [Char.isDigit, Bool.or_eq_true, Bool.and_eq_true, decide_eq_true_eq,
    UInt32.le_iff_toNat_le] at word
  rcases word with ((⟨-, top⟩ | ⟨-, top⟩) | ⟨-, top⟩) | rfl
  · exact absurd (high.trans top) (by decide)
  · exact absurd (high.trans top) (by decide)
  · exact absurd (high.trans top) (by decide)
  · exact absurd high (by decide)

/-- No word goes on into the text. -/
def wordEnds (text : List Char) : Bool := !text.head?.any isWordChar

/-- `\bword` before a text that meets `after`; `inWord` is about the character in front. -/
def scanWord (word : List Char) (after : List Char → Bool) : Bool → List Char → Bool
  | _, [] => false
  | inWord, c :: rest =>
      (!inWord && word.isPrefixOf (c :: rest) && after ((c :: rest).drop word.length)) ||
        scanWord word after (isWordChar c) rest

/-- `\bword\b`. -/
def hasWord (word : String) (text : List Char) : Bool := scanWord word.toList wordEnds false text

end Opensquid.Lib
