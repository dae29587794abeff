import Opensquid.Lib.Replacement
import Opensquid.Lib.Whitespace

/-!
# The managed block of a text file

The wizard owns one block of a file that is otherwise the user's, and refreshes it whenever it runs.

* `refreshes_keep`: however often and with whatever bodies the block is refreshed, what stands
  before and behind it stays as it is, and the block has the last body.
* `refreshes_malformed`: in a file with a first marker that no last marker follows, the second
  refresh takes the block to begin at that marker and deletes all that stands behind it.

Bodies with a dollar sign are left out, as the replacement expands some of them, and those with the
last marker in them.
-/

namespace Opensquid.Setup

open Opensquid.Lib

/-! ## Writing the block -/

def BLOCK_BEGIN : List Char := "<!-- opensquid:begin (managed - do not edit) -->".toList

def BLOCK_END : List Char := "<!-- opensquid:end -->".toList

/-- `text.replace(/\s+$/, '')`. -/
def trimEnd (text : List Char) : List Char := (text.reverse.dropWhile isSpace).reverse

/-- The block from its first marker to the next last marker: what stands before it, in it and
behind it. -/
def findBlock (text : List Char) : Option (List Char × List Char × List Char) :=
  (splitFirst BLOCK_BEGIN text).bind fun halves =>
    (splitFirst BLOCK_END halves.2).map fun inner => (halves.1, inner.1, inner.2)

def blockOf (body : List Char) : List Char :=
  BLOCK_BEGIN ++ '\n' :: trim body ++ '\n' :: BLOCK_END

def projectManagedBlock (existing body : List Char) : List Char :=
  match findBlock existing with
  | some (before, inner, after) =>
      before ++ expand before (BLOCK_BEGIN ++ inner ++ BLOCK_END) after (blockOf body) ++ after
  | none =>
      (if trim existing = [] then [] else trimEnd existing ++ ['\n', '\n']) ++ blockOf body ++
        ['\n']

inductive WriteKind
  | created
  | updated
  | added
  deriving DecidableEq, Repr

/-- A file and the copy of what it held before the last write. -/
structure ManagedFile where
  text : Option (List Char) := none
  bak : Option (List Char) := none

def writeManagedBlock (file : ManagedFile) (body : List Char) : WriteKind × ManagedFile :=
  let existing := file.text.getD []
  (match file.text with
    | none => .created
    | some _ => if BLOCK_BEGIN <:+: existing then .updated else .added,
    { text := some (projectManagedBlock existing body)
      bak := match file.text with
        | none => file.bak
        | some text => some text })

/-- One run of the wizard after the other. -/
def refreshes (file : ManagedFile) (bodies : List (List Char)) : ManagedFile :=
  bodies.foldl (fun file body => (writeManagedBlock file body).2) file

/-! ## The text of a block -/

/-- A body that the replacement takes as it is and that does not end the block. -/
structure Plain (body : List Char) : Prop where
  literal : '$' ∉ trim body
  open_ended : ¬ BLOCK_END <:+: trim body

section

variable {before after body text : List Char}

theorem newline_not_begin : '\n' ∉ BLOCK_BEGIN := by decide

theorem newline_not_end : '\n' ∉ BLOCK_END := by decide

theorem blockOf_eq (body : List Char) :
    blockOf body = BLOCK_BEGIN ++ ('\n' :: trim body ++ ['\n']) ++ BLOCK_END := by
  simp [blockOf]

theorem Plain.not_mem_blockOf (plain : Plain body) : '$' ∉ blockOf body := by
  have first : '$' ∉ BLOCK_BEGIN := by decide
  have last : '$' ∉ BLOCK_END := by decide
  simp [blockOf, first, last, plain.literal]

/-- The markers of a block are its own. -/
theorem Plain.fresh (plain : Plain body) : Fresh BLOCK_END ('\n' :: trim body ++ ['\n']) := by
  refine fresh_concat newline_not_end fun inside => ?_
  rcases (@infix_append_cons _ _ _ newline_not_end [] (trim body)).mp inside with none | inside
  · exact absurd none (by decide)
  · exact plain.open_ended inside

theorem findBlock_append {inner : List Char} (first : Fresh BLOCK_BEGIN before)
    (last : Fresh BLOCK_END inner) :
    findBlock (before ++ (BLOCK_BEGIN ++ inner ++ BLOCK_END) ++ after) =
      some (before, inner, after) := by
  have whole : before ++ (BLOCK_BEGIN ++ inner ++ BLOCK_END) ++ after =
      before ++ BLOCK_BEGIN ++ (inner ++ BLOCK_END ++ after) := by simp
  rw [findBlock, whole, splitFirst_append first, Option.bind_some, splitFirst_append last]
  rfl

theorem findBlock_blockOf (first : Fresh BLOCK_BEGIN before) (plain : Plain body) :
    findBlock (before ++ blockOf body ++ after) =
      some (before, '\n' :: trim body ++ ['\n'], after) := by
  rw [blockOf_eq]
  exact findBlock_append first plain.fresh

theorem project_of_findBlock {inner : List Char}
    (found : findBlock text = some (before, inner, after)) (plain : Plain body) :
    projectManagedBlock text body = before ++ blockOf body ++ after := by
  rw [projectManagedBlock, found]
  dsimp only
  rw [expand_of_not_mem plain.not_mem_blockOf]

/-! ## What is the user's -/

/-- What stands before and behind the block once it is there. -/
def foreign (text : List Char) : List Char × List Char :=
  match findBlock text with
  | some (before, _, after) => (before, after)
  | none => (if trim text = [] then [] else trimEnd text ++ ['\n', '\n'], ['\n'])

/-- A first marker is followed by a last one. -/
def WellFormed (text : List Char) : Prop := findBlock text = none → ¬ BLOCK_BEGIN <:+: text

instance : Decidable (WellFormed text) := inferInstanceAs (Decidable (_ → _))

theorem trimEnd_isPrefix (text : List Char) : trimEnd text <+: text := by
  have suffix := List.dropWhile_suffix isSpace (l := text.reverse)
  rw [← List.reverse_prefix, List.reverse_reverse] at suffix
  exact suffix

theorem foreign_fresh (formed : WellFormed text) : Fresh BLOCK_BEGIN (foreign text).1 := by
  unfold foreign
  cases found : findBlock text with
  | some block =>
      obtain ⟨halves, split, rest⟩ := Option.bind_eq_some_iff.mp found
      obtain ⟨inner, -, rfl⟩ := Option.map_eq_some_iff.mp rest
      exact (exists_of_splitFirst split).2
  | none =>
      dsimp only
      split
      · exact trivial
      · have absent : ¬ BLOCK_BEGIN <:+: trimEnd text ++ ['\n'] := by
          rw [infix_append_cons newline_not_begin, not_or]
          exact ⟨fun inside => formed found (inside.trans (trimEnd_isPrefix text).isInfix), by decide⟩
        have fresh := fresh_concat newline_not_begin absent
        rwa [List.append_assoc] at fresh

theorem project_eq (text : List Char) (plain : Plain body) :
    projectManagedBlock text body = (foreign text).1 ++ blockOf body ++ (foreign text).2 := by
  cases found : findBlock text with
  | some block =>
      rw [project_of_findBlock found plain, foreign, found]
  | none => rw [projectManagedBlock, foreign, found]

/-- A refresh leaves the text well formed, and what is the user's as it was. -/
theorem foreign_project (formed : WellFormed text) (plain : Plain body) :
    WellFormed (projectManagedBlock text body) ∧
      foreign (projectManagedBlock text body) = foreign text := by
  have found : findBlock ((foreign text).1 ++ blockOf body ++ (foreign text).2) = _ :=
    findBlock_blockOf (foreign_fresh formed) plain
  rw [project_eq _ plain]
  constructor
  · intro none
    rw [found] at none
    cases none
  · unfold foreign at found ⊢
    rw [found]

theorem refreshes_keep {file : ManagedFile} {bodies : List (List Char)} {last : List Char}
    (formed : WellFormed (file.text.getD [])) (plain : ∀ body ∈ bodies, Plain body)
    (lastPlain : Plain last) :
    (refreshes file (bodies ++ [last])).text =
      some ((foreign (file.text.getD [])).1 ++ blockOf last ++
        (foreign (file.text.getD [])).2) := by
  induction bodies generalizing file with
  | nil => exact congrArg some (project_eq _ lastPlain)
  | cons body rest ih =>
      rw [List.forall_mem_cons] at plain
      obtain ⟨formed', kept⟩ := foreign_project formed plain.1
      have run := @ih (writeManagedBlock file body).2 formed' plain.2
      rw [show ((writeManagedBlock file body).2.text.getD []) =
        projectManagedBlock (file.text.getD []) body from rfl, kept] at run
      exact run

theorem refreshes_keep_notes :
    (refreshes { text := some "notes".toList } ["old".toList, "new".toList]).text =
      some ("notes\n\n".toList ++ blockOf "new".toList ++ ['\n']) := by
  have run := @refreshes_keep { text := some "notes".toList } ["old".toList] "new".toList
    (by decide) (List.forall_mem_singleton.mpr ⟨by decide, by decide⟩) ⟨by decide, by decide⟩
  rwa [show foreign ((some "notes".toList).getD []) = ("notes\n\n".toList, ['\n']) by decide] at run

/-! ## Malformed files -/

theorem trimEnd_append {last : Char} (solid : isSpace last = false) (text after : List Char) :
    trimEnd (text ++ [last] ++ after) = text ++ [last] ++ trimEnd after := by
  have whole : (text ++ [last] ++ after).reverse = after.reverse ++ last :: text.reverse := by
    simp
  have stays : (last :: text.reverse).dropWhile isSpace = last :: text.reverse :=
    List.dropWhile_cons_of_neg (Bool.eq_false_iff.mp solid)
  rw [trimEnd, trimEnd, whole, List.dropWhile_append, stays]
  split
  next empty =>
    rw [List.isEmpty_iff.mp empty]
    simp
  next => simp

theorem refreshes_malformed {bak : Option (List Char)} {first second : List Char}
    (split : splitFirst BLOCK_BEGIN text = some (before, after))
    (malformed : ¬ BLOCK_END <:+: after) (plain : Plain first) (plain' : Plain second) :
    (refreshes ⟨some text, bak⟩ [first, second]).text =
      some (before ++ blockOf second ++ ['\n']) := by
  obtain ⟨rfl, fresh⟩ := exists_of_splitFirst split
  have solid : trim (before ++ BLOCK_BEGIN ++ after) ≠ [] := by
    refine @trim_ne_nil _ '<' ?_ (by decide)
    have held : '<' ∈ BLOCK_BEGIN := by decide
    simp [held]
  have unclosed : findBlock (before ++ BLOCK_BEGIN ++ after) = none := by
    rw [findBlock, split, Option.bind_some, splitFirst_eq_none.mpr malformed]
    rfl
  have trimmed : trimEnd (before ++ BLOCK_BEGIN ++ after) =
      before ++ BLOCK_BEGIN ++ trimEnd after := by
    have ends : BLOCK_BEGIN = BLOCK_BEGIN.dropLast ++ ['>'] := by decide
    rw [ends, ← List.append_assoc]
    exact trimEnd_append (by decide) _ after
  -- The new block's last marker closes the first marker of the user's text.
  have swallowed : Fresh BLOCK_END
      (trimEnd after ++ '\n' :: '\n' :: (BLOCK_BEGIN ++ '\n' :: trim first) ++ ['\n']) := by
    refine fresh_concat newline_not_end fun inside => ?_
    rw [infix_append_cons newline_not_end] at inside
    rcases inside with inside | inside
    · exact malformed (inside.trans (trimEnd_isPrefix after).isInfix)
    rcases (@infix_append_cons _ _ _ newline_not_end [] _).mp inside with none | inside
    · exact absurd none (by decide)
    rcases (infix_append_cons newline_not_end).mp inside with begins | inside
    · exact absurd begins (by decide)
    · exact plain.open_ended inside
  have once : projectManagedBlock (before ++ BLOCK_BEGIN ++ after) first =
      before ++ (BLOCK_BEGIN ++ (trimEnd after ++ '\n' :: '\n' :: (BLOCK_BEGIN ++
        '\n' :: trim first) ++ ['\n']) ++ BLOCK_END) ++ ['\n'] := by
    rw [projectManagedBlock, unclosed]
    dsimp only
    rw [if_neg solid, trimmed, blockOf]
    simp
  have found : findBlock (projectManagedBlock (before ++ BLOCK_BEGIN ++ after) first) =
      some (before, _, ['\n']) := once ▸ findBlock_append fresh swallowed
  exact congrArg some (project_of_findBlock found plain')

/-- The user's text behind the stray marker is gone. -/
theorem refreshes_malformed_stray :
    (refreshes { text := some (BLOCK_BEGIN ++ "\nmine".toList) }
      ["old".toList, "new".toList]).text = some (blockOf "new".toList ++ ['\n']) :=
  @refreshes_malformed _ _ _ none "old".toList "new".toList
    (@splitFirst_append _ BLOCK_BEGIN [] _ trivial _) (by decide) ⟨by decide, by decide⟩
    ⟨by decide, by decide⟩

end

end Opensquid.Setup
