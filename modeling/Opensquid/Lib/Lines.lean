import Mathlib.Data.List.Basic
import Mathlib.Data.List.Infix

/-!
# Complete lines

The lines of a sequence that a separator ends. Appending never changes a complete
line, so a reader may take them away one after another.
-/

namespace Opensquid.Lib.Lines

variable {α : Type*} [DecidableEq α] {sep : α}

/-- Every line with its separator. -/
def unlines (sep : α) (lines : List (List α)) : List α := lines.flatMap (· ++ [sep])

/-- What stands between separators, without what follows the last one. -/
def completeLines (sep : α) (text : List α) : List (List α) := (text.splitOn sep).dropLast

omit [DecidableEq α] in
theorem unlines_cons (line : List α) (lines : List (List α)) :
    unlines sep (line :: lines) = line ++ sep :: unlines sep lines := by
  rw [unlines, List.flatMap_cons, List.append_assoc, List.singleton_append, ← unlines]

omit [DecidableEq α] in
theorem unlines_append (lines more : List (List α)) :
    unlines sep (lines ++ more) = unlines sep lines ++ unlines sep more := List.flatMap_append

omit [DecidableEq α] in
theorem unlines_eq_intercalate {lines : List (List α)} (nonempty : lines ≠ []) :
    unlines sep lines = [sep].intercalate lines ++ [sep] := by
  induction lines with
  | nil => exact absurd rfl nonempty
  | cons line lines ih =>
      cases lines with
      | nil => simp [unlines]
      | cons next more =>
          rw [unlines_cons, ih (List.cons_ne_nil _ _), List.intercalate_cons_cons]
          simp

omit [DecidableEq α] in
/-- With an empty line at the end, `join` puts a separator behind every line. -/
theorem intercalate_concat_nil (lines : List (List α)) :
    [sep].intercalate (lines ++ [[]]) = unlines sep lines := by
  induction lines with
  | nil => simp [unlines]
  | cons line lines ih =>
      have more : lines ++ [[]] ≠ [] := by simp
      rw [unlines_cons, ← ih, List.cons_append]
      obtain ⟨next, rest, same⟩ := List.exists_cons_of_ne_nil more
      rw [same, List.intercalate_cons_cons]
      simp

omit [DecidableEq α] in
theorem length_le_length_unlines (lines : List (List α)) :
    lines.length ≤ (unlines sep lines).length := by
  induction lines with
  | nil => exact le_rfl
  | cons line lines ih =>
      rw [unlines_cons, List.length_append, List.length_cons, List.length_cons]
      omega

theorem completeLines_of_not_mem {last : List α} (free : sep ∉ last) :
    completeLines sep last = [] := by
  rw [completeLines, List.splitOn_eq_singleton free, List.dropLast_singleton]

theorem completeLines_unlines_append {lines : List (List α)}
    (free : ∀ line ∈ lines, sep ∉ line) (rest : List α) :
    completeLines sep (unlines sep lines ++ rest) = lines ++ completeLines sep rest := by
  induction lines with
  | nil => rfl
  | cons line lines ih =>
      have tail := ih fun l member => free l (List.mem_cons_of_mem _ member)
      rw [completeLines] at tail
      rw [completeLines, unlines_cons, List.append_assoc, List.cons_append,
        List.splitOn_append_cons_self, List.splitOn_eq_singleton (free line List.mem_cons_self),
        List.singleton_append, List.dropLast_cons_of_ne_nil (List.splitOn_ne_nil _ _), tail,
        List.cons_append]

theorem splitOn_unlines_append {lines : List (List α)} {last : List α}
    (free : ∀ line ∈ lines, sep ∉ line) (lastFree : sep ∉ last) :
    (unlines sep lines ++ last).splitOn sep = lines ++ [last] := by
  induction lines with
  | nil => exact List.splitOn_eq_singleton lastFree
  | cons line lines ih =>
      obtain ⟨here, others⟩ := List.forall_mem_cons.mp free
      rw [unlines_cons, List.append_assoc, List.cons_append, List.splitOn_append_cons_self,
        List.splitOn_eq_singleton here, ih others]
      rfl

theorem splitOn_unlines {lines : List (List α)} (free : ∀ line ∈ lines, sep ∉ line) :
    (unlines sep lines).splitOn sep = lines ++ [[]] := by
  have split := splitOn_unlines_append free List.not_mem_nil
  rw [List.append_nil] at split
  exact split

/-- Every sequence is its complete lines and a rest. -/
theorem exists_unlines_append (text : List α) :
    ∃ lines last, text = unlines sep lines ++ last ∧ (∀ line ∈ lines, sep ∉ line) ∧ sep ∉ last := by
  induction text with
  | nil => exact ⟨[], [], rfl, nofun, List.not_mem_nil⟩
  | cons c text ih =>
      obtain ⟨lines, last, rfl, free, lastFree⟩ := ih
      by_cases newline : c = sep
      · subst newline
        refine ⟨[] :: lines, last, ?_, ?_, lastFree⟩
        · rw [unlines_cons, List.nil_append, List.cons_append]
        · intro line member
          rcases List.mem_cons.mp member with rfl | later
          · exact List.not_mem_nil
          · exact free line later
      · have apart : ∀ {line : List α}, sep ∉ line → sep ∉ c :: line := fun out member => by
          rcases List.mem_cons.mp member with same | inside
          · exact newline same.symm
          · exact out inside
        cases lines with
        | nil => exact ⟨[], c :: last, rfl, nofun, apart lastFree⟩
        | cons line lines =>
            refine ⟨(c :: line) :: lines, last, ?_, ?_, lastFree⟩
            · rw [unlines_cons, unlines_cons, List.cons_append, List.cons_append]
            · intro l member
              rcases List.mem_cons.mp member with rfl | later
              · exact apart (free line List.mem_cons_self)
              · exact free l (List.mem_cons_of_mem _ later)

theorem completeLines_mono {text more : List α} (start : text <+: more) :
    completeLines sep text <+: completeLines sep more := by
  obtain ⟨lines, last, rfl, free, lastFree⟩ := @exists_unlines_append _ _ sep text
  obtain ⟨rest, rfl⟩ := start
  rw [completeLines_unlines_append free, completeLines_of_not_mem lastFree, List.append_nil,
    List.append_assoc, completeLines_unlines_append free]
  exact List.prefix_append _ _

/-- The text is empty or ends with a separator. -/
def EndsLine (sep : α) (text : List α) : Prop := ∀ c ∈ text.getLast?, c = sep

instance (sep : α) (text : List α) : Decidable (EndsLine sep text) := by
  unfold EndsLine
  infer_instance

theorem exists_unlines_of_endsLine {text : List α} (ends : EndsLine sep text) :
    ∃ lines, text = unlines sep lines ∧ ∀ line ∈ lines, sep ∉ line := by
  obtain ⟨lines, last, rfl, free, lastFree⟩ := @exists_unlines_append _ _ sep text
  cases last using List.reverseRecOn with
  | nil => exact ⟨lines, List.append_nil _, free⟩
  | append_singleton last c =>
      rw [EndsLine, ← List.append_assoc, List.getLast?_concat] at ends
      exact absurd (ends c rfl ▸ List.mem_append_right _ (List.mem_singleton_self _)) lastFree

end Opensquid.Lib.Lines
