import Mathlib.Data.List.DropRight
import Mathlib.Data.List.Infix

/-!
# The first occurrence of a part

`splitFirst` cuts a text at the first occurrence of a part. Which occurrence is the first does not
depend on what follows it (`splitFirst_append`), and an occurrence does not go across a separator
that the part does not have (`infix_append_cons`). Separators at the ends of a text are empty lines
at its ends (`dropWhile_intercalate`, `rdropWhile_intercalate`).
-/

namespace Opensquid.Lib

variable {α : Type*} {part before text : List α}

/-- Before the part at the end of `before ++ part` there is no other. -/
def Fresh (part : List α) : List α → Prop
  | [] => True
  | c :: before => ¬ part <+: c :: (before ++ part) ∧ Fresh part before

theorem prefix_append_cons {sep : α} {part left right : List α} (other : sep ∉ part)
    (start : part <+: left ++ sep :: right) : part <+: left := by
  induction left generalizing part with
  | nil =>
      cases part with
      | nil => exact List.prefix_refl []
      | cons d part =>
          obtain ⟨rfl, -⟩ := List.cons_prefix_cons.mp start
          exact absurd List.mem_cons_self other
  | cons c left ih =>
      cases part with
      | nil => exact List.nil_prefix
      | cons d part =>
          obtain ⟨same, next⟩ := List.cons_prefix_cons.mp start
          exact List.cons_prefix_cons.mpr
            ⟨same, ih (fun held => other (List.mem_cons_of_mem _ held)) next⟩

/-- An occurrence lies on one side of a separator. -/
theorem infix_append_cons {sep : α} (other : sep ∉ part) {left right : List α} :
    part <:+: left ++ sep :: right ↔ part <:+: left ∨ part <:+: right := by
  constructor
  · induction left with
    | nil =>
        rw [List.nil_append, List.infix_cons_iff]
        rintro (start | inside)
        · exact .inl (@prefix_append_cons _ sep part [] _ other start).isInfix
        · exact .inr inside
    | cons c left ih =>
        rw [List.cons_append, List.infix_cons_iff, List.infix_cons_iff]
        rintro (start | inside)
        · exact .inl (.inl (@prefix_append_cons _ sep part (c :: left) right other start))
        · rcases ih inside with inside | inside
          · exact .inl (.inr inside)
          · exact .inr inside
  · rintro (inside | inside)
    · exact inside.trans (List.prefix_append _ _).isInfix
    · exact inside.trans ((List.suffix_cons _ _).trans (List.suffix_append _ _)).isInfix

/-- An occurrence that shares no element with what follows lies before it. -/
theorem infix_of_append {after : List α} (solid : part ≠ []) (other : ∀ c ∈ part, c ∉ after)
    (inside : part <:+: before ++ after) : part <:+: before := by
  obtain ⟨front, back, same⟩ := inside
  rcases List.append_eq_append_iff.mp same with ⟨more, rfl, _⟩ | ⟨more, joined, rfl⟩
  · exact ⟨front, more, rfl⟩
  · rcases List.eq_nil_or_concat' more with rfl | ⟨more, c, rfl⟩
    · exact ⟨front, [], by rw [joined, List.append_nil, List.append_nil]⟩
    · have last : part.getLast solid = c := by
        have ends := congrArg List.getLast? joined
        rw [List.getLast?_append_of_ne_nil _ solid, List.getLast?_eq_some_getLast solid,
          ← List.append_assoc, List.getLast?_concat] at ends
        exact Option.some.inj ends
      refine absurd ?_ (other c (last ▸ List.getLast_mem solid))
      exact List.mem_append_left _ (List.mem_append_right _ (List.mem_singleton_self c))

/-- An occurrence lies in one of the lines. -/
theorem infix_intercalate {sep : α} (other : sep ∉ part) {lines : List (List α)}
    (solid : lines ≠ []) :
    part <:+: [sep].intercalate lines ↔ ∃ line ∈ lines, part <:+: line := by
  induction lines with
  | nil => exact absurd rfl solid
  | cons line rest ih =>
      cases rest with
      | nil => simp only [List.intercalate_singleton, List.mem_singleton, exists_eq_left]
      | cons next rest =>
          rw [List.intercalate_cons_cons, List.append_assoc, List.singleton_append,
            infix_append_cons other, ih (List.cons_ne_nil _ _)]
          simp only [List.mem_cons, exists_eq_or_imp]

theorem intercalate_concat (sep : α) {lines : List (List α)} (solid : lines ≠ []) (line : List α) :
    [sep].intercalate (lines ++ [line]) = [sep].intercalate lines ++ sep :: line := by
  induction lines with
  | nil => exact absurd rfl solid
  | cons first rest ih =>
      by_cases last : rest = []
      · subst last
        simp [List.intercalate_cons_cons]
      · have solid' := List.append_ne_nil_of_left_ne_nil last [line]
        rw [List.cons_append, List.intercalate_cons_of_ne_nil solid', ih last,
          List.intercalate_cons_of_ne_nil last]
        simp

/-- An occurrence behind a separator is the first if there is none before. -/
theorem fresh_concat {sep : α} (other : sep ∉ part) (absent : ¬ part <:+: before) :
    Fresh part (before ++ [sep]) := by
  have solid : part ≠ [] := fun empty => absent (empty ▸ List.nil_infix)
  induction before with
  | nil =>
      refine ⟨fun start => ?_, trivial⟩
      exact solid (List.prefix_nil.mp (@prefix_append_cons _ sep part [] _ other start))
  | cons c before ih =>
      rw [List.infix_cons_iff, not_or] at absent
      refine ⟨fun start => absent.1 (@prefix_append_cons _ sep part (c :: before) part other ?_),
        ih absent.2⟩
      have whole : c :: (before ++ [sep] ++ part) = c :: before ++ sep :: part := by
        rw [List.append_assoc]
        rfl
      exact whole ▸ start

section

variable [DecidableEq α]

/-- Separators in front are empty lines in front. -/
theorem dropWhile_intercalate {sep : α} {lines : List (List α)}
    (free : ∀ line ∈ lines, sep ∉ line) :
    ([sep].intercalate lines).dropWhile (· == sep) =
      [sep].intercalate (lines.dropWhile List.isEmpty) := by
  induction lines with
  | nil => rfl
  | cons first rest ih =>
      rw [List.forall_mem_cons] at free
      cases first with
      | nil =>
          rw [List.dropWhile_cons_of_pos rfl, ← ih free.2]
          by_cases last : rest = []
          · subst last
            rfl
          · rw [List.intercalate_cons_of_ne_nil last]
            exact List.dropWhile_cons_of_pos (beq_self_eq_true sep)
      | cons c first =>
          rw [List.dropWhile_cons_of_neg Bool.false_ne_true]
          have other : c ≠ sep := fun same => free.1 (same ▸ List.mem_cons_self)
          by_cases last : rest = []
          · subst last
            rw [List.intercalate_singleton, List.dropWhile_cons_of_neg (by simp [other])]
          · rw [List.intercalate_cons_of_ne_nil last, List.append_assoc, List.cons_append,
              List.dropWhile_cons_of_neg (by simp [other])]

theorem rdropWhile_intercalate {sep : α} {lines : List (List α)}
    (free : ∀ line ∈ lines, sep ∉ line) :
    ([sep].intercalate lines).rdropWhile (· == sep) =
      [sep].intercalate (lines.rdropWhile List.isEmpty) := by
  induction lines using List.reverseRecOn with
  | nil => rfl
  | append_singleton lines last ih =>
      rw [List.forall_mem_append, List.forall_mem_singleton] at free
      induction last using List.reverseRecOn with
      | nil =>
          rw [List.rdropWhile_concat_pos _ _ _ rfl, ← ih free.1]
          by_cases none : lines = []
          · subst none
            rfl
          · rw [intercalate_concat sep none,
              List.rdropWhile_concat_pos (· == sep) _ _ (beq_self_eq_true sep)]
      | append_singleton line c _ =>
          have other : ¬ (c == sep) = true := fun same =>
            free.2 (List.mem_append_right _ (List.mem_singleton.mpr (beq_iff_eq.mp same).symm))
          rw [List.rdropWhile_concat_neg List.isEmpty _ _ (by simp)]
          by_cases none : lines = []
          · subst none
            rw [List.nil_append, List.intercalate_singleton,
              List.rdropWhile_concat_neg (· == sep) _ _ other]
          · rw [intercalate_concat sep none, ← List.cons_append, ← List.append_assoc,
              List.rdropWhile_concat_neg (· == sep) _ _ other]

/-- The text before the first occurrence and the text behind it. -/
def splitFirst (part : List α) : List α → Option (List α × List α)
  | [] => if part = [] then some ([], []) else none
  | c :: text =>
      if part <+: c :: text then some ([], (c :: text).drop part.length)
      else (splitFirst part text).map fun halves => (c :: halves.1, halves.2)

theorem splitFirst_append (fresh : Fresh part before) (text : List α) :
    splitFirst part (before ++ part ++ text) = some (before, text) := by
  induction before with
  | nil =>
      rw [List.nil_append]
      cases whole : part ++ text with
      | nil =>
          obtain ⟨rfl, rfl⟩ := List.append_eq_nil_iff.mp whole
          rfl
      | cons c rest =>
          rw [splitFirst, ← whole, if_pos (List.prefix_append _ _), List.drop_left]
  | cons c before ih =>
      have absent : ¬ part <+: c :: (before ++ part ++ text) := by
        intro start
        have shorter : part.length ≤ (c :: (before ++ part)).length := by
          simp only [List.length_cons, List.length_append]
          omega
        exact fresh.1 (List.prefix_of_prefix_length_le start
          (List.prefix_append (c :: (before ++ part)) text) shorter)
      rw [List.cons_append, List.cons_append, splitFirst, if_neg absent, ih fresh.2]
      rfl

theorem exists_of_splitFirst {halves : List α × List α} (split : splitFirst part text = some halves) :
    text = halves.1 ++ part ++ halves.2 ∧ Fresh part halves.1 := by
  induction text generalizing halves with
  | nil =>
      unfold splitFirst at split
      split at split
      next empty =>
        subst empty
        cases split
        exact ⟨rfl, trivial⟩
      · cases split
  | cons c text ih =>
      unfold splitFirst at split
      split at split
      next start =>
        obtain ⟨rest, whole⟩ := start
        cases split
        rw [← whole, List.drop_left]
        exact ⟨rfl, trivial⟩
      next absent =>
        obtain ⟨inner, found, rfl⟩ := Option.map_eq_some_iff.mp split
        obtain ⟨rfl, fresh⟩ := ih found
        refine ⟨rfl, fun start => absent ?_, fresh⟩
        exact start.trans (List.prefix_append (c :: (inner.1 ++ part)) inner.2)

theorem splitFirst_eq_none : splitFirst part text = none ↔ ¬ part <:+: text := by
  induction text with
  | nil =>
      unfold splitFirst
      split
      next empty => simp [empty]
      next solid => simp [solid]
  | cons c text ih =>
      rw [splitFirst, List.infix_cons_iff, not_or]
      split
      next start => simp [start]
      next absent =>
        rw [Option.map_eq_none_iff, ih]
        exact (and_iff_right absent).symm

end

end Opensquid.Lib
