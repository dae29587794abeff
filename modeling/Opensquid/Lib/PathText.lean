import Mathlib.Data.List.Basic
import Mathlib.Data.List.Infix

/-!
# Paths as text

A path is a text of names around a separator. `segs` splits it, `joinSegs` puts
it together; both are inverse to each other, `joinSegs` on names without the
separator. The tests that programs make on the text, equality and "starts with
the path and a separator", are prefix tests on the split form
(`eq_or_below_iff`).
-/

namespace Opensquid.Lib.PathText

variable {sep : Char}

/-- Split a path at every separator. -/
def segs (sep : Char) (path : String) : List String :=
  (path.toList.splitOn sep).map String.ofList

/-- The names around separators. -/
def joinSegs (sep : Char) (names : List String) : String :=
  (String.singleton sep).intercalate names

/-- `text.startsWith(start)`. -/
def startsWith (text start : String) : Bool :=
  start.toList.isPrefixOf text.toList

theorem startsWith_iff {text start : String} :
    startsWith text start = true ↔ ∃ rest, text = start ++ rest := by
  rw [startsWith, List.isPrefixOf_iff_prefix]
  constructor
  · rintro ⟨rest, same⟩
    refine ⟨String.ofList rest, String.toList_inj.mp ?_⟩
    rw [String.toList_append, String.toList_ofList, same]
  · rintro ⟨rest, rfl⟩
    exact ⟨rest.toList, String.toList_append.symm⟩

theorem segs_ne_nil (path : String) : segs sep path ≠ [] := by
  simp only [segs, ne_eq, List.map_eq_nil_iff, List.splitOn_ne_nil, not_false_eq_true]

theorem joinSegs_segs (path : String) : joinSegs sep (segs sep path) = path := by
  refine String.toList_inj.mp ?_
  rw [joinSegs, String.toList_intercalate, segs, List.map_map]
  have flat : String.toList ∘ String.ofList = id := by
    funext chars
    exact String.toList_ofList
  rw [flat, List.map_id, String.toList_singleton, List.intercalate_splitOn]

theorem segs_injective : Function.Injective (segs sep) := fun p q same => by
  rw [← @joinSegs_segs sep p, same, joinSegs_segs]

/-- What stands between separators contains none. -/
theorem not_mem_of_mem_splitOn {chars piece : List Char} (member : piece ∈ chars.splitOn sep) :
    sep ∉ piece := by
  induction chars generalizing piece with
  | nil =>
      rw [List.splitOn_nil, List.mem_singleton] at member
      subst member
      exact List.not_mem_nil
  | cons c chars ih =>
      rw [List.splitOn_cons_eq_if_modifyHead] at member
      split at member
      · rcases List.mem_cons.mp member with rfl | later
        · exact List.not_mem_nil
        · exact ih later
      · rename_i other
        obtain ⟨head, tail, pieces⟩ := List.exists_cons_of_ne_nil (List.splitOn_ne_nil sep chars)
        rw [pieces, List.modifyHead_cons] at member
        rcases List.mem_cons.mp member with rfl | later
        · intro inside
          rcases List.mem_cons.mp inside with same | inside
          · exact other (beq_iff_eq.mpr same.symm)
          · exact ih (pieces ▸ List.mem_cons_self) inside
        · exact ih (pieces ▸ List.mem_cons_of_mem _ later)

theorem not_mem_of_mem_segs {path name : String} (member : name ∈ segs sep path) :
    sep ∉ name.toList := by
  obtain ⟨piece, inside, rfl⟩ := List.mem_map.mp member
  rw [String.toList_ofList]
  exact not_mem_of_mem_splitOn inside

/-- A name without the separator is a path of one segment. -/
theorem segs_of_not_mem {name : String} (plain : sep ∉ name.toList) : segs sep name = [name] := by
  rw [segs, List.splitOn_eq_singleton plain, List.map_singleton, String.ofList_toList]

theorem segs_append_sep (p q : String) :
    segs sep (p ++ String.singleton sep ++ q) = segs sep p ++ segs sep q := by
  rw [segs, segs, segs, ← List.map_append, String.toList_append, String.toList_append,
    String.toList_singleton, List.append_assoc, List.singleton_append,
    List.splitOn_append_cons_self]

theorem joinSegs_append {l m : List String} (left : l ≠ []) (right : m ≠ []) :
    joinSegs sep (l ++ m) = joinSegs sep l ++ String.singleton sep ++ joinSegs sep m :=
  String.intercalate_append_of_ne_nil left right

theorem segs_joinSegs {names : List String} (plain : ∀ name ∈ names, sep ∉ name.toList)
    (nonempty : names ≠ []) : segs sep (joinSegs sep names) = names := by
  induction names with
  | nil => exact absurd rfl nonempty
  | cons head tail ih =>
      have headPlain := plain head List.mem_cons_self
      by_cases last : tail = []
      · subst last
        rw [joinSegs, String.intercalate_singleton, segs_of_not_mem headPlain]
      · rw [joinSegs, String.intercalate_cons_of_ne_nil last, segs_append_sep,
          segs_of_not_mem headPlain]
        exact congrArg (head :: ·) (ih (fun n member => plain n (List.mem_cons_of_mem _ member)) last)

/-- A path that contains the separator has several segments. -/
theorem segs_of_mem {path : String} (split : sep ∈ path.toList) :
    ∃ name next rest, segs sep path = name :: next :: rest := by
  obtain ⟨before, after, at_sep⟩ := List.append_of_mem split
  have parts : path = String.ofList before ++ String.singleton sep ++ String.ofList after := by
    refine String.toList_inj.mp ?_
    rw [String.toList_append, String.toList_append, String.toList_ofList, String.toList_ofList,
      String.toList_singleton, at_sep, List.append_assoc, List.singleton_append]
  rw [parts, segs_append_sep]
  obtain ⟨name, rest, left⟩ := List.exists_cons_of_ne_nil (@segs_ne_nil sep (.ofList before))
  obtain ⟨name', rest', right⟩ :=
    List.exists_cons_of_ne_nil (@segs_ne_nil sep (.ofList after))
  rw [left, right]
  cases rest with
  | nil => exact ⟨name, name', rest', rfl⟩
  | cons next rest => exact ⟨name, next, rest ++ name' :: rest', rfl⟩

/-- A text that goes on past a path and a separator has that path's segments
first and at least one more. -/
theorem below_iff {path text : String} :
    startsWith text (path ++ String.singleton sep) = true ↔
      ∃ rest, rest ≠ [] ∧ segs sep text = segs sep path ++ rest := by
  rw [startsWith_iff]
  constructor
  · rintro ⟨rest, rfl⟩
    exact ⟨segs sep rest, segs_ne_nil rest, segs_append_sep path rest⟩
  · rintro ⟨rest, nonempty, same⟩
    refine ⟨joinSegs sep rest, ?_⟩
    rw [← @joinSegs_segs sep text, same, joinSegs_append (segs_ne_nil path) nonempty,
      joinSegs_segs]

/-- Being the path or below it is a prefix of the segments. -/
theorem eq_or_below_iff {path text : String} :
    text = path ∨ startsWith text (path ++ String.singleton sep) = true ↔
      segs sep path <+: segs sep text := by
  rw [below_iff]
  constructor
  · rintro (rfl | ⟨rest, -, same⟩)
    · exact List.prefix_refl _
    · exact ⟨rest, same.symm⟩
  · rintro ⟨rest, same⟩
    by_cases last : rest = []
    · subst last
      rw [List.append_nil] at same
      exact .inl (segs_injective same).symm
    · exact .inr ⟨rest, last, same.symm⟩

end Opensquid.Lib.PathText
