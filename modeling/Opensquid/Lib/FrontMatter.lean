import Mathlib.Data.List.Nodup
import Opensquid.Lib.Lines

/-!
# Files with front matter

A file is a header between two fences and a body. `unfence` looks for the closing fence
from the left, so the file is read back as it was written when no line of the header is a
fence (`unfence_fence`); the body is arbitrary.
-/

namespace Opensquid.Lib.FrontMatter

open Lines

def fenceLine : List Char := ['-', '-', '-']

/-- `---\n<header>---\n<body>`. -/
def fence (header body : List Char) : List Char :=
  fenceLine ++ '\n' :: (header ++ (fenceLine ++ '\n' :: body))

/-- `indexOf("\n---\n")`: the text up to the line feed found, and what follows the fence. -/
def cut : List Char → Option (List Char × List Char)
  | [] => none
  | c :: rest =>
      if c = '\n' ∧ fenceLine ++ ['\n'] <+: rest then some (['\n'], rest.drop 4)
      else (cut rest).map fun (header, body) => (c :: header, body)

/-- The header and the body of a file. -/
def unfence (raw : List Char) : Option (List Char × List Char) :=
  if fenceLine ++ ['\n'] <+: raw then cut (raw.drop 4) else none

/-- A header of complete lines, none of them a fence. -/
def IsHeader (header : List Char) : Prop :=
  ∃ lines : List (List Char), lines ≠ [] ∧ header = unlines '\n' lines ∧
    ∀ line ∈ lines, '\n' ∉ line ∧ line ≠ fenceLine

theorem line_eq_of_start {line other more : List Char} (free : '\n' ∉ other)
    (start : line ++ ['\n'] <+: other ++ '\n' :: more) (free' : '\n' ∉ line) : line = other := by
  induction line generalizing other with
  | nil =>
      cases other with
      | nil => rfl
      | cons d other =>
          have same : '\n' = d := (List.cons_prefix_cons.mp start).1
          exact absurd (same ▸ List.mem_cons_self) free
  | cons c line ih =>
      cases other with
      | nil =>
          have same : c = '\n' := (List.cons_prefix_cons.mp start).1
          exact absurd (same ▸ List.mem_cons_self) free'
      | cons d other =>
          obtain ⟨same, rest⟩ := List.cons_prefix_cons.mp start
          rw [same, ih (fun mem => free (List.mem_cons_of_mem _ mem)) rest
            fun mem => free' (List.mem_cons_of_mem _ mem)]

/-- The search passes over a line. -/
theorem cut_line {line rest : List Char} (free : '\n' ∉ line) :
    cut (line ++ '\n' :: rest) =
      (cut ('\n' :: rest)).map fun (header, body) => (line ++ header, body) := by
  induction line with
  | nil =>
      rw [List.nil_append]
      cases cut ('\n' :: rest) <;> rfl
  | cons c line ih =>
      have other : c ≠ '\n' := fun same => free (same ▸ List.mem_cons_self)
      rw [List.cons_append, cut, if_neg (not_and_of_not_left _ other),
        ih fun mem => free (List.mem_cons_of_mem _ mem), Option.map_map]
      rfl

theorem cut_unlines {lines : List (List Char)} {body : List Char} (nonempty : lines ≠ [])
    (plain : ∀ line ∈ lines, '\n' ∉ line ∧ line ≠ fenceLine) :
    cut (unlines '\n' lines ++ (fenceLine ++ '\n' :: body)) = some (unlines '\n' lines, body) := by
  induction lines with
  | nil => exact absurd rfl nonempty
  | cons line lines ih =>
      rw [unlines_cons, List.append_assoc, List.cons_append, cut_line (plain line List.mem_cons_self).1]
      cases lines with
      | nil => rfl
      | cons next more =>
          -- the next line of the header is no fence
          have opened : ¬ fenceLine ++ ['\n'] <+:
              unlines '\n' (next :: more) ++ (fenceLine ++ '\n' :: body) := fun start => by
            obtain ⟨free, other⟩ := plain next (List.mem_cons_of_mem _ List.mem_cons_self)
            rw [unlines_cons, List.append_assoc, List.cons_append] at start
            exact other (line_eq_of_start free start (by decide)).symm
          rw [cut, if_neg (not_and_of_not_right _ opened),
            ih (List.cons_ne_nil _ _) fun l mem => plain l (List.mem_cons_of_mem _ mem),
            Option.map_some, Option.map_some]

/-- A file is read back as it was written. -/
theorem unfence_fence {header body : List Char} (isHeader : IsHeader header) :
    unfence (fence header body) = some (header, body) := by
  obtain ⟨lines, nonempty, rfl, plain⟩ := isHeader
  have opened : fenceLine ++ ['\n'] <+: fence (unlines '\n' lines) body :=
    ⟨unlines '\n' lines ++ (fenceLine ++ '\n' :: body), rfl⟩
  rw [unfence, if_pos opened]
  exact cut_unlines nonempty plain

/-! ## Documents -/

/-- A value of a header; the fields of a map are in the order they are printed. -/
inductive Value
  | null
  | bool (b : Bool)
  | num (n : Nat)
  | str (s : String)
  | seq (items : List Value)
  | map (fields : List (String × Value))

namespace Value

mutual

/-- No map has two fields of one name. -/
def Wf : Value → Prop
  | .seq items => WfItems items
  | .map fields => (fields.map Prod.fst).Nodup ∧ WfFields fields
  | .null | .bool _ | .num _ | .str _ => True

def WfItems : List Value → Prop
  | [] => True
  | v :: items => v.Wf ∧ WfItems items

def WfFields : List (String × Value) → Prop
  | [] => True
  | (_, v) :: fields => v.Wf ∧ WfFields fields

end

theorem wfItems_iff {items : List Value} : WfItems items ↔ ∀ v ∈ items, v.Wf := by
  induction items with
  | nil => simp [WfItems]
  | cons v items ih => rw [WfItems, ih, List.forall_mem_cons]

theorem wfFields_iff {fields : List (String × Value)} :
    WfFields fields ↔ ∀ field ∈ fields, field.2.Wf := by
  induction fields with
  | nil => simp [WfFields]
  | cons field fields ih =>
      obtain ⟨key, v⟩ := field
      rw [WfFields, ih, List.forall_mem_cons]

def lookup : List (String × Value) → String → Option Value
  | [], _ => none
  | (name, v) :: fields, key => if name = key then some v else lookup fields key

/-- `v[key]`; undefined for what is not a map. -/
def field (key : String) : Value → Option Value
  | .map fields => lookup fields key
  | _ => none

@[simp] theorem field_map (key : String) (fields : List (String × Value)) :
    (map fields).field key = lookup fields key := rfl

/-- `...(v !== undefined ? { key: v } : {})`. -/
def optional (key : String) (v : Option Value) : List (String × Value) :=
  (v.map (Prod.mk key)).toList

@[simp] theorem lookup_nil (key : String) : lookup [] key = none := rfl

@[simp] theorem lookup_cons (name key : String) (v : Value) (fields : List (String × Value)) :
    lookup ((name, v) :: fields) key = if name = key then some v else lookup fields key := rfl

@[simp] theorem lookup_append (fields more : List (String × Value)) (key : String) :
    lookup (fields ++ more) key = (lookup fields key).or (lookup more key) := by
  induction fields with
  | nil => rfl
  | cons field fields ih =>
      obtain ⟨name, v⟩ := field
      rw [List.cons_append, lookup_cons, lookup_cons, ih]
      split <;> rfl

@[simp] theorem lookup_optional (name key : String) (v : Option Value) :
    lookup (optional name v) key = if name = key then v else none := by
  cases v <;> simp [optional]

theorem mem_of_lookup {fields : List (String × Value)} {key : String} {v : Value}
    (found : lookup fields key = some v) : (key, v) ∈ fields := by
  induction fields with
  | nil => cases found
  | cons field fields ih =>
      obtain ⟨name, w⟩ := field
      rw [lookup_cons] at found
      split at found
      · rename_i same
        cases found
        exact same ▸ List.mem_cons_self
      · exact List.mem_cons_of_mem _ (ih found)

theorem keys_optional_sublist (key : String) (v : Option Value) :
    ((optional key v).map Prod.fst).Sublist [key] := by
  cases v with
  | none => exact List.nil_sublist _
  | some v => exact .refl _

@[simp] theorem wfFields_append {fields more : List (String × Value)} :
    WfFields (fields ++ more) ↔ WfFields fields ∧ WfFields more := by
  rw [wfFields_iff, wfFields_iff, wfFields_iff, List.forall_mem_append]

theorem wf_optional {key : String} {v : Option Value} (wf : ∀ w ∈ v, w.Wf) :
    WfFields (optional key v) := by
  refine wfFields_iff.mpr fun field mem => ?_
  obtain ⟨w, here, rfl⟩ := Option.map_eq_some_iff.mp (Option.mem_toList.mp mem)
  exact wf w here

@[simp] theorem wf_optional_str (key : String) (s : Option String) :
    WfFields (optional key (s.map str)) := by
  refine wf_optional fun w here => ?_
  obtain ⟨_, _, rfl⟩ := Option.map_eq_some_iff.mp here
  trivial

/-- An object literal's assignment to one field. -/
def set (key : String) (v : Value) : List (String × Value) → List (String × Value)
  | [] => [(key, v)]
  | (name, w) :: fields => if name = key then (key, v) :: fields else (name, w) :: set key v fields

theorem lookup_set_self (key : String) (v : Value) (fields : List (String × Value)) :
    lookup (set key v fields) key = some v := by
  induction fields with
  | nil => exact if_pos rfl
  | cons field fields ih =>
      obtain ⟨name, w⟩ := field
      rw [set]
      split
      · exact if_pos rfl
      · rename_i other
        rw [lookup_cons, if_neg other, ih]

theorem set_of_lookup {key : String} {v : Value} {fields : List (String × Value)}
    (present : lookup fields key = some v) : set key v fields = fields := by
  induction fields with
  | nil => cases present
  | cons field fields ih =>
      obtain ⟨name, w⟩ := field
      rw [lookup_cons] at present
      rw [set]
      split at present
      · rename_i same
        cases present
        rw [if_pos same, same]
      · rename_i other
        rw [if_neg other, ih present]

theorem mem_set {key : String} {v : Value} {fields : List (String × Value)} {field : String × Value}
    (mem : field ∈ set key v fields) : field = (key, v) ∨ field ∈ fields := by
  induction fields with
  | nil => exact .inl (List.mem_singleton.mp mem)
  | cons first fields ih =>
      obtain ⟨name, w⟩ := first
      rw [set] at mem
      split at mem
      · rcases List.mem_cons.mp mem with rfl | later
        · exact .inl rfl
        · exact .inr (List.mem_cons_of_mem _ later)
      · rcases List.mem_cons.mp mem with rfl | later
        · exact .inr List.mem_cons_self
        · exact (ih later).imp id (List.mem_cons_of_mem _)

theorem nodup_keys_set {key : String} {v : Value} {fields : List (String × Value)}
    (distinct : (fields.map Prod.fst).Nodup) : ((set key v fields).map Prod.fst).Nodup := by
  induction fields with
  | nil => exact List.nodup_singleton _
  | cons first fields ih =>
      obtain ⟨name, w⟩ := first
      rw [List.map_cons, List.nodup_cons] at distinct
      rw [set]
      split
      · rename_i same
        exact List.nodup_cons.mpr ⟨same ▸ distinct.1, distinct.2⟩
      · rename_i other
        refine List.nodup_cons.mpr ⟨fun mem => ?_, ih distinct.2⟩
        obtain ⟨field, inside, same⟩ := List.mem_map.mp mem
        rcases mem_set inside with rfl | old
        · exact other same.symm
        · exact distinct.1 (List.mem_map.mpr ⟨field, old, same⟩)

/-- `a ?? b`. -/
def coalesce (a b : Option Value) : Option Value :=
  match a with
  | none | some .null => b
  | some v => some v

/-- `typeof v === "string"`. -/
def string? : Value → Option String
  | .str s => some s
  | _ => none

@[simp] theorem string?_str (s : String) : (str s).string? = some s := rfl

@[simp] theorem bind_string?_map_str (s : Option String) : (s.map str).bind string? = s := by
  cases s <;> rfl

/-- `typeof v === "number"`. -/
def number? : Value → Option Nat
  | .num n => some n
  | _ => none

@[simp] theorem number?_num (n : Nat) : (num n).number? = some n := rfl

@[simp] theorem bind_number?_map_num (n : Option Nat) : (n.map num).bind number? = n := by
  cases n <;> rfl

/-- `Array.isArray(v)`. -/
def array? : Value → Option (List Value)
  | .seq items => some items
  | _ => none

def strings (items : List String) : Value := .seq (items.map .str)

theorem wf_of_lookup {fields : List (String × Value)} (wf : (map fields).Wf) {key : String}
    {v : Value} (found : lookup fields key = some v) : v.Wf :=
  wfFields_iff.mp wf.2 (key, v) (mem_of_lookup found)

theorem wf_of_field {key : String} {v w : Value} (wf : v.Wf) (found : v.field key = some w) :
    w.Wf := by
  cases v with
  | map => exact wf_of_lookup wf found
  | null | bool | num | str | seq => cases found

theorem wf_of_array? {v : Value} {items : List Value} (wf : v.Wf) (array : v.array? = some items) :
    WfItems items := by
  cases v with
  | seq => cases array; exact wf
  | null | bool | num | str | map => cases array

/-- The strings of an array of strings. -/
def strings? (v : Value) : Option (List String) := v.array?.map (List.filterMap string?)

theorem wf_strings (items : List String) : (strings items).Wf := by
  refine wfItems_iff.mpr fun v mem => ?_
  obtain ⟨s, _, rfl⟩ := List.mem_map.mp mem
  trivial

@[simp] theorem strings?_strings (items : List String) : (strings items).strings? = some items := by
  rw [strings, strings?, array?, Option.map_some, List.filterMap_map]
  exact congrArg some (List.filterMap_some)

@[simp] theorem bind_strings?_map_strings (items : Option (List String)) :
    (items.map strings).bind strings? = items := by
  cases items with
  | none => rfl
  | some items => exact strings?_strings items

end Value

/-- A library that prints a value as a header and reads it back. -/
structure Codec where
  stringify : Value → List Char
  /-- None: it throws. -/
  parse : List Char → Option Value
  header (v : Value) : IsHeader (stringify v)
  wf_of_parse {text : List Char} {v : Value} : parse text = some v → v.Wf
  parse_stringify (v : Value) : v.Wf → parse (stringify v) = some v

end Opensquid.Lib.FrontMatter
