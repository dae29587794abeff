import Mathlib.Data.List.Perm.Basic
import Mathlib.Data.Rat.Encodable
import Opensquid.Durable.Values
import Opensquid.Lib.JsonParse

/-!
# Canonical JSON as text

`canonicalJsonStringify` prints the canonical form of a value, `canonicalJsonParse` reads a text
and revives what it says. `parse_canonicalJsonStringify`: read back, a value is `restore` of
itself. So it comes back, and no other such value has its text, exactly when it survives
(`canonical_iff`).

A number is printed by the engine; what is used of that is that the text is a JSON number and
is read as the same one.
-/

namespace Opensquid.Durable

open Opensquid.Lib

/-- How the engine prints and reads finite numbers. -/
structure NumberText where
  print : ℚ → String
  /-- None: the text is beyond the finite numbers. -/
  read : String → Option ℚ
  isNumber (n : ℚ) : Json.isNumber (print n).toList = true
  read_print (n : ℚ) : read (print n) = some n

/-! ## The own keys of an object -/

/-- The index that the key is, where it is one. -/
def arrayIndex (key : String) : Option Nat :=
  key.toNat?.filter fun n => n < 4294967295 ∧ toString n = key

/-- The code units of a text. -/
def codeUnits (text : String) : List Nat :=
  text.toList.flatMap fun c =>
    if c.toNat < 0x10000 then [c.toNat]
    else [0xd800 + (c.toNat - 0x10000) / 0x400, 0xdc00 + (c.toNat - 0x10000) % 0x400]

/-- Indices come first, by their number, then the other keys, as they were sorted. -/
def keyLe (a b : String) : Bool :=
  match arrayIndex a, arrayIndex b with
  | some i, some j => i ≤ j
  | some _, none => true
  | none, some _ => false
  | none, none => ¬ codeUnits b < codeUnits a

/-- The fields in the order in which the engine lists the keys of the copy. -/
def enumerate {α : Type} (fields : List (String × α)) : List (String × α) :=
  fields.mergeSort fun x y => keyLe x.1 y.1

namespace Value

/-! ## Printing and reading -/

variable (number : NumberText)

mutual

/-- A canonical value as JSON; there is no byte array in it, and nothing undefined. -/
def toJson : Value → Json
  | .null => .null
  | .bool b => .bool b
  | .num n => .num (number.print n)
  | .str s => .str s
  | .arr items => .arr (toJsonItems items)
  | .obj fields => .obj (enumerate (toJsonFields fields))
  | .undefined => .null
  | .buffer _ => .null

def toJsonItems : List Value → List Json
  | [] => []
  | v :: items => toJson v :: toJsonItems items

def toJsonFields : List (String × Value) → List (String × Json)
  | [] => []
  | (key, v) :: fields => (key, toJson v) :: toJsonFields fields

end

/-- The text of a value; what is undefined has none. -/
def canonicalJsonStringify (v : Value) : Option (List Char) :=
  if v.isUndefined then none else some ((toJson number v.canonicalize).stringify)

/-- `o[key] = v` on a new object of the parser, in the order of the keys. -/
def setField (key : String) (v : Value) : List (String × Value) → List (String × Value)
  | [] => [(key, v)]
  | (k, w) :: fields =>
      if key < k then (key, v) :: (k, w) :: fields
      else if key = k then (key, v) :: fields
      else (k, w) :: setField key v fields

def ofFields (fields : List (String × Value)) : List (String × Value) :=
  fields.foldl (fun object field => setField field.1 field.2 object) []

mutual

def ofJson : Json → Option Value
  | .null => some .null
  | .bool b => some (.bool b)
  | .num text => (number.read text).map .num
  | .str s => some (.str s)
  | .arr items => (ofJsonItems items).map .arr
  | .obj fields => (ofJsonFields fields).map fun fields => .obj (ofFields fields)

def ofJsonItems : List Json → Option (List Value)
  | [] => some []
  | j :: items => do return (← ofJson j) :: (← ofJsonItems items)

def ofJsonFields : List (String × Json) → Option (List (String × Value))
  | [] => some []
  | (key, j) :: fields => do return (key, ← ofJson j) :: (← ofJsonFields fields)

end

/-- None: the text is no JSON, or holds a number that is not finite. -/
def canonicalJsonParse (text : List Char) : Option Value := do
  return (← ofJson number (← Json.parse text)).revive

/-! ## Fields in any order -/

variable {number}

theorem setField_perm {key : String} {v : Value} :
    ∀ {fields : List (String × Value)}, key ∉ fields.map Prod.fst →
      (setField key v fields).Perm ((key, v) :: fields)
  | [], _ => .refl _
  | (k, w) :: fields, new => by
      obtain ⟨other, later⟩ := not_or.mp (mt List.mem_cons.mpr new)
      rw [setField, if_neg other]
      split
      · exact .refl _
      · exact ((setField_perm later).cons _).trans (.swap ..)

theorem mem_setField {key : String} {v : Value} {x : String × Value} :
    ∀ {fields : List (String × Value)}, x ∈ setField key v fields → x = (key, v) ∨ x ∈ fields
  | [], mem => .inl (List.mem_singleton.mp mem)
  | (k, w) :: fields, mem => by
      rw [setField] at mem
      split at mem
      · exact List.mem_cons.mp mem
      · split at mem
        · exact (List.mem_cons.mp mem).imp_right (List.mem_cons_of_mem _)
        · rcases List.mem_cons.mp mem with first | later
          · exact .inr (first ▸ List.mem_cons_self)
          · exact (mem_setField later).imp_right (List.mem_cons_of_mem _)

/-- The keys go up. -/
def Sorted (fields : List (String × Value)) : Prop := fields.Pairwise fun x y => x.1 < y.1

theorem setField_sorted {key : String} {v : Value} : ∀ {fields : List (String × Value)},
    Sorted fields → Sorted (setField key v fields)
  | [], _ => List.pairwise_singleton _ _
  | (k, w) :: fields, sorted => by
      obtain ⟨first, rest⟩ := List.pairwise_cons.mp sorted
      rw [setField]
      split
      · rename_i before
        refine List.pairwise_cons.mpr ⟨fun x mem => ?_, sorted⟩
        rcases List.mem_cons.mp mem with rfl | later
        · exact before
        · exact before.trans (first x later)
      · rename_i notBefore
        split
        · rename_i same
          subst same
          exact List.pairwise_cons.mpr ⟨first, rest⟩
        · rename_i other
          have after : k < key := lt_of_le_of_ne (not_lt.mp notBefore) (Ne.symm other)
          refine List.pairwise_cons.mpr ⟨fun x mem => ?_, setField_sorted rest⟩
          rcases mem_setField mem with rfl | old
          · exact after
          · exact first x old

theorem foldl_setField_perm {fields object : List (String × Value)}
    (distinct : ((object ++ fields).map Prod.fst).Nodup) :
    (fields.foldl (fun object field => setField field.1 field.2 object) object).Perm
      (object ++ fields) := by
  induction fields generalizing object with
  | nil => rw [List.append_nil]; exact .refl _
  | cons field fields ih =>
      have new : field.1 ∉ object.map Prod.fst := by
        rw [List.map_append, List.nodup_append] at distinct
        exact fun mem => distinct.2.2 _ mem _ List.mem_cons_self rfl
      have placed : (setField field.1 field.2 object ++ fields).Perm (object ++ field :: fields) :=
        ((setField_perm new).append_right fields).trans List.perm_middle.symm
      exact (ih ((placed.map Prod.fst).nodup_iff.mpr distinct)).trans placed

theorem foldl_setField_sorted {fields object : List (String × Value)} (sorted : Sorted object) :
    Sorted (fields.foldl (fun object field => setField field.1 field.2 object) object) := by
  induction fields generalizing object with
  | nil => exact sorted
  | cons field fields ih => exact ih (setField_sorted sorted)

/-- Fields that are read in any order are the same object. -/
theorem ofFields_of_perm {read fields : List (String × Value)} (sorted : Sorted fields)
    (perm : read.Perm fields) : ofFields read = fields := by
  have distinct : (read.map Prod.fst).Nodup := by
    refine (perm.map Prod.fst).nodup_iff.mpr ?_
    exact (List.pairwise_map.mpr sorted).imp fun before => ne_of_lt before
  have gathered : (ofFields read).Perm ([] ++ read) := foldl_setField_perm distinct
  refine (gathered.trans perm).eq_of_pairwise
    (fun x y _ _ before after => absurd (before.trans after) (lt_irrefl _))
    (foldl_setField_sorted .nil) sorted

theorem ofJsonFields_perm {read fields : List (String × Json)} (perm : read.Perm fields) :
    ∀ {values}, ofJsonFields number fields = some values →
      ∃ values', ofJsonFields number read = some values' ∧ values'.Perm values := by
  induction perm with
  | nil => exact fun all => ⟨_, all, .refl _⟩
  | cons field _ ih =>
      intro values all
      obtain ⟨v, first, all⟩ := Option.bind_eq_some_iff.mp all
      obtain ⟨more, rest, all⟩ := Option.bind_eq_some_iff.mp all
      cases all
      obtain ⟨more', rest', perm⟩ := ih rest
      refine ⟨(field.1, v) :: more', ?_, perm.cons _⟩
      rw [ofJsonFields, first, rest']
      rfl
  | swap a b rest =>
      intro values all
      obtain ⟨v, first, all⟩ := Option.bind_eq_some_iff.mp all
      obtain ⟨more, others, all⟩ := Option.bind_eq_some_iff.mp all
      cases all
      obtain ⟨w, second, others⟩ := Option.bind_eq_some_iff.mp others
      obtain ⟨more, rest, others⟩ := Option.bind_eq_some_iff.mp others
      cases others
      refine ⟨(b.1, w) :: (a.1, v) :: more, ?_, .swap ..⟩
      rw [ofJsonFields, second, ofJsonFields, first, rest]
      rfl
  | trans _ _ ih₁ ih₂ =>
      intro values all
      obtain ⟨values', read, perm⟩ := ih₂ all
      obtain ⟨values'', read', perm'⟩ := ih₁ read
      exact ⟨values'', read', perm'.trans perm⟩

/-! ## The round trip -/

theorem keys_canonicalizeFields_sublist : ∀ fields : List (String × Value),
    ((canonicalizeFields fields).map Prod.fst).Sublist (fields.map Prod.fst)
  | [] => .refl _
  | (key, v) :: fields => by
      rw [canonicalizeFields]
      split
      · exact (keys_canonicalizeFields_sublist fields).cons _
      · exact (keys_canonicalizeFields_sublist fields).cons_cons _

mutual

/-- The fields of every object are listed once, in the order of their keys. -/
def Shaped : Value → Prop
  | .arr items => ShapedItems items
  | .obj fields => (fields.map Prod.fst).Pairwise (· < ·) ∧ ShapedFields fields
  | .undefined | .null | .bool _ | .num _ | .str _ | .buffer _ => True

def ShapedItems : List Value → Prop
  | [] => True
  | v :: items => v.Shaped ∧ ShapedItems items

def ShapedFields : List (String × Value) → Prop
  | [] => True
  | (_, v) :: fields => v.Shaped ∧ ShapedFields fields

end

mutual

theorem Built.shaped : ∀ {v : Value}, v.Built → v.Shaped
  | .undefined, _ | .null, _ | .bool _, _ | .num _, _ | .str _, _ | .buffer _, _ => trivial
  | .arr _, built => BuiltItems.shaped built
  | .obj _, built => ⟨built.1, BuiltFields.shaped built.2⟩

theorem BuiltItems.shaped : ∀ {items : List Value}, BuiltItems items → ShapedItems items
  | [], _ => trivial
  | _ :: _, built => ⟨built.1.shaped, BuiltItems.shaped built.2⟩

theorem BuiltFields.shaped : ∀ {fields : List (String × Value)}, BuiltFields fields →
    ShapedFields fields
  | [], _ => trivial
  | (_, _) :: _, built => ⟨built.1.shaped, BuiltFields.shaped built.2⟩

end

mutual

/-- The canonical form of what is defined is plain JSON. -/
theorem Shaped.plain_canonicalize : ∀ {v : Value}, v.Shaped → v.isUndefined = false →
    v.canonicalize.Plain
  | .undefined, _, defined => by cases defined
  | .null, _, _ | .bool _, _, _ | .num _, _, _ | .str _, _, _ => trivial
  | .buffer _, _, _ =>
      ⟨show ["__type", "data"].Pairwise (· < ·) by decide, trivial, trivial, trivial⟩
  | .arr _, shaped, _ => ShapedItems.plain_canonicalizeItems shaped
  | .obj fields, shaped, _ =>
      ⟨shaped.1.sublist (keys_canonicalizeFields_sublist fields),
        ShapedFields.plain_canonicalizeFields shaped.2⟩

theorem ShapedItems.plain_canonicalizeItems : ∀ {items : List Value}, ShapedItems items →
    PlainItems (canonicalizeItems items)
  | [], _ => trivial
  | _ :: _, shaped => by
      rw [canonicalizeItems]
      refine ⟨?_, ShapedItems.plain_canonicalizeItems shaped.2⟩
      split
      · trivial
      · rename_i defined
        exact shaped.1.plain_canonicalize (Bool.eq_false_iff.mpr defined)

theorem ShapedFields.plain_canonicalizeFields : ∀ {fields : List (String × Value)},
    ShapedFields fields → PlainFields (canonicalizeFields fields)
  | [], _ => trivial
  | (_, _) :: _, shaped => by
      rw [canonicalizeFields]
      split
      · exact ShapedFields.plain_canonicalizeFields shaped.2
      · rename_i kept
        have defined := Bool.eq_false_iff.mpr (not_or.mp kept).1
        exact ⟨shaped.1.plain_canonicalize defined, ShapedFields.plain_canonicalizeFields shaped.2⟩

end

variable (number)

mutual

theorem Plain.valid_toJson : ∀ {v : Value}, v.Plain → (toJson number v).Valid
  | .undefined, plain => plain.elim
  | .buffer _, plain => plain.elim
  | .null, _ | .bool _, _ | .str _, _ => trivial
  | .num n, _ => number.isNumber n
  | .arr _, plain => PlainItems.valid_toJsonItems plain
  | .obj _, plain => Json.validFields_iff.mpr fun field mem =>
      Json.validFields_iff.mp (PlainFields.valid_toJsonFields plain.2) field
        ((List.mergeSort_perm _ _).mem_iff.mp mem)

theorem PlainItems.valid_toJsonItems : ∀ {items : List Value}, PlainItems items →
    Json.ValidItems (toJsonItems number items)
  | [], _ => trivial
  | _ :: _, plain => ⟨plain.1.valid_toJson, PlainItems.valid_toJsonItems plain.2⟩

theorem PlainFields.valid_toJsonFields : ∀ {fields : List (String × Value)}, PlainFields fields →
    Json.ValidFields (toJsonFields number fields)
  | [], _ => trivial
  | (_, _) :: _, plain => ⟨plain.1.valid_toJson, PlainFields.valid_toJsonFields plain.2⟩

end

mutual

theorem Plain.ofJson_toJson : ∀ {v : Value}, v.Plain → ofJson number (toJson number v) = some v
  | .undefined, plain => plain.elim
  | .buffer _, plain => plain.elim
  | .null, _ | .bool _, _ | .str _, _ => rfl
  | .num n, _ => congrArg (Option.map Value.num) (number.read_print n)
  | .arr _, plain => congrArg (Option.map Value.arr) (PlainItems.ofJsonItems_toJsonItems plain)
  | .obj fields, plain => by
      obtain ⟨values, read, perm⟩ := ofJsonFields_perm (List.mergeSort_perm _ _)
        (PlainFields.ofJsonFields_toJsonFields plain.2)
      rw [toJson, ofJson, enumerate, read, Option.map_some,
        ofFields_of_perm (List.pairwise_map.mp plain.1) perm]

theorem PlainItems.ofJsonItems_toJsonItems : ∀ {items : List Value}, PlainItems items →
    ofJsonItems number (toJsonItems number items) = some items
  | [], _ => rfl
  | _ :: _, plain => by
      rw [toJsonItems, ofJsonItems, plain.1.ofJson_toJson,
        PlainItems.ofJsonItems_toJsonItems plain.2]
      rfl

theorem PlainFields.ofJsonFields_toJsonFields : ∀ {fields : List (String × Value)},
    PlainFields fields → ofJsonFields number (toJsonFields number fields) = some fields
  | [], _ => rfl
  | (_, _) :: _, plain => by
      rw [toJsonFields, ofJsonFields, plain.1.ofJson_toJson,
        PlainFields.ofJsonFields_toJsonFields plain.2]
      rfl

end

theorem canonicalJsonStringify_eq {v : Value} (defined : v.isUndefined = false) :
    canonicalJsonStringify number v = some (toJson number v.canonicalize).stringify := by
  rw [canonicalJsonStringify, defined, if_neg Bool.false_ne_true]

/-- The text of a canonical value is read as what it revives to. -/
theorem Plain.canonicalJsonParse_stringify {v : Value} (plain : v.Plain) :
    canonicalJsonParse number (toJson number v).stringify = some v.revive := by
  rw [canonicalJsonParse, Json.parse_stringify (plain.valid_toJson number)]
  dsimp only [bind, Option.bind]
  rw [plain.ofJson_toJson number]
  rfl

/-- Printed and read back, a value is restored. -/
theorem parse_canonicalJsonStringify {v : Value} (built : v.Built) :
    (canonicalJsonStringify number v).bind (canonicalJsonParse number) = some v.restore := by
  have plain := built.shaped.plain_canonicalize built.not_isUndefined
  rw [canonicalJsonStringify_eq number built.not_isUndefined, Option.bind_some]
  exact plain.canonicalJsonParse_stringify number

/-- Two values come back as they were, and have one text only if they are one value, exactly
when both survive. -/
theorem canonical_iff {v w : Value} (builtV : v.Built) (builtW : w.Built) :
    ((canonicalJsonStringify number v).bind (canonicalJsonParse number) = some v ∧
      (canonicalJsonStringify number w).bind (canonicalJsonParse number) = some w ∧
      (canonicalJsonStringify number v = canonicalJsonStringify number w ↔ v = w)) ↔
      v.Survives ∧ w.Survives := by
  rw [parse_canonicalJsonStringify number builtV, parse_canonicalJsonStringify number builtW,
    Option.some.injEq, Option.some.injEq, restore_eq_iff_of_built builtV,
    restore_eq_iff_of_built builtW]
  constructor
  · intro both
    exact ⟨both.1, both.2.1⟩
  · intro both
    refine ⟨both.1, both.2, fun same => ?_, fun same => by rw [same]⟩
    have read := parse_canonicalJsonStringify number builtV
    rw [same, parse_canonicalJsonStringify number builtW,
      (restore_eq_iff_of_built builtV).mpr both.1, (restore_eq_iff_of_built builtW).mpr both.2] at read
    exact (Option.some.inj read).symm

/-! ## Texts that are printed again -/

mutual

/-- No key is `__proto__`, and an object in the shape of an envelope is the one of its bytes. -/
def Stable : Value → Prop
  | .arr items => StableItems items
  | .obj fields =>
      match base64Envelope (.obj fields) with
      | some data => fields =
          [("__type", .str "base64"), ("data", .str (Base64.encode (Base64.decode data)))]
      | none => StableFields fields
  | .undefined | .null | .bool _ | .num _ | .str _ | .buffer _ => True

def StableItems : List Value → Prop
  | [] => True
  | v :: items => v.Stable ∧ StableItems items

def StableFields : List (String × Value) → Prop
  | [] => True
  | (key, v) :: fields => key ≠ "__proto__" ∧ v.Stable ∧ StableFields fields

end

theorem Plain.revive_defined {v : Value} (plain : v.Plain) : v.revive.isUndefined = false := by
  cases v with
  | undefined => exact plain.elim
  | obj fields =>
      rw [revive]
      split <;> rfl
  | null | bool | num | str | arr | buffer => rfl

mutual

/-- What a canonical value revives to has the same canonical form exactly when it is stable. -/
theorem canonicalize_revive_eq_iff : ∀ {v : Value}, v.Plain →
    (v.revive.canonicalize = v ↔ v.Stable)
  | .undefined, plain => plain.elim
  | .buffer _, plain => plain.elim
  | .null, _ | .bool _, _ | .num _, _ | .str _, _ => iff_of_true rfl trivial
  | .arr items, plain => by
      rw [Stable, ← canonicalizeItems_reviveItems_eq_iff plain]
      exact Value.arr.injEq _ _ ▸ Iff.rfl
  | .obj fields, plain => by
      rw [Stable, revive]
      cases base64Envelope (.obj fields) with
      | some data =>
          dsimp only
          rw [canonicalize, Value.obj.injEq]
          exact eq_comm
      | none =>
          dsimp only
          rw [canonicalize, Value.obj.injEq, canonicalizeFields_reviveFields_eq_iff plain.2]

theorem canonicalizeItems_reviveItems_eq_iff : ∀ {items : List Value}, PlainItems items →
    (canonicalizeItems (reviveItems items) = items ↔ StableItems items)
  | [], _ => iff_of_true rfl trivial
  | v :: items, plain => by
      rw [StableItems, ← canonicalize_revive_eq_iff plain.1,
        ← canonicalizeItems_reviveItems_eq_iff plain.2, reviveItems, canonicalizeItems,
        plain.1.revive_defined, if_neg Bool.false_ne_true, List.cons.injEq]

theorem canonicalizeFields_reviveFields_eq_iff : ∀ {fields : List (String × Value)},
    PlainFields fields → (canonicalizeFields (reviveFields fields) = fields ↔ StableFields fields)
  | [], _ => iff_of_true rfl trivial
  | (key, v) :: fields, plain => by
      rw [StableFields, ← canonicalize_revive_eq_iff plain.1,
        ← canonicalizeFields_reviveFields_eq_iff plain.2, reviveFields]
      by_cases proto : key = "__proto__"
      · rw [if_pos proto]
        refine iff_of_false (fun same => ?_) fun stable => stable.1 proto
        have shorter := (length_canonicalizeFields_le _).trans (length_reviveFields_le fields)
        rw [same, List.length_cons] at shorter
        omega
      · rw [if_neg proto, canonicalizeFields, plain.1.revive_defined, if_neg (by simp [proto]),
          List.cons.injEq, Prod.mk.injEq]
        simp only [proto, true_and, not_false_eq_true, ne_eq]

end

end Value

/-! ## Values and their texts -/

theorem isNumber_exponent {digits : List Char} (some' : digits ≠ [])
    (all : ∀ c ∈ digits, c.isDigit = true) : Json.isNumber ('1' :: 'e' :: digits) = true := by
  have unsigned : ¬ (digits.head? = some '-' ∨ digits.head? = some '+') := by
    intro signed
    rcases signed with minus | plus
    · exact absurd (all _ (List.mem_of_mem_head? minus)) (by decide)
    · exact absurd (all _ (List.mem_of_mem_head? plus)) (by decide)
  have exponent : Json.isExponent ('e' :: digits) = true := by
    rw [Json.isExponent, if_neg unsigned, Json.isDigits, List.all_eq_true.mpr all]
    simp [some']
  exact exponent

/-- A code for every number, and seven as the engine prints it. -/
def numberCode : NumberText where
  print n := if n = 7 then "7" else String.ofList ('1' :: 'e' :: Nat.toDigits 10 (Encodable.encode n))
  read text :=
    if text = "7" then some 7
    else Encodable.decode (Nat.ofDigitChars 10 (text.toList.drop 2) 0)
  isNumber n := by
    split
    · decide
    · rw [String.toList_ofList]
      exact isNumber_exponent Nat.toDigits_ne_nil fun c mem =>
        Nat.isDigit_of_mem_toDigits (by decide) (by decide) mem
  read_print n := by
    split
    · rename_i seven
      rw [if_pos rfl, seven]
    · rw [if_neg, String.toList_ofList, List.drop_succ_cons, List.drop_succ_cons, List.drop_zero,
        Nat.ofDigitChars_ten_toDigits, Encodable.encodek]
      intro same
      have chars := congrArg String.toList same
      rw [String.toList_ofList] at chars
      cases chars

/-- The outputs of a run: a number and the bytes of its log. -/
def runOutputs : Value := .obj [("log", .buffer [111, 107]), ("tries", .num 7)]

def noOutputs : Value := .arr [.null, .bool true]

theorem canonical_iff_runOutputs :
    (runOutputs.canonicalJsonStringify numberCode).bind (Value.canonicalJsonParse numberCode) =
      some runOutputs ∧
    (noOutputs.canonicalJsonStringify numberCode).bind (Value.canonicalJsonParse numberCode) =
      some noOutputs ∧
    (runOutputs.canonicalJsonStringify numberCode = noOutputs.canonicalJsonStringify numberCode ↔
      runOutputs = noOutputs) := by
  have builtRun : runOutputs.Built :=
    ⟨show ["log", "tries"].Pairwise (· < ·) by decide, trivial, trivial, trivial⟩
  have built : noOutputs.Built := ⟨trivial, trivial, trivial⟩
  refine (Value.canonical_iff numberCode builtRun built).mpr ⟨?_, trivial, trivial, trivial⟩
  exact ⟨rfl, by decide, trivial, by decide, trivial, trivial⟩

/-- An object as it describes bytes elsewhere. -/
def encodedBytes : Value := .obj [("__type", .str "base64"), ("data", .str "b2s=")]

/-- It comes back as bytes. -/
theorem envelope_read_as_bytes : encodedBytes.Built ∧
    (encodedBytes.canonicalJsonStringify numberCode).bind (Value.canonicalJsonParse numberCode) ≠
      some encodedBytes := by
  have built : encodedBytes.Built :=
    ⟨show ["__type", "data"].Pairwise (· < ·) by decide, trivial, trivial, trivial⟩
  have bytes : encodedBytes.restore = .buffer [111, 107] := rfl
  refine ⟨built, fun same => ?_⟩
  rw [Value.parse_canonicalJsonStringify numberCode built, bytes] at same
  cases same

end Opensquid.Durable
