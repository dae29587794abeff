import Opensquid.Lib.Base64
import Mathlib.Data.Rat.Defs
import Mathlib.Data.String.Basic
import Mathlib.Tactic.Common

/-!
# Values and their canonical JSON form

Bindings, arguments and checkpoint outputs are JavaScript values. A checkpoint
row stores `canonicalJsonStringify` of an output and gives `canonicalJsonParse`
of it back. `JSON.stringify` and `JSON.parse` are inverse to each other on what
`canonicalize` returns, so `restore` is `revive` after `canonicalize`.

A plain JSON value need not come back as it went in: an object that looks like
the envelope of a buffer comes back as a buffer, and `canonicalize` loses a key
`__proto__` because it assigns the copy's prototype. `restore_eq_iff` says that
nothing else is lost.
-/

namespace Opensquid.Durable

open Opensquid.Lib

/-- What a deep comparison of JavaScript values without methods can tell. The fields of
an object are listed in increasing key order and numbers are their values: neither
identity nor the order of insertion nor the sign of zero is part of a value. -/
inductive Value
  | undefined
  | null
  | bool (b : Bool)
  | num (n : ℚ)
  | str (s : String)
  | arr (items : List Value)
  | obj (fields : List (String × Value))
  | buffer (bytes : List UInt8)

namespace Value

/-! ## Fields -/

/-- The own property of that name. -/
def get {α : Type} (key : String) : List (String × α) → Option α
  | [] => none
  | (k, v) :: rest => if k = key then some v else get key rest

/-- `v?.[key]` on an object. -/
def field (key : String) : Value → Option Value
  | .obj fields => get key fields
  | _ => none

/-- The string a value is, when it is one. -/
def text : Value → Option String
  | .str s => some s
  | _ => none

/-- `typeof v[key] === 'string'`, with the string. -/
def textField (key : String) (v : Value) : Option String :=
  (v.field key).bind text

/-! ## Plain JSON -/

mutual

/-- Built from null, booleans, numbers, strings, arrays and objects. -/
def Plain : Value → Prop
  | .undefined => False
  | .buffer _ => False
  | .arr items => PlainItems items
  | .obj fields => (fields.map Prod.fst).Pairwise (· < ·) ∧ PlainFields fields
  | .null | .bool _ | .num _ | .str _ => True

def PlainItems : List Value → Prop
  | [] => True
  | v :: rest => v.Plain ∧ PlainItems rest

def PlainFields : List (String × Value) → Prop
  | [] => True
  | (_, v) :: rest => v.Plain ∧ PlainFields rest

end

mutual

/-- Plain JSON with byte arrays in it. -/
def Built : Value → Prop
  | .undefined => False
  | .arr items => BuiltItems items
  | .obj fields => (fields.map Prod.fst).Pairwise (· < ·) ∧ BuiltFields fields
  | .null | .bool _ | .num _ | .str _ | .buffer _ => True

def BuiltItems : List Value → Prop
  | [] => True
  | v :: rest => v.Built ∧ BuiltItems rest

def BuiltFields : List (String × Value) → Prop
  | [] => True
  | (_, v) :: rest => v.Built ∧ BuiltFields rest

end

mutual

theorem Plain.built : ∀ {v : Value}, v.Plain → v.Built
  | .undefined, plain => plain
  | .buffer _, plain => plain.elim
  | .null, _ | .bool _, _ | .num _, _ | .str _, _ => trivial
  | .arr _, plain => PlainItems.built plain
  | .obj _, plain => ⟨plain.1, PlainFields.built plain.2⟩

theorem PlainItems.built : ∀ {items : List Value}, PlainItems items → BuiltItems items
  | [], _ => trivial
  | _ :: _, plain => ⟨plain.1.built, PlainItems.built plain.2⟩

theorem PlainFields.built : ∀ {fields : List (String × Value)}, PlainFields fields → BuiltFields fields
  | [], _ => trivial
  | (_, _) :: _, plain => ⟨plain.1.built, PlainFields.built plain.2⟩

end

/-! ## canonicalize and revive -/

def isUndefined : Value → Bool
  | .undefined => true
  | _ => false

/-- `isBase64Envelope`, with the data. -/
def base64Envelope (v : Value) : Option String :=
  if v.textField "__type" = some "base64" then v.textField "data" else none

mutual

/-- The shape that is handed to `JSON.stringify`. Assigning the key `__proto__`
of the copy sets its prototype, so no such key is written. -/
def canonicalize : Value → Value
  | .buffer bytes => .obj [("__type", .str "base64"), ("data", .str (Base64.encode bytes))]
  | .arr items => .arr (canonicalizeItems items)
  | .obj fields => .obj (canonicalizeFields fields)
  | .undefined => .undefined
  | .null => .null
  | .bool b => .bool b
  | .num n => .num n
  | .str s => .str s

def canonicalizeItems : List Value → List Value
  | [] => []
  | v :: rest => (if v.isUndefined then .null else canonicalize v) :: canonicalizeItems rest

def canonicalizeFields : List (String × Value) → List (String × Value)
  | [] => []
  | (key, v) :: rest =>
      if v.isUndefined ∨ key = "__proto__" then canonicalizeFields rest
      else (key, canonicalize v) :: canonicalizeFields rest

end

mutual

/-- What `canonicalJsonParse` makes of parsed JSON. -/
def revive : Value → Value
  | .arr items => .arr (reviveItems items)
  | .obj fields =>
      match base64Envelope (.obj fields) with
      | some data => .buffer (Base64.decode data)
      | none => .obj (reviveFields fields)
  | .buffer bytes => .buffer bytes
  | .undefined => .undefined
  | .null => .null
  | .bool b => .bool b
  | .num n => .num n
  | .str s => .str s

def reviveItems : List Value → List Value
  | [] => []
  | v :: rest => revive v :: reviveItems rest

def reviveFields : List (String × Value) → List (String × Value)
  | [] => []
  | (key, v) :: rest =>
      if key = "__proto__" then reviveFields rest else (key, revive v) :: reviveFields rest

end

/-- The value a checkpoint row gives back for an output. -/
def restore (v : Value) : Value := revive (canonicalize v)

/-! ## What survives -/

mutual

/-- No object in the value looks like the envelope of a buffer or has a key
`__proto__`. -/
def Survives : Value → Prop
  | .arr items => SurvivesItems items
  | .obj fields => base64Envelope (.obj fields) = none ∧ SurvivesFields fields
  | .undefined | .null | .bool _ | .num _ | .str _ | .buffer _ => True

def SurvivesItems : List Value → Prop
  | [] => True
  | v :: rest => v.Survives ∧ SurvivesItems rest

def SurvivesFields : List (String × Value) → Prop
  | [] => True
  | (key, v) :: rest => key ≠ "__proto__" ∧ v.Survives ∧ SurvivesFields rest

end

/-! ## Reading through the round trip -/

theorem text_canonicalize (v : Value) : (canonicalize v).text = v.text := by
  cases v <;> rfl

theorem text_revive (v : Value) : (revive v).text = v.text := by
  cases v with
  | obj fields =>
      simp only [revive]
      split <;> rfl
  | undefined | null | bool | num | str | arr | buffer => rfl

theorem Built.not_isUndefined {v : Value} (built : v.Built) : v.isUndefined = false := by
  cases v with
  | undefined => exact built.elim
  | null | bool | num | str | arr | obj | buffer => rfl

theorem get_canonicalizeFields {key : String} (named : key ≠ "__proto__") :
    ∀ {fields : List (String × Value)}, BuiltFields fields →
      get key (canonicalizeFields fields) = (get key fields).map canonicalize
  | [], _ => rfl
  | (k, v) :: rest, ⟨head, tail⟩ => by
      simp only [canonicalizeFields, head.not_isUndefined, Bool.false_eq_true, false_or]
      by_cases proto : k = "__proto__"
      · rw [if_pos proto, get_canonicalizeFields named tail, get, if_neg]
        exact fun same => named (same.symm.trans proto)
      · rw [if_neg proto, get, get]
        split
        · rfl
        · exact get_canonicalizeFields named tail

theorem get_reviveFields {key : String} (named : key ≠ "__proto__") :
    ∀ (fields : List (String × Value)), get key (reviveFields fields) = (get key fields).map revive
  | [] => rfl
  | (k, v) :: rest => by
      rw [reviveFields]
      by_cases proto : k = "__proto__"
      · rw [if_pos proto, get_reviveFields named rest, get, if_neg]
        exact fun same => named (same.symm.trans proto)
      · rw [if_neg proto, get, get]
        split
        · rfl
        · exact get_reviveFields named rest

theorem textField_canonicalize {key : String} (named : key ≠ "__proto__")
    {fields : List (String × Value)} (built : BuiltFields fields) :
    (Value.obj (canonicalizeFields fields)).textField key = (Value.obj fields).textField key := by
  simp only [textField, field, get_canonicalizeFields named built]
  cases get key fields with
  | none => rfl
  | some v => exact text_canonicalize v

/-- Canonical form neither makes nor removes an envelope. -/
theorem base64Envelope_canonicalize {fields : List (String × Value)} (built : BuiltFields fields) :
    base64Envelope (.obj (canonicalizeFields fields)) = base64Envelope (.obj fields) := by
  rw [base64Envelope, base64Envelope, textField_canonicalize (by decide) built,
    textField_canonicalize (by decide) built]

theorem restore_obj_of_envelope {fields : List (String × Value)} (built : BuiltFields fields)
    {data : String} (envelope : base64Envelope (.obj fields) = some data) :
    restore (.obj fields) = .buffer (Base64.decode data) := by
  simp only [restore, canonicalize, revive, base64Envelope_canonicalize built, envelope]

theorem restore_obj {fields : List (String × Value)} (built : BuiltFields fields)
    (ordinary : base64Envelope (.obj fields) = none) :
    restore (.obj fields) = .obj (reviveFields (canonicalizeFields fields)) := by
  simp only [restore, canonicalize, revive, base64Envelope_canonicalize built, ordinary]

/-- A field of an object that is not an envelope is restored on its own. -/
theorem get_restoreFields {key : String} (named : key ≠ "__proto__")
    {fields : List (String × Value)} (built : BuiltFields fields) :
    get key (reviveFields (canonicalizeFields fields)) = (get key fields).map restore := by
  rw [get_reviveFields named, get_canonicalizeFields named built, Option.map_map]
  rfl

theorem length_canonicalizeFields_le :
    ∀ fields : List (String × Value), (canonicalizeFields fields).length ≤ fields.length
  | [] => le_rfl
  | (_, _) :: rest => by
      rw [canonicalizeFields]
      have shorter := length_canonicalizeFields_le rest
      split <;> simp only [List.length_cons] <;> omega

theorem length_reviveFields_le :
    ∀ fields : List (String × Value), (reviveFields fields).length ≤ fields.length
  | [] => le_rfl
  | (_, _) :: rest => by
      rw [reviveFields]
      have shorter := length_reviveFields_le rest
      split <;> simp only [List.length_cons] <;> omega

mutual

/-- A value comes back from a checkpoint row unchanged exactly when it survives. -/
theorem restore_eq_iff_of_built : ∀ {v : Value}, v.Built → (restore v = v ↔ v.Survives)
  | .undefined, built => built.elim
  | .buffer bytes, _ => iff_of_true (congrArg Value.buffer (Base64.decode_encode bytes)) trivial
  | .null, _ | .bool _, _ | .num _, _ | .str _, _ => iff_of_true rfl trivial
  | .arr items, built => by
      rw [Survives, ← restoreItems_eq_iff built]
      exact Value.arr.injEq _ _ ▸ Iff.rfl
  | .obj fields, ⟨_, built⟩ => by
      rw [Survives, ← restoreFields_eq_iff built]
      cases envelope : base64Envelope (.obj fields) with
      | some data =>
          rw [restore_obj_of_envelope built envelope]
          exact iff_of_false Value.noConfusion fun h => Option.noConfusion rfl (heq_of_eq h.1)
      | none =>
          rw [restore_obj built envelope, Value.obj.injEq, eq_self, true_and]

theorem restoreItems_eq_iff : ∀ {items : List Value}, BuiltItems items →
    (reviveItems (canonicalizeItems items) = items ↔ SurvivesItems items)
  | [], _ => iff_of_true rfl trivial
  | v :: rest, ⟨head, tail⟩ => by
      rw [SurvivesItems, ← restore_eq_iff_of_built head, ← restoreItems_eq_iff tail,
        canonicalizeItems, head.not_isUndefined, if_neg Bool.false_ne_true, reviveItems,
        List.cons.injEq]
      rfl

theorem restoreFields_eq_iff : ∀ {fields : List (String × Value)}, BuiltFields fields →
    (reviveFields (canonicalizeFields fields) = fields ↔ SurvivesFields fields)
  | [], _ => iff_of_true rfl trivial
  | (key, v) :: rest, ⟨head, tail⟩ => by
      rw [SurvivesFields, ← restore_eq_iff_of_built head, ← restoreFields_eq_iff tail,
        canonicalizeFields, head.not_isUndefined]
      by_cases proto : key = "__proto__"
      · rw [if_pos (.inr proto)]
        refine iff_of_false (fun same => ?_) fun h => h.1 proto
        have shorter := (length_reviveFields_le _).trans (length_canonicalizeFields_le rest)
        rw [same, List.length_cons] at shorter
        omega
      · rw [if_neg (by simp [proto]), reviveFields, if_neg proto, List.cons.injEq, Prod.mk.injEq]
        simp only [proto, true_and, not_false_eq_true, ne_eq]
        rfl

end

/-- A plain JSON value comes back from a checkpoint row unchanged exactly when it
survives. -/
theorem restore_eq_iff {v : Value} (plain : v.Plain) : restore v = v ↔ v.Survives :=
  restore_eq_iff_of_built plain.built

end Value

end Opensquid.Durable
