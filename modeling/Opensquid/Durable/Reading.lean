import Opensquid.Durable.Evaluator

/-!
# What the loop reads of an outcome

Of a terminal value the loop reads a part, of another one that it binds the whole. A restored
output is read as the output itself exactly if the output is `Unharmed`
(`reading_restore_iff`), and readings decide how the loop goes on (`afterCall_eq`).
-/

namespace Opensquid.Durable

/-! ## Outputs the loop cannot tell from their restored form -/

/-- The loop reads the same from the value and from its restored form. Of a
terminal value it reads a part only. -/
def Unharmed (fn : String) (v : Value) : Prop :=
  if fn = "verdict" ∧ isVerdict v = true then
    if v.textField "level" = some "directive" then
      v.base64Envelope = none ∧ ∀ action ∈ v.field "next_action", action.Survives
    else v.Survives
  else v.Survives ∨ ((injectedContext v).isSome ∧ v.base64Envelope = none)

namespace Value

theorem plain_of_get {key : String} {v : Value} : ∀ {fields : List (String × Value)},
    PlainFields fields → get key fields = some v → v.Plain
  | [], _, read => nomatch read
  | (k, w) :: rest, ⟨head, tail⟩, read => by
      rw [get] at read
      split at read
      · exact Option.some.inj read ▸ head
      · exact plain_of_get tail read

theorem Plain.field {key : String} {v w : Value} (plain : v.Plain) (read : v.field key = some w) :
    w.Plain := by
  cases v with
  | obj fields => exact plain_of_get plain.2 read
  | undefined | null | bool | num | str | arr | buffer => cases read

/-- A value that is not an envelope is restored field by field. -/
theorem field_restore {v : Value} (plain : v.Plain) (ordinary : v.base64Envelope = none)
    {key : String} (named : key ≠ "__proto__") :
    (restore v).field key = (v.field key).map restore := by
  cases v with
  | obj fields =>
      rw [restore_obj plain.2.built ordinary]
      exact get_restoreFields named plain.2.built
  | undefined => exact plain.elim
  | buffer => exact plain.elim
  | null | bool | num | str | arr => rfl

theorem textField_restore {v : Value} (plain : v.Plain) (ordinary : v.base64Envelope = none)
    {key : String} (named : key ≠ "__proto__") :
    (restore v).textField key = v.textField key := by
  rw [textField, field_restore plain ordinary named, textField]
  cases v.field key with
  | none => rfl
  | some w => exact (text_revive _).trans (text_canonicalize w)

/-- An envelope has lost its fields. -/
theorem field_restore_of_envelope {v : Value} (plain : v.Plain) {data : String}
    (envelope : v.base64Envelope = some data) (key : String) : (restore v).field key = none := by
  cases v with
  | obj fields =>
      rw [restore_obj_of_envelope plain.2.built envelope]
      rfl
  | undefined => exact plain.elim
  | buffer => exact plain.elim
  | null | bool | num | str | arr => rfl

theorem Survives.base64Envelope {v : Value} (survives : v.Survives) : v.base64Envelope = none := by
  cases v with
  | obj fields => exact survives.1
  | undefined | null | bool | num | str | arr | buffer => rfl

theorem Survives.get {key : String} {v : Value} : ∀ {fields : List (String × Value)},
    SurvivesFields fields → Value.get key fields = some v → v.Survives
  | [], _, read => nomatch read
  | (k, w) :: rest, ⟨_, head, tail⟩, read => by
      rw [Value.get] at read
      split at read
      · exact Option.some.inj read ▸ head
      · exact Survives.get tail read

end Value

theorem isObject_restore (v : Value) : isObject v.restore = isObject v := by
  cases v with
  | obj fields =>
      simp only [Value.restore, Value.canonicalize, Value.revive]
      split <;> rfl
  | buffer bytes => rfl
  | undefined | null | bool | num | str | arr => rfl

theorem isVerdict_restore {v : Value} (plain : v.Plain) (ordinary : v.base64Envelope = none) :
    isVerdict v.restore = isVerdict v := by
  rw [isVerdict, isVerdict, Value.textField_restore plain ordinary (by decide),
    Value.textField_restore plain ordinary (by decide),
    Value.field_restore plain ordinary (by decide)]
  cases v.field "next_action" with
  | none => rfl
  | some action => simp only [Option.map_some, Option.any_some, isObject_restore]

theorem injectedContext_restore {v : Value} (plain : v.Plain)
    (ordinary : v.base64Envelope = none) : injectedContext v.restore = injectedContext v := by
  rw [injectedContext, injectedContext, Value.textField_restore plain ordinary (by decide),
    Value.textField_restore plain ordinary (by decide)]

theorem isVerdict_restore_of_envelope {v : Value} (plain : v.Plain) {data : String}
    (envelope : v.base64Envelope = some data) : isVerdict v.restore = false := by
  simp only [isVerdict, Value.textField, Value.field_restore_of_envelope plain envelope,
    Option.bind_none]

theorem injectedContext_restore_of_envelope {v : Value} (plain : v.Plain) {data : String}
    (envelope : v.base64Envelope = some data) : injectedContext v.restore = none := by
  simp only [injectedContext, Value.textField, Value.field_restore_of_envelope plain envelope,
    Option.bind_none, reduceCtorEq, if_false]

theorem verdictResult_restore {v : Value} (plain : v.Plain) (ordinary : v.base64Envelope = none)
    (directive : v.textField "level" = some "directive")
    (survives : ∀ action ∈ v.field "next_action", action.Survives) :
    verdictResult v.restore = verdictResult v := by
  rw [verdictResult, verdictResult, Value.textField_restore plain ordinary (by decide),
    if_pos directive, if_pos directive, Value.field_restore plain ordinary (by decide)]
  cases action : v.field "next_action" with
  | none => rfl
  | some w => rw [Option.map_some, (Value.restore_eq_iff (plain.field action)).mpr (survives w action)]

/-- What the loop reads of an outcome. -/
inductive Reading
  | failed (message : String)
  | returned (result : RuleResult)
  | given (v : Value)

def reading (fn : String) : Except String Value → Reading
  | .error message => .failed message
  | .ok v =>
      if fn = "verdict" ∧ isVerdict v then .returned (verdictResult v)
      else
        match injectedContext v with
        | some content => .returned (.injectContext content)
        | none => .given v

theorem reading_of_terminal {fn : String} {v : Value} (terminal : fn = "verdict" ∧ isVerdict v = true) :
    reading fn (.ok v) = .returned (verdictResult v) := if_pos terminal

theorem reading_of_other {fn : String} {v : Value} (other : ¬ (fn = "verdict" ∧ isVerdict v = true)) :
    reading fn (.ok v) = ((injectedContext v).map fun content =>
      Reading.returned (.injectContext content)).getD (.given v) := by
  rw [reading, if_neg other]
  cases injectedContext v <;> rfl

theorem reading_ok_ne (fn : String) (v : Value) (message : String) :
    reading fn (.ok v) ≠ .failed message := by
  rw [reading]
  split
  · intro failed
    cases failed
  · split
    · intro failed
      cases failed
    · intro failed
      cases failed

/-- An output and its restored form are read alike exactly if the output is unharmed. -/
theorem reading_restore_iff {fn : String} {v : Value} (plain : v.Plain) :
    reading fn (.ok v.restore) = reading fn (.ok v) ↔ Unharmed fn v := by
  have bound : Reading.given v.restore = .given v ↔ v.Survives :=
    Iff.trans ⟨Reading.given.inj, congrArg _⟩ (Value.restore_eq_iff plain)
  rw [Unharmed]
  cases envelope : v.base64Envelope with
  | some data =>
      -- the restored buffer is bound, so the value itself must have been bound
      have harmed : ¬ v.Survives := fun survives => by
        cases survives.base64Envelope.symm.trans envelope
      have restored : reading fn (.ok v.restore) = .given v.restore := by
        rw [reading_of_other (by
            rw [isVerdict_restore_of_envelope plain envelope]
            exact fun both => Bool.false_ne_true both.2),
          injectedContext_restore_of_envelope plain envelope, Option.map_none, Option.getD_none]
      rw [restored]
      by_cases terminal : fn = "verdict" ∧ isVerdict v = true
      · rw [reading_of_terminal terminal, if_pos terminal]
        refine iff_of_false nofun fun unharmed => ?_
        split at unharmed
        · cases unharmed.1
        · exact harmed unharmed
      · rw [reading_of_other terminal, if_neg terminal]
        cases injectedContext v with
        | some content =>
            refine iff_of_false nofun ?_
            rintro (survives | ⟨_, ordinary⟩)
            · exact harmed survives
            · cases ordinary
        | none => exact bound.trans ⟨.inl, fun either => either.resolve_right nofun⟩
  | none =>
      by_cases terminal : fn = "verdict" ∧ isVerdict v = true
      · rw [reading_of_terminal terminal, if_pos terminal, reading_of_terminal (by
          rwa [isVerdict_restore plain envelope])]
        split
        · rename_i directive
          refine ⟨fun same => ⟨rfl, fun action read => ?_⟩, fun unharmed => congrArg _
            (verdictResult_restore plain envelope directive unharmed.2)⟩
          have results := Reading.returned.inj same
          rw [verdictResult, verdictResult, Value.textField_restore plain envelope (by decide),
            if_pos directive, if_pos directive, Value.field_restore plain envelope (by decide),
            read] at results
          exact (Value.restore_eq_iff (plain.field read)).mp (RuleResult.directive.inj results)
        · rename_i message
          rw [verdictResult, verdictResult, Value.textField_restore plain envelope (by decide),
            if_neg message, if_neg message, ← Value.restore_eq_iff plain]
          exact ⟨fun same => RuleResult.verdict.inj (Reading.returned.inj same),
            fun same => congrArg _ (congrArg _ same)⟩
      · rw [reading_of_other terminal, if_neg terminal, reading_of_other (by
          rwa [isVerdict_restore plain envelope]), injectedContext_restore plain envelope]
        cases injectedContext v with
        | some content => exact iff_of_true rfl (.inr ⟨rfl, rfl⟩)
        | none => exact bound.trans ⟨.inl, fun either => either.resolve_right nofun⟩

/-! ## One outcome -/

/-- What ends the loop after an outcome; otherwise it goes on. -/
def settle (i : Nat) (step : ProcessStep) : Reading → Option RuleResult
  | .failed message => if step.onError = some .continue then none else some (.error message i)
  | .returned result => some result
  | .given v =>
      if isEmpty v ∧ step.onEmpty = some .pass then some .noVerdict
      else if isEmpty v ∧ step.onEmpty = some .block then some (.verdict (returnedEmpty i))
      else none

theorem settle_given {i : Nat} {step : ProcessStep} {v : Value} (quiet : step.onEmpty = none) :
    settle i step (.given v) = none := by
  rw [settle, quiet, if_neg (fun both => nomatch both.2), if_neg (fun both => nomatch both.2)]

/-- What is bound when the loop goes on. -/
def Reading.bound : Reading → Value
  | .failed message => .str message
  | .returned _ => .undefined
  | .given v => v

section

variable {ρ : Type} (engine : Engine ρ)

def Engine.reading (fn : String) (result : Except String ρ) : Reading :=
  Durable.reading fn (result.map engine.contents)

/-- What a call binds to the name of its step. -/
def boundValue : Except String ρ → ρ
  | .ok value => value
  | .error message => engine.ofString message

theorem afterCall_eq (i : Nat) (step : ProcessStep) (bindings : Bindings ρ)
    (result : Except String ρ) :
    afterCall engine i step bindings result =
      ((settle i step (engine.reading step.call result)).map Next.done).getD
        (.go (bindAs step (boundValue engine result) bindings)) := by
  cases result with
  | error message =>
      rw [afterCall, Engine.reading, Except.map, reading, settle]
      split <;> rfl
  | ok value =>
      rw [afterCall, Engine.reading, Except.map, reading]
      split
      · rfl
      · cases injectedContext (engine.contents value) with
        | some content => rfl
        | none =>
            simp only [settle]
            split
            · rfl
            · split <;> rfl

variable {engine}

theorem reading_of_goesOn {i : Nat} {step : ProcessStep} {v : Value}
    (goesOn : settle i step (reading step.call (.ok v)) = none) :
    reading step.call (.ok v) = .given v := by
  rw [reading] at goesOn ⊢
  split
  · rename_i terminal
    rw [if_pos terminal] at goesOn
    cases goesOn
  · rename_i other
    rw [if_neg other] at goesOn
    cases injects : injectedContext v with
    | some content =>
        rw [injects] at goesOn
        cases goesOn
    | none => rfl

theorem contents_boundValue {i : Nat} {step : ProcessStep} {result : Except String ρ}
    (goesOn : settle i step (engine.reading step.call result) = none) :
    engine.contents (boundValue engine result) = (engine.reading step.call result).bound := by
  cases result with
  | error message => exact engine.contents_ofString message
  | ok value => exact (congrArg Reading.bound (reading_of_goesOn goesOn)).symm

theorem contentsOf_bindAs (step : ProcessStep) (value : ρ) (bindings : Bindings ρ) :
    engine.contentsOf (bindAs step value bindings) =
      bindAs step (engine.contents value) (engine.contentsOf bindings) := by
  rw [bindAs, bindAs]
  cases step.as with
  | none => rfl
  | some name => exact contentsOf_set engine bindings name value

theorem bindings_of_go {i : Nat} {step : ProcessStep} {bindings after : Bindings ρ}
    {result : Except String ρ} (go : afterCall engine i step bindings result = .go after) :
    settle i step (engine.reading step.call result) = none ∧
      after = bindAs step (boundValue engine result) bindings := by
  rw [afterCall_eq] at go
  cases settled : settle i step (engine.reading step.call result) with
  | some ended =>
      rw [settled] at go
      cases go
  | none =>
      rw [settled] at go
      exact ⟨rfl, (Next.go.inj go).symm⟩

end

end Opensquid.Durable
