import Mathlib.Logic.Basic

/-!
# Steps that may fail

A step changes a state and comes to a result or to an error; an error does not undo what the step
has done. `Ends` says what a step comes to (`ends_bind` for two steps one after the other). A step
that catches its errors always ends (`settles_tryCatch`), and so do steps put together from such
(`Settles.bind`).
-/

namespace Opensquid.Lib

abbrev Fallible (σ ε : Type) := ExceptT ε (StateM σ)

namespace Fallible

variable {σ ε α β : Type} {s s' t t' : σ} {step : Fallible σ ε α} {next : α → Fallible σ ε β}

/-- The step comes to this result and state. -/
def Ends (step : Fallible σ ε α) (s : σ) (a : α) (s' : σ) : Prop := step.run.run s = (.ok a, s')

/-- The step comes to a result from every state. -/
def Settles (step : Fallible σ ε α) : Prop := ∀ s, ∃ a s', Ends step s a s'

theorem Ends.unique {a b : α} (done : Ends step s a s') (done' : Ends step s b t) :
    a = b ∧ s' = t := by
  have same := Eq.trans (Eq.symm done) done'
  cases same
  exact ⟨rfl, rfl⟩

theorem ends_pure {a b : α} : Ends (pure a : Fallible σ ε α) s b s' ↔ a = b ∧ s = s' := by
  constructor
  · intro done
    cases done
    exact ⟨rfl, rfl⟩
  · intro both
    rcases both with ⟨rfl, rfl⟩
    rfl

theorem run_bind_eq : (step >>= next).run.run s =
    match step.run.run s with
    | (.ok a, t) => (next a).run.run t
    | (.error e, t) => (.error e, t) := by
  rw [ExceptT.run_bind, StateT.run_bind]
  cases step.run.run s with
  | mk out t =>
      cases out with
      | ok a => rfl
      | error e => rfl

theorem run_tryCatch_eq {handle : ε → Fallible σ ε α} : (tryCatch step handle).run.run s =
    match step.run.run s with
    | (.ok a, t) => (.ok a, t)
    | (.error e, t) => (handle e).run.run t := by
  rw [ExceptT.run_tryCatch, StateT.run_bind]
  cases step.run.run s with
  | mk out t =>
      cases out with
      | ok a => rfl
      | error e => rfl

theorem ends_bind {b : β} :
    Ends (step >>= next) s b s' ↔ ∃ a t, Ends step s a t ∧ Ends (next a) t b s' := by
  unfold Ends
  rw [run_bind_eq]
  cases step.run.run s with
  | mk out t =>
      cases out with
      | ok a =>
          constructor
          · exact fun done => ⟨a, t, rfl, done⟩
          · intro steps
            rcases steps with ⟨a', t', same, done⟩
            cases same
            exact done
      | error e =>
          constructor
          · intro done
            cases done
          · intro steps
            rcases steps with ⟨a', t', same, -⟩
            cases same

/-- Of a step that is known to end only the next one counts. -/
theorem ends_bind_of_ends {a : α} {b : β} (first : Ends step s a t) :
    Ends (step >>= next) s b s' ↔ Ends (next a) t b s' := by
  rw [ends_bind]
  constructor
  · intro steps
    rcases steps with ⟨a', t', done, rest⟩
    obtain ⟨rfl, rfl⟩ := first.unique done
    exact rest
  · exact fun rest => ⟨a, t, first, rest⟩

/-- A value that has been read before the step. -/
theorem ends_mk {read : Except ε α} {a : α} :
    Ends (ExceptT.mk (pure read) : Fallible σ ε α) s a s' ↔ read = .ok a ∧ s = s' := by
  constructor
  · intro done
    cases done
    exact ⟨rfl, rfl⟩
  · intro both
    rcases both with ⟨rfl, rfl⟩
    rfl

theorem settles_pure (a : α) : Settles (pure a : Fallible σ ε α) := fun s => ⟨a, s, rfl⟩

theorem Settles.bind (first : Settles step) (rest : ∀ a, Settles (next a)) :
    Settles (step >>= next) := by
  intro s
  obtain ⟨a, t, done⟩ := first s
  obtain ⟨b, s', done'⟩ := rest a t
  exact ⟨b, s', ends_bind.mpr ⟨a, t, done, done'⟩⟩

theorem settles_tryCatch {handle : ε → Fallible σ ε α} (caught : ∀ e, Settles (handle e)) :
    Settles (tryCatch step handle) := by
  intro s
  unfold Ends
  rw [run_tryCatch_eq]
  cases step.run.run s with
  | mk out t =>
      cases out with
      | ok a => exact ⟨a, t, rfl⟩
      | error e => exact caught e t

end Fallible

end Opensquid.Lib
