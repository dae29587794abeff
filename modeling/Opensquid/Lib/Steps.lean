import Mathlib.Data.Option.Basic
import Mathlib.Data.List.Basic
import Mathlib.Logic.Function.Basic

/-!
# Guarded runs of a partial step function

A system is a partial step function `step : σ → ε → Option σ`: an event that is
not enabled has no successor. `Steps step ok s t` is a run from `s` to `t`, of
any length, whose every event meets `ok` in the state it fires from; with
`ok = AnyStep` it is an arbitrary run. `runWhile` is the executable form: it
replays a concrete event list and fails on a disabled or unguarded event, and
`Steps.of_runWhile` turns a successful replay into a run.
-/

namespace Opensquid.Lib

variable {σ ε : Type*} {step : σ → ε → Option σ} {ok : σ → ε → Prop}

/-- The guard that every event meets. -/
def AnyStep (_ : σ) (_ : ε) : Prop := True

/-- `t` is reached from `s` by events that all meet `ok`. -/
inductive Steps (step : σ → ε → Option σ) (ok : σ → ε → Prop) (s : σ) : σ → Prop
  | refl : Steps step ok s s
  | tail {t u : σ} {e : ε} :
      Steps step ok s t → ok t e → step t e = some u → Steps step ok s u

/-- A run under a guard is a run under any weaker guard. -/
theorem Steps.mono {ok' : σ → ε → Prop} (weaker : ∀ s e, ok s e → ok' s e) {s t : σ}
    (run : Steps step ok s t) : Steps step ok' s t := by
  induction run with
  | refl => exact .refl
  | tail _ guard fire ih => exact .tail ih (weaker _ _ guard) fire

theorem Steps.any {s t : σ} (run : Steps step ok s t) : Steps step AnyStep s t :=
  run.mono fun _ _ _ => trivial

/-- What holds initially and is kept by every guarded step holds at the end of
every guarded run. -/
theorem Steps.invariant {inv : σ → Prop} {s t : σ} (start : inv s)
    (keep : ∀ t e u, inv t → ok t e → step t e = some u → inv u)
    (run : Steps step ok s t) : inv t := by
  induction run with
  | refl => exact start
  | tail _ guard fire ih => exact keep _ _ _ ih guard fire

/-- The same with an invariant of arbitrary runs already at hand, available on
both sides of the step. -/
theorem Steps.invariant_of {base inv : σ → Prop} {s t : σ}
    (known : ∀ t, Steps step AnyStep s t → base t) (start : inv s)
    (keep : ∀ t e u, base t → base u → inv t → ok t e → step t e = some u → inv u)
    (run : Steps step ok s t) : inv t := by
  induction run with
  | refl => exact start
  | tail before guard fire ih =>
      exact keep _ _ _ (known _ before.any)
        (known _ (.tail before.any trivial fire)) ih guard fire

/-- Replay a concrete event list, checking the guard before each event. -/
def runWhile (step : σ → ε → Option σ) (ok : σ → ε → Bool) : σ → List ε → Option σ
  | s, [] => some s
  | s, e :: es => if ok s e then (step s e).bind fun t => runWhile step ok t es else none

theorem Steps.head {s t u : σ} {e : ε} (guard : ok s e) (fire : step s e = some t)
    (run : Steps step ok t u) : Steps step ok s u := by
  induction run with
  | refl => exact .tail .refl guard fire
  | tail _ guard' fire' ih => exact .tail ih guard' fire'

theorem Steps.trans {s t u : σ} (before : Steps step ok s t) (after : Steps step ok t u) :
    Steps step ok s u := by
  induction after with
  | refl => exact before
  | tail _ guard fire ih => exact ih.tail guard fire

/-- A run is empty or has a first event. -/
theorem Steps.eq_or_head {s t : σ} (run : Steps step ok s t) :
    s = t ∨ ∃ e u, ok s e ∧ step s e = some u ∧ Steps step ok u t := by
  induction run with
  | refl => exact .inl rfl
  | tail _ guard fire ih =>
      rcases ih with rfl | ⟨e, u, first, next, rest⟩
      · exact .inr ⟨_, _, guard, fire, .refl⟩
      · exact .inr ⟨e, u, first, next, .tail rest guard fire⟩

theorem Steps.of_runWhile {check : σ → ε → Bool} (sound : ∀ s e, check s e = true → ok s e)
    {s t : σ} {es : List ε} (replay : runWhile step check s es = some t) :
    Steps step ok s t := by
  induction es generalizing s with
  | nil =>
      cases replay
      exact .refl
  | cons e es ih =>
      simp only [runWhile] at replay
      split at replay
      · rename_i guard
        rcases Option.bind_eq_some_iff.mp replay with ⟨next, fire, rest⟩
        exact .head (sound s e guard) fire (ih rest)
      · cases replay

/-! ## Systems of independent components -/

section

variable {ι : Type*} [DecidableEq ι]

/-- A system of components in which every event belongs to one of them. -/
def onComponent (index : ε → ι) (step : σ → ε → Option σ) (s : ι → σ) (e : ε) : Option (ι → σ) :=
  (step (s (index e)) e).map (Function.update s (index e))

/-- A run of the system is a run of each component. -/
theorem Steps.component {index : ε → ι} {s t : ι → σ}
    (run : Steps (onComponent index step) (fun s e => ok (s (index e)) e) s t) (i : ι) :
    Steps step ok (s i) (t i) := by
  induction run with
  | refl => exact .refl
  | tail _ guard fire ih =>
      obtain ⟨next, moved, rfl⟩ := Option.map_eq_some_iff.mp fire
      rename_i u _ e _
      by_cases same : i = index e
      · subst same
        rw [Function.update_self]
        exact .tail ih guard moved
      · rwa [Function.update_of_ne same]

end

end Opensquid.Lib
