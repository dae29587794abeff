import Mathlib.Data.Nat.Basic
import Mathlib.Order.Basic

/-!
# Recursive computations with a step cap and a depth cap

An interpreter that counts the nodes it visits and the depth it is at, and gives up when either is
over its cap, computes what the uncapped interpreter computes, as long as that stays within the
caps; otherwise it ends with a limit error. `Metered` is the uncapped computation with its costs,
`Capped` the one that gives up, and `Refines` relates them; its rules follow the constructors, so
that a refinement proof follows the recursion of the interpreter.
-/

namespace Opensquid.Lib

/-! ## Costs -/

/-- An outcome with what it takes: the nodes that are visited, and the levels below the start. -/
structure Metered (ε α : Type) where
  outcome : Except ε α
  visits : Nat
  height : Nat

namespace Metered

variable {ε α β : Type}

protected def pure (a : α) : Metered ε α := ⟨.ok a, 0, 0⟩

/-- A computation without visits. -/
def of (outcome : Except ε α) : Metered ε α := ⟨outcome, 0, 0⟩

protected def bind (m : Metered ε α) (f : α → Metered ε β) : Metered ε β :=
  match m.outcome with
  | .ok a => ⟨(f a).outcome, m.visits + (f a).visits, max m.height (f a).height⟩
  | .error e => ⟨.error e, m.visits, m.height⟩

/-- The computation one level down, with the visit of its node. -/
def visit (m : Metered ε α) : Metered ε α := ⟨m.outcome, m.visits + 1, m.height + 1⟩

theorem bind_ok {m : Metered ε α} {a : α} (f : α → Metered ε β) (ok : m.outcome = .ok a) :
    m.bind f = ⟨(f a).outcome, m.visits + (f a).visits, max m.height (f a).height⟩ := by
  rw [Metered.bind, ok]

theorem bind_error {m : Metered ε α} {e : ε} (f : α → Metered ε β) (failed : m.outcome = .error e) :
    m.bind f = ⟨.error e, m.visits, m.height⟩ := by
  rw [Metered.bind, failed]

/-- A bound on both costs goes through a sequence. -/
theorem visits_bind_le {m : Metered ε α} {f : α → Metered ε β} {n k : Nat} (first : m.visits ≤ n)
    (rest : ∀ a, (f a).visits ≤ k) : (m.bind f).visits ≤ n + k := by
  cases outcome : m.outcome with
  | ok a =>
      rw [bind_ok f outcome]
      exact Nat.add_le_add first (rest a)
  | error e =>
      rw [bind_error f outcome]
      exact Nat.le_trans first (Nat.le_add_right n k)

/-- The same where nothing is visited afterwards. -/
theorem visits_last_le {m : Metered ε α} {f : α → Metered ε β} {n : Nat} (first : m.visits ≤ n)
    (rest : ∀ a, (f a).visits = 0) : (m.bind f).visits ≤ n :=
  visits_bind_le first fun a => Nat.le_of_eq (rest a)

theorem height_bind_le {m : Metered ε α} {f : α → Metered ε β} {n : Nat} (first : m.height ≤ n)
    (rest : ∀ a, (f a).height ≤ n) : (m.bind f).height ≤ n := by
  cases outcome : m.outcome with
  | ok a =>
      rw [bind_ok f outcome]
      exact Nat.max_le.mpr ⟨first, rest a⟩
  | error e =>
      rw [bind_error f outcome]
      exact first

theorem le_height_bind (m : Metered ε α) (f : α → Metered ε β) : m.height ≤ (m.bind f).height := by
  cases outcome : m.outcome with
  | ok a =>
      rw [bind_ok f outcome]
      exact Nat.le_max_left _ _
  | error e => rw [bind_error f outcome]

end Metered

/-! ## Caps -/

structure Caps where
  depth : Nat
  steps : Nat

inductive Limit
  | depth
  | steps
  deriving DecidableEq, Repr

/-- A computation that counts its steps. -/
abbrev Capped (ε α : Type) := StateT Nat (Except (Limit ⊕ ε)) α

/-- The entry of a node: the depth is checked first, then the step is counted and checked. -/
def Capped.enter {ε : Type} (caps : Caps) (depth : Nat) : Capped ε Unit := fun steps =>
  if caps.depth < depth then .error (.inl .depth)
  else if caps.steps < steps + 1 then .error (.inl .steps)
  else .ok ((), steps + 1)

/-- An outcome of the computation itself, which is no limit. -/
def Capped.of {ε α : Type} (outcome : Except ε α) : Capped ε α := fun steps =>
  match outcome with
  | .ok a => .ok (a, steps)
  | .error e => .error (.inr e)

/-- The costs stay within the caps, from a number of steps and at a depth. -/
def Metered.Fits {ε α : Type} (m : Metered ε α) (caps : Caps) (depth steps : Nat) : Prop :=
  steps + m.visits ≤ caps.steps ∧ depth + m.height ≤ caps.depth + 1

instance {ε α : Type} (m : Metered ε α) (caps : Caps) (depth steps : Nat) :
    Decidable (m.Fits caps depth steps) := inferInstanceAs (Decidable (_ ∧ _))

/-- Within the caps the outcome and the visits are those of `m`; otherwise there is a limit
error. -/
def Refines {ε α : Type} (caps : Caps) (depth : Nat) (c : Capped ε α) (m : Metered ε α) : Prop :=
  ∀ steps, steps ≤ caps.steps → depth ≤ caps.depth + 1 →
    (m.Fits caps depth steps → c steps = Capped.of m.outcome (steps + m.visits)) ∧
    (¬ m.Fits caps depth steps → ∃ limit, c steps = .error (.inl limit))

namespace Refines

variable {ε α β : Type} {caps : Caps} {depth : Nat}

theorem of (outcome : Except ε α) : Refines caps depth (Capped.of outcome) (.of outcome) :=
  fun _ started entered => ⟨fun _ => rfl, fun past => absurd ⟨started, entered⟩ past⟩

theorem pure (a : α) : Refines caps depth (Pure.pure a : Capped ε α) (.pure a) :=
  of (.ok a)

theorem bind {c : Capped ε α} {m : Metered ε α} {f : α → Capped ε β} {g : α → Metered ε β}
    (first : Refines caps depth c m) (rest : ∀ a, Refines caps depth (f a) (g a)) :
    Refines caps depth (c >>= f) (m.bind g) := by
  intro steps started entered
  obtain ⟨within, beyond⟩ := first steps started entered
  by_cases fits : m.Fits caps depth steps
  · have ran := within fits
    cases outcome : m.outcome with
    | error e =>
        rw [Metered.bind_error g outcome]
        refine ⟨fun _ => ?_, fun past => absurd fits past⟩
        show (c steps).bind _ = _
        rw [ran, outcome]
        rfl
    | ok a =>
        rw [Metered.bind_ok g outcome]
        obtain ⟨within', beyond'⟩ := rest a (steps + m.visits) fits.1 entered
        have split : (⟨(g a).outcome, m.visits + (g a).visits, max m.height (g a).height⟩ :
            Metered ε β).Fits caps depth steps ↔ (g a).Fits caps depth (steps + m.visits) := by
          obtain ⟨visited, deep⟩ := fits
          simp only [Metered.Fits]
          omega
        have goes : (c >>= f) steps = f a (steps + m.visits) := by
          show (c steps).bind _ = _
          rw [ran, outcome]
          rfl
        rw [goes, split, ← Nat.add_assoc]
        exact ⟨within', beyond'⟩
  · obtain ⟨limit, ran⟩ := beyond fits
    refine ⟨fun inside => ?_, fun _ => ⟨limit, ?_⟩⟩
    · refine absurd ?_ fits
      obtain ⟨visited, deep⟩ := inside
      cases outcome : m.outcome with
      | error e =>
          rw [Metered.bind_error g outcome] at visited deep
          exact ⟨visited, deep⟩
      | ok a =>
          rw [Metered.bind_ok g outcome] at visited deep
          dsimp only at visited deep
          exact ⟨by omega, by omega⟩
    · show (c steps).bind _ = _
      rw [ran]
      rfl

/-- The rule of a node. -/
theorem visit {c : Capped ε α} {m : Metered ε α} (below : Refines caps (depth + 1) c m) :
    Refines caps depth (Capped.enter caps depth >>= fun _ => c) m.visit := by
  intro steps started entered
  have goes : (Capped.enter caps depth >>= fun _ => c) steps =
      if caps.depth < depth then .error (.inl .depth)
      else if caps.steps < steps + 1 then .error (.inl .steps) else c (steps + 1) := by
    show (Capped.enter caps depth steps).bind _ = _
    unfold Capped.enter
    split
    · rfl
    split
    · rfl
    · rfl
  rw [goes]
  have fits : m.visit.Fits caps depth steps ↔ m.Fits caps (depth + 1) (steps + 1) := by
    simp only [Metered.Fits, Metered.visit]
    omega
  rw [fits]
  split
  next deep =>
    refine ⟨fun inside => absurd inside.2 (by omega), fun _ => ⟨.depth, rfl⟩⟩
  split
  next past =>
    refine ⟨fun inside => absurd inside.1 (by omega), fun _ => ⟨.steps, rfl⟩⟩
  next =>
    have count : steps + (m.visits + 1) = steps + 1 + m.visits := by omega
    have ran := below (steps + 1) (by omega) (by omega)
    show (_ → c (steps + 1) = Capped.of m.outcome (steps + (m.visits + 1))) ∧ _
    rw [count]
    exact ran

end Refines

end Opensquid.Lib
