import Opensquid.Lib.Throws
import Opensquid.Machine.Flat

/-!
# Gate dispatch

What a pack says of its states, and the step of a gate and of a decision: which guard is
evaluated, which named event is emitted, and where the machine goes on it. The driver and
the observed actor share these functions; they are stated for any way of evaluating a guard
that may fail.

`Declared fsm s t` is a transition that the pack declares. `transitionOn_declared`: on a valid
machine whose state names do not contain the path separator, an emitted event leads along one.
-/

namespace Opensquid.Loop

open Opensquid.Lib Opensquid.Lib.PathText
open Opensquid.Machine

/-! ## The state table -/

inductive StateKind
  | executor
  | gate
  | decision
  | subFlow
  | terminal
  deriving DecidableEq, Repr

inductive FailAction
  | warn
  | block
  | halt
  deriving DecidableEq, Repr

structure OnFail where
  action : FailAction
  message : String
  deriving DecidableEq, Repr

inductive DecisionBranch
  | guarded (guard emits : String)
  | otherwise (emits : String)
  deriving DecidableEq, Repr

def DecisionBranch.emits : DecisionBranch → String
  | .guarded _ emits => emits
  | .otherwise emits => emits

inductive Outcome
  | shipped
  | wedge
  deriving DecidableEq, Repr

/-- What the dispatch reads of a state. -/
structure StateMeta where
  kind : StateKind
  executor : Option String := none
  emits : Option String := none
  guard : Option String := none
  trigger : Option (List String) := none
  onFail : Option OnFail := none
  branches : Option (List DecisionBranch) := none
  flow : Option String := none
  outcome : Option Outcome := none
  deriving DecidableEq, Repr

inductive DriverStep
  | advance (next : String) (notice : Option String)
  | action (action : FailAction) (message : String)
  | outcome (outcome : Outcome) (reason : Option String)
  deriving DecidableEq, Repr

/-! ## The dispatch -/

section

variable {M : Type → Type} [Monad M] [Throws M]

/-- The next state on a named event; it fails without a transition. -/
def transitionOn (fsm : Fsm) (state event : String) : M String :=
  match stepFlat fsm state event none with
  | some r => if r.transitioned then pure r.next else throwing
  | none => throwing

/-- The event that a state emits to advance. -/
def emitOf (entry : StateMeta) : M String :=
  match entry.emits with
  | some event => pure event
  | none => throwing

/-- Advance along the state's own event. -/
def advanceOn (fsm : Fsm) (state : String) (entry : StateMeta) (notice : Option String) :
    M DriverStep := do
  return .advance (← transitionOn fsm state (← emitOf entry)) notice

/-- The action of a gate whose guard fails, and the one of a gate that declares none. -/
def StateMeta.onFailAt (entry : StateMeta) (state : String) : OnFail :=
  entry.onFail.getD ⟨.block, "gate '" ++ state ++ "' failed"⟩

/-- A gate whose guard holds advances, one whose guard fails acts; a warning advances too. -/
def evalGate (eval : String → M Bool) (fsm : Fsm) (state : String) (entry : StateMeta) :
    M DriverStep := do
  if ← eval (entry.guard.getD "") then
    advanceOn fsm state entry none
  else if (entry.onFailAt state).action = .warn then
    advanceOn fsm state entry (some (entry.onFailAt state).message)
  else
    return .action (entry.onFailAt state).action (entry.onFailAt state).message

/-- The first branch, in the order of their declaration, whose guard holds. -/
def evalBranches (eval : String → M Bool) (fsm : Fsm) (state : String) :
    List DecisionBranch → M DriverStep
  | [] => throwing
  | .otherwise emits :: _ => return .advance (← transitionOn fsm state emits) none
  | .guarded guard emits :: rest => do
      if ← eval guard then return .advance (← transitionOn fsm state emits) none
      else evalBranches eval fsm state rest

def evalDecision (eval : String → M Bool) (fsm : Fsm) (state : String) (entry : StateMeta) :
    M DriverStep :=
  evalBranches eval fsm state (entry.branches.getD [])

end

/-! ## Declared transitions -/

/-- The pack declares a transition from one state to the other. -/
def Declared (fsm : Fsm) (s t : String) : Prop :=
  ∃ tr ∈ fsm.transitions, (tr.from = s ∨ tr.from = ANY_STATE) ∧ tr.to = t

/-- No state is named like a path of several segments. -/
def Plain (fsm : Fsm) : Prop := ∀ name ∈ fsm.states, PATH_SEP ∉ name.toList

instance {fsm : Fsm} : Decidable (Plain fsm) := List.decidableBAll _ _

variable {fsm : Fsm} {s t event : String}

theorem initial_mem (valid : validateFsm fsm = []) : fsm.initial ∈ fsm.states := by
  by_contra undeclared
  have clean := (List.append_eq_nil_iff.mp valid).1
  rw [if_neg undeclared] at clean
  cases clean

/-- Where an enabled transition starts. -/
theorem source_of_enabled {evalWhen : EvalWhen} {tr : Transition} (plain : PATH_SEP ∉ s.toList)
    (fires : enabled [s] event evalWhen tr = true) : tr.from = s ∨ tr.from = ANY_STATE := by
  obtain ⟨-, source, -⟩ := of_decide_eq_true fires
  rcases source with wild | active
  · exact .inr wild
  · obtain ⟨leaf, member, above⟩ := isActive_iff.mp active
    rw [List.mem_singleton.mp member, segs_of_not_mem plain] at above
    have only : segs PATH_SEP tr.from = [s] := by
      rcases List.prefix_cons_iff.mp above with none' | ⟨rest, eq, short⟩
      · exact absurd none' (segs_ne_nil _)
      · rw [eq, List.prefix_nil.mp short]
    refine .inl ?_
    rw [← @joinSegs_segs PATH_SEP tr.from, only, joinSegs, String.intercalate_singleton]

/-- A step of the engine that moves goes along a declared transition to another state. -/
theorem stepFlat_declared (valid : validateFsm fsm = []) (plain : Plain fsm) (known : s ∈ fsm.states)
    {evalWhen : EvalWhen} {r : FlatStepResult} (result : stepFlat fsm s event evalWhen = some r)
    (moved : r.transitioned = true) : Declared fsm s r.next ∧ r.next ≠ s ∧ r.next ∈ fsm.states := by
  cases fires : firstTransition (enabled [s] event evalWhen) fsm.transitions with
  | none =>
      rw [stepFlat_of_stays fires] at result
      cases result
      cases moved
  | some entry =>
      obtain ⟨tr, i⟩ := entry
      obtain ⟨passes, at_i⟩ := firstTransition_some fires
      have member := List.mem_of_getElem? at_i
      have declared := mem_states_of_validateFsm valid member
      rw [stepFlat_of_fires valid fires, if_neg (plain _ declared)] at result
      cases result
      exact ⟨⟨tr, member, source_of_enabled (plain s known) passes, rfl⟩,
        of_decide_eq_true moved, declared⟩

theorem transitionOn_declared (valid : validateFsm fsm = []) (plain : Plain fsm)
    (known : s ∈ fsm.states) (next : transitionOn fsm s event = some t) :
    Declared fsm s t ∧ t ≠ s ∧ t ∈ fsm.states := by
  unfold transitionOn at next
  split at next
  · rename_i r result
    split at next
    · rename_i moved
      cases next
      exact stepFlat_declared valid plain known result moved
    · cases next
  · cases next

end Opensquid.Loop
