import Mathlib.Data.List.Basic

/-!
# The seven phases

The ledger of a session: the phases logged for one task. It starts afresh with the first
phase of another task, and is complete for the task it belongs to.
-/

namespace Opensquid.Runtime

inductive Phase
  | preResearch
  | learn
  | code
  | test
  | audit
  | postResearch
  | fix
  deriving DecidableEq, Repr

def REQUIRED_PHASES : List Phase :=
  [.preResearch, .learn, .code, .test, .audit, .postResearch, .fix]

structure PhaseState where
  taskId : String
  phases : List Phase
  deriving DecidableEq, Repr

def appendPhase (prev : Option PhaseState) (taskId : String) (phase : Phase) : PhaseState :=
  let state := (prev.filter fun state => state.taskId = taskId).getD ⟨taskId, []⟩
  if phase ∈ state.phases then state else { state with phases := state.phases ++ [phase] }

def isComplete (state : Option PhaseState) (activeTaskId : String) : Bool :=
  state.any fun state => state.taskId = activeTaskId && REQUIRED_PHASES.all fun p => p ∈ state.phases

/-- The phases that the ledger holds for a task. -/
def phasesOf (state : Option PhaseState) (taskId : String) : List Phase :=
  ((state.filter fun state => state.taskId = taskId).map PhaseState.phases).getD []

variable {state : Option PhaseState} {taskId other : String} {phase p : Phase}

theorem isComplete_iff :
    isComplete state taskId = true ↔ ∀ p ∈ REQUIRED_PHASES, p ∈ phasesOf state taskId := by
  cases state with
  | none => exact iff_of_false Bool.false_ne_true fun all => by cases all .code (by decide)
  | some state =>
      by_cases same : state.taskId = taskId
      · simp [isComplete, phasesOf, Option.filter_some, same]
      · refine iff_of_false (by simp [isComplete, same]) fun all => ?_
        have none' := all .code (by decide)
        rw [phasesOf, Option.filter_some, if_neg (by simpa using same)] at none'
        cases none'

theorem taskId_appendPhase : (appendPhase state taskId phase).taskId = taskId := by
  have kept : ((state.filter fun state => state.taskId = taskId).getD ⟨taskId, []⟩).taskId = taskId := by
    cases found : state.filter fun state => state.taskId = taskId with
    | none => rfl
    | some prev => exact of_decide_eq_true (Option.filter_eq_some_iff.mp found).2
  rw [appendPhase]
  split
  · exact kept
  · exact kept

theorem mem_appendPhase :
    p ∈ (appendPhase state taskId phase).phases ↔ p = phase ∨ p ∈ phasesOf state taskId := by
  have held : ((state.filter fun state => state.taskId = taskId).getD ⟨taskId, []⟩).phases =
      phasesOf state taskId := by
    rw [phasesOf]
    cases state.filter fun state => state.taskId = taskId <;> rfl
  rw [← held, appendPhase]
  split
  · rename_i known
    exact ⟨.inr, fun either => either.elim (fun same => same ▸ known) id⟩
  · rw [List.mem_append, List.mem_singleton, or_comm]

theorem phasesOf_append_self :
    phasesOf (some (appendPhase state taskId phase)) taskId = (appendPhase state taskId phase).phases := by
  rw [phasesOf, Option.filter_some, if_pos (decide_eq_true taskId_appendPhase)]
  rfl

theorem phasesOf_append_of_ne (apart : taskId ≠ other) :
    phasesOf (some (appendPhase state taskId phase)) other = [] := by
  rw [phasesOf, Option.filter_some, taskId_appendPhase, if_neg (by simpa using apart)]
  rfl

end Opensquid.Runtime
