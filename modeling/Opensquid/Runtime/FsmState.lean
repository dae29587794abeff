import Opensquid.Loop.GateDispatch

/-!
# The persisted state of a pack's machine

The file under one key of a session, and what one call makes of it: the reads that repair
what they cannot use, the comparison under the lock, and the state that a hook seeds its
actor with. `accepted_iff` is when the first write after such a seed is accepted.
-/

namespace Opensquid.Runtime

open Opensquid.Machine Opensquid.Loop

/-! ## The file -/

structure FsmHistoryEntry where
  state : String
  «at» : String
  deriving DecidableEq, Repr

structure FsmStateFile where
  state : String
  startedAt : String
  history : List FsmHistoryEntry
  deriving DecidableEq, Repr

/-- The states of the history, in order. -/
def FsmStateFile.entered (file : FsmStateFile) : List String := file.history.map FsmHistoryEntry.state

/-- The content that enters one more state. -/
def FsmStateFile.entering (history : List FsmHistoryEntry) (state now : String) : FsmStateFile :=
  ⟨state, now, history ++ [⟨state, now⟩]⟩

inductive FsmFile
  | absent
  | malformed
  | held (content : FsmStateFile)
  deriving DecidableEq, Repr

/-- The key of a pack's machine: one for every task, and one without a task. -/
def fsmStateKey (pack : String) : Option String → String
  | none => "fsm-" ++ pack
  | some taskId => "fsm-" ++ pack ++ "-" ++ taskId

def readFsmStateFile : FsmFile → Option FsmStateFile
  | .held content => some content
  | .absent | .malformed => none

/-- The state in the file, where the machine declares it. -/
def readFsmState (fsm : Fsm) (file : FsmFile) : String :=
  (((readFsmStateFile file).map FsmStateFile.state).filter fun state => state ∈ fsm.states).getD
    fsm.initial

/-- `open(path, 'a')`: an absent file is an empty one from now on. -/
def FsmFile.opened : FsmFile → FsmFile
  | .absent => .malformed
  | file => file

/-! ## The comparison under the lock -/

inductive Comparison
  | rejected
  | unchanged
  | publish (history : List FsmHistoryEntry)
  deriving DecidableEq, Repr

def comparePrior (prior : Option FsmStateFile) (current : String) (expectedCurrent : Option String) :
    Comparison :=
  match prior with
  | none => .publish []
  | some file =>
      if ∃ expected ∈ expectedCurrent, file.state ≠ expected then .rejected
      else if file.state = current then .unchanged
      else .publish file.history

/-- A whole call, with nobody else at the file: is it accepted, and what it leaves. -/
def persistActorState (file : FsmFile) (current now : String) (expectedCurrent : Option String) :
    Bool × FsmFile :=
  match comparePrior (readFsmStateFile file) current expectedCurrent with
  | .rejected => (false, file.opened)
  | .unchanged => (true, file.opened)
  | .publish history => (true, .held (.entering history current now))

/-- An automated process starts at the stage of the checkpoint, where the machine is at its
initial state. -/
def resolveSeededActorState (fsm : Fsm) (automation : Bool) (checkpoint : Option String)
    (file : FsmFile) : String :=
  if automation ∧ readFsmState fsm file = fsm.initial then
    (checkpoint.filter fun stage => stage ∈ fsm.states).getD (readFsmState fsm file)
  else readFsmState fsm file

variable {fsm : Fsm} {file : FsmFile} {content : FsmStateFile} {current now : String}

@[simp] theorem readFsmStateFile_opened : readFsmStateFile file.opened = readFsmStateFile file := by
  cases file <;> rfl

theorem readFsmState_of_none (empty : readFsmStateFile file = none) :
    readFsmState fsm file = fsm.initial := by
  rw [readFsmState, empty]
  rfl

theorem readFsmState_of_mem (held : readFsmStateFile file = some content)
    (declared : content.state ∈ fsm.states) : readFsmState fsm file = content.state := by
  rw [readFsmState, held, Option.map_some, Option.filter_some, if_pos (decide_eq_true declared)]
  rfl

theorem readFsmState_of_not_mem (held : readFsmStateFile file = some content)
    (undeclared : content.state ∉ fsm.states) : readFsmState fsm file = fsm.initial := by
  rw [readFsmState, held, Option.map_some, Option.filter_some,
    if_neg (by simpa using undeclared)]
  rfl

theorem readFsmState_mem (valid : validateFsm fsm = []) : readFsmState fsm file ∈ fsm.states := by
  rcases Option.eq_none_or_eq_some (readFsmStateFile file) with empty | ⟨content, held⟩
  · rw [readFsmState_of_none empty]
    exact initial_mem valid
  · by_cases declared : content.state ∈ fsm.states
    · rwa [readFsmState_of_mem held declared]
    · rw [readFsmState_of_not_mem held declared]
      exact initial_mem valid

theorem seeded_mem (valid : validateFsm fsm = []) (automation : Bool) (checkpoint : Option String) :
    resolveSeededActorState fsm automation checkpoint file ∈ fsm.states := by
  rw [resolveSeededActorState]
  split
  · cases kept : checkpoint.filter fun stage => stage ∈ fsm.states with
    | none => exact readFsmState_mem valid
    | some stage => exact of_decide_eq_true (Option.filter_eq_some_iff.mp kept).2
  · exact readFsmState_mem valid

/-! ## Accepted writes -/

theorem comparePrior_of_ne {expected : String} (other : content.state ≠ expected) :
    comparePrior (some content) current (some expected) = .rejected :=
  if_pos ⟨expected, rfl, other⟩

/-- A comparison that succeeds for a state that is new. -/
theorem comparePrior_of_eq {expected : String} (same : content.state = expected)
    (moves : current ≠ expected) :
    comparePrior (some content) current (some expected) = .publish content.history := by
  have fine : ¬ ∃ e ∈ some expected, content.state ≠ e := by simpa using same
  rw [comparePrior, if_neg fine, if_neg fun here => moves (here.symm.trans same)]

/-- A call with an expected state is rejected when the file holds another one. -/
theorem persist_accepted_iff {expected : String} :
    (persistActorState file current now (some expected)).1 = true ↔
      ∀ content, readFsmStateFile file = some content → content.state = expected := by
  rw [persistActorState]
  rcases Option.eq_none_or_eq_some (readFsmStateFile file) with empty | ⟨content, held⟩
  · rw [empty, comparePrior]
    exact iff_of_true rfl fun _ other => by cases other
  · rw [held, comparePrior]
    by_cases same : content.state = expected
    · rw [if_neg (by simpa using same)]
      refine iff_of_true ?_ fun _ other => by cases other; exact same
      split <;> rename_i result
      · split at result <;> cases result
      · rfl
      · rfl
    · rw [if_pos ⟨expected, rfl, same⟩]
      exact iff_of_false Bool.false_ne_true fun all => same (all content rfl)

/-- What a file may hold for its state to be the one a process is seeded with: a declared
state, and not the initial one where an automated process has a later checkpoint. -/
def SeedsItself (fsm : Fsm) (automation : Bool) (checkpoint : Option String) (file : FsmFile) : Prop :=
  ∀ content, readFsmStateFile file = some content → content.state ∈ fsm.states ∧
    (automation = true → content.state = fsm.initial →
      ∀ stage ∈ checkpoint, stage ∈ fsm.states → stage = fsm.initial)

/-- The first write after the seed is accepted exactly then. -/
theorem accepted_iff (valid : validateFsm fsm = []) {automation : Bool} {checkpoint : Option String} :
    (persistActorState file current now
        (some (resolveSeededActorState fsm automation checkpoint file))).1 = true ↔
      SeedsItself fsm automation checkpoint file := by
  rw [persist_accepted_iff, SeedsItself]
  refine forall_congr' fun content => imp_congr_right fun held => ?_
  by_cases declared : content.state ∈ fsm.states
  · rw [resolveSeededActorState, readFsmState_of_mem held declared]
    by_cases seeding : automation ∧ content.state = fsm.initial
    · rw [if_pos seeding]
      cases checkpoint with
      | none => exact iff_of_true rfl ⟨declared, fun _ _ _ none' => by cases none'⟩
      | some stage =>
          by_cases known : stage ∈ fsm.states
          · rw [Option.filter_some, if_pos (decide_eq_true known), Option.getD_some]
            constructor
            · intro same
              refine ⟨declared, fun _ start stage' at_stage _ => ?_⟩
              cases at_stage
              exact same.symm.trans start
            · rintro ⟨-, stays⟩
              exact seeding.2.trans (stays seeding.1 seeding.2 stage rfl known).symm
          · rw [Option.filter_some, if_neg (by simpa using known), Option.getD_none]
            refine iff_of_true rfl ⟨declared, fun _ _ stage' at_stage known' => ?_⟩
            cases at_stage
            exact absurd known' known
    · rw [if_neg seeding]
      exact iff_of_true rfl ⟨declared, fun auto start => absurd ⟨auto, start⟩ seeding⟩
  · refine iff_of_false (fun same => ?_) fun stays => declared stays.1
    rw [same] at declared
    exact declared (seeded_mem valid automation checkpoint)

/-! ## The stored state -/

/-- The state a file holds. -/
def FsmFile.state (file : FsmFile) : Option String := (readFsmStateFile file).map FsmStateFile.state

@[simp] theorem state_opened : file.opened.state = file.state := by
  rw [FsmFile.state, readFsmStateFile_opened, FsmFile.state]

theorem state_persist_accepted {expectedCurrent : Option String}
    (accepted : (persistActorState file current now expectedCurrent).1 = true) :
    (persistActorState file current now expectedCurrent).2.state = some current := by
  rw [persistActorState] at accepted ⊢
  split at accepted <;> rename_i result
  · cases accepted
  · have same : file.state = some current := by
      rcases Option.eq_none_or_eq_some (readFsmStateFile file) with empty | ⟨content, held⟩
      · rw [empty] at result
        cases result
      · rw [held, comparePrior] at result
        split at result
        · cases result
        · split at result
          · rename_i here
            rw [FsmFile.state, held, Option.map_some, here]
          · cases result
    rw [state_opened, same]
  · rfl

theorem state_persist_rejected {expectedCurrent : Option String}
    (rejected : ¬ (persistActorState file current now expectedCurrent).1 = true) :
    (persistActorState file current now expectedCurrent).2.state = file.state := by
  rw [persistActorState] at rejected ⊢
  split at rejected
  · exact state_opened
  · exact absurd rfl rejected
  · exact absurd rfl rejected

end Opensquid.Runtime
