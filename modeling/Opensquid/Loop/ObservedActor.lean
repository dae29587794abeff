import Mathlib.Data.List.Chain
import Opensquid.Loop.GateDispatch

/-!
# The observed actor

A pack's machine that follows the events of a hook: where the current gate waits for the
event, the gate is evaluated, and decisions are taken up to the next gate. The effects are
for the host to apply; `receive_chain`: the states to write are a walk along declared
transitions from the state the actor was in.
-/

namespace Opensquid.Loop

open Opensquid.Machine

/-- A non-terminating chain of decisions is cut off. -/
def MAX_CHAIN : Nat := 10000

structure V2ObservedActor where
  fsm : Fsm
  entryOf : String → Option StateMeta

namespace V2ObservedActor

inductive Effect
  | writeState (state : String)
  | transition («from» «to» : String)
  | gateAction (action : FailAction) (failureType message : String)
  deriving DecidableEq, Repr

def Effect.written : Effect → Option String
  | .writeState state => some state
  | _ => none

variable (actor : V2ObservedActor) (eval : String → Option Bool)

/-- Is the state one at which the actor waits? -/
def isGate (state : String) : Bool := (actor.entryOf state).any fun entry => entry.kind = .gate

/-- What an advance leaves for the host. -/
def advanceEffects (cur next : String) (notice : Option String) : List Effect :=
  [.writeState next, .transition cur next] ++
    (notice.map fun message => Effect.gateAction .warn cur message).toList

/-- The step of a gate or of a decision. -/
def dispatch (cur : String) (entry : StateMeta) : Option DriverStep :=
  if entry.kind = .gate then evalGate eval actor.fsm cur entry
  else evalDecision eval actor.fsm cur entry

/-- The chain of gates and decisions from a state, at most `fuel` of them; the effects and
the state at its end. -/
def chain : Nat → String → Option (List Effect × String)
  | 0, cur => some ([], cur)
  | fuel + 1, cur => do
      let entry ← actor.entryOf cur
      if entry.kind ≠ .gate ∧ entry.kind ≠ .decision then
        return ([], cur)
      else
        match ← actor.dispatch eval cur entry with
        | .action action message => return ([.gateAction action cur message], cur)
        | .outcome _ _ => return ([], cur)
        | .advance next notice =>
            if actor.isGate next then
              return (advanceEffects cur next notice, next)
            else
              let (effects, last) ← chain fuel next
              return (advanceEffects cur next notice ++ effects, last)

/-- One observed event in a state. -/
def receive (kind cur : String) : Option (List Effect × String) :=
  if (actor.entryOf cur).any fun entry => entry.kind = .gate ∧ kind ∉ entry.trigger.getD [] then
    some ([], cur)
  else
    actor.chain eval MAX_CHAIN cur

/-! ## The states to write -/

variable {actor eval} {cur kind : String} {entry : StateMeta} {next last : String}
  {notice : Option String} {effects : List Effect}

theorem written_advanceEffects :
    (advanceEffects cur next notice).filterMap Effect.written = [next] := by
  cases notice <;> rfl

theorem advanceOn_advance {note : Option String}
    (result : advanceOn actor.fsm cur entry note = some (.advance next notice)) :
    ∃ event, transitionOn actor.fsm cur event = some next := by
  obtain ⟨event, -, result⟩ := Option.bind_eq_some_iff.mp result
  obtain ⟨target, found, result⟩ := Option.bind_eq_some_iff.mp result
  cases result
  exact ⟨event, found⟩

theorem evalGate_advance (result : evalGate eval actor.fsm cur entry = some (.advance next notice)) :
    ∃ event, transitionOn actor.fsm cur event = some next := by
  obtain ⟨ok, -, result⟩ := Option.bind_eq_some_iff.mp result
  split at result
  · exact advanceOn_advance result
  · split at result
    · exact advanceOn_advance result
    · cases result

theorem evalBranches_advance {branches : List DecisionBranch}
    (result : evalBranches eval actor.fsm cur branches = some (.advance next notice)) :
    ∃ event, transitionOn actor.fsm cur event = some next := by
  induction branches with
  | nil => cases result
  | cons branch rest ih =>
      cases branch with
      | otherwise emits =>
          obtain ⟨target, found, advanced⟩ := Option.bind_eq_some_iff.mp result
          cases advanced
          exact ⟨emits, found⟩
      | guarded guard emits =>
          obtain ⟨holds, -, result⟩ := Option.bind_eq_some_iff.mp result
          split at result
          · obtain ⟨target, found, advanced⟩ := Option.bind_eq_some_iff.mp result
            cases advanced
            exact ⟨emits, found⟩
          · exact ih result

theorem dispatch_advance (result : actor.dispatch eval cur entry = some (.advance next notice)) :
    ∃ event, transitionOn actor.fsm cur event = some next := by
  unfold dispatch at result
  split at result
  · exact evalGate_advance result
  · exact evalBranches_advance result

/-- The states written along a chain are each reached from the one before. -/
theorem chain_declared (valid : validateFsm actor.fsm = []) (plain : Plain actor.fsm) {fuel : Nat}
    (known : cur ∈ actor.fsm.states) (result : actor.chain eval fuel cur = some (effects, last)) :
    List.IsChain (fun s t => Declared actor.fsm s t ∧ t ≠ s)
      (cur :: effects.filterMap Effect.written) := by
  induction fuel generalizing cur effects last with
  | zero =>
      cases result
      exact .singleton _
  | succ fuel ih =>
      obtain ⟨entry, found, result⟩ := Option.bind_eq_some_iff.mp result
      split at result
      · cases result
        exact .singleton _
      · obtain ⟨outcome, evaluated, result⟩ := Option.bind_eq_some_iff.mp result
        cases outcome with
        | action action message =>
            cases result
            exact .singleton _
        | outcome outcome reason =>
            cases result
            exact .singleton _
        | advance next notice =>
            obtain ⟨event, moved⟩ := dispatch_advance evaluated
            obtain ⟨declared, other, target⟩ := transitionOn_declared valid plain known moved
            dsimp only at result
            split at result
            · cases result
              rw [written_advanceEffects]
              exact .cons_cons ⟨declared, other⟩ (.singleton _)
            · obtain ⟨⟨more, final⟩, chained, result⟩ := Option.bind_eq_some_iff.mp result
              cases result
              rw [List.filterMap_append, written_advanceEffects, List.singleton_append]
              exact .cons_cons ⟨declared, other⟩ (ih target chained)

theorem receive_chain (valid : validateFsm actor.fsm = []) (plain : Plain actor.fsm)
    (known : cur ∈ actor.fsm.states) (result : actor.receive eval kind cur = some (effects, last)) :
    List.IsChain (fun s t => Declared actor.fsm s t ∧ t ≠ s)
      (cur :: effects.filterMap Effect.written) := by
  unfold receive at result
  split at result
  · cases result
    exact .singleton _
  · exact chain_declared valid plain known result

end V2ObservedActor

end Opensquid.Loop
